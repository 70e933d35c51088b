import Kiyomi.Queue.Sqlite.Cleanup
import Kiyomi.Queue.Sqlite.System

namespace Kiyomi.Queue.Sqlite

open Go

/-! # Crashes and restarts

The database outlives the process; goroutines, counters and the callers in the middle of
a request do not. `NewDriver` creates what is missing of the schema and leaves the rows
alone, and `Start` only begins to poll. -/

/-- What happens to the process and its database. -/
inductive Event
  | step (action : Action)
  | updateJob (job : Job)
  | cleanupJobs (options : CleanupOptions) (completedNow failedNow : Time)
  | crash (handlers : List String) (groupLimits : String → Option Int) (maxConcurrency : Int)

namespace System

/-- A crash is followed by `NewDriver` on the same file, `Register` and `Start`. A crash
inside a transaction is one before it. -/
def happens : StepFunction System Event
  | s, .step action => s.step action
  | s, .updateJob job =>
      match s.driver.db.updateJob job with
      | .error _ => some s
      | .ok db => some (s.withDatabase db)
  | s, .cleanupJobs options completedNow failedNow =>
      (s.driver.db.cleanupJobs options completedNow failedNow).map fun pruned =>
        s.withDatabase pruned.2
  | s, .crash handlers groupLimits maxConcurrency =>
      some (boot s.driver.db handlers groupLimits maxConcurrency)

/-- A goroutine is between claim and finalisation of the job. -/
def hasRun (s : System) (id : String) : Bool :=
  s.goroutines.any fun goroutine => goroutine.job.id == id

/-- Every running row has a run in this process. -/
def NoStranded (s : System) : Prop :=
  ∀ id, s.driver.db.status? id = some .running → s.hasRun id = true

/-- The event does not end the only run of a running row without writing the row, and
writes no running row without a run. -/
def losesNoRun (s : System) : Event → Bool
  | .step (.finalizeJob position _ dbFails) =>
      match focus position s.goroutines with
      | none => true
      | some (before, goroutine, after) =>
          !dbFails || s.driver.db.status? goroutine.job.id != some .running ||
            (before ++ after).any fun other => other.job.id == goroutine.job.id
  | .updateJob job =>
      match s.driver.db.updateJob job with
      | .error _ => true
      | .ok _ => job.status != .running || s.hasRun job.id
  | .crash .. => s.driver.db.jobs.rows.all fun row => row.status != .running
  | _ => true

/-! ## What an event does to the running rows -/

variable {s s' : System}

theorem hasRun_iff {id : String} :
    s.hasRun id = true ↔ ∃ goroutine ∈ s.goroutines, goroutine.job.id = id := by
  simp [hasRun]

/-- No row becomes running, and no run ends. -/
theorem NoStranded.mono (noStranded : s.NoStranded)
    (running : ∀ id, s'.driver.db.status? id = some .running →
      s.driver.db.status? id = some .running)
    (runs : s'.goroutines.map (fun goroutine => goroutine.job.id) =
      s.goroutines.map fun goroutine => goroutine.job.id) : s'.NoStranded := by
  intro id isRunning
  rcases hasRun_iff.mp (noStranded id (running id isRunning)) with ⟨goroutine, member, sameId⟩
  have listed : id ∈ s'.goroutines.map fun goroutine => goroutine.job.id := by
    rw [runs]
    exact List.mem_map.mpr ⟨goroutine, member, sameId⟩
  rcases List.mem_map.mp listed with ⟨other, otherMember, otherId⟩
  exact hasRun_iff.mpr ⟨other, otherMember, otherId⟩

end System

namespace Database

variable {db db' : Database}

/-- Removing rows makes none running. -/
theorem status?_running_of_subset (subset : ∀ row ∈ db'.jobs.rows, row ∈ db.jobs.rows)
    {id : String} (running : db'.status? id = some .running) :
    db.status? id = some .running := by
  rcases status?_eq_some.mp running with ⟨row, member, isRow⟩
  exact status?_eq_some.mpr ⟨row, subset row member, isRow⟩

theorem deleteEach_subset (ids : List String) {deleted deleted' : Nat}
    (finished : jobStore.deleteEach db deleted ids = some (db', deleted')) :
    ∀ row ∈ db'.jobs.rows, row ∈ db.jobs.rows := by
  induction ids generalizing db deleted with
  | nil =>
      rw [JobStore.deleteEach, Option.some.injEq, Prod.mk.injEq] at finished
      rw [finished.1]
      exact fun _ member => member
  | cons id ids induction =>
      rw [JobStore.deleteEach] at finished
      split at finished
      · contradiction
      · exact induction finished
      · rename_i middle removed
        intro row member
        exact ((deleteJob_rows removed row).mp (induction finished row member)).1

theorem cleanupJobs_subset {options : CleanupOptions} {completedNow failedNow : Time}
    {pruned : Nat × Database}
    (cleaned : db.cleanupJobs options completedNow failedNow = some pruned) :
    ∀ row ∈ pruned.2.jobs.rows, row ∈ db.jobs.rows := by
  rcases Option.bind_eq_some_iff.mp cleaned with ⟨rootIDs, _, deleted⟩
  rcases Option.map_eq_some_iff.mp deleted with ⟨last, finished, rfl⟩
  exact deleteEach_subset _ finished

theorem cancelJob_running {root id : String} {now : Time}
    (cancelled : db.cancelJob root now = some (.ok db'))
    (running : db'.status? id = some .running) : db.status? id = some .running := by
  rcases cancelJob_status? cancelled with ⟨_, shape, statuses⟩
  cases before : db.status? id with
  | none =>
      have ids : db'.jobs.rows.map Row.id = db.jobs.rows.map Row.id := by
        have keys := congrArg (List.map Prod.fst) shape
        simpa [Database.shape, Function.comp_def] using keys
      have gone : db'.status? id = none := by
        rw [status?_eq_none] at before ⊢
        rwa [ids]
      rw [gone] at running
      contradiction
  | some status =>
      rcases statuses id status before with ⟨_, _, failed⟩ | ⟨_, same⟩
      · rw [failed] at running
        contradiction
      · rwa [← same]

theorem updateJob_status? {job : Job} (updated : db.updateJob job = .ok db') (id : String) :
    db'.status? id = if id = job.id then some job.status else db.status? id := by
  unfold updateJob at updated
  split at updated
  · rename_i contained
    simp only at updated
    split at updated
    · contradiction
    · cases updated
      rw [update_key_status? db job.id _ job.status (fun _ => rfl)]
      by_cases same : id = job.id
      · have present : db.status? id ≠ none := by
          rw [Ne, status?_eq_none, same, not_not]
          exact JobTable.contains_iff.mp contained
        cases status : db.status? id with
        | none => exact absurd status present
        | some old => simp [same]
      · simp [same]
  · contradiction

end Database

theorem Driver.finalizeJob_writes (d : Driver) (job : Job) (execErr : Option HandlerError)
    (now : Time) : (d.finalizeJob job execErr now false).db.status? job.id ≠ some .running := by
  have written : (d.finalizeJob job execErr now false).db.status? job.id =
      (d.db.jobs.find? job.id).map fun row =>
        if row.id == job.id && row.status == .running
        then (finishedRow job execErr now row).status else row.status :=
    Database.update_status? d.db _ _ _ job.id
  have finished : ∀ row, (finishedRow job execErr now row).status ≠ .running := by
    intro row
    unfold finishedRow
    cases execErr with
    | none => simp
    | some error => simp only; split <;> simp
  rw [written]
  cases found : d.db.jobs.find? job.id with
  | none => simp
  | some row =>
      have sameId : row.id = job.id := (JobTable.find?_eq_some.mp found).2
      by_cases running : row.status = .running
      · simpa [sameId, running] using finished row
      · simp [running]

namespace System

variable {s s' : System}

theorem NoStranded.finalize (noStranded : s.NoStranded) {position : Nat} {now : Time}
    {dbFails : Bool} (taken : s.step (.finalizeJob position now dbFails) = some s') :
    s'.NoStranded ↔ s.losesNoRun (.step (.finalizeJob position now dbFails)) = true := by
  simp only [System.step] at taken
  split at taken
  · rename_i before job execErr after focused
    cases taken
    have goroutines := focus_eq focused
    have runs : ∀ id, s.hasRun id = true ↔ id = job.id ∨
        ∃ other ∈ before ++ after, other.job.id = id := by
      intro id
      rw [hasRun_iff, goroutines]
      simp only [List.mem_append, List.mem_cons]
      constructor
      · intro found
        rcases found with ⟨goroutine, inBefore | rfl | inAfter, rfl⟩
        · exact .inr ⟨goroutine, .inl inBefore, rfl⟩
        · exact .inl rfl
        · exact .inr ⟨goroutine, .inr inAfter, rfl⟩
      · intro found
        rcases found with rfl | ⟨goroutine, member, rfl⟩
        · exact ⟨_, .inr (.inl rfl), rfl⟩
        · exact ⟨goroutine, member.elim .inl fun inAfter => .inr (.inr inAfter), rfl⟩
    have others : ∀ id, id ≠ job.id → s.hasRun id = true →
        ∃ other ∈ before ++ after, other.job.id = id :=
      fun id different hasRun => ((runs id).mp hasRun).resolve_left different
    simp only [losesNoRun, focused, NoStranded, hasRun_iff]
    cases dbFails with
    | false =>
        -- the row is written, so it does not run any more
        simp only [Bool.not_false, Bool.true_or, iff_true]
        intro id running
        have different : id ≠ job.id := by
          rintro rfl
          exact s.driver.finalizeJob_writes job execErr now running
        rcases s.driver.finalizeJob_status? job execErr now false id with same | isJob
        · exact others id different (noStranded id (same ▸ running))
        · exact absurd isJob.1 different
    | true =>
        have unwritten : (s.driver.finalizeJob job execErr now true).db = s.driver.db := rfl
        simp only [unwritten, Bool.not_true, Bool.false_or, Bool.or_eq_true, bne_iff_ne, ne_eq,
          List.any_eq_true, beq_iff_eq]
        constructor
        · intro stays
          by_cases running : s.driver.db.status? job.id = some .running
          · exact .inr (stays job.id running)
          · exact .inl running
        · intro spared id running
          by_cases same : id = job.id
          · subst same
            exact spared.resolve_left (not_not_intro running)
          · exact others id same (noStranded id running)
  · contradiction

/-- A step of the queue that is permitted keeps every running row with its run. -/
theorem NoStranded.step (noStranded : s.NoStranded) {action : Action}
    (taken : s.step action = some s') :
    s'.NoStranded ↔ s.losesNoRun (.step action) = true := by
  cases action with
  | createJob job =>
      refine iff_of_true ?_ rfl
      rcases step_createJob taken with rfl | ⟨db, created, rfl⟩
      · exact noStranded
      · refine noStranded.mono (fun id running => ?_) rfl
        rw [withDatabase_driver_db, Database.createJob_status? created] at running
        split at running
        · simp at running
        · exact running
  | enqueue position now =>
      refine iff_of_true ?_ rfl
      rcases step_enqueue taken with ⟨before, job, after, focused, rfl | ⟨job', db, enqueued, rfl⟩⟩
      · exact noStranded
      · refine noStranded.mono (fun id running => ?_) rfl
        rw [withDatabase_driver_db, Database.enqueue_status? enqueued] at running
        split at running
        · contradiction
        · exact running
  | pollAndDispatch env =>
      refine iff_of_true ?_ rfl
      rw [step_pollAndDispatch taken]
      have ticked := s.driver.pollAndDispatch_ticked env
      intro id running
      rw [hasRun_iff]
      by_cases claimed : id ∈ (s.driver.pollAndDispatch env).2.map Job.id
      · rcases List.mem_map.mp claimed with ⟨job, member, rfl⟩
        exact ⟨_, List.mem_append_right _ (List.mem_map_of_mem member), rfl⟩
      · rcases ticked.others id claimed with same | failed
        · rcases hasRun_iff.mp (noStranded id (same ▸ running)) with ⟨goroutine, member, sameId⟩
          exact ⟨goroutine, List.mem_append_left _ member, sameId⟩
        · rw [failed.2] at running
          contradiction
  | startHandler position =>
      refine iff_of_true ?_ rfl
      rcases step_startHandler taken with ⟨before, job, after, split, rfl⟩
      exact noStranded.mono (fun _ running => running) (by simp [split])
  | finishHandler position execErr =>
      refine iff_of_true ?_ rfl
      rcases step_finishHandler taken with ⟨before, job, fullJob, after, split, rfl⟩
      exact noStranded.mono (fun _ running => running) (by simp [split])
  | finalizeJob position now dbFails => exact noStranded.finalize taken
  | cancelJob id now =>
      refine iff_of_true ?_ rfl
      rcases step_cancelJob taken with rfl | ⟨db, cancelled, rfl⟩
      · exact noStranded
      · exact noStranded.mono (fun _ running => Database.cancelJob_running cancelled running) rfl
  | deleteJob id =>
      refine iff_of_true ?_ rfl
      rcases step_deleteJob taken with rfl | ⟨db, deleted, rfl⟩
      · exact noStranded
      · refine noStranded.mono (fun _ running => ?_) rfl
        exact Database.status?_running_of_subset
          (fun row member => ((Database.deleteJob_rows deleted row).mp member).1) running

/-- An event keeps every running row with its run if and only if it loses no run. -/
theorem NoStranded.happens (noStranded : s.NoStranded) {event : Event}
    (taken : s.happens event = some s') : s'.NoStranded ↔ s.losesNoRun event = true := by
  cases event with
  | step action => exact noStranded.step taken
  | updateJob job =>
      simp only [System.happens] at taken
      cases updated : s.driver.db.updateJob job with
      | error error =>
          rw [updated] at taken
          cases taken
          exact iff_of_true noStranded (by rw [losesNoRun, updated])
      | ok db =>
          rw [updated] at taken
          cases taken
          have statuses := Database.updateJob_status? updated
          simp only [losesNoRun, updated, Bool.or_eq_true, bne_iff_ne, ne_eq]
          constructor
          · intro stays
            by_cases running : job.status = .running
            · right
              apply stays job.id
              simp [statuses, running]
            · exact .inl running
          · intro spared id running
            rw [withDatabase_driver_db, statuses] at running
            split at running
            · rename_i same
              subst same
              exact spared.resolve_left (not_not_intro (Option.some.inj running))
            · exact noStranded id running
  | cleanupJobs options completedNow failedNow =>
      refine iff_of_true ?_ rfl
      rcases Option.map_eq_some_iff.mp taken with ⟨pruned, cleaned, rfl⟩
      refine noStranded.mono (fun _ running => ?_) rfl
      exact Database.status?_running_of_subset (Database.cleanupJobs_subset cleaned) running
  | crash handlers groupLimits maxConcurrency =>
      cases taken
      simp only [losesNoRun, List.all_eq_true, bne_iff_ne, ne_eq]
      constructor
      · intro stays row member running
        have stranded := stays row.id (Database.status?_eq_some.mpr ⟨row, member, rfl, running⟩)
        simp [hasRun, boot] at stranded
      · intro idle id running
        rcases Database.status?_eq_some.mp running with ⟨row, member, _, isRunning⟩
        exact absurd isRunning (idle row member)

/-- Over every sequence of queue steps, crashes and restarts on a database without
running rows in which no event loses a run, every running row has a run in this
process. From there on the condition on an event is exact. -/
theorem noStranded_of_losesNoRun (handlers : List String)
    (groupLimits : String → Option Int) (maxConcurrency : Int) {db : Database}
    (idle : ∀ row ∈ db.jobs.rows, row.status ≠ .running) {events : List Event} {last : System}
    (run : Run happens (fun s event => s.losesNoRun event = true)
      (boot db handlers groupLimits maxConcurrency) events last) :
    last.NoStranded ∧ ∀ event next, last.happens event = some next →
      (next.NoStranded ↔ last.losesNoRun event = true) := by
  have noStranded : last.NoStranded := by
    apply run.invariant NoStranded
    · intro state event next spared noStranded taken
      exact (noStranded.happens taken).mpr spared
    · intro id running
      rcases Database.status?_eq_some.mp running with ⟨row, member, _, isRunning⟩
      exact absurd isRunning (idle row member)
  exact ⟨noStranded, fun _ _ taken => noStranded.happens taken⟩

/-- A job that fails once, a restart in the pause before its second run, and that run. -/
theorem noStranded_of_losesNoRun_between_runs :
    ∃ last,
      Run happens (fun s event => s.losesNoRun event = true)
        (boot Database.empty ["pull_page"] (fun _ => none) 2)
        [.step (.createJob (Job.child "page-1" none "pull_page" "{}" "" [] Time.zero)),
          .step (.enqueue 0 Time.zero), .step (.pollAndDispatch (PollEnv.quiet Time.zero)),
          .step (.startHandler 0), .step (.finishHandler 0 (some ⟨"timeout", false⟩)),
          .step (.finalizeJob 0 Time.zero false), .crash ["pull_page"] (fun _ => none) 2,
          .step (.pollAndDispatch (PollEnv.quiet Time.zero)), .step (.startHandler 0)] last ∧
      last.history = [.started "page-1"] ∧ last.NoStranded := by
  have executed : (Run.execute happens (fun s event => s.losesNoRun event)
      (boot Database.empty ["pull_page"] (fun _ => none) 2)
      [.step (.createJob (Job.child "page-1" none "pull_page" "{}" "" [] Time.zero)),
        .step (.enqueue 0 Time.zero), .step (.pollAndDispatch (PollEnv.quiet Time.zero)),
        .step (.startHandler 0), .step (.finishHandler 0 (some ⟨"timeout", false⟩)),
        .step (.finalizeJob 0 Time.zero false), .crash ["pull_page"] (fun _ => none) 2,
        .step (.pollAndDispatch (PollEnv.quiet Time.zero)), .step (.startHandler 0)]).map history =
      some [.started "page-1"] := by decide +kernel
  rcases Option.map_eq_some_iff.mp executed with ⟨last, executed, history⟩
  have run := Run.ofExecute executed
  exact ⟨last, run, history, (noStranded_of_losesNoRun _ _ _ (by simp [Database.empty,
    JobTable.empty]) run).1⟩

/-- A crash in the middle of a handler run leaves a running row behind. -/
theorem crash_strands_running_job :
    ¬ ∀ events last,
      Run happens (fun _ _ => True) (boot Database.empty ["pull_page"] (fun _ => none) 2)
        events last → last.NoStranded := by
  intro claimed
  have executed : (Run.execute happens (fun _ _ => true)
      (boot Database.empty ["pull_page"] (fun _ => none) 2)
      [.step (.createJob (Job.child "page-1" none "pull_page" "{}" "" [] Time.zero)),
        .step (.enqueue 0 Time.zero), .step (.pollAndDispatch (PollEnv.quiet Time.zero)),
        .step (.startHandler 0), .crash ["pull_page"] (fun _ => none) 2,
        .step (.pollAndDispatch (PollEnv.quiet Time.zero))]).map
      (fun last => (last.driver.db.status? "page-1", last.hasRun "page-1")) =
      some (some .running, false) := by decide +kernel
  rcases Option.map_eq_some_iff.mp executed with ⟨last, executed, observed⟩
  rw [Prod.mk.injEq] at observed
  have hasRun := claimed _ last ((Run.ofExecute executed).weaken fun _ _ _ => trivial)
    "page-1" observed.1
  rw [observed.2] at hasRun
  contradiction

end System

end Kiyomi.Queue.Sqlite
