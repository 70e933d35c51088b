import Kiyomi.Queue.Sqlite.System

namespace Kiyomi.Queue.Sqlite.System

open Go

/-! # Cancelling a subtree

`CancelJob` marks the live rows of a subtree once. It holds for good as long as no
run of the subtree was already handed to a goroutine and nobody enqueues into the
subtree afterwards: neither `Enqueue` nor `CreateJob` looks at a cancelled ancestor
or at the status that the cancellation wrote. -/

/-- Since the cancellation of `root` in state `s`, no job of its subtree has been
started and the jobs it marked are still failed. -/
structure CancellationFinal (root : String) (s last : System) : Prop where
  noneStarted : ∃ events, last.history = events ++ s.history ∧
    ∀ id, .started id ∈ events → ¬ last.driver.db.InSubtree root id
  markedFailed : ∀ id status, s.driver.db.InSubtree root id →
    s.driver.db.status? id = some status → status.isLive →
    last.driver.db.status? id = some .failed

/-- The subtree query of `root` does not return `id`. -/
def outside (s : System) (root id : String) : Bool :=
  match s.driver.db.jobTree root with
  | none => false
  | some ids => !ids.contains id

/-- No goroutine holds a claimed job of the subtree that it has yet to start. -/
def noneDispatched (s : System) (root : String) : Bool :=
  s.goroutines.all fun goroutine =>
    goroutine.phase != .dispatched || s.outside root goroutine.job.id

/-- The step enqueues no job of the subtree and adds no job under it. -/
def sparesSubtree (root : String) (s : System) : Action → Bool
  | .createJob job => job.parentID.all (s.outside root)
  | .enqueue position _ =>
      match focus position s.created with
      | none => true
      | some (_, job, _) => s.outside root job.id && job.parentID.all (s.outside root)
  | _ => true

theorem not_inSubtree_of_outside {s : System} {root id : String}
    (isOutside : s.outside root id = true) : ¬ s.driver.db.InSubtree root id := by
  unfold outside at isOutside
  split at isOutside
  · contradiction
  · rename_i ids finished
    rw [← Database.mem_jobTree finished]
    simpa using isOutside

theorem not_inSubtree_of_all_outside {s : System} {root : String} {parentID : Option String}
    (allOutside : parentID.all (s.outside root) = true) :
    ∀ parent, parentID = some parent → ¬ s.driver.db.InSubtree root parent := by
  intro parent isParent
  subst isParent
  exact not_inSubtree_of_outside allOutside

/-! ## The invariant of the continuation -/

/-- `s` is the state in which `root` was cancelled. -/
structure Cancelled (root : String) (s later : System) : Prop where
  rooted : s.driver.db.InSubtree root root
  subtree : ∀ id, later.driver.db.InSubtree root id ↔ s.driver.db.InSubtree root id
  settled : ∀ id, s.driver.db.InSubtree root id →
    ∃ status, later.driver.db.status? id = some status ∧ status.isLive = false
  marked : ∀ id status, s.driver.db.InSubtree root id →
    s.driver.db.status? id = some status → status.isLive →
    later.driver.db.status? id = some .failed
  idle : ∀ goroutine ∈ later.goroutines, goroutine.phase = .dispatched →
    ¬ s.driver.db.InSubtree root goroutine.job.id
  history : ∃ events, later.history = events ++ s.history ∧
    ∀ id, .started id ∈ events → ¬ s.driver.db.InSubtree root id

namespace Cancelled

variable {root : String} {s later next : System}

theorem final (inv : Cancelled root s later) : CancellationFinal root s later where
  noneStarted := by
    rcases inv.history with ⟨events, history, spared⟩
    refine ⟨events, history, ?_⟩
    intro id started
    rw [inv.subtree]
    exact spared id started
  markedFailed := inv.marked

/-- A write that leaves every job of the subtree alone. -/
theorem writeOutside (inv : Cancelled root s later) {db : Database}
    (subtree : ∀ id, db.InSubtree root id ↔ later.driver.db.InSubtree root id)
    (unchanged : ∀ id, s.driver.db.InSubtree root id →
      db.status? id = later.driver.db.status? id) :
    Cancelled root s (later.withDatabase db) where
  rooted := inv.rooted
  subtree id := (subtree id).trans (inv.subtree id)
  settled id inSubtree := by
    rw [withDatabase_driver_db, unchanged id inSubtree]
    exact inv.settled id inSubtree
  marked id status inSubtree wasLive live := by
    rw [withDatabase_driver_db, unchanged id inSubtree]
    exact inv.marked id status inSubtree wasLive live
  idle := inv.idle
  history := inv.history

theorem forgetCreated (inv : Cancelled root s later) (created : List Job) :
    Cancelled root s { later with created } :=
  ⟨inv.rooted, inv.subtree, inv.settled, inv.marked, inv.idle, inv.history⟩

theorem createJob (inv : Cancelled root s later) {db : Database} {job : Job}
    (created : later.driver.db.createJob job = .ok db)
    (spared : job.parentID.all (later.outside root) = true) :
    Cancelled root s (later.withDatabase db) := by
  rcases Database.createJob_shape created with ⟨absent, shape⟩
  apply inv.writeOutside
  · intro id
    exact Database.inSubtree_concat shape ((inv.subtree root).mpr inv.rooted)
      (not_inSubtree_of_all_outside spared)
  · intro id inSubtree
    rw [Database.createJob_status? created, if_neg]
    intro same
    rcases inv.settled id inSubtree with ⟨status, present, _⟩
    rw [same, absent] at present
    contradiction

theorem enqueue (inv : Cancelled root s later) {db : Database} {job job' : Job} {now : Time}
    (enqueued : later.driver.db.enqueue job now = .ok (job', db))
    (ownOutside : later.outside root job.id = true)
    (spared : job.parentID.all (later.outside root) = true) :
    Cancelled root s (later.withDatabase db) := by
  apply inv.writeOutside
  · intro id
    rcases Database.enqueue_shape enqueued with ⟨_, same⟩ | ⟨_, added⟩
    · exact Database.inSubtree_congr same
    · exact Database.inSubtree_concat added ((inv.subtree root).mpr inv.rooted)
        (not_inSubtree_of_all_outside spared)
  · intro id inSubtree
    rw [Database.enqueue_status? enqueued, if_neg]
    intro same
    apply not_inSubtree_of_outside ownOutside
    rw [inv.subtree, ← same]
    exact inSubtree

/-- A tick claims pending jobs only, and the subtree has none. -/
theorem tick (inv : Cancelled root s later) {driver : Driver} {jobs : List Job}
    (ticked : Ticked later.driver.db driver.db (jobs.map Job.id)) :
    Cancelled root s
      { later with
        driver
        goroutines := later.goroutines ++ jobs.map fun job => { job, phase := .dispatched } } := by
  have notPending : ∀ id, s.driver.db.InSubtree root id →
      later.driver.db.status? id ≠ some .pending := by
    intro id inSubtree pending
    rcases inv.settled id inSubtree with ⟨status, present, dead⟩
    rw [pending, Option.some.injEq] at present
    subst present
    contradiction
  have unchanged : ∀ id, s.driver.db.InSubtree root id →
      driver.db.status? id = later.driver.db.status? id := by
    intro id inSubtree
    have unclaimed : id ∉ jobs.map Job.id := fun member =>
      notPending id inSubtree (ticked.taken id member).1
    exact (ticked.others id unclaimed).resolve_right fun failed =>
      notPending id inSubtree failed.1
  have written := inv.writeOutside (fun _ => Database.inSubtree_congr ticked.shape) unchanged
  refine ⟨inv.rooted, written.subtree, written.settled, written.marked, ?_, inv.history⟩
  intro goroutine member dispatched
  rcases List.mem_append.mp member with old | new
  · exact inv.idle goroutine old dispatched
  · rcases List.mem_map.mp new with ⟨job, claimed, rfl⟩
    intro inSubtree
    exact notPending job.id inSubtree
      (ticked.taken job.id (List.mem_map_of_mem claimed)).1

/-- Goroutines move on; whatever they start is outside the subtree. -/
theorem advance (inv : Cancelled root s later) (goroutines : List Goroutine)
    (events : List HandlerEvent)
    (idle : ∀ goroutine ∈ goroutines, goroutine.phase = .dispatched →
      goroutine ∈ later.goroutines)
    (spared : ∀ id, .started id ∈ events → ¬ s.driver.db.InSubtree root id) :
    Cancelled root s { later with goroutines, history := events ++ later.history } where
  rooted := inv.rooted
  subtree := inv.subtree
  settled := inv.settled
  marked := inv.marked
  idle goroutine member dispatched :=
    inv.idle goroutine (idle goroutine member dispatched) dispatched
  history := by
    rcases inv.history with ⟨older, history, olderSpared⟩
    refine ⟨events ++ older, by simp [history], ?_⟩
    intro id started
    rcases List.mem_append.mp started with isNew | isOld
    · exact spared id isNew
    · exact olderSpared id isOld

/-- `finalizeJob` writes running rows only, and the subtree has none. -/
theorem finalize (inv : Cancelled root s later) (job : Job) (execErr : Option HandlerError)
    (now : Time) (dbFails : Bool) :
    Cancelled root s
      { later with driver := later.driver.finalizeJob job execErr now dbFails } := by
  have unchanged : ∀ id, s.driver.db.InSubtree root id →
      (later.driver.finalizeJob job execErr now dbFails).db.status? id =
        later.driver.db.status? id := by
    intro id inSubtree
    rcases later.driver.finalizeJob_status? job execErr now dbFails id with same | ⟨_, running, _⟩
    · exact same
    · rcases inv.settled id inSubtree with ⟨status, present, dead⟩
      rw [running, Option.some.injEq] at present
      subst present
      contradiction
  have written := inv.writeOutside
    (fun _ => Database.inSubtree_congr (later.driver.finalizeJob_shape job execErr now dbFails))
    unchanged
  exact ⟨inv.rooted, written.subtree, written.settled, written.marked, inv.idle, inv.history⟩

theorem step (inv : Cancelled root s later) {action : Action}
    (queueStep : isQueueStep action = true) (spares : sparesSubtree root later action = true)
    (taken : later.step action = some next) : Cancelled root s next := by
  cases action with
  | createJob job =>
      rcases step_createJob taken with rfl | ⟨db, created, rfl⟩
      · exact inv
      · exact (inv.createJob created spares).forgetCreated _
  | enqueue position now =>
      rcases step_enqueue taken with ⟨before, job, after, focused, rfl | ⟨job', db, enqueued, rfl⟩⟩
      · exact inv.forgetCreated _
      · simp only [sparesSubtree, focused, Bool.and_eq_true] at spares
        exact (inv.enqueue enqueued spares.1 spares.2).forgetCreated _
  | pollAndDispatch env =>
      rw [step_pollAndDispatch taken]
      exact inv.tick (later.driver.pollAndDispatch_ticked env)
  | startHandler position =>
      rcases step_startHandler taken with ⟨before, job, after, split, rfl⟩
      have waiting := inv.idle { job, phase := .dispatched } (by simp [split]) rfl
      rcases later.start_cases job with ⟨fullJob, started⟩ | ⟨error, refused⟩
      · rw [started]
        apply inv.advance
        · intro goroutine member dispatched
          rw [split]
          simp only [List.mem_append, List.mem_cons] at member ⊢
          rcases member with isBefore | rfl | isAfter
          · exact .inl isBefore
          · contradiction
          · exact .inr (.inr isAfter)
        · intro id isStart
          simp only [List.mem_singleton, HandlerEvent.started.injEq] at isStart
          rw [isStart]
          exact waiting
      · rw [refused]
        apply inv.advance
        · intro goroutine member dispatched
          rw [split]
          simp only [List.mem_append, List.mem_cons] at member ⊢
          rcases member with isBefore | rfl | isAfter
          · exact .inl isBefore
          · contradiction
          · exact .inr (.inr isAfter)
        · intro id isStart
          cases isStart
  | finishHandler position execErr =>
      rcases step_finishHandler taken with ⟨before, job, fullJob, after, split, rfl⟩
      apply inv.advance _ [.returned job.id execErr]
      · intro goroutine member dispatched
        rw [split]
        simp only [List.mem_append, List.mem_cons] at member ⊢
        rcases member with isBefore | rfl | isAfter
        · exact .inl isBefore
        · contradiction
        · exact .inr (.inr isAfter)
      · intro id isStart
        simp at isStart
  | finalizeJob position now dbFails =>
      rcases step_finalizeJob taken with ⟨before, job, execErr, after, split, rfl⟩
      have finalized := inv.finalize job execErr now dbFails
      apply finalized.advance _ []
      · intro goroutine member _
        show goroutine ∈ later.goroutines
        rw [split]
        simp only [List.mem_append, List.mem_cons] at member ⊢
        tauto
      · intro id isStart
        cases isStart
  | cancelJob id now => contradiction
  | deleteJob id => contradiction

end Cancelled

/-- The cancellation itself establishes the invariant. -/
theorem cancelled_of_cancelJob {s : System} {root : String} {now : Time} {db : Database}
    (cancelled : s.driver.db.cancelJob root now = some (.ok db))
    (idle : s.noneDispatched root = true) : Cancelled root s (s.withDatabase db) := by
  rcases Database.cancelJob_status? cancelled with ⟨present, shape, statuses⟩
  refine ⟨.refl present, fun _ => Database.inSubtree_congr shape, ?_, ?_, ?_, [], rfl, ?_⟩
  · intro id inSubtree
    have exists_status : ∃ status, s.driver.db.status? id = some status := by
      rw [← Option.ne_none_iff_exists', Ne, Database.status?_eq_none, not_not]
      exact inSubtree.member_mem
    rcases exists_status with ⟨status, wasStatus⟩
    rcases statuses id status wasStatus with ⟨_, _, failed⟩ | ⟨spared, same⟩
    · exact ⟨.failed, failed, rfl⟩
    · refine ⟨status, same, ?_⟩
      have notLive : ¬ status.isLive = true := fun live => spared ⟨inSubtree, live⟩
      simpa using notLive
  · intro id status inSubtree wasStatus live
    rcases statuses id status wasStatus with ⟨_, _, failed⟩ | ⟨spared, _⟩
    · exact failed
    · exact absurd ⟨inSubtree, live⟩ spared
  · intro goroutine member dispatched
    have checked := List.all_eq_true.mp idle goroutine member
    rw [dispatched] at checked
    exact not_inSubtree_of_outside (by simpa using checked)
  · intro id started
    cases started

/-- In every continuation of a cancellation that caught no run between claim and
start, as long as no step enqueues into the subtree. -/
theorem cancellationFinal_of_sparesSubtree (s : System) (root : String) (now : Time)
    {db : Database} (cancelled : s.driver.db.cancelJob root now = some (.ok db))
    (idle : s.noneDispatched root = true) {actions : List Action} {last : System}
    (run : Run step (fun s action => (isQueueStep action && sparesSubtree root s action) = true)
      (s.withDatabase db) actions last) :
    CancellationFinal root s last := by
  apply Cancelled.final
  apply run.invariant (Cancelled root s)
  · intro state action next allowed inv taken
    rw [Bool.and_eq_true] at allowed
    exact inv.step allowed.1 allowed.2 taken
  · exact cancelled_of_cancelJob cancelled idle

/-- Cancel a job whose handler is running; the run ends and the next tick finds
nothing to claim. -/
theorem cancellationFinal_of_sparesSubtree_running_job :
    ∃ s db last,
      s.driver.db.cancelJob "page-1" Time.zero = some (.ok db) ∧
      Run step (fun s action => (isQueueStep action && sparesSubtree "page-1" s action) = true)
        (s.withDatabase db)
        [.finishHandler 0 none, .finalizeJob 0 Time.zero false,
          .pollAndDispatch (PollEnv.quiet Time.zero)] last ∧
      last.history = [.returned "page-1" none, .started "page-1"] ∧
      CancellationFinal "page-1" s last := by
  have executed : ((Run.execute step (fun _ _ => true)
      (boot Database.empty ["pull_page"] (fun _ => none) 2)
      [.createJob (Job.child "page-1" none "pull_page" "{}" "" [] Time.zero),
        .enqueue 0 Time.zero, .pollAndDispatch (PollEnv.quiet Time.zero),
        .startHandler 0]).bind fun s =>
      (s.driver.db.cancelJob "page-1" Time.zero).bind fun outcome =>
        outcome.toOption.bind fun db =>
          (Run.execute step
            (fun s action => isQueueStep action && sparesSubtree "page-1" s action)
            (s.withDatabase db)
            [.finishHandler 0 none, .finalizeJob 0 Time.zero false,
              .pollAndDispatch (PollEnv.quiet Time.zero)]).map fun last =>
            (s.noneDispatched "page-1", last.history)) =
      some (true, [.returned "page-1" none, .started "page-1"]) := by decide
  rcases Option.bind_eq_some_iff.mp executed with ⟨s, _, afterSetup⟩
  rcases Option.bind_eq_some_iff.mp afterSetup with ⟨outcome, cancelled, afterCancel⟩
  rcases Option.bind_eq_some_iff.mp afterCancel with ⟨db, isOk, continued⟩
  rcases Option.map_eq_some_iff.mp continued with ⟨last, continuation, observed⟩
  cases outcome with
  | error error => contradiction
  | ok database =>
      cases isOk
      rw [Prod.mk.injEq] at observed
      have run := Run.ofExecute continuation
      exact ⟨s, db, last, cancelled, run, observed.2,
        cancellationFinal_of_sparesSubtree s "page-1" Time.zero cancelled observed.1 run⟩

/-- A job cancelled between its `CreateJob` and its `Enqueue` is pending again. -/
theorem enqueue_revives_cancelled_job :
    ¬ ∀ setup s,
      Run step (fun _ _ => true = true)
        (boot Database.empty ["pull_page"] (fun _ => none) 2) setup s →
      ∀ root now db, s.driver.db.cancelJob root now = some (.ok db) →
      ∀ actions last,
        Run step (fun _ action => isQueueStep action = true) (s.withDatabase db) actions last →
        CancellationFinal root s last := by
  intro claimed
  have executed : ((Run.execute step (fun _ _ => true)
      (boot Database.empty ["pull_page"] (fun _ => none) 2)
      [.createJob (Job.child "page-1" none "pull_page" "{}" "" [] Time.zero)]).bind fun s =>
      (s.driver.db.cancelJob "page-1" Time.zero).bind fun outcome =>
        outcome.toOption.bind fun db =>
          (Run.execute step (fun _ action => isQueueStep action) (s.withDatabase db)
            [.enqueue 0 Time.zero]).map fun last =>
            (s.driver.db.jobTree "page-1", s.driver.db.status? "page-1",
              last.driver.db.status? "page-1")) =
      some (some ["page-1"], some .pending, some .pending) := by decide
  rcases Option.bind_eq_some_iff.mp executed with ⟨s, setup, afterSetup⟩
  rcases Option.bind_eq_some_iff.mp afterSetup with ⟨outcome, cancelled, afterCancel⟩
  rcases Option.bind_eq_some_iff.mp afterCancel with ⟨db, isOk, continued⟩
  rcases Option.map_eq_some_iff.mp continued with ⟨last, continuation, observed⟩
  cases outcome with
  | error error => contradiction
  | ok database =>
      cases isOk
      simp only [Prod.mk.injEq] at observed
      rcases observed with ⟨tree, before, after⟩
      have final := claimed _ s (Run.ofExecute setup) "page-1" Time.zero db cancelled _
        last (Run.ofExecute continuation)
      have inSubtree : s.driver.db.InSubtree "page-1" "page-1" :=
        (Database.mem_jobTree tree "page-1").mp (by simp)
      have failed := final.markedFailed "page-1" .pending inSubtree before rfl
      rw [after] at failed
      contradiction

end Kiyomi.Queue.Sqlite.System
