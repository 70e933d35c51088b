import Kiyomi.Queue.Sqlite.System

namespace Kiyomi.Queue.Sqlite.System

open Go

/-! # Handlers run a job at most once

A job has at most one handler run in progress, and none is started after one has
returned nil. `Enqueue` writes the status of a row without looking at it, so this
rests on every `Enqueue` finding its job before the worker has claimed it or after
it failed. -/

/-- The jobs of the handler runs in progress. -/
def handlerRuns (s : System) : List String :=
  s.goroutines.filterMap fun goroutine =>
    match goroutine.phase with
    | .handling _ => some goroutine.job.id
    | _ => none

/-- In a history with the newest event first, no run follows a successful one. -/
def NeverRestarted (history : List HandlerEvent) : Prop :=
  ∀ newer older id, history = newer ++ .returned id none :: older → .started id ∉ newer

structure AtMostOnce (s : System) : Prop where
  exclusive : s.handlerRuns.Nodup
  final : NeverRestarted s.history

/-- An `Enqueue` meets a row that is neither running nor completed. -/
def enqueueFindsWaiting (s : System) : Action → Bool
  | .enqueue position _ =>
      match focus position s.created with
      | none => true
      | some (_, job, _) =>
          s.driver.db.status? job.id != some .running &&
            s.driver.db.status? job.id != some .completed
  | _ => true

/-! ## The invariant -/

structure Exclusive (s : System) : Prop where
  goroutines : (s.goroutines.map fun goroutine => goroutine.job.id).Nodup
  running : ∀ goroutine ∈ s.goroutines, s.driver.db.status? goroutine.job.id = some .running
  succeeded : ∀ id, .returned id none ∈ s.history →
    (s.driver.db.status? id = some .running ∨ s.driver.db.status? id = some .completed) ∧
    ∀ goroutine ∈ s.goroutines, goroutine.job.id = id → goroutine.phase = .returned none
  final : NeverRestarted s.history

theorem NeverRestarted.returned {history : List HandlerEvent} (never : NeverRestarted history)
    (id : String) (execErr : Option HandlerError) :
    NeverRestarted (.returned id execErr :: history) := by
  intro newer older other split restarted
  cases newer with
  | nil => simp at restarted
  | cons event newer =>
      rw [List.cons_append, List.cons.injEq] at split
      rcases List.mem_cons.mp restarted with isHead | inTail
      · rw [← split.1] at isHead
        contradiction
      · exact never newer older other split.2 inTail

theorem NeverRestarted.started {history : List HandlerEvent} (never : NeverRestarted history)
    {id : String} (unfinished : .returned id none ∉ history) :
    NeverRestarted (.started id :: history) := by
  intro newer older other split restarted
  cases newer with
  | nil => simp at split
  | cons event newer =>
      rw [List.cons_append, List.cons.injEq] at split
      rcases List.mem_cons.mp restarted with isHead | inTail
      · rw [← split.1, HandlerEvent.started.injEq] at isHead
        apply unfinished
        rw [split.2, ← isHead]
        simp
      · exact never newer older other split.2 inTail

theorem Exclusive.atMostOnce {s : System} (inv : Exclusive s) : AtMostOnce s where
  exclusive := by
    apply List.Nodup.sublist _ inv.goroutines
    have picks : ∀ goroutines : List Goroutine,
        (goroutines.filterMap fun goroutine =>
          match goroutine.phase with
          | .handling _ => some goroutine.job.id
          | _ => none).Sublist (goroutines.map fun goroutine => goroutine.job.id) := by
      intro goroutines
      induction goroutines with
      | nil => exact .slnil
      | cons goroutine goroutines induction =>
          rw [List.filterMap_cons, List.map_cons]
          cases goroutine.phase with
          | handling fullJob => exact induction.cons_cons _
          | dispatched => exact induction.cons _
          | returned execErr => exact induction.cons _
    exact picks s.goroutines
  final := inv.final

variable {s s' : System}

/-- Setting a job to pending is harmless while it is neither running nor completed. -/
theorem Exclusive.setPending (inv : Exclusive s) {id : String}
    (notRunning : s.driver.db.status? id ≠ some .running)
    (notCompleted : s.driver.db.status? id ≠ some .completed)
    (written : ∀ other, s'.driver.db.status? other =
      if other = id then some .pending else s.driver.db.status? other)
    (goroutines : s'.goroutines = s.goroutines) (history : s'.history = s.history) :
    Exclusive s' := by
  refine ⟨goroutines ▸ inv.goroutines, ?_, ?_, history ▸ inv.final⟩
  · intro goroutine member
    rw [goroutines] at member
    have running := inv.running goroutine member
    have different : goroutine.job.id ≠ id := fun same => notRunning (same ▸ running)
    rw [written, if_neg different, running]
  · intro other succeeded
    rw [history] at succeeded
    rcases inv.succeeded other succeeded with ⟨status, phases⟩
    have different : other ≠ id := by
      intro same
      rw [same] at status
      exact status.elim notRunning notCompleted
    rw [written, if_neg different, goroutines]
    exact ⟨status, phases⟩

theorem Exclusive.tick (inv : Exclusive s) {driver : Driver} {jobs : List Job}
    (ticked : Ticked s.driver.db driver.db (jobs.map Job.id)) :
    Exclusive
      { s with
        driver
        goroutines := s.goroutines ++ jobs.map fun job => { job, phase := .dispatched } } := by
  have unclaimed : ∀ id, s.driver.db.status? id = some .running ∨
      s.driver.db.status? id = some .completed →
      id ∉ jobs.map Job.id ∧ driver.db.status? id = s.driver.db.status? id := by
    intro id status
    have fresh : id ∉ jobs.map Job.id := by
      intro member
      rw [(ticked.taken id member).1] at status
      simp at status
    refine ⟨fresh, (ticked.others id fresh).resolve_right ?_⟩
    intro failed
    rw [failed.1] at status
    simp at status
  refine ⟨?_, ?_, ?_, inv.final⟩
  · rw [List.map_append, List.map_map]
    refine List.nodup_append.mpr ⟨inv.goroutines, ticked.nodup, ?_⟩
    intro left leftMember right rightMember equal
    rcases List.mem_map.mp leftMember with ⟨goroutine, member, rfl⟩
    have fresh := (unclaimed _ (.inl (inv.running goroutine member))).1
    exact fresh (equal ▸ rightMember)
  · intro goroutine member
    rcases List.mem_append.mp member with old | new
    · have running := inv.running goroutine old
      rw [(unclaimed _ (.inl running)).2]
      exact running
    · rcases List.mem_map.mp new with ⟨job, claimed, rfl⟩
      exact (ticked.taken job.id (List.mem_map_of_mem claimed)).2
  · intro id succeeded
    rcases inv.succeeded id succeeded with ⟨status, phases⟩
    rcases unclaimed id status with ⟨fresh, same⟩
    refine ⟨by rw [same]; exact status, ?_⟩
    intro goroutine member sameId
    rcases List.mem_append.mp member with old | new
    · exact phases goroutine old sameId
    · rcases List.mem_map.mp new with ⟨job, claimed, rfl⟩
      exact absurd (sameId ▸ List.mem_map_of_mem claimed) fresh

section Goroutine

variable {before after : List Goroutine} {job : Job} {old new : RunPhase}

/-- Goroutines other than the one in focus belong to other jobs. -/
theorem Exclusive.others (inv : Exclusive s)
    (split : s.goroutines = before ++ { job, phase := old } :: after) {goroutine : Goroutine}
    (member : goroutine ∈ before ++ after) : goroutine.job.id ≠ job.id := by
  have nodup := inv.goroutines
  rw [split, List.map_append, List.map_cons, List.nodup_middle, List.nodup_cons,
    ← List.map_append] at nodup
  intro same
  exact nodup.1 (same ▸ List.mem_map_of_mem member)

/-- A goroutine moves to another phase and may add an event about its own job. -/
theorem Exclusive.advance (inv : Exclusive s) (events : List HandlerEvent)
    (split : s.goroutines = before ++ { job, phase := old } :: after)
    (unfinished : old ≠ .returned none)
    (final : .returned job.id none ∉ s.history → NeverRestarted (events ++ s.history))
    (own : ∀ id, .returned id none ∈ events → id = job.id ∧ new = .returned none) :
    Exclusive
      { s with
        goroutines := before ++ { job, phase := new } :: after
        history := events ++ s.history } := by
  have member : { job, phase := old } ∈ s.goroutines := by simp [split]
  have fresh : .returned job.id none ∉ s.history := fun succeeded =>
    unfinished ((inv.succeeded job.id succeeded).2 _ member rfl)
  have running : s.driver.db.status? job.id = some .running := inv.running _ member
  have cases_of : ∀ goroutine ∈ before ++ { job, phase := new } :: after,
      goroutine = { job, phase := new } ∨ goroutine ∈ before ++ after := by
    intro goroutine inside
    simp only [List.mem_append, List.mem_cons] at inside ⊢
    tauto
  have old_mem : ∀ goroutine ∈ before ++ after, goroutine ∈ s.goroutines := by
    intro goroutine inside
    rw [split]
    simp only [List.mem_append, List.mem_cons] at inside ⊢
    tauto
  refine ⟨?_, ?_, ?_, final fresh⟩
  · have nodup := inv.goroutines
    rw [split] at nodup
    simpa using nodup
  · intro goroutine inside
    rcases cases_of goroutine inside with rfl | other
    · exact running
    · exact inv.running goroutine (old_mem goroutine other)
  · intro id succeeded
    rcases List.mem_append.mp succeeded with isNew | isOld
    · rcases own id isNew with ⟨rfl, isReturned⟩
      refine ⟨.inl running, ?_⟩
      intro goroutine inside sameId
      rcases cases_of goroutine inside with rfl | other
      · exact isReturned
      · exact absurd sameId (inv.others split other)
    · rcases inv.succeeded id isOld with ⟨status, phases⟩
      refine ⟨status, ?_⟩
      intro goroutine inside sameId
      rcases cases_of goroutine inside with rfl | other
      · exact absurd (sameId ▸ isOld) fresh
      · exact phases goroutine (old_mem goroutine other) sameId

theorem Exclusive.finalize (inv : Exclusive s) {execErr : Option HandlerError}
    (split : s.goroutines = before ++ { job, phase := .returned execErr } :: after)
    (now : Time) (dbFails : Bool) :
    Exclusive
      { s with
        driver := s.driver.finalizeJob job execErr now dbFails
        goroutines := before ++ after } := by
  have old_mem : ∀ goroutine ∈ before ++ after, goroutine ∈ s.goroutines := by
    intro goroutine inside
    rw [split]
    simp only [List.mem_append, List.mem_cons] at inside ⊢
    tauto
  have written := s.driver.finalizeJob_status? job execErr now dbFails
  refine ⟨?_, ?_, ?_, inv.final⟩
  · have nodup := inv.goroutines
    rw [split, List.map_append, List.map_cons, List.nodup_middle, List.nodup_cons,
      ← List.map_append] at nodup
    exact nodup.2
  · intro goroutine inside
    have different := inv.others split inside
    rcases written goroutine.job.id with same | ⟨isJob, _⟩
    · rw [same]
      exact inv.running goroutine (old_mem goroutine inside)
    · exact absurd isJob different
  · intro id succeeded
    rcases inv.succeeded id succeeded with ⟨status, phases⟩
    refine ⟨?_, fun goroutine inside => phases goroutine (old_mem goroutine inside)⟩
    rcases written id with same | ⟨rfl, _, completes⟩
    · rw [same]
      exact status
    · right
      apply completes
      have returned := phases { job, phase := .returned execErr } (by simp [split]) rfl
      exact RunPhase.returned.inj returned

end Goroutine

/-- No permitted step lets two runs of a job meet or restarts a finished job. -/
theorem Exclusive.step (inv : Exclusive s) {action : Action}
    (queueStep : isQueueStep action = true) (waiting : s.enqueueFindsWaiting action = true)
    (taken : s.step action = some s') : Exclusive s' := by
  cases action with
  | createJob job =>
      rcases step_createJob taken with rfl | ⟨db, created, rfl⟩
      · exact inv
      · have absent := (Database.createJob_shape created).1
        exact inv.setPending (by simp [absent]) (by simp [absent])
          (Database.createJob_status? created) rfl rfl
  | enqueue position now =>
      rcases step_enqueue taken with ⟨before, job, after, focused, rfl | ⟨job', db, enqueued, rfl⟩⟩
      · exact ⟨inv.goroutines, inv.running, inv.succeeded, inv.final⟩
      · simp only [enqueueFindsWaiting, focused, Bool.and_eq_true, bne_iff_ne] at waiting
        exact inv.setPending waiting.1 waiting.2 (Database.enqueue_status? enqueued) rfl rfl
  | pollAndDispatch env =>
      rw [step_pollAndDispatch taken]
      exact inv.tick (s.driver.pollAndDispatch_ticked env)
  | startHandler position =>
      rcases step_startHandler taken with ⟨before, job, after, split, rfl⟩
      rcases s.start_cases job with ⟨fullJob, started⟩ | ⟨error, refused⟩
      · rw [started]
        exact inv.advance _ split (by simp) (fun fresh => inv.final.started fresh) (by simp)
      · rw [refused]
        exact inv.advance _ split (by simp) (fun _ => inv.final) (by simp)
  | finishHandler position execErr =>
      rcases step_finishHandler taken with ⟨before, job, fullJob, after, split, rfl⟩
      apply inv.advance [.returned job.id execErr] split (by simp)
      · exact fun _ => inv.final.returned job.id execErr
      · intro id succeeded
        simp only [List.mem_singleton, HandlerEvent.returned.injEq] at succeeded
        exact ⟨succeeded.1, by rw [← succeeded.2]⟩
  | finalizeJob position now dbFails =>
      rcases step_finalizeJob taken with ⟨before, job, execErr, after, split, rfl⟩
      exact inv.finalize split now dbFails
  | cancelJob id now => contradiction
  | deleteJob id => contradiction

/-- From an empty database, over every interleaving of producers, ticks, handlers
and finalisers in which each `Enqueue` finds its job waiting. -/
theorem atMostOnce_of_enqueueFindsWaiting (handlers : List String)
    (groupLimits : String → Option Int) (maxConcurrency : Int) {actions : List Action}
    {last : System}
    (run : Run step (fun s action => (isQueueStep action && s.enqueueFindsWaiting action) = true)
      (boot Database.empty handlers groupLimits maxConcurrency) actions last) :
    last.AtMostOnce := by
  apply Exclusive.atMostOnce
  apply run.invariant Exclusive
  · intro state action next allowed inv taken
    rw [Bool.and_eq_true] at allowed
    exact inv.step allowed.1 allowed.2 taken
  · refine ⟨List.nodup_nil, ?_, ?_, ?_⟩
    · intro goroutine member
      cases member
    · intro id succeeded
      cases succeeded
    · intro newer older id split
      simp [boot] at split

/-- Enqueued before the poller sees it, claimed, run and finalised. -/
theorem atMostOnce_of_enqueueFindsWaiting_single_job :
    ∃ last,
      Run step (fun s action => (isQueueStep action && s.enqueueFindsWaiting action) = true)
        (boot Database.empty ["pull_page"] (fun _ => none) 2)
        [.createJob (Job.child "page-1" none "pull_page" "{}" "" [] Time.zero),
          .enqueue 0 Time.zero, .pollAndDispatch (PollEnv.quiet Time.zero), .startHandler 0,
          .finishHandler 0 none, .finalizeJob 0 Time.zero false] last ∧
      last.history = [.returned "page-1" none, .started "page-1"] ∧ last.AtMostOnce := by
  have executed : (Run.execute step
      (fun s action => isQueueStep action && s.enqueueFindsWaiting action)
      (boot Database.empty ["pull_page"] (fun _ => none) 2)
      [.createJob (Job.child "page-1" none "pull_page" "{}" "" [] Time.zero),
        .enqueue 0 Time.zero, .pollAndDispatch (PollEnv.quiet Time.zero), .startHandler 0,
        .finishHandler 0 none, .finalizeJob 0 Time.zero false]).map history =
      some [.returned "page-1" none, .started "page-1"] := by decide
  rcases Option.map_eq_some_iff.mp executed with ⟨last, executed, history⟩
  have run := Run.ofExecute executed
  exact ⟨last, run, history, atMostOnce_of_enqueueFindsWaiting _ _ _ run⟩

/-- The poller claims the job between `CreateJob` and `Enqueue`, which then makes
the running row pending again. -/
theorem enqueue_restarts_running_job :
    ¬ ∀ actions last,
      Run step (fun _ action => isQueueStep action = true)
        (boot Database.empty ["pull_page"] (fun _ => none) 2) actions last →
      last.AtMostOnce := by
  intro claimed
  have executed : (Run.execute step (fun _ action => isQueueStep action)
      (boot Database.empty ["pull_page"] (fun _ => none) 2)
      [.createJob (Job.child "page-1" none "pull_page" "{}" "" [] Time.zero),
        .pollAndDispatch (PollEnv.quiet Time.zero), .startHandler 0, .enqueue 0 Time.zero,
        .pollAndDispatch (PollEnv.quiet Time.zero), .startHandler 1]).map handlerRuns =
      some ["page-1", "page-1"] := by decide
  rcases Option.map_eq_some_iff.mp executed with ⟨last, executed, runs⟩
  have exclusive := (claimed _ last (Run.ofExecute executed)).exclusive
  rw [runs] at exclusive
  simp at exclusive

end Kiyomi.Queue.Sqlite.System
