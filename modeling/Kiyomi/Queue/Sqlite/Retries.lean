import Kiyomi.Queue.RetryLaw
import Kiyomi.Queue.Sqlite.Lookups
import Kiyomi.Queue.Sqlite.System

namespace Kiyomi.Queue.Sqlite

open Go

/-! # The runs of one job in the database

A run ends when `finalizeJob` records it, so a claimed job keeps its goroutine until
then. `Enqueue` writes the status of a row without looking at it, and here the poller may
claim a job between its `CreateJob` and its `Enqueue`. -/

/-- A system and the recorded ends of the runs of one job. -/
structure Tracked where
  system : System
  finished : Nat

namespace Tracked

inductive Step
  | queue (action : Action)
  | updateJob (job : Job)

def boot (handlers : List String) (groupLimits : String → Option Int) (maxConcurrency : Int) :
    Tracked where
  system := .boot Database.empty handlers groupLimits maxConcurrency
  finished := 0

/-- The job whose run a step records. -/
def finalizes (s : Tracked) : Action → Option String
  | .finalizeJob position _ _ =>
      (focus position s.system.goroutines).map fun (_, goroutine, _) => goroutine.job.id
  | _ => none

def step (id : String) : StepFunction Tracked Step
  | s, .queue action =>
      (s.system.step action).map fun system =>
        { system
          finished := s.finished + if s.finalizes action = some id then 1 else 0 }
  | s, .updateJob job =>
      match s.system.driver.db.updateJob job with
      | .error _ => some s
      | .ok db => some { s with system := s.system.withDatabase db }

/-- The job is created as it is, and neither updated, deleted nor cancelled; its runs return
the outcomes in their order, and the database does not fail when a run is recorded. -/
def LeftAlone (job : Job) (outcomes : Nat → Option HandlerError) (s : Tracked) : Step → Prop
  | .queue (.createJob new) => new.id = job.id → new = job
  | .queue (.finishHandler position execErr) =>
      ∀ before goroutine after,
        focus position s.system.goroutines = some (before, goroutine, after) →
        goroutine.job.id = job.id → execErr = outcomes s.finished
  | .queue (.finalizeJob _ _ dbFails) => dbFails = false
  | .queue (.cancelJob root _) | .queue (.deleteJob root) =>
      ¬ s.system.driver.db.InSubtree root job.id
  | .updateJob new => new.id ≠ job.id
  | _ => True

/-- No tick claimed the job between its `CreateJob` and its `Enqueue`. -/
def EnqueueFindsPending (job : Job) (s : Tracked) : Step → Prop
  | .queue (.enqueue position _) =>
      ∀ before new after, focus position s.system.created = some (before, new, after) →
        new.id = job.id → s.system.driver.db.status? job.id = some .pending
  | _ => True

/-- The handler runs of the job that were started. -/
def started (s : Tracked) (id : String) : Nat := s.system.history.count (.started id)

/-- Once the job is stored, its row and its runs obey the law. -/
def Lawful (job : Job) (outcomes : Nat → Option HandlerError) (s : Tracked) : Prop :=
  match s.system.driver.db.jobs.find? job.id with
  | none => s.started job.id = 0
  | some row =>
      RetryLaw outcomes job.maxRetries (s.started job.id) s.finished row.status row.retries

/-! ## The invariant -/

/-- The goroutines that hold a claim of the job. -/
def claims (s : Tracked) (id : String) : Nat :=
  s.system.goroutines.countP fun goroutine => goroutine.job.id == id

structure Follows (job : Job) (outcomes : Nat → Option HandlerError) (s : Tracked) : Prop where
  handlers : s.system.driver.handlers.contains job.type = true
  absent : s.system.driver.db.jobs.find? job.id = none →
    s.claims job.id = 0 ∧ s.finished = 0 ∧ ∀ new ∈ s.system.created, new.id ≠ job.id
  present : ∀ row, s.system.driver.db.jobs.find? job.id = some row →
    row.type = job.type ∧ row.maxRetries = job.maxRetries ∧
      RetryLaw outcomes job.maxRetries (s.finished + s.claims job.id) s.finished row.status
        row.retries
  claimed : ∀ goroutine ∈ s.system.goroutines, goroutine.job.id = job.id →
    ∃ row, s.system.driver.db.jobs.find? job.id = some row ∧ row.status = .running ∧
      goroutine.job.type = row.type ∧ goroutine.job.retries = row.retries ∧
      goroutine.job.maxRetries = row.maxRetries
  returned : ∀ goroutine ∈ s.system.goroutines, goroutine.job.id = job.id →
    ∀ execErr, goroutine.phase = .returned execErr → execErr = outcomes s.finished
  started : s.started job.id = s.finished +
    s.system.goroutines.countP fun goroutine =>
      goroutine.job.id == job.id && goroutine.phase != .dispatched

variable {job : Job} {outcomes : Nat → Option HandlerError} {s : Tracked}

theorem Follows.lawful (follows : Follows job outcomes s) : s.Lawful job outcomes := by
  have below : (s.system.goroutines.countP fun goroutine =>
      goroutine.job.id == job.id && goroutine.phase != .dispatched) ≤ s.claims job.id :=
    List.countP_mono_left fun goroutine _ busy => (Bool.and_eq_true_iff.mp busy).1
  have started := follows.started
  unfold Lawful
  split
  · rename_i absent
    rcases follows.absent absent with ⟨unclaimed, unfinished, _⟩
    omega
  · rename_i row present
    exact (follows.present row present).2.2.of_started (by omega) (by omega)

/-- The goroutines stay and the row keeps its status and its retries. -/
theorem Follows.move (follows : Follows job outcomes s) {system : System}
    (sameHandlers : system.driver.handlers = s.system.driver.handlers)
    (goroutines : system.goroutines = s.system.goroutines)
    (history : system.history = s.system.history)
    (absent : system.driver.db.jobs.find? job.id = none →
      s.system.driver.db.jobs.find? job.id = none ∧
        ∀ new ∈ system.created, new.id = job.id → new ∈ s.system.created)
    (present : ∀ row', system.driver.db.jobs.find? job.id = some row' →
      ∃ row, s.system.driver.db.jobs.find? job.id = some row ∧ row.SameRetries row' ∧
        row'.status = row.status) :
    Follows job outcomes { s with system } where
  handlers := by
    rw [sameHandlers]
    exact follows.handlers
  absent missing := by
    rcases absent missing with ⟨wasMissing, created⟩
    rcases follows.absent wasMissing with ⟨unclaimed, unfinished, notCreated⟩
    refine ⟨?_, unfinished, fun new member isOwn => notCreated new (created new member isOwn) isOwn⟩
    rw [claims, goroutines]
    exact unclaimed
  present row' found := by
    rcases present row' found with ⟨row, before, ⟨type, retries, maxRetries⟩, status⟩
    rcases follows.present row before with ⟨type', maxRetries', law⟩
    refine ⟨type.trans type', maxRetries.trans maxRetries', ?_⟩
    rw [status, retries, claims, goroutines]
    exact law
  claimed goroutine member isOwn := by
    rw [goroutines] at member
    rcases follows.claimed goroutine member isOwn with
      ⟨row, found, isRunning, type, retries, maxRetries⟩
    cases after : system.driver.db.jobs.find? job.id with
    | none =>
        rw [(absent after).1] at found
        contradiction
    | some row' =>
        rcases present row' after with ⟨other, before, ⟨type', retries', maxRetries'⟩, status⟩
        rw [found, Option.some.injEq] at before
        subst before
        exact ⟨row', rfl, status.trans isRunning, type.trans type'.symm,
          retries.trans retries'.symm, maxRetries.trans maxRetries'.symm⟩
  returned := by
    rw [goroutines]
    exact follows.returned
  started := by
    rw [Tracked.started, history, goroutines]
    exact follows.started

/-- Another table in which the row of the job is the same. -/
theorem Follows.withDatabase (follows : Follows job outcomes s) {db : Database}
    (same : db.jobs.find? job.id = s.system.driver.db.jobs.find? job.id) :
    Follows job outcomes { s with system := s.system.withDatabase db } := by
  apply follows.move
  · rfl
  · rfl
  · rfl
  · intro missing
    exact ⟨same ▸ missing, fun _ member _ => member⟩
  · intro row found
    exact ⟨row, same ▸ found, ⟨rfl, rfl, rfl⟩, rfl⟩

/-- A job that is not stored has no goroutine. -/
theorem Follows.unclaimed (follows : Follows job outcomes s)
    (notRunning : s.system.driver.db.status? job.id ≠ some .running) :
    ∀ goroutine ∈ s.system.goroutines, goroutine.job.id ≠ job.id := by
  intro goroutine member isOwn
  rcases follows.claimed goroutine member isOwn with ⟨row, found, isRunning, _⟩
  apply notRunning
  rw [Database.status?, found, Option.map_some, isRunning]

/-! ## Callers -/

theorem Follows.createJob (follows : Follows job outcomes s) (unretried : job.retries = 0)
    {new : Job} (own : new.id = job.id → new = job) {db : Database}
    (created : s.system.driver.db.createJob { new with status := .pending } = .ok db) :
    Follows job outcomes
      { s with
        system :=
          { s.system.withDatabase db with
            created := s.system.created ++ [{ new with status := .pending }] } } := by
  rcases Database.find?_createJob created job.id with ⟨absent, lookup⟩
  by_cases isOwn : job.id = new.id
  · have same := own isOwn.symm
    subst same
    rw [if_pos rfl] at lookup
    rcases follows.absent absent with ⟨unclaimed, unfinished, _⟩
    have noGoroutine := follows.unclaimed (by simp [Database.status?, absent])
    refine ⟨follows.handlers, fun missing => ?_, fun row found => ?_, ?_, follows.returned,
      follows.started⟩
    · cases lookup.symm.trans missing
    · cases lookup.symm.trans found
      refine ⟨rfl, rfl, ?_⟩
      change RetryLaw outcomes new.maxRetries (s.finished + s.claims new.id) s.finished .pending
        new.retries
      rw [unclaimed, unfinished, unretried]
      exact .initial
    · exact fun goroutine member isOwn => absurd isOwn (noGoroutine goroutine member)
  · rw [if_neg isOwn] at lookup
    apply follows.move
    · rfl
    · rfl
    · rfl
    · intro missing
      refine ⟨lookup ▸ missing, fun other member isOther => ?_⟩
      rcases List.mem_append.mp member with old | isNew
      · exact old
      · rw [List.mem_singleton.mp isNew] at isOther
        exact absurd isOther.symm isOwn
    · intro row found
      exact ⟨row, lookup ▸ found, ⟨rfl, rfl, rfl⟩, rfl⟩

theorem Follows.enqueue (follows : Follows job outcomes s) {position : Nat} {now : Time}
    (findsPending : EnqueueFindsPending job s (.queue (.enqueue position now))) {system : System}
    (moved : s.system.step (.enqueue position now) = some system) :
    Follows job outcomes { s with system } := by
  rcases System.step_enqueue moved with ⟨before, new, after, focused, outcome⟩
  have created := focus_eq focused
  have fewer : ∀ other ∈ before ++ after, other.id = job.id → other ∈ s.system.created := by
    intro other member _
    rw [created]
    rcases List.mem_append.mp member with left | right
    · exact List.mem_append_left _ left
    · exact List.mem_append_right _ (List.mem_cons_of_mem new right)
  rcases outcome with rfl | ⟨job', db, enqueued, rfl⟩
  · apply follows.move
    · rfl
    · rfl
    · rfl
    · exact fun missing => ⟨missing, fewer⟩
    · exact fun row found => ⟨row, found, ⟨rfl, rfl, rfl⟩, rfl⟩
  · by_cases isOwn : new.id = job.id
    · have isPending := findsPending before new after focused isOwn
      rcases Option.map_eq_some_iff.mp isPending with ⟨row, found, isPending⟩
      have lookup := Database.find?_enqueue enqueued (isOwn ▸ found)
      rw [isOwn] at lookup
      apply follows.move
      · rfl
      · rfl
      · rfl
      · intro missing
        rw [System.withDatabase_driver_db, lookup] at missing
        contradiction
      · intro row' found'
        rw [System.withDatabase_driver_db, lookup, Option.some.injEq] at found'
        subst found'
        exact ⟨row, found, ⟨rfl, rfl, rfl⟩, isPending.symm⟩
    · have lookup := Database.find?_enqueue_ne enqueued (Ne.symm isOwn)
      apply follows.move
      · rfl
      · rfl
      · rfl
      · exact fun missing => ⟨lookup ▸ missing, fewer⟩
      · exact fun row found => ⟨row, lookup ▸ found, ⟨rfl, rfl, rfl⟩, rfl⟩

/-! ## The poller -/

/-- The goroutines that a tick starts. -/
def dispatch (system : System) (driver : Driver) (jobs : List Job) : System :=
  { system with
    driver
    goroutines := system.goroutines ++ jobs.map fun job => { job, phase := .dispatched } }

theorem mem_dispatch {system : System} {driver : Driver} {jobs : List Job}
    {goroutine : Goroutine} (member : goroutine ∈ (dispatch system driver jobs).goroutines) :
    goroutine ∈ system.goroutines ∨
      goroutine.job ∈ jobs ∧ goroutine.phase = .dispatched := by
  rcases List.mem_append.mp member with old | isNew
  · exact .inl old
  · rcases List.mem_map.mp isNew with ⟨claimed, isClaimed, rfl⟩
    exact .inr ⟨isClaimed, rfl⟩

theorem claims_dispatch (driver : Driver) (jobs : List Job) (id : String) :
    claims { s with system := dispatch s.system driver jobs } id =
      s.claims id + (jobs.map Job.id).count id := by
  simp only [claims, dispatch, List.countP_append, List.count, List.countP_map]
  rfl

theorem started_dispatch (driver : Driver) (jobs : List Job) (id : String) :
    ((dispatch s.system driver jobs).goroutines.countP fun goroutine =>
        goroutine.job.id == id && goroutine.phase != .dispatched) =
      s.system.goroutines.countP fun goroutine =>
        goroutine.job.id == id && goroutine.phase != .dispatched := by
  simp [dispatch, List.countP_append, List.countP_map, Function.comp_def]

/-- A tick that leaves the row of the job alone and does not claim it. -/
theorem Follows.spared (follows : Follows job outcomes s) {driver : Driver} {jobs : List Job}
    (sameHandlers : driver.handlers = s.system.driver.handlers)
    (same : driver.db.jobs.find? job.id = s.system.driver.db.jobs.find? job.id)
    (spared : job.id ∉ jobs.map Job.id) :
    Follows job outcomes { s with system := dispatch s.system driver jobs } := by
  have noNewClaim : claims { s with system := dispatch s.system driver jobs } job.id =
      s.claims job.id := by
    rw [claims_dispatch, List.count_eq_zero_of_not_mem spared, Nat.add_zero]
  have isOld : ∀ goroutine ∈ (dispatch s.system driver jobs).goroutines,
      goroutine.job.id = job.id → goroutine ∈ s.system.goroutines := by
    intro goroutine member isOwn
    rcases mem_dispatch member with old | ⟨isNew, _⟩
    · exact old
    · exact absurd (isOwn ▸ List.mem_map_of_mem isNew) spared
  refine ⟨?_, ?_, ?_, ?_, ?_, ?_⟩
  · change driver.handlers.contains job.type = true
    rw [sameHandlers]
    exact follows.handlers
  · rw [noNewClaim]
    exact fun missing => follows.absent (same ▸ missing)
  · rw [noNewClaim]
    exact fun row found => follows.present row (same ▸ found)
  · intro goroutine member isOwn
    rcases follows.claimed goroutine (isOld goroutine member isOwn) isOwn with ⟨row, found, rest⟩
    exact ⟨row, same.trans found, rest⟩
  · exact fun goroutine member isOwn =>
      follows.returned goroutine (isOld goroutine member isOwn) isOwn
  · rw [started_dispatch]
    exact follows.started

/-- A tick that claims the job. -/
theorem Follows.claim (follows : Follows job outcomes s) {driver : Driver} {jobs : List Job}
    {row row' : Row} (sameHandlers : driver.handlers = s.system.driver.handlers)
    (found : s.system.driver.db.jobs.find? job.id = some row) (isPending : row.status = .pending)
    (after : driver.db.jobs.find? job.id = some row') (isRunning : row'.status = .running)
    (same : row.SameRetries row') (nodup : (jobs.map Job.id).Nodup)
    (claimed : job.id ∈ jobs.map Job.id)
    (scanned : ∀ other ∈ jobs, other.id = job.id → other = row.scan) :
    Follows job outcomes { s with system := dispatch s.system driver jobs } := by
  rcases same with ⟨type', retries', maxRetries'⟩
  rcases follows.present row found with ⟨type, maxRetries, law⟩
  have noGoroutine := follows.unclaimed
    (by simp [Database.status?, found, isPending])
  have unclaimed : s.claims job.id = 0 := by
    rw [claims, List.countP_eq_zero]
    intro goroutine member
    simpa using noGoroutine goroutine member
  have oneClaim : claims { s with system := dispatch s.system driver jobs } job.id = 1 := by
    rw [claims_dispatch, unclaimed, List.count_eq_one_of_mem nodup claimed]
  refine ⟨?_, ?_, ?_, ?_, ?_, ?_⟩
  · change driver.handlers.contains job.type = true
    rw [sameHandlers]
    exact follows.handlers
  · intro missing
    cases after.symm.trans missing
  · intro other foundOther
    cases after.symm.trans foundOther
    refine ⟨type'.trans type, maxRetries'.trans maxRetries, ?_⟩
    rw [oneClaim, isRunning, retries']
    rw [unclaimed, isPending] at law
    exact law.start
  · intro goroutine member isOwn
    rcases mem_dispatch member with old | ⟨isNew, _⟩
    · exact absurd isOwn (noGoroutine goroutine old)
    · refine ⟨row', after, isRunning, ?_⟩
      rw [scanned goroutine.job isNew isOwn]
      exact ⟨type'.symm, retries'.symm, maxRetries'.symm⟩
  · intro goroutine member isOwn execErr isReturned
    rcases mem_dispatch member with old | ⟨_, isDispatched⟩
    · exact absurd isOwn (noGoroutine goroutine old)
    · rw [isDispatched] at isReturned
      contradiction
  · rw [started_dispatch]
    exact follows.started

theorem Follows.tick (follows : Follows job outcomes s) (env : PollEnv) :
    Follows job outcomes
      { s with
        system := dispatch s.system (s.system.driver.pollAndDispatch env).1
          (s.system.driver.pollAndDispatch env).2 } := by
  have ticked := s.system.driver.pollAndDispatch_ticked env
  have sameHandlers := s.system.driver.pollAndDispatch_handlers env
  cases found : s.system.driver.db.jobs.find? job.id with
  | none =>
      have noStatus : s.system.driver.db.status? job.id = none := by
        rw [Database.status?, found]
        rfl
      have spared : job.id ∉ (s.system.driver.pollAndDispatch env).2.map Job.id := by
        intro claimed
        rw [(ticked.taken job.id claimed).1] at noStatus
        contradiction
      apply follows.spared sameHandlers _ spared
      rcases ticked.others job.id spared with same | ⟨isPending, _⟩
      · rw [noStatus] at same
        rw [found]
        exact Option.map_eq_none_iff.mp same
      · rw [noStatus] at isPending
        contradiction
  | some row =>
      have registered : s.system.driver.handlers.contains row.type = true := by
        rw [(follows.present row found).1]
        exact follows.handlers
      rcases s.system.driver.pollAndDispatch_row env found registered with
        ⟨spared, same⟩ | ⟨claimed, isPending, row', after, isRunning, same, scanned⟩
      · exact follows.spared sameHandlers (same.trans found.symm) spared
      · exact follows.claim sameHandlers found isPending after isRunning same ticked.nodup
          claimed scanned

/-! ## The goroutine of a run -/

/-- One goroutine moves on while the rows stay. -/
theorem Follows.advance (follows : Follows job outcomes s) {before after : List Goroutine}
    {own : Job} {phase phase' : RunPhase} {events : List HandlerEvent}
    (goroutines : s.system.goroutines = before ++ { job := own, phase } :: after)
    (returned : own.id = job.id → ∀ execErr, phase' = .returned execErr →
      execErr = outcomes s.finished)
    (started : (events.count (.started job.id)) +
        (if own.id == job.id && phase != .dispatched then 1 else 0) =
      if own.id == job.id && phase' != .dispatched then 1 else 0) :
    Follows job outcomes
      { s with
        system :=
          { s.system with
            goroutines := before ++ { job := own, phase := phase' } :: after
            history := events ++ s.system.history } } := by
  have sameJobs : ∀ goroutine ∈ before ++ { job := own, phase := phase' } :: after,
      goroutine ∈ s.system.goroutines ∨ goroutine = { job := own, phase := phase' } := by
    intro goroutine member
    rw [goroutines]
    simp only [List.mem_append, List.mem_cons] at member ⊢
    tauto
  have sameClaims : claims
      { s with
        system :=
          { s.system with
            goroutines := before ++ { job := own, phase := phase' } :: after
            history := events ++ s.system.history } } job.id = s.claims job.id := by
    simp only [claims, goroutines, List.countP_append, List.countP_cons]
  refine ⟨follows.handlers, ?_, ?_, ?_, ?_, ?_⟩
  · rw [sameClaims]
    exact follows.absent
  · rw [sameClaims]
    exact follows.present
  · intro goroutine member isOwn
    rcases sameJobs goroutine member with old | rfl
    · exact follows.claimed goroutine old isOwn
    · apply follows.claimed { job := own, phase } _ isOwn
      rw [goroutines]
      simp
  · intro goroutine member isOwn
    rcases sameJobs goroutine member with old | rfl
    · exact follows.returned goroutine old isOwn
    · exact returned isOwn
  · have counted := follows.started
    simp only [Tracked.started, goroutines, List.countP_append, List.countP_cons,
      List.count_append] at counted ⊢
    omega

/-- The row is there and its type has a handler, so the goroutine calls `Handle`. -/
theorem Follows.startHandler (follows : Follows job outcomes s) {position : Nat}
    {system : System} (moved : s.system.step (.startHandler position) = some system) :
    Follows job outcomes { s with system } := by
  rcases System.step_startHandler moved with ⟨before, own, after, goroutines, rfl⟩
  by_cases isOwn : own.id = job.id
  · have starts : ∃ fullJob, s.system.start own = (.handling fullJob, [.started own.id]) := by
      rcases follows.claimed { job := own, phase := .dispatched } (by rw [goroutines]; simp) isOwn
        with ⟨row, found, _, type, _⟩
      have registered : s.system.driver.handlers.contains own.type = true := by
        rw [type, (follows.present row found).1]
        exact follows.handlers
      have fetched : s.system.driver.db.getJob own.id =
          some (s.system.driver.db.jobOfRow row) := by
        rw [Database.getJob, isOwn, found]
        rfl
      refine ⟨s.system.driver.db.jobOfRow row, ?_⟩
      rw [System.start, registered, fetched]
      rfl
    rcases starts with ⟨fullJob, starts⟩
    rw [starts]
    apply follows.advance goroutines
    · intro _ execErr isReturned
      cases isReturned
    · simp [isOwn]
  · apply follows.advance goroutines
    · exact fun same => absurd same isOwn
    · rcases s.system.start_cases own with ⟨fullJob, starts⟩ | ⟨error, starts⟩
      · simp [starts, isOwn]
      · simp [starts, isOwn]

theorem Follows.finishHandler (follows : Follows job outcomes s) {position : Nat}
    {execErr : Option HandlerError}
    (leftAlone : LeftAlone job outcomes s (.queue (.finishHandler position execErr)))
    {system : System} (moved : s.system.step (.finishHandler position execErr) = some system) :
    Follows job outcomes { s with system } := by
  simp only [System.step] at moved
  split at moved
  · rename_i before own fullJob after focused
    cases moved
    apply @Follows.advance _ _ _ follows before after own _ _ [.returned own.id execErr]
      (focus_eq focused)
    · intro isOwn other isReturned
      rw [← leftAlone before _ after focused isOwn]
      exact (RunPhase.returned.inj isReturned).symm
    · simp
  · contradiction

theorem finalizeJob_find? (d : Driver) (own : Job) (execErr : Option HandlerError) (now : Time)
    (id : String) :
    (d.finalizeJob own execErr now false).db.jobs.find? id =
      (d.db.jobs.find? id).map fun row =>
        if row.id == own.id && row.status == .running then
          { Driver.finishedRow own execErr now row with id := row.id }
        else row := by
  exact JobTable.find?_update d.db.jobs _ _ id

/-- What `finalizeJob` writes into a running row. -/
theorem finishedRow_recorded {own : Job} {row : Row} (execErr : Option HandlerError) (now : Time)
    (type : own.retries = row.retries) (maxRetries : own.maxRetries = row.maxRetries) :
    (Driver.finishedRow own execErr now row).type = row.type ∧
      (Driver.finishedRow own execErr now row).maxRetries = row.maxRetries ∧
      (Driver.finishedRow own execErr now row).status =
        RetryLaw.recorded execErr row.maxRetries row.retries ∧
      (Driver.finishedRow own execErr now row).retries =
        row.retries + if execErr.isSome then 1 else 0 := by
  unfold Driver.finishedRow RetryLaw.recorded
  cases execErr with
  | none => simp
  | some error =>
      simp only [type, maxRetries, ge_iff_le]
      split <;> simp_all

/-- The end of a run of the job: its only goroutine is gone and its row is written. -/
theorem Follows.conclude (follows : Follows job outcomes s) {before after : List Goroutine}
    {own : Job} {execErr : Option HandlerError} (now : Time)
    (goroutines : s.system.goroutines = before ++ { job := own, phase := .returned execErr } :: after)
    (isOwn : own.id = job.id) :
    Follows job outcomes
      { system :=
          { s.system with
            driver := s.system.driver.finalizeJob own execErr now false
            goroutines := before ++ after }
        finished := s.finished + 1 } := by
  have isIn : { job := own, phase := .returned execErr } ∈ s.system.goroutines := by
    rw [goroutines]
    simp
  rcases follows.claimed _ isIn isOwn with ⟨row, found, isRunning, _, retries, maxRetries⟩
  rcases follows.present row found with ⟨rowType, rowMaxRetries, law⟩
  have outcome := follows.returned _ isIn isOwn execErr rfl
  have counted := follows.started
  have oneAtATime := law.oneAtATime
  simp only [claims, goroutines, List.countP_append, List.countP_cons, isOwn, beq_self_eq_true,
    if_true] at oneAtATime
  have onlyOne : (before ++ after).countP (fun goroutine => goroutine.job.id == job.id) = 0 := by
    rw [List.countP_append]
    omega
  have noOther : ∀ goroutine ∈ before ++ after, goroutine.job.id ≠ job.id := by
    intro goroutine member
    simpa using List.countP_eq_zero.mp onlyOne goroutine member
  have oneClaim : s.claims job.id = 1 := by
    rw [List.countP_append] at onlyOne
    simp only [claims, goroutines, List.countP_append, List.countP_cons, isOwn, beq_self_eq_true,
      if_true]
    omega
  have isId := (JobTable.find?_eq_some.mp found).2
  have written := finalizeJob_find? s.system.driver own execErr now job.id
  rw [found, Option.map_some, isId, isOwn, isRunning] at written
  simp only [beq_self_eq_true, Bool.and_self, if_true] at written
  rcases finishedRow_recorded execErr now retries maxRetries with
    ⟨sameType, sameMaxRetries, status, moreRetries⟩
  refine ⟨follows.handlers, ?_, ?_, ?_, ?_, ?_⟩
  · intro missing
    cases written.symm.trans missing
  · intro row' found'
    cases written.symm.trans found'
    refine ⟨sameType.trans rowType, sameMaxRetries.trans rowMaxRetries, ?_⟩
    change RetryLaw outcomes job.maxRetries
      (s.finished + 1 + (before ++ after).countP fun goroutine => goroutine.job.id == job.id)
      (s.finished + 1) (Driver.finishedRow own execErr now row).status
      (Driver.finishedRow own execErr now row).retries
    rw [onlyOne, status, moreRetries, outcome, rowMaxRetries]
    rw [oneClaim, isRunning] at law
    exact law.finish
  · exact fun goroutine member isOther => absurd isOther (noOther goroutine member)
  · exact fun goroutine member isOther => absurd isOther (noOther goroutine member)
  · have noneBusy : (before ++ after).countP (fun goroutine =>
        goroutine.job.id == job.id && goroutine.phase != .dispatched) = 0 := by
      rw [List.countP_eq_zero]
      intro goroutine member
      simp [noOther goroutine member]
    change s.started job.id = s.finished + 1 + (before ++ after).countP fun goroutine =>
      goroutine.job.id == job.id && goroutine.phase != .dispatched
    rw [noneBusy, counted]
    rw [List.countP_append] at noneBusy
    simp only [goroutines, List.countP_append, List.countP_cons]
    have isBusy : (own.id == job.id && RunPhase.returned execErr != .dispatched) = true := by
      simp [isOwn]
    rw [if_pos isBusy]
    omega

/-- The end of a run of another job. -/
theorem Follows.elsewhere (follows : Follows job outcomes s) {before after : List Goroutine}
    {other : Job} {execErr : Option HandlerError} (now : Time)
    (goroutines : s.system.goroutines =
      before ++ { job := other, phase := .returned execErr } :: after)
    (isOther : other.id ≠ job.id) :
    Follows job outcomes
      { s with
        system :=
          { s.system with
            driver := s.system.driver.finalizeJob other execErr now false
            goroutines := before ++ after } } := by
  have same : (s.system.driver.finalizeJob other execErr now false).db.jobs.find? job.id =
      s.system.driver.db.jobs.find? job.id := by
    apply Database.find?_update_ne
    intro row found
    rw [(JobTable.find?_eq_some.mp found).2, beq_eq_false_iff_ne.mpr (Ne.symm isOther)]
    rfl
  have notOwn : (other.id == job.id) = false := beq_eq_false_iff_ne.mpr isOther
  have sameClaims : (before ++ after).countP (fun goroutine => goroutine.job.id == job.id) =
      s.claims job.id := by
    simp only [claims, goroutines, List.countP_append, List.countP_cons, notOwn]
    rfl
  have isOld : ∀ goroutine ∈ before ++ after, goroutine ∈ s.system.goroutines := by
    intro goroutine member
    rw [goroutines]
    simp only [List.mem_append, List.mem_cons] at member ⊢
    tauto
  refine ⟨follows.handlers, ?_, ?_, ?_, ?_, ?_⟩
  · intro missing
    rw [claims, sameClaims]
    exact follows.absent (same.symm.trans missing)
  · intro row found
    rw [claims, sameClaims]
    exact follows.present row (same.symm.trans found)
  · intro goroutine member isOwn
    rcases follows.claimed goroutine (isOld goroutine member) isOwn with ⟨row, found, rest⟩
    exact ⟨row, same.trans found, rest⟩
  · exact fun goroutine member => follows.returned goroutine (isOld goroutine member)
  · have counted := follows.started
    simp only [goroutines, List.countP_append, List.countP_cons, notOwn, Bool.false_and] at counted
    change s.started job.id = s.finished + (before ++ after).countP fun goroutine =>
      goroutine.job.id == job.id && goroutine.phase != .dispatched
    rw [List.countP_append]
    simpa using counted

theorem Follows.finalizeJob (follows : Follows job outcomes s) {position : Nat} {now : Time}
    {system : System} (moved : s.system.step (.finalizeJob position now false) = some system) :
    Follows job outcomes
      { system
        finished := s.finished +
          if s.finalizes (.finalizeJob position now false) = some job.id then 1 else 0 } := by
  simp only [System.step] at moved
  split at moved
  · rename_i before own execErr after focused
    cases moved
    have goroutines := focus_eq focused
    have finalizes : s.finalizes (.finalizeJob position now false) = some own.id := by
      rw [Tracked.finalizes, focused]
      rfl
    simp only [finalizes, Option.some.injEq]
    by_cases isOwn : own.id = job.id
    · rw [if_pos isOwn]
      exact follows.conclude now goroutines isOwn
    · rw [if_neg isOwn]
      exact follows.elsewhere now goroutines isOwn
  · contradiction

/-! ## Every step -/

theorem Follows.step (follows : Follows job outcomes s) (unretried : job.retries = 0)
    {action : Step} {next : Tracked} (leftAlone : LeftAlone job outcomes s action)
    (findsPending : EnqueueFindsPending job s action)
    (taken : s.step job.id action = some next) : Follows job outcomes next := by
  cases action with
  | updateJob new =>
      simp only [Tracked.step] at taken
      split at taken
      · cases taken
        exact follows
      · rename_i db updated
        cases taken
        exact follows.withDatabase (Database.find?_updateJob_ne updated (Ne.symm leftAlone))
  | queue action =>
      rcases Option.map_eq_some_iff.mp taken with ⟨system, moved, rfl⟩
      cases action with
      | createJob new =>
          rcases System.step_createJob moved with rfl | ⟨db, created, rfl⟩
          · exact follows
          · exact follows.createJob unretried leftAlone created
      | enqueue position now => exact follows.enqueue findsPending moved
      | pollAndDispatch env =>
          cases System.step_pollAndDispatch moved
          exact follows.tick env
      | startHandler position => exact follows.startHandler moved
      | finishHandler position execErr => exact follows.finishHandler leftAlone moved
      | finalizeJob position now dbFails =>
          cases leftAlone
          exact follows.finalizeJob moved
      | cancelJob root now =>
          rcases System.step_cancelJob moved with rfl | ⟨db, cancelled, rfl⟩
          · exact follows
          · exact follows.withDatabase (Database.find?_cancelJob cancelled leftAlone)
      | deleteJob root =>
          rcases System.step_deleteJob moved with rfl | ⟨db, deleted, rfl⟩
          · exact follows
          · exact follows.withDatabase (Database.find?_deleteJob deleted leftAlone)

theorem Follows.boot {handlers : List String} (groupLimits : String → Option Int)
    (maxConcurrency : Int) (registered : handlers.contains job.type = true) :
    Follows job outcomes (boot handlers groupLimits maxConcurrency) where
  handlers := registered
  absent _ := ⟨rfl, rfl, fun _ member => by cases member⟩
  present _ found := by cases found
  claimed _ member := by cases member
  returned _ member := by cases member
  started := rfl

/-- Over every interleaving in which the `Enqueue` of the job finds its row pending, its
runs obey the law in every state. -/
theorem lawful_of_enqueueFindsPending {handlers : List String} (groupLimits : String → Option Int)
    (maxConcurrency : Int) (registered : handlers.contains job.type = true)
    (unretried : job.retries = 0) {actions : List Step} {last : Tracked}
    (run : Run (step job.id)
      (fun s action => LeftAlone job outcomes s action ∧ EnqueueFindsPending job s action)
      (Tracked.boot handlers groupLimits maxConcurrency) actions last) :
    last.Lawful job outcomes := by
  apply Follows.lawful
  apply run.invariant (Follows job outcomes)
  · intro state action next permitted follows taken
    exact follows.step unretried permitted.1 permitted.2 taken
  · exact .boot groupLimits maxConcurrency registered

end Tracked

end Kiyomi.Queue.Sqlite
