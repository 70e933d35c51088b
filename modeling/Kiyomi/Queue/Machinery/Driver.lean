import Kiyomi.Foundation.Run
import Kiyomi.Queue.Sqlite.Store

namespace Kiyomi.Queue.Machinery

open Go Sqlite

/-! # The Machinery driver over a SQLite job store

The store is a SQLite driver that is never started. The executor is the task broker,
which gets a copy of the job and runs it: it runs a sent task, and again after each
returned error while retries are left. -/

/-- `tasks.Signature`. The one argument is the job as text, which the registered task
reads back. -/
structure Signature where
  uuid : String
  name : String
  job : Job
  retryCount : Int
  deriving DecidableEq

/-- The signature that `Driver.Enqueue` sends. -/
def signature (job : Job) : Signature where
  uuid := job.id
  name := job.type
  job
  retryCount := if 0 < job.maxRetries then job.maxRetries else 0

/-- What the broker keeps of a task after a run. -/
def Signature.afterRun (task : Signature) : Option HandlerError → List Signature
  | none => []
  | some _ => if 0 < task.retryCount then [{ task with retryCount := task.retryCount - 1 }] else []

theorem Signature.afterRun_cases (task : Signature) (execErr : Option HandlerError) :
    task.afterRun execErr = [] ∨
    ∃ again, task.afterRun execErr = [again] ∧ again.uuid = task.uuid := by
  cases execErr with
  | none => exact .inl rfl
  | some error =>
      by_cases retries : 0 < task.retryCount
      · exact .inr ⟨_, if_pos retries, rfl⟩
      · exact .inl (if_neg retries)

inductive Event
  | started (id : String)
  | returned (id : String) (execErr : Option HandlerError)
  /-- `CancelJob` returned nil. -/
  | cancelled (id : String)
  deriving DecidableEq

structure System where
  db : Database
  /-- Jobs whose caller is between `CreateJob` and `Enqueue`. -/
  created : List Job
  broker : List Signature
  running : List Signature
  /-- Newest first. -/
  history : List Event

inductive Action
  | createJob (job : Job)
  | enqueue (position : Nat) (sendFails : Bool)
  | startTask (position : Nat)
  | finishTask (position : Nat) (execErr : Option HandlerError)
  | cancelJob (id : String) (now : Time)

namespace System

def boot (db : Database) : System where
  db
  created := []
  broker := []
  running := []
  history := []

def step : StepFunction System Action
  | s, .createJob job =>
      let job := { job with status := .pending }
      match s.db.createJob job with
      | .error _ => some s
      | .ok db => some { s with db, created := s.created ++ [job] }
  | s, .enqueue position sendFails =>
      match focus position s.created with
      | none => none
      | some (before, job, after) =>
          some
            { s with
              created := before ++ after
              broker := if sendFails then s.broker else s.broker ++ [signature job] }
  | s, .startTask position =>
      match focus position s.broker with
      | none => none
      | some (before, task, after) =>
          some
            { s with
              broker := before ++ after
              running := s.running ++ [task]
              history := .started task.uuid :: s.history }
  | s, .finishTask position execErr =>
      match focus position s.running with
      | none => none
      | some (before, task, after) =>
          some
            { s with
              broker := s.broker ++ task.afterRun execErr
              running := before ++ after
              history := .returned task.uuid execErr :: s.history }
  | s, .cancelJob id now =>
      match s.db.cancelJob id now with
      | none => none
      | some (.error _) => some s
      | some (.ok db) => some { s with db, history := .cancelled id :: s.history }

/-- The jobs that may still run. -/
def liveIDs (s : System) : List String :=
  s.created.map Job.id ++ s.broker.map Signature.uuid ++ s.running.map Signature.uuid

/-- What the newest run of a job that has ended returned. -/
def lastOutcome (s : System) (id : String) : Option (Option HandlerError) :=
  s.history.findSome? fun
    | .returned other execErr => if other = id then some execErr else none
    | _ => none

/-- The status that the other drivers give a job after its last run. -/
def finalStatus : Option HandlerError → JobStatus
  | none => .completed
  | some _ => .failed

/-- The store and the executor agree. -/
structure Tracks (s : System) : Prop where
  /-- A job that was cancelled before its first run never runs. -/
  cancelled : ∀ id later earlier, s.history = later ++ .cancelled id :: earlier →
    .started id ∉ earlier → .started id ∉ later
  /-- No run follows a permanent error. -/
  permanent : ∀ id error later earlier,
    s.history = later ++ .returned id (some error) :: earlier →
    error.permanent = true → .started id ∉ later
  /-- After its last run a job has the status that the run calls for. -/
  status : ∀ id execErr, s.lastOutcome id = some execErr → id ∉ s.liveIDs →
    s.db.status? id = some (finalStatus execErr)

/-- A first run starts only if the job was not cancelled and no run starts after a
permanent error; a last run ends with an error, and on a row that is failed already. -/
def tracksAfter (s : System) : Action → Bool
  | .startTask position =>
      match focus position s.broker with
      | none => true
      | some (_, task, _) =>
          (s.history.contains (.started task.uuid) ||
            !s.history.contains (.cancelled task.uuid)) &&
          s.history.all fun
            | .returned id (some error) => id != task.uuid || !error.permanent
            | _ => true
  | .finishTask position execErr =>
      match focus position s.running with
      | none => true
      | some (_, task, _) =>
          execErr.isSome && (0 < task.retryCount || s.db.status? task.uuid == some .failed)
  | _ => true

/-- Live jobs have one place each and a row that no run has touched; jobs that ran are
no longer waiting for their `Enqueue`. -/
structure Accounted (s : System) : Prop where
  distinct : s.liveIDs.Nodup
  stored : ∀ id ∈ s.liveIDs, s.db.status? id = some .pending ∨ s.db.status? id = some .failed
  recorded : ∀ id execErr, .returned id execErr ∈ s.history →
    s.db.status? id ≠ none ∧ id ∉ s.created.map Job.id

variable {s s' : System}

/-! ## What a step can do -/

theorem step_createJob {job : Job} (taken : s.step (.createJob job) = some s') :
    s' = s ∨ ∃ db, s.db.createJob { job with status := .pending } = .ok db ∧
      s' = { s with db, created := s.created ++ [{ job with status := .pending }] } := by
  simp only [step] at taken
  split at taken
  · exact .inl (Option.some.inj taken).symm
  · rename_i db created
    exact .inr ⟨db, created, (Option.some.inj taken).symm⟩

theorem step_enqueue {position : Nat} {sendFails : Bool}
    (taken : s.step (.enqueue position sendFails) = some s') :
    ∃ before job after, s.created = before ++ job :: after ∧
      s' = { s with
        created := before ++ after
        broker := if sendFails then s.broker else s.broker ++ [signature job] } := by
  simp only [step] at taken
  split at taken
  · contradiction
  · rename_i before job after focused
    exact ⟨before, job, after, focus_eq focused, (Option.some.inj taken).symm⟩

theorem step_startTask {position : Nat} (taken : s.step (.startTask position) = some s') :
    ∃ before task after, focus position s.broker = some (before, task, after) ∧
      s' = { s with
        broker := before ++ after
        running := s.running ++ [task]
        history := .started task.uuid :: s.history } := by
  simp only [step] at taken
  split at taken
  · contradiction
  · rename_i before task after focused
    exact ⟨before, task, after, focused, (Option.some.inj taken).symm⟩

theorem step_finishTask {position : Nat} {execErr : Option HandlerError}
    (taken : s.step (.finishTask position execErr) = some s') :
    ∃ before task after, focus position s.running = some (before, task, after) ∧
      s' = { s with
        broker := s.broker ++ task.afterRun execErr
        running := before ++ after
        history := .returned task.uuid execErr :: s.history } := by
  simp only [step] at taken
  split at taken
  · contradiction
  · rename_i before task after focused
    exact ⟨before, task, after, focused, (Option.some.inj taken).symm⟩

theorem step_cancelJob {id : String} {now : Time}
    (taken : s.step (.cancelJob id now) = some s') :
    s' = s ∨ ∃ db, s.db.cancelJob id now = some (.ok db) ∧
      s' = { s with db, history := .cancelled id :: s.history } := by
  simp only [step] at taken
  split at taken
  · contradiction
  · exact .inl (Option.some.inj taken).symm
  · rename_i db cancelled
    exact .inr ⟨db, cancelled, (Option.some.inj taken).symm⟩

end System

end Kiyomi.Queue.Machinery
