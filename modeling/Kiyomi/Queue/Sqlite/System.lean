import Kiyomi.Foundation.Run
import Kiyomi.Queue.Sqlite.Worker

namespace Kiyomi.Queue.Sqlite

open Go

/-! # Producers, poller and handlers over one database

The callers of the queue, the polling loop and the `runJob` goroutines take turns.
One action is one transaction or one event of a goroutine, so a run is an
interleaving. -/

/-- Where a `runJob` goroutine stands. -/
inductive RunPhase
  | dispatched
  | handling (fullJob : Job)
  | returned (execErr : Option HandlerError)
  deriving DecidableEq, Repr

structure Goroutine where
  job : Job
  phase : RunPhase
  deriving DecidableEq, Repr

inductive HandlerEvent
  | started (id : String)
  | returned (id : String) (execErr : Option HandlerError)
  deriving DecidableEq, Repr

structure System where
  driver : Driver
  /-- Jobs whose caller is between `CreateJob` and `Enqueue`. -/
  created : List Job
  goroutines : List Goroutine
  /-- Starts and ends of handler runs, newest first. -/
  history : List HandlerEvent

inductive Action
  | createJob (job : Job)
  | enqueue (position : Nat) (now : Time)
  | pollAndDispatch (env : PollEnv)
  | startHandler (position : Nat)
  | finishHandler (position : Nat) (execErr : Option HandlerError)
  | finalizeJob (position : Nat) (now : Time) (dbFails : Bool)
  | cancelJob (id : String) (now : Time)
  | deleteJob (id : String)

namespace System

/-- A freshly started process over a database that may hold jobs already. -/
def boot (db : Database) (handlers : List String) (groupLimits : String → Option Int)
    (maxConcurrency : Int) : System where
  driver := { db, handlers, groupLimits, maxConcurrency, counters := Counters.initial }
  created := []
  goroutines := []
  history := []

def withDatabase (s : System) (db : Database) : System :=
  { s with driver := { s.driver with db } }

/-- The start of `runJob`: look up the handler, fetch the job, call `Handle`. -/
def start (s : System) (job : Job) : RunPhase × List HandlerEvent :=
  if !s.driver.handlers.contains job.type then
    (.returned (some
      { message := "no handler registered for job type " ++ job.type, permanent := false }), [])
  else
    match s.driver.db.getJob job.id with
    | none => (.returned (some { message := "job not found", permanent := false }), [])
    | some fullJob => (.handling fullJob, [.started job.id])

def step : StepFunction System Action
  | s, .createJob job =>
      let job := { job with status := .pending }
      match s.driver.db.createJob job with
      | .error _ => some s
      | .ok db => some { s.withDatabase db with created := s.created ++ [job] }
  | s, .enqueue position now =>
      match focus position s.created with
      | none => none
      | some (before, job, after) =>
          match s.driver.db.enqueue job now with
          | .error _ => some { s with created := before ++ after }
          | .ok (_, db) => some { s.withDatabase db with created := before ++ after }
  | s, .pollAndDispatch env =>
      let (driver, jobsToRun) := s.driver.pollAndDispatch env
      some
        { s with
          driver
          goroutines := s.goroutines ++ jobsToRun.map fun job => { job, phase := .dispatched } }
  | s, .startHandler position =>
      match focus position s.goroutines with
      | some (before, { job, phase := .dispatched }, after) =>
          let (phase, events) := s.start job
          some
            { s with
              goroutines := before ++ { job, phase } :: after
              history := events ++ s.history }
      | _ => none
  | s, .finishHandler position execErr =>
      match focus position s.goroutines with
      | some (before, { job, phase := .handling _ }, after) =>
          some
            { s with
              goroutines := before ++ { job, phase := .returned execErr } :: after
              history := .returned job.id execErr :: s.history }
      | _ => none
  | s, .finalizeJob position now dbFails =>
      match focus position s.goroutines with
      | some (before, { job, phase := .returned execErr }, after) =>
          some
            { s with
              driver := s.driver.finalizeJob job execErr now dbFails
              goroutines := before ++ after }
      | _ => none
  | s, .cancelJob id now =>
      match s.driver.db.cancelJob id now with
      | none => none
      | some (.error _) => some s
      | some (.ok db) => some (s.withDatabase db)
  | s, .deleteJob id =>
      match s.driver.db.deleteJob id with
      | none => none
      | some (.error _) => some s
      | some (.ok db) => some (s.withDatabase db)

/-- The steps of producers, poller, handlers and finalisers. -/
def isQueueStep : Action → Bool
  | .cancelJob .. | .deleteJob .. => false
  | _ => true

/-! ## What a step can do -/

@[simp] theorem withDatabase_driver_db (s : System) (db : Database) :
    (s.withDatabase db).driver.db = db := rfl

@[simp] theorem withDatabase_counters (s : System) (db : Database) :
    (s.withDatabase db).driver.counters = s.driver.counters := rfl

@[simp] theorem withDatabase_created (s : System) (db : Database) :
    (s.withDatabase db).created = s.created := rfl

@[simp] theorem withDatabase_goroutines (s : System) (db : Database) :
    (s.withDatabase db).goroutines = s.goroutines := rfl

@[simp] theorem withDatabase_history (s : System) (db : Database) :
    (s.withDatabase db).history = s.history := rfl

variable {s s' : System}

attribute [local simp] step

theorem step_createJob {job : Job} (taken : s.step (.createJob job) = some s') :
    s' = s ∨ ∃ db, s.driver.db.createJob { job with status := .pending } = .ok db ∧
      s' = { s.withDatabase db with created := s.created ++ [{ job with status := .pending }] } := by
  simp only [step] at taken
  split at taken
  · exact .inl (Option.some.inj taken).symm
  · rename_i db created
    exact .inr ⟨db, created, (Option.some.inj taken).symm⟩

theorem step_enqueue {position : Nat} {now : Time}
    (taken : s.step (.enqueue position now) = some s') :
    ∃ before job after, focus position s.created = some (before, job, after) ∧
      (s' = { s with created := before ++ after } ∨
        ∃ job' db, s.driver.db.enqueue job now = .ok (job', db) ∧
          s' = { s.withDatabase db with created := before ++ after }) := by
  simp only [step] at taken
  split at taken
  · contradiction
  · rename_i before job after focused
    refine ⟨before, job, after, focused, ?_⟩
    split at taken
    · exact .inl (Option.some.inj taken).symm
    · rename_i job' db enqueued
      exact .inr ⟨job', db, enqueued, (Option.some.inj taken).symm⟩

theorem step_pollAndDispatch {env : PollEnv}
    (taken : s.step (.pollAndDispatch env) = some s') :
    s' = { s with
      driver := (s.driver.pollAndDispatch env).1
      goroutines := s.goroutines ++
        (s.driver.pollAndDispatch env).2.map fun job => { job, phase := .dispatched } } := by
  simp only [step] at taken
  exact (Option.some.inj taken).symm

theorem step_startHandler {position : Nat} (taken : s.step (.startHandler position) = some s') :
    ∃ before job after,
      s.goroutines = before ++ { job, phase := .dispatched } :: after ∧
      s' = { s with
        goroutines := before ++ { job, phase := (s.start job).1 } :: after
        history := (s.start job).2 ++ s.history } := by
  simp only [step] at taken
  split at taken
  · rename_i before job after focused
    exact ⟨before, job, after, focus_eq focused, (Option.some.inj taken).symm⟩
  · contradiction

theorem step_finishHandler {position : Nat} {execErr : Option HandlerError}
    (taken : s.step (.finishHandler position execErr) = some s') :
    ∃ before job fullJob after,
      s.goroutines = before ++ { job, phase := .handling fullJob } :: after ∧
      s' = { s with
        goroutines := before ++ { job, phase := .returned execErr } :: after
        history := .returned job.id execErr :: s.history } := by
  simp only [step] at taken
  split at taken
  · rename_i before job fullJob after focused
    exact ⟨before, job, fullJob, after, focus_eq focused, (Option.some.inj taken).symm⟩
  · contradiction

theorem step_finalizeJob {position : Nat} {now : Time} {dbFails : Bool}
    (taken : s.step (.finalizeJob position now dbFails) = some s') :
    ∃ before job execErr after,
      s.goroutines = before ++ { job, phase := .returned execErr } :: after ∧
      s' = { s with
        driver := s.driver.finalizeJob job execErr now dbFails
        goroutines := before ++ after } := by
  simp only [step] at taken
  split at taken
  · rename_i before job execErr after focused
    exact ⟨before, job, execErr, after, focus_eq focused, (Option.some.inj taken).symm⟩
  · contradiction

theorem step_cancelJob {id : String} {now : Time}
    (taken : s.step (.cancelJob id now) = some s') :
    s' = s ∨ ∃ db, s.driver.db.cancelJob id now = some (.ok db) ∧ s' = s.withDatabase db := by
  simp only [step] at taken
  split at taken
  · contradiction
  · exact .inl (Option.some.inj taken).symm
  · rename_i db cancelled
    exact .inr ⟨db, cancelled, (Option.some.inj taken).symm⟩

theorem step_deleteJob {id : String} (taken : s.step (.deleteJob id) = some s') :
    s' = s ∨ ∃ db, s.driver.db.deleteJob id = some (.ok db) ∧ s' = s.withDatabase db := by
  simp only [step] at taken
  split at taken
  · contradiction
  · exact .inl (Option.some.inj taken).symm
  · rename_i db deleted
    exact .inr ⟨db, deleted, (Option.some.inj taken).symm⟩

/-- A started goroutine handles its job, or has returned an error without a run. -/
theorem start_cases (s : System) (job : Job) :
    (∃ fullJob, s.start job = (.handling fullJob, [.started job.id])) ∨
    (∃ error, s.start job = (.returned (some error), [])) := by
  unfold start
  split
  · exact .inr ⟨_, rfl⟩
  · split
    · exact .inr ⟨_, rfl⟩
    · exact .inl ⟨_, rfl⟩

end System

end Kiyomi.Queue.Sqlite
