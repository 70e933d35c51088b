import Kiyomi.Foundation.Run
import Kiyomi.Queue.InMemory.Driver
import Mathlib.Data.PNat.Basic

namespace Kiyomi.Queue.InMemory

open Go

/-! # The worker goroutine and the channel it drains

Callers of the driver and the one worker take turns. One action is one section under
the mutex or one operation on the channel. -/

/-- The `*queue.Job` that `processJob` holds: the entry of the map, or the job that was
the entry until an update or a deletion took it out. -/
inductive Pointer
  | entry (id : String)
  | detached (job : Job)
  deriving DecidableEq

/-- Where the worker stands. -/
inductive Phase
  | idle
  /-- `processJob` has looked the job up and not claimed it. -/
  | found (job : Pointer)
  | handling (job : Pointer)
  /-- The failed job is pending again and is about to be enqueued. -/
  | retrying (job : Pointer)
  /-- In the send of `Enqueue`, called by the handler of a job or by `processJob`. -/
  | sending (id : String) (handler : Option Pointer)
  deriving DecidableEq

namespace Phase

def map (f : Pointer → Pointer) : Phase → Phase
  | .idle => .idle
  | .found job => .found (f job)
  | .handling job => .handling (f job)
  | .retrying job => .retrying (f job)
  | .sending id handler => .sending id (handler.map f)

def isSending : Phase → Bool
  | .sending _ _ => true
  | _ => false

@[simp] theorem map_isSending (f : Pointer → Pointer) (phase : Phase) :
    (phase.map f).isSending = phase.isSending := by
  cases phase <;> rfl

/-- The worker after its send: back in the handler, or in the loop of `Start`. -/
def afterSend : Option Pointer → Phase
  | some job => .handling job
  | none => .idle

@[simp] theorem afterSend_isSending (handler : Option Pointer) :
    (afterSend handler).isSending = false := by
  cases handler <;> rfl

end Phase

structure System where
  driver : Driver
  handlers : List String
  /-- The ids that other goroutines are about to send. -/
  producers : List String
  worker : Phase

inductive Action
  | createJob (job : Job)
  | updateJob (job : Job)
  | deleteJob (id : String)
  | cancelJob (id : String) (now : String → Time)
  /-- Another goroutine calls `Enqueue` and reaches the send. -/
  | enqueue (job : Job)
  | send (position : Nat)
  | giveUp (position : Nat)
  | receive
  | claim (now : Time)
  /-- The handler calls `Enqueue` and reaches the send. -/
  | enqueueChild (job : Job)
  | workerSend
  /-- A context that the handler made for its `Enqueue` ends. -/
  | workerGivesUp
  | returnHandler (handleErr : Option HandlerError) (now : Time)
  | reenqueue

namespace System

/-- A started driver whose channel has a buffer. -/
def boot (bufferSize : ℕ+) (handlers : List String) : System where
  driver := Driver.new bufferSize
  handlers
  producers := []
  worker := .idle

def store (s : System) : Store := s.driver.store

def withStore (s : System) (store : Store) : System :=
  { s with driver := { s.driver with store } }

/-- The job behind a pointer. -/
def deref (s : System) : Pointer → Option Job
  | .entry id => s.store.find? id
  | .detached job => some job

/-- Assignment to the fields of the job behind a pointer: the system and the pointer
afterwards. -/
def assign (s : System) (set : Job → Job) : Pointer → System × Pointer
  | .entry id => (s.withStore (s.store.modify (fun job => job.id == id) set), .entry id)
  | .detached job => (s, .detached (set job))

/-- A pointer after some entries of the map are replaced or removed. -/
def release (s : System) (gone : String → Bool) : Pointer → Pointer
  | .entry id => if gone id then ((s.store.find? id).map .detached).getD (.entry id) else .entry id
  | .detached job => .detached job

/-- The result of `CreateJob`, `UpdateJob` and the like on the map. -/
def withOutcome (s : System) (gone : Store → String → Bool) :
    Except DriverError Store → System
  | .error _ => s
  | .ok store =>
      { s.withStore store with worker := s.worker.map (s.release (gone store)) }

/-- What `processJob` does with an id from the channel before it claims the job. -/
def lookUp (s : System) (jobID : String) : Phase :=
  match s.store.find? jobID with
  | none => .idle
  | some job => if job.status.isLive then .found (.entry jobID) else .idle

/-- The section of `processJob` that claims the job, or fails it when its type has no
handler. -/
def claim (s : System) (now : Time) (pointer : Pointer) (job : Job) : System :=
  if s.handlers.contains job.type then
    if job.status = .pending then
      let (s, pointer) := s.assign
        (fun job => { job with status := .running, startedAt := some now }) pointer
      { s with worker := .handling pointer }
    else { s with worker := .idle }
  else if job.status.isLive then
    let (s, _) := s.assign
      (fun job =>
        { job with
          status := .failed
          error := "no handler registered for job type " ++ job.type
          completedAt := some now }) pointer
    { s with worker := .idle }
  else { s with worker := .idle }

/-- The section of `processJob` after the handler returned. -/
def conclude (s : System) (handleErr : Option HandlerError) (now : Time) (pointer : Pointer)
    (job : Job) : System :=
  if job.status = .running then
    match handleErr with
    | some handleErr =>
        if handleErr.permanent || job.maxRetries ≤ job.retries + 1 then
          let (s, _) := s.assign
            (fun job =>
              { job with
                retries := job.retries + 1
                status := .failed
                error := handleErr.message
                completedAt := some now }) pointer
          { s with worker := .idle }
        else
          let (s, pointer) := s.assign
            (fun job => { job with retries := job.retries + 1, status := .pending }) pointer
          { s with worker := .retrying pointer }
    | none =>
        let (s, _) := s.assign
          (fun job => { job with status := .completed, completedAt := some now }) pointer
        { s with worker := .idle }
  else { s with worker := .idle }

def step : StepFunction System Action
  | s, .createJob job => some (s.withOutcome (fun _ _ => false) (s.store.createJob job))
  | s, .updateJob job => some (s.withOutcome (fun _ id => id == job.id) (s.store.updateJob job))
  | s, .deleteJob id =>
      (s.store.deleteJob id).map (s.withOutcome fun store id => !store.contains id)
  | s, .cancelJob id now => (s.store.cancelJob id now).map (s.withOutcome fun _ _ => false)
  | s, .enqueue job =>
      some { s.withStore (s.store.mark job) with producers := s.producers ++ [job.id] }
  | s, .send position =>
      match focus position s.producers with
      | none => none
      | some (before, id, after) =>
          (s.driver.send id).map fun driver => { s with driver, producers := before ++ after }
  | s, .giveUp position =>
      match focus position s.producers with
      | none => none
      | some (before, _, after) => some { s with producers := before ++ after }
  | s, .receive =>
      match s.worker, s.driver.queueChan with
      | .idle, jobID :: queueChan =>
          some { s with driver := { s.driver with queueChan }, worker := s.lookUp jobID }
      | _, _ => none
  | s, .claim now =>
      match s.worker with
      | .found pointer => (s.deref pointer).map (s.claim now pointer)
      | _ => none
  | s, .enqueueChild job =>
      match s.worker with
      | .handling pointer =>
          some { s.withStore (s.store.mark job) with worker := .sending job.id (some pointer) }
      | _ => none
  | s, .workerSend =>
      match s.worker with
      | .sending id handler =>
          (s.driver.send id).map fun driver => { s with driver, worker := .afterSend handler }
      | _ => none
  | s, .workerGivesUp =>
      match s.worker with
      | .sending _ (some pointer) => some { s with worker := .handling pointer }
      | _ => none
  | s, .returnHandler handleErr now =>
      match s.worker with
      | .handling pointer => (s.deref pointer).map (s.conclude handleErr now pointer)
      | _ => none
  | s, .reenqueue =>
      match s.worker with
      | .retrying pointer =>
          (s.deref pointer).map fun job =>
            { s.withStore (s.store.mark job) with worker := .sending job.id none }
      | _ => none

/-- The worker is in a send and the channel has no free slot. -/
def isBlocked (s : System) : Bool := s.worker.isSending && s.driver.isFull

/-- Whenever the worker starts a send the channel has a free slot, and nobody else takes
the last free slot while it sends. -/
def leavesRoom (s : System) : Action → Bool
  | .enqueueChild _ | .reenqueue => !s.driver.isFull
  | .send _ => !s.worker.isSending || s.driver.queueChan.length + 1 < s.driver.bufferSize
  | _ => true

/-! ## What a step does to the channel and the worker -/

@[simp] theorem lookUp_isSending (s : System) (jobID : String) :
    (s.lookUp jobID).isSending = false := by
  unfold lookUp
  split
  · rfl
  · split <;> rfl

@[simp] theorem claim_isSending (s : System) (now : Time) (pointer : Pointer) (job : Job) :
    (s.claim now pointer job).worker.isSending = false := by
  unfold claim
  repeat' split
  all_goals rfl

@[simp] theorem conclude_isSending (s : System) (handleErr : Option HandlerError) (now : Time)
    (pointer : Pointer) (job : Job) :
    (s.conclude handleErr now pointer job).worker.isSending = false := by
  unfold conclude
  repeat' split
  all_goals rfl

/-- A step changes how many ids the channel holds and whether the worker sends. -/
structure Effect (s s' : System) (sends : Bool) (sent : Nat) : Prop where
  bufferSize : s'.driver.bufferSize = s.driver.bufferSize
  isSending : s'.worker.isSending = sends
  length : s'.driver.queueChan.length = s.driver.queueChan.length + sent

theorem withOutcome_effect (s : System) (gone : Store → String → Bool)
    (outcome : Except DriverError Store) :
    Effect s (s.withOutcome gone outcome) s.worker.isSending 0 := by
  cases outcome with
  | error => exact ⟨rfl, rfl, rfl⟩
  | ok store => exact ⟨rfl, Phase.map_isSending _ _, rfl⟩

/-- What an action does: the worker stays where it is with respect to sends, or leaves
its send or handler without one, or starts a send. -/
def Effects (s : System) : Action → System → Prop
  | .createJob _, s' | .updateJob _, s' | .deleteJob _, s' | .cancelJob _ _, s'
  | .enqueue _, s' | .giveUp _, s' => Effect s s' s.worker.isSending 0
  | .send _, s' => s.driver.isFull = false ∧ Effect s s' s.worker.isSending 1
  | .receive, s' | .claim _, s' | .returnHandler _ _, s' =>
      s.worker.isSending = false ∧ s'.worker.isSending = false
  | .enqueueChild _, s' | .reenqueue, s' =>
      s.worker.isSending = false ∧ Effect s s' true 0
  | .workerSend, s' => s.driver.isFull = false ∧ s'.worker.isSending = false
  | .workerGivesUp, s' => s'.worker.isSending = false

theorem step_effect {s s' : System} {action : Action} (taken : s.step action = some s') :
    s.Effects action s' := by
  cases action with
  | createJob job =>
      cases taken
      exact s.withOutcome_effect _ _
  | updateJob job =>
      cases taken
      exact s.withOutcome_effect _ _
  | deleteJob id =>
      rcases Option.map_eq_some_iff.mp taken with ⟨outcome, _, rfl⟩
      exact s.withOutcome_effect _ _
  | cancelJob id now =>
      rcases Option.map_eq_some_iff.mp taken with ⟨outcome, _, rfl⟩
      exact s.withOutcome_effect _ _
  | enqueue job =>
      cases taken
      exact ⟨rfl, rfl, rfl⟩
  | send position =>
      simp only [step] at taken
      split at taken
      · contradiction
      · rcases Option.map_eq_some_iff.mp taken with ⟨driver, sent, rfl⟩
        rcases Driver.send_eq_some.mp sent with ⟨notFull, rfl⟩
        exact ⟨notFull, rfl, rfl, List.length_append⟩
  | giveUp position =>
      simp only [step] at taken
      split at taken
      · contradiction
      · cases taken
        exact ⟨rfl, rfl, rfl⟩
  | receive =>
      simp only [step] at taken
      split at taken
      · rename_i idle _
        cases taken
        exact ⟨by rw [idle]; rfl, lookUp_isSending _ _⟩
      · contradiction
  | claim now =>
      simp only [step] at taken
      split at taken
      · rename_i found
        rcases Option.map_eq_some_iff.mp taken with ⟨job, _, rfl⟩
        exact ⟨by rw [found]; rfl, claim_isSending _ _ _ _⟩
      · contradiction
  | enqueueChild job =>
      simp only [step] at taken
      split at taken
      · rename_i handling
        cases taken
        exact ⟨by rw [handling]; rfl, rfl, rfl, rfl⟩
      · contradiction
  | workerSend =>
      simp only [step] at taken
      split at taken
      · rcases Option.map_eq_some_iff.mp taken with ⟨driver, sent, rfl⟩
        exact ⟨(Driver.send_eq_some.mp sent).1, Phase.afterSend_isSending _⟩
      · contradiction
  | workerGivesUp =>
      simp only [step] at taken
      split at taken
      · cases taken
        rfl
      · contradiction
  | returnHandler handleErr now =>
      simp only [step] at taken
      split at taken
      · rename_i handling
        rcases Option.map_eq_some_iff.mp taken with ⟨job, _, rfl⟩
        exact ⟨by rw [handling]; rfl, conclude_isSending _ _ _ _ _⟩
      · contradiction
  | reenqueue =>
      simp only [step] at taken
      split at taken
      · rename_i retrying
        rcases Option.map_eq_some_iff.mp taken with ⟨job, _, rfl⟩
        exact ⟨by rw [retrying]; rfl, rfl, rfl, rfl⟩
      · contradiction

theorem Effect.isBlocked_iff {s s' : System} {sends : Bool} {sent : Nat}
    (effect : Effect s s' sends sent) :
    s'.isBlocked = true ↔
      sends = true ∧ s.driver.bufferSize ≤ s.driver.queueChan.length + sent := by
  simp [isBlocked, Driver.isFull, effect.isSending, effect.bufferSize, effect.length]

theorem isBlocked_of_not_sending {s : System} (notSending : s.worker.isSending = false) :
    s.isBlocked = false := by
  rw [isBlocked, notSending, Bool.false_and]

/-- In a state where the worker is not blocked, the condition on an action is exact. -/
theorem isBlocked_step {s s' : System} {action : Action} (free : s.isBlocked = false)
    (taken : s.step action = some s') : s'.isBlocked = false ↔ s.leavesRoom action = true := by
  have effect := step_effect taken
  have unchanged : Effect s s' s.worker.isSending 0 → s'.isBlocked = false := by
    intro effect
    rw [Bool.eq_false_iff, Ne, effect.isBlocked_iff]
    simpa [isBlocked, Driver.isFull] using free
  have starts : Effect s s' true 0 → (s'.isBlocked = false ↔ (!s.driver.isFull) = true) := by
    intro effect
    rw [Bool.eq_false_iff, Ne, effect.isBlocked_iff]
    simp [Driver.isFull]
  cases action with
  | createJob | updateJob | deleteJob | cancelJob | enqueue | giveUp =>
      exact iff_of_true (unchanged effect) rfl
  | send position =>
      rw [Bool.eq_false_iff, Ne, effect.2.isBlocked_iff]
      cases sending : s.worker.isSending <;> simp [leavesRoom, sending]
  | receive | claim | returnHandler | workerSend =>
      exact iff_of_true (isBlocked_of_not_sending effect.2) rfl
  | enqueueChild | reenqueue => exact starts effect.2
  | workerGivesUp => exact iff_of_true (isBlocked_of_not_sending effect) rfl

/-! ## Fan-out of one handler run -/

end System

end Kiyomi.Queue.InMemory
