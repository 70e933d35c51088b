import Kiyomi.Queue.Job
import Mathlib.Data.List.Count

namespace Kiyomi.Queue

/-! # The law of retries

What the worker of either driver makes of the outcomes of one job's handler: it runs the
job again after a failure until a run returns nil, fails for good, or is the last one
that `MaxRetries` allows. -/

/-- The failed ones among the first runs. -/
def failures (outcomes : Nat → Option HandlerError) (runs : Nat) : Nat :=
  (List.range runs).countP fun run => (outcomes run).isSome

theorem failures_succ (outcomes : Nat → Option HandlerError) (runs : Nat) :
    failures outcomes (runs + 1) =
      failures outcomes runs + if (outcomes runs).isSome then 1 else 0 := by
  simp [failures, List.range_succ, List.countP_singleton]

/-- No run follows this one: it returned nil, it failed for good, or it is the
`max(1, MaxRetries)`-th failure. -/
def endsRuns (outcomes : Nat → Option HandlerError) (maxRetries : Int) (run : Nat) : Bool :=
  match outcomes run with
  | none => true
  | some error => error.permanent || max 1 maxRetries ≤ failures outcomes (run + 1)

/-- A job after `started` starts and `finished` recorded ends of its handler. The runs
take the outcomes in their order, up to and including the first that ends them. -/
structure RetryLaw (outcomes : Nat → Option HandlerError) (maxRetries : Int)
    (started finished : Nat) (status : JobStatus) (retries : Int) : Prop where
  oneAtATime : finished ≤ started ∧ started ≤ finished + 1
  within : ∀ run, run + 1 < started → endsRuns outcomes maxRetries run = false
  ended_iff : status.isLive = false ↔
    ∃ run, started = run + 1 ∧ finished = run + 1 ∧ endsRuns outcomes maxRetries run = true
  last : ∀ run, finished = run + 1 → status.isLive = false →
    status = if (outcomes run).isNone then .completed else .failed
  retries : retries = failures outcomes finished

namespace RetryLaw

variable {outcomes : Nat → Option HandlerError} {maxRetries retries : Int}
  {started finished runs : Nat} {status : JobStatus}

theorem initial : RetryLaw outcomes maxRetries 0 0 .pending 0 where
  oneAtATime := ⟨Nat.le_refl 0, Nat.zero_le 1⟩
  within _ before := by omega
  ended_iff := ⟨nofun, fun ended => by
    rcases ended with ⟨run, impossible, _⟩
    omega⟩
  last _ impossible := by omega
  retries := rfl

/-- A job that is claimed may have yet to start. -/
theorem of_started {claimed : Nat}
    (law : RetryLaw outcomes maxRetries claimed finished status retries)
    (low : finished ≤ started) (high : started ≤ claimed) :
    RetryLaw outcomes maxRetries started finished status retries where
  oneAtATime := by
    have oneAtATime := law.oneAtATime
    omega
  within run before := law.within run (by omega)
  ended_iff := by
    have oneAtATime := law.oneAtATime
    rw [law.ended_iff]
    constructor
    · intro ended
      rcases ended with ⟨run, isClaimed, isFinished, ends⟩
      exact ⟨run, by omega, isFinished, ends⟩
    · intro ended
      rcases ended with ⟨run, isStarted, isFinished, ends⟩
      refine ⟨run, ?_, isFinished, ends⟩
      -- Another claim would be a run after the one that ends them.
      by_contra more
      rw [law.within run (by omega)] at ends
      contradiction
  last := law.last
  retries := law.retries

/-- The claim of a pending job. -/
theorem start (law : RetryLaw outcomes maxRetries runs runs .pending retries) :
    RetryLaw outcomes maxRetries (runs + 1) runs .running retries where
  oneAtATime := ⟨Nat.le_succ runs, Nat.le_refl _⟩
  within run before := by
    by_cases isLast : run + 1 = runs
    · by_contra ends
      have ended := law.ended_iff.mpr ⟨run, isLast.symm, isLast.symm, by simpa using ends⟩
      contradiction
    · exact law.within run (by omega)
  ended_iff := ⟨nofun, fun ended => by
    rcases ended with ⟨run, isStarted, isFinished, _⟩
    omega⟩
  last _ _ ended := nomatch ended
  retries := law.retries

/-- The status that a driver records for a run that returned. -/
def recorded (outcome : Option HandlerError) (maxRetries retries : Int) : JobStatus :=
  match outcome with
  | none => .completed
  | some error => if error.permanent || maxRetries ≤ retries + 1 then .failed else .pending

theorem endsRuns_iff (law : RetryLaw outcomes maxRetries (runs + 1) runs .running retries) :
    endsRuns outcomes maxRetries runs = true ↔
      (recorded (outcomes runs) maxRetries retries).isLive = false := by
  have counted := law.retries
  have oneMore := failures_succ outcomes runs
  unfold endsRuns recorded
  cases outcome : outcomes runs with
  | none => simp [JobStatus.isLive]
  | some error =>
      simp only [outcome, Option.isSome_some, if_true] at oneMore
      have sameBound : max 1 maxRetries ≤ (failures outcomes (runs + 1) : Int) ↔
          maxRetries ≤ retries + 1 := by
        rw [oneMore, counted]
        omega
      simp only [sameBound]
      split
      · rename_i ends
        exact iff_of_true ends rfl
      · rename_i continues
        exact iff_of_false continues nofun

/-- The end of a run, as both drivers record it. -/
theorem finish (law : RetryLaw outcomes maxRetries (runs + 1) runs .running retries) :
    RetryLaw outcomes maxRetries (runs + 1) (runs + 1)
      (recorded (outcomes runs) maxRetries retries)
      (retries + if (outcomes runs).isSome then 1 else 0) where
  oneAtATime := ⟨Nat.le_refl _, Nat.le_succ _⟩
  within := law.within
  ended_iff := by
    rw [← law.endsRuns_iff]
    constructor
    · exact fun ends => ⟨runs, rfl, rfl, ends⟩
    · intro ended
      rcases ended with ⟨run, _, same, ends⟩
      rwa [Nat.succ.inj same]
  last run same ended := by
    cases Nat.succ.inj same
    unfold recorded at ended ⊢
    cases outcome : outcomes runs with
    | none => rfl
    | some error =>
        simp only [outcome] at ended ⊢
        split at ended
        · rename_i fails
          simp only [fails, if_true]
          rfl
        · contradiction
  retries := by
    rw [failures_succ, law.retries]
    split <;> simp

end RetryLaw

end Kiyomi.Queue
