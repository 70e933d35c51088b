import Kiyomi.Foundation.Run
import Mathlib.Data.List.Basic

namespace Kiyomi.PluginSdk

/-! # The concurrency limiter

`concurrencyMiddleware` puts a token into a channel before it sends a request. It takes one out
when the round trip fails or brings no body; otherwise the body does when it is closed. -/

/-- What the inner round trip returns. -/
inductive RoundTrip
  | failed
  | noBody
  | body

/-- How far a request has come through the middleware. -/
inductive Stage
  | waiting
  | cancelled
  | calling
  /-- The round trip has brought no body, and the token is about to be taken out. -/
  | releasing
  | failed
  | responded
  /-- The `once` of the body has run. -/
  | closed
  deriving DecidableEq

namespace Stage

/-- The request has put its token into the channel. -/
def passed : Stage → Bool
  | .waiting | .cancelled => false
  | .calling | .releasing | .failed | .responded | .closed => true

/-- The request has failed, or its body has been closed. -/
def finished : Stage → Bool
  | .failed | .closed => true
  | .waiting | .cancelled | .calling | .releasing | .responded => false

end Stage

/-- A request, with the tokens that it has put into the channel and those taken out for it. -/
structure Request where
  stage : Stage
  acquired : Nat
  released : Nat

inductive Move
  | acquire
  /-- The context of the request ends while it waits. -/
  | cancel
  | answer (result : RoundTrip)
  | release
  /-- Some goroutine closes the body. -/
  | close

namespace Request

def arriving : Request := { stage := .waiting, acquired := 0, released := 0 }

/-- A request moves, and the channel with it: sending waits for room and receiving for a token. -/
def move (maxConcurrent sem : Nat) (r : Request) : Move → Option (Nat × Request)
  | .acquire =>
      if r.stage = .waiting ∧ sem < maxConcurrent then
        some (sem + 1, { r with stage := .calling, acquired := r.acquired + 1 })
      else none
  | .cancel => if r.stage = .waiting then some (sem, { r with stage := .cancelled }) else none
  | .answer result =>
      if r.stage = .calling then
        match result with
        | .failed => some (sem, { r with stage := .releasing })
        | .noBody => some (sem, { r with stage := .releasing })
        | .body => some (sem, { r with stage := .responded })
      else none
  | .release =>
      if r.stage = .releasing ∧ 0 < sem then
        some (sem - 1, { r with stage := .failed, released := r.released + 1 })
      else none
  | .close =>
      if r.stage = .closed then some (sem, r)
      else if r.stage = .responded ∧ 0 < sem then
        some (sem - 1, { r with stage := .closed, released := r.released + 1 })
      else none

/-- The request has passed acquisition, and has neither failed nor had its body closed. -/
def inFlight (r : Request) : Bool := r.stage.passed && !r.stage.finished

/-- A token for passing, and one taken out at the end. -/
structure Balanced (r : Request) : Prop where
  acquired : r.acquired = r.stage.passed.toNat
  released : r.released = r.stage.finished.toNat

theorem balanced_arriving : arriving.Balanced := ⟨rfl, rfl⟩

variable {maxConcurrent sem sem' : Nat} {r r' : Request} {m : Move}

/-- A move puts a token into the channel, leaves the channel alone, or takes a token out. -/
theorem move_cases (moved : r.move maxConcurrent sem m = some (sem', r')) :
    (r.stage = .waiting ∧ sem < maxConcurrent ∧ sem' = sem + 1 ∧
      r' = { r with stage := .calling, acquired := r.acquired + 1 }) ∨
    (∃ stage, stage.passed = r.stage.passed ∧ stage.finished = r.stage.finished ∧ sem' = sem ∧
      r' = { r with stage }) ∨
    (∃ stage, r.inFlight = true ∧ stage.passed = true ∧ stage.finished = true ∧ 0 < sem ∧
      sem' = sem - 1 ∧ r' = { r with stage, released := r.released + 1 }) := by
  cases m with
  | acquire =>
      simp only [move, Option.ite_none_right_eq_some, Option.some.injEq, Prod.mk.injEq] at moved
      obtain ⟨⟨stage, room⟩, rfl, rfl⟩ := moved
      exact .inl ⟨stage, room, rfl, rfl⟩
  | cancel =>
      simp only [move, Option.ite_none_right_eq_some, Option.some.injEq, Prod.mk.injEq] at moved
      obtain ⟨stage, rfl, rfl⟩ := moved
      exact .inr (.inl ⟨.cancelled, by rw [stage]; rfl, by rw [stage]; rfl, rfl, rfl⟩)
  | answer result =>
      simp only [move, Option.ite_none_right_eq_some] at moved
      obtain ⟨stage, moved⟩ := moved
      cases result with
      | failed =>
          cases moved
          exact .inr (.inl ⟨.releasing, by rw [stage]; rfl, by rw [stage]; rfl, rfl, rfl⟩)
      | noBody =>
          cases moved
          exact .inr (.inl ⟨.releasing, by rw [stage]; rfl, by rw [stage]; rfl, rfl, rfl⟩)
      | body =>
          cases moved
          exact .inr (.inl ⟨.responded, by rw [stage]; rfl, by rw [stage]; rfl, rfl, rfl⟩)
  | release =>
      simp only [move, Option.ite_none_right_eq_some, Option.some.injEq, Prod.mk.injEq] at moved
      obtain ⟨⟨stage, some_token⟩, rfl, rfl⟩ := moved
      exact .inr (.inr ⟨.failed, by rw [inFlight, stage]; rfl, rfl, rfl, some_token, rfl, rfl⟩)
  | close =>
      rw [move] at moved
      split at moved
      · cases moved
        exact .inr (.inl ⟨r.stage, rfl, rfl, rfl, rfl⟩)
      · simp only [Option.ite_none_right_eq_some, Option.some.injEq, Prod.mk.injEq] at moved
        obtain ⟨⟨stage, some_token⟩, rfl, rfl⟩ := moved
        exact .inr (.inr ⟨.closed, by rw [inFlight, stage]; rfl, rfl, rfl, some_token, rfl, rfl⟩)

theorem Balanced.move (balanced : r.Balanced)
    (moved : r.move maxConcurrent sem m = some (sem', r')) : r'.Balanced := by
  obtain ⟨acquired, released⟩ := balanced
  rcases move_cases moved with ⟨stage, -, -, rfl⟩ | ⟨stage, passed, finished, -, rfl⟩ |
    ⟨stage, flying, passed, finished, -, -, rfl⟩
  · rw [stage] at acquired released
    exact ⟨congrArg (· + 1) acquired, released⟩
  · exact ⟨passed ▸ acquired, finished ▸ released⟩
  · rw [inFlight, Bool.and_eq_true, Bool.not_eq_true'] at flying
    rw [flying.1] at acquired
    rw [flying.2] at released
    exact ⟨passed.symm ▸ acquired, finished.symm ▸ congrArg (· + 1) released⟩

/-- A move changes the tokens in the channel as it changes whether the request is in flight. -/
theorem sem_of_move (moved : r.move maxConcurrent sem m = some (sem', r')) :
    sem' + r.inFlight.toNat = sem + r'.inFlight.toNat := by
  rcases move_cases moved with ⟨stage, -, rfl, rfl⟩ | ⟨stage, passed, finished, rfl, rfl⟩ |
    ⟨stage, flying, passed, finished, some_token, rfl, rfl⟩
  · have waits : r.inFlight = false := by rw [inFlight, stage]; rfl
    rw [waits]
    rfl
  · rw [inFlight, inFlight, passed, finished]
  · have ended : inFlight { r with stage, released := r.released + 1 } = false := by
      rw [inFlight, passed, finished]
      rfl
    rw [flying, ended]
    exact Nat.sub_add_cancel some_token

theorem sem_le_of_move (moved : r.move maxConcurrent sem m = some (sem', r'))
    (fits : sem ≤ maxConcurrent) : sem' ≤ maxConcurrent := by
  rcases move_cases moved with ⟨-, room, rfl, -⟩ | ⟨-, -, -, rfl, -⟩ | ⟨-, -, -, -, -, rfl, -⟩
  · exact room
  · exact fits
  · exact Nat.le_trans (Nat.sub_le sem 1) fits

end Request

/-! ## All requests -/

/-- The tokens in the channel, and the requests that have come. -/
structure ConcurrencyState where
  sem : Nat
  requests : List Request

inductive ConcurrencyEvent
  | arrive
  | moves (position : Nat) (move : Move)

namespace ConcurrencyState

def start : ConcurrencyState := { sem := 0, requests := [] }

def step (maxConcurrent : Nat) : StepFunction ConcurrencyState ConcurrencyEvent
  | s, .arrive => some { s with requests := s.requests ++ [.arriving] }
  | s, .moves position m => do
      let (before, r, after) ← focus position s.requests
      let (sem, r) ← r.move maxConcurrent s.sem m
      some { sem, requests := before ++ r :: after }

/-- The channel holds a token for each request in flight, and each request has put in and taken
out its own. -/
structure Conserved (maxConcurrent : Nat) (s : ConcurrencyState) : Prop where
  tokens : s.sem = s.requests.countP Request.inFlight
  bounded : s.sem ≤ maxConcurrent
  balanced : ∀ r ∈ s.requests, r.Balanced

theorem conserved_start (maxConcurrent : Nat) : start.Conserved maxConcurrent where
  tokens := rfl
  bounded := Nat.zero_le _
  balanced _ member := absurd member List.not_mem_nil

variable {maxConcurrent : Nat} {s s' : ConcurrencyState}

theorem Conserved.step (conserved : s.Conserved maxConcurrent) {event : ConcurrencyEvent}
    (taken : step maxConcurrent s event = some s') : s'.Conserved maxConcurrent := by
  cases event with
  | arrive =>
      cases taken
      refine ⟨?_, conserved.bounded, ?_⟩
      · rw [List.countP_append]
        exact conserved.tokens
      · intro r member
        rcases List.mem_append.1 member with old | new
        · exact conserved.balanced r old
        · exact List.mem_singleton.1 new ▸ Request.balanced_arriving
  | moves position m =>
      simp only [ConcurrencyState.step, Option.bind_eq_bind, Option.bind_eq_some_iff] at taken
      obtain ⟨⟨before, r, after⟩, focused, ⟨sem, r'⟩, moved, same⟩ := taken
      cases same
      have parts := focus_eq focused
      have count := conserved.tokens
      have change := Request.sem_of_move moved
      rw [parts, List.countP_append, List.countP_cons] at count
      refine ⟨?_, Request.sem_le_of_move moved conserved.bounded, ?_⟩
      · rw [List.countP_append, List.countP_cons]
        cases old : r.inFlight <;> cases new : r'.inFlight <;>
          simp only [old, new, Bool.toNat_true, Bool.toNat_false] at change count ⊢ <;>
          simp at count ⊢ <;> omega
      · intro other member
        rcases List.mem_append.1 member with left | right
        · exact conserved.balanced other (parts ▸ List.mem_append_left _ left)
        · rcases List.mem_cons.1 right with rfl | right
          · exact (conserved.balanced r (parts ▸ List.mem_append_right _ List.mem_cons_self)).move
              moved
          · exact conserved.balanced other
              (parts ▸ List.mem_append_right _ (List.mem_cons_of_mem _ right))

/-- A token can be taken out for each request in flight. -/
theorem Conserved.sem_pos (conserved : s.Conserved maxConcurrent) {before after : List Request}
    {r : Request} (parts : s.requests = before ++ r :: after) (flying : r.inFlight = true) :
    0 < s.sem := by
  rw [conserved.tokens, parts]
  exact List.countP_pos_iff.2 ⟨r, List.mem_append_right _ List.mem_cons_self, flying⟩

theorem step_at {before after : List Request} {r : Request}
    (parts : s.requests = before ++ r :: after) (m : Move) :
    (ConcurrencyState.step maxConcurrent s (.moves before.length m)).isSome =
      (r.move maxConcurrent s.sem m).isSome := by
  rw [ConcurrencyState.step, parts, focus_length, Option.bind_eq_bind, Option.bind_some,
    Option.bind_eq_bind, Option.isSome_bind]
  cases r.move maxConcurrent s.sem m <;> rfl

/-- The channel holds as many tokens as there are requests in flight, and never more than it has
room for. Each request puts in one token and takes it out once, and never waits for that. -/
theorem limiter_conserves {events : List ConcurrencyEvent}
    (run : Run (ConcurrencyState.step maxConcurrent) (fun _ _ => True) start events s) :
    s.sem = s.requests.countP Request.inFlight ∧ s.sem ≤ maxConcurrent ∧
      (∀ r ∈ s.requests, r.acquired = r.stage.passed.toNat ∧
        r.released = r.stage.finished.toNat) ∧
      ∀ before r after, s.requests = before ++ r :: after →
        (r.stage = .releasing →
          (ConcurrencyState.step maxConcurrent s (.moves before.length .release)).isSome) ∧
        (r.stage = .responded →
          (ConcurrencyState.step maxConcurrent s (.moves before.length .close)).isSome) := by
  have conserved : s.Conserved maxConcurrent :=
    run.invariant (Conserved maxConcurrent)
      (fun _ _ _ _ conserved taken => conserved.step taken) (conserved_start maxConcurrent)
  refine ⟨conserved.tokens, conserved.bounded, fun r member => ?_, fun before r after parts => ?_⟩
  · exact ⟨(conserved.balanced r member).acquired, (conserved.balanced r member).released⟩
  · constructor
    · intro stage
      have some_token := conserved.sem_pos parts (by rw [Request.inFlight, stage]; rfl)
      rw [step_at parts, Request.move, if_pos ⟨stage, some_token⟩]
      rfl
    · intro stage
      have some_token := conserved.sem_pos parts (by rw [Request.inFlight, stage]; rfl)
      rw [step_at parts, Request.move, stage, if_neg (by decide), if_pos ⟨rfl, some_token⟩]
      rfl

section Twice

/-- A request whose body is closed twice. -/
def closedTwice : List ConcurrencyEvent :=
  [.arrive, .moves 0 .acquire, .moves 0 (.answer .body), .moves 0 .close, .moves 0 .close]

def afterClosing : ConcurrencyState where
  sem := 0
  requests := [{ stage := .closed, acquired := 1, released := 1 }]

theorem limiter_conserves_closed_twice :
    afterClosing.sem = afterClosing.requests.countP Request.inFlight ∧ afterClosing.sem ≤ 1 ∧
      (∀ r ∈ afterClosing.requests, r.acquired = r.stage.passed.toNat ∧
        r.released = r.stage.finished.toNat) ∧
      ∀ before r after, afterClosing.requests = before ++ r :: after →
        (r.stage = .releasing →
          (ConcurrencyState.step 1 afterClosing (.moves before.length .release)).isSome) ∧
        (r.stage = .responded →
          (ConcurrencyState.step 1 afterClosing (.moves before.length .close)).isSome) :=
  @limiter_conserves 1 afterClosing closedTwice (.cons trivial rfl (.cons trivial rfl
    (.cons trivial rfl (.cons trivial rfl (.cons trivial rfl (.nil _))))))

end Twice

end ConcurrencyState

end Kiyomi.PluginSdk
