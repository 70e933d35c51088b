namespace Kiyomi.PluginSdk

/-! # The round trippers of the plugin HTTP client

`buildHTTPClient` over a custom base transport wraps layer after layer, keeping the
chain built so far in the variable `rt`. Requests and responses are opaque here; what
counts is which layer calls which. -/

/-- The fields of `clientConfig` that decide which layers there are. Durations are in
nanoseconds. -/
structure ClientConfig where
  rps : Rat
  burst : Int
  hostRateLimitRPS : Rat
  hostRateLimitBurst : Int
  delayMin : Int
  delayMax : Int
  singleflight : Bool
  maxRetries : Int
  cookies : List (String × String)
  hasJar : Bool
  maxConcurrent : Int

inductive Limiter
  | tokenBucket (rps : Rat) (burst : Int)
  | hostRateLimiter (rps : Rat) (burst : Int)
  | delayJitter (min max : Int)

inductive Transport
  /-- `cfg.customTransport`, or the base of `newRateLimitTransport`. -/
  | custom
  | headers (base : Transport)
  /-- The function that waits and then calls `rt`. It captures the variable and not the
  transport that the variable held when the function was made. -/
  | wait (limiter : Limiter)
  | singleflight (next : Transport)
  | retry (maxRetries : Nat) (next : Transport)
  | cookies (next : Transport)
  | concurrency (maxConcurrent : Int) (next : Transport)

/-- The burst of a limiter when none is configured. -/
def defaultBurst (rps : Rat) (burst : Int) : Int :=
  if burst ≤ 0 then (if rps.floor < 1 then 1 else rps.floor) else burst

/-- The transport of `buildHTTPClient` when a custom transport is set. -/
def buildHTTPClient (cfg : ClientConfig) : Transport :=
  let rt := Transport.headers .custom
  let rt := if 0 < cfg.rps then
      .wait (.tokenBucket cfg.rps (defaultBurst cfg.rps cfg.burst)) else rt
  let rt := if 0 < cfg.hostRateLimitRPS then
      .wait (.hostRateLimiter cfg.hostRateLimitRPS
        (defaultBurst cfg.hostRateLimitRPS cfg.hostRateLimitBurst)) else rt
  let rt := if 0 < cfg.delayMin ∨ 0 < cfg.delayMax then
      .wait (.delayJitter cfg.delayMin cfg.delayMax) else rt
  let rt := if cfg.singleflight then .singleflight rt else rt
  let rt := if 0 < cfg.maxRetries then .retry (cfg.maxRetries - 1).toNat rt else rt
  let rt := if !cfg.cookies.isEmpty && cfg.hasJar then .cookies rt else rt
  if 0 < cfg.maxConcurrent then .concurrency cfg.maxConcurrent rt else rt

def newRateLimitTransport (rps : Rat) (burst maxConcurrent : Int) : Transport :=
  let rt := Transport.custom
  let rt := if 0 < rps then .wait (.tokenBucket rps (defaultBurst rps burst)) else rt
  if 0 < maxConcurrent then .concurrency maxConcurrent rt else rt

/-! ## A round trip -/

inductive Layer
  | base
  | headers
  | rateLimit
  | hostRateLimit
  | delay
  | singleflight
  | retry
  | cookies
  | concurrency
  deriving DecidableEq

def Limiter.layer : Limiter → Layer
  | .tokenBucket _ _ => .rateLimit
  | .hostRateLimiter _ _ => .hostRateLimit
  | .delayJitter _ _ => .delay

/-- How far a round trip has come. -/
structure Progress where
  waits : Nat
  calls : Nat
  /-- Slots of the semaphore that this round trip holds. -/
  held : Nat
  /-- The layers passed so far, in order. -/
  trace : List Layer

def Progress.start : Progress := ⟨0, 0, 0, []⟩

def Progress.enter (s : Progress) (layer : Layer) : Progress :=
  { s with trace := s.trace ++ [layer] }

/-- What the rest of the world does during one round trip: the error of each wait of a
limiter, if it has one, the result of each call of the base transport, and whether the
retry wrapper tries again after an attempt. -/
structure World (Response : Type u) where
  wait : Limiter → Nat → Option String
  base : Nat → Except String Response
  retries : Nat → Except String Response → Bool

variable {Response : Type u} (world : World Response)

/-- A computation of the round trip; no outcome if it does not return. -/
abbrev Trip (Response : Type u) := Progress → Option (Except String Response × Progress)

/-- The retry wrapper: it calls the transport it was given once for each attempt. -/
def attempts (next : Trip Response) : Nat → Nat → Trip Response
  | _, 0, s => next s
  | attempt, left + 1, s =>
      match next s with
      | none => none
      | some (result, s) =>
          if world.retries attempt result then attempts next (attempt + 1) left s
          else some (result, s)

/-- `RoundTrip` of a transport while the variable `rt` holds a transport; `none` when the
fuel, which bounds the depth of calls, runs out. A slot of the semaphore that the round
trip itself holds is not given back while it waits for another one. -/
def roundTrip (rt : Transport) : Nat → Transport → Trip Response
  | 0, _, _ => none
  | _ + 1, .custom, s =>
      some (world.base s.calls, { s.enter .base with calls := s.calls + 1 })
  | fuel + 1, .headers base, s => roundTrip rt fuel base (s.enter .headers)
  | fuel + 1, .wait limiter, s =>
      let waited := { s.enter limiter.layer with waits := s.waits + 1 }
      match world.wait limiter s.waits with
      | some error => some (.error error, waited)
      | none => roundTrip rt fuel rt waited
  | fuel + 1, .singleflight next, s => roundTrip rt fuel next (s.enter .singleflight)
  | fuel + 1, .retry maxRetries next, s =>
      attempts world (roundTrip rt fuel next) 1 maxRetries (s.enter .retry)
  | fuel + 1, .cookies next, s => roundTrip rt fuel next (s.enter .cookies)
  | fuel + 1, .concurrency maxConcurrent next, s =>
      if s.held < maxConcurrent then
        match roundTrip rt fuel next { s.enter .concurrency with held := s.held + 1 } with
        | none => none
        -- A response keeps the slot until its body is closed.
        | some (.ok response, s) => some (.ok response, s)
        | some (.error error, s) => some (.error error, { s with held := s.held - 1 })
      else none

/-- The layers that a round trip passes once. -/
def outerLayers (cfg : ClientConfig) : List Layer :=
  (if 0 < cfg.maxConcurrent then [.concurrency] else []) ++
  (if !cfg.cookies.isEmpty && cfg.hasJar then [.cookies] else []) ++
  (if 0 < cfg.maxRetries then [.retry] else [])

/-- The layers that an attempt passes once, the base transport included. -/
def attemptLayers (cfg : ClientConfig) : List Layer :=
  (if cfg.singleflight then [.singleflight] else []) ++
  (if 0 < cfg.delayMin ∨ 0 < cfg.delayMax then [.delay] else []) ++
  (if 0 < cfg.hostRateLimitRPS then [.hostRateLimit] else []) ++
  (if 0 < cfg.rps then [.rateLimit] else []) ++ [.headers, .base]

/-- A round trip through the assembled transport returns. It passes the outer layers once
and after them the others once for each attempt. -/
def PassesOnce (rt : Transport) (outer inner : List Layer) (maxAttempts : Nat) : Prop :=
  ∃ fuel result last attempts, roundTrip world rt fuel rt Progress.start = some (result, last) ∧
    last.trace = outer ++ (List.replicate attempts inner).flatten ∧ last.calls = attempts ∧
    0 < attempts ∧ attempts ≤ maxAttempts

/-! ## Without a limiter -/

/-- The progress after entering some layers. -/
def Progress.enters (s : Progress) (layers : List Layer) : Progress :=
  { s with trace := s.trace ++ layers }

/-- The progress after some attempts. -/
def Progress.after (s : Progress) (attempts : Nat) (inner : List Layer) : Progress :=
  { s.enters (List.replicate attempts inner).flatten with calls := s.calls + attempts }

theorem Progress.enters_nil (s : Progress) : s.enters [] = s := by
  simp [Progress.enters]

theorem Progress.enter_enters (s : Progress) (layer : Layer) (layers : List Layer) :
    (s.enter layer).enters layers = s.enters (layer :: layers) := by
  simp [Progress.enter, Progress.enters]

theorem Progress.enter_after (s : Progress) (layer : Layer) (layers : List Layer) :
    (s.enter layer).after 1 layers = s.after 1 (layer :: layers) := by
  simp [Progress.enter, Progress.after, Progress.enters]

theorem Progress.after_one_after (s : Progress) (attempts : Nat) (inner : List Layer) :
    (s.after 1 inner).after attempts inner = s.after (attempts + 1) inner := by
  simp only [Progress.after, Progress.enters, List.replicate_succ, List.flatten_cons,
    List.replicate_zero, List.flatten_nil, List.append_nil, List.append_assoc, Nat.add_assoc,
    Nat.add_comm 1]

section Chain

variable (rt : Transport)

/-- A trip through a transport is one attempt. -/
def OneAttempt (next : Transport) (inner : List Layer) : Prop :=
  ∃ fuel, ∀ s, ∃ result, roundTrip world rt fuel next s = some (result, s.after 1 inner)

/-- A trip through a transport enters the outer layers once and then makes a number of
attempts. -/
def Chain (next : Transport) (outer inner : List Layer) (maxAttempts : Nat) : Prop :=
  ∃ fuel, ∀ s, ∃ result attempts,
    roundTrip world rt fuel next s = some (result, (s.enters outer).after attempts inner) ∧
    0 < attempts ∧ attempts ≤ maxAttempts

theorem oneAttempt_custom : OneAttempt world rt .custom [.base] :=
  ⟨1, fun s => ⟨world.base s.calls, rfl⟩⟩

variable {world rt} {next : Transport} {outer inner : List Layer} {maxAttempts : Nat}

theorem OneAttempt.headers (once : OneAttempt world rt next inner) :
    OneAttempt world rt (.headers next) (.headers :: inner) := by
  rcases once with ⟨fuel, once⟩
  refine ⟨fuel + 1, fun s => ?_⟩
  rcases once (s.enter .headers) with ⟨result, returned⟩
  exact ⟨result, by rw [roundTrip, returned, Progress.enter_after]⟩

theorem OneAttempt.singleflight (once : OneAttempt world rt next inner) (configured : Bool) :
    OneAttempt world rt (if configured then .singleflight next else next)
      ((if configured then [.singleflight] else []) ++ inner) := by
  cases configured with
  | false => exact once
  | true =>
      rcases once with ⟨fuel, once⟩
      refine ⟨fuel + 1, fun s => ?_⟩
      rcases once (s.enter .singleflight) with ⟨result, returned⟩
      exact ⟨result, by
        rw [if_pos rfl, roundTrip, returned, Progress.enter_after]
        rfl⟩

theorem attempts_after (world : World Response) {trip : Trip Response}
    (once : ∀ s, ∃ result, trip s = some (result, s.after 1 inner)) (left : Nat) :
    ∀ attempt s, ∃ result tried,
      attempts world trip attempt left s = some (result, s.after tried inner) ∧
      0 < tried ∧ tried ≤ left + 1 := by
  induction left with
  | zero =>
      intro attempt s
      rcases once s with ⟨result, returned⟩
      exact ⟨result, 1, returned, by omega, by omega⟩
  | succ left induction =>
      intro attempt s
      rcases once s with ⟨result, returned⟩
      simp only [attempts, returned]
      split
      · rcases induction (attempt + 1) (s.after 1 inner) with ⟨result, more, retried, _, bounded⟩
        exact ⟨result, more + 1, by rw [retried, Progress.after_one_after], by omega, by omega⟩
      · exact ⟨result, 1, rfl, by omega, by omega⟩

theorem OneAttempt.retry (once : OneAttempt world rt next inner) (maxRetries : Int) :
    Chain world rt (if 0 < maxRetries then .retry (maxRetries - 1).toNat next else next)
      (if 0 < maxRetries then [.retry] else []) inner (max 1 maxRetries.toNat) := by
  rcases once with ⟨fuel, once⟩
  by_cases configured : 0 < maxRetries
  · refine ⟨fuel + 1, fun s => ?_⟩
    rcases attempts_after world once (maxRetries - 1).toNat 1 (s.enter .retry) with
      ⟨result, tried, returned, positive, bounded⟩
    refine ⟨result, tried, ?_, positive, by omega⟩
    rw [if_pos configured, if_pos configured, roundTrip, returned]
    rfl
  · refine ⟨fuel, fun s => ?_⟩
    rcases once s with ⟨result, returned⟩
    refine ⟨result, 1, ?_, by omega, by omega⟩
    rw [if_neg configured, if_neg configured, returned, Progress.enters_nil]

theorem Chain.cookies (chain : Chain world rt next outer inner maxAttempts)
    (configured : Bool) :
    Chain world rt (if configured then .cookies next else next)
      ((if configured then [.cookies] else []) ++ outer) inner maxAttempts := by
  cases configured with
  | false => exact chain
  | true =>
      rcases chain with ⟨fuel, chain⟩
      refine ⟨fuel + 1, fun s => ?_⟩
      rcases chain (s.enter .cookies) with ⟨result, attempts, returned, bounds⟩
      refine ⟨result, attempts, ?_, bounds⟩
      rw [if_pos rfl, roundTrip, returned, Progress.enter_enters]
      rfl

/-- The semaphore of a transport that nobody else uses has a slot for a round trip. -/
theorem passesOnce_of_chain (maxConcurrent : Int)
    (assembled : rt = if 0 < maxConcurrent then .concurrency maxConcurrent next else next)
    (chain : Chain world rt next outer inner maxAttempts) :
    PassesOnce world rt ((if 0 < maxConcurrent then [.concurrency] else []) ++ outer) inner
      maxAttempts := by
  rcases chain with ⟨fuel, chain⟩
  by_cases configured : 0 < maxConcurrent
  · rw [if_pos configured] at assembled
    rcases chain { Progress.start.enter .concurrency with held := 1 } with
      ⟨result, attempts, returned, bounds⟩
    have acquired : roundTrip world rt (fuel + 1) (.concurrency maxConcurrent next)
        Progress.start =
        match roundTrip world rt fuel next
          { Progress.start.enter .concurrency with held := 1 } with
        | none => none
        | some (.ok response, s) => some (.ok response, s)
        | some (.error error, s) => some (.error error, { s with held := s.held - 1 }) := by
      have free : (Progress.start.held : Int) < maxConcurrent := configured
      rw [roundTrip, if_pos free]
      rfl
    rw [returned, ← assembled] at acquired
    cases result <;>
      exact ⟨fuel + 1, _, _, attempts, acquired, by
        simp [Progress.after, Progress.enters, Progress.start, Progress.enter, configured], by
        simp [Progress.after, Progress.enters, Progress.start, Progress.enter], bounds⟩
  · rw [if_neg configured] at assembled
    rcases chain Progress.start with ⟨result, attempts, returned, bounds⟩
    rw [← assembled] at returned
    exact ⟨fuel, result, _, attempts, returned, by
      simp [Progress.after, Progress.enters, Progress.start, configured], by
      simp [Progress.after, Progress.enters, Progress.start], bounds⟩

end Chain

/-! ## With a limiter -/

/-- The first layer that a call reaches besides plain wrappers waits and then calls `rt`. -/
inductive CallsVariable : Transport → Prop
  | wait (limiter) : CallsVariable (.wait limiter)
  | singleflight {next} (inner : CallsVariable next) : CallsVariable (.singleflight next)
  | retry {next} (maxRetries) (inner : CallsVariable next) : CallsVariable (.retry maxRetries next)
  | cookies {next} (inner : CallsVariable next) : CallsVariable (.cookies next)
  | concurrency {next} (maxConcurrent) (inner : CallsVariable next) :
      CallsVariable (.concurrency maxConcurrent next)

theorem CallsVariable.ite {condition : Prop} [Decidable condition] {wrapped next : Transport}
    (wraps : CallsVariable next → CallsVariable wrapped) (inner : CallsVariable next) :
    CallsVariable (if condition then wrapped else next) := by
  split
  · exact wraps inner
  · exact inner

theorem attempts_eq_none {trip : Trip Response} (diverges : ∀ s, trip s = none)
    (attempt left : Nat) (s : Progress) : attempts world trip attempt left s = none := by
  cases left with
  | zero => exact diverges s
  | succ left => rw [attempts, diverges]

variable {world}

/-- A call that comes to the variable starts over with less fuel. -/
theorem CallsVariable.roundTrip_eq_none {rt next : Transport} (calls : CallsVariable next)
    (waits : ∀ limiter n, world.wait limiter n = none) {fuel : Nat}
    (again : ∀ less < fuel, ∀ s, roundTrip world rt less rt s = none) :
    ∀ s, roundTrip world rt fuel next s = none := by
  induction calls generalizing fuel with
  | wait limiter =>
      intro s
      cases fuel with
      | zero => rfl
      | succ fuel =>
          simp only [roundTrip, waits]
          exact again fuel (by omega) _
  | singleflight inner induction | cookies inner induction =>
      intro s
      cases fuel with
      | zero => rfl
      | succ fuel =>
          rw [roundTrip]
          exact induction (fun less isLess => again less (by omega)) _
  | retry maxRetries inner induction =>
      intro s
      cases fuel with
      | zero => rfl
      | succ fuel =>
          rw [roundTrip]
          exact attempts_eq_none world (induction fun less isLess => again less (by omega)) _ _ _
  | concurrency maxConcurrent inner induction =>
      intro s
      cases fuel with
      | zero => rfl
      | succ fuel =>
          rw [roundTrip]
          split
          · rw [induction fun less isLess => again less (by omega)]
          · rfl

/-- A transport that comes to its own variable never returns. -/
theorem CallsVariable.diverges {rt : Transport} (calls : CallsVariable rt)
    (waits : ∀ limiter n, world.wait limiter n = none) (fuel : Nat) :
    ∀ s, roundTrip world rt fuel rt s = none := by
  induction fuel using Nat.strongRecOn with
  | ind fuel again => exact calls.roundTrip_eq_none waits again

/-! ## The assembled transports -/

/-- Some layer of the chain is a limiter. -/
def ClientConfig.limited (cfg : ClientConfig) : Prop :=
  0 < cfg.rps ∨ 0 < cfg.hostRateLimitRPS ∨ 0 < cfg.delayMin ∨ 0 < cfg.delayMax

/-- Every limiter is added outside the header layer and below all other layers. -/
theorem callsVariable_of_limited {cfg : ClientConfig} (limited : cfg.limited) :
    CallsVariable (buildHTTPClient cfg) := by
  unfold buildHTTPClient
  apply CallsVariable.ite (.concurrency _)
  apply CallsVariable.ite .cookies
  apply CallsVariable.ite (.retry _)
  apply CallsVariable.ite .singleflight
  by_cases delay : 0 < cfg.delayMin ∨ 0 < cfg.delayMax
  · rw [if_pos delay]
    exact .wait _
  rw [if_neg delay]
  by_cases host : 0 < cfg.hostRateLimitRPS
  · rw [if_pos host]
    exact .wait _
  rw [if_neg host]
  have rps : 0 < cfg.rps := by
    rcases limited with rps | hostLimited | delayed
    · exact rps
    · exact absurd hostLimited host
    · exact absurd delayed delay
  rw [if_pos rps]
  exact .wait _

theorem buildHTTPClient_passesOnce_iff (waits : ∀ limiter n, world.wait limiter n = none)
    (cfg : ClientConfig) :
    PassesOnce world (buildHTTPClient cfg) (outerLayers cfg) (attemptLayers cfg)
      (max 1 cfg.maxRetries.toNat) ↔ ¬ cfg.limited := by
  constructor
  · intro passes limited
    rcases passes with ⟨fuel, result, last, attempts, returned, _⟩
    rw [(callsVariable_of_limited limited).diverges waits] at returned
    contradiction
  · intro unlimited
    simp only [ClientConfig.limited, not_or] at unlimited
    rcases unlimited with ⟨rps, host, delayMin, delayMax⟩
    have delay : ¬ (0 < cfg.delayMin ∨ 0 < cfg.delayMax) := fun delayed =>
      delayed.elim delayMin delayMax
    have inner : attemptLayers cfg =
        (if cfg.singleflight then [.singleflight] else []) ++ [.headers, .base] := by
      simp [attemptLayers, rps, host, delay]
    have attempt := ((oneAttempt_custom world (buildHTTPClient cfg)).headers).singleflight
      cfg.singleflight
    rw [← inner] at attempt
    have chain := (attempt.retry cfg.maxRetries).cookies (!cfg.cookies.isEmpty && cfg.hasJar)
    have assembled := passesOnce_of_chain cfg.maxConcurrent ?_ chain
    · rw [← List.append_assoc] at assembled
      exact assembled
    · simp only [buildHTTPClient, if_neg rps, if_neg host, if_neg delay]

theorem newRateLimitTransport_passesOnce_iff (waits : ∀ limiter n, world.wait limiter n = none)
    (rps : Rat) (burst maxConcurrent : Int) :
    PassesOnce world (newRateLimitTransport rps burst maxConcurrent)
      (if 0 < maxConcurrent then [.concurrency] else [])
      (if 0 < rps then [.rateLimit, .base] else [.base]) 1 ↔ ¬ 0 < rps := by
  constructor
  · intro passes limited
    have calls : CallsVariable (newRateLimitTransport rps burst maxConcurrent) := by
      unfold newRateLimitTransport
      apply CallsVariable.ite (.concurrency _)
      rw [if_pos limited]
      exact .wait _
    rcases passes with ⟨fuel, result, last, attempts, returned, _⟩
    rw [calls.diverges waits] at returned
    contradiction
  · intro unlimited
    have attempt := oneAttempt_custom world (newRateLimitTransport rps burst maxConcurrent)
    have chain := attempt.retry 0
    have assembled := passesOnce_of_chain maxConcurrent ?_ chain
    · simpa [unlimited] using assembled
    · simp [newRateLimitTransport, unlimited]

/-- While all waits return nil, a round trip returns and passes every configured layer
once exactly when no layer is a limiter. -/
theorem passesOnce_iff_not_limited (world : World Response)
    (waits : ∀ limiter n, world.wait limiter n = none) :
    (∀ cfg : ClientConfig,
      PassesOnce world (buildHTTPClient cfg) (outerLayers cfg) (attemptLayers cfg)
        (max 1 cfg.maxRetries.toNat) ↔
      cfg.rps ≤ 0 ∧ cfg.hostRateLimitRPS ≤ 0 ∧ cfg.delayMin ≤ 0 ∧ cfg.delayMax ≤ 0) ∧
    ∀ (rps : Rat) (burst maxConcurrent : Int),
      PassesOnce world (newRateLimitTransport rps burst maxConcurrent)
        (if 0 < maxConcurrent then [.concurrency] else [])
        (if 0 < rps then [.rateLimit, .base] else [.base]) 1 ↔ rps ≤ 0 := by
  constructor
  · intro cfg
    rw [buildHTTPClient_passesOnce_iff waits cfg]
    simp only [ClientConfig.limited, not_or, Rat.not_lt, Int.not_lt]
  · intro rps burst maxConcurrent
    rw [newRateLimitTransport_passesOnce_iff waits rps burst maxConcurrent, Rat.not_lt]

/-- A base transport that fails once and then answers, and limiters that never fail. -/
def flaky : World Unit where
  wait _ _ := none
  base
    | 0 => .error "connection reset"
    | _ => .ok ()
  retries attempt _ := attempt == 1

/-- A client with cookies, retries and a concurrency limit and without limiters. -/
theorem passesOnce_iff_not_limited_retries :
    PassesOnce flaky
      (buildHTTPClient
        { rps := 0, burst := 0, hostRateLimitRPS := 0, hostRateLimitBurst := 0, delayMin := 0
          delayMax := 0, singleflight := true, maxRetries := 3
          cookies := [("https://example.org", "a=b")], hasJar := true, maxConcurrent := 2 })
      [.concurrency, .cookies, .retry] [.singleflight, .headers, .base] 3 :=
  ((passesOnce_iff_not_limited flaky fun _ _ => rfl).1 _).mpr
    ⟨by decide, by decide, by decide, by decide⟩

/-- One request per second is enough for a round trip that never returns. -/
theorem rate_limited_round_trip_diverges :
    ¬ ∀ (world : World Unit) (cfg : ClientConfig), (∀ limiter n, world.wait limiter n = none) →
      PassesOnce world (buildHTTPClient cfg) (outerLayers cfg) (attemptLayers cfg)
        (max 1 cfg.maxRetries.toNat) := by
  intro claimed
  let limited : ClientConfig :=
    { rps := 1, burst := 1, hostRateLimitRPS := 0, hostRateLimitBurst := 0, delayMin := 0
      delayMax := 0, singleflight := false, maxRetries := 0, cookies := [], hasJar := true
      maxConcurrent := 0 }
  have passes := claimed flaky limited fun _ _ => rfl
  have isLimited : limited.limited := .inl (by decide)
  exact (buildHTTPClient_passesOnce_iff (fun _ _ => rfl) limited).mp passes isLimited

end Kiyomi.PluginSdk
