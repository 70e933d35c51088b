import Kiyomi.Cache.FetchContexts

namespace Kiyomi.Cache

/-! # One fetch for each image

The singleflight group keeps a call for each hash whose image is being fetched. The call
is there for as long as its leader is under way, and whoever waits for it takes what the
leader ended with. -/

/-- The hash and the number of the flight that a thread leads. -/
def Thread.flight : Thread → Option (String × Nat)
  | .lookup hash (.leader call) _ => some (hash, call)
  | .store hash call _ => some (hash, call)
  | .finish hash call _ => some (hash, call)
  | _ => none

/-- The flight that a thread waits for. -/
def Thread.awaits : Thread → Option (String × Nat)
  | .waiting hash call => some (hash, call)
  | _ => none

/-- What a step means for the flights: nothing, or its thread joins one, opens one, or
ends its own. -/
inductive FlightStep (flights flights' : Flights) (thread next : Thread) : Prop
  | kept (flight : next.flight = thread.flight) (awaits : next.awaits = none)
      (same : flights' = flights)
  | joined (hash call) (idle : thread.flight = none) (isOpen : flights.open? hash = some call)
      (flight : next.flight = none) (awaits : next.awaits = some (hash, call))
      (same : flights' = flights)
  | opened (hash) (idle : thread.flight = none) (isFree : flights.open? hash = none)
      (flight : next.flight = some (hash, flights.calls)) (awaits : next.awaits = none)
      (grown : flights' =
        { flights with
          open? := Function.update flights.open? hash (some flights.calls)
          calls := flights.calls + 1 })
  | finished (hash call result) (flight : thread.flight = some (hash, call))
      (done : next.flight = none) (awaits : next.awaits = none)
      (ended : flights' = flights.finish hash call result)

section Steps

variable {cache : DiskCache} {files : Files} {flights : Flights} {answer : Answer}

theorem Caller.resume_flight (caller : Caller) (hash : String) (found : Option Meta)
    (pc : Lookup) :
    (caller.resume hash found).flight = (Thread.lookup hash caller pc).flight ∧
      (caller.resume hash found).awaits = none := by
  cases caller <;> cases found <;> exact ⟨rfl, rfl⟩

theorem Lookup.flightStep (hash : String) (caller : Caller) (pc : Lookup) :
    FlightStep flights (pc.next cache files flights answer hash caller).flights
      (.lookup hash caller pc) (pc.next cache files flights answer hash caller).thread := by
  have stays (pc' : Lookup) : (Thread.lookup hash caller pc').flight =
      (Thread.lookup hash caller pc).flight := by
    cases caller <;> rfl
  cases pc with
  | stat =>
      simp only [Lookup.next]
      split <;> exact .kept (stays _) rfl rfl
  | rUnlock hit =>
      cases hit with
      | none =>
          have resumed := caller.resume_flight hash none (.rUnlock none)
          exact .kept resumed.1 resumed.2 rfl
      | some found => exact .kept (stays _) rfl rfl
  | unlock copy =>
      have resumed := caller.resume_flight hash (some copy) (.unlock copy)
      exact .kept resumed.1 resumed.2 rfl
  | rLock | readFile | lock | writeFile => exact .kept (stays _) rfl rfl

theorem Store.flightStep {hash : String} {call : Nat} {pc : Store} {move : Move}
    (moved : pc.next files flights answer hash call = some move) :
    FlightStep flights move.flights (.store hash call pc) move.thread := by
  cases pc with
  | unlock temp stored =>
      cases temp <;>
        · cases moved
          exact .kept rfl rfl rfl
  | lock | removeImage | removeTemp =>
      cases moved
      exact .kept rfl rfl rfl
  | createTemp fetched =>
      simp only [Store.next] at moved
      split at moved
      · cases moved
        exact .kept rfl rfl rfl
      · split at moved
        · contradiction
        · cases moved
          exact .kept rfl rfl rfl
  | mkdirAll | fetch | copy | close | rename | writeFile =>
      simp only [Store.next] at moved
      split at moved <;>
        · cases moved
          exact .kept rfl rfl rfl

theorem Thread.flightStep {thread : Thread} {move : Move}
    (moved : thread.next cache files flights answer = some move) :
    FlightStep flights move.flights thread move.thread := by
  cases thread with
  | free last => contradiction
  | lookup hash caller pc =>
      cases moved
      exact Lookup.flightStep hash caller pc
  | store hash call pc => exact Store.flightStep moved
  | purge state =>
      rcases Option.map_eq_some_iff.mp moved with ⟨⟨next, files'⟩, purged, rfl⟩
      unfold Purge.next at purged
      split at purged
      · split at purged <;>
          · cases purged
            exact .kept rfl rfl rfl
      · contradiction
      · split at purged <;>
          · cases purged
            exact .kept rfl rfl rfl
  | openCached hash copy =>
      simp only [Thread.next] at moved
      split at moved <;>
        · cases moved
          exact .kept rfl rfl rfl
  | join hash =>
      cases moved
      cases isOpen : flights.open? hash with
      | some call =>
          simp only
          exact .joined hash call rfl isOpen rfl rfl rfl
      | none =>
          simp only
          exact .opened hash rfl isOpen rfl rfl rfl
  | waiting hash call =>
      rcases Option.map_eq_some_iff.mp moved with ⟨result, _, rfl⟩
      exact .kept rfl rfl rfl
  | finish hash call result =>
      cases moved
      exact .finished hash call result rfl rfl rfl rfl
  | openResult hash result =>
      cases moved
      exact .kept rfl rfl rfl

end Steps

theorem flightStep_of_advance {cache : DiskCache} {s next : State} {thread : Nat}
    {answer : Answer} (taken : cache.step s (.advance thread answer) = some next) :
    FlightStep s.flights next.flights (s.threads thread) (next.threads thread) := by
  rcases Option.bind_eq_some_iff.mp taken with ⟨move, moved, applied⟩
  rw [State.apply_flights applied, (State.apply_threads applied).1, Function.update_self]
  exact Thread.flightStep moved

namespace State

/-- The open calls are the flights with a leader, each has one and no result yet, and
nobody waits for a flight that is neither under way nor ended. -/
structure Airborne (s : State) : Prop where
  opened : ∀ hash call, s.flights.open? hash = some call ↔
    ∃ thread, (s.threads thread).flight = some (hash, call)
  single : ∀ thread other hash call other_call,
    (s.threads thread).flight = some (hash, call) →
    (s.threads other).flight = some (hash, other_call) → thread = other
  unended : ∀ thread hash call, (s.threads thread).flight = some (hash, call) →
    s.flights.results call = none
  fresh : ∀ call, s.flights.calls ≤ call → s.flights.results call = none
  numbered : ∀ hash call, s.flights.open? hash = some call → call < s.flights.calls
  apart : ∀ hash other call, s.flights.open? hash = some call →
    s.flights.open? other = some call → hash = other
  awaited : ∀ thread hash call, (s.threads thread).awaits = some (hash, call) →
    s.flights.open? hash = some call ∨ s.flights.results call ≠ none

variable {s next : State} {thread : Nat}

theorem airborne_opened (files : Files) : (opened files).Airborne where
  opened hash call := by
    constructor
    · intro isOpen
      cases isOpen
    · intro isLed
      rcases isLed with ⟨thread, led⟩
      cases led
  single _ _ _ _ _ led := by cases led
  unended _ _ _ led := by cases led
  fresh _ _ := rfl
  numbered _ _ isOpen := by cases isOpen
  apart _ _ _ isOpen := by cases isOpen
  awaited _ _ _ awaits := by cases awaits

/-- The flights stay as they are; a thread may begin to wait for one of them. -/
theorem Airborne.kept (airborne : s.Airborne) (flights : next.flights = s.flights)
    (flight : ∀ other, (next.threads other).flight = (s.threads other).flight)
    (awaits : ∀ other hash call, (next.threads other).awaits = some (hash, call) →
      (s.threads other).awaits = some (hash, call) ∨ s.flights.open? hash = some call) :
    next.Airborne where
  opened hash call := by
    simp only [flights, flight]
    exact airborne.opened hash call
  single one other hash call otherCall led alsoLed := by
    rw [flight] at led alsoLed
    exact airborne.single one other hash call otherCall led alsoLed
  unended other hash call led := by
    rw [flight] at led
    rw [flights]
    exact airborne.unended other hash call led
  fresh := flights ▸ airborne.fresh
  numbered := flights ▸ airborne.numbered
  apart := flights ▸ airborne.apart
  awaited other hash call waits := by
    rw [flights]
    rcases awaits other hash call waits with before | isOpen
    · exact airborne.awaited other hash call before
    · exact .inl isOpen

theorem Airborne.takesOff (airborne : s.Airborne) {hash : String}
    (others : ∀ other, other ≠ thread → next.threads other = s.threads other)
    (idle : (s.threads thread).flight = none) (isFree : s.flights.open? hash = none)
    (flight : (next.threads thread).flight = some (hash, s.flights.calls))
    (awaits : (next.threads thread).awaits = none)
    (grown : next.flights =
      { s.flights with
        open? := Function.update s.flights.open? hash (some s.flights.calls)
        calls := s.flights.calls + 1 }) : next.Airborne := by
  have led : ∀ other hash' call, (next.threads other).flight = some (hash', call) ↔
      (s.threads other).flight = some (hash', call) ∨
        other = thread ∧ hash' = hash ∧ call = s.flights.calls := by
    intro other hash' call
    by_cases same : other = thread
    · subst same
      rw [flight, idle]
      simp [eq_comm]
    · simp [others other same, same]
  have isOpen : ∀ hash' call, next.flights.open? hash' = some call ↔
      s.flights.open? hash' = some call ∨ hash' = hash ∧ call = s.flights.calls := by
    intro hash' call
    rw [grown]
    by_cases same : hash' = hash
    · subst same
      simp [isFree, eq_comm]
    · simp [Function.update_of_ne same, same]
  have notYet : ∀ other call, (s.threads other).flight ≠ some (hash, call) := by
    intro other call isLed
    have wasOpen := (airborne.opened hash call).mpr ⟨other, isLed⟩
    rw [isFree] at wasOpen
    contradiction
  have unnumbered : ∀ hash' , s.flights.open? hash' ≠ some s.flights.calls :=
    fun hash' wasOpen => absurd (airborne.numbered hash' _ wasOpen) (lt_irrefl _)
  refine ⟨fun hash' call => ?_, fun one other hash' call otherCall isLed alsoLed => ?_,
    fun other hash' call isLed => ?_, fun call above => ?_, fun hash' call opens => ?_,
    fun hash' other call opens alsoOpens => ?_, fun other hash' call waits => ?_⟩
  · rw [isOpen, airborne.opened]
    simp only [led]
    constructor
    · intro cases
      rcases cases with ⟨other, isLed⟩ | new
      · exact ⟨other, .inl isLed⟩
      · exact ⟨thread, .inr ⟨rfl, new⟩⟩
    · intro cases
      rcases cases with ⟨other, isLed | ⟨_, new⟩⟩
      · exact .inl ⟨other, isLed⟩
      · exact .inr new
  · rcases (led one hash' call).mp isLed with before | ⟨rfl, rfl, _⟩
    · rcases (led other hash' otherCall).mp alsoLed with alsoBefore | ⟨rfl, rfl, _⟩
      · exact airborne.single one other hash' call otherCall before alsoBefore
      · exact absurd before (notYet one call)
    · rcases (led other hash' otherCall).mp alsoLed with alsoBefore | ⟨rfl, _, _⟩
      · exact absurd alsoBefore (notYet other otherCall)
      · rfl
  · rw [grown]
    rcases (led other hash' call).mp isLed with before | ⟨_, _, rfl⟩
    · exact airborne.unended other hash' call before
    · exact airborne.fresh _ (le_refl _)
  · rw [grown] at above ⊢
    exact airborne.fresh call (Nat.le_of_succ_le above)
  · rw [grown]
    rcases (isOpen hash' call).mp opens with before | ⟨_, rfl⟩
    · exact Nat.lt_succ_of_lt (airborne.numbered hash' call before)
    · exact Nat.lt_succ_self _
  · rcases (isOpen hash' call).mp opens with before | ⟨rfl, rfl⟩
    · rcases (isOpen other call).mp alsoOpens with alsoBefore | ⟨rfl, rfl⟩
      · exact airborne.apart hash' other call before alsoBefore
      · exact absurd before (unnumbered hash')
    · rcases (isOpen other s.flights.calls).mp alsoOpens with alsoBefore | ⟨rfl, _⟩
      · exact absurd alsoBefore (unnumbered other)
      · rfl
  · by_cases same : other = thread
    · rw [same, awaits] at waits
      contradiction
    · rw [others other same] at waits
      rcases airborne.awaited other hash' call waits with before | ended
      · exact .inl ((isOpen hash' call).mpr (.inl before))
      · right
        rw [grown]
        exact ended

theorem Airborne.lands (airborne : s.Airborne) {hash : String} {call : Nat} {result : Option Meta}
    (others : ∀ other, other ≠ thread → next.threads other = s.threads other)
    (flight : (s.threads thread).flight = some (hash, call))
    (done : (next.threads thread).flight = none) (awaits : (next.threads thread).awaits = none)
    (ended : next.flights = s.flights.finish hash call result) : next.Airborne := by
  have wasOpen : s.flights.open? hash = some call :=
    (airborne.opened hash call).mpr ⟨thread, flight⟩
  have led : ∀ other hash' call', (next.threads other).flight = some (hash', call') ↔
      (s.threads other).flight = some (hash', call') ∧ hash' ≠ hash := by
    intro other hash' call'
    by_cases same : other = thread
    · subst same
      rw [flight, done]
      simp only [reduceCtorEq, Option.some.injEq, Prod.mk.injEq, false_iff, not_and,
        not_not]
      rintro ⟨rfl, _⟩
      rfl
    · rw [others other same]
      constructor
      · intro isLed
        refine ⟨isLed, ?_⟩
        rintro rfl
        exact same (airborne.single other thread hash' call' call isLed flight)
      · exact And.left
  have isOpen : ∀ hash' call', next.flights.open? hash' = some call' ↔
      s.flights.open? hash' = some call' ∧ hash' ≠ hash := by
    intro hash' call'
    rw [ended]
    by_cases same : hash' = hash
    · subst same
      simp [Flights.finish]
    · simp [Flights.finish, same]
  have results : ∀ call', call' ≠ call → next.flights.results call' = s.flights.results call' := by
    intro call' different
    rw [ended]
    exact Function.update_of_ne different _ _
  have calls : next.flights.calls = s.flights.calls := by rw [ended]; rfl
  have otherCall : ∀ hash' call', s.flights.open? hash' = some call' → hash' ≠ hash →
      call' ≠ call := by
    rintro hash' call' opens different rfl
    exact different (airborne.apart hash' hash call' opens wasOpen)
  refine ⟨fun hash' call' => ?_, fun one other hash' call' otherCall isLed alsoLed => ?_,
    fun other hash' call' isLed => ?_, fun call' above => ?_, fun hash' call' opens => ?_,
    fun hash' other call' opens alsoOpens => ?_, fun other hash' call' waits => ?_⟩
  · rw [isOpen, airborne.opened]
    simp only [led, exists_and_right]
  · exact airborne.single one other hash' call' otherCall ((led _ _ _).mp isLed).1
      ((led _ _ _).mp alsoLed).1
  · rcases (led other hash' call').mp isLed with ⟨before, different⟩
    rw [results call' (otherCall hash' call' ((airborne.opened hash' call').mpr ⟨other, before⟩)
      different)]
    exact airborne.unended other hash' call' before
  · rw [calls] at above
    rw [results call' (by have := airborne.numbered hash call wasOpen; omega)]
    exact airborne.fresh call' above
  · rw [calls]
    exact airborne.numbered hash' call' ((isOpen hash' call').mp opens).1
  · exact airborne.apart hash' other call' ((isOpen _ _).mp opens).1 ((isOpen _ _).mp alsoOpens).1
  · by_cases same : other = thread
    · rw [same, awaits] at waits
      contradiction
    · rw [others other same] at waits
      by_cases isEnded : call' = call
      · subst isEnded
        right
        rw [ended]
        simp [Flights.finish]
      · rw [results call' isEnded, isOpen]
        rcases airborne.awaited other hash' call' waits with before | ended
        · left
          refine ⟨before, ?_⟩
          rintro rfl
          rw [wasOpen] at before
          exact isEnded (Option.some.inj before).symm
        · exact .inr ended

/-- A thread outside the flights goes on without joining one. -/
theorem Airborne.setThread (airborne : s.Airborne) {after : Thread}
    (before : (s.threads thread).flight = none) (flight : after.flight = none)
    (awaits : after.awaits = none) : (s.setThread thread after).Airborne := by
  have flights : (s.setThread thread after).flights = s.flights := rfl
  apply airborne.kept flights
  · intro other
    simp only [State.setThread, Function.update_apply]
    split
    · rename_i same
      rw [same, before, flight]
    · rfl
  · intro other hash call waits
    simp only [State.setThread, Function.update_apply] at waits
    split at waits
    · rw [awaits] at waits
      contradiction
    · exact .inl waits

theorem Airborne.visit (airborne : s.Airborne) {task : Task}
    (visited : s.visit thread task = some next) : next.Airborne := by
  unfold State.visit at visited
  split at visited
  · rename_i state isPurge
    split at visited
    · contradiction
    · cases visited
      exact airborne.setThread (by rw [isPurge]; rfl) rfl rfl
  · contradiction

theorem Airborne.advance (airborne : s.Airborne) {cache : DiskCache} {answer : Answer}
    (taken : cache.step s (.advance thread answer) = some next) : next.Airborne := by
  have others : ∀ other, other ≠ thread → next.threads other = s.threads other :=
    fun other different => step_threads_ne taken different
  have waited : ∀ other hash call, other ≠ thread →
      (next.threads other).awaits = some (hash, call) →
      (s.threads other).awaits = some (hash, call) := by
    intro other hash call different waits
    rw [others other different] at waits
    exact waits
  cases flightStep_of_advance taken with
  | kept flight awaits same =>
      apply airborne.kept same
      · intro other
        by_cases isThread : other = thread
        · rw [isThread, flight]
        · rw [others other isThread]
      · intro other hash call waits
        by_cases isThread : other = thread
        · rw [isThread, awaits] at waits
          contradiction
        · exact .inl (waited other hash call isThread waits)
  | joined hash call idle isOpen flight awaits same =>
      apply airborne.kept same
      · intro other
        by_cases isThread : other = thread
        · rw [isThread, flight, idle]
        · rw [others other isThread]
      · intro other hash' call' waits
        by_cases isThread : other = thread
        · rw [isThread, awaits] at waits
          cases waits
          exact .inr isOpen
        · exact .inl (waited other hash' call' isThread waits)
  | opened hash idle isFree flight awaits grown =>
      exact airborne.takesOff others idle isFree flight awaits grown
  | finished hash call result flight done awaits ended =>
      exact airborne.lands others flight done awaits ended

theorem Airborne.step (airborne : s.Airborne) {cache : DiskCache} {action : Action}
    (taken : cache.step s action = some next) : next.Airborne := by
  cases action with
  | call thread operation =>
      simp only [DiskCache.step] at taken
      split at taken
      · rename_i last isFree
        cases taken
        apply airborne.setThread (by rw [isFree]; rfl) <;> cases operation <;> rfl
      · contradiction
  | advance thread answer => exact airborne.advance taken
  | visitImage thread hash => exact airborne.visit taken
  | visitSidecar thread hash => exact airborne.visit taken
  | visitTemp thread temp => exact airborne.visit taken

/-- What a flight ended with stays, whatever happens next. -/
theorem Airborne.results_stay (airborne : s.Airborne) {cache : DiskCache} {action : Action}
    (taken : cache.step s action = some next) {call : Nat} {result : Option Meta}
    (ended : s.flights.results call = some result) :
    next.flights.results call = some result := by
  have visits {thread : Nat} {task : Task} (visited : s.visit thread task = some next) :
      next.flights = s.flights := by
    unfold State.visit at visited
    split at visited
    · split at visited
      · contradiction
      · cases visited
        rfl
    · contradiction
  cases action with
  | call thread operation =>
      simp only [DiskCache.step] at taken
      split at taken
      · cases taken
        exact ended
      · contradiction
  | visitImage thread hash => rw [visits taken, ended]
  | visitSidecar thread hash => rw [visits taken, ended]
  | visitTemp thread temp => rw [visits taken, ended]
  | advance thread answer =>
      cases flightStep_of_advance taken with
      | kept flight awaits same => rw [same, ended]
      | joined hash joins idle isOpen flight awaits same => rw [same, ended]
      | opened hash idle isFree flight awaits grown =>
          rw [grown]
          exact ended
      | finished hash own result' flight done awaits finished =>
          have different : call ≠ own := by
            rintro rfl
            rw [airborne.unended thread hash call flight] at ended
            contradiction
          rw [finished]
          exact (Function.update_of_ne different _ _).trans ended

end State

end Kiyomi.Cache
