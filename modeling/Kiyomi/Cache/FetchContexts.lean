import Kiyomi.Cache.Consistency

namespace Kiyomi.Cache

/-! # The contexts of fetches

Callers of `GetOrFetch` that miss the same hash share one fetch. It runs under the context
of the caller that leads the flight, whoever else waits for its result. -/

/-- The cache with the contexts of the calls in progress. -/
structure Contexts where
  cache : State
  /-- The context of the call that a thread is in has been cancelled. -/
  cancelled : Nat → Bool
  /-- The thread whose cancelled context ended the fetch of a flight. -/
  ended : Nat → Option Nat
  /-- The thread whose cancelled context the error of a flight comes from that a thread
  has been given. -/
  received : Nat → Option Nat

namespace Contexts

inductive Action
  | cancel (thread : Nat)
  /-- A step for which the contexts do not matter. -/
  | proceed (action : Cache.Action)
  /-- The fetch, or the copy of what it delivers, fails because its context is cancelled. -/
  | abort (thread : Nat) (answer : Answer)

def opened (files : Files) : Contexts where
  cache := .opened files
  cancelled _ := false
  ended _ := none
  received _ := none

/-- The flight whose fetch a thread is in. -/
def fetching : Thread → Option Nat
  | .store _ call .fetch => some call
  | .store _ call (.copy _ _) => some call
  | _ => none

/-- The flight whose result a thread takes with its next step. -/
def taking : Thread → Option Nat
  | .waiting _ call => some call
  | .finish _ call _ => some call
  | _ => none

/-- What a step of the cache means for the contexts: a call has one of its own. -/
def follow (s : Contexts) (cache : State) : Cache.Action → Contexts
  | .call thread _ =>
      { s with
        cache
        cancelled := Function.update s.cancelled thread false
        received := Function.update s.received thread none }
  | .advance thread _ =>
      match taking (s.cache.threads thread) with
      | none => { s with cache }
      | some call =>
          { s with cache, received := Function.update s.received thread (s.ended call) }
  | _ => { s with cache }

def step (cache : DiskCache) : StepFunction Contexts Action
  | s, .cancel thread => some { s with cancelled := Function.update s.cancelled thread true }
  | s, .proceed action => (cache.step s.cache action).map fun next => s.follow next action
  | s, .abort thread answer =>
      match fetching (s.cache.threads thread) with
      | none => none
      | some call =>
          if s.cancelled thread && answer.fails then
            (cache.step s.cache (.advance thread answer)).map fun next =>
              { s with cache := next, ended := Function.update s.ended call (some thread) }
          else none

/-- A caller whose own context is not cancelled has no error of another's cancellation. -/
def Independent (s : Contexts) : Prop :=
  ∀ thread other, s.received thread = some other → other ≠ thread → s.cancelled thread = true

/-- No fetch is ended by the cancellation of its context while a caller whose own context
lives waits for it, and no such caller joins a flight that has ended so. -/
def Permits (s : Contexts) : Action → Prop
  | .abort thread _ => ∀ other hash call, s.cache.threads other = .waiting hash call →
      fetching (s.cache.threads thread) = some call → s.cancelled other = true
  | .proceed (.advance thread _) => ∀ hash call, s.cache.threads thread = .join hash →
      s.cache.flights.open? hash = some call → s.ended call ≠ none → s.cancelled thread = true
  | _ => True

end Contexts

/-! ## Leaders and waiters -/

/-- The flight that a thread leads. -/
def Thread.leads : Thread → Option Nat
  | .lookup _ (.leader call) _ => some call
  | .store _ call _ => some call
  | .finish _ call _ => some call
  | _ => none

def Thread.waitsFor : Thread → Option Nat
  | .waiting _ call => some call
  | _ => none

/-- How the part of a thread in a flight can change. -/
inductive Role (flights flights' : Flights) (thread next : Thread) : Prop
  /-- The thread goes on in its part, or leaves it. -/
  | kept (leads : next.leads = thread.leads ∨ next.leads = none) (waits : next.waitsFor = none)
      (calls : flights'.calls = flights.calls)
  | joined (hash call) (isJoin : thread = .join hash) (isOpen : flights.open? hash = some call)
      (leads : next.leads = none) (waits : next.waitsFor = some call)
      (calls : flights'.calls = flights.calls)
  | opened (leads : next.leads = some flights.calls) (waits : next.waitsFor = none)
      (calls : flights'.calls = flights.calls + 1)

section Steps

variable {cache : DiskCache} {files : Files} {flights : Flights} {answer : Answer}

theorem Caller.resume_role (caller : Caller) (hash : String) (found : Option Meta) (pc : Lookup) :
    ((caller.resume hash found).leads = (Thread.lookup hash caller pc).leads ∨
      (caller.resume hash found).leads = none) ∧ (caller.resume hash found).waitsFor = none := by
  cases caller <;> cases found <;> simp [Caller.resume, Thread.leads, Thread.waitsFor]

theorem Lookup.role (hash : String) (caller : Caller) (pc : Lookup) :
    Role flights (pc.next cache files flights answer hash caller).flights
      (.lookup hash caller pc) (pc.next cache files flights answer hash caller).thread := by
  have stays (pc' : Lookup) : (Thread.lookup hash caller pc').leads =
      (Thread.lookup hash caller pc).leads := by
    cases caller <;> rfl
  cases pc with
  | stat =>
      simp only [Lookup.next]
      split <;> exact .kept (.inl (stays _)) rfl rfl
  | rUnlock hit =>
      cases hit with
      | none =>
          have role := caller.resume_role hash none (.rUnlock none)
          exact .kept role.1 role.2 rfl
      | some found => exact .kept (.inl (stays _)) rfl rfl
  | unlock copy =>
      have role := caller.resume_role hash (some copy) (.unlock copy)
      exact .kept role.1 role.2 rfl
  | rLock | readFile | lock | writeFile => exact .kept (.inl (stays _)) rfl rfl

theorem Store.role {hash : String} {call : Nat} {pc : Store} {move : Move}
    (moved : pc.next files flights answer hash call = some move) :
    Role flights move.flights (.store hash call pc) move.thread := by
  cases pc with
  | unlock temp stored =>
      cases temp <;>
        · cases moved
          exact .kept (.inl rfl) rfl rfl
  | lock | removeImage | removeTemp =>
      cases moved
      exact .kept (.inl rfl) rfl rfl
  | createTemp fetched =>
      simp only [Store.next] at moved
      split at moved
      · cases moved
        exact .kept (.inl rfl) rfl rfl
      · split at moved
        · contradiction
        · cases moved
          exact .kept (.inl rfl) rfl rfl
  | mkdirAll | fetch | copy | close | rename | writeFile =>
      simp only [Store.next] at moved
      split at moved <;>
        · cases moved
          exact .kept (.inl rfl) rfl rfl

theorem Thread.role {thread : Thread} {move : Move}
    (moved : thread.next cache files flights answer = some move) :
    Role flights move.flights thread move.thread := by
  cases thread with
  | free last => contradiction
  | lookup hash caller pc =>
      cases moved
      exact Lookup.role hash caller pc
  | store hash call pc => exact Store.role moved
  | purge state =>
      rcases Option.map_eq_some_iff.mp moved with ⟨⟨next, files'⟩, purged, rfl⟩
      unfold Purge.next at purged
      split at purged
      · split at purged <;>
          · cases purged
            exact .kept (.inl rfl) rfl rfl
      · contradiction
      · split at purged <;>
          · cases purged
            exact .kept (.inl rfl) rfl rfl
  | openCached hash copy =>
      simp only [Thread.next] at moved
      split at moved <;>
        · cases moved
          exact .kept (.inl rfl) rfl rfl
  | join hash =>
      cases moved
      cases isOpen : flights.open? hash with
      | some call =>
          simp only
          exact .joined hash call rfl isOpen rfl rfl rfl
      | none =>
          simp only
          exact .opened rfl rfl rfl
  | waiting hash call =>
      rcases Option.map_eq_some_iff.mp moved with ⟨result, _, rfl⟩
      exact .kept (.inl rfl) rfl rfl
  | finish hash call result =>
      cases moved
      exact .kept (.inr rfl) rfl rfl
  | openResult hash result =>
      cases moved
      exact .kept (.inl rfl) rfl rfl

end Steps

theorem State.apply_flights {s next : State} {thread : Nat} {move : Move}
    (applied : s.apply thread move = some next) : next.flights = move.flights := by
  unfold apply at applied
  split at applied
  · cases applied; rfl
  · split at applied
    · cases applied; rfl
    · contradiction
  · cases applied; rfl
  · split at applied
    · cases applied; rfl
    · contradiction
  · cases applied; rfl

theorem role_of_advance {cache : DiskCache} {s next : State} {thread : Nat} {answer : Answer}
    (taken : cache.step s (.advance thread answer) = some next) :
    Role s.flights next.flights (s.threads thread) (next.threads thread) := by
  rcases Option.bind_eq_some_iff.mp taken with ⟨move, moved, applied⟩
  rw [State.apply_flights applied, (State.apply_threads applied).1, Function.update_self]
  exact Thread.role moved

theorem Role.calls_le {flights flights' : Flights} {thread next : Thread}
    (role : Role flights flights' thread next) : flights.calls ≤ flights'.calls := by
  cases role with
  | kept _ _ calls => exact calls.ge
  | joined _ _ _ _ _ _ calls => exact calls.ge
  | opened _ _ calls => exact calls ▸ Nat.le_succ _

/-- A flight that a thread leads is one that it led before, or a new one. -/
theorem leads_of_advance {cache : DiskCache} {s next : State} {thread : Nat} {answer : Answer}
    (taken : cache.step s (.advance thread answer) = some next) {other call : Nat}
    (isLeader : (next.threads other).leads = some call) :
    (s.threads other).leads = some call ∨ other = thread ∧ call = s.flights.calls ∧
      next.flights.calls = s.flights.calls + 1 := by
  by_cases same : other = thread
  · subst same
    cases role_of_advance taken with
    | kept leads _ _ =>
        rcases leads with leads | none
        · exact .inl (leads ▸ isLeader)
        · rw [none] at isLeader
          contradiction
    | joined _ _ _ _ leads _ _ =>
        rw [leads] at isLeader
        contradiction
    | opened leads _ calls =>
        rw [leads] at isLeader
        exact .inr ⟨rfl, (Option.some.inj isLeader).symm, calls⟩
  · exact .inl (step_threads_ne taken same ▸ isLeader)

theorem State.setThread_self (s : State) (thread : Nat) (next : Thread) :
    (s.setThread thread next).threads thread = next := Function.update_self ..

/-! ## Independence -/

namespace Contexts

variable {cache : DiskCache} {s next : Contexts}

structure Sound (s : Contexts) : Prop where
  led : ∀ thread call, (s.cache.threads thread).leads = some call → call < s.cache.flights.calls
  single : ∀ thread other call, (s.cache.threads thread).leads = some call →
    (s.cache.threads other).leads = some call → other = thread
  known : ∀ call, s.ended call ≠ none → call < s.cache.flights.calls
  leader : ∀ thread call other, (s.cache.threads thread).leads = some call →
    s.ended call = some other → other = thread
  waiters : ∀ thread call, (s.cache.threads thread).waitsFor = some call →
    s.ended call ≠ none → s.cancelled thread = true
  independent : s.Independent

theorem sound_opened (files : Files) : (opened files).Sound where
  led _ _ leads := by cases leads
  single _ _ _ leads := by cases leads
  known _ isEnded := absurd rfl isEnded
  leader _ _ _ leads := by cases leads
  waiters _ _ waits := by cases waits
  independent _ _ received := by cases received

/-- The threads of the cache move on, and nothing else happens. -/
theorem Sound.move (sound : s.Sound) {thread : Nat} {answer : Answer} {after : State}
    (taken : cache.step s.cache (.advance thread answer) = some after)
    (joins : ∀ hash call, s.cache.threads thread = .join hash →
      s.cache.flights.open? hash = some call → s.ended call ≠ none → s.cancelled thread = true) :
    ({ s with cache := after } : Contexts).Sound := by
  have role := role_of_advance taken
  have others : ∀ other, other ≠ thread → after.threads other = s.cache.threads other :=
    fun other ne => step_threads_ne taken ne
  have grows := role.calls_le
  have leads {other call : Nat} (isLeader : (after.threads other).leads = some call) :=
    leads_of_advance taken isLeader
  refine ⟨fun other call isLeader => ?_, fun one other call isLeader alsoLeader => ?_,
    fun call isEnded => (sound.known call isEnded).trans_le grows,
    fun one call other isLeader isEnded => ?_, fun other call waits isEnded => ?_,
    sound.independent⟩
  · rcases leads isLeader with led | ⟨_, rfl, calls⟩
    · exact (sound.led other call led).trans_le grows
    · exact calls ▸ Nat.lt_succ_self _
  · rcases leads isLeader with led | ⟨rfl, rfl, _⟩
    · rcases leads alsoLeader with alsoLed | ⟨_, rfl, _⟩
      · exact sound.single one other call led alsoLed
      · exact absurd (sound.led one _ led) (lt_irrefl _)
    · rcases leads alsoLeader with alsoLed | ⟨rfl, _, _⟩
      · exact absurd (sound.led other _ alsoLed) (lt_irrefl _)
      · rfl
  · rcases leads isLeader with led | ⟨rfl, rfl, _⟩
    · exact sound.leader one call other led isEnded
    · have isKnown : s.ended s.cache.flights.calls ≠ none := by
        rw [show s.ended _ = some other from isEnded]
        exact Option.some_ne_none _
      exact absurd (sound.known _ isKnown) (lt_irrefl _)
  · by_cases same : other = thread
    · subst same
      cases role with
      | kept _ waitsNot _ =>
          rw [show (after.threads other).waitsFor = none from waitsNot] at waits
          contradiction
      | opened _ waitsNot _ =>
          rw [show (after.threads other).waitsFor = none from waitsNot] at waits
          contradiction
      | joined hash joined isJoin isOpen _ isWaiting _ =>
          have sameCall : joined = call := Option.some.inj (isWaiting.symm.trans waits)
          exact joins hash joined isJoin isOpen (sameCall ▸ isEnded)
    · exact sound.waiters other call (others other same ▸ waits) isEnded

theorem leads_of_fetching {thread : Thread} {call : Nat} (isFetching : fetching thread = some call) :
    thread.leads = some call := by
  unfold fetching at isFetching
  split at isFetching
  · exact isFetching
  · exact isFetching
  · contradiction

theorem waiting_of_waitsFor {thread : Thread} {call : Nat} (waits : thread.waitsFor = some call) :
    ∃ hash, thread = .waiting hash call := by
  unfold Thread.waitsFor at waits
  split at waits
  · rw [← Option.some.inj waits]
    exact ⟨_, rfl⟩
  · contradiction

/-- A thread takes the result of its flight. -/
theorem Sound.receive (sound : s.Sound) {thread call : Nat} {after : State}
    (moved : ({ s with cache := after } : Contexts).Sound)
    (isTaking : taking (s.cache.threads thread) = some call) :
    ({ s with
        cache := after
        received := Function.update s.received thread (s.ended call) } : Contexts).Sound := by
  refine ⟨moved.led, moved.single, moved.known, moved.leader, moved.waiters,
    fun other cause received ne => ?_⟩
  change Function.update s.received thread (s.ended call) other = some cause at received
  by_cases same : other = thread
  · subst same
    rw [Function.update_self] at received
    unfold taking at isTaking
    split at isTaking
    · rename_i waiting
      refine sound.waiters other call (by rw [waiting]; exact isTaking) ?_
      rw [received]
      exact Option.some_ne_none _
    · rename_i finishing
      exact absurd (sound.leader other call cause (by rw [finishing]; exact isTaking) received) ne
    · contradiction
  · rw [Function.update_of_ne same] at received
    exact sound.independent other cause received ne

/-- A thread that is in no flight changes to another such state. -/
theorem Sound.idle (sound : s.Sound) {thread : Nat} {after : State}
    (others : ∀ other, other ≠ thread → after.threads other = s.cache.threads other)
    (flights : after.flights = s.cache.flights) (leads : (after.threads thread).leads = none)
    (waits : (after.threads thread).waitsFor = none) :
    ({ s with cache := after } : Contexts).Sound := by
  have role {f : Thread → Option Nat} (none : f (after.threads thread) = none) {other call : Nat}
      (is : f (after.threads other) = some call) : f (s.cache.threads other) = some call := by
    by_cases same : other = thread
    · rw [same, none] at is
      contradiction
    · exact others other same ▸ is
  have calls : after.flights.calls = s.cache.flights.calls := congrArg Flights.calls flights
  exact
    { led := fun other call is => calls.symm ▸ sound.led other call (role leads is)
      single := fun one other call is also => sound.single one other call (role leads is)
        (role leads also)
      known := fun call isEnded => calls.symm ▸ sound.known call isEnded
      leader := fun one call other is => sound.leader one call other (role leads is)
      waiters := fun other call is => sound.waiters other call (role waits is)
      independent := sound.independent }

theorem Sound.call (sound : s.Sound) {thread : Nat} {operation : Operation} {after : State}
    (taken : cache.step s.cache (.call thread operation) = some after) :
    (s.follow after (.call thread operation)).Sound := by
  have others : ∀ other, other ≠ thread → after.threads other = s.cache.threads other :=
    fun other ne => step_threads_ne taken ne
  simp only [DiskCache.step] at taken
  split at taken
  · cases taken
    have fresh : ((s.cache.setThread thread operation.start).threads thread).leads = none ∧
        ((s.cache.setThread thread operation.start).threads thread).waitsFor = none := by
      rw [State.setThread_self]
      cases operation <;> exact ⟨rfl, rfl⟩
    have moved := sound.idle others rfl fresh.1 fresh.2
    refine ⟨moved.led, moved.single, moved.known, moved.leader, fun other call waits isEnded => ?_,
      fun other cause received ne => ?_⟩
    · by_cases same : other = thread
      · subst same
        change ((s.cache.setThread other operation.start).threads other).waitsFor = some call
          at waits
        rw [fresh.2] at waits
        contradiction
      · change Function.update s.cancelled thread false other = true
        rw [Function.update_of_ne same]
        exact moved.waiters other call waits isEnded
    · change Function.update s.received thread none other = some cause at received
      change Function.update s.cancelled thread false other = true
      by_cases same : other = thread
      · rw [same, Function.update_self] at received
        contradiction
      · rw [Function.update_of_ne same] at received ⊢
        exact sound.independent other cause received ne
  · contradiction

theorem Sound.visit (sound : s.Sound) {thread : Nat} {task : Task} {after : State}
    (visited : s.cache.visit thread task = some after) :
    ({ s with cache := after } : Contexts).Sound := by
  unfold State.visit at visited
  split at visited
  · split at visited
    · contradiction
    · cases visited
      refine sound.idle (fun other ne => Function.update_of_ne ne _ _) rfl ?_ ?_ <;>
        · rw [State.setThread_self]
          rfl
  · contradiction

/-- The fetch of a flight ends with the context of its leader. -/
theorem Sound.abort (sound : s.Sound) {thread call : Nat} {answer : Answer} {after : State}
    (permitted : s.Permits (.abort thread answer))
    (taken : cache.step s.cache (.advance thread answer) = some after)
    (isFetching : fetching (s.cache.threads thread) = some call) :
    ({ s with
        cache := after
        ended := Function.update s.ended call (some thread) } : Contexts).Sound := by
  have leads := leads_of_fetching isFetching
  have role := role_of_advance taken
  have noJoin : ∀ hash, s.cache.threads thread ≠ .join hash := by
    intro hash isJoin
    rw [isJoin] at isFetching
    contradiction
  have moved := sound.move taken fun hash _ isJoin => absurd isJoin (noJoin hash)
  have isLed := sound.led thread call leads
  refine ⟨moved.led, moved.single, fun other isEnded => ?_, fun one other cause isLeader isEnded => ?_,
    fun other led waits isEnded => ?_, sound.independent⟩
  · change Function.update s.ended call (some thread) other ≠ none at isEnded
    by_cases same : other = call
    · exact same ▸ isLed.trans_le role.calls_le
    · rw [Function.update_of_ne same] at isEnded
      exact moved.known other isEnded
  · change Function.update s.ended call (some thread) other = some cause at isEnded
    by_cases same : other = call
    · subst same
      rw [Function.update_self] at isEnded
      rcases leads_of_advance taken isLeader with led | ⟨_, isNew, _⟩
      · rw [← Option.some.inj isEnded]
        exact sound.single one thread other led leads
      · exact absurd isLed (isNew ▸ lt_irrefl _)
    · rw [Function.update_of_ne same] at isEnded
      exact moved.leader one other cause isLeader isEnded
  · change Function.update s.ended call (some thread) led ≠ none at isEnded
    by_cases same : led = call
    · subst same
      have ne : other ≠ thread := by
        rintro rfl
        change (after.threads other).waitsFor = some led at waits
        cases role with
        | kept _ waitsNot _ =>
            rw [waitsNot] at waits
            contradiction
        | joined hash _ isJoin _ _ _ _ => exact noJoin hash isJoin
        | opened _ waitsNot _ =>
            rw [waitsNot] at waits
            contradiction
      rcases waiting_of_waitsFor waits with ⟨hash, waiting⟩
      rw [show after.threads other = _ from step_threads_ne taken ne] at waiting
      exact permitted other hash led waiting isFetching
    · rw [Function.update_of_ne same] at isEnded
      exact moved.waiters other led waits isEnded

theorem Sound.step (sound : s.Sound) {action : Action} (permitted : s.Permits action)
    (taken : Contexts.step cache s action = some next) : next.Sound := by
  cases action with
  | cancel thread =>
      cases taken
      have keeps {other : Nat} (isCancelled : s.cancelled other = true) :
          Function.update s.cancelled thread true other = true := by
        rw [Function.update_apply]
        split
        · rfl
        · exact isCancelled
      exact
        { sound with
          waiters := fun other call waits isEnded => keeps (sound.waiters other call waits isEnded)
          independent := fun other cause received ne =>
            keeps (sound.independent other cause received ne) }
  | proceed action =>
      rcases Option.map_eq_some_iff.mp taken with ⟨after, moved, rfl⟩
      cases action with
      | call thread operation => exact sound.call moved
      | visitImage thread hash => exact sound.visit moved
      | visitSidecar thread hash => exact sound.visit moved
      | visitTemp thread temp => exact sound.visit moved
      | advance thread answer =>
          have sound' := sound.move moved permitted
          simp only [follow]
          split
          · exact sound'
          · rename_i call isTaking
            exact sound.receive sound' isTaking
  | abort thread answer =>
      simp only [Contexts.step] at taken
      split at taken
      · contradiction
      · rename_i call isFetching
        split at taken
        · rcases Option.map_eq_some_iff.mp taken with ⟨after, moved, rfl⟩
          exact sound.abort permitted moved isFetching
        · contradiction

/-- A miss up to the fetch: the lookups of the call and of the leader. -/
def missing (thread : Nat) : List Action :=
  .proceed (.call thread (.getOrFetch "ab")) :: List.replicate 8 (.proceed (.advance thread {}))

/-- A second caller joins the flight; then the first one goes away. -/
def deserted : List Action :=
  missing 0 ++ .proceed (.call 1 (.getOrFetch "ab")) ::
    List.replicate 4 (.proceed (.advance 1 {})) ++
    [.cancel 0, .abort 0 { fails := true }, .proceed (.advance 0 {}), .proceed (.advance 1 {}),
      .proceed (.advance 1 {})]

end Contexts

end Kiyomi.Cache
