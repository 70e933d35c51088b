import Kiyomi.PluginSdk.Cache
import Mathlib.Data.Int.Order.Basic
import Mathlib.Order.Basic

namespace Kiyomi.PluginSdk

open Go

/-! # The cache is a timed map

The map is what the stores, deletes and clears of the history make of the empty one; nothing
leaves it by expiring. The items agree with it at every instant to come, and a `Get` returns
what the map had at its read. -/

instance : Preorder Time := @Preorder.lift Time Int Int.instLinearOrder.toPreorder Time.unixNano

section Map

variable {K : Type u} {V : Type v}

theorem Item.isExpired_iff {i : Item V} {now : Time} :
    i.isExpired now = true ↔ i.hasTTL = true ∧ i.expiresAt.unixNano < now.unixNano := by
  unfold Item.isExpired Time.notAfter
  cases i.hasTTL <;> simp

def expiry : Mortality (Item V) Time where
  dead := Item.isExpired
  stays i earlier later notBefore expired := by
    rw [Item.isExpired_iff] at expired ⊢
    exact ⟨expired.1, expired.2.trans_le notBefore⟩

/-- An item has not expired when it is stored. -/
theorem Item.stored_alive (value : V) (ttl : Int) (now : Time) :
    (Item.stored value ttl now).isExpired now = false := by
  unfold Item.stored
  split
  · rename_i positive
    rw [← Bool.not_eq_true, isExpired_iff]
    rintro ⟨_, after⟩
    simp only [Time.add] at after
    omega
  · rfl

def Event.change : Event K V → Option (MapChange K (Item V))
  | .set key item | .computed key item => some (.store key item)
  | .deleted key => some (.remove key)
  | .cleared => some .clear
  | .read .. | .got .. | .returned .. => none

variable [DecidableEq K]

def timedMap (history : List (Event K V)) : Items K V :=
  MapChange.replay (history.filterMap Event.change)

/-- The value of the last store to a key, if it has not been deleted or cleared since and is
not expired. -/
def lookup (history : List (Event K V)) (key : K) (now : Time) : Option V :=
  (expiry.alive (timedMap history key) now).map Item.value

theorem timedMap_change {event : Event K V} {change : MapChange K (Item V)}
    (changes : event.change = some change) (history : List (Event K V)) :
    timedMap (event :: history) = change.apply (timedMap history) := by
  rw [timedMap, List.filterMap_cons_some changes]
  rfl

theorem timedMap_same {event : Event K V} (same : event.change = none)
    (history : List (Event K V)) : timedMap (event :: history) = timedMap history := by
  rw [timedMap, List.filterMap_cons_none same]
  rfl

end Map

/-- The step that comes next removes a key. -/
def Goroutine.removes {K : Type u} {V : Type v} [DecidableEq K] (key : K) : Goroutine K V → Bool
  | .delete other => other = key
  | .clear => true
  | _ => false

def Event.reads {K : Type u} {V : Type v} (thread : Nat) : Event K V → Bool
  | .read other _ => other = thread
  | _ => false

section Steps

variable {K : Type u} {V : Type v} [DecidableEq K] {items : Items K V} {locked : Bool} {self : Nat}
  {answer : CacheAnswer V} {goroutine : Goroutine K V} {move : CacheMove K V} {key : K}
  {s next : CacheState K V} {thread : Nat}

theorem advance_cases (taken : s.advance thread answer = some next) :
    ∃ move, (s.goroutines thread).next s.items s.locked thread answer = some move ∧
      s.clock ≤ answer.now ∧ ((s.goroutines thread).locks = true → s.locked = false) ∧
      next = { items := move.items
               locked := move.locked
               clock := answer.now
               goroutines := Function.update s.goroutines thread move.goroutine
               history := move.events ++ s.history } := by
  unfold CacheState.advance at taken
  simp only at taken
  split at taken
  · rename_i allowed
    rw [Bool.and_eq_true, Bool.not_eq_true', Bool.and_eq_false_imp] at allowed
    rcases Option.map_eq_some_iff.mp taken with ⟨move, moved, rfl⟩
    exact ⟨move, moved, of_decide_eq_true allowed.1, allowed.2, rfl⟩
  · contradiction

/-- What a step does to an item. -/
inductive Touches (key : K) (self : Nat) (goroutine : Goroutine K V) (items : Items K V)
    (now : Time) (move : CacheMove K V) : Prop where
  | set (it : Item V) : move.items key = some it → it.isExpired now = false →
      move.events = [.set key it] → Touches key self goroutine items now move
  | computed (it : Item V) : goroutine = .compute key → move.items key = some it →
      it.isExpired now = false → move.events = [.returned self key (some it.value), .computed key it] →
      Touches key self goroutine items now move
  | removed : goroutine.removes key = true →
      move.events = [.deleted key] ∨ move.events = [.cleared] → move.items key = none → Touches key self goroutine items now move
  | kept : (∀ it, .set key it ∉ move.events ∧ .computed key it ∉ move.events) →
      .deleted key ∉ move.events → .cleared ∉ move.events →
      (move.items key = items key ∨ move.items key = none ∧
        ∀ it, items key = some it → it.isExpired now = true) →
      Touches key self goroutine items now move

theorem Goroutine.next_touches (moved : goroutine.next items locked self answer = some move) :
    Touches key self goroutine items answer.now move := by
  cases goroutine with
  | idle => contradiction
  | set other value ttl =>
      cases moved
      by_cases same : key = other
      · subst same
        exact .set _ (Function.update_self ..) (Item.stored_alive ..) rfl
      · refine .kept (by simp [same]) (by simp) (by simp) (.inl ?_)
        exact Function.update_of_ne same ..
  | read other getter =>
      cases moved
      exact .kept (by simp) (by simp) (by simp) (.inl rfl)
  | check other getter it =>
      cases it with
      | none =>
          cases moved
          exact .kept (by simp) (by simp) (by simp) (.inl rfl)
      | some it =>
          simp only [next] at moved
          split at moved
          · cases moved
            exact .kept (by simp) (by simp) (by simp) (.inl rfl)
          · cases moved
            cases getter <;>
              exact .kept (by simp [Getter.hit]) (by simp [Getter.hit]) (by simp [Getter.hit])
                (.inl rfl)
  | removeExpired other getter =>
      cases moved
      refine .kept (by simp) (by simp) (by simp) ?_
      simp only
      split
      · rename_i expired
        by_cases same : key = other
        · subst same
          refine .inr ⟨Function.update_self .., fun it found => ?_⟩
          simpa [found] using expired
        · exact .inl (Function.update_of_ne same ..)
      · exact .inl rfl
  | doubleCheck other =>
      simp only [next] at moved
      split at moved <;> cases moved <;> exact .kept (by simp) (by simp) (by simp) (.inl rfl)
  | compute other =>
      simp only [next] at moved
      split at moved
      · cases moved
        by_cases same : key = other
        · subst same
          refine .computed _ rfl (Function.update_self ..) (Item.stored_alive ..) ?_
          unfold Item.stored
          split <;> rfl
        · refine .kept (by simp [same]) (by simp) (by simp) (.inl ?_)
          exact Function.update_of_ne same ..
      · cases moved
        exact .kept (by simp) (by simp) (by simp) (.inl rfl)
  | delete other =>
      cases moved
      by_cases same : key = other
      · subst same
        exact .removed (decide_eq_true rfl) (.inl rfl) (Function.update_self ..)
      · refine .kept (by simp) (by simp [same]) (by simp) (.inl ?_)
        exact Function.update_of_ne same ..
  | clear =>
      cases moved
      exact .removed rfl (.inr rfl) rfl
  | purgeExpired =>
      cases moved
      refine .kept (by simp) (by simp) (by simp) ?_
      cases found : items key with
      | none => exact .inl (by simp [found])
      | some it =>
          by_cases expired : it.isExpired answer.now = true
          · refine .inr ⟨by simp [found, Option.filter_some, expired], fun other same => ?_⟩
            cases same
            exact expired
          · exact .inl (by simp [found, Option.filter_some, expired])

/-- The place of a key goes on holding what the map has. -/
theorem Touches.holds {now : Time} (touches : Touches key self goroutine items now move)
    {history : List (Event K V)}
    (holds : expiry.Holds now (items key) (timedMap history key)) :
    expiry.Holds now (move.items key) (timedMap (move.events ++ history) key) := by
  cases touches with
  | set it isStored _ events =>
      refine .inl ?_
      rw [isStored, events, List.singleton_append, timedMap_change rfl,
        MapChange.apply_store_self]
  | computed it _ isStored _ events =>
      refine .inl ?_
      rw [isStored, events, List.cons_append, timedMap_same rfl, List.singleton_append,
        timedMap_change rfl, MapChange.apply_store_self]
  | removed _ events isGone =>
      refine .inl ?_
      rw [isGone]
      rcases events with events | events
      · rw [events, List.singleton_append, timedMap_change rfl, MapChange.apply_remove_self]
      · rw [events, List.singleton_append, timedMap_change rfl, MapChange.apply_clear]
  | kept noStore notDeleted notCleared same =>
      have untouched : ∀ change ∈ move.events.filterMap Event.change, change.touches key = false := by
        intro change member
        rcases List.mem_filterMap.mp member with ⟨event, happened, changes⟩
        cases event with
        | set other it =>
            cases changes
            refine decide_eq_false ?_
            rintro rfl
            exact (noStore it).1 happened
        | computed other it =>
            cases changes
            refine decide_eq_false ?_
            rintro rfl
            exact (noStore it).2 happened
        | deleted other =>
            cases changes
            refine decide_eq_false ?_
            rintro rfl
            exact notDeleted happened
        | cleared => exact absurd happened notCleared
        | read | got | returned => contradiction
      have sameMap : timedMap (move.events ++ history) key = timedMap history key := by
        rw [timedMap, List.filterMap_append]
        exact MapChange.replay_untouched untouched
      rw [sameMap]
      rcases same with same | ⟨dropped, expired⟩
      · rwa [same]
      · rw [dropped]
        rcases holds with holds | gone
        · cases found : timedMap history key with
          | none => exact .inl rfl
          | some it => exact .inr ⟨rfl, it, rfl, expired it (holds.trans found)⟩
        · exact .inr ⟨rfl, gone.2⟩

end Steps

/-! ## The refinement -/

section Refinement

variable {K : Type u} {V : Type v}

/-- A place was read by a goroutine, and nothing since, when the history was `before`. -/
def ReadAt (thread : Nat) (key : K) (history before : List (Event K V)) : Prop :=
  ∃ between, history = between ++ .read thread key :: before ∧
    ∀ event ∈ between, event.reads thread = false

theorem ReadAt.later {key : K} {history before events : List (Event K V)}
    (read : ReadAt thread key history before)
    (others : ∀ event ∈ events, event.reads thread = false) :
    ReadAt thread key (events ++ history) before := by
  rcases read with ⟨between, rfl, noRead⟩
  refine ⟨events ++ between, (List.append_assoc ..).symm, fun event member => ?_⟩
  rcases List.mem_append.mp member with new | old
  · exact others event new
  · exact noRead event old

variable [DecidableEq K] {s next : CacheState K V} {thread : Nat} {answer : CacheAnswer V}

/-- A `Get` returns what the map had at its read, unless it is expired at the check. -/
def Event.Justified : Event K V → List (Event K V) → Prop
  | .got thread key now found, earlier =>
      ∃ before, ReadAt thread key earlier before ∧ found = lookup before key now
  | _, _ => True

structure Refines (s : CacheState K V) : Prop where
  items : expiry.Agrees s.clock s.items (timedMap s.history)
  snapshots : ∀ thread key getter it, s.goroutines thread = .check key getter it →
    ∃ before, ReadAt thread key s.history before ∧ expiry.Holds s.clock it (timedMap before key)
  answers : ∀ event earlier, event :: earlier <:+ s.history → event.Justified earlier

theorem refines_new (clock : Time) : Refines (CacheState.new clock : CacheState K V) where
  items _ := .inl rfl
  snapshots _ _ _ _ checking := by contradiction
  answers event earlier suffix := by
    have := List.suffix_nil.mp suffix
    contradiction

/-- A goroutine logs its own reads only. -/
theorem Goroutine.next_reads {items : Items K V} {locked : Bool} {self other : Nat}
    {goroutine : Goroutine K V} {move : CacheMove K V}
    (moved : goroutine.next items locked self answer = some move) (ne : other ≠ self) :
    ∀ event ∈ move.events, event.reads other = false := by
  cases goroutine with
  | idle => contradiction
  | set | delete | clear | purgeExpired | removeExpired =>
      cases moved
      simp [Event.reads]
  | read key getter =>
      cases moved
      simpa [Event.reads] using ne.symm
  | check key getter it =>
      cases it with
      | none =>
          cases moved
          simp [Event.reads]
      | some it =>
          simp only [next] at moved
          split at moved
          · cases moved
            simp [Event.reads]
          · cases moved
            cases getter <;> simp [Getter.hit, Event.reads]
  | doubleCheck key =>
      simp only [next] at moved
      split at moved <;> cases moved <;> simp [Event.reads]
  | compute key =>
      simp only [next] at moved
      split at moved <;> cases moved <;> simp [Event.reads]

/-- What a goroutine has read when it is about to check the time. -/
theorem Goroutine.next_check {items : Items K V} {locked : Bool} {self : Nat}
    {goroutine : Goroutine K V} {move : CacheMove K V} {key : K} {getter : Getter}
    {it : Option (Item V)} (moved : goroutine.next items locked self answer = some move)
    (checks : move.goroutine = .check key getter it) :
    goroutine = .read key getter ∧ it = items key ∧ move.events = [.read self key] := by
  cases goroutine with
  | idle => contradiction
  | set | delete | clear | purgeExpired =>
      cases moved
      contradiction
  | removeExpired key getter =>
      cases moved
      cases getter <;> contradiction
  | read key getter =>
      cases moved
      cases checks
      exact ⟨rfl, rfl, rfl⟩
  | check key getter it =>
      cases it with
      | none =>
          cases moved
          cases getter <;> contradiction
      | some it =>
          simp only [next] at moved
          split at moved <;> cases moved <;> contradiction
  | doubleCheck key =>
      simp only [next] at moved
      split at moved <;> cases moved <;> contradiction
  | compute key =>
      simp only [next] at moved
      split at moved <;> cases moved <;> contradiction

/-- What the check of the time returns. -/
theorem Goroutine.next_got {items : Items K V} {locked : Bool} {self thread : Nat}
    {goroutine : Goroutine K V} {move : CacheMove K V} {key : K} {now : Time} {found : Option V}
    {earlier history : List (Event K V)}
    (moved : goroutine.next items locked self answer = some move)
    (suffix : .got thread key now found :: earlier <:+ move.events ++ history) :
    .got thread key now found :: earlier <:+ history ∨
      thread = self ∧ earlier = history ∧ ∃ getter it, goroutine = .check key getter it ∧
        found = (expiry.alive it answer.now).map Item.value ∧ now = answer.now := by
  cases goroutine with
  | idle => contradiction
  | set | delete | clear | purgeExpired | removeExpired | read =>
      cases moved
      exact .inl (by simpa [List.suffix_cons_iff] using suffix)
  | check other getter it =>
      cases it with
      | none =>
          cases moved
          rcases List.suffix_cons_iff.mp suffix with same | old
          · cases same
            exact .inr ⟨rfl, rfl, getter, none, rfl, rfl, rfl⟩
          · exact .inl old
      | some it =>
          simp only [next] at moved
          split at moved
          · rename_i expired
            cases moved
            rcases List.suffix_cons_iff.mp suffix with same | old
            · cases same
              refine .inr ⟨rfl, rfl, getter, some it, rfl, ?_, rfl⟩
              simp [Mortality.alive, expiry, Option.filter_some, expired]
            · exact .inl old
          · rename_i lives
            cases moved
            have own : .got thread key now found :: earlier <:+
                .got self other answer.now (some it.value) :: history := by
              cases getter with
              | get => exact suffix
              | getOrSet => exact (List.suffix_cons_iff.mp suffix).resolve_left (by simp)
            rcases List.suffix_cons_iff.mp own with same | old
            · cases same
              refine .inr ⟨rfl, rfl, getter, some it, rfl, ?_, rfl⟩
              simp [Mortality.alive, expiry, Option.filter_some, lives]
            · exact .inl old
  | doubleCheck key =>
      simp only [next] at moved
      split at moved <;> cases moved <;> exact .inl (by simpa [List.suffix_cons_iff] using suffix)
  | compute key =>
      simp only [next] at moved
      split at moved <;> cases moved <;> exact .inl (by simpa [List.suffix_cons_iff] using suffix)

theorem Refines.advance (refines : Refines s) (taken : s.advance thread answer = some next) :
    Refines next := by
  rcases advance_cases taken with ⟨move, moved, later, _, rfl⟩
  exact
    { items := fun key => (Goroutine.next_touches moved).holds ((refines.items key).later later)
      snapshots := fun other key getter it checks => by
        by_cases same : other = thread
        · subst same
          have checks := (Function.update_self ..).symm.trans checks
          rcases Goroutine.next_check moved checks with ⟨_, rfl, events⟩
          refine ⟨s.history, ⟨[], by rw [events]; rfl, fun _ member => absurd member List.not_mem_nil⟩, ?_⟩
          exact (refines.items key).later later
        · have checks := (Function.update_of_ne same ..).symm.trans checks
          rcases refines.snapshots other key getter it checks with ⟨before, read, holds⟩
          exact ⟨before, read.later (Goroutine.next_reads moved same), holds.later later⟩
      answers := fun event earlier suffix => by
        cases event with
        | got self key now found =>
            rcases Goroutine.next_got moved suffix with old | ⟨rfl, rfl, getter, it, checks, rfl, rfl⟩
            · exact refines.answers _ _ old
            · rcases refines.snapshots _ _ _ _ checks with ⟨before, read, holds⟩
              refine ⟨before, read, ?_⟩
              rw [lookup, holds.alive_eq later]
        | set | computed | deleted | cleared | read | returned => trivial }

theorem Refines.step {action : CacheAction K V} (refines : Refines s)
    (taken : cacheStep s action = some next) : Refines next := by
  cases action with
  | call thread method =>
      simp only [cacheStep] at taken
      split at taken
      · cases taken
        refine { refines with snapshots := fun other key getter it checks => ?_ }
        by_cases same : other = thread
        · subst same
          have checks := (Function.update_self ..).symm.trans checks
          cases method <;> contradiction
        · exact refines.snapshots other key getter it
            ((Function.update_of_ne same ..).symm.trans checks)
      · contradiction
  | advance thread answer => exact refines.advance taken

/-! ## Evictions -/

/-- The removal of an expired item by `Get`, or a purge. -/
def Goroutine.evicts : Goroutine K V → Bool
  | .removeExpired .. | .purgeExpired => true
  | _ => false

theorem evicts_expired (taken : s.advance thread answer = some next)
    (evicts : (s.goroutines thread).evicts = true) {key : K} {it : Item V}
    (found : s.items key = some it) :
    next.items key = some it ∨ next.items key = none ∧ it.isExpired next.clock = true := by
  rcases advance_cases taken with ⟨move, moved, _, _, rfl⟩
  have silent : move.events = [] := by
    revert moved evicts
    cases s.goroutines thread with
    | removeExpired | purgeExpired =>
        rintro _ ⟨⟩
        rfl
    | idle | set | read | check | doubleCheck | compute | delete | clear =>
        intro evicts
        contradiction
  have touches := @Goroutine.next_touches K V _ s.items s.locked thread answer _ move key moved
  cases touches with
  | set _ _ _ events =>
      rw [silent] at events
      contradiction
  | computed _ _ _ _ events =>
      rw [silent] at events
      contradiction
  | removed _ events _ =>
      rw [silent] at events
      rcases events with events | events <;> contradiction
  | kept _ _ _ same =>
      rcases same with same | ⟨dropped, expired⟩
      · exact .inl (same.trans found)
      · exact .inr ⟨dropped, expired it found⟩

end Refinement

/-! ## Functions under the lock -/

section Computing

variable {K : Type u} {V : Type v}

/-- A function of `GetOrSet` runs alone, and only while its key has no item that lives. -/
structure Computing (s : CacheState K V) : Prop where
  locked : ∀ thread key, s.goroutines thread = .compute key → s.locked = true
  missing : ∀ thread key, s.goroutines thread = .compute key →
    expiry.alive (s.items key) s.clock = none
  alone : ∀ thread key other key', s.goroutines thread = .compute key →
    s.goroutines other = .compute key' → other = thread

theorem computing_new (clock : Time) : Computing (CacheState.new clock : CacheState K V) where
  locked _ _ computes := by contradiction
  missing _ _ computes := by contradiction
  alone _ _ _ _ computes := by contradiction

variable [DecidableEq K] {s next : CacheState K V} {thread : Nat} {answer : CacheAnswer V}

theorem Goroutine.next_compute {items : Items K V} {locked : Bool} {self : Nat}
    {goroutine : Goroutine K V} {move : CacheMove K V} {key : K}
    (moved : goroutine.next items locked self answer = some move)
    (computes : move.goroutine = .compute key) :
    goroutine = .doubleCheck key ∧ expiry.alive (items key) answer.now = none ∧
      move.items = items ∧ move.locked = true := by
  cases goroutine with
  | idle => contradiction
  | set | delete | clear | purgeExpired | read =>
      cases moved
      contradiction
  | removeExpired key getter =>
      cases moved
      cases getter <;> contradiction
  | check key getter it =>
      cases it with
      | none =>
          cases moved
          cases getter <;> contradiction
      | some it =>
          simp only [next] at moved
          split at moved <;> cases moved <;> contradiction
  | doubleCheck key =>
      simp only [next] at moved
      split at moved
      · cases moved
        contradiction
      · rename_i missing
        cases moved
        cases computes
        exact ⟨rfl, missing, rfl, rfl⟩
  | compute key =>
      simp only [next] at moved
      split at moved <;> cases moved <;> contradiction

/-- Without the lock only the time is checked, or the function that has the lock ends. -/
theorem Goroutine.next_unlocked {items : Items K V} {locked : Bool} {self : Nat}
    {goroutine : Goroutine K V} {move : CacheMove K V}
    (moved : goroutine.next items locked self answer = some move)
    (locks : goroutine.locks = false) :
    (∃ key, goroutine = .compute key) ∨ move.items = items ∧ move.locked = locked := by
  cases goroutine with
  | compute key => exact .inl ⟨key, rfl⟩
  | check key getter it =>
      refine .inr ?_
      cases it with
      | none =>
          cases moved
          exact ⟨rfl, rfl⟩
      | some it =>
          simp only [next] at moved
          split at moved <;> cases moved <;> exact ⟨rfl, rfl⟩
  | idle | set | read | removeExpired | doubleCheck | delete | clear | purgeExpired => contradiction

theorem alive_later {it : Option (Item V)} {clock now : Time}
    (missing : expiry.alive it clock = none) (later : clock ≤ now) :
    expiry.alive it now = none := by
  cases it with
  | none => rfl
  | some it =>
      have dead : it.isExpired clock = true := by
        simpa [Mortality.alive, expiry, Option.filter_some] using missing
      have dead := expiry.stays it later dead
      simp [Mortality.alive, Option.filter_some, dead]

theorem Computing.advance (computing : Computing s) (taken : s.advance thread answer = some next) :
    Computing next := by
  rcases advance_cases taken with ⟨move, moved, later, free, rfl⟩
  -- Another function that runs has the lock, so this step has not changed a thing.
  have others : ∀ other key, other ≠ thread → s.goroutines other = .compute key →
      move.items = s.items ∧ move.locked = s.locked := by
    intro other key ne computes
    have isLocked := computing.locked other key computes
    have locks : (s.goroutines thread).locks = false := by
      by_contra locks
      rw [Bool.not_eq_false] at locks
      rw [free locks] at isLocked
      contradiction
    rcases Goroutine.next_unlocked moved locks with ⟨key', computes'⟩ | same
    · exact absurd (computing.alone thread key' other key computes' computes) ne
    · exact same
  have cases' : ∀ other key,
      Function.update s.goroutines thread move.goroutine other = .compute key →
      other = thread ∧ move.goroutine = .compute key ∨
        other ≠ thread ∧ s.goroutines other = .compute key := by
    intro other key computes
    by_cases same : other = thread
    · subst same
      exact .inl ⟨rfl, (Function.update_self other _ s.goroutines).symm.trans computes⟩
    · exact .inr ⟨same, (Function.update_of_ne same ..).symm.trans computes⟩
  refine ⟨fun other key computes => ?_, fun other key computes => ?_,
    fun other key third key' computes computes' => ?_⟩
  · rcases cases' other key computes with ⟨_, own⟩ | ⟨ne, old⟩
    · exact (Goroutine.next_compute moved own).2.2.2
    · exact (others other key ne old).2.trans (computing.locked other key old)
  · rcases cases' other key computes with ⟨_, own⟩ | ⟨ne, old⟩
    · rcases Goroutine.next_compute moved own with ⟨_, missing, items, _⟩
      exact items ▸ missing
    · simp only [(others other key ne old).1]
      exact alive_later (computing.missing other key old) later
  · have locked (other : Nat) (key : K) (ne : other ≠ thread)
        (old : s.goroutines other = .compute key) {key' : K}
        (own : move.goroutine = .compute key') : False := by
      have starts := (Goroutine.next_compute moved own).1
      have isFree := free (by rw [starts]; rfl)
      rw [computing.locked other key old] at isFree
      contradiction
    rcases cases' other key computes with ⟨rfl, own⟩ | ⟨ne, old⟩
    · rcases cases' third key' computes' with ⟨rfl, _⟩ | ⟨ne', old'⟩
      · rfl
      · exact (locked third key' ne' old' own).elim
    · rcases cases' third key' computes' with ⟨rfl, own'⟩ | ⟨ne', old'⟩
      · exact (locked other key ne old own').elim
      · exact computing.alone other key third key' old old'

theorem Computing.step {action : CacheAction K V} (computing : Computing s)
    (taken : cacheStep s action = some next) : Computing next := by
  cases action with
  | call thread method =>
      simp only [cacheStep] at taken
      split at taken
      · cases taken
        have old : ∀ other key,
            Function.update s.goroutines thread method.start other = .compute key →
            s.goroutines other = .compute key := by
          intro other key computes
          by_cases same : other = thread
          · subst same
            have computes := (Function.update_self ..).symm.trans computes
            cases method <;> contradiction
          · exact (Function.update_of_ne same ..).symm.trans computes
        exact
          { locked := fun other key computes => computing.locked other key (old other key computes)
            missing := fun other key computes => computing.missing other key (old other key computes)
            alone := fun other key third key' computes computes' =>
              computing.alone other key third key' (old other key computes)
                (old third key' computes') }
      · contradiction
  | advance thread answer => exact computing.advance taken

end Computing

end Kiyomi.PluginSdk
