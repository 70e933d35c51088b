import Mathlib.Logic.Function.Basic
import Mathlib.Order.Defs.PartialOrder

namespace Kiyomi

/-! # Maps whose entries die

An entry of a timed map is alive up to some instant. A store may drop an entry once it is
dead; whoever looks at the clock cannot tell its contents from the map. -/

/-- When an entry is dead: once it is, it stays so. -/
structure Mortality (Entry : Type u) (Instant : Type v) [Preorder Instant] where
  dead : Entry → Instant → Bool
  stays : ∀ entry {earlier later}, earlier ≤ later → dead entry earlier = true →
    dead entry later = true

namespace Mortality

variable {Entry : Type u} {Instant : Type v} [Preorder Instant] {Key : Type w}
  (mortality : Mortality Entry Instant)

/-- What of an entry is there at an instant. -/
def alive (entry : Option Entry) (now : Instant) : Option Entry :=
  entry.filter fun entry => !mortality.dead entry now

/-- A place of a store holds the entry of the map, or has dropped it when it was dead. -/
def Holds (clock : Instant) (stored entry : Option Entry) : Prop :=
  stored = entry ∨ stored = none ∧ ∃ gone, entry = some gone ∧ mortality.dead gone clock = true

/-- A store agrees with a map at every place. -/
def Agrees (clock : Instant) (stored map : Key → Option Entry) : Prop :=
  ∀ key, mortality.Holds clock (stored key) (map key)

variable {mortality} {clock now : Instant} {stored stored' map : Key → Option Entry}

theorem Holds.later {place entry : Option Entry} (holds : mortality.Holds clock place entry)
    (later : clock ≤ now) : mortality.Holds now place entry :=
  holds.imp id fun dropped => ⟨dropped.1, dropped.2.imp fun gone isGone =>
    ⟨isGone.1, mortality.stays gone later isGone.2⟩⟩

/-- Nobody can tell the place from the map. -/
theorem Holds.alive_eq {place entry : Option Entry} (holds : mortality.Holds clock place entry)
    (later : clock ≤ now) : mortality.alive place now = mortality.alive entry now := by
  rcases holds with rfl | ⟨rfl, gone, rfl, isDead⟩
  · rfl
  · have isDead : mortality.dead gone now = true := mortality.stays gone later isDead
    simp [alive, Option.filter_some, isDead]

namespace Agrees

end Agrees

end Mortality

/-! ## Changes of a map -/

inductive MapChange (Key : Type u) (Entry : Type v) where
  | store (key : Key) (entry : Entry)
  | remove (key : Key)
  | clear

namespace MapChange

variable {Key : Type u} {Entry : Type v} [DecidableEq Key]

def apply : MapChange Key Entry → (Key → Option Entry) → Key → Option Entry
  | .store key entry, map => Function.update map key (some entry)
  | .remove key, map => Function.update map key none
  | .clear, _ => fun _ => none

def touches (key : Key) : MapChange Key Entry → Bool
  | .store other _ => other = key
  | .remove other => other = key
  | .clear => true

/-- The map that changes make of the empty one, the newest first. -/
def replay (changes : List (MapChange Key Entry)) : Key → Option Entry :=
  changes.foldr apply fun _ => none

@[simp] theorem apply_store_self (key : Key) (entry : Entry) (map : Key → Option Entry) :
    (store key entry).apply map key = some entry :=
  Function.update_self ..

@[simp] theorem apply_remove_self (key : Key) (map : Key → Option Entry) :
    (remove key : MapChange Key Entry).apply map key = none :=
  Function.update_self ..

@[simp] theorem apply_clear (key : Key) (map : Key → Option Entry) :
    (clear : MapChange Key Entry).apply map key = none :=
  rfl

theorem apply_untouched {change : MapChange Key Entry} {key : Key}
    (untouched : change.touches key = false) (map : Key → Option Entry) :
    change.apply map key = map key := by
  cases change with
  | store other entry => exact Function.update_of_ne (Ne.symm (of_decide_eq_false untouched)) ..
  | remove other => exact Function.update_of_ne (Ne.symm (of_decide_eq_false untouched)) ..
  | clear => contradiction

theorem replay_untouched {later earlier : List (MapChange Key Entry)} {key : Key}
    (untouched : ∀ change ∈ later, change.touches key = false) :
    replay (later ++ earlier) key = replay earlier key := by
  induction later with
  | nil => rfl
  | cons change later induction =>
      rw [List.forall_mem_cons] at untouched
      exact (apply_untouched untouched.1 _).trans (induction untouched.2)

end MapChange

end Kiyomi
