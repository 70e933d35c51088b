import Mathlib.Algebra.Group.Nat.Defs
import Mathlib.Data.List.DropRight
import Mathlib.Data.List.Lex
import Mathlib.Order.Lattice

namespace Kiyomi.Numerals

/-! # Numerals of a fixed width

Texts made of fields of a fixed width stand in the order of what the fields say, field by
field. -/

section Order

variable {α : Type u} [LinearOrder α] {a b : List α}

theorem eq_iff_of_lt_iff {β : Type v} [LinearOrder β] {x y : α} {m n : β} (less : x < y ↔ m < n)
    (greater : y < x ↔ n < m) : x = y ↔ m = n := by
  rw [le_antisymm_iff, le_antisymm_iff, ← not_lt, ← not_lt, ← not_lt, ← not_lt, less, greater]

/-- The first fields decide, and where they are the same the rest. -/
theorem append_lt_append_iff (same : a.length = b.length) (s t : List α) :
    a ++ s < b ++ t ↔ a < b ∨ a = b ∧ s < t := by
  induction a generalizing b with
  | nil =>
      rw [List.length_nil, eq_comm, List.length_eq_zero_iff] at same
      subst same
      simp
  | cons x a induction =>
      cases b with
      | nil => contradiction
      | cons y b =>
          simp only [List.length_cons, Nat.add_right_cancel_iff] at same
          rw [List.cons_append, List.cons_append, List.cons_lt_cons_iff, List.cons_lt_cons_iff,
            induction same, List.cons.injEq]
          grind

theorem append_lt_append_left_iff (a s t : List α) : a ++ s < a ++ t ↔ s < t := by
  rw [append_lt_append_iff rfl, and_iff_right rfl, or_iff_right (lt_irrefl a)]

/-- Where two texts of one length differ first. -/
theorem exists_first_difference (same : a.length = b.length) (less : a < b) :
    ∃ front x y s t, a = front ++ x :: s ∧ b = front ++ y :: t ∧ x < y := by
  induction a generalizing b with
  | nil =>
      rw [List.length_nil, eq_comm, List.length_eq_zero_iff] at same
      subst same
      exact absurd less (lt_irrefl _)
  | cons x a induction =>
      cases b with
      | nil => contradiction
      | cons y b =>
          simp only [List.length_cons, Nat.add_right_cancel_iff] at same
          rcases List.cons_lt_cons_iff.mp less with first | ⟨rfl, later⟩
          · exact ⟨[], x, y, a, b, rfl, rfl, first⟩
          · rcases induction same later with ⟨front, u, v, s, t, rfl, rfl, differ⟩
            exact ⟨x :: front, u, v, s, t, rfl, rfl, differ⟩

theorem rdropWhile_append (p : α → Bool) (s t : List α) : (s ++ t).rdropWhile p =
    if t.rdropWhile p = [] then s.rdropWhile p else s ++ t.rdropWhile p := by
  simp only [List.rdropWhile, List.reverse_append, List.dropWhile_append, List.isEmpty_iff,
    List.reverse_eq_nil_iff]
  split
  · rfl
  · rw [List.reverse_append, List.reverse_reverse]

theorem rdropWhile_of_kept {p : α → Bool} {y : α} (kept : ¬p y) (s t : List α) :
    (s ++ y :: t).rdropWhile p = s ++ y :: t.rdropWhile p := by
  rw [List.append_cons, rdropWhile_append]
  split
  · rename_i blank
    rw [List.rdropWhile_concat_neg _ _ _ kept, blank]
  · rw [List.append_cons s y (t.rdropWhile p)]

/-- Without the least symbol at their ends two such texts still differ there, or one of them goes
on where the other has ended. -/
theorem trimmed_cases {z : α} (least : ∀ x ∈ a, z ≤ x) (same : a.length = b.length)
    (less : a < b) :
    (∃ front x y s t, x < y ∧ a.rdropWhile (· == z) = front ++ x :: s ∧
      b.rdropWhile (· == z) = front ++ y :: t) ∨
    ∃ y t, y ∈ b ∧ b.rdropWhile (· == z) = a.rdropWhile (· == z) ++ y :: t := by
  rcases exists_first_difference same less with ⟨front, x, y, s, t, rfl, rfl, differ⟩
  have notLeast : y ≠ z := ((least x (by simp)).trans_lt differ).ne'
  have kept := rdropWhile_of_kept (p := (· == z)) (beq_iff_eq.not.mpr notLeast) front t
  rw [kept, rdropWhile_append]
  split
  · right
    rcases List.rdropWhile_prefix (· == z) front with ⟨rest, parts⟩
    cases rest with
    | nil =>
        rw [List.append_nil] at parts
        exact ⟨y, t.rdropWhile (· == z), by simp, by rw [parts]⟩
    | cons w rest =>
        have member : w ∈ front := by
          rw [← parts]
          simp
        refine ⟨w, rest ++ y :: t.rdropWhile (· == z), by simp [member], ?_⟩
        rw [← List.cons_append, ← List.append_assoc, parts]
  · rename_i kept
    left
    rcases List.rdropWhile_prefix (· == z) (x :: s) with ⟨rest, parts⟩
    cases isRest : (x :: s).rdropWhile (· == z) with
    | nil => exact absurd isRest kept
    | cons v s' =>
        rw [isRest, List.cons_append, List.cons.injEq] at parts
        exact ⟨front, x, y, s', t.rdropWhile (· == z), differ, by rw [parts.1], rfl⟩

/-- Padded to its length such a text is there again. -/
theorem take_rdropWhile_append (z : α) (a : List α) :
    (a.rdropWhile (· == z) ++ List.replicate a.length z).take a.length = a := by
  have parts := List.rdropWhile_append_rtakeWhile (p := (· == z)) (l := a)
  have zeros : a.rtakeWhile (· == z) = List.replicate (a.rtakeWhile (· == z)).length z := by
    refine List.eq_replicate_iff.mpr ⟨rfl, fun x member => ?_⟩
    have equal := List.mem_rtakeWhile_imp member
    exact beq_iff_eq.mp equal
  have sizes := congrArg List.length parts
  rw [List.length_append] at sizes
  have missing : min (a.length - (a.rdropWhile (· == z)).length) a.length =
      (a.rtakeWhile (· == z)).length := by omega
  rw [List.take_append, List.take_of_length_le (by omega), List.take_replicate, missing, ← zeros,
    parts]

end Order

section Numeral

variable {α : Type u} (base : Nat) (symbol : Nat → α)

def numeral : Nat → Nat → List α
  | 0, _ => []
  | width + 1, n => numeral width (n / base) ++ [symbol (n % base)]

variable {base symbol} {m n : Nat}

theorem length_numeral (width n : Nat) : (numeral base symbol width n).length = width := by
  induction width generalizing n with
  | zero => rfl
  | succ width induction => rw [numeral, List.length_append, induction, List.length_singleton]

theorem numeral_zero (width : Nat) :
    numeral base symbol width 0 = List.replicate width (symbol 0) := by
  induction width with
  | zero => rfl
  | succ width induction =>
      rw [numeral, Nat.zero_div, Nat.zero_mod, induction, List.replicate_succ']

theorem div_mod_lt_iff : m / base < n / base ∨ m / base = n / base ∧ m % base < n % base ↔ m < n := by
  have splitLeft := Nat.div_add_mod m base
  have splitRight := Nat.div_add_mod n base
  constructor
  · rintro (less | ⟨same, less⟩)
    · exact Nat.lt_of_div_lt_div less
    · rw [same] at splitLeft
      omega
  · intro less
    rcases (Nat.div_le_div_right less.le).lt_or_eq with before | same
    · exact .inl before
    · rw [same] at splitLeft
      exact .inr ⟨same, by omega⟩

section Order

variable [LinearOrder α] (ordered : ∀ c d, c < base → d < base → (symbol c < symbol d ↔ c < d))
  (positive : 0 < base) {width : Nat}

include ordered positive

theorem numeral_lt_iff (left : m < base ^ width) (right : n < base ^ width) :
    numeral base symbol width m < numeral base symbol width n ↔ m < n := by
  induction width generalizing m n with
  | zero =>
      rw [Nat.pow_zero, Nat.lt_one_iff] at left right
      rw [left, right]
      exact iff_of_false (lt_irrefl _) (lt_irrefl _)
  | succ width induction =>
      have leftRest : m / base < base ^ width := by
        rw [Nat.div_lt_iff_lt_mul positive, ← Nat.pow_succ]
        exact left
      have rightRest : n / base < base ^ width := by
        rw [Nat.div_lt_iff_lt_mul positive, ← Nat.pow_succ]
        exact right
      have same := eq_iff_of_lt_iff (induction leftRest rightRest) (induction rightRest leftRest)
      have last : [symbol (m % base)] < [symbol (n % base)] ↔ m % base < n % base := by
        rw [List.cons_lt_cons_iff, ordered _ _ (Nat.mod_lt m positive) (Nat.mod_lt n positive)]
        simp
      rw [numeral, numeral, append_lt_append_iff (by rw [length_numeral, length_numeral]),
        induction leftRest rightRest, same, last]
      exact div_mod_lt_iff

theorem numeral_inj (left : m < base ^ width) (right : n < base ^ width) :
    numeral base symbol width m = numeral base symbol width n ↔ m = n :=
  eq_iff_of_lt_iff (numeral_lt_iff ordered positive left right)
    (numeral_lt_iff ordered positive right left)

end Order

end Numeral

end Kiyomi.Numerals
