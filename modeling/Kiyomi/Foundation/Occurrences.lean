import Mathlib.Data.List.Infix

namespace Kiyomi.Occurrences

/-! # Where a pattern can occur in a text made of parts -/

variable {α : Type u} {pattern before after : List α} {sep : α}

/-- What stands before the first separator. -/
def firstWord [DecidableEq α] (sep : α) (pattern : List α) : List α :=
  pattern.takeWhile (· ≠ sep)

/-- A pattern without the separator does not reach over it. -/
theorem infix_append_cons_iff (free : sep ∉ pattern) :
    pattern <:+: before ++ sep :: after ↔ pattern <:+: before ∨ pattern <:+: after := by
  constructor
  · intro occurs
    rcases List.infix_append_iff.1 occurs with inside | inside | ⟨start, rest, split, left, right⟩
    · exact Or.inl inside
    · rcases List.infix_cons_iff.1 inside with first | inside
      · cases pattern with
        | nil => exact Or.inl List.nil_infix
        | cons head tail =>
            rw [List.cons_prefix_cons] at first
            exact absurd (first.1 ▸ List.mem_cons_self) free
      · exact Or.inr inside
    · cases rest with
      | nil =>
          rw [List.append_nil] at split
          exact Or.inl (split ▸ left.isInfix)
      | cons head tail =>
          rw [List.cons_prefix_cons] at right
          refine absurd ?_ free
          rw [split, ← right.1]
          exact List.mem_append_right start List.mem_cons_self
  · rintro (inside | inside)
    · exact inside.trans (List.prefix_append _ _).isInfix
    · exact (List.infix_cons inside).trans (List.suffix_append _ _).isInfix

/-- A pattern that occurs in a text occurs behind its first separator, or has its first word
before it. -/
theorem infix_append_cons [DecidableEq α] (free : sep ∉ before)
    (occurs : pattern <:+: before ++ sep :: after) :
    firstWord sep pattern <:+: before ∨ pattern <:+: after := by
  rcases List.infix_append_iff.1 occurs with inside | inside | ⟨start, rest, split, left, right⟩
  · exact Or.inl ((List.takeWhile_prefix _).isInfix.trans inside)
  · rcases List.infix_cons_iff.1 inside with first | inside
    · refine Or.inl ?_
      cases pattern with
      | nil => exact List.nil_infix
      | cons head tail =>
          rw [List.cons_prefix_cons] at first
          rw [firstWord, first.1, List.takeWhile_cons_of_neg (by simp)]
          exact List.nil_infix
    · exact Or.inr inside
  · have word : firstWord sep pattern = start := by
      have passed : ∀ c ∈ start, decide (c ≠ sep) = true := fun c member =>
        decide_eq_true fun same => free (same ▸ left.subset member)
      rw [firstWord, split, List.takeWhile_append_of_pos passed]
      cases rest with
      | nil => exact List.append_nil start
      | cons head tail =>
          rw [List.cons_prefix_cons] at right
          rw [right.1, List.takeWhile_cons_of_neg (by simp), List.append_nil]
    exact Or.inl (word ▸ left.isInfix)

/-- A pattern without the separator that occurs in a joined text occurs in one of its parts. -/
theorem exists_of_infix_intercalate (free : sep ∉ pattern) (nonempty : pattern ≠ [])
    {parts : List (List α)} (occurs : pattern <:+: [sep].intercalate parts) :
    ∃ part ∈ parts, pattern <:+: part := by
  induction parts with
  | nil => exact absurd (List.infix_nil.mp occurs) nonempty
  | cons part parts induction =>
      by_cases last : parts = []
      · subst last
        rw [List.intercalate_singleton] at occurs
        exact ⟨part, List.mem_cons_self, occurs⟩
      · rw [List.intercalate_cons_of_ne_nil last, List.append_assoc, List.singleton_append,
          infix_append_cons_iff free] at occurs
        rcases occurs with inFirst | inRest
        · exact ⟨part, List.mem_cons_self, inFirst⟩
        · rcases induction inRest with ⟨other, member, inside⟩
          exact ⟨other, List.mem_cons_of_mem _ member, inside⟩

end Kiyomi.Occurrences
