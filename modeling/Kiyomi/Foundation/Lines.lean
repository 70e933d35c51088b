import Mathlib.Data.List.Basic

namespace Kiyomi.Lines

/-! # Texts that arrive in parts

A text is a sequence of lines that end with a separator, and the rest after the last one, which
more text continues. -/

variable {α : Type u} [DecidableEq α]

/-- The lines that have ended. -/
def complete (sep : α) (text : List α) : List (List α) := (text.splitOn sep).dropLast

/-- The line that has not ended. -/
def rest (sep : α) (text : List α) : List α :=
  (text.splitOn sep).getLast (List.splitOn_ne_nil sep text)

variable {sep : α}

theorem complete_append_rest (sep : α) (text : List α) :
    complete sep text ++ [rest sep text] = text.splitOn sep :=
  List.dropLast_append_getLast _

/-- A text has no separator, or a first line. -/
theorem cases_on_lines {motive : List α → Prop} (text : List α)
    (last : ∀ text, sep ∉ text → motive text)
    (line : ∀ first text, sep ∉ first → motive text → motive (first ++ sep :: text)) :
    motive text := by
  induction length : text.length using Nat.strongRecOn generalizing text with
  | ind size induction =>
      by_cases member : sep ∈ text
      · rcases List.eq_append_cons_of_mem member with ⟨first, more, rfl, free⟩
        refine line first more free (induction more.length ?_ more rfl)
        rw [← length, List.length_append, List.length_cons]
        omega
      · exact last text member

theorem lines_of_not_mem {text : List α} (free : sep ∉ text) :
    complete sep text = [] ∧ rest sep text = text := by
  simp only [complete, rest, List.splitOn_eq_singleton free, List.dropLast_singleton,
    List.getLast_singleton, and_self]

theorem complete_line {first : List α} (free : sep ∉ first) (text : List α) :
    complete sep (first ++ sep :: text) = first :: complete sep text := by
  rw [complete, List.splitOn_append_cons_self_of_not_mem free,
    List.dropLast_cons_of_ne_nil (List.splitOn_ne_nil sep text), complete]

theorem rest_line {first : List α} (free : sep ∉ first) (text : List α) :
    rest sep (first ++ sep :: text) = rest sep text := by
  simp only [rest, List.splitOn_append_cons_self_of_not_mem free,
    List.getLast_cons (List.splitOn_ne_nil sep text)]

theorem not_mem_of_mem_splitOn {text line : List α} (member : line ∈ text.splitOn sep) :
    sep ∉ line := by
  induction text using cases_on_lines with
  | last text free =>
      rw [List.splitOn_eq_singleton free, List.mem_singleton] at member
      rwa [member]
  | line first text free induction =>
      rw [List.splitOn_append_cons_self_of_not_mem free, List.mem_cons] at member
      rcases member with rfl | later
      · exact free
      · exact induction later

theorem not_mem_rest (text : List α) : sep ∉ rest sep text :=
  not_mem_of_mem_splitOn (List.getLast_mem _)

/-- More text continues the line that has not ended. -/
theorem complete_append (text more : List α) :
    complete sep (text ++ more) = complete sep text ++ complete sep (rest sep text ++ more) := by
  induction text using cases_on_lines with
  | last text free => rw [(lines_of_not_mem free).1, (lines_of_not_mem free).2, List.nil_append]
  | line first text free induction =>
      rw [List.append_assoc, List.cons_append, complete_line free, complete_line free,
        rest_line free, induction, List.cons_append]

theorem rest_append (text more : List α) :
    rest sep (text ++ more) = rest sep (rest sep text ++ more) := by
  induction text using cases_on_lines with
  | last text free => rw [(lines_of_not_mem free).2]
  | line first text free induction =>
      rw [List.append_assoc, List.cons_append, rest_line free, rest_line free, induction]

/-! ## Interleavings -/

/-- The last list has the elements of the others, each in their order. -/
inductive Interleaves {β : Type u} : List β → List β → List β → Prop
  | nil : Interleaves [] [] []
  | first {x xs ys zs} : Interleaves xs ys zs → Interleaves (x :: xs) ys (x :: zs)
  | second {y xs ys zs} : Interleaves xs ys zs → Interleaves xs (y :: ys) (y :: zs)

namespace Interleaves

variable {β : Type u} {xs ys zs xs' ys' zs' : List β}

theorem ofFirst (xs : List β) : Interleaves xs [] xs := by
  induction xs with
  | nil => exact .nil
  | cons x xs induction => exact .first induction

theorem append (early : Interleaves xs ys zs) (late : Interleaves xs' ys' zs') :
    Interleaves (xs ++ xs') (ys ++ ys') (zs ++ zs') := by
  induction early with
  | nil => exact late
  | first _ induction => exact .first induction
  | second _ induction => exact .second induction

theorem symm (interleaved : Interleaves xs ys zs) : Interleaves ys xs zs := by
  induction interleaved with
  | nil => exact .nil
  | first _ induction => exact .second induction
  | second _ induction => exact .first induction

theorem perm (interleaved : Interleaves xs ys zs) : zs.Perm (xs ++ ys) := by
  induction interleaved with
  | nil => exact .refl []
  | first _ induction => exact induction.cons _
  | second _ induction => exact (induction.cons _).trans List.perm_middle.symm

end Interleaves

end Kiyomi.Lines
