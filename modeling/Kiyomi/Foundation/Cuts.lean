import Mathlib.Algebra.GroupWithZero.Nat
import Mathlib.Data.List.Infix

namespace Kiyomi.Cuts

/-! # Texts cut and split at a separator -/

section Cut

variable {α : Type u} [DecidableEq α] {sep : α} {s left right : List α}

/-- The parts around the first separator. -/
def cut (sep : α) : List α → Option (List α × List α)
  | [] => none
  | a :: s =>
      if a = sep then some ([], s) else (cut sep s).map fun parts => (a :: parts.1, parts.2)

/-- The parts around the last separator. -/
def cutLast (sep : α) (s : List α) : Option (List α × List α) :=
  (cut sep s.reverse).map fun parts => (parts.2.reverse, parts.1.reverse)

theorem cut_eq_some_iff :
    cut sep s = some (left, right) ↔ s = left ++ sep :: right ∧ sep ∉ left := by
  induction s generalizing left with
  | nil => simp [cut]
  | cons a s induction =>
      rw [cut]
      split
      · rename_i same
        subst same
        constructor
        · intro parts
          cases parts
          exact ⟨rfl, List.not_mem_nil⟩
        · rintro ⟨parts, free⟩
          cases left with
          | nil => rw [(List.cons.inj parts).2]
          | cons b left => exact absurd ((List.cons.inj parts).1 ▸ List.mem_cons_self) free
      · rename_i different
        constructor
        · intro parts
          rcases Option.map_eq_some_iff.mp parts with ⟨⟨first, last⟩, found, same⟩
          cases same
          rcases induction.mp found with ⟨rest, free⟩
          exact ⟨congrArg (a :: ·) rest, by simp [Ne.symm different, free]⟩
        · rintro ⟨parts, free⟩
          cases left with
          | nil => exact absurd (List.cons.inj parts).1 different
          | cons b left =>
              rcases List.cons.inj parts with ⟨rfl, rest⟩
              rw [induction.mpr ⟨rest, fun member => free (List.mem_cons_of_mem _ member)⟩]
              rfl

theorem cut_eq_none_iff : cut sep s = none ↔ sep ∉ s := by
  constructor
  · intro nothing member
    rcases List.eq_append_cons_of_mem member with ⟨left, right, parts, free⟩
    rw [(cut_eq_some_iff).mpr ⟨parts, free⟩] at nothing
    contradiction
  · intro free
    cases parts : cut sep s with
    | none => rfl
    | some pair =>
        obtain ⟨left, right⟩ := pair
        rw [(cut_eq_some_iff.mp parts).1] at free
        exact absurd (List.mem_append_right _ List.mem_cons_self) free

theorem cutLast_eq_some_iff :
    cutLast sep s = some (left, right) ↔ s = left ++ sep :: right ∧ sep ∉ right := by
  rw [cutLast, Option.map_eq_some_iff]
  constructor
  · rintro ⟨⟨first, last⟩, found, same⟩
    cases same
    rcases (cut_eq_some_iff).mp found with ⟨parts, free⟩
    refine ⟨?_, by simpa using free⟩
    rw [← List.reverse_reverse s, parts]
    simp
  · rintro ⟨parts, free⟩
    refine ⟨(right.reverse, left.reverse), (cut_eq_some_iff).mpr ⟨?_, by simpa using free⟩, by simp⟩
    rw [parts]
    simp

theorem cutLast_eq_none_iff : cutLast sep s = none ↔ sep ∉ s := by
  rw [cutLast, Option.map_eq_none_iff, cut_eq_none_iff, List.mem_reverse]

/-- What stands before the first separator, all of it without one. -/
def before (sep : α) (s : List α) : List α := ((cut sep s).map Prod.fst).getD s

/-- What stands behind the first separator. -/
def after (sep : α) (s : List α) : List α := ((cut sep s).map Prod.snd).getD []

/-- What stands behind the last separator. -/
def afterLast (sep : α) (s : List α) : List α := ((cutLast sep s).map Prod.snd).getD []

theorem before_append (free : sep ∉ left) (right : List α) :
    before sep (left ++ sep :: right) = left := by
  rw [before, (cut_eq_some_iff).mpr ⟨rfl, free⟩]
  rfl

theorem after_append (free : sep ∉ left) (right : List α) :
    after sep (left ++ sep :: right) = right := by
  rw [after, (cut_eq_some_iff).mpr ⟨rfl, free⟩]
  rfl

theorem afterLast_append (left : List α) (free : sep ∉ right) :
    afterLast sep (left ++ sep :: right) = right := by
  rw [afterLast, (cutLast_eq_some_iff).mpr ⟨rfl, free⟩]
  rfl

theorem before_of_not_mem (free : sep ∉ s) : before sep s = s := by
  rw [before, (cut_eq_none_iff).mpr free]
  rfl

theorem after_of_not_mem (free : sep ∉ s) : after sep s = [] := by
  rw [after, (cut_eq_none_iff).mpr free]
  rfl

theorem before_append_of_not_mem (free : sep ∉ left) (right : List α) :
    before sep (left ++ right) = left ++ before sep right := by
  by_cases member : sep ∈ right
  · rcases List.eq_append_cons_of_mem member with ⟨first, last, rfl, freeFirst⟩
    rw [before_append freeFirst, ← List.append_assoc, before_append (by simp [free, freeFirst])]
  · rw [before_of_not_mem member, before_of_not_mem (by simp [free, member])]

theorem after_append_of_not_mem (free : sep ∉ left) (right : List α) :
    after sep (left ++ right) = after sep right := by
  by_cases member : sep ∈ right
  · rcases List.eq_append_cons_of_mem member with ⟨first, last, rfl, freeFirst⟩
    rw [after_append freeFirst, ← List.append_assoc, after_append (by simp [free, freeFirst])]
  · rw [after_of_not_mem member, after_of_not_mem (by simp [free, member])]

/-- Nothing but the separator is lost. -/
theorem eq_before_append (member : sep ∈ s) :
    s = before sep s ++ sep :: after sep s ∧ sep ∉ before sep s := by
  rcases List.eq_append_cons_of_mem member with ⟨left, right, rfl, free⟩
  rw [before_append free, after_append free]
  exact ⟨rfl, free⟩

theorem before_prefix (sep : α) (s : List α) : before sep s <+: s := by
  by_cases member : sep ∈ s
  · exact ⟨_, (eq_before_append member).1.symm⟩
  · rw [before_of_not_mem member]

theorem not_mem_before (sep : α) (s : List α) : sep ∉ before sep s := by
  by_cases member : sep ∈ s
  · exact (eq_before_append member).2
  · rwa [before_of_not_mem member]

theorem after_suffix (sep : α) (s : List α) : after sep s <:+ s := by
  by_cases member : sep ∈ s
  · exact ⟨before sep s ++ [sep], by simpa using (eq_before_append member).1.symm⟩
  · rw [after_of_not_mem member]
    exact List.nil_suffix

end Cut

/-! ## Splits -/

section Split

variable {α : Type u} {sep : α} {s : List α}

/-- How long the parts are, with one separator each. -/
def size (parts : List (List α)) : Nat := (parts.map fun part => part.length + 1).sum

@[simp] theorem size_nil : size ([] : List (List α)) = 0 := rfl

@[simp] theorem size_cons (part : List α) (parts : List (List α)) :
    size (part :: parts) = part.length + 1 + size parts := rfl

@[simp] theorem size_append (left right : List (List α)) :
    size (left ++ right) = size left + size right := by
  rw [size, List.map_append, List.sum_append]
  rfl

theorem size_map_le {transform : List α → List α}
    (shorter : ∀ part, (transform part).length ≤ part.length) (parts : List (List α)) :
    size (parts.map transform) ≤ size parts := by
  induction parts with
  | nil => exact le_rfl
  | cons part parts induction =>
      have := shorter part
      rw [List.map_cons, size_cons, size_cons]
      omega

theorem size_filter_le (keep : List α → Bool) (parts : List (List α)) :
    size (parts.filter keep) ≤ size parts := by
  induction parts with
  | nil => exact le_rfl
  | cons part parts induction =>
      rw [List.filter_cons]
      split
      · rw [size_cons, size_cons]
        omega
      · rw [size_cons]
        omega

theorem length_intercalate (sep : α) {parts : List (List α)} (nonempty : parts ≠ []) :
    ([sep].intercalate parts).length + 1 = size parts := by
  induction parts with
  | nil => contradiction
  | cons part parts induction =>
      by_cases last : parts = []
      · subst last
        simp
      · have rest := induction last
        rw [List.intercalate_cons_of_ne_nil last, size_cons, ← rest]
        simp only [List.length_append, List.length_cons, List.length_nil]
        omega

theorem mem_intercalate {parts : List (List α)} {a : α}
    (member : a ∈ [sep].intercalate parts) : a = sep ∨ ∃ part ∈ parts, a ∈ part := by
  induction parts with
  | nil => exact absurd member List.not_mem_nil
  | cons part parts induction =>
      by_cases last : parts = []
      · subst last
        rw [List.intercalate_singleton] at member
        exact .inr ⟨part, List.mem_cons_self, member⟩
      · rw [List.intercalate_cons_of_ne_nil last, List.mem_append, List.mem_append,
          List.mem_singleton] at member
        rcases member with (inFirst | isSep) | inRest
        · exact .inr ⟨part, List.mem_cons_self, inFirst⟩
        · exact .inl isSep
        · rcases induction inRest with isSep | ⟨other, isPart, inOther⟩
          · exact .inl isSep
          · exact .inr ⟨other, List.mem_cons_of_mem _ isPart, inOther⟩

theorem infix_intercalate {part : List α} {parts : List (List α)} (member : part ∈ parts) :
    part <:+: [sep].intercalate parts := by
  induction parts with
  | nil => exact absurd member List.not_mem_nil
  | cons first parts induction =>
      by_cases last : parts = []
      · subst last
        rw [List.mem_singleton.mp member, List.intercalate_singleton]
      · rw [List.intercalate_cons_of_ne_nil last]
        rcases List.mem_cons.mp member with rfl | inRest
        · rw [List.append_assoc]
          exact (List.prefix_append _ _).isInfix
        · exact (induction inRest).trans (List.suffix_append _ _).isInfix

theorem intercalate_concat (sep : α) {parts : List (List α)} (nonempty : parts ≠ [])
    (last : List α) :
    [sep].intercalate (parts ++ [last]) = [sep].intercalate parts ++ sep :: last := by
  induction parts with
  | nil => contradiction
  | cons part parts induction =>
      rcases parts with _ | ⟨next, parts⟩
      · simp
      · rw [List.cons_append, List.intercalate_cons_of_ne_nil (by simp),
          induction (List.cons_ne_nil next parts), List.intercalate_cons_cons]
        simp

theorem map_intercalate {β : Type v} (f : α → β) (sep : α) (parts : List (List α)) :
    ([sep].intercalate parts).map f = [f sep].intercalate (parts.map (List.map f)) := by
  induction parts with
  | nil => rfl
  | cons part parts induction =>
      rcases parts with _ | ⟨next, parts⟩
      · simp
      · rw [List.intercalate_cons_cons, List.map_append, List.map_append, induction]
        simp

variable [BEq α] [LawfulBEq α]

theorem size_splitOn (sep : α) (s : List α) : size (s.splitOn sep) = s.length + 1 := by
  rw [← length_intercalate sep (List.splitOn_ne_nil sep s), List.intercalate_splitOn]

theorem not_mem_of_mem_splitOn {part : List α} (member : part ∈ s.splitOn sep) : sep ∉ part := by
  induction s generalizing part with
  | nil =>
      rw [List.splitOn_nil, List.mem_singleton] at member
      rw [member]
      exact List.not_mem_nil
  | cons a s induction =>
      rw [List.splitOn_cons_eq_if_modifyHead] at member
      split at member
      · rcases List.mem_cons.mp member with rfl | inRest
        · exact List.not_mem_nil
        · exact induction inRest
      · rename_i different
        cases rest : s.splitOn sep with
        | nil => exact absurd rest (List.splitOn_ne_nil sep s)
        | cons first parts =>
            rw [rest] at member induction
            rcases List.mem_cons.mp member with rfl | inRest
            · have free := induction List.mem_cons_self
              simp only [List.mem_cons, not_or]
              exact ⟨fun same => different (by simp [same]), free⟩
            · exact induction (List.mem_cons_of_mem _ inRest)

theorem count_intercalate (sep : α) {parts : List (List α)} (nonempty : parts ≠ []) :
    ([sep].intercalate parts).count sep + 1 = (parts.map fun part => part.count sep + 1).sum := by
  induction parts with
  | nil => contradiction
  | cons part parts induction =>
      by_cases last : parts = []
      · subst last
        simp
      · have rest := induction last
        rw [List.intercalate_cons_of_ne_nil last, List.count_append, List.count_append,
          List.count_singleton_self, List.map_cons, List.sum_cons]
        omega

omit [LawfulBEq α] in
theorem length_le_sum (sep : α) (parts : List (List α)) :
    parts.length ≤ (parts.map fun part => part.count sep + 1).sum := by
  induction parts with
  | nil => exact Nat.zero_le _
  | cons part parts induction =>
      rw [List.map_cons, List.sum_cons, List.length_cons]
      omega

theorem not_mem_of_sum {parts : List (List α)}
    (counted : (parts.map fun part => part.count sep + 1).sum = parts.length) :
    ∀ part ∈ parts, sep ∉ part := by
  induction parts with
  | nil => simp
  | cons part parts induction =>
      have rest := length_le_sum sep parts
      rw [List.map_cons, List.sum_cons, List.length_cons] at counted
      refine List.forall_mem_cons.mpr ⟨?_, induction (by omega)⟩
      rw [← List.count_eq_zero]
      omega

theorem sum_of_not_mem {parts : List (List α)} (free : ∀ part ∈ parts, sep ∉ part) :
    (parts.map fun part => part.count sep + 1).sum = parts.length := by
  induction parts with
  | nil => rfl
  | cons part parts induction =>
      rcases List.forall_mem_cons.mp free with ⟨first, rest⟩
      rw [List.map_cons, List.sum_cons, List.length_cons, induction rest,
        List.count_eq_zero.mpr first]
      omega

/-- Joined texts are split where each of them is, too. -/
theorem splitOn_join (sep : α) {parts : List (List α)} (nonempty : parts ≠ []) :
    ([sep].intercalate parts).splitOn sep = parts.flatMap (·.splitOn sep) := by
  induction parts with
  | nil => contradiction
  | cons part parts induction =>
      by_cases last : parts = []
      · subst last
        rw [List.intercalate_singleton, List.flatMap_singleton]
      · rw [List.intercalate_cons_of_ne_nil last, List.append_assoc, List.singleton_append,
          List.splitOn_append_cons_self, induction last, List.flatMap_cons]

/-- A text is made in one way of so many parts, where some such parts have no separator. -/
theorem eq_of_intercalate {parts parts' : List (List α)} (nonempty : parts ≠ [])
    (lengths : parts.length = parts'.length) (free : ∀ part ∈ parts, sep ∉ part)
    (same : [sep].intercalate parts = [sep].intercalate parts') : parts = parts' := by
  have nonempty' : parts' ≠ [] := by
    rintro rfl
    exact nonempty (List.length_eq_zero_iff.mp lengths)
  have free' : ∀ part ∈ parts', sep ∉ part := by
    refine not_mem_of_sum ?_
    rw [← count_intercalate sep nonempty', ← same, count_intercalate sep nonempty,
      sum_of_not_mem free, lengths]
  rw [← List.splitOn_intercalate sep free nonempty, same,
    List.splitOn_intercalate sep free' nonempty']

theorem infix_of_mem_splitOn {part : List α} (member : part ∈ s.splitOn sep) : part <:+: s := by
  have inside := @infix_intercalate α sep part _ member
  rwa [List.intercalate_splitOn] at inside

end Split

/-! ## Longer patterns -/

section Pattern

variable {α : Type u} {sep : α} {pattern before after s : List α}

/-- A pattern without the separator ends behind the last one. -/
theorem suffix_append_cons (free : sep ∉ pattern) (ends : pattern <:+ before ++ sep :: after) :
    pattern <:+ after := by
  rcases List.suffix_or_suffix_of_suffix ends (List.suffix_append before (sep :: after)) with
    inside | around
  · rcases List.suffix_cons_iff.mp inside with rfl | behind
    · exact absurd List.mem_cons_self free
    · exact behind
  · exact absurd (around.subset List.mem_cons_self) free

/-- No two separators meet in a text of parts that are not empty. -/
theorem not_double_infix {parts : List (List α)} (proper : ∀ part ∈ parts, part ≠ [] ∧ sep ∉ part) :
    ¬[sep, sep] <:+: [sep].intercalate parts := by
  induction parts with
  | nil => simp
  | cons part parts induction =>
      rcases List.forall_mem_cons.mp proper with ⟨first, rest⟩
      rcases parts with _ | ⟨next, parts⟩
      · rw [List.intercalate_singleton]
        exact fun inside => first.2 (inside.subset List.mem_cons_self)
      · rw [List.intercalate_cons_cons, List.append_assoc, List.singleton_append,
          List.infix_append_iff_ne_nil]
        rintro (inPart | inRest | ⟨start, rest', nonempty, _, split, left, _⟩)
        · exact first.2 (inPart.subset List.mem_cons_self)
        · rcases List.infix_cons_iff.mp inRest with meets | behind
          · rcases rest next List.mem_cons_self with ⟨nonempty, free⟩
            rcases next with _ | ⟨a, next⟩
            · contradiction
            · rw [List.intercalate_cons_cons_left, List.cons_prefix_cons, List.cons_prefix_cons]
                at meets
              exact free (meets.2.1 ▸ List.mem_cons_self)
          · exact induction rest behind
        · have inStart : sep ∈ start := by
            rcases start with _ | ⟨a, start⟩
            · contradiction
            · rw [(List.cons.inj split).1]
              exact List.mem_cons_self
          exact first.2 (left.subset inStart)

variable [DecidableEq α]

/-- The parts around the first place where a text occurs. -/
def cutText (text : List α) : List α → Option (List α × List α)
  | [] => if text = [] then some ([], []) else none
  | a :: s =>
      if text.isPrefixOf (a :: s) then some ([], (a :: s).drop text.length)
      else (cutText text s).map fun parts => (a :: parts.1, parts.2)

theorem cutText_eq_none (absent : ¬pattern <:+: s) : cutText pattern s = none := by
  induction s with
  | nil =>
      rw [cutText, if_neg]
      rintro rfl
      exact absent List.nil_infix
  | cons a s induction =>
      rw [List.infix_cons_iff, not_or] at absent
      rw [cutText, if_neg (by simpa using absent.1), induction absent.2]
      rfl

end Pattern

end Kiyomi.Cuts
