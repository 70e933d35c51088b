import Mathlib.Data.List.Basic

namespace Kiyomi.Words

/-! # Replacing the words of a text

A word is a run of elements of one class that is as long as it can be; it may be empty. -/

variable {α : Type u} {inClass : α → Bool} {f g : List α → List α} {word s : List α}

/-- Replace the words, of the first of which there are elements already. -/
def replaceFrom (inClass : α → Bool) (f : List α → List α) (word : List α) : List α → List α
  | [] => f word
  | a :: s =>
      if inClass a then replaceFrom inClass f (word ++ [a]) s
      else f word ++ a :: replaceFrom inClass f [] s

def wordsFrom (inClass : α → Bool) (word : List α) : List α → List (List α)
  | [] => [word]
  | a :: s =>
      if inClass a then wordsFrom inClass (word ++ [a]) s
      else word :: wordsFrom inClass [] s

def replace (inClass : α → Bool) (f : List α → List α) (s : List α) : List α :=
  replaceFrom inClass f [] s

def words (inClass : α → Bool) (s : List α) : List (List α) := wordsFrom inClass [] s

theorem replaceFrom_congr (agree : ∀ w ∈ wordsFrom inClass word s, f w = g w) :
    replaceFrom inClass f word s = replaceFrom inClass g word s := by
  induction s generalizing word with
  | nil => exact agree word List.mem_cons_self
  | cons a s induction =>
      rw [wordsFrom] at agree
      rw [replaceFrom, replaceFrom]
      split
      · rename_i accepted
        rw [if_pos accepted] at agree
        exact induction agree
      · rename_i other
        rw [if_neg other] at agree
        rcases List.forall_mem_cons.mp agree with ⟨first, rest⟩
        rw [first, induction rest]

/-- The elements of a word are those of its class. -/
theorem all_of_mem_wordsFrom (all : word.all inClass = true) {w : List α}
    (member : w ∈ wordsFrom inClass word s) : w.all inClass = true := by
  induction s generalizing word with
  | nil => rwa [List.mem_singleton.mp member]
  | cons a s induction =>
      rw [wordsFrom] at member
      split at member
      · rename_i accepted
        refine induction ?_ member
        rw [List.all_append, all, List.all_cons, accepted]
        rfl
      · rcases List.mem_cons.mp member with rfl | later
        · exact all
        · exact induction rfl later

theorem mem_of_mem_wordsFrom {w : List α} {a : α} (isWord : w ∈ wordsFrom inClass word s)
    (member : a ∈ w) : a ∈ word ∨ a ∈ s := by
  induction s generalizing word with
  | nil => exact .inl (List.mem_singleton.mp isWord ▸ member)
  | cons b s induction =>
      rw [wordsFrom] at isWord
      split at isWord
      · rcases induction isWord with inWord | later
        · rcases List.mem_append.mp inWord with first | last
          · exact .inl first
          · rw [List.mem_singleton.mp last]
            exact .inr List.mem_cons_self
        · exact .inr (List.mem_cons_of_mem b later)
      · rcases List.mem_cons.mp isWord with rfl | other
        · exact .inl member
        · rcases induction other with nothing | later
          · contradiction
          · exact .inr (List.mem_cons_of_mem b later)

theorem mem_of_mem_words {w : List α} {a : α} (isWord : w ∈ words inClass s) (member : a ∈ w) :
    a ∈ s :=
  (mem_of_mem_wordsFrom isWord member).resolve_left List.not_mem_nil

theorem mem_replaceFrom {a : α} (member : a ∈ replaceFrom inClass f word s) :
    a ∈ s ∨ ∃ w ∈ wordsFrom inClass word s, a ∈ f w := by
  induction s generalizing word with
  | nil => exact .inr ⟨word, List.mem_singleton_self word, member⟩
  | cons b s induction =>
      rw [replaceFrom] at member
      rw [wordsFrom]
      split
      · rename_i accepted
        rw [if_pos accepted] at member
        exact (induction member).imp_left (List.mem_cons_of_mem b)
      · rename_i other
        rw [if_neg other, List.mem_append, List.mem_cons] at member
        rcases member with first | same | later
        · exact .inr ⟨word, List.mem_cons_self, first⟩
        · exact .inl (same ▸ List.mem_cons_self)
        · rcases induction later with inText | ⟨w, isWord, inWord⟩
          · exact .inl (List.mem_cons_of_mem b inText)
          · exact .inr ⟨w, List.mem_cons_of_mem word isWord, inWord⟩

/-- A replaced text has no elements but those of the text and of the new words. -/
theorem mem_replace {a : α} (member : a ∈ replace inClass f s) :
    a ∈ s ∨ ∃ w ∈ words inClass s, a ∈ f w := mem_replaceFrom member

/-! ## When two replacements agree -/

/-- The elements that separate words. -/
def separators (inClass : α → Bool) (s : List α) : Nat := s.countP fun a => !inClass a

theorem separators_eq_zero_iff : separators inClass s = 0 ↔ s.all inClass = true := by
  rw [separators, List.countP_eq_zero, List.all_eq_true]
  simp

theorem separators_replaceFrom_cons {a : α} (other : ¬inClass a = true) :
    separators inClass (f word ++ a :: replaceFrom inClass f [] s) =
      separators inClass (f word) + 1 + separators inClass (replaceFrom inClass f [] s) := by
  have counted : (!inClass a) = true := by simpa using other
  rw [separators, List.countP_append, List.countP_cons, if_pos counted, separators, separators]
  omega

/-- Replacements that add separators cannot be made up for. -/
theorem separators_le (either : ∀ w ∈ wordsFrom inClass word s,
    f w = g w ∨ (g w).all inClass = true) :
    separators inClass (replaceFrom inClass g word s) ≤
        separators inClass (replaceFrom inClass f word s) ∧
      (separators inClass (replaceFrom inClass g word s) =
          separators inClass (replaceFrom inClass f word s) →
        ∀ w ∈ wordsFrom inClass word s, f w = g w ∨ (f w).all inClass = true) := by
  have one {w : List α} (isOne : f w = g w ∨ (g w).all inClass = true) :
      separators inClass (g w) ≤ separators inClass (f w) ∧
        (separators inClass (g w) = separators inClass (f w) →
          f w = g w ∨ (f w).all inClass = true) := by
    rcases isOne with same | free
    · rw [same]
      exact ⟨Nat.le_refl _, fun _ => .inl rfl⟩
    · rw [separators_eq_zero_iff.mpr free]
      exact ⟨Nat.zero_le _, fun zero => .inr (separators_eq_zero_iff.mp zero.symm)⟩
  induction s generalizing word with
  | nil =>
      rcases one (either word List.mem_cons_self) with ⟨less, equal⟩
      exact ⟨less, fun same => by simpa [wordsFrom] using equal same⟩
  | cons a s induction =>
      rw [wordsFrom] at either ⊢
      rw [replaceFrom, replaceFrom]
      split
      · rename_i accepted
        rw [if_pos accepted] at either
        exact induction either
      · rename_i other
        rw [if_neg other] at either
        rcases List.forall_mem_cons.mp either with ⟨first, rest⟩
        rcases one first with ⟨less, equal⟩
        rcases induction rest with ⟨lessLater, equalLater⟩
        rw [separators_replaceFrom_cons other, separators_replaceFrom_cons other]
        refine ⟨by omega, fun same => List.forall_mem_cons.mpr ⟨equal (by omega), ?_⟩⟩
        exact equalLater (by omega)

theorem eq_of_append_cons {a : α} {left right rest rest' : List α} (other : ¬inClass a = true)
    (leftAll : left.all inClass = true) (rightAll : right.all inClass = true)
    (same : left ++ a :: rest = right ++ a :: rest') : left = right := by
  have cut {t u : List α} (all : t.all inClass = true) :
      (t ++ a :: u).takeWhile inClass = t := by
    rw [List.takeWhile_append_of_pos (List.all_eq_true.mp all), List.takeWhile_cons_of_neg other,
      List.append_nil]
  rw [← cut (u := rest) leftAll, same, cut rightAll]

/-- Words that stay words are read back from the text. -/
theorem eq_of_replaceFrom (either : ∀ w ∈ wordsFrom inClass word s,
    f w = g w ∨ (f w).all inClass = true ∧ (g w).all inClass = true)
    (same : replaceFrom inClass f word s = replaceFrom inClass g word s) :
    ∀ w ∈ wordsFrom inClass word s, f w = g w := by
  induction s generalizing word with
  | nil =>
      rw [replaceFrom, replaceFrom] at same
      simpa [wordsFrom] using same
  | cons a s induction =>
      rw [wordsFrom] at either ⊢
      rw [replaceFrom, replaceFrom] at same
      split
      · rename_i accepted
        rw [if_pos accepted] at either
        rw [if_pos accepted, if_pos accepted] at same
        exact induction either same
      · rename_i other
        rw [if_neg other] at either
        rw [if_neg other, if_neg other] at same
        rcases List.forall_mem_cons.mp either with ⟨first, rest⟩
        have equal : f word = g word := by
          rcases first with equal | ⟨left, right⟩
          · exact equal
          · exact eq_of_append_cons other left right same
        rw [equal] at same
        exact List.forall_mem_cons.mpr
          ⟨equal, induction rest (List.cons.inj (List.append_cancel_left same)).2⟩

/-- Where one replacement keeps every word at which they differ, the texts are the same only if the
replacements are. -/
theorem replace_eq_iff (kept : ∀ w ∈ words inClass s, f w = g w ∨ g w = w) :
    replace inClass f s = replace inClass g s ↔ ∀ w ∈ words inClass s, f w = g w := by
  refine ⟨fun same => ?_, replaceFrom_congr⟩
  have either : ∀ w ∈ words inClass s, f w = g w ∨ (g w).all inClass = true := by
    intro w member
    refine (kept w member).imp_right fun isKept => ?_
    rw [isKept]
    exact all_of_mem_wordsFrom rfl member
  have counts := congrArg (separators inClass) same
  have both := (separators_le either).2 counts.symm
  refine eq_of_replaceFrom (fun w member => ?_) same
  rcases either w member with equal | right
  · exact .inl equal
  · exact (both w member).imp_right fun left => ⟨left, right⟩

end Kiyomi.Words
