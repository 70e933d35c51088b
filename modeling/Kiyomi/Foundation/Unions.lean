import Mathlib.Data.List.Induction
import Mathlib.Data.List.Nodup
import Mathlib.Data.List.Perm.Basic

namespace Kiyomi

/-! # Unions of lists

The union of several lists has their entries one after another, without those whose key
has come before. Which entries it has and in which order depends on the order of the
lists, unless all of them go on from what is there in the same way. -/

variable {α β κ : Type} [DecidableEq κ] (key : α → κ)

/-- The entries with keys that have not been seen, the first one of every key. -/
def unseen (seen : List κ) : List α → List α
  | [] => []
  | entry :: entries =>
      if key entry ∈ seen then unseen seen entries
      else entry :: unseen (key entry :: seen) entries

/-- One of two lists begins with the other. -/
def Chained (left right : List α) : Prop := left <+: right ∨ right <+: left

variable {key} {seen : List κ} {lists : β → List α}

/-- Only which keys have been seen matters. -/
theorem unseen_congr {seen' : List κ} (same : ∀ k, k ∈ seen ↔ k ∈ seen') (entries : List α) :
    unseen key seen entries = unseen key seen' entries := by
  induction entries generalizing seen seen' with
  | nil => rfl
  | cons entry entries induction =>
      rw [unseen, unseen, induction same]
      have more : ∀ k, k ∈ key entry :: seen ↔ k ∈ key entry :: seen' := by simp [same]
      rw [induction more]
      simp only [same]

theorem unseen_more (more : List κ) (entries : List α) :
    unseen key (more ++ seen) entries =
      (unseen key seen entries).filter fun entry => key entry ∉ more := by
  induction entries generalizing seen with
  | nil => rfl
  | cons entry entries induction =>
      have moved : ∀ k, k ∈ more ++ key entry :: seen ↔ k ∈ key entry :: (more ++ seen) := by
        simp [or_left_comm]
      rw [unseen, unseen]
      by_cases isSeen : key entry ∈ seen
      · rw [if_pos (List.mem_append_right _ isSeen), if_pos isSeen, induction]
      · rw [if_neg isSeen]
        by_cases isMore : key entry ∈ more
        · have absorbed : ∀ k, k ∈ more ++ seen ↔ k ∈ more ++ key entry :: seen := by
            intro k
            simp only [List.mem_append, List.mem_cons]
            grind
          rw [if_pos (List.mem_append_left _ isMore), unseen_congr absorbed, induction,
            List.filter_cons_of_neg (by simpa using isMore)]
        · rw [if_neg (by simp [isMore, isSeen]), List.filter_cons_of_pos (by simpa using isMore),
            ← induction, unseen_congr moved]

theorem unseen_append (front back : List α) :
    unseen key seen (front ++ back) =
      unseen key seen front ++ unseen key ((unseen key seen front).map key ++ seen) back := by
  induction front generalizing seen with
  | nil => rfl
  | cons entry front induction =>
      rw [List.cons_append, unseen, unseen]
      split
      · exact induction
      · rw [induction, List.cons_append, List.map_cons]
        congr 2
        exact unseen_congr (by simp [or_left_comm]) back

theorem unseen_distinct (entries : List α) :
    ((unseen key seen entries).map key).Nodup ∧ ∀ entry ∈ unseen key seen entries, key entry ∉ seen := by
  induction entries generalizing seen with
  | nil => simp [unseen]
  | cons entry entries induction =>
      rw [unseen]
      split
      · exact induction
      · rename_i isNew
        have later := @induction (key entry :: seen)
        refine ⟨?_, List.forall_mem_cons.mpr ⟨isNew, fun other member inSeen => ?_⟩⟩
        · rw [List.map_cons, List.nodup_cons, List.mem_map]
          refine ⟨fun ⟨other, member, same⟩ => later.2 other member ?_, later.1⟩
          exact same ▸ List.mem_cons_self
        · exact later.2 other member (List.mem_cons_of_mem _ inSeen)

theorem unseen_eq_nil_iff {entries : List α} :
    unseen key seen entries = [] ↔ ∀ entry ∈ entries, key entry ∈ seen := by
  induction entries with
  | nil => simp [unseen]
  | cons entry entries induction =>
      rw [unseen, List.forall_mem_cons]
      by_cases isSeen : key entry ∈ seen
      · rw [if_pos isSeen, induction, and_iff_right isSeen]
      · rw [if_neg isSeen]
        simp [isSeen]

theorem mem_map_unseen {k : κ} {entries : List α} (isNew : k ∉ seen) :
    k ∈ (unseen key seen entries).map key ↔ k ∈ entries.map key := by
  induction entries generalizing seen with
  | nil => rfl
  | cons entry entries induction =>
      rw [unseen]
      by_cases same : k = key entry
      · rw [if_neg (same ▸ isNew)]
        simp [same]
      · have later : k ∉ key entry :: seen := by simp [same, isNew]
        split
        · rw [induction isNew]
          simp [same]
        · rw [List.map_cons, List.mem_cons, induction later]
          simp [same]

/-- A list adds nothing to a union where all of its keys are there. -/
theorem length_unseen_append_le_iff {front back : List α} :
    (unseen key [] (front ++ back)).length ≤ (unseen key [] front).length ↔
      ∀ entry ∈ back, key entry ∈ front.map key := by
  have added : (unseen key [] (front ++ back)).length ≤ (unseen key [] front).length ↔
      unseen key ((unseen key [] front).map key ++ []) back = [] := by
    rw [unseen_append, List.length_append, ← List.length_eq_zero_iff]
    omega
  simp only [added, unseen_eq_nil_iff, List.append_nil, mem_map_unseen List.not_mem_nil]

/-- What a union has comes from one of its lists, where it is new as well. -/
theorem mem_of_unseen_flatMap {sources : List β} {entry : α}
    (member : entry ∈ unseen key seen (sources.flatMap lists)) :
    ∃ source ∈ sources, entry ∈ unseen key seen (lists source) := by
  induction sources with
  | nil => exact absurd member List.not_mem_nil
  | cons first sources induction =>
      rw [List.flatMap_cons, unseen_append, unseen_more, List.mem_append, List.mem_filter] at member
      rcases member with here | ⟨later, _⟩
      · exact ⟨first, List.mem_cons_self, here⟩
      · rcases induction later with ⟨source, isSource, new⟩
        exact ⟨source, List.mem_cons_of_mem _ isSource, new⟩

/-- What two lists have that begin a third one. -/
theorem Chained.of_begins {left right whole : List α} (first : left <+: whole)
    (second : right <+: whole) : Chained left right :=
  List.prefix_or_prefix_of_prefix first second

/-- Adding a list that begins like what is there leaves the longer one of the two. -/
theorem append_new {left right : List α} (distinct : (right.map key).Nodup)
    (chained : Chained left right) :
    left ++ (right.filter fun entry => key entry ∉ left.map key) = left ∧ right <+: left ∨
      left ++ (right.filter fun entry => key entry ∉ left.map key) = right ∧ left <+: right := by
  rcases chained with ⟨rest, rfl⟩ | ⟨rest, rfl⟩
  · right
    refine ⟨?_, List.prefix_append _ _⟩
    rw [List.map_append, List.nodup_append] at distinct
    rw [List.filter_append, List.filter_eq_nil_iff.mpr, List.nil_append, List.filter_eq_self.mpr]
    · intro entry member
      simp only [decide_eq_true_eq]
      exact fun before => distinct.2.2 _ before _ (List.mem_map_of_mem member) rfl
    · intro entry member
      simpa using ⟨entry, member, rfl⟩
  · left
    refine ⟨?_, List.prefix_append _ _⟩
    rw [List.filter_eq_nil_iff.mpr, List.append_nil]
    intro entry member
    have isOld : key entry ∈ (right ++ rest).map key :=
      List.mem_map_of_mem (List.mem_append_left _ member)
    simpa only [decide_eq_true_eq, not_not] using isOld

/-- The union of lists that begin alike is the longest of them. -/
theorem unseen_flatMap_of_chained {sources : List β}
    (chained : ∀ left ∈ sources, ∀ right ∈ sources,
      Chained (unseen key seen (lists left)) (unseen key seen (lists right))) :
    (∀ source ∈ sources,
      unseen key seen (lists source) <+: unseen key seen (sources.flatMap lists)) ∧
    (unseen key seen (sources.flatMap lists) = [] ∨ ∃ source ∈ sources,
      unseen key seen (sources.flatMap lists) = unseen key seen (lists source)) := by
  induction sources using List.reverseRecOn with
  | nil => exact ⟨fun _ member => (nomatch member), .inl rfl⟩
  | append_singleton sources last induction =>
      have before := induction fun left isLeft right isRight =>
        chained left (List.mem_append_left _ isLeft) right (List.mem_append_left _ isRight)
      have isLast : last ∈ sources ++ [last] := List.mem_append_right _ List.mem_cons_self
      have joined : unseen key seen ((sources ++ [last]).flatMap lists) =
          unseen key seen (sources.flatMap lists) ++ (unseen key seen (lists last)).filter
            fun entry => key entry ∉ (unseen key seen (sources.flatMap lists)).map key := by
        rw [List.flatMap_append, List.flatMap_singleton, unseen_append, unseen_more]
      have alike : Chained (unseen key seen (sources.flatMap lists))
          (unseen key seen (lists last)) := by
        rcases before.2 with none | ⟨source, member, longest⟩
        · exact .inl (none ▸ List.nil_prefix)
        · exact longest ▸ chained source (List.mem_append_left _ member) last isLast
      rw [joined]
      rcases append_new (unseen_distinct (lists last)).1 alike with ⟨same, below⟩ | ⟨same, below⟩
      · rw [same]
        refine ⟨fun source member => ?_, before.2.imp id fun ⟨source, member, longest⟩ =>
          ⟨source, List.mem_append_left _ member, longest⟩⟩
        rcases List.mem_append.mp member with early | late
        · exact before.1 source early
        · exact List.mem_singleton.mp late ▸ below
      · rw [same]
        refine ⟨fun source member => ?_, .inr ⟨last, isLast, rfl⟩⟩
        rcases List.mem_append.mp member with early | late
        · exact (before.1 source early).trans below
        · exact List.mem_singleton.mp late ▸ List.prefix_refl _

/-- The union does not depend on the order of the lists exactly if of any two lists one
begins with the other. -/
theorem unseen_perm_iff (sources : List β) :
    (∀ first second : List β, first.Perm sources → second.Perm sources →
      unseen key seen (first.flatMap lists) = unseen key seen (second.flatMap lists)) ↔
    ∀ left ∈ sources, ∀ right ∈ sources,
      Chained (unseen key seen (lists left)) (unseen key seen (lists right)) := by
  constructor
  · intro same left isLeft right isRight
    have leads : ∀ source ∈ sources, ∃ order : List β, order.Perm sources ∧
        unseen key seen (lists source) <+: unseen key seen (order.flatMap lists) := by
      intro source member
      rcases List.append_of_mem member with ⟨front, back, rfl⟩
      refine ⟨source :: (front ++ back), List.perm_middle.symm, ?_⟩
      rw [List.flatMap_cons, unseen_append]
      exact List.prefix_append _ _
    rcases leads left isLeft with ⟨first, isFirst, before⟩
    rcases leads right isRight with ⟨second, isSecond, after⟩
    rw [same first second isFirst isSecond] at before
    exact .of_begins before after
  · intro chained
    have below : ∀ first second : List β, first.Perm sources → second.Perm sources →
        unseen key seen (first.flatMap lists) <+: unseen key seen (second.flatMap lists) := by
      intro first second isFirst isSecond
      have alike : ∀ {order : List β}, order.Perm sources → ∀ left ∈ order, ∀ right ∈ order,
          Chained (unseen key seen (lists left)) (unseen key seen (lists right)) :=
        fun perm left isLeft right isRight =>
          chained left (perm.subset isLeft) right (perm.subset isRight)
      rcases (unseen_flatMap_of_chained (alike isFirst)).2 with none | ⟨source, member, longest⟩
      · exact none ▸ List.nil_prefix
      · rw [longest]
        exact (unseen_flatMap_of_chained (alike isSecond)).1 source
          (isSecond.symm.subset (isFirst.subset member))
    intro first second isFirst isSecond
    exact (below first second isFirst isSecond).eq_of_length_le
      (below second first isSecond isFirst).length_le

end Kiyomi
