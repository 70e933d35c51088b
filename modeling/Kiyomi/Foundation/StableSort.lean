import Mathlib.Data.List.Sort

namespace Kiyomi.StableSort

/-! # When two orders sort a list alike

A stable sort compares an element with later ones only, so it sees the order on the
pairs of the list in the direction in which they stand there. -/

variable {α : Type u} {r s : α → α → Prop} [DecidableRel r] [DecidableRel s]

theorem orderedInsert_congr {a : α} {l : List α} (agree : ∀ b ∈ l, r a b ↔ s a b) :
    l.orderedInsert r a = l.orderedInsert s a := by
  induction l with
  | nil => rfl
  | cons b l induction =>
      rw [List.forall_mem_cons] at agree
      simp only [List.orderedInsert_cons, agree.1, induction agree.2]

theorem insertionSort_congr {l : List α} (agree : l.Pairwise fun a b => r a b ↔ s a b) :
    l.insertionSort r = l.insertionSort s := by
  induction l with
  | nil => rfl
  | cons a l induction =>
      rw [List.pairwise_cons] at agree
      rw [List.insertionSort_cons, List.insertionSort_cons, induction agree.2]
      exact orderedInsert_congr fun b member =>
        agree.1 b ((List.mem_insertionSort s).mp member)

/-- A pair keeps its places exactly when it is in order. -/
theorem pair_sublist_iff [Std.Total r] [IsTrans α r] {l : List α} {a b : α}
    (placed : [a, b].Sublist l) : [a, b].Sublist (l.insertionSort r) ↔ r a b := by
  constructor
  · intro kept
    exact List.pairwise_iff_forall_sublist.mp (List.pairwise_insertionSort r l) kept
  · intro ordered
    exact List.pair_sublist_insertionSort ordered placed

theorem insertionSort_eq_iff [Std.Total r] [IsTrans α r] [Std.Total s] [IsTrans α s]
    {l : List α} :
    l.insertionSort r = l.insertionSort s ↔ l.Pairwise fun a b => r a b ↔ s a b := by
  refine ⟨fun same => ?_, insertionSort_congr⟩
  rw [List.pairwise_iff_forall_sublist]
  intro a b placed
  rw [← pair_sublist_iff (r := r) placed, ← pair_sublist_iff (r := s) placed, same]

/-! ## Strict comparisons

A comparison that is a strict total order on the elements of a list leaves the sort no
choice: every order in which the elements come has the same result. -/

/-- The comparison is a strict total order on the elements of the list. -/
structure StrictTotalOn (less : α → α → Bool) (l : List α) : Prop where
  irrefl : ∀ a ∈ l, less a a = false
  trans : ∀ a ∈ l, ∀ b ∈ l, ∀ c ∈ l, less a b = true → less b c = true → less a c = true
  total : ∀ a ∈ l, ∀ b ∈ l, a ≠ b → less a b = true ∨ less b a = true

namespace StrictTotalOn

variable {less : α → α → Bool} {l : List α}

theorem mono (order : StrictTotalOn less l) {m : List α} (subset : m ⊆ l) :
    StrictTotalOn less m where
  irrefl a aMember := order.irrefl a (subset aMember)
  trans a aMember b bMember c cMember :=
    order.trans a (subset aMember) b (subset bMember) c (subset cMember)
  total a aMember b bMember := order.total a (subset aMember) b (subset bMember)

theorem map (order : StrictTotalOn less l) {β : Type v} {lessThere : β → β → Bool} {f : α → β}
    (same : ∀ a ∈ l, ∀ b ∈ l, lessThere (f a) (f b) = less a b) :
    StrictTotalOn lessThere (l.map f) where
  irrefl := by
    rw [List.forall_mem_map]
    intro a aMember
    rw [same a aMember a aMember]
    exact order.irrefl a aMember
  trans := by
    simp only [List.forall_mem_map]
    intro a aMember b bMember c cMember
    rw [same a aMember b bMember, same b bMember c cMember, same a aMember c cMember]
    exact order.trans a aMember b bMember c cMember
  total := by
    simp only [List.forall_mem_map]
    intro a aMember b bMember different
    rw [same a aMember b bMember, same b bMember a aMember]
    exact order.total a aMember b bMember fun equal => different (congrArg f equal)

theorem asymm (order : StrictTotalOn less l) {a b : α} (aMember : a ∈ l) (bMember : b ∈ l)
    (before : less a b = true) : less b a = false := by
  rw [← Bool.not_eq_true]
  intro after
  have cycle := order.trans a aMember b bMember a aMember before after
  rw [order.irrefl a aMember] at cycle
  contradiction

/-- The sort is in order, although the comparison need not be one outside the list. -/
theorem pairwise_insertionSort (order : StrictTotalOn less l) :
    (l.insertionSort fun a b => !less b a).Pairwise fun a b => less b a = false := by
  let before : {a // a ∈ l} → {a // a ∈ l} → Prop := fun a b => less b.1 a.1 = false
  have isTotal : Std.Total before := by
    refine ⟨fun a b => ?_⟩
    cases after : less b.1 a.1 with
    | false => exact .inl after
    | true => exact .inr (order.asymm b.2 a.2 after)
  have isTrans : IsTrans _ before := by
    refine ⟨fun a b c ab bc => ?_⟩
    change less c.1 a.1 = false
    by_cases sameLeft : a = b
    · rwa [sameLeft]
    by_cases sameRight : b = c
    · rwa [← sameRight]
    have left := (order.total a.1 a.2 b.1 b.2 (mt Subtype.ext sameLeft)).resolve_right
      (Bool.eq_false_iff.mp ab)
    have right := (order.total b.1 b.2 c.1 c.2 (mt Subtype.ext sameRight)).resolve_right
      (Bool.eq_false_iff.mp bc)
    exact order.asymm a.2 c.2 (order.trans a.1 a.2 b.1 b.2 c.1 c.2 left right)
  have sorted : l.insertionSort (fun a b => !less b a) =
      (l.attach.insertionSort before).map Subtype.val := by
    rw [List.map_insertionSort before (fun a b => !less b a)]
    · rw [List.attach_map_subtype_val]
    · intro a _ b _
      simp [before]
  rw [sorted, List.pairwise_map]
  exact List.pairwise_insertionSort before l.attach

theorem insertionSort_eq (order : StrictTotalOn less l) {m : List α} (perm : m.Perm l) :
    (m.insertionSort fun a b => !less b a) = l.insertionSort fun a b => !less b a := by
  have sorted := order.pairwise_insertionSort
  have sortedToo := (order.mono perm.subset).pairwise_insertionSort
  apply List.Perm.eq_of_pairwise _ sortedToo sorted
  · exact ((List.perm_insertionSort _ m).trans perm).trans (List.perm_insertionSort _ l).symm
  · intro a b aMember bMember ab ba
    have aIn := perm.subset ((List.mem_insertionSort _).mp aMember)
    have bIn := (List.mem_insertionSort _).mp bMember
    by_contra different
    rcases order.total a aIn b bIn different with before | after
    · rw [ba] at before
      contradiction
    · rw [ab] at after
      contradiction

end StrictTotalOn

end Kiyomi.StableSort
