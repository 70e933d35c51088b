import Kiyomi.Library.Merge

namespace Kiyomi.Library

open Go

/-! # Moves between manga directories

Two levels below a manga are its chapter directories. When the directories of all manga
involved lie apart, a merge moves such directories as a whole and touches nothing else
there. -/

/-- Neither path leads to the other. -/
def Apart (left right : Path) : Prop := ¬ left <+: right ∧ ¬ right <+: left

theorem Apart.symm {left right : Path} (apart : Apart left right) : Apart right left :=
  ⟨apart.2, apart.1⟩

theorem Apart.append {left right : Path} (apart : Apart left right) (x y : Path) :
    ¬ left ++ x <+: right ++ y := by
  intro below
  have leftBelow : left <+: right ++ y := (List.prefix_append left x).trans below
  rcases List.prefix_or_prefix_of_prefix leftBelow (List.prefix_append right y) with inside | inside
  · exact apart.1 inside
  · exact apart.2 inside

/-- The directories of the kept manga and of the sources; a source may be named twice. -/
structure Separate (keep : Path) (sources : List Path) : Prop where
  fromKeep : ∀ source ∈ sources, Apart keep source
  fromEachOther : ∀ source ∈ sources, ∀ other ∈ sources, source = other ∨ Apart source other

/-- A disk in the middle of a merge: what is missing in the sources has moved to the
kept manga. -/
structure Moving (l : Layout) (keep : Path) (sources : List Path) (before disk : Disk) :
    Prop where
  upper : ∀ source ∈ sources, ∀ names : Path, names.length ≤ 1 →
    disk.find (source ++ names) = before.find (source ++ names)
  lower : ∀ source ∈ sources, ∀ p c,
    disk.find (source ++ [p, c]) = none ∧ l.plain p = true ∧ l.plain c = true ∨
    disk.find (source ++ [p, c]) = before.find (source ++ [p, c])
  free : ∀ p c, disk.find (keep ++ [p, c]) = none → ∀ source ∈ sources,
    disk.subtree (source ++ [p, c]) = before.subtree (source ++ [p, c])

/-- The kept manga takes the attempted directories that it lacks and the source has. -/
def Took (keep source : Path) (disk disk' : Disk) (attempted : String → String → Prop) : Prop :=
  ∀ p c,
    (disk.find (keep ++ [p, c]) = none → attempted p c → disk.find (source ++ [p, c]) ≠ none →
      disk'.subtree (keep ++ [p, c]) = disk.subtree (source ++ [p, c])) ∧
    (disk.find (keep ++ [p, c]) ≠ none ∨ ¬ attempted p c ∨ disk.find (source ++ [p, c]) = none →
      disk'.subtree (keep ++ [p, c]) = disk.subtree (keep ++ [p, c]))

variable {l : Layout} {keep source : Path} {sources : List Path} {before disk disk' : Disk}

theorem find_eq_of_subtree {left right : Path}
    (same : disk'.subtree left = disk.subtree right) : disk'.find left = disk.find right := by
  have top := congrFun same []
  simpa only [FileTree.subtree, List.append_nil] using top

theorem Moving.refl (l : Layout) (keep : Path) (sources : List Path) (disk : Disk) :
    Moving l keep sources disk disk where
  upper := fun _ _ _ _ => rfl
  lower := fun _ _ _ _ => .inr rfl
  free := fun _ _ _ _ _ => rfl

theorem Took.refl (keep source : Path) (disk : Disk) :
    Took keep source disk disk fun _ _ => False :=
  fun _ _ => ⟨fun _ attempted => attempted.elim, fun _ => rfl⟩

/-- Attempts at directories that the kept manga has do not matter. -/
theorem Took.congr {attempted attempted' : String → String → Prop}
    (took : Took keep source disk disk' attempted)
    (same : ∀ p c, disk.find (keep ++ [p, c]) = none → disk.find (source ++ [p, c]) ≠ none →
      (attempted p c ↔ attempted' p c)) : Took keep source disk disk' attempted' := by
  intro p c
  constructor
  · intro lacks attempt has
    exact (took p c).1 lacks ((same p c lacks has).mpr attempt) has
  · intro stays
    apply (took p c).2
    by_cases lacks : disk.find (keep ++ [p, c]) = none
    · by_cases has : disk.find (source ++ [p, c]) = none
      · exact .inr (.inr has)
      · refine .inr (.inl fun attempt => ?_)
        rcases stays with present | unattempted | absent
        · exact present lacks
        · exact unattempted ((same p c lacks has).mp attempt)
        · exact has absent
    · exact .inl lacks

theorem Took.trans {middle : Disk} {first second : String → String → Prop}
    (member : source ∈ sources) (moving : Moving l keep sources before disk)
    (movingMiddle : Moving l keep sources before middle)
    (took : Took keep source disk middle first) (later : Took keep source middle disk' second) :
    Took keep source disk disk' fun p c => first p c ∨ second p c := by
  intro p c
  by_cases taken : disk.find (keep ++ [p, c]) = none ∧ first p c ∧ disk.find (source ++ [p, c]) ≠ none
  · have moved := (took p c).1 taken.1 taken.2.1 taken.2.2
    have present : middle.find (keep ++ [p, c]) ≠ none := by
      rw [find_eq_of_subtree moved]
      exact taken.2.2
    constructor
    · intro _ _ _
      rw [(later p c).2 (.inl present), moved]
    · intro stays
      rcases stays with has | unattempted | absent
      · exact absurd taken.1 has
      · exact absurd (.inl taken.2.1) unattempted
      · exact absurd absent taken.2.2
  · have kept : middle.subtree (keep ++ [p, c]) = disk.subtree (keep ++ [p, c]) := by
      apply (took p c).2
      by_cases lacks : disk.find (keep ++ [p, c]) = none
      · by_cases has : disk.find (source ++ [p, c]) = none
        · exact .inr (.inr has)
        · exact .inr (.inl fun attempt => taken ⟨lacks, attempt, has⟩)
      · exact .inl lacks
    have keptTop := find_eq_of_subtree kept
    by_cases lacks : disk.find (keep ++ [p, c]) = none
    · have lacksMiddle : middle.find (keep ++ [p, c]) = none := keptTop.trans lacks
      have sourceKept : middle.subtree (source ++ [p, c]) = disk.subtree (source ++ [p, c]) := by
        rw [movingMiddle.free p c lacksMiddle source member, moving.free p c lacks source member]
      have sourceTop := find_eq_of_subtree sourceKept
      constructor
      · intro _ attempt has
        have attemptSecond : second p c := by
          rcases attempt with attemptFirst | attemptSecond
          · exact absurd ⟨lacks, attemptFirst, has⟩ taken
          · exact attemptSecond
        rw [(later p c).1 lacksMiddle attemptSecond (sourceTop ▸ has), sourceKept]
      · intro stays
        rw [(later p c).2, kept]
        rcases stays with has | unattempted | absent
        · exact absurd lacks has
        · exact .inr (.inl fun attempt => unattempted (.inr attempt))
        · exact .inr (.inr (sourceTop.trans absent))
    · constructor
      · intro lacking
        exact absurd lacking lacks
      · intro _
        rw [(later p c).2 (.inl (keptTop ▸ lacks)), kept]

/-! ## One directory -/

/-- Where everything is after one directory has moved. -/
theorem find_moved (apart : Apart keep source) {middle : Disk} {p c : String}
    (made : disk.mkdirAll (keep ++ [p]) = some middle)
    (moved : middle.rename (source ++ [p, c]) (keep ++ [p, c]) = some disk') (q : Path) :
    disk'.find q =
      if keep ++ [p, c] <+: q then disk.find (source ++ [p, c] ++ q.drop (keep ++ [p, c]).length)
      else if source ++ [p, c] <+: q then none
      else if q <+: keep ++ [p] then some .directory else disk.find q := by
  rw [FileTree.find_rename moved]
  split
  · rw [FileTree.find_mkdirAll made, if_neg]
    rw [List.append_assoc]
    exact apart.symm.append _ _
  · rw [FileTree.find_mkdirAll made]

theorem moved_moving (separate : Separate keep sources) (member : source ∈ sources)
    (moving : Moving l keep sources before disk) {middle : Disk} {p c : String}
    (provider : l.plain p = true) (chapter : l.plain c = true)
    (present : disk.find (source ++ [p, c]) ≠ none)
    (made : disk.mkdirAll (keep ++ [p]) = some middle)
    (moved : middle.rename (source ++ [p, c]) (keep ++ [p, c]) = some disk') :
    Moving l keep sources before disk' := by
  have found := find_moved (separate.fromKeep source member) made moved
  -- what lies in a source and not in the moved directory stays
  have elsewhere : ∀ other ∈ sources, ∀ names, ¬ source ++ [p, c] <+: other ++ names →
      disk'.find (other ++ names) = disk.find (other ++ names) := by
    intro other otherMember names outside
    have notKept := (separate.fromKeep other otherMember).append [p, c] names
    have notAbove := (separate.fromKeep other otherMember).symm.append names [p]
    rw [found, if_neg notKept, if_neg outside, if_neg notAbove]
  have sameSource : ∀ other ∈ sources, ∀ names, source ++ [p, c] <+: other ++ names →
      source = other := by
    intro other otherMember names inside
    rcases separate.fromEachOther source member other otherMember with same | apart
    · exact same
    · exact absurd inside (apart.append [p, c] names)
  constructor
  · intro other otherMember names short
    rw [elsewhere other otherMember names, moving.upper other otherMember names short]
    intro inside
    cases sameSource other otherMember names inside
    have lengths := ((List.prefix_append_right_inj source).mp inside).length_le
    simp only [List.length_cons, List.length_nil] at lengths
    omega
  · intro other otherMember p' c'
    by_cases inside : source ++ [p, c] <+: other ++ [p', c']
    · left
      have notKept := (separate.fromKeep other otherMember).append [p, c] [p', c']
      cases sameSource other otherMember [p', c'] inside
      have same := ((List.prefix_append_right_inj source).mp inside).eq_of_length_le (by simp)
      simp only [List.cons.injEq, and_true] at same
      rcases same with ⟨rfl, rfl⟩
      rw [found, if_neg notKept, if_pos inside]
      exact ⟨rfl, provider, chapter⟩
    · rw [elsewhere other otherMember _ inside]
      exact moving.lower other otherMember p' c'
  · intro p' c' lacks other otherMember
    have different : [p', c'] ≠ [p, c] := by
      intro same
      rw [same, found, if_pos (List.prefix_refl _), List.drop_length, List.append_nil] at lacks
      exact present lacks
    have lacked : disk.find (keep ++ [p', c']) = none := by
      rw [found, if_neg, if_neg ((separate.fromKeep source member).symm.append _ _), if_neg]
        at lacks
      · exact lacks
      · intro above
        have lengths := ((List.prefix_append_right_inj keep).mp above).length_le
        simp at lengths
      · intro below
        have same := (List.prefix_append_right_inj keep).mp below
        exact different (same.eq_of_length_le (by simp)).symm
    rw [← moving.free p' c' lacked other otherMember]
    funext rest
    simp only [FileTree.subtree, List.append_assoc]
    apply elsewhere other otherMember
    intro inside
    cases sameSource other otherMember _ inside
    have head := (List.prefix_append_right_inj source).mp inside
    simp only [List.cons_append, List.nil_append, List.cons_prefix_cons] at head
    exact different (by simp [head.1, head.2.1])

theorem moved_took (apart : Apart keep source) {middle : Disk} {p c : String}
    (lacks : disk.find (keep ++ [p, c]) = none)
    (made : disk.mkdirAll (keep ++ [p]) = some middle)
    (moved : middle.rename (source ++ [p, c]) (keep ++ [p, c]) = some disk') :
    Took keep source disk disk' fun p' c' => p' = p ∧ c' = c := by
  have found := find_moved apart made moved
  intro p' c'
  constructor
  · intro _ attempted _
    rcases attempted with ⟨rfl, rfl⟩
    funext rest
    rw [FileTree.subtree, found, if_pos (List.prefix_append _ _), List.drop_left, FileTree.subtree]
  · intro stays
    by_cases same : p' = p ∧ c' = c
    · rcases same with ⟨rfl, rfl⟩
      rcases stays with present | unattempted | absent
      · exact absurd lacks present
      · exact absurd ⟨rfl, rfl⟩ unattempted
      · -- nothing was there, and nothing is there
        funext rest
        rw [FileTree.subtree, found, if_pos (List.prefix_append _ _), List.drop_left,
          FileTree.subtree]
        have gone : ∀ path, disk.find path = none → ∀ rest, disk.find (path ++ rest) = none := by
          intro path nothing rest
          cases inner : disk.find (path ++ rest) with
          | none => rfl
          | some node =>
              by_cases top : rest = []
              · rw [top, List.append_nil, nothing] at inner
                contradiction
              · rw [FileTree.ancestor top inner] at nothing
                contradiction
        rw [gone _ absent, gone _ lacks]
    · funext rest
      simp only [FileTree.subtree, List.append_assoc]
      rw [found, if_neg, if_neg (apart.symm.append _ _), if_neg]
      · intro above
        have lengths := ((List.prefix_append_right_inj keep).mp above).length_le
        simp at lengths
      · intro below
        have head := (List.prefix_append_right_inj keep).mp below
        simp only [List.cons_append, List.nil_append, List.cons_prefix_cons] at head
        exact same ⟨head.1.symm, head.2.1.symm⟩

end Kiyomi.Library
