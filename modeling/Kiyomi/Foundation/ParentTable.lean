import Mathlib.Logic.Relation
import Mathlib.Data.List.Nodup

namespace Kiyomi.ParentTable

/-! # Trees in tables of parent pointers

A table whose rows carry a key and an optional parent key is a graph given by
its edges from parent to child. The recursive queries over such a table compute
the keys reachable from a start row one generation at a time. Nothing here asks
the graph to be a forest: a query over a cyclic table has no answer. -/

variable {Row : Type u} {Key : Type v} (key : Row → Key) (parent : Row → Option Key)

/-- Some row with key `child` names `ancestor` as its parent. -/
def Edge (rows : List Row) (ancestor child : Key) : Prop :=
  ∃ row ∈ rows, key row = child ∧ parent row = some ancestor

/-- `descendant` is `root` itself or lies below it. -/
def Below (rows : List Row) : Key → Key → Prop :=
  Relation.ReflTransGen (Edge key parent rows)

/-- `member` belongs to the tree of an existing row with key `root`. -/
def InTree (rows : List Row) (root member : Key) : Prop :=
  root ∈ rows.map key ∧ Below key parent rows root member

/-- No row is its own proper ancestor. -/
def Acyclic (rows : List Row) : Prop :=
  ∀ ancestor, ¬ Relation.TransGen (Edge key parent rows) ancestor ancestor

section Query

variable [DecidableEq Key]

/-- The keys of the rows whose parent is in `frontier`. -/
def children (rows : List Row) (frontier : List Key) : List Key :=
  frontier.flatMap fun ancestor =>
    (rows.filter fun row => parent row == some ancestor).map key

/-- Follow generations until one is empty. Running out of fuel with a generation
left over is reported as `none`. -/
def descend (rows : List Row) : Nat → List Key → Option (List Key)
  | 0, frontier => if frontier.isEmpty then some [] else none
  | fuel + 1, frontier =>
      if frontier.isEmpty then some []
      else (descend rows fuel (children key parent rows frontier)).map (frontier ++ ·)

/-- The recursive query from one row. A chain of more generations than the table
has rows repeats a key and never ends, so this much fuel decides divergence. -/
def tree (rows : List Row) (root : Key) : Option (List Key) :=
  descend key parent rows (rows.length + 1)
    ((rows.filter fun row => key row == root).map key)

/-- The generation reached after a number of expansions. -/
def generation (rows : List Row) (frontier : List Key) : Nat → List Key
  | 0 => frontier
  | depth + 1 => children key parent rows (generation rows frontier depth)

variable {key parent}

theorem mem_children {rows : List Row} {frontier : List Key} {child : Key} :
    child ∈ children key parent rows frontier ↔
      ∃ ancestor ∈ frontier, Edge key parent rows ancestor child := by
  simp only [children, Edge, List.mem_flatMap, List.mem_map, List.mem_filter,
    beq_iff_eq]
  constructor
  · rintro ⟨ancestor, inFrontier, row, ⟨member, names⟩, rfl⟩
    exact ⟨ancestor, inFrontier, row, member, rfl, names⟩
  · rintro ⟨ancestor, inFrontier, row, member, rfl, names⟩
    exact ⟨ancestor, inFrontier, row, ⟨member, names⟩, rfl⟩

/-- A finished descent lists exactly the keys below its frontier. -/
theorem mem_descend {rows : List Row} {fuel : Nat} {frontier keys : List Key}
    (finished : descend key parent rows fuel frontier = some keys) (member : Key) :
    member ∈ keys ↔ ∃ start ∈ frontier, Below key parent rows start member := by
  induction fuel generalizing frontier keys with
  | zero =>
      cases frontier with
      | nil => simp_all [descend]
      | cons head tail => simp [descend] at finished
  | succ fuel induction =>
      cases frontier with
      | nil => simp_all [descend]
      | cons head tail =>
          simp only [descend, List.isEmpty_cons, Bool.false_eq_true, if_false,
            Option.map_eq_some_iff] at finished
          rcases finished with ⟨below, finished, rfl⟩
          rw [List.mem_append, induction finished]
          constructor
          · rintro (inFrontier | ⟨child, isChild, reaches⟩)
            · exact ⟨member, inFrontier, .refl⟩
            · rcases mem_children.mp isChild with ⟨start, inFrontier, edge⟩
              exact ⟨start, inFrontier, .head edge reaches⟩
          · rintro ⟨start, inFrontier, reaches⟩
            rcases Relation.ReflTransGen.cases_head reaches with rfl | ⟨child, edge, rest⟩
            · exact .inl inFrontier
            · exact .inr ⟨child, mem_children.mpr ⟨start, inFrontier, edge⟩, rest⟩

/-- A finished recursive query lists exactly the tree of its row. -/
theorem mem_tree {rows : List Row} {root : Key} {keys : List Key}
    (finished : tree key parent rows root = some keys) (member : Key) :
    member ∈ keys ↔ InTree key parent rows root member := by
  rw [mem_descend finished member, InTree]
  constructor
  · rintro ⟨start, isStart, reaches⟩
    simp only [List.mem_map, List.mem_filter, beq_iff_eq] at isStart
    rcases isStart with ⟨row, ⟨inRows, rfl⟩, rfl⟩
    exact ⟨List.mem_map_of_mem inRows, reaches⟩
  · rintro ⟨exists_root, reaches⟩
    rcases List.mem_map.mp exists_root with ⟨row, inRows, rfl⟩
    exact ⟨key row, List.mem_map_of_mem (by simp [inRows]), reaches⟩

theorem generation_add_one (rows : List Row) (frontier : List Key) (depth : Nat) :
    generation key parent rows (children key parent rows frontier) depth =
      generation key parent rows frontier (depth + 1) := by
  induction depth with
  | zero => rfl
  | succ depth induction => simp only [generation] at induction ⊢; rw [induction]

theorem descend_isSome {rows : List Row} {fuel : Nat} {frontier : List Key}
    (exhausted : generation key parent rows frontier fuel = []) :
    (descend key parent rows fuel frontier).isSome := by
  induction fuel generalizing frontier with
  | zero =>
      simp only [generation] at exhausted
      simp [descend, exhausted]
  | succ fuel induction =>
      by_cases empty : frontier.isEmpty
      · simp [descend, empty]
      · rw [← generation_add_one] at exhausted
        simpa [descend, empty] using induction exhausted

/-- With enough fuel a key that is followed has finitely many generations below it. -/
theorem acc_of_descend {rows : List Row} {fuel : Nat} {frontier : List Key}
    (finished : (descend key parent rows fuel frontier).isSome) :
    ∀ start ∈ frontier,
      Acc (fun child ancestor => Edge key parent rows ancestor child) start := by
  induction fuel generalizing frontier with
  | zero =>
      intro start member
      cases frontier with
      | nil => cases member
      | cons head tail => simp [descend] at finished
  | succ fuel induction =>
      intro start member
      have continues : (descend key parent rows fuel (children key parent rows frontier)).isSome := by
        cases frontier with
        | nil => cases member
        | cons head tail => simpa [descend] using finished
      refine .intro start fun child edge => ?_
      exact induction continues child (mem_children.mpr ⟨start, member, edge⟩)

theorem Below.acc {rows : List Row} {ancestor descendant : Key}
    (below : Below key parent rows ancestor descendant)
    (finite : Acc (fun child ancestor => Edge key parent rows ancestor child) ancestor) :
    Acc (fun child ancestor => Edge key parent rows ancestor child) descendant := by
  induction below with
  | refl => exact finite
  | tail _ edge induction => exact induction.inv edge

theorem not_cycle_of_acc {rows : List Row} {member : Key}
    (finite : Acc (fun child ancestor => Edge key parent rows ancestor child) member) :
    ¬ Relation.TransGen (Edge key parent rows) member member := by
  induction finite with
  | intro member _ induction =>
      intro cycle
      rcases Relation.TransGen.head'_iff.mp cycle with ⟨child, edge, rest⟩
      exact induction child edge (Relation.TransGen.tail' rest edge)

theorem below_of_mem_generation {rows : List Row} {frontier : List Key} {depth : Nat}
    {member : Key} (reached : member ∈ generation key parent rows frontier depth) :
    ∃ start ∈ frontier, Below key parent rows start member := by
  induction depth generalizing member with
  | zero => exact ⟨member, reached, .refl⟩
  | succ depth induction =>
      rcases mem_children.mp reached with ⟨ancestor, inGeneration, edge⟩
      rcases induction inGeneration with ⟨start, inFrontier, below⟩
      exact ⟨start, inFrontier, below.tail edge⟩

/-- Without a cycle below the frontier, the ancestors along a path to a key of generation
`depth` are `depth + 1` different keys. -/
theorem exists_path_of_mem_generation {rows : List Row} {frontier : List Key}
    (acyclic : ∀ start ∈ frontier, ∀ member, Below key parent rows start member →
      ¬ Relation.TransGen (Edge key parent rows) member member)
    (present : ∀ start ∈ frontier, start ∈ rows.map key) {depth : Nat} {member : Key}
    (reached : member ∈ generation key parent rows frontier depth) :
    ∃ path : List Key, path.Nodup ∧ path.length = depth + 1 ∧ path ⊆ rows.map key ∧
      ∀ ancestor ∈ path, Below key parent rows ancestor member := by
  induction depth generalizing member with
  | zero =>
      refine ⟨[member], by simp, rfl, ?_, ?_⟩
      · simpa using present member reached
      · simp [Below, Relation.ReflTransGen.refl]
  | succ depth induction =>
      rcases below_of_mem_generation reached with ⟨start, inFrontier, startBelow⟩
      rcases mem_children.mp reached with ⟨ancestor, inGeneration, edge⟩
      rcases induction inGeneration with ⟨path, nodup, length, subset, below⟩
      refine ⟨member :: path, ?_, by simp [length], ?_, ?_⟩
      · refine List.nodup_cons.mpr ⟨fun inPath => ?_, nodup⟩
        exact acyclic start inFrontier member startBelow
          (Relation.TransGen.tail' (below member inPath) edge)
      · rcases edge with ⟨row, inRows, rfl, _⟩
        exact List.cons_subset.mpr ⟨List.mem_map_of_mem inRows, subset⟩
      · intro other inPath
        rcases List.mem_cons.mp inPath with rfl | inPath
        · exact .refl
        · exact .tail (below other inPath) edge

/-- A recursive query terminates exactly when no key of the tree is its own ancestor, and
then the fuel of `tree` is enough. -/
theorem tree_isSome_iff {rows : List Row} {root : Key} :
    (tree key parent rows root).isSome ↔
      ∀ member, InTree key parent rows root member →
        ¬ Relation.TransGen (Edge key parent rows) member member := by
  have isStart : ∀ start, start ∈ (rows.filter fun row => key row == root).map key ↔
      start = root ∧ root ∈ rows.map key := by
    intro start
    simp only [List.mem_map, List.mem_filter, beq_iff_eq]
    constructor
    · intro listed
      rcases listed with ⟨row, ⟨inRows, isRoot⟩, rfl⟩
      exact ⟨isRoot, row, inRows, isRoot⟩
    · intro listed
      rcases listed with ⟨rfl, row, inRows, isRoot⟩
      exact ⟨row, ⟨inRows, isRoot⟩, isRoot⟩
  constructor
  · intro finished member inTree cycle
    have accRoot := acc_of_descend finished root ((isStart root).mpr ⟨rfl, inTree.1⟩)
    exact not_cycle_of_acc (inTree.2.acc accRoot) cycle
  · intro acyclic
    apply descend_isSome
    rw [List.eq_nil_iff_forall_not_mem]
    intro member reached
    have path := exists_path_of_mem_generation ?_ ?_ reached
    · rcases path with ⟨path, nodup, length, subset, _⟩
      have bound : path.length ≤ (rows.map key).length := nodup.length_le_of_subset subset
      rw [length, List.length_map] at bound
      omega
    · intro start inFrontier other below
      rcases (isStart start).mp inFrontier with ⟨rfl, present⟩
      exact acyclic other ⟨present, below⟩
    · intro start inFrontier
      rcases (isStart start).mp inFrontier with ⟨rfl, present⟩
      exact present

/-- A query that `tree` gives up on ends with no fuel. -/
theorem descend_eq_none_of_tree {rows : List Row} {root : Key}
    (unfinished : tree key parent rows root = none) (fuel : Nat) :
    descend key parent rows fuel ((rows.filter fun row => key row == root).map key) = none := by
  by_contra finished
  have cyclic : ¬ (tree key parent rows root).isSome := by simp [unfinished]
  apply cyclic
  rw [tree_isSome_iff]
  intro member inTree
  apply not_cycle_of_acc
  apply inTree.2.acc
  apply acc_of_descend (Option.isSome_iff_ne_none.mpr finished)
  rcases List.mem_map.mp inTree.1 with ⟨row, inRows, rfl⟩
  exact List.mem_map_of_mem (by simp [inRows])

/-- Recursive queries over acyclic tables terminate. -/
theorem tree_isSome {rows : List Row} (acyclic : Acyclic key parent rows) (root : Key) :
    (tree key parent rows root).isSome :=
  tree_isSome_iff.mpr fun member _ => acyclic member

end Query

variable {key parent}

theorem Edge.mono {rows more : List Row} (subset : rows ⊆ more) {ancestor child : Key}
    (edge : Edge key parent rows ancestor child) : Edge key parent more ancestor child := by
  rcases edge with ⟨row, member, isChild, names⟩
  exact ⟨row, subset member, isChild, names⟩

theorem Below.mono {rows more : List Row} (subset : rows ⊆ more) {ancestor descendant : Key}
    (below : Below key parent rows ancestor descendant) :
    Below key parent more ancestor descendant :=
  Relation.ReflTransGen.mono
    (fun _ _ (edge : Edge key parent rows _ _) => edge.mono subset) _ _ below

theorem Acyclic.mono {rows more : List Row} (subset : rows ⊆ more)
    (acyclic : Acyclic key parent more) : Acyclic key parent rows :=
  fun ancestor cycle =>
    acyclic ancestor (Relation.TransGen.mono
      (fun _ _ (edge : Edge key parent rows _ _) => edge.mono subset) _ _ cycle)

/-- A rank that grows from parent to child excludes cycles. -/
theorem Acyclic.ofRank {rows : List Row} (rank : Key → Nat)
    (grows : ∀ row ∈ rows, ∀ ancestor, parent row = some ancestor →
      rank ancestor < rank (key row)) : Acyclic key parent rows := by
  intro ancestor cycle
  have increasing : ∀ descendant,
      Relation.TransGen (Edge key parent rows) ancestor descendant →
      rank ancestor < rank descendant := by
    intro descendant path
    induction path with
    | single edge =>
        rcases edge with ⟨row, member, rfl, names⟩
        exact grows row member _ names
    | tail _ edge induction =>
        rcases edge with ⟨row, member, rfl, names⟩
        exact Nat.lt_trans induction (grows row member _ names)
  exact absurd (increasing ancestor cycle) (Nat.lt_irrefl _)

theorem InTree.root_mem {rows : List Row} {root member : Key}
    (inTree : InTree key parent rows root member) : root ∈ rows.map key := inTree.1

theorem InTree.refl {rows : List Row} {root : Key} (present : root ∈ rows.map key) :
    InTree key parent rows root root := ⟨present, .refl⟩

/-- Every member of a tree is the key of a row. -/
theorem InTree.member_mem {rows : List Row} {root member : Key}
    (inTree : InTree key parent rows root member) : member ∈ rows.map key := by
  rcases inTree with ⟨present, below⟩
  cases below with
  | refl => exact present
  | tail _ edge =>
      rcases edge with ⟨row, inRows, rfl, _⟩
      exact List.mem_map_of_mem inRows

theorem InTree.trans {rows : List Row} {root middle member : Key}
    (upper : InTree key parent rows root middle) (lower : Below key parent rows middle member) :
    InTree key parent rows root member := ⟨upper.1, upper.2.trans lower⟩

theorem InTree.child {rows : List Row} {root ancestor child : Key}
    (upper : InTree key parent rows root ancestor)
    (edge : Edge key parent rows ancestor child) : InTree key parent rows root child :=
  ⟨upper.1, upper.2.tail edge⟩

/-- With distinct keys, the ancestors of a key form a chain. -/
theorem Below.comparable {rows : List Row} (distinct : (rows.map key).Nodup)
    {left right member : Key} (leftBelow : Below key parent rows left member)
    (rightBelow : Below key parent rows right member) :
    Below key parent rows left right ∨ Below key parent rows right left := by
  induction leftBelow with
  | refl => exact .inr rightBelow
  | @tail middle member upper edge induction =>
      cases rightBelow with
      | refl => exact .inl (upper.tail edge)
      | @tail other _ otherUpper otherEdge =>
          rcases edge with ⟨row, inRows, isMember, names⟩
          rcases otherEdge with ⟨otherRow, otherInRows, otherIsMember, otherNames⟩
          have same := List.inj_on_of_nodup_map distinct inRows otherInRows
            (isMember.trans otherIsMember.symm)
          rw [same, otherNames] at names
          cases names
          exact induction otherUpper

/-- A row added under a parent outside a tree leaves the tree as it is. -/
theorem inTree_concat {rows : List Row} {row : Row} {root member : Key}
    (present : root ∈ rows.map key)
    (outside : ∀ ancestor, parent row = some ancestor → ¬ InTree key parent rows root ancestor) :
    InTree key parent (rows ++ [row]) root member ↔ InTree key parent rows root member := by
  constructor
  · intro inTree
    refine ⟨present, ?_⟩
    have below := inTree.2
    induction below with
    | refl => exact .refl
    | @tail ancestor child upper edge induction =>
        have above := induction ⟨inTree.1, upper⟩
        rcases edge with ⟨other, otherMember, isChild, names⟩
        rcases List.mem_append.mp otherMember with old | new
        · exact above.tail ⟨other, old, isChild, names⟩
        · rw [List.mem_singleton.mp new] at names
          exact absurd ⟨present, above⟩ (outside ancestor names)
  · intro inTree
    exact ⟨by simp [present], inTree.2.mono (List.subset_append_left rows [row])⟩

/-! ## Operations on one tree -/

open Classical in
/-- The table when an operation on the tree of `root` is done: rows outside are as they
were, rows inside are rewritten or gone. -/
noncomputable def affectTree (key : Row → Key) (parent : Row → Option Key) (rows : List Row)
    (root : Key) (affect : Row → Option Row) : List Row :=
  rows.filterMap fun row =>
    if InTree key parent rows root (key row) then affect row else some row

section

variable {rows : List Row} {root : Key} {selected : Row → Bool}

theorem affectTree_eq_map {change : Row → Row}
    (agrees : ∀ row, selected row = true ↔ InTree key parent rows root (key row)) :
    affectTree key parent rows root (fun row => some (change row)) =
      rows.map fun row => if selected row then change row else row := by
  rw [affectTree, ← List.filterMap_eq_map]
  congr 1
  funext row
  by_cases inTree : InTree key parent rows root (key row)
  · simp [inTree, (agrees row).mpr inTree]
  · simp [inTree, mt (agrees row).mp inTree]

theorem affectTree_eq_filter
    (agrees : ∀ row, selected row = true ↔ InTree key parent rows root (key row)) :
    affectTree key parent rows root (fun _ => none) = rows.filter fun row => !selected row := by
  rw [affectTree, ← List.filterMap_eq_filter]
  congr 1
  funext row
  by_cases inTree : InTree key parent rows root (key row)
  · simp [inTree, Option.guard, (agrees row).mpr inTree]
  · simp [inTree, Option.guard, mt (agrees row).mp inTree]

end

/-! ## Deleting trees one after the other -/

section Pruning

variable (key parent)

/-- `pruned` is what is left of a table when the trees of some roots are deleted. -/
def Pruned (rows pruned : List Row) (roots : Key → Prop) : Prop :=
  ∀ row, row ∈ pruned ↔
    row ∈ rows ∧ ∀ root, roots root → ¬ InTree key parent rows root (key row)

variable {key parent}

theorem Pruned.subset {rows pruned : List Row} {roots : Key → Prop}
    (isPruned : Pruned key parent rows pruned roots) : pruned ⊆ rows :=
  fun row member => ((isPruned row).mp member).1

theorem Pruned.none (rows : List Row) : Pruned key parent rows rows fun _ => False := by
  intro row
  simp

/-- A key left in the table has its whole path to any ancestor left. -/
theorem Pruned.below {rows pruned : List Row} {roots : Key → Prop}
    (isPruned : Pruned key parent rows pruned roots) {ancestor member : Key}
    (below : Below key parent rows ancestor member)
    (kept : ∀ root, roots root → ¬ InTree key parent rows root member) :
    Below key parent pruned ancestor member := by
  induction below with
  | refl => exact .refl
  | @tail middle member upper edge induction =>
      have middleKept : ∀ root, roots root → ¬ InTree key parent rows root middle :=
        fun root isRoot inTree => kept root isRoot (inTree.child edge)
      rcases edge with ⟨row, inRows, isMember, names⟩
      exact (induction middleKept).tail
        ⟨row, (isPruned row).mpr ⟨inRows, by rw [isMember]; exact kept⟩, isMember, names⟩

theorem Pruned.inTree_iff {rows pruned : List Row} {roots : Key → Prop}
    (isPruned : Pruned key parent rows pruned roots) {ancestor : Key} {row : Row}
    (left : row ∈ pruned) :
    InTree key parent pruned ancestor (key row) ↔ InTree key parent rows ancestor (key row) := by
  constructor
  · intro inTree
    refine ⟨?_, inTree.2.mono isPruned.subset⟩
    rcases List.mem_map.mp inTree.1 with ⟨root, inPruned, rfl⟩
    exact List.mem_map_of_mem (isPruned.subset inPruned)
  · intro inTree
    have kept := ((isPruned row).mp left).2
    refine ⟨?_, isPruned.below inTree.2 kept⟩
    rcases List.mem_map.mp inTree.1 with ⟨top, inRows, isTop⟩
    rw [← isTop]
    apply List.mem_map_of_mem
    rw [isPruned top]
    refine ⟨inRows, ?_⟩
    intro root isRoot above
    rw [isTop] at above
    exact kept root isRoot (above.trans inTree.2)

/-- Deleting more trees from what is left of the table. -/
theorem Pruned.trans {rows pruned rest : List Row} {first second : Key → Prop}
    (earlier : Pruned key parent rows pruned first)
    (later : Pruned key parent pruned rest second) :
    Pruned key parent rows rest fun root => first root ∨ second root := by
  intro row
  rw [later row]
  constructor
  · intro left
    rcases left with ⟨inPruned, kept⟩
    refine ⟨earlier.subset inPruned, ?_⟩
    intro root isRoot inTree
    rcases isRoot with isFirst | isSecond
    · exact ((earlier row).mp inPruned).2 root isFirst inTree
    · exact kept root isSecond ((earlier.inTree_iff inPruned).mpr inTree)
  · intro left
    rcases left with ⟨inRows, kept⟩
    have inPruned : row ∈ pruned :=
      (earlier row).mpr ⟨inRows, fun root isFirst => kept root (.inl isFirst)⟩
    refine ⟨inPruned, ?_⟩
    intro root isSecond inTree
    exact kept root (.inr isSecond) ((earlier.inTree_iff inPruned).mp inTree)

/-- Only the trees of the roots matter, not the roots themselves: a root that is
not in the table, or lies in the tree of another one, may be added. -/
theorem Pruned.congr {rows pruned : List Row} {roots others : Key → Prop}
    (isPruned : Pruned key parent rows pruned roots)
    (same : ∀ member, (∃ root, roots root ∧ InTree key parent rows root member) ↔
      ∃ root, others root ∧ InTree key parent rows root member) :
    Pruned key parent rows pruned others := by
  intro row
  rw [isPruned row]
  have sameTrees := same (key row)
  constructor
  · intro left
    refine ⟨left.1, fun root isRoot inTree => ?_⟩
    rcases sameTrees.mpr ⟨root, isRoot, inTree⟩ with ⟨other, isOther, inOther⟩
    exact left.2 other isOther inOther
  · intro left
    refine ⟨left.1, fun root isRoot inTree => ?_⟩
    rcases sameTrees.mp ⟨root, isRoot, inTree⟩ with ⟨other, isOther, inOther⟩
    exact left.2 other isOther inOther

end Pruning

end Kiyomi.ParentTable
