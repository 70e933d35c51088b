import Kiyomi.Queue.Sqlite.Store
import Mathlib.Data.String.Basic

namespace Kiyomi.Queue.Sqlite

open Go

/-! # Automatic clean-up

`CleanupJobs` groups the jobs by root, compares the newest timestamp text of each
group with the text of a cutoff and deletes the groups that are settled and old
enough. Texts are compared byte by byte, which is not always the order of the
instants they stand for. -/

def Row.isRoot (row : Row) : Bool := row.parentID == none || row.parentID == some ""

/-- `COALESCE(completed_at, updated_at)`. -/
def Row.lastText (row : Row) : String := row.completedAt.getD row.updatedAt

namespace Database

/-- The roots in the order of the groups. -/
def rootIDs (db : Database) : List String :=
  ((db.jobs.rows.filter Row.isRoot).map Row.id).insertionSort (· ≤ ·)

/-- The rows with one of the keys. A key that the recursion reaches twice counts
once, which no condition of the query can tell. -/
def groupRows (db : Database) (ids : List String) : List Row :=
  db.jobs.rows.filter fun row => ids.contains row.id

/-- The `subtree` of the candidate query, grouped by root. -/
def groups (db : Database) : List String → Option (List (String × List Row))
  | [] => some []
  | id :: ids =>
      match db.jobTree id with
      | none => none
      | some tree => (db.groups ids).map ((id, db.groupRows tree) :: ·)

/-- The `HAVING` clause. -/
def having (completedCutoffStr failedCutoffStr : String) (group : List Row) : Bool :=
  let newest := (group.map Row.lastText).foldr max ""
  let failed := group.countP fun row => row.status == .failed
  (group.countP fun row => row.status.isLive) == 0 &&
    (failed == 0 && decide (newest ≤ completedCutoffStr) ||
      decide (failed > 0) && decide (newest ≤ failedCutoffStr))

/-- The candidate query without its limit. -/
def candidates (db : Database) (completedCutoffStr failedCutoffStr : String) :
    Option (List String) :=
  (db.groups db.rootIDs).map fun groups =>
    (groups.filter fun (_, group) => having completedCutoffStr failedCutoffStr group).map Prod.fst

/-- `Driver.CleanupJobs` with its two readings of the clock. The statement that
deletes a tree is the one of `DeleteJob`. -/
def cleanupJobs (db : Database) (options : CleanupOptions) (completedNow failedNow : Time) :
    Option (Nat × Database) :=
  let completedCutoff := completedNow.add (-options.completedTTL)
  let failedCutoff := failedNow.add (-options.failedTTL)
  (db.candidates (formatTime completedCutoff) (formatTime failedCutoff)).bind fun rootIDs =>
    (jobStore.deleteEach db 0 (rootIDs.take options.limit)).map fun (db, prunedCount) =>
      (prunedCount, db)

/-! ## The specification -/

/-- The tree of a root. -/
def group (db : Database) (id : String) : List Row :=
  match db.jobTree id with
  | none => []
  | some tree => db.groupRows tree

/-- The tree is settled and its newest instant is not after the cutoff. -/
def expired (db : Database) (completedCutoff failedCutoff : Time) (id : String) : Bool :=
  let cutoff :=
    if (db.group id).any fun row => row.status == .failed then failedCutoff else completedCutoff
  (db.group id).all fun row =>
    !row.status.isLive &&
      match parseTime row.lastText with
      | none => false
      | some instant => instant.notAfter cutoff

/-- The tree is settled and its newest text is not after the text of the cutoff. -/
def textExpired (db : Database) (completedCutoff failedCutoff : Time) (id : String) : Bool :=
  having (formatTime completedCutoff) (formatTime failedCutoff) (db.group id)

/-- The roots of `db` that are gone in `db'`. -/
def removedRoots (db db' : Database) : List String :=
  db.rootIDs.filter fun id => !db'.jobs.contains id

structure CleanupSpec (db db' : Database) (limit : Nat) (completedCutoff failedCutoff : Time) :
    Prop where
  wholeTrees : ParentTable.Pruned Row.id Row.parentID db.jobs.rows db'.jobs.rows
    (· ∈ db.removedRoots db')
  onlyExpired : ∀ id ∈ db.removedRoots db', db.expired completedCutoff failedCutoff id = true
  bounded : (db.removedRoots db').length ≤ limit
  exhausted : (db.removedRoots db').length < limit → ∀ id ∈ db.rootIDs,
    id ∉ db.removedRoots db' → db.expired completedCutoff failedCutoff id = false

/-- Where it matters to a clean-up, the order of the texts is the order of the
instants: the first trees up to the limit whose text is old enough are expired,
and if that is not the limit, every expired tree has a text that is old enough. -/
structure TextOrderAgrees (db : Database) (limit : Nat) (completedCutoff failedCutoff : Time) :
    Prop where
  early : ∀ id ∈ db.rootIDs, db.textExpired completedCutoff failedCutoff id = true →
    (db.rootIDs.countP fun other =>
      decide (other < id) && db.textExpired completedCutoff failedCutoff other) < limit →
    db.expired completedCutoff failedCutoff id = true
  late : db.rootIDs.countP (db.textExpired completedCutoff failedCutoff) < limit →
    ∀ id ∈ db.rootIDs, db.expired completedCutoff failedCutoff id = true →
      db.textExpired completedCutoff failedCutoff id = true

/-! ## Selection -/

/-- The first elements of a strictly sorted list are those with few smaller ones. -/
theorem mem_take_iff_countP_lt [LinearOrder Key] {sorted : List Key}
    (increasing : sorted.Pairwise (· < ·)) (n : Nat) (x : Key) :
    x ∈ sorted.take n ↔ x ∈ sorted ∧ (sorted.countP fun other => decide (other < x)) < n := by
  induction sorted generalizing n with
  | nil => simp
  | cons first rest induction =>
      rw [List.pairwise_cons] at increasing
      cases n with
      | zero => simp
      | succ n =>
          rw [List.take_succ_cons, List.mem_cons, List.mem_cons, induction increasing.2,
            List.countP_cons]
          by_cases isFirst : x = first
          · subst isFirst
            have noneSmaller : (rest.countP fun other => decide (other < x)) = 0 := by
              rw [List.countP_eq_zero]
              intro other member
              simpa using (increasing.1 other member).le
            simp [noneSmaller]
          · by_cases inRest : x ∈ rest
            · have smaller := increasing.1 x inRest
              simp [isFirst, inRest, smaller]
            · simp [isFirst, inRest]

variable {db : Database}

theorem mem_rootIDs {id : String} :
    id ∈ db.rootIDs ↔ ∃ row ∈ db.jobs.rows, row.isRoot = true ∧ row.id = id := by
  simp [rootIDs, and_assoc]

theorem rootIDs_nodup (db : Database) : db.rootIDs.Nodup := by
  have sorted : db.rootIDs.Perm ((db.jobs.rows.filter Row.isRoot).map Row.id) :=
    List.perm_insertionSort _ _
  rw [sorted.nodup_iff]
  exact (List.filter_sublist.map Row.id).nodup db.jobs.primaryKey

theorem rootIDs_increasing (db : Database) : db.rootIDs.Pairwise (· < ·) := by
  have sorted : db.rootIDs.Pairwise (· ≤ ·) := List.pairwise_insertionSort _ _
  have distinct : db.rootIDs.Pairwise (· ≠ ·) := db.rootIDs_nodup
  exact (sorted.and distinct).imp fun both => lt_of_le_of_ne both.1 both.2

theorem groups_of_forest (forest : db.Forest) (ids : List String) :
    db.groups ids = some (ids.map fun id => (id, db.group id)) := by
  induction ids with
  | nil => rfl
  | cons id ids induction =>
      have finished := ParentTable.tree_isSome forest id
      rcases Option.isSome_iff_exists.mp finished with ⟨tree, found⟩
      have isTree : db.jobTree id = some tree := found
      simp [groups, isTree, induction, group]

theorem candidates_of_forest (forest : db.Forest) (completedCutoff failedCutoff : Time) :
    db.candidates (formatTime completedCutoff) (formatTime failedCutoff) =
      some (db.rootIDs.filter (db.textExpired completedCutoff failedCutoff)) := by
  rw [candidates, groups_of_forest forest, Option.map_some, List.filter_map, List.map_map]
  congr 1
  exact List.map_id _

/-- Two roots of one job are the same, unless a job has the empty id that a root
may name as its parent. -/
theorem root_unique (named : ∀ row ∈ db.jobs.rows, row.id ≠ "") {left right member : String}
    (leftRoot : left ∈ db.rootIDs) (rightRoot : right ∈ db.rootIDs)
    (inLeft : db.InSubtree left member) (inRight : db.InSubtree right member) :
    left = right := by
  have top : ∀ upper lower, lower ∈ db.rootIDs → upper ∈ db.jobs.rows.map Row.id →
      ParentTable.Below Row.id Row.parentID db.jobs.rows upper lower → upper = lower := by
    intro upper lower isRoot present below
    cases below with
    | refl => rfl
    | tail path edge =>
        rcases edge with ⟨row, inRows, isLower, names⟩
        rcases mem_rootIDs.mp isRoot with ⟨root, rootInRows, noParent, isRootID⟩
        have same := JobTable.eq_of_id inRows rootInRows (isLower.trans isRootID.symm)
        subst same
        simp only [Row.isRoot, names, Bool.or_eq_true, beq_iff_eq, Option.some.injEq,
          reduceCtorEq, false_or] at noParent
        subst noParent
        have emptyPresent : "" ∈ db.jobs.rows.map Row.id :=
          ParentTable.InTree.member_mem ⟨present, path⟩
        rcases List.mem_map.mp emptyPresent with ⟨empty, emptyInRows, isEmpty⟩
        exact absurd isEmpty (named empty emptyInRows)
  rcases ParentTable.Below.comparable db.jobs.primaryKey inLeft.2 inRight.2 with above | below
  · exact top left right rightRoot inLeft.1 above
  · exact (top right left leftRoot inRight.1 below).symm

/-- Deleting the trees of some roots removes these roots and no others. -/
theorem mem_removedRoots {db' : Database} (named : ∀ row ∈ db.jobs.rows, row.id ≠ "")
    {roots : List String} (areRoots : roots ⊆ db.rootIDs)
    (pruned : ParentTable.Pruned Row.id Row.parentID db.jobs.rows db'.jobs.rows (· ∈ roots))
    (id : String) : id ∈ db.removedRoots db' ↔ id ∈ roots := by
  simp only [removedRoots, List.mem_filter, Bool.not_eq_true', ← Bool.not_eq_true,
    JobTable.contains_iff]
  constructor
  · intro removed
    rcases mem_rootIDs.mp removed.1 with ⟨row, inRows, _, rfl⟩
    by_contra notSelected
    apply removed.2
    apply List.mem_map_of_mem
    rw [pruned row]
    refine ⟨inRows, ?_⟩
    intro root isSelected inTree
    have same := root_unique named (areRoots isSelected) removed.1 inTree
      (ParentTable.InTree.refl (List.mem_map_of_mem inRows))
    exact notSelected (same ▸ isSelected)
  · intro isSelected
    refine ⟨areRoots isSelected, fun left => ?_⟩
    rcases List.mem_map.mp left with ⟨row, inPruned, rfl⟩
    rcases (pruned row).mp inPruned with ⟨inRows, kept⟩
    exact kept row.id isSelected (ParentTable.InTree.refl (List.mem_map_of_mem inRows))

/-- The trees that the limit lets through, by the number of those before them. -/
theorem mem_take_expired (textExpired : String → Bool) (limit : Nat) (id : String) :
    id ∈ (db.rootIDs.filter textExpired).take limit ↔
      id ∈ db.rootIDs ∧ textExpired id = true ∧
        (db.rootIDs.countP fun other => decide (other < id) && textExpired other) < limit := by
  have increasing := db.rootIDs_increasing.filter textExpired
  rw [mem_take_iff_countP_lt increasing, List.mem_filter, List.countP_filter, and_assoc]

/-- One completed job. -/
def completedJob (completedAt : Time) : Database where
  jobs :=
    { rows := [Row.ofJob
        { Job.child "manga-1" none "pull_manga" "{}" "" [] Time.zero with
          status := .completed
          completedAt := some completedAt }]
      primaryKey := by simp }
  jobMetadata := []

theorem completedJob_forest (completedAt : Time) : (completedJob completedAt).Forest := by
  apply ParentTable.Acyclic.ofRank fun _ => 0
  intro row member ancestor names
  rw [List.mem_singleton.mp member] at names
  cases names

theorem completedJob_named (completedAt : Time) :
    ∀ row ∈ (completedJob completedAt).jobs.rows, row.id ≠ "" := by
  intro row member
  rw [List.mem_singleton.mp member]
  simp [Job.child]

end Database

end Kiyomi.Queue.Sqlite
