import Kiyomi.Foundation.ParentTable
import Kiyomi.Queue.Job

namespace Kiyomi.Queue

open ParentTable

/-! # What callers may rely on in a job store

Both drivers keep a table of jobs with parent pointers: listing by status finds
the jobs of that status, and deleting a job takes its whole tree. -/

structure TreeStore (store : JobStore Store) (Row : Type) where
  key : Row → String
  parent : Row → Option String
  status : Row → JobStatus
  rows : Store → List Row
  Valid : Store → Prop
  listJobs : ∀ s, Valid s → ∀ wanted id,
    id ∈ (store.listJobs s (.ofStatus wanted.text)).map Job.id ↔
      ∃ row ∈ rows s, key row = id ∧ status row = wanted
  deletePresent : ∀ s, Valid s → ∀ id ∈ (rows s).map key,
    ∃ s', store.deleteJob s id = some (.ok s') ∧ Valid s' ∧
      Pruned key parent (rows s) (rows s') (· = id)
  deleteAbsent : ∀ s, Valid s → ∀ id, id ∉ (rows s).map key →
    ∃ error, store.deleteJob s id = some (.error error)

/-- Delete jobs one after the other and count the deletions that succeed. -/
def JobStore.deleteEach (store : JobStore Store) :
    Store → Nat → List String → Option (Store × Nat)
  | s, deleted, [] => some (s, deleted)
  | s, deleted, id :: ids =>
      match store.deleteJob s id with
      | none => none
      | some (.error _) => store.deleteEach s deleted ids
      | some (.ok s) => store.deleteEach s (deleted + 1) ids

namespace TreeStore

variable {store : JobStore Store} (trees : TreeStore store Row)

theorem deleteEach_pruned (ids : List String) :
    ∀ (s : Store) (deleted : Nat), trees.Valid s →
      ∃ s' deleted', store.deleteEach s deleted ids = some (s', deleted') ∧ trees.Valid s' ∧
        Pruned trees.key trees.parent (trees.rows s) (trees.rows s') (· ∈ ids) := by
  induction ids with
  | nil =>
      intro s deleted valid
      refine ⟨s, deleted, rfl, valid, ?_⟩
      simpa using Pruned.none (trees.rows s)
  | cons id ids induction =>
      intro s deleted valid
      by_cases present : id ∈ (trees.rows s).map trees.key
      · rcases trees.deletePresent s valid id present with ⟨middle, removed, stillValid, first⟩
        rcases induction middle (deleted + 1) stillValid with
          ⟨s', deleted', rest, finallyValid, later⟩
        refine ⟨s', deleted', ?_, finallyValid, ?_⟩
        · rw [JobStore.deleteEach, removed]
          exact rest
        · simpa [List.mem_cons] using first.trans later
      · rcases trees.deleteAbsent s valid id present with ⟨error, refused⟩
        rcases induction s deleted valid with ⟨s', deleted', rest, finallyValid, later⟩
        refine ⟨s', deleted', ?_, finallyValid, ?_⟩
        · rw [JobStore.deleteEach, refused]
          exact rest
        · apply later.congr
          intro member
          constructor
          · intro below
            rcases below with ⟨root, listed, inTree⟩
            exact ⟨root, List.mem_cons_of_mem _ listed, inTree⟩
          · intro below
            rcases below with ⟨root, listed, inTree⟩
            rcases List.mem_cons.mp listed with rfl | inRest
            · exact absurd inTree.root_mem present
            · exact ⟨root, inRest, inTree⟩

end TreeStore

end Kiyomi.Queue
