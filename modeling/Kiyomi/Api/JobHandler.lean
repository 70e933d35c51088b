import Kiyomi.Queue.InMemory.Store
import Kiyomi.Queue.Sqlite.Store

namespace Kiyomi.Api

open Queue ParentTable

/-! # The clean-up endpoint of the job API

`DELETE /api/v1/jobs` lists the jobs of each wanted status and deletes them one by
one, each with its whole tree. -/

structure CleanupResponse where
  deleted : Nat
  status : String
  deriving DecidableEq, Repr

/-- The statuses that the `status` parameter asks for. -/
def cleanupStatuses (statusParam : String) : List String :=
  if statusParam = "finished" ∨ statusParam = "all" then
    [JobStatus.completed.text, JobStatus.failed.text]
  else ((Go.split statusParam ',').map Go.trimSpace).filter (· ≠ "")

section Handler

variable {Store : Type} (store : JobStore Store)

def cleanupEach : Store → Nat → List String → Option (Store × Nat)
  | s, deletedCount, [] => some (s, deletedCount)
  | s, deletedCount, status :: statuses =>
      let jobs := store.listJobs s (.ofStatus status)
      match store.deleteEach s deletedCount (jobs.map Job.id) with
      | none => none
      | some (s, deletedCount) => cleanupEach s deletedCount statuses

/-- `Handler.cleanupJobs` for the query parameter `status`. -/
def cleanupJobs (s : Store) (statusParam : String) : Option (CleanupResponse × Store) :=
  let statusParam := if statusParam = "" then "completed" else statusParam
  (cleanupEach store s 0 (cleanupStatuses statusParam)).map fun (s, deleted) =>
    ({ deleted, status := statusParam }, s)

variable {store} {Row : Type} (trees : TreeStore store Row)

/-- The keys of the jobs whose status is one of `statuses`. -/
def selected (s : Store) (statuses : List JobStatus) (id : String) : Prop :=
  ∃ row ∈ trees.rows s, trees.key row = id ∧ trees.status row ∈ statuses

/-- The passes over the statuses delete the trees of all jobs that had one of them
to begin with: a job missing from a later listing went with an earlier tree. -/
theorem cleanupEach_pruned (statuses : List JobStatus) :
    ∀ (s : Store) (deletedCount : Nat), trees.Valid s →
      ∃ s' deletedCount',
        cleanupEach store s deletedCount (statuses.map JobStatus.text) =
          some (s', deletedCount') ∧
        Pruned trees.key trees.parent (trees.rows s) (trees.rows s')
          (selected trees s statuses) := by
  induction statuses with
  | nil =>
      intro s deletedCount _
      have nothing : selected trees s [] = fun _ => False := by
        funext id
        simp [selected]
      rw [nothing]
      exact ⟨s, deletedCount, rfl, Pruned.none (trees.rows s)⟩
  | cons status statuses induction =>
      intro s deletedCount valid
      rcases trees.deleteEach_pruned ((store.listJobs s (.ofStatus status.text)).map Job.id) s
        deletedCount valid with ⟨middle, middleCount, first, stillValid, pruned⟩
      rcases induction middle middleCount stillValid with ⟨s', deletedCount', rest, later⟩
      refine ⟨s', deletedCount', ?_, ?_⟩
      · rw [List.map_cons, cleanupEach, first]
        exact rest
      · apply (pruned.trans later).congr
        intro member
        constructor
        · intro below
          rcases below with ⟨root, isRoot, inTree⟩
          refine ⟨root, ?_, inTree⟩
          rcases isRoot with listed | ⟨row, inMiddle, isKey, hasStatus⟩
          · rcases (trees.listJobs s valid status root).mp listed with ⟨row, inRows, isKey, same⟩
            exact ⟨row, inRows, isKey, by simp [same]⟩
          · exact ⟨row, pruned.subset inMiddle, isKey, List.mem_cons_of_mem _ hasStatus⟩
        · intro below
          rcases below with ⟨root, ⟨row, inRows, isKey, hasStatus⟩, inTree⟩
          rcases List.mem_cons.mp hasStatus with same | later
          · exact ⟨root, .inl ((trees.listJobs s valid status root).mpr
              ⟨row, inRows, isKey, same⟩), inTree⟩
          · by_cases inMiddle : row ∈ trees.rows middle
            · exact ⟨root, .inr ⟨row, inMiddle, isKey, later⟩, inTree⟩
            · have gone : ∃ upper, upper ∈ (store.listJobs s (.ofStatus status.text)).map Job.id ∧
                  InTree trees.key trees.parent (trees.rows s) upper (trees.key row) := by
                by_contra kept
                apply inMiddle
                rw [pruned row]
                exact ⟨inRows, fun upper listed above => kept ⟨upper, listed, above⟩⟩
              rcases gone with ⟨upper, listed, above⟩
              rw [isKey] at above
              exact ⟨upper, .inl listed, above.trans inTree.2⟩

/-- The status filters with the statuses they stand for. -/
def cleanupFilters : List (String × List JobStatus) :=
  [("completed", [.completed]), ("failed", [.failed]), ("finished", [.completed, .failed])]

theorem cleanupStatuses_of_filter {statusParam : String} {statuses : List JobStatus}
    (filter : (statusParam, statuses) ∈ cleanupFilters) :
    statusParam ≠ "" ∧ cleanupStatuses statusParam = statuses.map JobStatus.text := by
  simp only [cleanupFilters, List.mem_cons, Prod.mk.injEq, List.not_mem_nil, or_false] at filter
  rcases filter with ⟨rfl, rfl⟩ | ⟨rfl, rfl⟩ | ⟨rfl, rfl⟩ <;> decide

/-- A clean-up keeps every live job exactly when no job it selects has a live one
in its tree. -/
theorem cleanupJobs_keeps_live_iff {statusParam : String} {statuses : List JobStatus}
    (filter : (statusParam, statuses) ∈ cleanupFilters) {s : Store} (valid : trees.Valid s) :
    ∃ response s', cleanupJobs store s statusParam = some (response, s') ∧
      ((∀ row ∈ trees.rows s, (trees.status row).isLive → row ∈ trees.rows s') ↔
        ∀ row ∈ trees.rows s, trees.status row ∈ statuses →
        ∀ live ∈ trees.rows s, (trees.status live).isLive →
          ¬ InTree trees.key trees.parent (trees.rows s) (trees.key row) (trees.key live)) := by
  rcases cleanupStatuses_of_filter filter with ⟨named, parsed⟩
  rcases cleanupEach_pruned trees statuses s 0 valid with ⟨s', deleted, cleaned, pruned⟩
  refine ⟨{ deleted, status := statusParam }, s', ?_, ?_⟩
  · rw [cleanupJobs]
    simp only [if_neg named, parsed, cleaned, Option.map_some]
  · constructor
    · intro keeps row inRows hasStatus live liveInRows isLive
      have left := (pruned live).mp (keeps live liveInRows isLive)
      exact left.2 (trees.key row) ⟨row, inRows, rfl, hasStatus⟩
    · intro apart live liveInRows isLive
      rw [pruned live]
      refine ⟨liveInRows, ?_⟩
      intro root isRoot
      rcases isRoot with ⟨row, inRows, rfl, hasStatus⟩
      exact apart row inRows hasStatus live liveInRows isLive

end Handler

/-! ## Both drivers -/

/-- With either driver, the clean-up of a forest of jobs spares the pending and
running ones exactly when none lies under a job that the filter selects. -/
theorem cleanupJobs_spares_live_iff {statusParam : String} {statuses : List JobStatus}
    (filter : (statusParam, statuses) ∈ cleanupFilters) :
    (∀ db : Sqlite.Database, db.Forest →
      ∃ response db', cleanupJobs Sqlite.jobStore db statusParam = some (response, db') ∧
        ((∀ row ∈ db.jobs.rows, row.status.isLive → row ∈ db'.jobs.rows) ↔
          ∀ row ∈ db.jobs.rows, row.status ∈ statuses →
          ∀ live ∈ db.jobs.rows, live.status.isLive → ¬ db.InSubtree row.id live.id)) ∧
    (∀ d : InMemory.Store,
      ∃ response d', cleanupJobs InMemory.jobStore d statusParam = some (response, d') ∧
        ((∀ job ∈ d.jobs, job.status.isLive → job ∈ d'.jobs) ↔
          ∀ job ∈ d.jobs, job.status ∈ statuses →
          ∀ live ∈ d.jobs, live.status.isLive →
            ¬ InTree Job.id Job.parentID d.jobs job.id live.id)) :=
  ⟨fun _ forest => cleanupJobs_keeps_live_iff Sqlite.treeStore filter forest,
    fun _ => cleanupJobs_keeps_live_iff InMemory.treeStore filter trivial⟩

/-- A completed parent with a child that is still pending. -/
def pullTree : List Job :=
  [{ Job.child "manga-1" none "pull_manga" "{}" "" [] Go.Time.zero with status := .completed },
    Job.child "chapter-1" (some "manga-1") "pull_chapter" "{}" "" [] Go.Time.zero]

def pullDatabase : Sqlite.Database where
  jobs := ⟨pullTree.map Sqlite.Row.ofJob, by decide⟩
  jobMetadata := []

theorem pullDatabase_forest : pullDatabase.Forest := by
  apply Acyclic.ofRank fun id => if id = "chapter-1" then 1 else 0
  intro row member ancestor names
  rcases List.mem_map.mp member with ⟨job, inTree, rfl⟩
  simp only [pullTree, List.mem_cons, List.not_mem_nil, or_false] at inTree
  rcases inTree with rfl | rfl
  · cases names
  · cases names
    decide

theorem cleanupJobs_spares_live_iff_failed :
    (∃ response db', cleanupJobs Sqlite.jobStore pullDatabase "failed" = some (response, db') ∧
      ∀ row ∈ pullDatabase.jobs.rows, row.status.isLive → row ∈ db'.jobs.rows) ∧
    (∃ response d', cleanupJobs InMemory.jobStore ⟨pullTree, by decide⟩ "failed" =
        some (response, d') ∧
      ∀ job ∈ pullTree, job.status.isLive → job ∈ d'.jobs) := by
  have filter : ("failed", [JobStatus.failed]) ∈ cleanupFilters := by simp [cleanupFilters]
  have noneFailed : ∀ job ∈ pullTree, job.status ∉ [JobStatus.failed] := by decide
  rcases cleanupJobs_spares_live_iff filter with ⟨sqlite, inMemory⟩
  constructor
  · rcases sqlite pullDatabase pullDatabase_forest with ⟨response, db', cleaned, keeps⟩
    refine ⟨response, db', cleaned, keeps.mpr ?_⟩
    intro row member failed
    rcases List.mem_map.mp member with ⟨job, inTree, rfl⟩
    exact absurd failed (noneFailed job inTree)
  · rcases inMemory ⟨pullTree, by decide⟩ with ⟨response, d', cleaned, keeps⟩
    refine ⟨response, d', cleaned, keeps.mpr ?_⟩
    intro job member failed
    exact absurd failed (noneFailed job member)

/-- Cleaning up the completed parent takes its pending child along. -/
theorem cleanupJobs_removes_pending_child :
    ¬ ∀ statusParam statuses, (statusParam, statuses) ∈ cleanupFilters →
      (∀ db : Sqlite.Database, db.Forest → ∀ response db',
        cleanupJobs Sqlite.jobStore db statusParam = some (response, db') →
        ∀ row ∈ db.jobs.rows, row.status.isLive → row ∈ db'.jobs.rows) ∧
      (∀ d : InMemory.Store, ∀ response d',
        cleanupJobs InMemory.jobStore d statusParam = some (response, d') →
        ∀ job ∈ d.jobs, job.status.isLive → job ∈ d'.jobs) := by
  intro spares
  have cleaned : (cleanupJobs Sqlite.jobStore pullDatabase "completed").map
      (fun (response, db') => (response, db'.jobs.rows)) =
      some ({ deleted := 1, status := "completed" }, []) := by decide +kernel
  rcases Option.map_eq_some_iff.mp cleaned with ⟨⟨response, db'⟩, cleaned, observed⟩
  have kept := (spares "completed" [.completed] (by simp [cleanupFilters])).1 pullDatabase
    pullDatabase_forest response db' cleaned
    (Sqlite.Row.ofJob
      (Job.child "chapter-1" (some "manga-1") "pull_chapter" "{}" "" [] Go.Time.zero))
    (by simp [pullDatabase, pullTree]) rfl
  rw [Prod.mk.injEq] at observed
  rw [observed.2] at kept
  cases kept

end Kiyomi.Api
