import Kiyomi.Queue.Sqlite.Database
import Kiyomi.Queue.TreeStore
import Mathlib.Data.List.Sort

namespace Kiyomi.Queue.Sqlite

open Go

/-! # The SQLite driver as job store and enqueuer

Each operation is one database transaction. Its argument `now` is the reading of
`time.Now()` that the operation writes. -/

/-- The columns an insert writes for a job. -/
def Row.ofJob (job : Job) : Row where
  id := job.id
  parentID := job.parentID
  type := job.type
  payload := job.payload
  status := job.status
  retries := job.retries
  maxRetries := job.maxRetries
  concurrencyGroup := job.concurrencyGroup
  error := some job.error
  createdAt := formatTime job.createdAt
  updatedAt := formatTime job.updatedAt
  startedAt := job.startedAt.map formatTime
  completedAt := job.completedAt.map formatTime

@[simp] theorem Row.ofJob_id (job : Job) : (Row.ofJob job).id = job.id := rfl
@[simp] theorem Row.ofJob_status (job : Job) : (Row.ofJob job).status = job.status := rfl
@[simp] theorem Row.ofJob_parentID (job : Job) : (Row.ofJob job).parentID = job.parentID := rfl

namespace Database

def childCount (db : Database) (id : String) : Nat :=
  db.jobs.rows.countP fun row => row.parentID == some id

def metadataOf (db : Database) (id : String) : List (String × String) :=
  (db.jobMetadata.filter fun entry => entry.jobID == id).map fun entry =>
    (entry.key, entry.value)

/-- The job that `GetJob` and `ListJobs` build from a row. -/
def jobOfRow (db : Database) (row : Row) : Job where
  id := row.id
  parentID := row.parentID.filter (· != "")
  type := row.type
  payload := row.payload
  status := row.status
  retries := row.retries
  maxRetries := row.maxRetries
  concurrencyGroup := row.concurrencyGroup
  error := row.error.getD ""
  createdAt := (parseTime row.createdAt).getD Time.zero
  updatedAt := (parseTime row.updatedAt).getD Time.zero
  startedAt := row.startedAt.bind parseTime
  completedAt := row.completedAt.bind parseTime
  childCount := db.childCount row.id
  metadata := db.metadataOf row.id

/-- `Driver.CreateJob`. -/
def createJob (db : Database) (job : Job) : Except DriverError Database :=
  match db.jobs.insert (Row.ofJob job) with
  | none => .error .alreadyExists
  | some jobs =>
      match insertMetadata db.jobMetadata job.id job.metadata with
      | none => .error .alreadyExists
      | some jobMetadata => .ok { jobs, jobMetadata }

/-- `Driver.GetJob`; no job stands for `ErrJobNotFound`. -/
def getJob (db : Database) (id : String) : Option Job :=
  (db.jobs.find? id).map db.jobOfRow

/-- `Driver.UpdateJob`. -/
def updateJob (db : Database) (job : Job) : Except DriverError Database :=
  if db.jobs.contains job.id then
    let others := db.jobMetadata.filter fun entry => entry.jobID != job.id
    match insertMetadata others job.id job.metadata with
    | none => .error .alreadyExists
    | some jobMetadata =>
        .ok
          { jobs := db.jobs.update (fun row => row.id == job.id) fun _ => Row.ofJob job
            jobMetadata }
  else .error .jobNotFound

/-- `Driver.DeleteJob`. -/
def deleteJob (db : Database) (id : String) : Option (Except DriverError Database) :=
  (db.jobTree id).map fun ids =>
    if db.jobs.rows.any fun row => ids.contains row.id then
      .ok (db.deleteJobs fun row => ids.contains row.id)
    else .error .jobNotFound

/-- The conditions that `ListJobs` appends to its query. -/
def matchesFilter (db : Database) (filter : JobFilter) (row : Row) : Bool :=
  (filter.status == "" || row.status.text == filter.status) &&
  (filter.type == "" || row.type == filter.type) &&
  (match filter.parentID with
    | some parent => row.parentID == some parent
    | none => filter.all || row.parentID == none || row.parentID == some "") &&
  filter.metadata.all fun (key, value) =>
    db.jobMetadata.any fun entry =>
      entry.jobID == row.id && entry.key == key && entry.value == value

/-- `Driver.ListJobs`, newest creation text first. -/
def listJobs (db : Database) (filter : JobFilter) : List Job :=
  ((db.jobs.rows.filter (db.matchesFilter filter)).insertionSort
    fun left right => right.createdAt ≤ left.createdAt).map db.jobOfRow

/-- `Driver.Enqueue`: the job as the caller holds it afterwards and the database.
A row that exists is set to pending whatever its status is. -/
def enqueue (db : Database) (job : Job) (now : Time) : Except DriverError (Job × Database) :=
  let job := { job with status := .pending, updatedAt := now }
  if db.jobs.contains job.id then
    .ok (job,
      { db with
        jobs := db.jobs.update (fun row => row.id == job.id) fun row =>
          { row with status := .pending, updatedAt := formatTime now, error := none } })
  else
    let job := { job with createdAt := now }
    match db.createJob job with
    | .error error => .error error
    | .ok db => .ok (job, db)

/-- `Driver.CancelJob`. -/
def cancelJob (db : Database) (id : String) (now : Time) :
    Option (Except DriverError Database) :=
  if db.jobs.contains id then
    (db.jobTree id).map fun ids =>
      .ok
        { db with
          jobs := db.jobs.update
            (fun row => ids.contains row.id && row.status.isLive)
            fun row =>
              { row with
                status := .failed
                error := some "job cancelled by user"
                updatedAt := formatTime now
                completedAt := some (formatTime now) } }
  else some (.error .jobNotFound)

/-! ## What the operations change -/

theorem createJob_rows {db db' : Database} {job : Job} (created : db.createJob job = .ok db') :
    job.id ∉ db.jobs.rows.map Row.id ∧ db'.jobs.rows = db.jobs.rows ++ [Row.ofJob job] := by
  unfold createJob at created
  cases inserted : db.jobs.insert (Row.ofJob job) with
  | none => simp [inserted] at created
  | some jobs =>
      simp only [inserted] at created
      cases metadata : insertMetadata db.jobMetadata job.id job.metadata with
      | none => simp [metadata] at created
      | some entries =>
          simp only [metadata, Except.ok.injEq] at created
          subst created
          exact JobTable.insert_rows inserted

theorem deleteJob_rows {db db' : Database} {id : String}
    (deleted : db.deleteJob id = some (.ok db')) (row : Row) :
    row ∈ db'.jobs.rows ↔ row ∈ db.jobs.rows ∧ ¬ db.InSubtree id row.id := by
  unfold deleteJob at deleted
  rcases Option.map_eq_some_iff.mp deleted with ⟨ids, finished, outcome⟩
  split at outcome
  · cases outcome
    simp only [deleteJobs, JobTable.mem_delete, List.contains_eq_mem, decide_eq_false_iff_not,
      mem_jobTree finished]
  · contradiction

/-! ## The status of a job -/

def status? (db : Database) (id : String) : Option JobStatus :=
  (db.jobs.find? id).map Row.status

/-- The keys and parents of the rows, which decide every subtree. -/
def shape (db : Database) : List (String × Option String) :=
  db.jobs.rows.map fun row => (row.id, row.parentID)

theorem status?_eq_some {db : Database} {id : String} {status : JobStatus} :
    db.status? id = some status ↔ ∃ row ∈ db.jobs.rows, row.id = id ∧ row.status = status := by
  simp only [status?, Option.map_eq_some_iff, JobTable.find?_eq_some, and_assoc]

theorem status?_eq_none {db : Database} {id : String} :
    db.status? id = none ↔ id ∉ db.jobs.rows.map Row.id := by
  simp only [status?, Option.map_eq_none_iff, JobTable.find?_eq_none]

/-- Subtrees depend on the keys and parents only. -/
theorem inSubtree_iff_shape {db : Database} {root member : String} :
    db.InSubtree root member ↔ ParentTable.InTree Prod.fst Prod.snd db.shape root member := by
  have sameEdges : ParentTable.Edge Row.id Row.parentID db.jobs.rows =
      ParentTable.Edge Prod.fst Prod.snd db.shape := by
    funext ancestor child
    simp only [ParentTable.Edge, shape, List.mem_map, eq_iff_iff]
    constructor
    · intro edge
      rcases edge with ⟨row, member, isChild, names⟩
      exact ⟨_, ⟨row, member, rfl⟩, isChild, names⟩
    · intro edge
      rcases edge with ⟨_, ⟨row, member, rfl⟩, isChild, names⟩
      exact ⟨row, member, isChild, names⟩
  simp [InSubtree, ParentTable.InTree, ParentTable.Below, sameEdges, shape]

theorem inSubtree_congr {db db' : Database} (same : db'.shape = db.shape) {root member : String} :
    db'.InSubtree root member ↔ db.InSubtree root member := by
  rw [inSubtree_iff_shape, inSubtree_iff_shape, same]

/-- Adding a row whose parent is outside a subtree. -/
theorem inSubtree_concat {db db' : Database} {id : String} {parentID : Option String}
    (added : db'.shape = db.shape ++ [(id, parentID)]) {root member : String}
    (present : db.InSubtree root root)
    (outside : ∀ parent, parentID = some parent → ¬ db.InSubtree root parent) :
    db'.InSubtree root member ↔ db.InSubtree root member := by
  simp only [inSubtree_iff_shape] at present outside ⊢
  rw [added]
  exact ParentTable.inTree_concat present.1 outside

theorem update_shape (db : Database) (condition : Row → Bool) (set : Row → Row)
    (keepsParent : ∀ row, (set row).parentID = row.parentID) (entries : List MetadataRow) :
    shape { jobs := db.jobs.update condition set, jobMetadata := entries } = db.shape := by
  simp only [shape, JobTable.update, List.map_map]
  congr 1
  funext row
  simp only [Function.comp_apply]
  split
  · simp [keepsParent]
  · rfl

theorem update_status? (db : Database) (condition : Row → Bool) (set : Row → Row)
    (entries : List MetadataRow) (id : String) :
    status? { jobs := db.jobs.update condition set, jobMetadata := entries } id =
      (db.jobs.find? id).map fun row => if condition row then (set row).status else row.status := by
  simp only [status?, JobTable.find?_update, Option.map_map]
  congr 1
  funext row
  simp only [Function.comp_apply]
  split <;> rfl

/-- Writing one row by key changes the status of that job only. -/
theorem update_key_status? (db : Database) (key : String) (set : Row → Row)
    (status : JobStatus) (writes : ∀ row, (set row).status = status)
    (entries : List MetadataRow) (id : String) :
    status? { jobs := db.jobs.update (fun row => row.id == key) set, jobMetadata := entries } id =
      if id = key then (db.status? id).map fun _ => status else db.status? id := by
  rw [update_status?, status?]
  cases found : db.jobs.find? id with
  | none => simp
  | some row =>
      have sameId : row.id = id := (JobTable.find?_eq_some.mp found).2
      by_cases same : id = key
      · simp [same, sameId, writes]
      · simp [same, sameId]

theorem createJob_status? {db db' : Database} {job : Job}
    (created : db.createJob job = .ok db') (id : String) :
    db'.status? id = if id = job.id then some job.status else db.status? id := by
  unfold createJob at created
  cases inserted : db.jobs.insert (Row.ofJob job) with
  | none => simp [inserted] at created
  | some jobs =>
      simp only [inserted] at created
      cases metadata : insertMetadata db.jobMetadata job.id job.metadata with
      | none => simp [metadata] at created
      | some entries =>
          simp only [metadata, Except.ok.injEq] at created
          subst created
          have looked := JobTable.find?_insert inserted id
          rw [Row.ofJob_id] at looked
          rw [status?, looked]
          by_cases same : id = job.id
          · simp [same]
          · simp [status?, same]

/-- A successful `Enqueue` leaves its job pending and every other job alone. -/
theorem enqueue_status? {db db' : Database} {job job' : Job} {now : Time}
    (enqueued : db.enqueue job now = .ok (job', db')) (id : String) :
    db'.status? id = if id = job.id then some .pending else db.status? id := by
  unfold enqueue at enqueued
  simp only at enqueued
  split at enqueued
  · rename_i contained
    cases enqueued
    rw [update_key_status? db job.id _ .pending (fun _ => rfl)]
    by_cases same : id = job.id
    · have present : db.status? id ≠ none := by
        rw [Ne, status?_eq_none, same, not_not]
        exact JobTable.contains_iff.mp contained
      cases status : db.status? id with
      | none => exact absurd status present
      | some old => simp [same]
    · simp [same]
  · split at enqueued
    · contradiction
    · rename_i created
      cases enqueued
      exact createJob_status? created id

/-- A successful `Enqueue` keeps the shape of the table, or adds its own row. -/
theorem enqueue_shape {db db' : Database} {job job' : Job} {now : Time}
    (enqueued : db.enqueue job now = .ok (job', db')) :
    (db.status? job.id ≠ none ∧ db'.shape = db.shape) ∨
    (db.status? job.id = none ∧ db'.shape = db.shape ++ [(job.id, job.parentID)]) := by
  unfold enqueue at enqueued
  simp only at enqueued
  split at enqueued
  · rename_i contained
    cases enqueued
    refine .inl ⟨?_, ?_⟩
    · rw [Ne, status?_eq_none, not_not]
      exact JobTable.contains_iff.mp contained
    · apply update_shape
      intro row
      rfl
  · split at enqueued
    · contradiction
    · rename_i created
      cases enqueued
      rcases createJob_rows created with ⟨fresh, rows⟩
      refine .inr ⟨status?_eq_none.mpr fresh, ?_⟩
      simp [shape, rows]

/-- A cancellation that returned nil fails the live jobs of the subtree and
keeps every other status and the shape of the table. -/
theorem cancelJob_status? {db db' : Database} {root : String} {now : Time}
    (cancelled : db.cancelJob root now = some (.ok db')) :
    root ∈ db.jobs.rows.map Row.id ∧ db'.shape = db.shape ∧
    ∀ id status, db.status? id = some status →
      (db.InSubtree root id ∧ status.isLive ∧ db'.status? id = some .failed) ∨
      (¬ (db.InSubtree root id ∧ status.isLive) ∧ db'.status? id = some status) := by
  unfold cancelJob at cancelled
  split at cancelled
  · rename_i contained
    rcases Option.map_eq_some_iff.mp cancelled with ⟨ids, finished, outcome⟩
    cases outcome
    refine ⟨JobTable.contains_iff.mp contained, ?_, ?_⟩
    · apply update_shape
      intro row
      rfl
    intro id status present
    rcases Option.map_eq_some_iff.mp present with ⟨row, found, rfl⟩
    have sameId : row.id = id := (JobTable.find?_eq_some.mp found).2
    rw [update_status?, found, Option.map_some, sameId, ← mem_jobTree finished id]
    by_cases selected : id ∈ ids ∧ row.status.isLive
    · left
      simp [selected]
    · right
      refine ⟨selected, ?_⟩
      rw [if_neg (by simpa using selected)]
  · cases cancelled

theorem createJob_shape {db db' : Database} {job : Job} (created : db.createJob job = .ok db') :
    db.status? job.id = none ∧ db'.shape = db.shape ++ [(job.id, job.parentID)] := by
  rcases createJob_rows created with ⟨fresh, rows⟩
  exact ⟨status?_eq_none.mpr fresh, by simp [shape, rows]⟩

end Database

/-- The SQLite driver behind the `queue.JobStore` interface. -/
def jobStore : JobStore Database where
  listJobs := Database.listJobs
  deleteJob := Database.deleteJob

/-- The jobs form a forest: no job is its own ancestor. -/
def Database.Forest (db : Database) : Prop :=
  ParentTable.Acyclic Row.id Row.parentID db.jobs.rows

namespace Database

theorem deleteJob_present {db : Database} (forest : db.Forest) {id : String}
    (present : id ∈ db.jobs.rows.map Row.id) :
    ∃ db' : Database, db.deleteJob id = some (.ok db') ∧ db'.Forest ∧
      ParentTable.Pruned Row.id Row.parentID db.jobs.rows db'.jobs.rows (· = id) := by
  have finished := ParentTable.tree_isSome forest id
  rcases Option.isSome_iff_exists.mp finished with ⟨ids, tree⟩
  have affected : (db.jobs.rows.any fun row => ids.contains row.id) = true := by
    rcases List.mem_map.mp present with ⟨row, member, rfl⟩
    have inTree := (ParentTable.mem_tree tree row.id).mpr (ParentTable.InTree.refl present)
    exact List.any_eq_true.mpr ⟨row, member, by simpa using inTree⟩
  have deleted : db.deleteJob id = some (.ok (db.deleteJobs fun row => ids.contains row.id)) := by
    unfold deleteJob jobTree
    rw [tree, Option.map_some, if_pos affected]
  have left := deleteJob_rows deleted
  refine ⟨_, deleted, ?_, ?_⟩
  · exact forest.mono fun row member => ((left row).mp member).1
  · intro row
    rw [left row]
    simp [InSubtree]

theorem deleteJob_absent {db : Database} (forest : db.Forest) {id : String}
    (absent : id ∉ db.jobs.rows.map Row.id) :
    db.deleteJob id = some (.error .jobNotFound) := by
  have finished := ParentTable.tree_isSome forest id
  rcases Option.isSome_iff_exists.mp finished with ⟨ids, tree⟩
  have unaffected : ¬ (db.jobs.rows.any fun row => ids.contains row.id) = true := by
    intro affected
    rcases List.any_eq_true.mp affected with ⟨row, _, listed⟩
    have inTree := (ParentTable.mem_tree tree row.id).mp (by simpa using listed)
    exact absent inTree.root_mem
  unfold deleteJob jobTree
  rw [tree, Option.map_some, if_neg unaffected]

theorem mem_listJobs_ofStatus {db : Database} {wanted : JobStatus} {id : String} :
    id ∈ (db.listJobs (.ofStatus wanted.text)).map Job.id ↔
      ∃ row ∈ db.jobs.rows, row.id = id ∧ row.status = wanted := by
  have selects : ∀ row : Row, db.matchesFilter (.ofStatus wanted.text) row = true ↔
      row.status = wanted := by
    intro row
    simp [matchesFilter, JobFilter.ofStatus]
  simp only [listJobs, List.mem_map, List.mem_insertionSort, List.mem_filter, selects]
  constructor
  · intro listed
    rcases listed with ⟨_, ⟨row, ⟨member, status⟩, rfl⟩, isId⟩
    exact ⟨row, member, isId, status⟩
  · intro present
    rcases present with ⟨row, member, isId, status⟩
    exact ⟨_, ⟨row, ⟨member, status⟩, rfl⟩, isId⟩

end Database

def treeStore : TreeStore jobStore Row where
  key := Row.id
  parent := Row.parentID
  status := Row.status
  rows db := db.jobs.rows
  Valid := Database.Forest
  listJobs _ _ _ _ := Database.mem_listJobs_ofStatus
  deletePresent _ forest _ present := Database.deleteJob_present forest present
  deleteAbsent _ forest _ absent := ⟨.jobNotFound, Database.deleteJob_absent forest absent⟩

end Kiyomi.Queue.Sqlite
