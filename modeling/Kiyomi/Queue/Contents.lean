import Kiyomi.Queue.InMemory.Driver
import Kiyomi.Queue.Sqlite.Store

namespace Kiyomi.Queue

open Go ParentTable

/-! # What a driver holds, whatever its representation

The tables of one driver and the map of the other are compared as lists of jobs.
Times are left out, as each driver reads its own clock, and so is the number of
children, which both count when a job is read. -/

/-- The job without its times. -/
def Job.withoutTimes (job : Job) : Job :=
  { job with
    createdAt := Time.zero
    updatedAt := Time.zero
    startedAt := none
    completedAt := none }

/-- What is stored of a job. -/
def Job.content (job : Job) : Job := { job.withoutTimes with childCount := 0 }

@[simp] theorem Job.content_id (job : Job) : job.content.id = job.id := rfl
@[simp] theorem Job.content_parentID (job : Job) : job.content.parentID = job.parentID := rfl

namespace Sqlite

def entriesOf (jobMetadata : List MetadataRow) (id : String) : List (String × String) :=
  (jobMetadata.filter fun entry => entry.jobID == id).map fun entry => (entry.key, entry.value)

def Row.content (jobMetadata : List MetadataRow) (row : Row) : Job where
  id := row.id
  parentID := row.parentID
  type := row.type
  payload := row.payload
  status := row.status
  retries := row.retries
  maxRetries := row.maxRetries
  concurrencyGroup := row.concurrencyGroup
  error := row.error.getD ""
  createdAt := Time.zero
  updatedAt := Time.zero
  startedAt := none
  completedAt := none
  childCount := 0
  metadata := entriesOf jobMetadata row.id

@[simp] theorem Row.content_id (jobMetadata : List MetadataRow) (row : Row) :
    (row.content jobMetadata).id = row.id := rfl

def Database.contents (db : Database) : List Job := db.jobs.rows.map (Row.content db.jobMetadata)

end Sqlite

def InMemory.Store.contents (d : Store) : List Job := d.jobs.map Job.content

open Sqlite InMemory

/-- Both drivers hold the same jobs. The metadata rows belong to jobs, one for each key. -/
structure SameContents (db : Database) (d : Store) : Prop where
  contents : db.contents = d.contents
  owned : ∀ entry ∈ db.jobMetadata, entry.jobID ∈ db.jobs.rows.map Row.id
  keys : (db.jobMetadata.map fun entry => (entry.jobID, entry.key)).Nodup

/-- One operation on both drivers: it fails in both, or both hold the same jobs
afterwards. -/
def SameOutcome (left : Except DriverError Database) (right : Except DriverError Store) : Prop :=
  (∃ error, left = .error error ∧ right = .error error) ∨
  ∃ db d, left = .ok db ∧ right = .ok d ∧ SameContents db d

theorem SameContents.empty : SameContents Database.empty Store.empty where
  contents := rfl
  owned _ member := by cases member
  keys := List.nodup_nil

/-! ## Metadata rows -/

namespace Sqlite

def metadataRows (jobID : String) (metadata : List (String × String)) : List MetadataRow :=
  metadata.map fun (key, value) => { jobID, key, value }

theorem insertMetadata_of_unused {jobID : String} {metadata : List (String × String)}
    (distinct : (metadata.map Prod.fst).Nodup) :
    ∀ entries : List MetadataRow,
      (∀ entry ∈ entries, entry.jobID = jobID → entry.key ∉ metadata.map Prod.fst) →
      Database.insertMetadata entries jobID metadata =
        some (entries ++ metadataRows jobID metadata) := by
  induction metadata with
  | nil =>
      intro entries _
      simp [Database.insertMetadata, metadataRows]
  | cons entry metadata induction =>
      intro entries unused
      rw [List.map_cons, List.nodup_cons] at distinct
      have notTaken : ¬ (entries.any fun other =>
          other.jobID == jobID && other.key == entry.1) = true := by
        intro taken
        rcases List.any_eq_true.mp taken with ⟨other, member, equal⟩
        rw [Bool.and_eq_true, beq_iff_eq, beq_iff_eq] at equal
        exact unused other member equal.1 (by simp [equal.2])
      rw [Database.insertMetadata, if_neg notTaken, induction distinct.2]
      · simp [metadataRows]
      · intro other member isJob
        rcases List.mem_append.mp member with old | new
        · exact fun listed => unused other old isJob (List.mem_cons_of_mem _ listed)
        · rw [List.mem_singleton.mp new]
          exact distinct.1

theorem entriesOf_append (left right : List MetadataRow) (id : String) :
    entriesOf (left ++ right) id = entriesOf left id ++ entriesOf right id := by
  simp [entriesOf]

theorem entriesOf_metadataRows (jobID id : String) (metadata : List (String × String)) :
    entriesOf (metadataRows jobID metadata) id = if jobID = id then metadata else [] := by
  by_cases same : jobID = id
  · subst same
    simp [entriesOf, metadataRows, List.filter_map, Function.comp_def]
  · simp [entriesOf, metadataRows, List.filter_map, Function.comp_def, same]

theorem entriesOf_filter {entries : List MetadataRow} {condition : MetadataRow → Bool}
    {id : String} (kept : ∀ entry ∈ entries, entry.jobID = id → condition entry = true) :
    entriesOf (entries.filter condition) id = entriesOf entries id := by
  simp only [entriesOf, List.filter_filter]
  congr 1
  apply List.filter_congr
  intro entry member
  by_cases isJob : entry.jobID = id
  · simp [isJob, kept entry member isJob]
  · simp [isJob]

theorem entriesOf_eq_nil {entries : List MetadataRow} {id : String}
    (unowned : ∀ entry ∈ entries, entry.jobID ≠ id) : entriesOf entries id = [] := by
  simpa [entriesOf] using unowned

theorem keys_append_metadataRows {entries : List MetadataRow} {jobID : String}
    {metadata : List (String × String)}
    (keys : (entries.map fun entry => (entry.jobID, entry.key)).Nodup)
    (unowned : ∀ entry ∈ entries, entry.jobID ≠ jobID)
    (distinct : (metadata.map Prod.fst).Nodup) :
    ((entries ++ metadataRows jobID metadata).map fun entry =>
      (entry.jobID, entry.key)).Nodup := by
  rw [List.map_append]
  refine List.nodup_append.mpr ⟨keys, ?_, ?_⟩
  · have split : (metadataRows jobID metadata).map (fun entry => (entry.jobID, entry.key)) =
        (metadata.map Prod.fst).map fun key => (jobID, key) := by
      simp [metadataRows]
    rw [split]
    exact distinct.map fun left right equal => (Prod.mk.inj equal).2
  · intro left leftMember right rightMember equal
    rcases List.mem_map.mp leftMember with ⟨entry, member, rfl⟩
    rcases List.mem_map.mp rightMember with ⟨other, otherMember, rfl⟩
    rcases List.mem_map.mp otherMember with ⟨_, _, rfl⟩
    exact unowned entry member (Prod.mk.inj equal).1

end Sqlite

/-! ## Same jobs, same trees -/

namespace SameContents

variable {db : Database} {d : Store}

theorem ids (same : SameContents db d) : db.jobs.rows.map Row.id = d.jobs.map Job.id := by
  have equal := congrArg (List.map Job.id) same.contents
  rw [Database.contents, Store.contents, List.map_map, List.map_map] at equal
  exact equal

theorem contains (same : SameContents db d) (id : String) :
    db.jobs.contains id = d.contains id := by
  rw [Bool.eq_iff_iff, JobTable.contains_iff, Store.contains_iff, same.ids]

theorem edge_iff (same : SameContents db d) {ancestor child : String} :
    Edge Row.id Row.parentID db.jobs.rows ancestor child ↔
      Edge Job.id Job.parentID d.jobs ancestor child := by
  have rows : Edge Row.id Row.parentID db.jobs.rows ancestor child ↔
      Edge Job.id Job.parentID db.contents ancestor child := by
    simp [Edge, Database.contents, Row.content]
  have jobs : Edge Job.id Job.parentID d.jobs ancestor child ↔
      Edge Job.id Job.parentID d.contents ancestor child := by
    simp [Edge, Store.contents]
  rw [rows, jobs, same.contents]

theorem below_iff (same : SameContents db d) {ancestor descendant : String} :
    Below Row.id Row.parentID db.jobs.rows ancestor descendant ↔
      Below Job.id Job.parentID d.jobs ancestor descendant := by
  have edges : Edge Row.id Row.parentID db.jobs.rows = Edge Job.id Job.parentID d.jobs := by
    funext ancestor child
    exact propext same.edge_iff
  rw [Below, Below, edges]

theorem forest (same : SameContents db d) (acyclic : Acyclic Job.id Job.parentID d.jobs) :
    db.Forest := by
  intro ancestor cycle
  apply acyclic ancestor
  exact Relation.TransGen.mono (fun _ _ => same.edge_iff.mp) _ _ cycle

/-- Acyclic parents make the recursive statements end. -/
theorem jobTree (same : SameContents db d) (acyclic : Acyclic Job.id Job.parentID d.jobs)
    {id : String} (present : id ∈ d.jobs.map Job.id) :
    ∃ ids, db.jobTree id = some ids ∧
      ∀ key, key ∈ ids ↔ Below Job.id Job.parentID d.jobs id key := by
  rcases Option.isSome_iff_exists.mp (tree_isSome (same.forest acyclic) id) with ⟨ids, finished⟩
  refine ⟨ids, finished, fun key => ?_⟩
  rw [Database.mem_jobTree finished, ← same.below_iff]
  exact and_iff_right (same.ids ▸ present)

/-! ## Operations that keep the contents the same -/

/-- An insert of the same content on both sides. -/
theorem insert (same : SameContents db d) {row job : Job}
    (content : row.content = job.content) (fresh : job.id ∉ d.jobs.map Job.id)
    (distinct : (row.metadata.map Prod.fst).Nodup) {d' : Store} (jobs : d'.jobs = d.jobs ++ [job]) :
    ∃ db', db.createJob row = .ok db' ∧ SameContents db' d' := by
  have sameId : row.id = job.id := by simpa using congrArg Job.id content
  rw [← sameId, ← same.ids] at fresh
  have unowned : ∀ entry ∈ db.jobMetadata, entry.jobID ≠ row.id := by
    intro entry member isJob
    exact fresh (isJob ▸ same.owned entry member)
  rcases @JobTable.insert_of_fresh db.jobs (Row.ofJob row) fresh with ⟨table, inserted, rows⟩
  have metadata := @insertMetadata_of_unused row.id _ distinct db.jobMetadata
    fun entry member isJob => absurd isJob (unowned entry member)
  refine ⟨{ jobs := table, jobMetadata := db.jobMetadata ++ metadataRows row.id row.metadata },
    ?_, ?_, ?_, ?_⟩
  · rw [Database.createJob, inserted]
    simp only [metadata]
  · rw [Database.contents, Store.contents, rows, jobs, List.map_append, List.map_append]
    have oldRows : db.jobs.rows.map (Row.content (db.jobMetadata ++
        metadataRows row.id row.metadata)) = db.contents := by
      apply List.map_congr_left
      intro other member
      have different : row.id ≠ other.id := fun equal =>
        fresh (equal ▸ List.mem_map_of_mem member)
      simp [Row.content, entriesOf_append, entriesOf_metadataRows, different]
    rw [oldRows, same.contents, Store.contents, List.map_singleton, List.map_singleton, ← content]
    simp [Row.content, Job.content, Job.withoutTimes, Row.ofJob, entriesOf_append,
      entriesOf_metadataRows, entriesOf_eq_nil unowned]
  · intro entry member
    rw [rows, List.map_append, List.mem_append]
    rcases List.mem_append.mp member with old | new
    · exact .inl (same.owned entry old)
    · rcases List.mem_map.mp new with ⟨_, _, rfl⟩
      exact .inr List.mem_cons_self
  · exact keys_append_metadataRows same.keys unowned distinct

/-- Rows and jobs that change their contents alike. -/
theorem map (same : SameContents db d) (change : Job → Job) {db' : Database} {d' : Store}
    (rowChange : Row → Row) (rows : db'.jobs.rows = db.jobs.rows.map rowChange)
    (rowContent : ∀ row ∈ db.jobs.rows, (rowChange row).content db'.jobMetadata =
      change (row.content db.jobMetadata))
    (jobChange : Job → Job) (jobs : d'.jobs = d.jobs.map jobChange)
    (jobContent : ∀ job ∈ d.jobs, (jobChange job).content = change job.content) :
    db'.contents = d'.contents := by
  have left : db'.contents = db.contents.map change := by
    rw [Database.contents, Database.contents, rows, List.map_map, List.map_map]
    exact List.map_congr_left rowContent
  have right : d'.contents = d.contents.map change := by
    rw [Store.contents, Store.contents, jobs, List.map_map, List.map_map]
    exact List.map_congr_left jobContent
  rw [left, right, same.contents]

/-- An update of columns that leaves the metadata alone. -/
theorem update (same : SameContents db d) (change : Job → Job) {rowCondition : Row → Bool}
    {rowSet : Row → Row} {jobCondition : Job → Bool} {jobSet : Job → Job}
    (rowContent : ∀ row ∈ db.jobs.rows,
      (if rowCondition row then { rowSet row with id := row.id } else row).content
        db.jobMetadata = change (row.content db.jobMetadata))
    (jobContent : ∀ job ∈ d.jobs,
      (if jobCondition job then { jobSet job with id := job.id } else job).content =
        change job.content) :
    SameContents { db with jobs := db.jobs.update rowCondition rowSet }
      (d.modify jobCondition jobSet) where
  contents := same.map change _ rfl rowContent _ rfl jobContent
  owned entry member := by
    rw [JobTable.update_ids]
    exact same.owned entry member
  keys := same.keys

theorem createJob (same : SameContents db d) {job : Job}
    (distinct : (job.metadata.map Prod.fst).Nodup) :
    SameOutcome (db.createJob job) (d.createJob job) := by
  by_cases taken : job.id ∈ d.jobs.map Job.id
  · left
    have rowTaken : (Row.ofJob job).id ∈ db.jobs.rows.map Row.id := same.ids ▸ taken
    refine ⟨.alreadyExists, ?_, ?_⟩
    · rw [Database.createJob, JobTable.insert_of_taken rowTaken]
    · rw [Store.createJob, Store.insert_of_taken taken]
  · right
    rcases Store.insert_of_fresh taken with ⟨d', inserted, jobs⟩
    rcases same.insert rfl taken distinct jobs with ⟨db', created, same'⟩
    refine ⟨db', d', created, ?_, same'⟩
    rw [Store.createJob, inserted]

theorem updateJob (same : SameContents db d) {job : Job}
    (distinct : (job.metadata.map Prod.fst).Nodup) :
    SameOutcome (db.updateJob job) (d.updateJob job) := by
  by_cases contained : d.contains job.id = true
  · right
    have rowContained : db.jobs.contains job.id = true := by rw [same.contains, contained]
    have unowned : ∀ entry ∈ db.jobMetadata.filter fun entry => entry.jobID != job.id,
        entry.jobID ≠ job.id := by
      intro entry member
      simpa using (List.mem_filter.mp member).2
    have metadata := @insertMetadata_of_unused job.id _ distinct
      (db.jobMetadata.filter fun entry => entry.jobID != job.id)
      fun entry member isJob => absurd isJob (unowned entry member)
    have updated : db.updateJob job = .ok
        { jobs := db.jobs.update (fun row => row.id == job.id) fun _ => Row.ofJob job
          jobMetadata := (db.jobMetadata.filter fun entry => entry.jobID != job.id) ++
            metadataRows job.id job.metadata } := by
      rw [Database.updateJob, if_pos rowContained]
      simp only [metadata]
    have replaced : d.updateJob job =
        .ok (d.modify (fun other => other.id == job.id) fun _ => job) := by
      rw [Store.updateJob, if_pos contained]
    refine ⟨_, _, updated, replaced, ?_⟩
    · refine ⟨same.map (fun old => if old.id = job.id then job.content else old) _ rfl ?_ _ rfl ?_,
        ?_, ?_⟩
      · intro row _
        by_cases isJob : row.id = job.id
        · simp [isJob, Row.content, Row.ofJob, Job.content, Job.withoutTimes, entriesOf_append,
            entriesOf_metadataRows, entriesOf_eq_nil unowned]
        · have kept : entriesOf (db.jobMetadata.filter fun entry => entry.jobID != job.id)
              row.id = entriesOf db.jobMetadata row.id := by
            apply entriesOf_filter
            intro entry _ isRow
            simpa [isRow] using isJob
          simp [isJob, Ne.symm isJob, Row.content, entriesOf_append, entriesOf_metadataRows, kept]
      · intro other _
        by_cases isJob : other.id = job.id
        · simp [isJob, Job.content, Job.withoutTimes]
        · simp [isJob]
      · intro entry member
        rw [JobTable.update_ids]
        rcases List.mem_append.mp member with old | new
        · exact same.owned entry (List.mem_filter.mp old).1
        · rcases List.mem_map.mp new with ⟨_, _, rfl⟩
          exact JobTable.contains_iff.mp rowContained
      · exact keys_append_metadataRows
          ((List.filter_sublist.map _).nodup same.keys) unowned distinct
  · left
    have rowMissing : ¬ db.jobs.contains job.id = true := by rwa [same.contains]
    exact ⟨.jobNotFound, by rw [Database.updateJob, if_neg rowMissing], by
      rw [Store.updateJob, if_neg contained]⟩

/-- `Enqueue` of a job that is not there. -/
theorem enqueue_fresh (same : SameContents db d) {job : Job} (now : Time)
    (fresh : job.id ∉ d.jobs.map Job.id) (distinct : (job.metadata.map Prod.fst).Nodup) :
    ∃ job' db', db.enqueue job now = .ok (job', db') ∧ SameContents db' (d.mark job) := by
  have missing : ¬ db.jobs.contains job.id = true := by
    rwa [same.contains, Store.contains_iff]
  rcases @insert db d same { job with status := .pending, updatedAt := now, createdAt := now }
    { job with status := .pending } rfl fresh distinct (d.mark job) (Store.mark_of_fresh fresh) with
    ⟨db', created, same'⟩
  have enqueued : db.enqueue job now =
      .ok ({ job with status := .pending, updatedAt := now, createdAt := now }, db') := by
    unfold Database.enqueue
    simp only
    rw [if_neg missing, created]
  exact ⟨_, db', enqueued, same'⟩

/-- `Enqueue` of a job that is there clears its error text in the database only. -/
theorem enqueue_taken (same : SameContents db d) {job old : Job} (now : Time)
    (found : d.find? job.id = some old) :
    ∃ job' db', db.enqueue job now = .ok (job', db') ∧
      (SameContents db' (d.mark job) ↔ old.error = "") ∧
      (db'.contents = (d.mark job).contents → old.error = "") := by
  rcases Store.find?_eq_some.mp found with ⟨member, isJob⟩
  have taken : job.id ∈ d.jobs.map Job.id := isJob ▸ List.mem_map_of_mem member
  have contained : db.jobs.contains job.id = true := by
    rw [same.contains, Store.contains_iff]
    exact taken
  let cleared : Database :=
    { db with
      jobs := db.jobs.update (fun row => row.id == job.id) fun row =>
        { row with status := .pending, updatedAt := formatTime now, error := none } }
  have enqueued : db.enqueue job now =
      .ok ({ job with status := .pending, updatedAt := now }, cleared) := by
    unfold Database.enqueue
    simp only
    rw [if_pos contained]
  refine ⟨_, cleared, enqueued, ?_⟩
  rw [Store.mark_of_taken taken]
  have needed : cleared.contents = (d.modify (fun other => other.id == job.id)
      fun other => { other with status := .pending }).contents → old.error = "" := by
    intro contents
    have listed : Job.content { old with status := .pending } ∈
        (d.modify (fun other => other.id == job.id)
          fun other => { other with status := .pending }).contents := by
      refine List.mem_map.mpr ⟨_, List.mem_map.mpr ⟨old, member, ?_⟩, rfl⟩
      rw [if_pos (beq_iff_eq.mpr isJob)]
    rw [← contents] at listed
    rcases List.mem_map.mp listed with ⟨row, rowMember, content⟩
    rcases List.mem_map.mp rowMember with ⟨before, _, rfl⟩
    have sameId := congrArg Job.id content
    have sameError := congrArg Job.error content
    by_cases isRow : before.id = job.id
    · simpa [isRow, Row.content, Job.content, Job.withoutTimes] using sameError.symm
    · simp [isRow, isJob, Row.content, Job.content, Job.withoutTimes] at sameId
  refine ⟨⟨fun same' => needed same'.contents, fun noError => ?_⟩, needed⟩
  apply same.update fun content =>
    if content.id = job.id then { content with status := .pending, error := "" } else content
  · intro row _
    by_cases isRow : row.id = job.id <;> simp [isRow, Row.content]
  · intro other otherMember
    by_cases isOther : other.id = job.id
    · have sameJob : other = old := Store.eq_of_id otherMember member (isOther.trans isJob.symm)
      subst sameJob
      simp [isOther, Job.content, Job.withoutTimes, noError]
    · simp [isOther]

theorem cancelJob (same : SameContents db d) (acyclic : Acyclic Job.id Job.parentID d.jobs)
    (id : String) (now : Time) (clock : String → Time) :
    ∃ left right, db.cancelJob id now = some left ∧ d.cancelJob id clock = some right ∧
      SameOutcome left right := by
  by_cases present : id ∈ d.jobs.map Job.id
  · rcases same.jobTree acyclic present with ⟨ids, tree, inTree⟩
    rcases Store.cancelJob_present clock present with ⟨visited, cancelled, reached⟩
    have contained : db.jobs.contains id = true := by
      rw [same.contains, Store.contains_iff]
      exact present
    have sameKeys : ∀ key, key ∈ ids ↔ key ∈ visited := fun key => by rw [inTree, reached]
    have failed : db.cancelJob id now = some (.ok
        { db with
          jobs := db.jobs.update (fun row => ids.contains row.id && row.status.isLive)
            fun row =>
              { row with
                status := .failed
                error := some "job cancelled by user"
                updatedAt := formatTime now
                completedAt := some (formatTime now) } }) := by
      rw [Database.cancelJob, if_pos contained, tree, Option.map_some]
    refine ⟨_, _, failed, cancelled, .inr ⟨_, _, rfl, rfl, ?_⟩⟩
    apply same.update fun content =>
      if content.id ∈ visited ∧ content.status.isLive then
        { content with status := .failed, error := "job cancelled by user" } else content
    · intro row _
      by_cases hit : row.id ∈ visited ∧ row.status.isLive
      · simp [hit, sameKeys, Row.content]
      · simp [hit, sameKeys, Row.content]
    · intro job _
      by_cases hit : job.id ∈ visited ∧ job.status.isLive
      · simp [hit, Job.content, Job.withoutTimes, Store.cancelled]
      · simp [hit, Job.content, Job.withoutTimes]
  · have missing : ¬ db.jobs.contains id = true := by
      rwa [same.contains, Store.contains_iff]
    have refused : db.cancelJob id now = some (.error .jobNotFound) := by
      rw [Database.cancelJob, if_neg missing]
    exact ⟨_, _, refused, Store.cancelJob_absent clock present, .inl ⟨_, rfl, rfl⟩⟩

theorem deleteJob (same : SameContents db d) (acyclic : Acyclic Job.id Job.parentID d.jobs)
    (id : String) :
    ∃ left right, db.deleteJob id = some left ∧ d.deleteJob id = some right ∧
      SameOutcome left right := by
  by_cases present : id ∈ d.jobs.map Job.id
  · rcases same.jobTree acyclic present with ⟨ids, tree, inTree⟩
    rcases Store.deleteJob_without present with ⟨visited, deleted, reached⟩
    have sameKeys : ∀ key, key ∈ ids ↔ key ∈ visited := fun key => by rw [inTree, reached]
    have affected : (db.jobs.rows.any fun row => ids.contains row.id) = true := by
      rw [← same.ids] at present
      rcases List.mem_map.mp present with ⟨row, member, rfl⟩
      exact List.any_eq_true.mpr ⟨row, member, by simpa using (inTree row.id).mpr .refl⟩
    have kept : ∀ row ∈ (db.jobs.delete fun row => ids.contains row.id).rows,
        ∀ entry ∈ db.jobMetadata, entry.jobID = row.id →
          (db.jobs.delete fun row => ids.contains row.id).contains entry.jobID = true := by
      intro row member entry _ isRow
      rw [isRow, JobTable.contains_iff]
      exact List.mem_map_of_mem member
    have pruned : db.deleteJob id =
        some (.ok (db.deleteJobs fun row => ids.contains row.id)) := by
      rw [Database.deleteJob, tree, Option.map_some, if_pos affected]
    refine ⟨_, _, pruned, deleted, .inr ⟨_, _, rfl, rfl, ?_, ?_, ?_⟩⟩
    · have left : (db.deleteJobs fun row => ids.contains row.id).contents =
          db.contents.filter fun content => !visited.contains content.id := by
        rw [Database.contents, Database.contents, List.filter_map]
        have sameRows : (db.deleteJobs fun row => ids.contains row.id).jobs.rows =
            db.jobs.rows.filter
              ((fun content => !visited.contains content.id) ∘ Row.content db.jobMetadata) := by
          apply List.filter_congr
          intro row _
          have sameKey := sameKeys row.id
          by_cases listed : row.id ∈ visited
          · simp [sameKey.mpr listed, listed]
          · simp [mt sameKey.mp listed, listed]
        rw [← sameRows]
        apply List.map_congr_left
        intro row member
        simp only [Row.content, Job.mk.injEq, true_and]
        exact entriesOf_filter (kept row member)
      have right : (d.without visited).contents =
          d.contents.filter fun content => !visited.contains content.id := by
        rw [Store.contents, Store.contents, List.filter_map]
        rfl
      rw [left, right, same.contents]
    · intro entry member
      exact JobTable.contains_iff.mp (List.mem_filter.mp member).2
    · exact (List.filter_sublist.map _).nodup same.keys
  · have forest : db.Forest := same.forest acyclic
    rw [← same.ids] at present
    refine ⟨_, _, Database.deleteJob_absent forest present,
      Store.deleteJob_absent (same.ids ▸ present), .inl ⟨_, rfl, rfl⟩⟩

end SameContents

end Kiyomi.Queue
