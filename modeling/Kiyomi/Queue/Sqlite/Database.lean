import Kiyomi.Foundation.ParentTable
import Kiyomi.Queue.Job
import Mathlib.Data.List.Nodup

namespace Kiyomi.Queue.Sqlite

open Go

/-! # The tables of the job database

Timestamps are text columns written by `formatTime`; an absent one is `NULL`. -/

/-- `formatTime` of a non-nil time. -/
def formatTime (t : Time) : String := t.format

/-- `parseTime`, nil for text that is not a timestamp. -/
def parseTime (s : String) : Option Time := if s = "" then none else Go.parse s

structure Row where
  id : String
  parentID : Option String
  type : String
  payload : String
  status : JobStatus
  retries : Int
  maxRetries : Int
  concurrencyGroup : String
  error : Option String
  createdAt : String
  updatedAt : String
  startedAt : Option String
  completedAt : Option String
  deriving DecidableEq, Repr

structure MetadataRow where
  jobID : String
  key : String
  value : String
  deriving DecidableEq, Repr

/-- The `jobs` table with its primary key. -/
structure JobTable where
  rows : List Row
  primaryKey : (rows.map Row.id).Nodup

namespace JobTable

def empty : JobTable := ⟨[], by simp⟩

def find? (table : JobTable) (id : String) : Option Row :=
  table.rows.find? fun row => row.id == id

def contains (table : JobTable) (id : String) : Bool :=
  table.rows.any fun row => row.id == id

/-- `UPDATE jobs SET … WHERE …` of columns other than the key. -/
def update (table : JobTable) (condition : Row → Bool) (set : Row → Row) : JobTable where
  rows := table.rows.map fun row =>
    if condition row then { set row with id := row.id } else row
  primaryKey := by
    rw [List.map_map]
    have sameIds : (Row.id ∘ fun row : Row =>
        if condition row then { set row with id := row.id } else row) = Row.id := by
      funext row
      simp only [Function.comp_apply]
      split <;> rfl
    rw [sameIds]
    exact table.primaryKey

/-- `DELETE FROM jobs WHERE …`. -/
def delete (table : JobTable) (condition : Row → Bool) : JobTable where
  rows := table.rows.filter fun row => !condition row
  primaryKey := (List.filter_sublist.map Row.id).nodup table.primaryKey

/-- `INSERT INTO jobs`, refused when the key is taken. -/
def insert (table : JobTable) (row : Row) : Option JobTable :=
  if fresh : row.id ∈ table.rows.map Row.id then none
  else some
    { rows := table.rows ++ [row]
      primaryKey := by
        rw [List.map_append, List.map_singleton]
        exact List.nodup_append.mpr ⟨table.primaryKey, by simp, by
          intro left leftMember right rightMember equal
          rw [List.mem_singleton.mp rightMember] at equal
          exact fresh (equal ▸ leftMember)⟩ }

theorem contains_iff {table : JobTable} {id : String} :
    table.contains id = true ↔ id ∈ table.rows.map Row.id := by
  simp [contains]

theorem insert_rows {table table' : JobTable} {row : Row}
    (inserted : table.insert row = some table') :
    row.id ∉ table.rows.map Row.id ∧ table'.rows = table.rows ++ [row] := by
  unfold insert at inserted
  split at inserted
  · contradiction
  · rename_i fresh
    cases inserted
    exact ⟨fresh, rfl⟩

theorem insert_of_fresh {table : JobTable} {row : Row}
    (fresh : row.id ∉ table.rows.map Row.id) :
    ∃ table', table.insert row = some table' ∧ table'.rows = table.rows ++ [row] := by
  unfold insert
  rw [dif_neg fresh]
  exact ⟨_, rfl, rfl⟩

theorem insert_of_taken {table : JobTable} {row : Row}
    (taken : row.id ∈ table.rows.map Row.id) : table.insert row = none := by
  unfold insert
  rw [dif_pos taken]

/-- Two rows with one key are the same row. -/
theorem eq_of_id {table : JobTable} {left right : Row} (leftMember : left ∈ table.rows)
    (rightMember : right ∈ table.rows) (equal : left.id = right.id) : left = right :=
  List.inj_on_of_nodup_map table.primaryKey leftMember rightMember equal

theorem mem_delete {table : JobTable} {condition : Row → Bool} {row : Row} :
    row ∈ (table.delete condition).rows ↔ row ∈ table.rows ∧ condition row = false := by
  simp [delete]

theorem find?_eq_some {table : JobTable} {id : String} {row : Row} :
    table.find? id = some row ↔ row ∈ table.rows ∧ row.id = id := by
  constructor
  · intro found
    exact ⟨List.mem_of_find?_eq_some found, by simpa using List.find?_some found⟩
  · intro present
    rcases present with ⟨member, rfl⟩
    cases found : table.find? row.id with
    | none => simpa using List.find?_eq_none.mp found row member
    | some other =>
        have sameId : other.id = row.id := by simpa using List.find?_some found
        rw [eq_of_id (List.mem_of_find?_eq_some found) member sameId]

theorem find?_eq_none {table : JobTable} {id : String} :
    table.find? id = none ↔ id ∉ table.rows.map Row.id := by
  simp [find?]

theorem find?_update (table : JobTable) (condition : Row → Bool) (set : Row → Row)
    (id : String) :
    (table.update condition set).find? id = (table.find? id).map fun row =>
      if condition row then { set row with id := row.id } else row := by
  simp only [find?, update, List.find?_map]
  congr 2
  funext row
  simp only [Function.comp_apply]
  split <;> rfl

theorem find?_insert {table table' : JobTable} {row : Row}
    (inserted : table.insert row = some table') (id : String) :
    table'.find? id = if id = row.id then some row else table.find? id := by
  rcases insert_rows inserted with ⟨fresh, rows⟩
  by_cases same : id = row.id
  · rw [if_pos same, find?_eq_some, rows, same]
    simp
  · rw [if_neg same, find?, rows, List.find?_append]
    simp [find?, Ne.symm same]

@[simp] theorem update_ids (table : JobTable) (condition : Row → Bool) (set : Row → Row) :
    (table.update condition set).rows.map Row.id = table.rows.map Row.id := by
  simp only [update, List.map_map]
  congr 1
  funext row
  simp only [Function.comp_apply]
  split <;> rfl

end JobTable

structure Database where
  jobs : JobTable
  jobMetadata : List MetadataRow

namespace Database

def empty : Database := ⟨JobTable.empty, []⟩

/-- Delete rows of `jobs`; the foreign key of `job_metadata` cascades. -/
def deleteJobs (db : Database) (condition : Row → Bool) : Database :=
  let jobs := db.jobs.delete condition
  { jobs, jobMetadata := db.jobMetadata.filter fun entry => jobs.contains entry.jobID }

/-- Insert the metadata of a job entry by entry. -/
def insertMetadata (entries : List MetadataRow) (jobID : String) :
    List (String × String) → Option (List MetadataRow)
  | [] => some entries
  | (key, value) :: rest =>
      if entries.any fun entry => entry.jobID == jobID && entry.key == key then none
      else insertMetadata (entries ++ [{ jobID, key, value }]) jobID rest

/-- The `job_tree` of the recursive statements, from one job down. -/
def jobTree (db : Database) (id : String) : Option (List String) :=
  ParentTable.tree Row.id Row.parentID db.jobs.rows id

/-- `member` is the job `root` or a descendant of it. -/
def InSubtree (db : Database) (root member : String) : Prop :=
  ParentTable.InTree Row.id Row.parentID db.jobs.rows root member

theorem mem_jobTree {db : Database} {root : String} {ids : List String}
    (finished : db.jobTree root = some ids) (member : String) :
    member ∈ ids ↔ db.InSubtree root member :=
  ParentTable.mem_tree finished member

end Database

end Kiyomi.Queue.Sqlite
