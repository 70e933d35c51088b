import Kiyomi.Queue.InMemory.Driver
import Kiyomi.Queue.Sqlite.Store

namespace Kiyomi.Queue

open Go ParentTable

/-! # Cancelling and deleting on any parent graph

`CreateJob` takes any parent, the id of the job itself and that of a descendant included.
The loops in memory keep a visited set. The recursive statements of the database have
none and `UNION ALL` lists a key again each time it is reached. -/

/-- An operation on a stored job terminates and affects its tree as `affect` says; one on
an absent job terminates with an error. -/
structure ExactOn (key : Row → String) (parent : Row → Option String) (rows : Store → List Row)
    (operation : Store → Option (Except DriverError Store)) (affect : Row → Option Row)
    (s : Store) (id : String) : Prop where
  stored : id ∈ (rows s).map key → ∃ s', operation s = some (.ok s') ∧
    rows s' = affectTree key parent (rows s) id affect
  missing : id ∉ (rows s).map key → operation s = some (.error .jobNotFound)

namespace InMemory.Store

theorem cancelJob_exact (d : Store) (id : String) (now : String → Time) :
    ExactOn Job.id Job.parentID Store.jobs (fun d => d.cancelJob id now)
      (fun job => some (if job.status.isLive then cancelled (now job.id) job else job)) d id where
  stored present := by
    rcases cancelJob_present now present with ⟨visited, outcome, reached⟩
    refine ⟨_, outcome, ?_⟩
    rw [@affectTree_eq_map _ _ Job.id Job.parentID d.jobs id fun job => visited.contains job.id]
    · apply List.map_congr_left
      intro job _
      change (if visited.contains job.id && job.status.isLive then cancelled (now job.id) job
        else job) = _
      simp only [Bool.and_eq_true, ite_and]
    · intro job
      rw [List.contains_iff_mem, reached, InTree, and_iff_right present]
  missing absent := cancelJob_absent now absent

theorem deleteJob_exact (d : Store) (id : String) :
    ExactOn Job.id Job.parentID Store.jobs (fun d => d.deleteJob id) (fun _ => none) d id where
  stored present := by
    rcases deleteJob_without present with ⟨visited, outcome, reached⟩
    refine ⟨_, outcome, ?_⟩
    rw [@affectTree_eq_filter _ _ Job.id Job.parentID d.jobs id fun job => visited.contains job.id]
    · rfl
    · intro job
      rw [List.contains_iff_mem, reached, InTree, and_iff_right present]
  missing absent := deleteJob_absent absent

end InMemory.Store

namespace Sqlite.Database

/-- What `CancelJob` writes into the row of a live job. -/
def cancelled (now : Time) (row : Row) : Row :=
  { row with
    status := .failed
    error := some "job cancelled by user"
    updatedAt := formatTime now
    completedAt := some (formatTime now) }

/-- No job from `id` down is its own ancestor. -/
def NoCycleBelow (db : Database) (id : String) : Prop :=
  ∀ member, db.InSubtree id member →
    ¬ Relation.TransGen (Edge Row.id Row.parentID db.jobs.rows) member member

variable {db : Database} {id : String}

theorem jobTree_isSome_iff : (db.jobTree id).isSome ↔ db.NoCycleBelow id := tree_isSome_iff

theorem noCycleBelow_of_absent (absent : id ∉ db.jobs.rows.map Row.id) : db.NoCycleBelow id :=
  fun _ inSubtree => absurd inSubtree.root_mem absent

theorem cancelJob_exact_iff (db : Database) (id : String) (now : Time) :
    ExactOn Row.id Row.parentID (fun db : Database => db.jobs.rows) (fun db => db.cancelJob id now)
      (fun row => some (if row.status.isLive then cancelled now row else row)) db id ↔
    db.NoCycleBelow id := by
  by_cases present : id ∈ db.jobs.rows.map Row.id
  · have contained := JobTable.contains_iff.mpr present
    rw [← jobTree_isSome_iff]
    constructor
    · intro isExact
      rcases isExact.stored present with ⟨db', cancels, _⟩
      rw [cancelJob, if_pos contained] at cancels
      rcases Option.map_eq_some_iff.mp cancels with ⟨ids, finished, _⟩
      rw [finished]
      rfl
    · intro finished
      rcases Option.isSome_iff_exists.mp finished with ⟨ids, finished⟩
      refine ⟨fun _ => ⟨_, by rw [cancelJob, if_pos contained, finished, Option.map_some], ?_⟩,
        fun absent => absurd present absent⟩
      rw [@affectTree_eq_map _ _ Row.id Row.parentID db.jobs.rows id fun row => ids.contains row.id]
      · apply List.map_congr_left
        intro row _
        change (if ids.contains row.id && row.status.isLive then cancelled now row else row) = _
        simp only [Bool.and_eq_true, ite_and]
      · intro row
        rw [List.contains_iff_mem, mem_jobTree finished]
        rfl
  · refine iff_of_true ⟨fun isPresent => absurd isPresent present, fun absent => ?_⟩
      (noCycleBelow_of_absent present)
    rw [cancelJob, if_neg (mt JobTable.contains_iff.mp absent)]

theorem deleteJob_exact_iff (db : Database) (id : String) :
    ExactOn Row.id Row.parentID (fun db : Database => db.jobs.rows) (fun db => db.deleteJob id)
      (fun _ => none) db id ↔ db.NoCycleBelow id := by
  rw [← jobTree_isSome_iff]
  constructor
  · intro isExact
    by_cases present : id ∈ db.jobs.rows.map Row.id
    · rcases isExact.stored present with ⟨db', deletes, _⟩
      rcases Option.map_eq_some_iff.mp deletes with ⟨ids, finished, _⟩
      rw [finished]
      rfl
    · rcases Option.map_eq_some_iff.mp (isExact.missing present) with ⟨ids, finished, _⟩
      rw [finished]
      rfl
  · intro finished
    rcases Option.isSome_iff_exists.mp finished with ⟨ids, finished⟩
    refine ⟨fun present => ?_, fun absent => ?_⟩
    · have affected : (db.jobs.rows.any fun row => ids.contains row.id) = true := by
        rcases List.mem_map.mp present with ⟨row, member, rfl⟩
        have listed := (mem_jobTree finished row.id).mpr (InTree.refl present)
        exact List.any_eq_true.mpr ⟨row, member, List.contains_iff_mem.mpr listed⟩
      refine ⟨_, by rw [deleteJob, finished, Option.map_some, if_pos affected], ?_⟩
      rw [@affectTree_eq_filter _ _ Row.id Row.parentID db.jobs.rows id fun row =>
        ids.contains row.id]
      · rfl
      · intro row
        rw [List.contains_iff_mem, mem_jobTree finished]
        rfl
    · have unaffected : ¬ (db.jobs.rows.any fun row => ids.contains row.id) = true := by
        intro affected
        rcases List.any_eq_true.mp affected with ⟨row, _, listed⟩
        have inSubtree := (mem_jobTree finished row.id).mp (List.contains_iff_mem.mp listed)
        exact absent inSubtree.root_mem
      rw [deleteJob, finished, Option.map_some, if_neg unaffected]

end Sqlite.Database

/-- In memory both operations terminate and are exact on every graph. In the database they
are so exactly when no cycle is reachable from the job, and otherwise the recursive query
goes on through more and more generations. -/
theorem exact_iff_noCycleBelow (id : String) :
    (∀ (d : InMemory.Store) (clock : String → Time),
      ExactOn Job.id Job.parentID InMemory.Store.jobs (fun d => d.cancelJob id clock)
        (fun job => some
          (if job.status.isLive then InMemory.Store.cancelled (clock job.id) job else job)) d id ∧
      ExactOn Job.id Job.parentID InMemory.Store.jobs (fun d => d.deleteJob id)
        (fun _ => none) d id) ∧
    (∀ (db : Sqlite.Database) (now : Time),
      ((ExactOn Sqlite.Row.id Sqlite.Row.parentID (fun db : Sqlite.Database => db.jobs.rows)
        (fun db => db.cancelJob id now)
        (fun row => some
          (if row.status.isLive then Sqlite.Database.cancelled now row else row)) db id ∧
      ExactOn Sqlite.Row.id Sqlite.Row.parentID (fun db : Sqlite.Database => db.jobs.rows)
        (fun db => db.deleteJob id) (fun _ => none) db id) ↔
      db.NoCycleBelow id) ∧
      (¬ db.NoCycleBelow id → ∀ generations,
        descend Sqlite.Row.id Sqlite.Row.parentID db.jobs.rows generations
          ((db.jobs.rows.filter fun row => row.id == id).map Sqlite.Row.id) = none)) := by
  refine ⟨fun d clock => ⟨d.cancelJob_exact id clock, d.deleteJob_exact id⟩, fun db now => ⟨?_, ?_⟩⟩
  · rw [db.cancelJob_exact_iff, db.deleteJob_exact_iff, and_self]
  · intro cyclic
    apply descend_eq_none_of_tree
    rw [← Sqlite.Database.jobTree_isSome_iff, Option.not_isSome_iff_eq_none] at cyclic
    exact cyclic

/-- The endpoint takes a job whose parent is itself. -/
def selfParent : Job := .child "page-1" (some "page-1") "pull_page" "{}" "" [] Time.zero

/-- The recursive query of a job that is its own parent never ends. -/
theorem cancelJob_of_selfParent_diverges :
    ¬ ∀ (db : Sqlite.Database) (id : String) (now : Time),
      ExactOn Sqlite.Row.id Sqlite.Row.parentID (fun db : Sqlite.Database => db.jobs.rows)
        (fun db => db.cancelJob id now)
        (fun row => some
          (if row.status.isLive then Sqlite.Database.cancelled now row else row)) db id := by
  intro isExact
  have created : ∃ db, Sqlite.Database.empty.createJob selfParent = .ok db ∧
      "page-1" ∈ db.jobs.rows.map Sqlite.Row.id ∧ db.cancelJob "page-1" Time.zero = none :=
    ⟨_, rfl, by decide, by decide⟩
  rcases created with ⟨db, _, present, diverges⟩
  rcases (isExact db "page-1" Time.zero).stored present with ⟨db', cancels, _⟩
  rw [diverges] at cancels
  contradiction

end Kiyomi.Queue
