import Kiyomi.Queue.Sqlite.Worker

namespace Kiyomi.Queue.Sqlite

open Go

/-! # What the operations do to one row -/

namespace Database

variable {db db' : Database}

theorem find?_update_ne (table : JobTable) (condition : Row → Bool) (set : Row → Row)
    {id : String} (spared : ∀ row, table.find? id = some row → condition row = false) :
    (table.update condition set).find? id = table.find? id := by
  rw [JobTable.find?_update]
  cases found : table.find? id with
  | none => rfl
  | some row => simp [spared row found]

theorem find?_update_key_ne (table : JobTable) (set : Row → Row) {key id : String}
    (other : id ≠ key) : (table.update (fun row => row.id == key) set).find? id = table.find? id := by
  apply find?_update_ne
  intro row found
  rw [(JobTable.find?_eq_some.mp found).2]
  exact beq_eq_false_iff_ne.mpr other

theorem find?_createJob {job : Job} (created : db.createJob job = .ok db') (id : String) :
    db.jobs.find? job.id = none ∧
      db'.jobs.find? id = if id = job.id then some (Row.ofJob job) else db.jobs.find? id := by
  unfold createJob at created
  split at created
  · contradiction
  · rename_i jobs inserted
    split at created
    · contradiction
    · cases created
      refine ⟨?_, JobTable.find?_insert inserted id⟩
      exact JobTable.find?_eq_none.mpr (JobTable.insert_rows inserted).1

theorem find?_updateJob_ne {job : Job} (updated : db.updateJob job = .ok db') {id : String}
    (other : id ≠ job.id) : db'.jobs.find? id = db.jobs.find? id := by
  unfold updateJob at updated
  split at updated
  · simp only at updated
    split at updated
    · contradiction
    · cases updated
      exact find?_update_key_ne db.jobs _ other
  · contradiction

theorem find?_enqueue_ne {job job' : Job} {now : Time}
    (enqueued : db.enqueue job now = .ok (job', db')) {id : String} (other : id ≠ job.id) :
    db'.jobs.find? id = db.jobs.find? id := by
  unfold enqueue at enqueued
  simp only at enqueued
  split at enqueued
  · cases enqueued
    exact find?_update_key_ne db.jobs _ other
  · split at enqueued
    · contradiction
    · rename_i created
      cases enqueued
      rw [(find?_createJob created id).2]
      exact if_neg other

/-- `Enqueue` of a stored job writes its status, its error and its time only. -/
theorem find?_enqueue {job job' : Job} {now : Time} {row : Row}
    (enqueued : db.enqueue job now = .ok (job', db')) (found : db.jobs.find? job.id = some row) :
    db'.jobs.find? job.id =
      some { row with status := .pending, updatedAt := formatTime now, error := none } := by
  have isId := (JobTable.find?_eq_some.mp found).2
  have present : db.jobs.contains job.id = true := by
    rw [JobTable.contains_iff]
    exact List.mem_map.mpr ⟨row, JobTable.find?_eq_some.mp found⟩
  unfold enqueue at enqueued
  simp only [present, if_true] at enqueued
  cases enqueued
  rw [JobTable.find?_update, found, Option.map_some, if_pos (by simp [isId])]

theorem find?_cancelJob {root : String} {now : Time}
    (cancelled : db.cancelJob root now = some (.ok db')) {id : String}
    (spared : ¬ db.InSubtree root id) : db'.jobs.find? id = db.jobs.find? id := by
  unfold cancelJob at cancelled
  split at cancelled
  · rcases Option.map_eq_some_iff.mp cancelled with ⟨ids, finished, outcome⟩
    cases outcome
    apply find?_update_ne
    intro row found
    rw [(JobTable.find?_eq_some.mp found).2]
    have notListed : id ∉ ids := fun listed => spared ((mem_jobTree finished id).mp listed)
    simp [notListed]
  · cases cancelled

theorem find?_deleteJob {root : String} (deleted : db.deleteJob root = some (.ok db'))
    {id : String} (spared : ¬ db.InSubtree root id) :
    db'.jobs.find? id = db.jobs.find? id := by
  have rows := deleteJob_rows deleted
  cases found : db.jobs.find? id with
  | none =>
      rw [JobTable.find?_eq_none] at found ⊢
      intro present
      rcases List.mem_map.mp present with ⟨row, member, isId⟩
      exact found (List.mem_map.mpr ⟨row, ((rows row).mp member).1, isId⟩)
  | some row =>
      rcases JobTable.find?_eq_some.mp found with ⟨member, isId⟩
      exact JobTable.find?_eq_some.mpr ⟨(rows row).mpr ⟨member, isId ▸ spared⟩, isId⟩

end Database

/-! ## What a tick does to one row -/

/-- Columns that a tick never writes. -/
def Row.SameRetries (row row' : Row) : Prop :=
  row'.type = row.type ∧ row'.retries = row.retries ∧ row'.maxRetries = row.maxRetries

namespace Driver

variable {d : Driver} {env : PollEnv}

/-- The tick writes statuses, errors and times only. -/
structure Framed (before after : Database) : Prop where
  keeps : ∀ id row, before.jobs.find? id = some row →
    ∃ row', after.jobs.find? id = some row' ∧ row.SameRetries row'
  absent : ∀ id, before.jobs.find? id = none → after.jobs.find? id = none

theorem Framed.refl (db : Database) : Framed db db :=
  ⟨fun _ row found => ⟨row, found, rfl, rfl, rfl⟩, fun _ absent => absent⟩

theorem Framed.trans {first middle last : Database} (left : Framed first middle)
    (right : Framed middle last) : Framed first last := by
  refine ⟨fun id row found => ?_, fun id absent => right.absent id (left.absent id absent)⟩
  rcases left.keeps id row found with ⟨between, foundBetween, type, retries, maxRetries⟩
  rcases right.keeps id between foundBetween with ⟨row', foundLast, type', retries', maxRetries'⟩
  exact ⟨row', foundLast, type'.trans type, retries'.trans retries, maxRetries'.trans maxRetries⟩

theorem framed_update (db : Database) (condition : Row → Bool) (set : Row → Row)
    (keeps : ∀ row : Row, row.SameRetries (set row)) :
    Framed db { db with jobs := db.jobs.update condition set } := by
  refine ⟨fun id row found => ?_, fun id absent => ?_⟩
  · refine ⟨_, by rw [JobTable.find?_update, found]; rfl, ?_⟩
    dsimp only
    split
    · exact keeps row
    · exact ⟨rfl, rfl, rfl⟩
  · rw [JobTable.find?_update, absent]
    rfl

theorem claimLoop_framed (d : Driver) (env : PollEnv) (rows : List Row) :
    ∀ (index : Nat) (state : ClaimState),
      Framed state.db (d.claimLoop env index rows state).state.db := by
  induction rows with
  | nil => exact fun _ state => .refl state.db
  | cons row rows induction =>
      intro index state
      unfold claimLoop
      simp only
      split
      · exact .refl state.db
      split
      · exact .refl state.db
      split
      · refine Framed.trans ?_ (induction _ _)
        split
        · exact .refl state.db
        · exact framed_update state.db _ _ fun _ => ⟨rfl, rfl, rfl⟩
      split
      · exact .refl state.db
      split
      · exact induction _ state
      split
      · exact .refl state.db
      · refine Framed.trans ?_ (induction _ _)
        exact framed_update state.db _ _ fun _ => ⟨rfl, rfl, rfl⟩

/-- The claimed jobs are read from rows of the query. -/
theorem claimLoop_scans (d : Driver) (env : PollEnv) (rows : List Row) :
    ∀ (index : Nat) (state : ClaimState),
      ∀ job ∈ (d.claimLoop env index rows state).state.jobsToRun,
        job ∈ state.jobsToRun ∨ ∃ row ∈ rows, job = row.scan := by
  induction rows with
  | nil => exact fun _ _ _ member => .inl member
  | cons row rows induction =>
      intro index state
      have later {next : ClaimState} (index : Nat) (same : next.jobsToRun = state.jobsToRun) :
          ∀ job ∈ (d.claimLoop env index rows next).state.jobsToRun,
            job ∈ state.jobsToRun ∨ ∃ other ∈ row :: rows, job = other.scan := by
        intro job member
        rcases induction index next job member with old | ⟨other, isRow, scanned⟩
        · exact .inl (same ▸ old)
        · exact .inr ⟨other, List.mem_cons_of_mem _ isRow, scanned⟩
      unfold claimLoop
      simp only
      split
      · exact fun _ member => .inl member
      split
      · exact fun _ member => .inl member
      split
      · apply later
        split <;> rfl
      split
      · exact fun _ member => .inl member
      split
      · exact later _ rfl
      split
      · exact fun _ member => .inl member
      · intro job member
        rcases induction _ _ job member with old | ⟨other, isRow, scanned⟩
        · rcases List.mem_append.mp old with before | isNew
          · exact .inl before
          · exact .inr ⟨row, List.mem_cons_self, List.mem_singleton.mp isNew⟩
        · exact .inr ⟨other, List.mem_cons_of_mem _ isRow, scanned⟩

theorem claimLoop_grows (d : Driver) (env : PollEnv) (rows : List Row) :
    ∀ (index : Nat) (state : ClaimState),
      state.jobsToRun ⊆ (d.claimLoop env index rows state).state.jobsToRun := by
  induction rows with
  | nil => exact fun _ _ => List.Subset.refl _
  | cons row rows induction =>
      intro index state
      have later {next : ClaimState} (subset : state.jobsToRun ⊆ next.jobsToRun) :
          state.jobsToRun ⊆ (d.claimLoop env (index + 1) rows next).state.jobsToRun :=
        List.Subset.trans subset (induction (index + 1) next)
      unfold claimLoop
      simp only
      split
      · exact List.Subset.refl _
      split
      · exact List.Subset.refl _
      split
      · apply later
        split <;> exact List.Subset.refl _
      split
      · exact List.Subset.refl _
      split
      · exact later (List.Subset.refl _)
      split
      · exact List.Subset.refl _
      · exact later (List.subset_append_left _ _)

/-- A job with a handler that the loop does not claim is left alone. -/
theorem claimLoop_spares (d : Driver) (env : PollEnv) {id : String} (rows : List Row)
    (registered : ∀ row ∈ rows, row.id = id → d.handlers.contains row.type = true) :
    ∀ (index : Nat) (state : ClaimState),
      id ∉ (d.claimLoop env index rows state).state.jobsToRun.map Job.id →
      (d.claimLoop env index rows state).state.db.jobs.find? id = state.db.jobs.find? id := by
  induction rows with
  | nil => exact fun _ _ _ => rfl
  | cons row rows induction =>
      rw [List.forall_mem_cons] at registered
      have later := induction registered.2
      intro index state
      unfold claimLoop
      simp only
      split
      · exact fun _ => rfl
      split
      · exact fun _ => rfl
      split
      · rename_i unregistered
        have other : id ≠ row.id := by
          intro same
          rw [registered.1 same.symm] at unregistered
          contradiction
        intro unclaimed
        rw [later _ _ unclaimed]
        split
        · rfl
        · exact Database.find?_update_key_ne state.db.jobs _ other
      split
      · exact fun _ => rfl
      split
      · exact later _ state
      split
      · exact fun _ => rfl
      · intro unclaimed
        have other : id ≠ row.id := by
          rintro rfl
          apply unclaimed
          apply List.map_subset Job.id (d.claimLoop_grows env rows _ _)
          simp [Row.scan]
        rw [later _ _ unclaimed]
        exact Database.find?_update_key_ne state.db.jobs _ other

/-- One tick, seen from a stored job with a handler: it is left alone, or it was pending,
is running, and is handed over with the retries of its row. -/
theorem pollAndDispatch_row (d : Driver) (env : PollEnv) {id : String} {row : Row}
    (found : d.db.jobs.find? id = some row) (registered : d.handlers.contains row.type = true) :
    (id ∉ (d.pollAndDispatch env).2.map Job.id ∧
      (d.pollAndDispatch env).1.db.jobs.find? id = some row) ∨
    (id ∈ (d.pollAndDispatch env).2.map Job.id ∧ row.status = .pending ∧ ∃ row',
      (d.pollAndDispatch env).1.db.jobs.find? id = some row' ∧ row'.status = .running ∧
      row.SameRetries row' ∧
      ∀ job ∈ (d.pollAndDispatch env).2, job.id = id → job = row.scan) := by
  have ticked := d.pollAndDispatch_ticked env
  have isOwn : ∀ other ∈ d.pendingRows, other.id = id → other = row := by
    intro other member isId
    rcases JobTable.find?_eq_some.mp found with ⟨rowMember, rowId⟩
    exact JobTable.eq_of_id (mem_pendingRows.mp member).1 rowMember (isId.trans rowId.symm)
  have spared := @claimLoop_spares d env id d.pendingRows
    (fun other member isId => by rw [isOwn other member isId, registered]) 0
    { db := d.db, counters := d.counters, jobsToRun := [] }
  have framed := d.claimLoop_framed env d.pendingRows 0
    { db := d.db, counters := d.counters, jobsToRun := [] }
  have scans := d.claimLoop_scans env d.pendingRows 0
    { db := d.db, counters := d.counters, jobsToRun := [] }
  unfold pollAndDispatch at ticked ⊢
  split
  · exact .inl ⟨by simp, found⟩
  · rename_i entered
    rw [if_neg entered] at ticked
    change _ → (d.claim env).state.db.jobs.find? id = _ at spared
    change Framed d.db (d.claim env).state.db at framed
    change ∀ job ∈ (d.claim env).state.jobsToRun, _ at scans
    change id ∉ (d.claim env).state.jobsToRun.map Job.id → _ at spared
    cases exit : d.claim env with
    | aborted state => exact .inl ⟨by simp, found⟩
    | finished state =>
        simp only [exit, LoopExit.state] at ticked spared framed scans ⊢
        split
        · exact .inl ⟨by simp, found⟩
        · rename_i commits
          rw [if_neg commits] at ticked
          by_cases claimed : id ∈ state.jobsToRun.map Job.id
          · right
            rcases ticked.taken id claimed with ⟨before, after⟩
            rcases framed.keeps id row found with ⟨row', foundAfter, same⟩
            rw [Database.status?, found, Option.map_some, Option.some.injEq] at before
            rw [Database.status?, foundAfter, Option.map_some, Option.some.injEq] at after
            refine ⟨claimed, before, row', foundAfter, after, same, ?_⟩
            intro job member isId
            rcases scans job member with old | ⟨other, isRow, scanned⟩
            · cases old
            · rw [scanned, isOwn other isRow (by rw [← isId, scanned]; rfl)]
          · exact .inl ⟨claimed, (spared claimed).trans found⟩

theorem pollAndDispatch_handlers (d : Driver) (env : PollEnv) :
    (d.pollAndDispatch env).1.handlers = d.handlers := by
  unfold pollAndDispatch
  split
  · rfl
  · cases d.claim env with
    | aborted state => rfl
    | finished state =>
        dsimp only
        split <;> rfl

end Driver

end Kiyomi.Queue.Sqlite
