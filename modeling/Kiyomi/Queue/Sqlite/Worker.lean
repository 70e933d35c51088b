import Kiyomi.Queue.Sqlite.Store
import Mathlib.Logic.Function.Basic

namespace Kiyomi.Queue.Sqlite

open Go

/-! # The worker of the SQLite driver

`pollAndDispatch` claims pending rows in one transaction while it holds the lock
on the counters; `runJob` and `finalizeJob` give the slots back. -/

/-! ## Slot counters -/

@[ext] structure Counters where
  activeGroups : String → Int
  runningCount : Int

namespace Counters

def initial : Counters := ⟨fun _ => 0, 0⟩

/-- The increments of a claim. -/
def acquire (counters : Counters) (job : Job) : Counters where
  activeGroups :=
    if job.concurrencyGroup = "" then counters.activeGroups
    else Function.update counters.activeGroups job.concurrencyGroup
      (counters.activeGroups job.concurrencyGroup + 1)
  runningCount := counters.runningCount + 1

/-- The decrements of `finalizeJob` and of a failed commit. -/
def release (counters : Counters) (job : Job) : Counters where
  activeGroups :=
    if job.concurrencyGroup = "" then counters.activeGroups
    else Function.update counters.activeGroups job.concurrencyGroup
      (counters.activeGroups job.concurrencyGroup - 1)
  runningCount := counters.runningCount - 1

/-- The counters are the number of jobs in progress, in total and per group. -/
structure Count (counters : Counters) (jobs : List Job) : Prop where
  running : counters.runningCount = jobs.length
  groups : ∀ group, counters.activeGroups group = jobs.countP (Job.inGroup group)

theorem activeGroups_acquire (counters : Counters) (job : Job) (group : String) :
    (counters.acquire job).activeGroups group =
      counters.activeGroups group + if job.inGroup group then 1 else 0 := by
  unfold acquire Job.inGroup
  by_cases ungrouped : job.concurrencyGroup = ""
  · by_cases named : group = ""
    · simp [ungrouped, named]
    · simp [ungrouped, named, Ne.symm named]
  · by_cases same : group = job.concurrencyGroup
    · subst same
      simp [ungrouped]
    · simp [ungrouped, Function.update_of_ne same, Ne.symm same]

theorem activeGroups_release (counters : Counters) (job : Job) (group : String) :
    (counters.release job).activeGroups group =
      counters.activeGroups group - if job.inGroup group then 1 else 0 := by
  unfold release Job.inGroup
  by_cases ungrouped : job.concurrencyGroup = ""
  · by_cases named : group = ""
    · simp [ungrouped, named]
    · simp [ungrouped, named, Ne.symm named]
  · by_cases same : group = job.concurrencyGroup
    · subst same
      simp [ungrouped]
    · simp [ungrouped, Function.update_of_ne same, Ne.symm same]

theorem release_acquire (counters : Counters) (job : Job) :
    (counters.acquire job).release job = counters := by
  apply Counters.ext
  · funext group
    rw [activeGroups_release, activeGroups_acquire]
    omega
  · simp only [acquire, release]
    omega

/-- Releases commute with acquisitions, whatever the jobs. -/
theorem release_comm (counters : Counters) (left right : Job) :
    (counters.acquire left).release right = (counters.release right).acquire left := by
  apply Counters.ext
  · funext group
    simp only [activeGroups_release, activeGroups_acquire]
    omega
  · simp only [acquire, release]
    omega

/-- Rolling back the claims of a tick restores the counters it started from. -/
theorem rollback (counters : Counters) (jobs : List Job) :
    jobs.foldl release (jobs.foldl acquire counters) = counters := by
  induction jobs generalizing counters with
  | nil => rfl
  | cons job jobs induction =>
      have commute : ∀ (others : List Job) (start : Counters),
          (others.foldl acquire start).release job = others.foldl acquire (start.release job) := by
        intro others
        induction others with
        | nil => exact fun _ => rfl
        | cons other others step =>
            intro start
            rw [List.foldl_cons, step, release_comm, List.foldl_cons]
      rw [List.foldl_cons, List.foldl_cons, commute, release_acquire]
      exact induction counters

theorem Count.acquire {counters : Counters} {jobs : List Job} (count : counters.Count jobs)
    (job : Job) : (counters.acquire job).Count (jobs ++ [job]) where
  running := by simp [Counters.acquire, count.running]
  groups group := by
    rw [activeGroups_acquire, count.groups, List.countP_append]
    by_cases member : job.inGroup group <;> simp [member]

theorem Count.acquireAll {counters : Counters} {jobs : List Job} (count : counters.Count jobs)
    (claimed : List Job) : (claimed.foldl Counters.acquire counters).Count (jobs ++ claimed) := by
  induction claimed generalizing counters jobs with
  | nil => simpa using count
  | cons job claimed induction => simpa using induction (count.acquire job)

theorem Count.release {counters : Counters} {before after : List Job} {job : Job}
    (count : counters.Count (before ++ job :: after)) :
    (counters.release job).Count (before ++ after) where
  running := by
    have running := count.running
    simp only [List.length_append, List.length_cons] at running
    simp only [Counters.release, List.length_append]
    omega
  groups group := by
    have groups := count.groups group
    rw [activeGroups_release, groups]
    by_cases member : job.inGroup group
    · simp only [List.countP_append, List.countP_cons, member, if_true]
      omega
    · simp [List.countP_append, member]

end Counters

/-! ## The driver -/

structure Driver where
  db : Database
  handlers : List String
  groupLimits : String → Option Int
  maxConcurrency : Int
  counters : Counters

/-- What the database does at one row of the claim loop. `next` ends the iteration
without an error the loop looks at, `scan` fails `rows.Scan` and `update` fails the
statement executed for the row. -/
inductive RowFault
  | none
  | next
  | scan
  | update
  deriving DecidableEq, Repr

/-- The database errors and clock readings of one tick. -/
structure PollEnv where
  connFails : Bool
  beginFails : Bool
  queryFails : Bool
  commitFails : Bool
  rowFault : Nat → RowFault
  now : Nat → Time

/-- A tick in which every database call succeeds. -/
def PollEnv.quiet (now : Time) : PollEnv where
  connFails := false
  beginFails := false
  queryFails := false
  commitFails := false
  rowFault _ := .none
  now _ := now

/-- The job the claim query scans: the columns it selects, zero values elsewhere. -/
def Row.scan (row : Row) : Job where
  id := row.id
  parentID := none
  type := row.type
  payload := row.payload
  status := row.status
  retries := row.retries
  maxRetries := row.maxRetries
  concurrencyGroup := row.concurrencyGroup
  error := ""
  createdAt := Time.zero
  updatedAt := Time.zero
  startedAt := none
  completedAt := none
  childCount := 0
  metadata := []

/-- The transaction and the counters inside the claim loop. -/
structure ClaimState where
  db : Database
  counters : Counters
  jobsToRun : List Job

/-- The loop runs to its end, or returns from `pollAndDispatch` in the middle. -/
inductive LoopExit
  | finished (state : ClaimState)
  | aborted (state : ClaimState)

def LoopExit.state : LoopExit → ClaimState
  | .finished state | .aborted state => state

namespace Driver

/-- The limit on all running jobs is reached. -/
def full (d : Driver) (counters : Counters) : Bool :=
  decide (d.maxConcurrency > 0) && decide (counters.runningCount ≥ d.maxConcurrency)

/-- The limit of a concurrency group is reached. -/
def groupFull (d : Driver) (counters : Counters) (group : String) : Bool :=
  group != "" &&
    match d.groupLimits group with
    | none => false
    | some limit => decide (limit > 0) && decide (counters.activeGroups group ≥ limit)

/-- The pending rows in the order of the claim query. -/
def pendingRows (d : Driver) : List Row :=
  (d.db.jobs.rows.filter fun row => row.status == .pending).insertionSort
    fun left right => left.createdAt ≤ right.createdAt

def failUnhandled (db : Database) (row : Row) (now : Time) : Database :=
  { db with
    jobs := db.jobs.update (fun other => other.id == row.id) fun other =>
      { other with
        status := .failed
        error := some ("no handler registered for job type " ++ row.type)
        updatedAt := formatTime now
        completedAt := some (formatTime now) } }

def markRunning (db : Database) (row : Row) (now : Time) : Database :=
  { db with
    jobs := db.jobs.update (fun other => other.id == row.id) fun other =>
      { other with
        status := .running
        startedAt := some (formatTime now)
        updatedAt := formatTime now } }

/-- The row loop of `pollAndDispatch`. An error of the update that fails a job
without handler is ignored; one of the claim update returns. -/
def claimLoop (d : Driver) (env : PollEnv) : Nat → List Row → ClaimState → LoopExit
  | _, [], state => .finished state
  | index, row :: rows, state =>
      let fault := env.rowFault index
      if fault = .next then .finished state
      else if fault = .scan then .aborted state
      else if !d.handlers.contains row.type then
        d.claimLoop env (index + 1) rows
          (if fault = .update then state
            else { state with db := failUnhandled state.db row (env.now index) })
      else if d.full state.counters then .finished state
      else if d.groupFull state.counters row.concurrencyGroup then
        d.claimLoop env (index + 1) rows state
      else if fault = .update then .aborted state
      else
        d.claimLoop env (index + 1) rows
          { db := markRunning state.db row (env.now index)
            counters := state.counters.acquire row.scan
            jobsToRun := state.jobsToRun ++ [row.scan] }

/-- The claim loop over all pending rows. -/
def claim (d : Driver) (env : PollEnv) : LoopExit :=
  d.claimLoop env 0 d.pendingRows { db := d.db, counters := d.counters, jobsToRun := [] }

/-- `pollAndDispatch`: the driver afterwards and the jobs handed to `runJob`
goroutines. Every early return rolls the transaction back; only the one after a
failed commit also rolls the counters back. -/
def pollAndDispatch (d : Driver) (env : PollEnv) : Driver × List Job :=
  if d.full d.counters || env.connFails || env.beginFails || env.queryFails then (d, [])
  else
    match d.claim env with
    | .aborted state => ({ d with counters := state.counters }, [])
    | .finished state =>
        if env.commitFails then
          ({ d with counters := state.jobsToRun.foldl Counters.release state.counters }, [])
        else ({ d with db := state.db, counters := state.counters }, state.jobsToRun)

/-- The columns that `finalizeJob` writes after a run of the job. -/
def finishedRow (job : Job) (execErr : Option HandlerError) (now : Time) (row : Row) : Row :=
  match execErr with
  | none =>
      { row with
        status := .completed
        updatedAt := formatTime now
        completedAt := some (formatTime now) }
  | some error =>
      let retries := job.retries + 1
      if error.permanent || decide (retries ≥ job.maxRetries) then
        { row with
          status := .failed
          retries
          error := some error.message
          updatedAt := formatTime now
          completedAt := some (formatTime now) }
      else { row with status := .pending, retries, updatedAt := formatTime now }

/-- `finalizeJob` for the job copy of the claim. Only a row that is still running
is written; the slot is given back in any case. -/
def finalizeJob (d : Driver) (job : Job) (execErr : Option HandlerError) (now : Time)
    (dbFails : Bool) : Driver :=
  let db :=
    if dbFails then d.db
    else { d.db with
      jobs := d.db.jobs.update
        (fun row => row.id == job.id && row.status == .running)
        (finishedRow job execErr now) }
  { d with db, counters := d.counters.release job }

end Driver

/-! ## What a tick does to the table -/

/-- The effect of claiming the jobs `claimed`: they were pending and are running,
and any other job is as before or was failed for want of a handler. -/
structure Ticked (before after : Database) (claimed : List String) : Prop where
  nodup : claimed.Nodup
  shape : after.shape = before.shape
  taken : ∀ id ∈ claimed, before.status? id = some .pending ∧ after.status? id = some .running
  others : ∀ id, id ∉ claimed → after.status? id = before.status? id ∨
    before.status? id = some .pending ∧ after.status? id = some .failed

theorem failUnhandled_status? (db : Database) (row : Row) (now : Time) (id : String) :
    (Driver.failUnhandled db row now).status? id =
      if id = row.id then (db.status? id).map fun _ => .failed else db.status? id :=
  Database.update_key_status? db row.id _ .failed (by simp) _ id

theorem markRunning_status? (db : Database) (row : Row) (now : Time) (id : String) :
    (Driver.markRunning db row now).status? id =
      if id = row.id then (db.status? id).map fun _ => .running else db.status? id :=
  Database.update_key_status? db row.id _ .running (by simp) _ id

namespace Ticked

variable {before after : Database} {claimed : List String}

theorem refl (db : Database) : Ticked db db [] where
  nodup := List.nodup_nil
  shape := rfl
  taken := by simp
  others _ _ := .inl rfl

/-- A row that is still pending inside the transaction was pending before it and
is not claimed yet. -/
theorem untouched (ticked : Ticked before after claimed) {id : String}
    (pending : after.status? id = some .pending) :
    id ∉ claimed ∧ before.status? id = some .pending := by
  have fresh : id ∉ claimed := by
    intro member
    rw [(ticked.taken id member).2] at pending
    cases pending
  refine ⟨fresh, ?_⟩
  rcases ticked.others id fresh with same | failed
  · rw [← same, pending]
  · exact failed.1

theorem failUnhandled (ticked : Ticked before after claimed) {row : Row} (now : Time)
    (pending : after.status? row.id = some .pending) :
    Ticked before (Driver.failUnhandled after row now) claimed := by
  rcases ticked.untouched pending with ⟨fresh, wasPending⟩
  refine ⟨ticked.nodup, ?_, ?_, ?_⟩
  · rw [← ticked.shape]
    apply Database.update_shape
    intro other
    rfl
  · intro id member
    have different : id ≠ row.id := fun same => fresh (same ▸ member)
    rw [failUnhandled_status?, if_neg different]
    exact ticked.taken id member
  · intro id unclaimed
    rw [failUnhandled_status?]
    by_cases same : id = row.id
    · subst same
      exact .inr ⟨wasPending, by simp [pending]⟩
    · rw [if_neg same]
      exact ticked.others id unclaimed

theorem markRunning (ticked : Ticked before after claimed) {row : Row} (now : Time)
    (pending : after.status? row.id = some .pending) :
    Ticked before (Driver.markRunning after row now) (claimed ++ [row.id]) := by
  rcases ticked.untouched pending with ⟨fresh, wasPending⟩
  refine ⟨?_, ?_, ?_, ?_⟩
  · rw [← List.concat_eq_append]
    exact ticked.nodup.concat fresh
  · rw [← ticked.shape]
    apply Database.update_shape
    intro other
    rfl
  · intro id member
    rw [markRunning_status?]
    by_cases same : id = row.id
    · subst same
      exact ⟨wasPending, by simp [pending]⟩
    · rw [if_neg same]
      rcases List.mem_append.mp member with claimedBefore | isRow
      · exact ticked.taken id claimedBefore
      · exact absurd (List.mem_singleton.mp isRow) same
  · intro id unclaimed
    rw [List.mem_append, not_or, List.mem_singleton] at unclaimed
    rw [markRunning_status?, if_neg unclaimed.2]
    exact ticked.others id unclaimed.1

end Ticked

namespace Driver

theorem mem_pendingRows {d : Driver} {row : Row} :
    row ∈ d.pendingRows ↔ row ∈ d.db.jobs.rows ∧ row.status = .pending := by
  simp [pendingRows]

theorem pendingRows_nodup (d : Driver) : (d.pendingRows.map Row.id).Nodup := by
  have sorted : (d.pendingRows.map Row.id).Perm
      ((d.db.jobs.rows.filter fun row => row.status == .pending).map Row.id) :=
    (List.perm_insertionSort _ _).map Row.id
  rw [sorted.nodup_iff]
  exact (List.filter_sublist.map Row.id).nodup d.db.jobs.primaryKey

/-- Whatever the faults, every row the loop has yet to visit is still pending, so
each visit claims or fails a row for the first time. -/
theorem claimLoop_ticked (d : Driver) (env : PollEnv) (before : Database) (rows : List Row) :
    ∀ (index : Nat) (state : ClaimState),
      Ticked before state.db (state.jobsToRun.map Job.id) →
      (∀ row ∈ rows, state.db.status? row.id = some .pending) →
      (rows.map Row.id).Nodup →
      Ticked before (d.claimLoop env index rows state).state.db
        ((d.claimLoop env index rows state).state.jobsToRun.map Job.id) := by
  induction rows with
  | nil =>
      intro index state ticked _ _
      exact ticked
  | cons row rows induction =>
      intro index state ticked pending nodup
      rw [List.map_cons, List.nodup_cons] at nodup
      have rowPending := pending row List.mem_cons_self
      have restPending : ∀ other ∈ rows, state.db.status? other.id = some .pending :=
        fun other member => pending other (List.mem_cons_of_mem row member)
      have apart : ∀ other ∈ rows, other.id ≠ row.id := by
        intro other member same
        exact nodup.1 (same ▸ List.mem_map_of_mem member)
      unfold claimLoop
      simp only
      split
      · exact ticked
      split
      · exact ticked
      split
      · by_cases ignored : env.rowFault index = .update
        · rw [if_pos ignored]
          exact induction _ state ticked restPending nodup.2
        · rw [if_neg ignored]
          apply induction _ _ (ticked.failUnhandled (env.now index) rowPending) _ nodup.2
          intro other member
          simp only [failUnhandled_status?]
          rw [if_neg (apart other member), restPending other member]
      split
      · exact ticked
      split
      · exact induction _ state ticked restPending nodup.2
      split
      · exact ticked
      · apply induction _ _ _ _ nodup.2
        · rw [List.map_append]
          exact ticked.markRunning (env.now index) rowPending
        · intro other member
          simp only [markRunning_status?]
          rw [if_neg (apart other member), restPending other member]

/-- The counters inside the loop are the ones of the tick with the claims so far. -/
theorem claimLoop_counters (d : Driver) (env : PollEnv) (start : Counters) (rows : List Row) :
    ∀ (index : Nat) (state : ClaimState),
      state.counters = state.jobsToRun.foldl Counters.acquire start →
      (d.claimLoop env index rows state).state.counters =
        (d.claimLoop env index rows state).state.jobsToRun.foldl Counters.acquire start := by
  induction rows with
  | nil =>
      intro index state counted
      exact counted
  | cons row rows induction =>
      intro index state counted
      unfold claimLoop
      simp only
      split
      · exact counted
      split
      · exact counted
      split
      · apply induction
        split <;> exact counted
      split
      · exact counted
      split
      · exact induction _ state counted
      split
      · exact counted
      · apply induction
        simp [counted]

theorem claim_ticked (d : Driver) (env : PollEnv) :
    Ticked d.db (d.claim env).state.db ((d.claim env).state.jobsToRun.map Job.id) := by
  apply claimLoop_ticked d env d.db d.pendingRows 0 _ (Ticked.refl d.db) _ d.pendingRows_nodup
  intro row member
  rcases mem_pendingRows.mp member with ⟨inTable, pending⟩
  exact Database.status?_eq_some.mpr ⟨row, inTable, rfl, pending⟩

theorem claim_counters (d : Driver) (env : PollEnv) :
    (d.claim env).state.counters =
      (d.claim env).state.jobsToRun.foldl Counters.acquire d.counters :=
  claimLoop_counters d env d.counters d.pendingRows 0 _ rfl

/-- A tick claims exactly the jobs that it hands to goroutines. -/
theorem pollAndDispatch_ticked (d : Driver) (env : PollEnv) :
    Ticked d.db (d.pollAndDispatch env).1.db ((d.pollAndDispatch env).2.map Job.id) := by
  have claimed := d.claim_ticked env
  unfold pollAndDispatch
  split
  · exact Ticked.refl d.db
  · cases exit : d.claim env with
    | aborted state => exact Ticked.refl d.db
    | finished state =>
        simp only [exit, LoopExit.state] at claimed ⊢
        split
        · exact Ticked.refl d.db
        · exact claimed

theorem finalizeJob_status? (d : Driver) (job : Job) (execErr : Option HandlerError)
    (now : Time) (dbFails : Bool) (id : String) :
    (d.finalizeJob job execErr now dbFails).db.status? id = d.db.status? id ∨
      id = job.id ∧ d.db.status? id = some .running ∧
        (execErr = none → (d.finalizeJob job execErr now dbFails).db.status? id =
          some .completed) := by
  cases dbFails with
  | true => exact .inl rfl
  | false =>
      have written : (d.finalizeJob job execErr now false).db.status? id =
          (d.db.jobs.find? id).map fun row =>
            if row.id == job.id && row.status == .running
            then (finishedRow job execErr now row).status else row.status :=
        Database.update_status? d.db _ _ _ id
      rw [written, Database.status?]
      cases found : d.db.jobs.find? id with
      | none => exact .inl rfl
      | some row =>
          have sameId : row.id = id := (JobTable.find?_eq_some.mp found).2
          by_cases finishes : row.id = job.id ∧ row.status = .running
          · refine .inr ⟨sameId ▸ finishes.1, by simp [finishes.2], ?_⟩
            intro succeeded
            simp [succeeded, finishes, finishedRow]
          · left
            rw [Option.map_some, Option.map_some, if_neg (by simpa using finishes)]

theorem finalizeJob_shape (d : Driver) (job : Job) (execErr : Option HandlerError)
    (now : Time) (dbFails : Bool) :
    (d.finalizeJob job execErr now dbFails).db.shape = d.db.shape := by
  cases dbFails with
  | true => rfl
  | false =>
      apply Database.update_shape
      intro row
      unfold finishedRow
      cases execErr with
      | none => rfl
      | some error => simp only; split <;> rfl

end Driver

end Kiyomi.Queue.Sqlite
