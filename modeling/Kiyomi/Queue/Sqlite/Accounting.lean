import Kiyomi.Queue.Sqlite.System

namespace Kiyomi.Queue.Sqlite

open Go

/-! # Slots in use

Between ticks the counters are the goroutines that have yet to be finalised, in
total and per group. Every exit of `pollAndDispatch` keeps this but one: an error
that returns from the row loop drops the rows claimed before it and not their
increments. -/

namespace Driver

/-! ## Where the row loop leaves -/

/-- A row with a handler and a free slot. -/
def claimable (d : Driver) (counters : Counters) (row : Row) : Bool :=
  d.handlers.contains row.type && !d.full counters &&
    !d.groupFull counters row.concurrencyGroup

/-- The counters once the claimable rows of a list have taken their slots. -/
def claims (d : Driver) (rows : List Row) (start : Counters) : Counters :=
  rows.foldl
    (fun counters row => if d.claimable counters row then counters.acquire row.scan else counters)
    start

def countersAt (d : Driver) (index : Nat) : Counters :=
  d.claims (d.pendingRows.take index) d.counters

/-- The error placed at a row makes the loop return: a failed scan, or a failed
update of a row that is being claimed. -/
def failsAt (d : Driver) (env : PollEnv) (index : Nat) : Bool :=
  match d.pendingRows[index]? with
  | none => false
  | some row =>
      env.rowFault index == .scan ||
        env.rowFault index == .update && d.claimable (d.countersAt index) row

/-- The loop goes on to the next row. -/
def passes (d : Driver) (env : PollEnv) (index : Nat) : Bool :=
  match d.pendingRows[index]? with
  | none => false
  | some row =>
      env.rowFault index != .next && !d.failsAt env index &&
        (!d.handlers.contains row.type || !d.full (d.countersAt index))

/-- The tick enters the row loop. -/
def enters (d : Driver) (env : PollEnv) : Bool :=
  !(d.full d.counters || env.connFails || env.beginFails || env.queryFails)

/-- Some row with a slot to take when the tick starts precedes an error at which
the loop returns. -/
def leaks (d : Driver) (env : PollEnv) : Bool :=
  d.enters env &&
    (List.range d.pendingRows.length).any fun index =>
      d.failsAt env index && (List.range index).all (d.passes env) &&
        (d.pendingRows.take index).any (d.claimable d.counters)

variable {d : Driver} {env : PollEnv}

theorem claims_append (d : Driver) (rows : List Row) (row : Row) (start : Counters) :
    d.claims (rows ++ [row]) start =
      if d.claimable (d.claims rows start) row then (d.claims rows start).acquire row.scan
      else d.claims rows start := by
  rw [claims, List.foldl_append]
  rfl

theorem countersAt_succ {index : Nat} {row : Row} (present : d.pendingRows[index]? = some row) :
    d.countersAt (index + 1) =
      if d.claimable (d.countersAt index) row then (d.countersAt index).acquire row.scan
      else d.countersAt index := by
  rw [countersAt, List.take_add_one, present, Option.toList_some, claims_append]
  rfl

theorem claims_of_none {rows : List Row} {start : Counters}
    (unclaimable : rows.any (d.claimable start) = false) : d.claims rows start = start := by
  induction rows with
  | nil => rfl
  | cons row rows induction =>
      rw [List.any_cons, Bool.or_eq_false_iff] at unclaimable
      simp only [claims, List.foldl_cons, unclaimable.1]
      exact induction unclaimable.2

theorem runningCount_le_claims (d : Driver) (rows : List Row) (start : Counters) :
    start.runningCount ≤ (d.claims rows start).runningCount := by
  induction rows generalizing start with
  | nil => exact le_refl _
  | cons row rows induction =>
      rw [claims, List.foldl_cons]
      have later := induction (if d.claimable start row then start.acquire row.scan else start)
      have first : start.runningCount ≤
          (if d.claimable start row then start.acquire row.scan else start).runningCount := by
        split
        · simp only [Counters.acquire]
          omega
        · exact le_refl _
      exact first.trans later

theorem runningCount_lt_claims {rows : List Row} {start : Counters}
    (some_claimable : rows.any (d.claimable start) = true) :
    start.runningCount < (d.claims rows start).runningCount := by
  induction rows with
  | nil => simp at some_claimable
  | cons row rows induction =>
      rw [claims, List.foldl_cons]
      by_cases takes : d.claimable start row
      · rw [if_pos takes]
        have later := d.runningCount_le_claims rows (start.acquire row.scan)
        have first : (start.acquire row.scan).runningCount = start.runningCount + 1 := rfl
        rw [claims] at later
        omega
      · rw [if_neg takes]
        rw [List.any_cons, Bool.or_eq_true] at some_claimable
        exact induction (some_claimable.resolve_left takes)

theorem passes_of_fails {index : Nat} (fails : d.failsAt env index = true) :
    d.passes env index = false := by
  unfold passes
  split
  · rfl
  · simp [fails]

theorem claimLoop_fails {index : Nat} {row : Row} {rows : List Row} {state : ClaimState}
    (present : d.pendingRows[index]? = some row)
    (counted : state.counters = d.countersAt index) (fails : d.failsAt env index = true) :
    d.claimLoop env index (row :: rows) state = .aborted state := by
  simp only [failsAt, present, Bool.or_eq_true, beq_iff_eq, Bool.and_eq_true] at fails
  rcases fails with scan | ⟨update, takes⟩
  · simp [claimLoop, scan]
  · simp only [claimable, Bool.and_eq_true, Bool.not_eq_true', ← counted] at takes
    simp only [claimLoop, update, takes.1.1, takes.1.2, takes.2, Bool.not_true,
      Bool.false_eq_true, if_false, if_true, reduceCtorEq]

theorem claimLoop_passes {index : Nat} {row : Row} (rows : List Row) {state : ClaimState}
    (present : d.pendingRows[index]? = some row)
    (counted : state.counters = d.countersAt index) (passes : d.passes env index = true) :
    ∃ next : ClaimState, next.counters = d.countersAt (index + 1) ∧
      d.claimLoop env index (row :: rows) state = d.claimLoop env (index + 1) rows next := by
  have advanced := countersAt_succ present
  rw [← counted] at advanced
  simp only [Driver.passes, failsAt, present, Bool.and_eq_true, bne_iff_ne, Bool.or_eq_true,
    Bool.not_eq_true', Bool.or_eq_false_iff, beq_eq_false_iff_ne, ← counted] at passes
  rcases passes with ⟨⟨notNext, notScan, noUpdate⟩, handled⟩
  cases registered : d.handlers.contains row.type with
  | false =>
      refine ⟨if env.rowFault index = .update then state
        else { state with db := failUnhandled state.db row (env.now index) }, ?_, ?_⟩
      · simp only [advanced, claimable, registered, Bool.false_and, Bool.false_eq_true, if_false]
        split <;> rfl
      · simp only [claimLoop, notNext, notScan, registered, Bool.not_false, if_true, if_false]
  | true =>
      have notFull : d.full state.counters = false := by
        rcases handled with unregistered | notFull
        · rw [registered] at unregistered
          contradiction
        · exact notFull
      cases groupFull : d.groupFull state.counters row.concurrencyGroup with
      | true =>
          refine ⟨state, ?_, ?_⟩
          · simp only [advanced, claimable, groupFull, Bool.not_true, Bool.and_false,
              Bool.false_eq_true, if_false]
          · simp only [claimLoop, notNext, notScan, registered, notFull, groupFull,
              Bool.not_true, Bool.false_eq_true, if_true, if_false]
      | false =>
          have takes : d.claimable state.counters row = true := by
            simp only [claimable, registered, notFull, groupFull, Bool.not_false, Bool.and_true]
          have notUpdate : env.rowFault index ≠ .update := by
            intro update
            simp [update, takes] at noUpdate
          refine ⟨{ db := markRunning state.db row (env.now index)
                    counters := state.counters.acquire row.scan
                    jobsToRun := state.jobsToRun ++ [row.scan] }, ?_, ?_⟩
          · rw [advanced, if_pos takes]
          · simp only [claimLoop, notNext, notScan, registered, notFull, groupFull, notUpdate,
              Bool.not_true, Bool.false_eq_true, if_false]

theorem claimLoop_stops {index : Nat} {row : Row} (rows : List Row) {state : ClaimState}
    (present : d.pendingRows[index]? = some row)
    (counted : state.counters = d.countersAt index)
    (noError : d.failsAt env index = false) (noPass : d.passes env index = false) :
    d.claimLoop env index (row :: rows) state = .finished state := by
  simp only [Driver.passes, present, noError, Bool.not_false, Bool.and_true,
    Bool.and_eq_false_iff, bne_eq_false_iff_eq, Bool.or_eq_false_iff, Bool.not_eq_false',
    ← counted] at noPass
  simp only [failsAt, present, Bool.or_eq_false_iff, beq_eq_false_iff_ne] at noError
  rcases noPass with next | ⟨registered, full⟩
  · simp only [claimLoop, next, if_true]
  · simp only [claimLoop, registered, full, noError.1, Bool.not_true, Bool.false_eq_true,
      if_true, if_false, ite_self]

/-- The loop returns with an error at this row. -/
structure LeavesAt (d : Driver) (env : PollEnv) (index : Nat) : Prop where
  bound : index < d.pendingRows.length
  fails : d.failsAt env index = true
  reached : ∀ earlier < index, d.passes env earlier = true

theorem LeavesAt.unique {left right : Nat} (leavesLeft : d.LeavesAt env left)
    (leavesRight : d.LeavesAt env right) : left = right := by
  rcases Nat.lt_trichotomy left right with before | same | after
  · have passes := leavesRight.reached left before
    rw [passes_of_fails leavesLeft.fails] at passes
    contradiction
  · exact same
  · have passes := leavesLeft.reached right after
    rw [passes_of_fails leavesRight.fails] at passes
    contradiction

theorem leaks_iff : d.leaks env = true ↔ d.enters env = true ∧
    ∃ index, d.LeavesAt env index ∧
      (d.pendingRows.take index).any (d.claimable d.counters) = true := by
  simp only [leaks, Bool.and_eq_true, List.any_eq_true, List.mem_range, List.all_eq_true]
  constructor
  · intro leaking
    rcases leaking with ⟨entered, index, bound, ⟨fails, reached⟩, earlier⟩
    exact ⟨entered, index, ⟨bound, fails, reached⟩, earlier⟩
  · intro leaking
    rcases leaking with ⟨entered, index, leaves, earlier⟩
    exact ⟨entered, index, leaves.bound, ⟨leaves.fails, leaves.reached⟩, earlier⟩

/-- The loop aborts exactly when some row makes it leave. -/
theorem claimLoop_leaves (rows : List Row) :
    ∀ (passed : List Row) (state : ClaimState), d.pendingRows = passed ++ rows →
      state.counters = d.countersAt passed.length →
      (∀ earlier < passed.length, d.passes env earlier = true) →
      (∃ exit index, d.claimLoop env passed.length rows state = .aborted exit ∧
        exit.counters = d.countersAt index ∧ d.LeavesAt env index) ∨
      (∃ exit, d.claimLoop env passed.length rows state = .finished exit ∧
        ∀ index, ¬ d.LeavesAt env index) := by
  induction rows with
  | nil =>
      intro passed state split _ reached
      refine .inr ⟨state, rfl, ?_⟩
      intro index leaves
      have bound := leaves.bound
      rw [split, List.append_nil] at bound
      have passes := reached index bound
      rw [passes_of_fails leaves.fails] at passes
      contradiction
  | cons row rows induction =>
      intro passed state split counted reached
      have present : d.pendingRows[passed.length]? = some row := by
        rw [split, List.getElem?_append_right (le_refl _)]
        simp
      cases fails : d.failsAt env passed.length with
      | true =>
          exact .inl ⟨state, passed.length, claimLoop_fails present counted fails, counted,
            by simp [split], fails, reached⟩
      | false =>
          cases passes : d.passes env passed.length with
          | true =>
              rcases claimLoop_passes rows present counted passes with ⟨next, nextCounted, same⟩
              rw [same]
              have step := induction (passed ++ [row]) next (by simp [split])
                (by simpa using nextCounted)
              rw [List.length_append, List.length_singleton] at step
              apply step
              intro earlier inside
              rcases Nat.lt_succ_iff_lt_or_eq.mp inside with before | rfl
              · exact reached earlier before
              · exact passes
          | false =>
              refine .inr ⟨state, claimLoop_stops rows present counted fails passes, ?_⟩
              intro index leaves
              rcases Nat.lt_trichotomy index passed.length with before | rfl | after
              · have passesThere := reached index before
                rw [passes_of_fails leaves.fails] at passesThere
                contradiction
              · rw [leaves.fails] at fails
                contradiction
              · rw [leaves.reached passed.length after] at passes
                contradiction

theorem claim_leaves (d : Driver) (env : PollEnv) :
    (∃ exit index, d.claim env = .aborted exit ∧ exit.counters = d.countersAt index ∧
      d.LeavesAt env index) ∨
    (∃ exit, d.claim env = .finished exit ∧ ∀ index, ¬ d.LeavesAt env index) :=
  claimLoop_leaves d.pendingRows [] _ rfl rfl (by simp)

/-- The counters at an abort are balanced when no slot was taken before it. -/
theorem count_countersAt_iff {jobs : List Job} (count : d.counters.Count jobs) (index : Nat) :
    (d.countersAt index).Count jobs ↔
      (d.pendingRows.take index).any (d.claimable d.counters) = false := by
  constructor
  · intro balanced
    cases earlier : (d.pendingRows.take index).any (d.claimable d.counters) with
    | false => rfl
    | true =>
        have raised := runningCount_lt_claims earlier
        have after := balanced.running
        have before := count.running
        rw [countersAt] at after
        omega
  · intro unclaimable
    rw [countersAt, claims_of_none unclaimable]
    exact count

/-- A tick keeps the balance exactly when it does not leak. -/
theorem count_pollAndDispatch_iff {jobs : List Job} (count : d.counters.Count jobs) :
    (d.pollAndDispatch env).1.counters.Count (jobs ++ (d.pollAndDispatch env).2) ↔
      d.leaks env = false := by
  rw [← Bool.not_eq_true, leaks_iff]
  have claimed := d.claim_counters env
  unfold pollAndDispatch
  cases returns : d.full d.counters || env.connFails || env.beginFails || env.queryFails with
  | true => simpa [enters, returns] using count
  | false =>
      have entered : d.enters env = true := by simp only [enters, returns, Bool.not_false]
      simp only [entered, true_and, Bool.false_eq_true, if_false]
      rcases d.claim_leaves env with ⟨exit, index, aborted, counted, leaves⟩ | ⟨exit, finished, none⟩
      · simp only [aborted, List.append_nil, counted, count_countersAt_iff count]
        constructor
        · intro unclaimable leaking
          rcases leaking with ⟨other, leavesThere, earlier⟩
          rw [leavesThere.unique leaves, unclaimable] at earlier
          contradiction
        · intro unleaking
          rw [← Bool.not_eq_true]
          exact fun earlier => unleaking ⟨index, leaves, earlier⟩
      · simp only [finished, LoopExit.state] at claimed ⊢
        have unleaking : ¬ ∃ index, d.LeavesAt env index ∧
            (d.pendingRows.take index).any (d.claimable d.counters) = true := by
          intro leaking
          rcases leaking with ⟨index, leaves, _⟩
          exact none index leaves
        simp only [unleaking, not_false_eq_true, iff_true]
        split
        · simp only [claimed, Counters.rollback, List.append_nil, count]
        · rw [claimed]
          exact count.acquireAll _

end Driver

namespace System

/-- The counters are the goroutines started and not yet finalised. -/
def Accounted (s : System) : Prop :=
  s.driver.counters.Count (s.goroutines.map Goroutine.job)

/-- No error drops a claim of the tick. -/
def keepsClaims (s : System) : Action → Bool
  | .pollAndDispatch env => !s.driver.leaks env
  | _ => true

variable {s s' : System}

theorem accounted_pollAndDispatch_iff {env : PollEnv} (accounted : s.Accounted)
    (taken : s.step (.pollAndDispatch env) = some s') :
    s'.Accounted ↔ s.driver.leaks env = false := by
  rw [step_pollAndDispatch taken, ← Driver.count_pollAndDispatch_iff accounted, Accounted,
    List.map_append, List.map_map]
  have jobs : (Goroutine.job ∘ fun job => { job, phase := .dispatched }) = id := rfl
  rw [jobs, List.map_id]

theorem Accounted.step (accounted : s.Accounted) {action : Action}
    (keeps : s.keepsClaims action = true) (taken : s.step action = some s') :
    s'.Accounted := by
  cases action with
  | createJob job =>
      rcases step_createJob taken with rfl | ⟨db, created, rfl⟩
      · exact accounted
      · exact accounted
  | enqueue position now =>
      rcases step_enqueue taken with ⟨before, job, after, focused, rfl | ⟨job', db, enqueued, rfl⟩⟩
      · exact accounted
      · exact accounted
  | pollAndDispatch env =>
      apply (accounted_pollAndDispatch_iff accounted taken).mpr
      simpa [keepsClaims] using keeps
  | startHandler position =>
      rcases step_startHandler taken with ⟨before, job, after, split, rfl⟩
      unfold Accounted at accounted ⊢
      rw [split] at accounted
      simpa using accounted
  | finishHandler position execErr =>
      rcases step_finishHandler taken with ⟨before, job, fullJob, after, split, rfl⟩
      unfold Accounted at accounted ⊢
      rw [split] at accounted
      simpa using accounted
  | finalizeJob position now dbFails =>
      rcases step_finalizeJob taken with ⟨before, job, execErr, after, split, rfl⟩
      unfold Accounted at accounted ⊢
      rw [split, List.map_append, List.map_cons] at accounted
      rw [List.map_append]
      exact accounted.release
  | cancelJob id now =>
      rcases step_cancelJob taken with rfl | ⟨db, cancelled, rfl⟩
      · exact accounted
      · exact accounted
  | deleteJob id =>
      rcases step_deleteJob taken with rfl | ⟨db, deleted, rfl⟩
      · exact accounted
      · exact accounted

theorem Accounted.allFree (accounted : s.Accounted) (idle : s.goroutines = []) :
    s.driver.counters = Counters.initial := by
  rw [Accounted, idle] at accounted
  apply Counters.ext
  · funext group
    exact accounted.groups group
  · exact accounted.running

/-- A tick keeps the accounts exactly when it does not leak, and every run without
a leaking tick keeps them. -/
theorem accounted_of_keepsClaims (db : Database) (handlers : List String)
    (groupLimits : String → Option Int) (maxConcurrency : Int) {actions : List Action}
    {last : System}
    (run : Run step (fun s action => s.keepsClaims action = true)
      (boot db handlers groupLimits maxConcurrency) actions last) :
    last.Accounted ∧ (last.goroutines = [] → last.driver.counters = Counters.initial) ∧
    ∀ env next, last.step (.pollAndDispatch env) = some next →
      (next.Accounted ↔ last.driver.leaks env = false) := by
  have accounted : last.Accounted := by
    apply run.invariant Accounted
    · intro state action next keeps accounted taken
      exact accounted.step keeps taken
    · exact ⟨rfl, fun _ => rfl⟩
  exact ⟨accounted, accounted.allFree, fun env next taken =>
    accounted_pollAndDispatch_iff accounted taken⟩

/-- A tick that fails at its first row, then one that claims the job. -/
theorem accounted_of_keepsClaims_early_error :
    ∃ last,
      Run step (fun s action => s.keepsClaims action = true)
        (boot Database.empty ["pull_page"] (fun _ => none) 2)
        [.createJob (Job.child "page-1" none "pull_page" "{}" "manga" [] Time.zero),
          .pollAndDispatch { PollEnv.quiet Time.zero with rowFault := fun _ => .update },
          .pollAndDispatch (PollEnv.quiet Time.zero)] last ∧
      last.goroutines.length = 1 ∧ last.driver.counters.runningCount = 1 ∧ last.Accounted := by
  have executed : (Run.execute step keepsClaims
      (boot Database.empty ["pull_page"] (fun _ => none) 2)
      [.createJob (Job.child "page-1" none "pull_page" "{}" "manga" [] Time.zero),
        .pollAndDispatch { PollEnv.quiet Time.zero with rowFault := fun _ => .update },
        .pollAndDispatch (PollEnv.quiet Time.zero)]).map
      (fun last => (last.goroutines.length, last.driver.counters.runningCount)) =
      some (1, 1) := by decide
  rcases Option.map_eq_some_iff.mp executed with ⟨last, executed, observed⟩
  rw [Prod.mk.injEq] at observed
  have run := Run.ofExecute executed
  exact ⟨last, run, observed.1, observed.2,
    (accounted_of_keepsClaims Database.empty ["pull_page"] (fun _ => none) 2 run).1⟩

/-- The scan of the second row fails after the first was claimed: no goroutine
starts, and the slot stays taken. -/
theorem scan_error_leaks_slot :
    ¬ ∀ actions last,
      Run step (fun _ _ => true = true)
        (boot Database.empty ["pull_page"] (fun _ => none) 2) actions last →
      last.Accounted := by
  intro claimed
  have executed : (Run.execute step (fun _ _ => true)
      (boot Database.empty ["pull_page"] (fun _ => none) 2)
      [.createJob (Job.child "page-1" none "pull_page" "{}" "" [] Time.zero),
        .createJob (Job.child "page-2" none "pull_page" "{}" "" [] Time.zero),
        .pollAndDispatch
          { PollEnv.quiet Time.zero with
            rowFault := fun index => if index = 1 then .scan else .none }]).map
      (fun last => (last.goroutines.length, last.driver.counters.runningCount)) =
      some (0, 1) := by decide +kernel
  rcases Option.map_eq_some_iff.mp executed with ⟨last, executed, observed⟩
  rw [Prod.mk.injEq] at observed
  have running := (claimed _ last (Run.ofExecute executed)).running
  rw [List.length_map, observed.1, observed.2] at running
  simp at running

end System

end Kiyomi.Queue.Sqlite
