import Kiyomi.Foundation.Admission
import Kiyomi.Queue.Sqlite.Accounting
import Kiyomi.Queue.Sqlite.Lookups
import Mathlib.Data.String.Basic

namespace Kiyomi.Queue.Sqlite

open Go

/-! # What one tick dispatches

A tick without database errors is an admission under the limits, in the order of the
creation texts. -/

/-- No database call of the tick fails. -/
structure PollEnv.Quiet (env : PollEnv) : Prop where
  connects : env.connFails = false
  begins : env.beginFails = false
  queries : env.queryFails = false
  commits : env.commitFails = false
  rows : ∀ index, env.rowFault index = .none

/-- Created earlier, by the instants that the columns stand for. -/
def Row.OlderThan (row other : Row) : Prop :=
  ∃ created otherCreated, parseTime row.createdAt = some created ∧
    parseTime other.createdAt = some otherCreated ∧ created.unixNano < otherCreated.unixNano

/-- A pending row whose type has a handler. -/
def Row.waits (handlers : List String) (row : Row) : Bool :=
  row.status == .pending && handlers.contains row.type

/-- The claims of a tick keep the limits, use the slots up, and pass no older job of the
same group over. -/
structure Dispatched (d : Driver) (env : PollEnv) : Prop where
  withinTotal : 0 < d.maxConcurrency → (d.pollAndDispatch env).2 = [] ∨
    d.counters.runningCount + (d.pollAndDispatch env).2.length ≤ d.maxConcurrency
  withinGroups : ∀ group limit, d.groupLimits group = some limit → 0 < limit →
    (d.pollAndDispatch env).2.countP (Job.inGroup group) = 0 ∨
      d.counters.activeGroups group + (d.pollAndDispatch env).2.countP (Job.inGroup group) ≤ limit
  conserving : d.full (d.pollAndDispatch env).1.counters = true ∨
    ∀ row ∈ d.db.jobs.rows, row.waits d.handlers = true →
      (d.pollAndDispatch env).1.db.status? row.id = some .pending →
      d.groupFull (d.pollAndDispatch env).1.counters row.concurrencyGroup = true
  fair : ∀ younger ∈ d.db.jobs.rows, younger.id ∈ (d.pollAndDispatch env).2.map Job.id →
    ∀ older ∈ d.db.jobs.rows, older.waits d.handlers = true → older.OlderThan younger →
      older.concurrencyGroup = younger.concurrencyGroup →
      (d.pollAndDispatch env).1.db.status? older.id ≠ some .pending

/-- Among waiting jobs of one group the order of the texts is the order of the instants. -/
def Database.QueuesInOrder (db : Database) (handlers : List String) : Prop :=
  ∀ older ∈ db.jobs.rows, ∀ younger ∈ db.jobs.rows,
    older.waits handlers = true → younger.waits handlers = true →
    older.concurrencyGroup = younger.concurrencyGroup → older.OlderThan younger →
    older.createdAt < younger.createdAt

namespace Driver

variable {d : Driver} {env : PollEnv}

/-! ## The row loop as admission -/

theorem full_acquire {counters : Counters} (job : Job) (full : d.full counters = true) :
    d.full (counters.acquire job) = true := by
  simp only [Driver.full, Bool.and_eq_true, decide_eq_true_eq] at full ⊢
  have grows : (counters.acquire job).runningCount = counters.runningCount + 1 := rfl
  omega

theorem groupFull_acquire {counters : Counters} {group : String} (job : Job)
    (full : d.groupFull counters group = true) :
    d.groupFull (counters.acquire job) group = true := by
  have grows : counters.activeGroups group ≤ (counters.acquire job).activeGroups group := by
    rw [Counters.activeGroups_acquire]
    split <;> omega
  unfold groupFull at full ⊢
  split at full
  · simp at full
  · simp only [Bool.and_eq_true, decide_eq_true_eq] at full ⊢
    exact ⟨full.1, full.2.1, by omega⟩

/-- The rows with a handler and a free slot are let in. -/
def gate (d : Driver) : Admission Counters Row where
  admits := d.claimable
  accept counters row := counters.acquire row.scan
  refusal_stays := by
    intro counters row other refused
    simp only [claimable, Bool.and_eq_false_iff, Bool.not_eq_false'] at refused ⊢
    rcases refused with (unregistered | full) | groupFull
    · exact .inl (.inl unregistered)
    · exact .inl (.inr (full_acquire _ full))
    · exact .inr (groupFull_acquire _ groupFull)

theorem admitted_of_full {counters : Counters} (full : d.full counters = true) (rows : List Row) :
    d.gate.admitted counters rows = [] := by
  rw [List.eq_nil_iff_forall_not_mem]
  intro row
  apply Admission.not_mem_admitted
  simp [gate, claimable, full]

theorem claimLoop_quiet (quiet : env.Quiet) (rows : List Row) :
    ∀ (index : Nat) (state : ClaimState),
      ∃ db, d.claimLoop env index rows state = .finished
        { db
          counters := d.gate.closing state.counters rows
          jobsToRun := state.jobsToRun ++ (d.gate.admitted state.counters rows).map Row.scan } := by
  induction rows with
  | nil => exact fun _ state => ⟨state.db, by simp [claimLoop, Admission.closing, Admission.admitted]⟩
  | cons row rows induction =>
      intro index state
      unfold claimLoop
      simp only [quiet.rows, reduceCtorEq, if_false]
      split
      · rename_i unregistered
        have refused : d.gate.admits state.counters row = false := by
          rw [Bool.not_eq_true'] at unregistered
          simp only [gate, claimable, unregistered, Bool.false_and]
        rcases induction (index + 1)
          { state with db := failUnhandled state.db row (env.now index) } with ⟨db, same⟩
        refine ⟨db, ?_⟩
        rw [same, Admission.closing_cons, Admission.admitted_cons, refused]
        rfl
      split
      · rename_i full
        refine ⟨state.db, ?_⟩
        rw [Admission.closing_eq, admitted_of_full full]
        simp
      split
      · rename_i groupFull
        have refused : d.gate.admits state.counters row = false := by
          simp only [gate, claimable, groupFull, Bool.not_true, Bool.and_false]
        rcases induction (index + 1) state with ⟨db, same⟩
        refine ⟨db, ?_⟩
        rw [same, Admission.closing_cons, Admission.admitted_cons, refused]
        rfl
      · rename_i registered notFull groupNotFull
        have isAdmitted : d.gate.admits state.counters row = true := by
          simp_all [gate, claimable]
        rcases induction (index + 1)
          { db := markRunning state.db row (env.now index)
            counters := state.counters.acquire row.scan
            jobsToRun := state.jobsToRun ++ [row.scan] } with ⟨db, same⟩
        refine ⟨db, ?_⟩
        rw [same, Admission.closing_cons, Admission.admitted_cons, isAdmitted]
        simp only [if_true, List.map_cons, List.append_assoc, List.singleton_append]
        rfl

/-- A tick without errors claims the admitted rows, or finds every slot taken. -/
theorem pollAndDispatch_quiet (quiet : env.Quiet) :
    (d.pollAndDispatch env).2 = (d.gate.admitted d.counters d.pendingRows).map Row.scan ∧
      (d.pollAndDispatch env).1.counters = d.gate.closing d.counters d.pendingRows := by
  unfold pollAndDispatch
  simp only [quiet.connects, quiet.begins, quiet.queries, quiet.commits, Bool.or_false]
  split
  · rename_i full
    rw [Admission.closing_eq, admitted_of_full full]
    exact ⟨rfl, rfl⟩
  · rcases @claimLoop_quiet d env quiet d.pendingRows 0
      { db := d.db, counters := d.counters, jobsToRun := [] } with ⟨db, same⟩
    rw [claim, same]
    exact ⟨rfl, rfl⟩

/-! ## Limits -/

theorem runningCount_acquireAll (jobs : List Job) (counters : Counters) :
    (jobs.foldl Counters.acquire counters).runningCount =
      counters.runningCount + jobs.length := by
  induction jobs generalizing counters with
  | nil => simp
  | cons job jobs induction =>
      rw [List.foldl_cons, induction, List.length_cons]
      simp only [Counters.acquire]
      omega

theorem activeGroups_acquireAll (jobs : List Job) (counters : Counters) (group : String) :
    (jobs.foldl Counters.acquire counters).activeGroups group =
      counters.activeGroups group + jobs.countP (Job.inGroup group) := by
  induction jobs generalizing counters with
  | nil => simp
  | cons job jobs induction =>
      rw [List.foldl_cons, induction, Counters.activeGroups_acquire, List.countP_cons]
      split <;> omega

theorem closing_eq_acquireAll (counters : Counters) (rows : List Row) :
    d.gate.closing counters rows =
      ((d.gate.admitted counters rows).map Row.scan).foldl Counters.acquire counters := by
  rw [Admission.closing_eq, List.foldl_map]
  rfl

/-- The total is as before, or at most the limit. -/
theorem runningCount_closing (limited : 0 < d.maxConcurrency) (counters : Counters)
    (rows : List Row) :
    (d.gate.closing counters rows).runningCount = counters.runningCount ∨
      (d.gate.closing counters rows).runningCount ≤ d.maxConcurrency := by
  apply Admission.closing_invariant fun later : Counters =>
    later.runningCount = counters.runningCount ∨ later.runningCount ≤ d.maxConcurrency
  · intro later row _ admits
    have notFull : d.full later = false := by
      simp only [gate, claimable, Bool.and_eq_true, Bool.not_eq_true'] at admits
      exact admits.1.2
    simp only [Driver.full, Bool.and_eq_false_iff, decide_eq_false_iff_not] at notFull
    have grows : (d.gate.accept later row).runningCount = later.runningCount + 1 := rfl
    omega
  · exact .inl rfl

/-- A group is as before, or at most at its limit. -/
theorem activeGroups_closing {group : String} {limit : Int}
    (isLimit : d.groupLimits group = some limit) (limited : 0 < limit) (counters : Counters)
    (rows : List Row) :
    (d.gate.closing counters rows).activeGroups group = counters.activeGroups group ∨
      (d.gate.closing counters rows).activeGroups group ≤ limit := by
  apply Admission.closing_invariant fun later : Counters =>
    later.activeGroups group = counters.activeGroups group ∨ later.activeGroups group ≤ limit
  · intro later row before admits
    have notFull : d.groupFull later row.concurrencyGroup = false := by
      simp only [gate, claimable, Bool.and_eq_true, Bool.not_eq_true'] at admits
      exact admits.2
    have grows := Counters.activeGroups_acquire later row.scan group
    change (d.gate.accept later row).activeGroups group = _ at grows
    rw [grows]
    cases inGroup : row.scan.inGroup group with
    | false => simpa using before
    | true =>
        simp only [Job.inGroup, Bool.and_eq_true, bne_iff_ne, beq_iff_eq] at inGroup
        have sameGroup : row.concurrencyGroup = group := inGroup.2
        right
        simp only [groupFull, sameGroup, isLimit, Bool.and_eq_false_iff, bne_eq_false_iff_eq,
          decide_eq_false_iff_not, inGroup.1, false_or] at notFull
        simp only [if_true]
        omega
  · exact .inl rfl

/-! ## Waiting jobs -/

theorem mem_pendingRows_of_waits {row : Row} (member : row ∈ d.db.jobs.rows)
    (waits : row.waits d.handlers = true) : row ∈ d.pendingRows := by
  simp only [Row.waits, Bool.and_eq_true, beq_iff_eq] at waits
  exact mem_pendingRows.mpr ⟨member, waits.1⟩

/-- Claimed rows are known by their ids. -/
theorem mem_admitted_iff (quiet : env.Quiet) {row : Row} (member : row ∈ d.db.jobs.rows) :
    row.id ∈ (d.pollAndDispatch env).2.map Job.id ↔
      row ∈ d.gate.admitted d.counters d.pendingRows := by
  rw [(pollAndDispatch_quiet quiet).1, List.map_map, List.mem_map]
  constructor
  · intro claimed
    rcases claimed with ⟨other, isAdmitted, sameId⟩
    have isPending := (Admission.admitted_sublist _ _).subset isAdmitted
    rw [← JobTable.eq_of_id (mem_pendingRows.mp isPending).1 member sameId]
    exact isAdmitted
  · exact fun isAdmitted => ⟨row, isAdmitted, rfl⟩

/-- A waiting job that the tick does not claim is refused by the limits. -/
theorem conserving_of_quiet (quiet : env.Quiet) :
    d.full (d.pollAndDispatch env).1.counters = true ∨
      ∀ row ∈ d.db.jobs.rows, row.waits d.handlers = true →
        (d.pollAndDispatch env).1.db.status? row.id = some .pending →
        d.groupFull (d.pollAndDispatch env).1.counters row.concurrencyGroup = true := by
  rw [(pollAndDispatch_quiet quiet).2]
  cases full : d.full (d.gate.closing d.counters d.pendingRows) with
  | true => exact .inl rfl
  | false =>
      right
      intro row member waits stays
      have isPending := mem_pendingRows_of_waits member waits
      have unclaimed := ((d.pollAndDispatch_ticked env).untouched stays).1
      rw [mem_admitted_iff quiet member] at unclaimed
      have refused := (Admission.admitted_or_refused isPending).resolve_left unclaimed
      simp only [Row.waits, Bool.and_eq_true] at waits
      change d.claimable _ row = false at refused
      simpa only [claimable, waits.2, full, Bool.not_false, Bool.and_true, Bool.true_and,
        Bool.not_eq_false'] using refused

theorem waits_of_claimed (quiet : env.Quiet) {row : Row} (member : row ∈ d.db.jobs.rows)
    (claimed : row.id ∈ (d.pollAndDispatch env).2.map Job.id) :
    row.waits d.handlers = true := by
  rw [mem_admitted_iff quiet member] at claimed
  have isPending := mem_pendingRows.mp ((Admission.admitted_sublist _ _).subset claimed)
  have registered : d.handlers.contains row.type = true := by
    by_contra unregistered
    rw [Bool.not_eq_true] at unregistered
    apply Admission.not_mem_admitted _ claimed
    simp only [gate, claimable, unregistered, Bool.false_and]
  rw [Row.waits, isPending.2, registered]
  rfl

/-- Waiting jobs of one group are claimed in the order of their texts. -/
theorem claimed_in_text_order (quiet : env.Quiet) {older younger : Row}
    (olderMember : older ∈ d.db.jobs.rows) (youngerMember : younger ∈ d.db.jobs.rows)
    (olderWaits : older.waits d.handlers = true)
    (claimed : younger.id ∈ (d.pollAndDispatch env).2.map Job.id)
    (sameGroup : older.concurrencyGroup = younger.concurrencyGroup)
    (before : older.createdAt < younger.createdAt) :
    older.id ∈ (d.pollAndDispatch env).2.map Job.id := by
  have youngerWaits := waits_of_claimed quiet youngerMember claimed
  rw [mem_admitted_iff quiet youngerMember] at claimed
  rw [mem_admitted_iff quiet olderMember]
  have sorted : d.pendingRows.Pairwise fun left right => left.createdAt ≤ right.createdAt :=
    List.pairwise_insertionSort _ _
  apply Admission.admitted_of_later sorted _ claimed
    (mem_pendingRows_of_waits olderMember olderWaits) before.not_ge
  intro counters
  simp only [Row.waits, Bool.and_eq_true] at olderWaits youngerWaits
  simp only [gate, claimable, olderWaits.2, youngerWaits.2, sameGroup]

theorem dispatched_of_queuesInOrder (quiet : env.Quiet) (inOrder : d.db.QueuesInOrder d.handlers) :
    Dispatched d env where
  withinTotal limited := by
    rw [(pollAndDispatch_quiet quiet).1]
    have total := runningCount_closing limited d.counters d.pendingRows
    rw [closing_eq_acquireAll, runningCount_acquireAll] at total
    rcases total with unchanged | within
    · left
      rw [← List.length_eq_zero_iff]
      omega
    · exact .inr within
  withinGroups group limit isLimit limited := by
    rw [(pollAndDispatch_quiet quiet).1]
    have total := activeGroups_closing isLimit limited d.counters d.pendingRows
    rw [closing_eq_acquireAll, activeGroups_acquireAll] at total
    omega
  conserving := conserving_of_quiet quiet
  fair younger youngerMember claimed older olderMember waits isOlder sameGroup := by
    have before := inOrder older olderMember younger youngerMember waits
      (waits_of_claimed quiet youngerMember claimed) sameGroup isOlder
    have alsoClaimed := claimed_in_text_order quiet olderMember youngerMember waits claimed
      sameGroup before
    rw [((d.pollAndDispatch_ticked env).taken older.id alsoClaimed).2]
    nofun

/-! ## A total limit that ends at a given row -/

/-- Only the total is limited. -/
def limitedTo (db : Database) (handlers : List String) (maxConcurrency : Int) : Driver where
  db
  handlers
  groupLimits _ := none
  maxConcurrency
  counters := .initial

/-- While the rows with a handler fit under the total limit, they are all let in. -/
theorem admitted_limitedTo {db : Database} {handlers : List String} {maxConcurrency : Int}
    (rows : List Row) (counters : Counters)
    (fits : counters.runningCount + (rows.countP fun row => handlers.contains row.type) ≤
      maxConcurrency) :
    (limitedTo db handlers maxConcurrency).gate.admitted counters rows =
      rows.filter fun row => handlers.contains row.type := by
  induction rows generalizing counters with
  | nil => rfl
  | cons row rows induction =>
      rw [List.countP_cons] at fits
      rw [Admission.admitted_cons, List.filter_cons]
      cases registered : handlers.contains row.type with
      | false =>
          have refused : (limitedTo db handlers maxConcurrency).gate.admits counters row = false := by
            simp only [gate, claimable, limitedTo, registered, Bool.false_and]
          rw [refused]
          rw [registered] at fits
          exact induction counters (by simpa using fits)
      | true =>
          rw [registered, if_pos rfl] at fits
          have isAdmitted : (limitedTo db handlers maxConcurrency).gate.admits counters row = true := by
            have notFull : (limitedTo db handlers maxConcurrency).full counters = false := by
              rw [← Bool.not_eq_true]
              simp only [full, Bool.and_eq_true, decide_eq_true_eq]
              change ¬ (maxConcurrency > 0 ∧ counters.runningCount ≥ maxConcurrency)
              omega
            simp only [gate, claimable, notFull]
            simp [limitedTo, groupFull, List.contains_iff_mem.mp registered]
          rw [isAdmitted, if_pos rfl, if_pos rfl]
          congr 1
          apply induction
          have grows : ((limitedTo db handlers maxConcurrency).gate.accept counters row).runningCount =
              counters.runningCount + 1 := rfl
          omega

/-- The younger of two waiting jobs has the smaller text: with the total limit at its place
it is claimed and the older one is not. -/
theorem passes_over {db : Database} {handlers : List String} {older younger : Row}
    (olderMember : older ∈ db.jobs.rows) (youngerMember : younger ∈ db.jobs.rows)
    (olderWaits : older.waits handlers = true) (youngerWaits : younger.waits handlers = true)
    (quiet : env.Quiet) (inverted : younger.createdAt < older.createdAt) :
    ∃ maxConcurrency,
      younger.id ∈ ((limitedTo db handlers maxConcurrency).pollAndDispatch env).2.map Job.id ∧
      ((limitedTo db handlers maxConcurrency).pollAndDispatch env).1.db.status? older.id =
        some .pending := by
  have sorted : (limitedTo db handlers 0).pendingRows.Pairwise
      fun left right => left.createdAt ≤ right.createdAt := List.pairwise_insertionSort _ _
  have olderPending := @mem_pendingRows_of_waits (limitedTo db handlers 0) _ olderMember olderWaits
  have youngerPending :=
    @mem_pendingRows_of_waits (limitedTo db handlers 0) _ youngerMember youngerWaits
  rcases List.append_of_mem youngerPending with ⟨before, after, split⟩
  have notBefore : older ∉ before ++ [younger] := by
    rw [split, List.pairwise_append] at sorted
    intro isBefore
    rcases List.mem_append.mp isBefore with inBefore | isYounger
    · exact inverted.not_ge (sorted.2.2 older inBefore younger List.mem_cons_self)
    · rw [List.mem_singleton.mp isYounger] at inverted
      exact lt_irrefl _ inverted
  let maxConcurrency : Int := ((before ++ [younger]).countP fun row => handlers.contains row.type : Nat)
  have samePending : (limitedTo db handlers maxConcurrency).pendingRows =
      (before ++ [younger]) ++ after := by
    rw [List.append_assoc]
    exact split
  simp only [Row.waits, Bool.and_eq_true, beq_iff_eq] at olderWaits youngerWaits
  have fits := @admitted_limitedTo db handlers maxConcurrency (before ++ [younger]) .initial
    (by simp [Counters.initial, maxConcurrency])
  have isFull : (limitedTo db handlers maxConcurrency).full
      ((limitedTo db handlers maxConcurrency).gate.closing .initial (before ++ [younger])) =
        true := by
    have positive : 0 < maxConcurrency := by
      simp only [maxConcurrency, Int.natCast_pos, List.countP_pos_iff]
      exact ⟨younger, by simp, youngerWaits.2⟩
    have total : ((limitedTo db handlers maxConcurrency).gate.closing .initial
        (before ++ [younger])).runningCount = maxConcurrency := by
      rw [closing_eq_acquireAll, fits, runningCount_acquireAll, List.length_map,
        ← List.countP_eq_length_filter]
      simp [Counters.initial, maxConcurrency]
    rw [full, total]
    simpa [limitedTo] using positive
  have admitted : (limitedTo db handlers maxConcurrency).gate.admitted .initial
      (limitedTo db handlers maxConcurrency).pendingRows =
        (before ++ [younger]).filter fun row => handlers.contains row.type := by
    rw [samePending, Admission.admitted_append, admitted_of_full isFull, fits, List.append_nil]
  refine ⟨maxConcurrency, ?_, ?_⟩
  · rw [mem_admitted_iff quiet youngerMember]
    change younger ∈ (limitedTo db handlers maxConcurrency).gate.admitted .initial _
    rw [admitted, List.mem_filter]
    exact ⟨by simp, youngerWaits.2⟩
  · have unclaimed : older.id ∉
        ((limitedTo db handlers maxConcurrency).pollAndDispatch env).2.map Job.id := by
      rw [mem_admitted_iff quiet olderMember]
      change older ∉ (limitedTo db handlers maxConcurrency).gate.admitted .initial _
      rw [admitted, List.mem_filter]
      exact fun isAdmitted => notBefore isAdmitted.1
    have found : db.jobs.find? older.id = some older :=
      JobTable.find?_eq_some.mpr ⟨olderMember, rfl⟩
    rcases (limitedTo db handlers maxConcurrency).pollAndDispatch_row env found olderWaits.2 with
      ⟨_, same⟩ | ⟨claimed, _⟩
    · rw [Database.status?, same, Option.map_some, olderWaits.1]
    · exact absurd claimed unclaimed

end Driver

/-- For every table and every set of handlers: a tick without errors is exact under all
limits and counters exactly when the texts of waiting jobs are in the order of their
instants. The limits and the use of the slots never depend on it. -/
theorem dispatch_exact_iff_queuesInOrder (db : Database) (handlers : List String) :
    (∀ (groupLimits : String → Option Int) (maxConcurrency : Int) (counters : Counters)
      (env : PollEnv), env.Quiet →
      Dispatched { db, handlers, groupLimits, maxConcurrency, counters } env) ↔
    db.QueuesInOrder handlers := by
  constructor
  · intro exact older olderMember younger youngerMember olderWaits youngerWaits sameGroup isOlder
    by_contra notBefore
    have different : older.createdAt ≠ younger.createdAt := by
      intro same
      rcases isOlder with ⟨created, otherCreated, parsed, otherParsed, earlier⟩
      rw [same, otherParsed, Option.some.injEq] at parsed
      rw [parsed] at earlier
      exact lt_irrefl _ earlier
    have inverted := lt_of_le_of_ne (not_lt.mp notBefore) different.symm
    have quiet : (PollEnv.quiet Time.zero).Quiet := ⟨rfl, rfl, rfl, rfl, fun _ => rfl⟩
    rcases Driver.passes_over olderMember youngerMember olderWaits youngerWaits quiet inverted with
      ⟨maxConcurrency, claimed, stays⟩
    exact (exact _ maxConcurrency _ _ quiet).fair younger youngerMember claimed older olderMember
      olderWaits isOlder sameGroup stays
  · intro inOrder groupLimits maxConcurrency counters env quiet
    exact Driver.dispatched_of_queuesInOrder quiet inOrder

/-- Two pages of one group, created 100 ms and 120 ms into a second. -/
def twoPages : Database where
  jobs :=
    { rows :=
        [.ofJob (.child "page-1" none "pull_page" "{}" "pages" [] ⟨100000000, 0⟩),
          .ofJob (.child "page-2" none "pull_page" "{}" "pages" [] ⟨120000000, 0⟩)]
      primaryKey := by decide }
  jobMetadata := []

/-- With one slot in the group the tick takes the younger page, as `00.12Z` sorts before
`00.1Z`. -/
theorem pollAndDispatch_passes_older_page :
    ¬ ∀ (db : Database) (handlers : List String) (groupLimits : String → Option Int)
      (maxConcurrency : Int) (counters : Counters) (env : PollEnv), env.Quiet →
      Dispatched { db, handlers, groupLimits, maxConcurrency, counters } env := by
  intro exact
  have dispatched := exact twoPages ["pull_page"] (fun _ => some 1) 0 .initial (.quiet Time.zero)
    ⟨rfl, rfl, rfl, rfl, fun _ => rfl⟩
  have claimed : (Driver.pollAndDispatch
      { db := twoPages, handlers := ["pull_page"], groupLimits := fun _ => some 1,
        maxConcurrency := 0, counters := .initial } (.quiet Time.zero)).2.map Job.id =
      ["page-2"] := by decide +kernel
  have stays : (Driver.pollAndDispatch
      { db := twoPages, handlers := ["pull_page"], groupLimits := fun _ => some 1,
        maxConcurrency := 0, counters := .initial } (.quiet Time.zero)).1.db.status? "page-1" =
      some .pending := by decide +kernel
  apply dispatched.fair
    (.ofJob (.child "page-2" none "pull_page" "{}" "pages" [] ⟨120000000, 0⟩)) (by simp [twoPages])
    (by rw [claimed]; exact List.mem_singleton.mpr rfl)
    (.ofJob (.child "page-1" none "pull_page" "{}" "pages" [] ⟨100000000, 0⟩)) (by simp [twoPages])
    (by decide) ?_ rfl stays
  exact ⟨⟨100000000, 0⟩, ⟨120000000, 0⟩, by decide +kernel, by decide +kernel, by decide⟩

end Kiyomi.Queue.Sqlite
