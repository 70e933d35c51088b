import Kiyomi.Queue.Sqlite.Accounting
import Kiyomi.Queue.Sqlite.Dispatch

namespace Kiyomi.Queue.Sqlite

open Go

/-! # Jobs in progress and the limits

The row loop looks at the counters, and an aborted tick leaves them too high. They are
never too low, so the limits hold for the goroutines whatever the database does. -/

namespace Counters

/-- Each job in progress has taken its slots. -/
structure Covers (counters : Counters) (jobs : List Job) : Prop where
  running : jobs.length ≤ counters.runningCount
  groups : ∀ group, jobs.countP (Job.inGroup group) ≤ counters.activeGroups group

variable {counters : Counters} {jobs : List Job}

theorem Covers.acquireAll (covers : counters.Covers jobs) (claimed : List Job) :
    (claimed.foldl Counters.acquire counters).Covers (jobs ++ claimed) where
  running := by
    have running := covers.running
    rw [Driver.runningCount_acquireAll, List.length_append]
    omega
  groups group := by
    have groups := covers.groups group
    rw [Driver.activeGroups_acquireAll, List.countP_append]
    omega

theorem Covers.of_append {claimed : List Job} (covers : counters.Covers (jobs ++ claimed)) :
    counters.Covers jobs where
  running := by
    have running := covers.running
    rw [List.length_append] at running
    omega
  groups group := by
    have groups := covers.groups group
    rw [List.countP_append] at groups
    omega

theorem Covers.release {before after : List Job} {job : Job}
    (covers : counters.Covers (before ++ job :: after)) :
    (counters.release job).Covers (before ++ after) where
  running := by
    have running := covers.running
    simp only [List.length_append, List.length_cons] at running
    simp only [Counters.release, List.length_append]
    omega
  groups group := by
    have groups := covers.groups group
    simp only [List.countP_append, List.countP_cons] at groups ⊢
    rw [activeGroups_release]
    split at groups <;> simp_all <;> omega

end Counters

namespace Driver

variable {d : Driver} {env : PollEnv}

/-- `SetGroupLimit`. -/
def setGroupLimit (d : Driver) (group : String) (limit : Int) : Driver :=
  { d with groupLimits := Function.update d.groupLimits group (some limit) }

theorem setGroupLimit_self (d : Driver) (group : String) (limit : Int) :
    (d.setGroupLimit group limit).groupLimits group = some limit := by
  unfold setGroupLimit
  apply Function.update_self

theorem setGroupLimit_of_ne (d : Driver) {group other : String} (limit : Int)
    (different : other ≠ group) :
    (d.setGroupLimit group limit).groupLimits other = d.groupLimits other := by
  unfold setGroupLimit
  apply Function.update_of_ne different

/-- What each claim keeps holds of the counters wherever the row loop leaves. -/
theorem claimLoop_invariant (Invariant : Counters → Prop)
    (claims : ∀ counters row, Invariant counters → d.claimable counters row = true →
      Invariant (counters.acquire row.scan))
    (rows : List Row) :
    ∀ (index : Nat) (state : ClaimState), Invariant state.counters →
      Invariant (d.claimLoop env index rows state).state.counters := by
  induction rows with
  | nil => exact fun _ _ kept => kept
  | cons row rows induction =>
      intro index state kept
      unfold claimLoop
      simp only
      split
      · exact kept
      split
      · exact kept
      split
      · apply induction
        split <;> exact kept
      rename_i registered
      split
      · exact kept
      rename_i notFull
      split
      · exact induction _ state kept
      rename_i groupNotFull
      split
      · exact kept
      · apply induction
        apply claims _ _ kept
        simp_all [claimable]

/-- The same over a whole tick: a failed commit takes all its claims back. -/
theorem pollAndDispatch_invariant (Invariant : Counters → Prop)
    (claims : ∀ counters row, Invariant counters → d.claimable counters row = true →
      Invariant (counters.acquire row.scan))
    (initially : Invariant d.counters) : Invariant (d.pollAndDispatch env).1.counters := by
  have looped : Invariant (d.claim env).state.counters :=
    claimLoop_invariant Invariant claims d.pendingRows 0 _ initially
  have claimed := d.claim_counters env
  unfold pollAndDispatch
  split
  · exact initially
  · cases exit : d.claim env with
    | aborted state =>
        rw [exit] at looped
        exact looped
    | finished state =>
        rw [exit] at looped
        simp only [exit, LoopExit.state] at claimed ⊢
        split
        · rw [claimed, Counters.rollback]
          exact initially
        · exact looped

theorem covers_pollAndDispatch {jobs : List Job} (covers : d.counters.Covers jobs) :
    (d.pollAndDispatch env).1.counters.Covers (jobs ++ (d.pollAndDispatch env).2) := by
  have claimed := d.claim_counters env
  unfold pollAndDispatch
  split
  · simpa using covers
  · cases exit : d.claim env with
    | aborted state =>
        simp only [exit, LoopExit.state] at claimed ⊢
        rw [claimed, List.append_nil]
        exact (covers.acquireAll state.jobsToRun).of_append
    | finished state =>
        simp only [exit, LoopExit.state] at claimed ⊢
        split
        · rw [claimed, Counters.rollback]
          simpa using covers
        · rw [claimed]
          exact covers.acquireAll state.jobsToRun

theorem runningCount_pollAndDispatch (limited : 0 < d.maxConcurrency)
    (within : d.counters.runningCount ≤ d.maxConcurrency) :
    (d.pollAndDispatch env).1.counters.runningCount ≤ d.maxConcurrency := by
  apply pollAndDispatch_invariant fun counters => counters.runningCount ≤ d.maxConcurrency
  · intro counters row _ claimable
    simp only [Driver.claimable, full, Bool.and_eq_true, Bool.not_eq_true',
      Bool.and_eq_false_iff, decide_eq_false_iff_not] at claimable
    simp only [Counters.acquire]
    omega
  · exact within

theorem activeGroups_pollAndDispatch {group : String} {limit bound : Int}
    (isLimit : d.groupLimits group = some limit) (limited : 0 < limit) (least : limit ≤ bound)
    (within : d.counters.activeGroups group ≤ bound) :
    (d.pollAndDispatch env).1.counters.activeGroups group ≤ bound := by
  apply pollAndDispatch_invariant fun counters => counters.activeGroups group ≤ bound
  · intro counters row before claimable
    rw [Counters.activeGroups_acquire]
    cases inGroup : row.scan.inGroup group with
    | false => simpa using before
    | true =>
        simp only [Job.inGroup, Bool.and_eq_true, bne_iff_ne, beq_iff_eq] at inGroup
        have sameGroup : row.concurrencyGroup = group := inGroup.2
        simp only [Driver.claimable, groupFull, sameGroup, isLimit, Bool.and_eq_true,
          Bool.not_eq_true', Bool.and_eq_false_iff, bne_eq_false_iff_eq,
          decide_eq_false_iff_not, inGroup.1, false_or] at claimable
        simp only [if_true]
        omega
  · exact within

@[simp] theorem pollAndDispatch_maxConcurrency (d : Driver) (env : PollEnv) :
    (d.pollAndDispatch env).1.maxConcurrency = d.maxConcurrency := by
  unfold pollAndDispatch
  split
  · rfl
  · split
    · rfl
    · split <;> rfl

@[simp] theorem pollAndDispatch_groupLimits (d : Driver) (env : PollEnv) :
    (d.pollAndDispatch env).1.groupLimits = d.groupLimits := by
  unfold pollAndDispatch
  split
  · rfl
  · split
    · rfl
    · split <;> rfl

end Driver

/-- A step of the system, or a call of `SetGroupLimit` between two steps. -/
inductive LimitAction
  | queue (action : Action)
  | setGroupLimit (group : String) (limit : Int)

namespace System

def stepWithLimits : StepFunction System LimitAction
  | s, .queue action => s.step action
  | s, .setGroupLimit group limit =>
      some { s with driver := s.driver.setGroupLimit group limit }

/-- No job in progress without its slots, and no more slots in use than the limit. -/
structure InTotal (maxConcurrency : Int) (s : System) : Prop where
  covers : s.driver.counters.Covers (s.goroutines.map Goroutine.job)
  limit : s.driver.maxConcurrency = maxConcurrency
  within : 0 < maxConcurrency → s.driver.counters.runningCount ≤ maxConcurrency

/-- The group is limited, and by at most `bound`. -/
structure InGroup (group : String) (bound : Int) (s : System) : Prop where
  limit : ∃ limit, s.driver.groupLimits group = some limit ∧ 0 < limit ∧ limit ≤ bound
  within : s.driver.counters.activeGroups group ≤ bound

variable {s s' : System}

/-- A step other than a tick starts no goroutine, takes no slot and moves no limit. -/
theorem step_slots {action : Action} (taken : s.step action = some s') :
    (∃ env, action = .pollAndDispatch env) ∨
    s'.driver.maxConcurrency = s.driver.maxConcurrency ∧
      s'.driver.groupLimits = s.driver.groupLimits ∧
      (s'.driver.counters = s.driver.counters ∧
          s'.goroutines.map Goroutine.job = s.goroutines.map Goroutine.job ∨
        ∃ before job after, s.goroutines.map Goroutine.job = before ++ job :: after ∧
          s'.goroutines.map Goroutine.job = before ++ after ∧
          s'.driver.counters = s.driver.counters.release job) := by
  cases action with
  | pollAndDispatch env => exact .inl ⟨env, rfl⟩
  | createJob job =>
      right
      rcases step_createJob taken with rfl | ⟨db, created, rfl⟩ <;>
        exact ⟨rfl, rfl, .inl ⟨rfl, rfl⟩⟩
  | enqueue position now =>
      right
      rcases step_enqueue taken with ⟨before, job, after, focused, rfl | ⟨job', db, enqueued, rfl⟩⟩ <;>
        exact ⟨rfl, rfl, .inl ⟨rfl, rfl⟩⟩
  | startHandler position =>
      right
      rcases step_startHandler taken with ⟨before, job, after, split, rfl⟩
      exact ⟨rfl, rfl, .inl ⟨rfl, by simp [split]⟩⟩
  | finishHandler position execErr =>
      right
      rcases step_finishHandler taken with ⟨before, job, fullJob, after, split, rfl⟩
      exact ⟨rfl, rfl, .inl ⟨rfl, by simp [split]⟩⟩
  | finalizeJob position now dbFails =>
      right
      rcases step_finalizeJob taken with ⟨before, job, execErr, after, split, rfl⟩
      exact ⟨rfl, rfl, .inr ⟨before.map Goroutine.job, job, after.map Goroutine.job,
        by simp [split], by simp, rfl⟩⟩
  | cancelJob id now =>
      right
      rcases step_cancelJob taken with rfl | ⟨db, cancelled, rfl⟩ <;>
        exact ⟨rfl, rfl, .inl ⟨rfl, rfl⟩⟩
  | deleteJob id =>
      right
      rcases step_deleteJob taken with rfl | ⟨db, deleted, rfl⟩ <;>
        exact ⟨rfl, rfl, .inl ⟨rfl, rfl⟩⟩

theorem InTotal.step {maxConcurrency : Int} (inTotal : s.InTotal maxConcurrency)
    {action : LimitAction} (taken : s.stepWithLimits action = some s') :
    s'.InTotal maxConcurrency := by
  cases action with
  | setGroupLimit group limit =>
      cases taken
      exact ⟨inTotal.covers, inTotal.limit, inTotal.within⟩
  | queue action =>
      have same := inTotal.limit
      rcases step_slots taken with ⟨env, rfl⟩ | ⟨sameMax, _, ⟨counters, jobs⟩ | released⟩
      · rw [step_pollAndDispatch taken]
        refine ⟨?_, by simpa using same, ?_⟩
        · have jobs : ((s.driver.pollAndDispatch env).2.map fun job =>
              ({ job, phase := .dispatched } : Goroutine)).map Goroutine.job =
                (s.driver.pollAndDispatch env).2 := by
            rw [List.map_map]
            exact List.map_id _
          rw [List.map_append, jobs]
          exact Driver.covers_pollAndDispatch inTotal.covers
        · intro limited
          rw [← same] at limited ⊢
          apply Driver.runningCount_pollAndDispatch limited
          rw [same] at limited ⊢
          exact inTotal.within limited
      · refine ⟨?_, sameMax.trans same, ?_⟩
        · rw [counters, jobs]
          exact inTotal.covers
        · rw [counters]
          exact inTotal.within
      · rcases released with ⟨before, job, after, split, jobs, counters⟩
        have covers := inTotal.covers
        rw [split] at covers
        refine ⟨?_, sameMax.trans same, ?_⟩
        · rw [counters, jobs]
          exact covers.release
        · intro limited
          have within := inTotal.within limited
          rw [counters]
          simp only [Counters.release]
          omega

theorem InGroup.step {group : String} {bound : Int} (inGroup : s.InGroup group bound)
    {action : LimitAction}
    (kept : ∀ limit, action = .setGroupLimit group limit → 0 < limit ∧ limit ≤ bound)
    (taken : s.stepWithLimits action = some s') : s'.InGroup group bound := by
  cases action with
  | setGroupLimit other limit =>
      cases taken
      refine ⟨?_, inGroup.within⟩
      by_cases same : group = other
      · subst same
        exact ⟨limit, Driver.setGroupLimit_self s.driver group limit, kept limit rfl⟩
      · rcases inGroup.limit with ⟨current, isLimit, bounds⟩
        exact ⟨current, (Driver.setGroupLimit_of_ne s.driver limit same).trans isLimit, bounds⟩
  | queue action =>
      rcases inGroup.limit with ⟨limit, isLimit, limited, least⟩
      rcases step_slots taken with ⟨env, rfl⟩ | ⟨_, sameLimits, ⟨counters, _⟩ | released⟩
      · rw [step_pollAndDispatch taken]
        exact ⟨⟨limit, by simpa using isLimit, limited, least⟩,
          Driver.activeGroups_pollAndDispatch isLimit limited least inGroup.within⟩
      · refine ⟨⟨limit, by rw [sameLimits, isLimit], limited, least⟩, ?_⟩
        rw [counters]
        exact inGroup.within
      · rcases released with ⟨before, job, after, _, _, counters⟩
        refine ⟨⟨limit, by rw [sameLimits, isLimit], limited, least⟩, ?_⟩
        have within := inGroup.within
        rw [counters, Counters.activeGroups_release]
        split <;> omega

theorem inTotal_boot (db : Database) (handlers : List String)
    (groupLimits : String → Option Int) (maxConcurrency : Int) :
    (boot db handlers groupLimits maxConcurrency).InTotal maxConcurrency where
  covers := ⟨le_refl _, fun _ => le_refl _⟩
  limit := rfl
  within limited := limited.le

theorem InTotal.goroutines {maxConcurrency : Int} (inTotal : s.InTotal maxConcurrency)
    (limited : 0 < maxConcurrency) : s.goroutines.length ≤ maxConcurrency := by
  have covered := inTotal.covers.running
  rw [List.length_map] at covered
  exact covered.trans (inTotal.within limited)

/-- The jobs in progress that belong to a group. -/
def inProgress (s : System) (group : String) : Nat :=
  s.goroutines.countP fun goroutine => goroutine.job.inGroup group

theorem InGroup.inProgress {maxConcurrency bound : Int} {group : String}
    (inGroup : s.InGroup group bound) (inTotal : s.InTotal maxConcurrency) :
    s.inProgress group ≤ bound := by
  have covered := inTotal.covers.groups group
  rw [List.countP_map] at covered
  exact covered.trans inGroup.within

end System

/-- Every limit that the group has before or during the actions is positive and at most
`bound`. -/
structure LimitedBy (groupLimits : String → Option Int) (actions : List LimitAction)
    (group : String) (bound : Int) : Prop where
  initially : ∃ limit, groupLimits group = some limit ∧ 0 < limit ∧ limit ≤ bound
  later : ∀ limit, .setGroupLimit group limit ∈ actions → 0 < limit ∧ limit ≤ bound

namespace System

/-- Whatever the table holds at the start, whichever database calls fail and however the
limits are changed meanwhile: the jobs in progress never outnumber the limit on all jobs,
nor those of a group the highest limit it had. -/
theorem slots_within_limits (db : Database) (handlers : List String)
    (groupLimits : String → Option Int) (maxConcurrency : Int) {actions : List LimitAction}
    {last : System}
    (run : Run stepWithLimits (fun _ _ => True) (boot db handlers groupLimits maxConcurrency)
      actions last) :
    (0 < maxConcurrency → last.goroutines.length ≤ maxConcurrency) ∧
    ∀ group bound, LimitedBy groupLimits actions group bound → last.inProgress group ≤ bound := by
  have inTotal : last.InTotal maxConcurrency := by
    apply run.invariant fun s => s.InTotal maxConcurrency
    · intro s action next _ inTotal taken
      exact inTotal.step taken
    · exact inTotal_boot db handlers groupLimits maxConcurrency
  refine ⟨inTotal.goroutines, ?_⟩
  intro group bound limited
  have inGroup : last.InGroup group bound := by
    apply run.members.invariant fun s => s.InGroup group bound
    · intro s action next member inGroup taken
      apply inGroup.step _ taken
      rintro limit rfl
      exact limited.later limit member.2
    · rcases limited.initially with ⟨limit, isLimit, positive, least⟩
      exact ⟨⟨limit, isLimit, positive, least⟩, positive.le.trans least⟩
  exact inGroup.inProgress inTotal

/-- Two pages of a group with one slot, then a second slot: both run, under a limit of three
jobs in total. -/
theorem slots_within_limits_raised :
    ∃ last,
      Run stepWithLimits (fun _ _ => True)
        (boot twoPages ["pull_page"] (fun _ => some 1) 3)
        [.queue (.pollAndDispatch (.quiet Time.zero)), .setGroupLimit "pages" 2,
          .queue (.pollAndDispatch (.quiet Time.zero))] last ∧
      last.goroutines.length = 2 ∧ (last.goroutines.length : Int) ≤ 3 ∧
      (last.inProgress "pages" : Int) ≤ 2 := by
  have executed : (Run.execute stepWithLimits (fun _ _ => true)
      (boot twoPages ["pull_page"] (fun _ => some 1) 3)
      [.queue (.pollAndDispatch (.quiet Time.zero)), .setGroupLimit "pages" 2,
        .queue (.pollAndDispatch (.quiet Time.zero))]).map
      (fun last => last.goroutines.length) = some 2 := by decide +kernel
  rcases Option.map_eq_some_iff.mp executed with ⟨last, executed, started⟩
  have run : Run stepWithLimits (fun _ _ => True) _ _ last :=
    (Run.ofExecute executed).weaken fun _ _ _ => trivial
  have limits := slots_within_limits twoPages ["pull_page"] (fun _ => some 1) 3 run
  refine ⟨last, run, started, limits.1 (by decide), limits.2 "pages" 2 ⟨⟨1, rfl, by decide⟩, ?_⟩⟩
  intro limit raised
  simp only [List.mem_cons, reduceCtorEq, LimitAction.setGroupLimit.injEq, true_and,
    List.not_mem_nil, or_false, false_or] at raised
  omega

end System

end Kiyomi.Queue.Sqlite
