import Kiyomi.Queue.Machinery.Driver
import Mathlib.Data.List.Count
import Mathlib.Data.List.Perm.Basic

namespace Kiyomi.Queue.Machinery

open Go Sqlite

/-! # Where the job store follows the broker, and where it does not -/

namespace System

variable {s s' : System}

/-! ## Histories -/

/-- One more event keeps the rule on cancelled jobs unless it starts one. -/
theorem cancelled_cons {event : Event} {history : List Event} :
    (∀ id later earlier, event :: history = later ++ .cancelled id :: earlier →
      .started id ∉ earlier → .started id ∉ later) ↔
    (∀ id later earlier, history = later ++ .cancelled id :: earlier →
      .started id ∉ earlier → .started id ∉ later) ∧
    ∀ id, event = .started id → .started id ∈ history ∨ .cancelled id ∉ history := by
  constructor
  · intro rule
    refine ⟨fun id later earlier split fresh => ?_, fun id isStart => ?_⟩
    · have notStarted := rule id (event :: later) earlier (by rw [split]; rfl) fresh
      exact fun member => notStarted (List.mem_cons_of_mem event member)
    · by_contra violated
      rw [not_or, not_not] at violated
      rcases List.append_of_mem violated.2 with ⟨later, earlier, split⟩
      have fresh : .started id ∉ earlier := fun member => violated.1 (by
        rw [split]
        exact List.mem_append_right later (List.mem_cons_of_mem _ member))
      have notStarted := rule id (event :: later) earlier (by rw [split]; rfl) fresh
      exact notStarted (isStart ▸ List.mem_cons_self)
  · intro rules id later earlier split fresh
    cases later with
    | nil => simp
    | cons first later =>
        rw [List.cons_append, List.cons.injEq] at split
        rcases split with ⟨rfl, split⟩
        have notStarted := rules.1 id later earlier split fresh
        intro member
        rcases List.mem_cons.mp member with isStart | inLater
        · rcases rules.2 id isStart.symm with started | notCancelled
          · rw [split] at started
            rcases List.mem_append.mp started with inLater | rest
            · exact notStarted inLater
            · rcases List.mem_cons.mp rest with equal | inEarlier
              · cases equal
              · exact fresh inEarlier
          · exact notCancelled (split ▸ by simp)
        · exact notStarted inLater

/-- One more event keeps the rule on permanent errors unless it starts a job after one. -/
theorem permanent_cons {event : Event} {history : List Event} :
    (∀ id error later earlier, event :: history = later ++ .returned id (some error) :: earlier →
      error.permanent = true → .started id ∉ later) ↔
    (∀ id error later earlier, history = later ++ .returned id (some error) :: earlier →
      error.permanent = true → .started id ∉ later) ∧
    ∀ id, event = .started id → ∀ error, .returned id (some error) ∈ history →
      error.permanent = false := by
  constructor
  · intro rule
    refine ⟨fun id error later earlier split permanent => ?_, fun id isStart error member => ?_⟩
    · have notStarted := rule id error (event :: later) earlier (by rw [split]; rfl) permanent
      exact fun member => notStarted (List.mem_cons_of_mem event member)
    · rcases List.append_of_mem member with ⟨later, earlier, split⟩
      rw [← Bool.not_eq_true]
      intro permanent
      have notStarted := rule id error (event :: later) earlier (by rw [split]; rfl) permanent
      exact notStarted (isStart ▸ List.mem_cons_self)
  · intro rules id error later earlier split permanent
    cases later with
    | nil => simp
    | cons first later =>
        rw [List.cons_append, List.cons.injEq] at split
        rcases split with ⟨rfl, split⟩
        intro member
        rcases List.mem_cons.mp member with isStart | inLater
        · have transient := rules.2 id isStart.symm error (split ▸ by simp)
          rw [permanent] at transient
          contradiction
        · exact rules.1 id error later earlier split permanent inLater

theorem lastOutcome_mem {id : String} {execErr : Option HandlerError}
    (last : s.lastOutcome id = some execErr) : .returned id execErr ∈ s.history := by
  rcases List.exists_of_findSome?_eq_some last with ⟨event, member, isLast⟩
  cases event with
  | started | cancelled => cases isLast
  | returned other other_err =>
      simp only at isLast
      split at isLast
      · rename_i same
        cases isLast
        exact same ▸ member
      · contradiction

/-! ## Live jobs -/

theorem liveIDs_enqueue {before after : List Job} {job : Job}
    (created : s.created = before ++ job :: after) :
    s.liveIDs.Perm (liveIDs { s with
      created := before ++ after, broker := s.broker ++ [signature job] }) := by
  rw [List.perm_iff_count]
  intro id
  simp only [liveIDs, created, List.map_append, List.map_cons, List.count_append, List.count_cons,
    List.map_nil, List.count_nil, signature]
  omega

theorem liveIDs_unsent {before after : List Job} {job : Job}
    (created : s.created = before ++ job :: after) :
    s.liveIDs.Perm (job.id :: liveIDs { s with created := before ++ after }) := by
  rw [List.perm_iff_count]
  intro id
  simp only [liveIDs, created, List.map_append, List.map_cons, List.count_append, List.count_cons]
  omega

theorem liveIDs_startTask {before after : List Signature} {task : Signature}
    (broker : s.broker = before ++ task :: after) (history : List Event) :
    s.liveIDs.Perm (liveIDs { s with
      broker := before ++ after, running := s.running ++ [task], history }) := by
  rw [List.perm_iff_count]
  intro id
  simp only [liveIDs, broker, List.map_append, List.map_cons, List.count_append, List.count_cons,
    List.map_nil, List.count_nil]
  omega

/-- A task that ended has left; one that is retried is back with the broker. -/
theorem liveIDs_finishTask {before after : List Signature} {task : Signature}
    (running : s.running = before ++ task :: after) (execErr : Option HandlerError)
    (history : List Event) :
    task.afterRun execErr = [] ∧
      s.liveIDs.Perm (task.uuid :: liveIDs { s with
        broker := s.broker ++ task.afterRun execErr, running := before ++ after, history }) ∨
    task.afterRun execErr ≠ [] ∧
      s.liveIDs.Perm (liveIDs { s with
        broker := s.broker ++ task.afterRun execErr, running := before ++ after, history }) := by
  have counts : ∀ rest, task.afterRun execErr = rest → ∀ id,
      (liveIDs { s with
        broker := s.broker ++ task.afterRun execErr, running := before ++ after
        history }).count id + [task.uuid].count id =
      s.liveIDs.count id + (rest.map Signature.uuid).count id := by
    intro rest isRest id
    simp only [liveIDs, isRest, running, List.map_append, List.map_cons, List.count_append,
      List.count_cons, List.count_nil]
    omega
  rcases task.afterRun_cases execErr with ended | ⟨again, retried, sameTask⟩
  · refine .inl ⟨ended, List.perm_iff_count.mpr fun id => ?_⟩
    have count := counts _ ended id
    simp only [List.map_nil, List.count_nil, List.count_cons] at count ⊢
    omega
  · refine .inr ⟨by simp [retried], List.perm_iff_count.mpr fun id => ?_⟩
    have count := counts _ retried id
    rw [List.map_singleton, sameTask] at count
    omega

/-! ## Every step keeps the accounts -/

theorem Accounted.ofPerm (accounted : s.Accounted) (gone : List String)
    (live : s.liveIDs.Perm (gone ++ s'.liveIDs)) (db : s'.db = s.db)
    (recorded : ∀ id execErr, .returned id execErr ∈ s'.history →
      s.db.status? id ≠ none ∧ id ∉ s'.created.map Job.id) : s'.Accounted where
  distinct := (List.nodup_append.mp (live.nodup_iff.mp accounted.distinct)).2.1
  stored id member := by
    rw [db]
    exact accounted.stored id (live.mem_iff.mpr (List.mem_append_right _ member))
  recorded := by rwa [db]

theorem Accounted.step (accounted : s.Accounted) {action : Action}
    (taken : s.step action = some s') : s'.Accounted := by
  cases action with
  | createJob job =>
      rcases step_createJob taken with rfl | ⟨db, created, rfl⟩
      · exact accounted
      · have status := Database.createJob_status? created
        have fresh := (Database.createJob_shape created).1
        have unused : job.id ∉ s.liveIDs := by
          intro member
          rcases accounted.stored job.id member with isPending | isFailed <;> simp_all
        have live : (job.id :: s.liveIDs).Perm (liveIDs { s with
            db, created := s.created ++ [{ job with status := .pending }] }) := by
          rw [List.perm_iff_count]
          intro id
          simp only [liveIDs, List.map_append, List.map_cons, List.map_nil, List.count_append,
            List.count_cons, List.count_nil]
          omega
        refine ⟨live.nodup_iff.mp (List.nodup_cons.mpr ⟨unused, accounted.distinct⟩), ?_, ?_⟩
        · intro id member
          change db.status? id = _ ∨ db.status? id = _
          rw [status]
          rcases List.mem_cons.mp (live.mem_iff.mpr member) with rfl | old
          · simp
          · have different : id ≠ job.id := fun same => unused (same ▸ old)
            rw [if_neg different]
            exact accounted.stored id old
        · intro id execErr member
          have recorded := accounted.recorded id execErr member
          have different : id ≠ job.id := fun same => recorded.1 (same ▸ fresh)
          refine ⟨?_, by simpa [different] using recorded.2⟩
          change db.status? id ≠ none
          rw [status, if_neg different]
          exact recorded.1
  | enqueue position sendFails =>
      rcases step_enqueue taken with ⟨before, job, after, created, rfl⟩
      have recorded : ∀ id execErr, .returned id execErr ∈ s.history →
          s.db.status? id ≠ none ∧ id ∉ (before ++ after).map Job.id := by
        intro id execErr member
        have recorded := accounted.recorded id execErr member
        refine ⟨recorded.1, fun listed => recorded.2 ?_⟩
        rw [created]
        exact ((List.sublist_cons_self job after).append_left before |>.map Job.id).mem listed
      cases sendFails with
      | true => exact accounted.ofPerm [job.id] (liveIDs_unsent created) rfl recorded
      | false => exact accounted.ofPerm [] (liveIDs_enqueue created) rfl recorded
  | startTask position =>
      rcases step_startTask taken with ⟨before, task, after, focused, rfl⟩
      refine accounted.ofPerm [] (liveIDs_startTask (focus_eq focused) _) rfl ?_
      intro id execErr member
      exact accounted.recorded id execErr (by simpa using member)
  | finishTask position execErr =>
      rcases step_finishTask taken with ⟨before, task, after, focused, rfl⟩
      have running := focus_eq focused
      have recorded : ∀ id other, .returned id other ∈
          .returned task.uuid execErr :: s.history →
          s.db.status? id ≠ none ∧ id ∉ s.created.map Job.id := by
        intro id other member
        rcases List.mem_cons.mp member with equal | old
        · cases equal
          have isLive : task.uuid ∈ s.running.map Signature.uuid := by simp [running]
          have distinct := accounted.distinct
          rw [liveIDs, List.append_assoc] at distinct
          refine ⟨?_, fun created => ?_⟩
          · rcases accounted.stored task.uuid (List.mem_append_right _ isLive) with
              isPending | isFailed <;> simp_all
          · exact (List.nodup_append.mp distinct).2.2 _ created _
              (List.mem_append_right _ isLive) rfl
        · exact accounted.recorded id other old
      rcases liveIDs_finishTask running execErr (.returned task.uuid execErr :: s.history) with
        ⟨_, live⟩ | ⟨_, live⟩
      · exact accounted.ofPerm [task.uuid] live rfl recorded
      · exact accounted.ofPerm [] live rfl recorded
  | cancelJob id now =>
      rcases step_cancelJob taken with rfl | ⟨db, cancelled, rfl⟩
      · exact accounted
      · have statuses := (Database.cancelJob_status? cancelled).2.2
        refine ⟨accounted.distinct, ?_, ?_⟩
        · intro other member
          rcases accounted.stored other member with isPending | isFailed
          · rcases statuses other _ isPending with ⟨_, _, failed⟩ | ⟨_, same⟩
            · exact .inr failed
            · exact .inl same
          · rcases statuses other _ isFailed with ⟨_, _, failed⟩ | ⟨_, same⟩
            · exact .inr failed
            · exact .inr same
        · intro other execErr member
          have recorded := accounted.recorded other execErr (by simpa using member)
          refine ⟨?_, recorded.2⟩
          rcases Option.ne_none_iff_exists'.mp recorded.1 with ⟨status, present⟩
          rcases statuses other status present with ⟨_, _, failed⟩ | ⟨_, same⟩ <;> simp_all

/-! ## What a step does to the agreement -/

/-- A step that touches neither history, nor the statuses, nor which jobs may still run,
keeps the agreement. -/
theorem Tracks.mono (tracks : s.Tracks) (history : s'.history = s.history)
    (status : ∀ id execErr, s.lastOutcome id = some execErr → id ∉ s'.liveIDs →
      id ∉ s.liveIDs ∧ s'.db.status? id = s.db.status? id) : s'.Tracks where
  cancelled := by
    rw [history]
    exact tracks.cancelled
  permanent := by
    rw [history]
    exact tracks.permanent
  status id execErr last ended := by
    rw [lastOutcome, history] at last
    have unchanged := status id execErr last ended
    rw [unchanged.2]
    exact tracks.status id execErr last unchanged.1

theorem Tracks.createJob (tracks : s.Tracks) {job : Job} {db : Database}
    (created : s.db.createJob { job with status := .pending } = .ok db) :
    Tracks { s with db, created := s.created ++ [{ job with status := .pending }] } := by
  refine tracks.mono rfl fun id execErr last ended => ?_
  have notLive : id ≠ job.id ∧ id ∉ s.liveIDs := by
    simp only [liveIDs, List.map_append, List.mem_append, List.map_singleton,
      List.mem_singleton, not_or] at ended ⊢
    exact ⟨ended.1.1.2, ⟨ended.1.1.1, ended.1.2⟩, ended.2⟩
  refine ⟨notLive.2, ?_⟩
  change db.status? id = _
  rw [Database.createJob_status? created, if_neg notLive.1]

theorem Tracks.enqueue (tracks : s.Tracks) (accounted : s.Accounted) {before after : List Job}
    {job : Job} (created : s.created = before ++ job :: after) (sendFails : Bool) :
    Tracks { s with
      created := before ++ after
      broker := if sendFails then s.broker else s.broker ++ [signature job] } := by
  refine tracks.mono rfl fun id execErr last ended => ⟨fun member => ?_, rfl⟩
  cases sendFails with
  | false => exact ended ((liveIDs_enqueue created).mem_iff.mp member)
  | true =>
      rcases List.mem_cons.mp ((liveIDs_unsent created).mem_iff.mp member) with rfl | live
      · exact (accounted.recorded _ execErr (lastOutcome_mem last)).2 (by simp [created])
      · exact ended live

theorem Tracks.startTask_iff (tracks : s.Tracks) {before after : List Signature}
    {task : Signature} (broker : s.broker = before ++ task :: after) :
    Tracks { s with
      broker := before ++ after
      running := s.running ++ [task]
      history := .started task.uuid :: s.history } ↔
    (.started task.uuid ∈ s.history ∨ .cancelled task.uuid ∉ s.history) ∧
    ∀ error, .returned task.uuid (some error) ∈ s.history → error.permanent = false := by
  have live := liveIDs_startTask broker (.started task.uuid :: s.history)
  constructor
  · intro after
    exact ⟨(cancelled_cons.mp after.cancelled).2 task.uuid rfl,
      (permanent_cons.mp after.permanent).2 task.uuid rfl⟩
  · intro allowed
    refine ⟨cancelled_cons.mpr ⟨tracks.cancelled, ?_⟩,
      permanent_cons.mpr ⟨tracks.permanent, ?_⟩, ?_⟩
    · intro id isStart
      cases isStart
      exact allowed.1
    · intro id isStart
      cases isStart
      exact allowed.2
    · intro id execErr last ended
      exact tracks.status id execErr last fun member => ended (live.mem_iff.mp member)

theorem Tracks.finishTask_iff (tracks : s.Tracks) (accounted : s.Accounted)
    {before after : List Signature} {task : Signature}
    (running : s.running = before ++ task :: after) (execErr : Option HandlerError) :
    Tracks { s with
      broker := s.broker ++ task.afterRun execErr
      running := before ++ after
      history := .returned task.uuid execErr :: s.history } ↔
    (task.afterRun execErr = [] → s.db.status? task.uuid = some (finalStatus execErr)) := by
  have live := liveIDs_finishTask running execErr (.returned task.uuid execErr :: s.history)
  have isLive : task.uuid ∈ s.liveIDs := by
    rw [liveIDs, running]
    simp
  constructor
  · intro tracksAfter hasEnded
    apply tracksAfter.status task.uuid execErr (by simp [lastOutcome])
    rcases live with ⟨_, live⟩ | ⟨retried, _⟩
    · have distinct := live.nodup_iff.mp accounted.distinct
      exact (List.nodup_cons.mp distinct).1
    · exact absurd hasEnded retried
  · intro statusFits
    refine ⟨cancelled_cons.mpr ⟨tracks.cancelled, fun _ isStart => nomatch isStart⟩,
      permanent_cons.mpr ⟨tracks.permanent, fun _ isStart => nomatch isStart⟩, ?_⟩
    intro id other last ended
    by_cases isTask : id = task.uuid
    · subst isTask
      have sameOutcome : execErr = other := by simpa [lastOutcome] using last
      subst sameOutcome
      rcases live with ⟨hasEnded, _⟩ | ⟨_, live⟩
      · exact statusFits hasEnded
      · exact absurd (live.mem_iff.mp isLive) ended
    · have lastBefore : s.lastOutcome id = some other := by
        simpa [lastOutcome, Ne.symm isTask] using last
      refine tracks.status id other lastBefore fun member => ended ?_
      rcases live with ⟨_, live⟩ | ⟨_, live⟩
      · exact (List.mem_cons.mp (live.mem_iff.mp member)).resolve_left isTask
      · exact live.mem_iff.mp member

theorem Tracks.cancelJob (tracks : s.Tracks) {root : String} {now : Time} {db : Database}
    (cancelled : s.db.cancelJob root now = some (.ok db)) :
    Tracks { s with db, history := .cancelled root :: s.history } := by
  refine ⟨cancelled_cons.mpr ⟨tracks.cancelled, fun _ isStart => nomatch isStart⟩,
    permanent_cons.mpr ⟨tracks.permanent, fun _ isStart => nomatch isStart⟩, ?_⟩
  intro id execErr last ended
  have before := tracks.status id execErr last ended
  rcases (Database.cancelJob_status? cancelled).2.2 id _ before with ⟨_, isLive, _⟩ | ⟨_, same⟩
  · cases execErr <;> contradiction
  · exact same

/-- In a state where store and executor agree, the condition on a step is exact. -/
theorem Tracks.step_iff (tracks : s.Tracks) (accounted : s.Accounted) {action : Action}
    (taken : s.step action = some s') : s'.Tracks ↔ s.tracksAfter action = true := by
  cases action with
  | createJob job =>
      rcases step_createJob taken with rfl | ⟨db, created, rfl⟩
      · exact iff_of_true tracks rfl
      · exact iff_of_true (tracks.createJob created) rfl
  | enqueue position sendFails =>
      rcases step_enqueue taken with ⟨before, job, after, created, rfl⟩
      exact iff_of_true (tracks.enqueue accounted created sendFails) rfl
  | startTask position =>
      rcases step_startTask taken with ⟨before, task, after, focused, rfl⟩
      rw [tracks.startTask_iff (focus_eq focused)]
      simp only [tracksAfter, focused, Bool.and_eq_true, Bool.or_eq_true, Bool.not_eq_true',
        List.contains_eq_mem, decide_eq_true_eq, decide_eq_false_iff_not, List.all_eq_true]
      refine and_congr Iff.rfl ⟨fun transient event member => ?_, fun all error member => ?_⟩
      · cases event with
        | started | cancelled => rfl
        | returned id execErr =>
            cases execErr with
            | none => rfl
            | some error =>
                by_cases isTask : id = task.uuid
                · subst isTask
                  simp [transient error member]
                · simp [isTask]
      · simpa using all _ member
  | finishTask position execErr =>
      rcases step_finishTask taken with ⟨before, task, after, focused, rfl⟩
      have running := focus_eq focused
      rw [tracks.finishTask_iff accounted running]
      simp only [tracksAfter, focused, Signature.afterRun]
      have stored := accounted.stored task.uuid (by rw [liveIDs, running]; simp)
      cases execErr with
      | none => rcases stored with stored | stored <;> simp [stored, finalStatus]
      | some error => simp [finalStatus, Decidable.imp_iff_not_or]
  | cancelJob id now =>
      rcases step_cancelJob taken with rfl | ⟨db, cancelled, rfl⟩
      · exact iff_of_true tracks rfl
      · exact iff_of_true (tracks.cancelJob cancelled) rfl

end System

end Kiyomi.Queue.Machinery
