import Kiyomi.Queue.InMemory.Lookups

namespace Kiyomi.Queue.InMemory

open Go ParentTable

/-! # Cancelling a subtree in memory

`CancelJob` fails the live jobs of a subtree in one section, and the worker starts
pending jobs only. What undoes a cancellation is `Enqueue`: it sets the status of its job
without looking at it, and both a retry and the creator of a job leave the lock before
they call it. -/

/-- The job that the worker is busy with. -/
def Phase.job? : Phase → Option Pointer
  | .idle => none
  | .found job | .handling job | .retrying job => some job
  | .sending _ handler => handler

@[simp] theorem Phase.afterSend_job? (handler : Option Pointer) :
    (afterSend handler).job? = handler := by
  cases handler <;> rfl

theorem Phase.map_job? (f : Pointer → Pointer) (phase : Phase) :
    (phase.map f).job? = phase.job?.map f := by
  cases phase <;> rfl

namespace System

def status? (s : System) (id : String) : Option JobStatus := (s.store.find? id).map Job.status

/-- The job whose handler a step starts. -/
def starts (s : System) : Action → Option String
  | .claim _ =>
      match s.worker with
      | .found pointer =>
          ((s.deref pointer).filter fun job =>
            s.handlers.contains job.type && job.status == .pending).map Job.id
      | _ => none
  | _ => none

/-- The job that a step sets to pending as part of an `Enqueue`. -/
def enqueues (s : System) : Action → Option String
  | .enqueue job | .enqueueChild job => some job.id
  | .reenqueue =>
      match s.worker with
      | .retrying pointer => (s.deref pointer).map Job.id
      | _ => none
  | _ => none

/-- The worker's job is the entry of the map, as nobody has replaced or removed it. -/
def Attached (s : System) : Prop :=
  ∀ pointer, s.worker.job? = some pointer → ∃ id, pointer = .entry id

end System

/-- A system and the handler runs started so far, newest first. -/
structure Observed where
  system : System
  started : List String

namespace Observed

def boot (bufferSize : ℕ+) (handlers : List String) : Observed where
  system := .boot bufferSize handlers
  started := []

/-- The steps of the worker, of callers of `CreateJob`, `Enqueue` and `CancelJob`. -/
def step : StepFunction Observed Action
  | _, .updateJob _ | _, .deleteJob _ => none
  | s, action =>
      (s.system.step action).map fun system =>
        { system, started := (s.system.starts action).toList ++ s.started }

theorem step_system {s next : Observed} {action : Action} (taken : s.step action = some next) :
    s.system.step action = some next.system ∧
      next.started = (s.system.starts action).toList ++ s.started ∧
      (∀ job, action ≠ .updateJob job) ∧ ∀ id, action ≠ .deleteJob id := by
  unfold step at taken
  split at taken
  · contradiction
  · contradiction
  · rename_i notUpdate notDelete
    rcases Option.map_eq_some_iff.mp taken with ⟨system, moved, rfl⟩
    exact ⟨moved, rfl, notUpdate, notDelete⟩

/-- The subtree of `root` when it was cancelled in state `s`. -/
def Subtree (s : Observed) (root id : String) : Prop :=
  Below Job.id Job.parentID s.system.store.jobs root id

/-- What a cancelled job stays: failed, or what it had ended as before. -/
def cancelledStatus (status : JobStatus) : JobStatus :=
  if status.isLive then .failed else status

/-- The cancellation of `root` in state `s` still holds, and since then no handler run of
the subtree has started. -/
structure CancellationFinal (root : String) (s later : Observed) : Prop where
  failed : ∀ id status, s.Subtree root id → s.system.status? id = some status →
    later.system.status? id = some (cancelledStatus status)
  notStarted : ∃ events, later.started = events ++ s.started ∧
    ∀ id ∈ events, ¬ s.Subtree root id

/-- No `Enqueue` sets a job of the subtree to pending. -/
def SparesSubtree (root : String) (s : Observed) (later : Observed) (action : Action) : Prop :=
  ∀ id, later.system.enqueues action = some id → ¬ s.Subtree root id

end Observed

namespace System

variable {s s' : System}

/-! ## What a step does to a job that has ended -/

theorem claim_find? {target id : String} {job : Job} (now : Time)
    (kept : id ≠ target ∨ job.status.isLive = false) :
    (s.claim now (.entry target) job).store.find? id = s.store.find? id := by
  unfold claim
  split
  · split
    · rename_i pending
      rcases kept with other | ended
      · exact Store.find?_modify_ne s.store _ other
      · rw [pending] at ended
        contradiction
    · rfl
  · split
    · rename_i live
      rcases kept with other | ended
      · exact Store.find?_modify_ne s.store _ other
      · rw [live] at ended
        contradiction
    · rfl

theorem conclude_find? {target id : String} {job : Job} (handleErr : Option HandlerError)
    (now : Time) (kept : id ≠ target ∨ job.status.isLive = false) :
    (s.conclude handleErr now (.entry target) job).store.find? id = s.store.find? id := by
  unfold conclude
  split
  · rename_i running
    rcases kept with other | ended
    · split
      · split <;> exact Store.find?_modify_ne s.store _ other
      · exact Store.find?_modify_ne s.store _ other
    · rw [running] at ended
      contradiction
  · rfl

theorem status?_eq_some {id : String} {status : JobStatus} :
    s.status? id = some status ↔ ∃ job, s.store.find? id = some job ∧ job.status = status :=
  Option.map_eq_some_iff

/-- A job that has ended keeps its status, unless the step enqueues it. -/
theorem status?_step (attached : s.Attached) {action : Action} (taken : s.step action = some s')
    (notUpdate : ∀ job, action ≠ .updateJob job) (notDelete : ∀ id, action ≠ .deleteJob id)
    {id : String} {status : JobStatus} (present : s.status? id = some status)
    (ended : status.isLive = false) :
    s'.status? id = if s.enqueues action = some id then some .pending else some status := by
  rcases status?_eq_some.mp present with ⟨job, found, rfl⟩
  have never {enqueued : Option String} (nothing : enqueued = none) : enqueued ≠ some id := by
    simp [nothing]
  have unchanged (same : s'.store.find? id = s.store.find? id)
      (notEnqueued : s.enqueues action ≠ some id) :
      s'.status? id =
        if s.enqueues action = some id then some .pending else some job.status := by
    rw [if_neg notEnqueued, status?, same, found, Option.map_some]
  have marked {enqueued : Job} (same : s'.store = s.store.mark enqueued) :
      s'.status? id = if some enqueued.id = some id then some .pending else some job.status := by
    rw [status?, same, Store.find?_mark]
    by_cases isId : enqueued.id = id
    · simp [isId]
    · simp [isId, Ne.symm isId, found]
  cases action with
  | updateJob job => exact absurd rfl (notUpdate job)
  | deleteJob id => exact absurd rfl (notDelete id)
  | createJob new =>
      cases taken
      apply unchanged _ (never rfl)
      cases created : s.store.createJob new with
      | error error => rfl
      | ok store =>
          rcases Store.find?_createJob created id with ⟨absent, lookups⟩
          have other : id ≠ new.id := by
            rintro rfl
            rw [absent] at found
            contradiction
          exact lookups.trans (if_neg other)
  | cancelJob root now =>
      rcases Option.map_eq_some_iff.mp taken with ⟨outcome, cancelled, rfl⟩
      apply unchanged _ (never rfl)
      cases outcome with
      | error error => rfl
      | ok store =>
          rcases (Store.find?_cancelJob cancelled).2 id job found with ⟨_, live, _⟩ | ⟨_, same⟩
          · rw [ended] at live
            contradiction
          · exact same.trans found.symm
  | enqueue enqueued =>
      cases taken
      exact marked rfl
  | send position =>
      simp only [step] at taken
      split at taken
      · contradiction
      · rcases Option.map_eq_some_iff.mp taken with ⟨driver, sent, rfl⟩
        rcases Driver.send_eq_some.mp sent with ⟨_, rfl⟩
        exact unchanged rfl (never rfl)
  | giveUp position =>
      simp only [step] at taken
      split at taken
      · contradiction
      · cases taken
        exact unchanged rfl (never rfl)
  | receive =>
      simp only [step] at taken
      split at taken
      · cases taken
        exact unchanged rfl (never rfl)
      · contradiction
  | claim now =>
      simp only [step] at taken
      split at taken
      · rename_i pointer isFound
        rcases attached pointer (by rw [isFound]; rfl) with ⟨target, rfl⟩
        rcases Option.map_eq_some_iff.mp taken with ⟨claimed, lookup, rfl⟩
        apply unchanged (claim_find? now _) (never rfl)
        by_cases same : id = target
        · subst same
          right
          have sameJob := lookup.symm.trans found
          rw [Option.some.injEq] at sameJob
          rw [sameJob, ended]
        · exact .inl same
      · contradiction
  | enqueueChild enqueued =>
      simp only [step] at taken
      split at taken
      · cases taken
        exact marked rfl
      · contradiction
  | workerSend =>
      simp only [step] at taken
      split at taken
      · rcases Option.map_eq_some_iff.mp taken with ⟨driver, sent, rfl⟩
        rcases Driver.send_eq_some.mp sent with ⟨_, rfl⟩
        exact unchanged rfl (never rfl)
      · contradiction
  | workerGivesUp =>
      simp only [step] at taken
      split at taken
      · cases taken
        exact unchanged rfl (never rfl)
      · contradiction
  | returnHandler handleErr now =>
      simp only [step] at taken
      split at taken
      · rename_i pointer isHandling
        rcases attached pointer (by rw [isHandling]; rfl) with ⟨target, rfl⟩
        rcases Option.map_eq_some_iff.mp taken with ⟨handled, lookup, rfl⟩
        apply unchanged (conclude_find? handleErr now _) (never rfl)
        by_cases same : id = target
        · subst same
          right
          have sameJob := lookup.symm.trans found
          rw [Option.some.injEq] at sameJob
          rw [sameJob, ended]
        · exact .inl same
      · contradiction
  | reenqueue =>
      simp only [step] at taken
      split at taken
      · rename_i pointer isRetrying
        rcases Option.map_eq_some_iff.mp taken with ⟨enqueued, lookup, rfl⟩
        have names : s.enqueues .reenqueue = some enqueued.id := by
          simp only [enqueues, isRetrying, lookup, Option.map_some]
        rw [names]
        exact marked rfl
      · contradiction

/-! ## The worker's job stays an entry of the map -/

theorem Attached.withOutcome (attached : s.Attached) (outcome : Except DriverError Store) :
    (s.withOutcome (fun _ _ => false) outcome).Attached := by
  cases outcome with
  | error error => exact attached
  | ok store =>
      intro pointer busy
      simp only [System.withOutcome, Phase.map_job?, Option.map_eq_some_iff] at busy
      rcases busy with ⟨old, before, rfl⟩
      rcases attached old before with ⟨id, rfl⟩
      exact ⟨id, rfl⟩

theorem attached_of_same (attached : s.Attached)
    (same : s'.worker.job? = s.worker.job? ∨ s'.worker.job? = none) : s'.Attached := by
  intro pointer busy
  rcases same with same | idle
  · exact attached pointer (same ▸ busy)
  · rw [idle] at busy
    contradiction

theorem claim_job? (now : Time) (target : String) (job : Job) :
    (s.claim now (.entry target) job).worker.job? = some (.entry target) ∨
      (s.claim now (.entry target) job).worker.job? = none := by
  unfold claim
  split
  · split
    · exact .inl rfl
    · exact .inr rfl
  · split <;> exact .inr rfl

theorem conclude_job? (handleErr : Option HandlerError) (now : Time) (target : String)
    (job : Job) :
    (s.conclude handleErr now (.entry target) job).worker.job? = some (.entry target) ∨
      (s.conclude handleErr now (.entry target) job).worker.job? = none := by
  unfold conclude
  split
  · split
    · split
      · exact .inr rfl
      · exact .inl rfl
    · exact .inr rfl
  · exact .inr rfl

theorem Attached.step (attached : s.Attached) {action : Action}
    (taken : s.step action = some s') (notUpdate : ∀ job, action ≠ .updateJob job)
    (notDelete : ∀ id, action ≠ .deleteJob id) : s'.Attached := by
  cases action with
  | updateJob job => exact absurd rfl (notUpdate job)
  | deleteJob id => exact absurd rfl (notDelete id)
  | createJob job =>
      cases taken
      exact attached.withOutcome _
  | cancelJob id now =>
      rcases Option.map_eq_some_iff.mp taken with ⟨outcome, _, rfl⟩
      exact attached.withOutcome _
  | enqueue job =>
      cases taken
      exact attached_of_same attached (.inl rfl)
  | send position =>
      simp only [System.step] at taken
      split at taken
      · contradiction
      · rcases Option.map_eq_some_iff.mp taken with ⟨driver, _, rfl⟩
        exact attached_of_same attached (.inl rfl)
  | giveUp position =>
      simp only [System.step] at taken
      split at taken
      · contradiction
      · cases taken
        exact attached_of_same attached (.inl rfl)
  | receive =>
      simp only [System.step] at taken
      split at taken
      · rename_i jobID queueChan _ _
        cases taken
        intro pointer busy
        simp only [lookUp] at busy
        split at busy
        · contradiction
        · split at busy
          · cases busy
            exact ⟨_, rfl⟩
          · contradiction
      · contradiction
  | claim now =>
      simp only [System.step] at taken
      split at taken
      · rename_i pointer isFound
        rcases attached pointer (by rw [isFound]; rfl) with ⟨target, rfl⟩
        rcases Option.map_eq_some_iff.mp taken with ⟨job, _, rfl⟩
        apply attached_of_same attached
        rw [isFound]
        exact claim_job? now target job
      · contradiction
  | enqueueChild job =>
      simp only [System.step] at taken
      split at taken
      · rename_i pointer isHandling
        cases taken
        apply attached_of_same attached
        rw [isHandling]
        exact .inl rfl
      · contradiction
  | workerSend =>
      simp only [System.step] at taken
      split at taken
      · rename_i id handler isSending
        rcases Option.map_eq_some_iff.mp taken with ⟨driver, _, rfl⟩
        apply attached_of_same attached
        rw [isSending]
        exact .inl (Phase.afterSend_job? handler)
      · contradiction
  | workerGivesUp =>
      simp only [System.step] at taken
      split at taken
      · rename_i id pointer isSending
        cases taken
        apply attached_of_same attached
        rw [isSending]
        exact .inl rfl
      · contradiction
  | returnHandler handleErr now =>
      simp only [System.step] at taken
      split at taken
      · rename_i pointer isHandling
        rcases attached pointer (by rw [isHandling]; rfl) with ⟨target, rfl⟩
        rcases Option.map_eq_some_iff.mp taken with ⟨job, _, rfl⟩
        apply attached_of_same attached
        rw [isHandling]
        exact conclude_job? handleErr now target job
      · contradiction
  | reenqueue =>
      simp only [System.step] at taken
      split at taken
      · rcases Option.map_eq_some_iff.mp taken with ⟨job, _, rfl⟩
        exact attached_of_same attached (.inr rfl)
      · contradiction

/-- The worker starts pending jobs only. -/
theorem pending_of_starts (attached : s.Attached) {action : Action} {id : String}
    (started : s.starts action = some id) : s.status? id = some .pending := by
  unfold starts at started
  split at started
  · split at started
    · rename_i pointer isFound
      rcases attached pointer (by rw [isFound]; rfl) with ⟨target, rfl⟩
      rcases Option.map_eq_some_iff.mp started with ⟨job, chosen, rfl⟩
      rcases Option.filter_eq_some_iff.mp chosen with ⟨lookup, claimable⟩
      have isTarget : job.id = target := Store.find?_id lookup
      rw [Bool.and_eq_true, beq_iff_eq] at claimable
      exact status?_eq_some.mpr ⟨job, isTarget ▸ lookup, claimable.2⟩
    · contradiction
  · contradiction

end System

namespace Observed

variable {root : String} {s later next : Observed}

theorem cancelledStatus_ended (status : JobStatus) : (cancelledStatus status).isLive = false := by
  cases status <;> rfl

/-- Every job of the subtree of a job is stored. -/
theorem Subtree.present {id : String} (rooted : root ∈ s.system.store.jobs.map Job.id)
    (inSubtree : s.Subtree root id) : ∃ status, s.system.status? id = some status := by
  have inTree : InTree Job.id Job.parentID s.system.store.jobs root id := ⟨rooted, inSubtree⟩
  have member := inTree.member_mem
  cases found : s.system.store.find? id with
  | none => exact absurd member (Store.find?_eq_none.mp found)
  | some job => exact ⟨job.status, by rw [System.status?, found]; rfl⟩

/-- The cancellation itself. -/
theorem CancellationFinal.start {now : String → Time} {cancelled : Observed}
    (rooted : root ∈ s.system.store.jobs.map Job.id)
    (taken : s.step (.cancelJob root now) = some cancelled) :
    CancellationFinal root s cancelled := by
  rcases step_system taken with ⟨moved, started, _, _⟩
  refine ⟨fun id status inSubtree present => ?_, [], started, fun _ member => nomatch member⟩
  rcases System.status?_eq_some.mp present with ⟨job, found, rfl⟩
  rcases Option.map_eq_some_iff.mp moved with ⟨outcome, outcomeIs, withOutcome⟩
  rw [← withOutcome]
  cases outcome with
  | error error =>
      rcases Store.cancelJob_present now rooted with ⟨visited, cancels, _⟩
      rw [outcomeIs] at cancels
      cases cancels
  | ok store =>
      rcases (Store.find?_cancelJob outcomeIs).2 id job found with ⟨_, live, same⟩ | ⟨kept, same⟩
      · simp [System.status?, System.withOutcome, System.store, System.withStore, same,
          cancelledStatus, live, Store.cancelled]
      · have ended : ¬ job.status.isLive = true := fun live => kept ⟨inSubtree, live⟩
        simp [System.status?, System.withOutcome, System.store, System.withStore, same,
          cancelledStatus, ended]

theorem CancellationFinal.step (final : CancellationFinal root s later)
    (rooted : root ∈ s.system.store.jobs.map Job.id) (attached : later.system.Attached)
    {action : Action} (taken : later.step action = some next)
    (spared : SparesSubtree root s later action) : CancellationFinal root s next := by
  rcases step_system taken with ⟨moved, started, notUpdate, notDelete⟩
  refine ⟨fun id status inSubtree present => ?_, ?_⟩
  · rw [System.status?_step attached moved notUpdate notDelete
      (final.failed id status inSubtree present) (cancelledStatus_ended status), if_neg]
    exact fun enqueued => spared id enqueued inSubtree
  · rcases final.notStarted with ⟨events, sameStarted, outside⟩
    refine ⟨(later.system.starts action).toList ++ events, ?_, ?_⟩
    · rw [started, sameStarted, List.append_assoc]
    · intro id member inSubtree
      rcases List.mem_append.mp member with isNew | isOld
      · have pending := System.pending_of_starts attached (Option.mem_toList.mp isNew)
        rcases inSubtree.present rooted with ⟨status, present⟩
        rw [final.failed id status inSubtree present, Option.some.injEq] at pending
        have ended := cancelledStatus_ended status
        rw [pending] at ended
        contradiction
      · exact outside id isOld inSubtree

/-- An `Enqueue` of a job of the subtree undoes its cancellation at once. -/
theorem SparesSubtree.of_final (final : CancellationFinal root s later)
    (rooted : root ∈ s.system.store.jobs.map Job.id) (attached : later.system.Attached)
    {action : Action} (taken : later.step action = some next)
    (finalNext : CancellationFinal root s next) : SparesSubtree root s later action := by
  intro id enqueued inSubtree
  rcases step_system taken with ⟨moved, _, notUpdate, notDelete⟩
  rcases inSubtree.present rooted with ⟨status, present⟩
  have revived := System.status?_step attached moved notUpdate notDelete
    (final.failed id status inSubtree present) (cancelledStatus_ended status)
  rw [if_pos enqueued, finalNext.failed id status inSubtree present, Option.some.injEq] at revived
  have ended := cancelledStatus_ended status
  rw [revived] at ended
  contradiction

theorem attached_of_run {bufferSize : ℕ+} {handlers : List String} {actions : List Action}
    (run : Run step (fun _ _ => True) (boot bufferSize handlers) actions s) :
    s.system.Attached := by
  apply run.invariant fun s => s.system.Attached
  · intro state action next _ attached taken
    rcases step_system taken with ⟨moved, _, notUpdate, notDelete⟩
    exact attached.step moved notUpdate notDelete
  · intro pointer busy
    contradiction

/-- From the cancellation of a stored job on, over every interleaving of the worker with
callers, the cancellation holds in every state exactly when no `Enqueue` is for a job of
the subtree. -/
theorem cancellationFinal_iff {bufferSize : ℕ+} {handlers : List String}
    {setup actions : List Action} {cancelled last : Observed} {now : String → Time}
    (before : Run step (fun _ _ => True) (boot bufferSize handlers) setup s)
    (rooted : root ∈ s.system.store.jobs.map Job.id)
    (cancels : s.step (.cancelJob root now) = some cancelled)
    (run : Run step (fun _ _ => True) cancelled actions last) :
    Run.Throughout step (CancellationFinal root s) cancelled actions ↔
      Run step (SparesSubtree root s) cancelled actions last := by
  have attached := attached_of_run before
  rcases step_system cancels with ⟨moved, _, notUpdate, notDelete⟩
  apply Run.throughout_iff fun later =>
    later.system.Attached ∧ CancellationFinal root s later
  · exact fun _ inv => inv.2
  · intro later action next inv taken
    rcases step_system taken with ⟨movedNext, _, notUpdate, notDelete⟩
    exact ⟨fun spared =>
        ⟨inv.1.step movedNext notUpdate notDelete, inv.2.step rooted inv.1 taken spared⟩,
      SparesSubtree.of_final inv.2 rooted inv.1 taken⟩
  · exact run
  · exact ⟨attached.step moved notUpdate notDelete, .start rooted cancels⟩

/-- A page that is cancelled while its handler runs. -/
theorem cancellationFinal_iff_running_page :
    ∃ s cancelled last,
      s.step (.cancelJob "page-1" fun _ => Time.zero) = some cancelled ∧
      Run step (fun _ _ => True) cancelled [.returnHandler none Time.zero] last ∧
      Run.Throughout step (CancellationFinal "page-1" s) cancelled
        [.returnHandler none Time.zero] := by
  have executed : ((Run.execute step (fun _ _ => true) (boot 4 ["pull_page"])
      [.createJob (Job.child "page-1" none "pull_page" "{}" "" [] Time.zero),
        .enqueue (Job.child "page-1" none "pull_page" "{}" "" [] Time.zero), .send 0, .receive,
        .claim Time.zero]).bind fun s =>
      (s.step (.cancelJob "page-1" fun _ => Time.zero)).bind fun cancelled =>
        (Run.execute step (fun s action => (s.system.enqueues action).isNone) cancelled
          [.returnHandler none Time.zero]).map fun _ => s.system.store.jobs.map Job.id) =
      some ["page-1"] := by decide +kernel
  rcases Option.bind_eq_some_iff.mp executed with ⟨s, setup, afterSetup⟩
  rcases Option.bind_eq_some_iff.mp afterSetup with ⟨cancelled, cancels, afterCancel⟩
  rcases Option.map_eq_some_iff.mp afterCancel with ⟨last, continuation, ids⟩
  have run := Run.ofExecute continuation
  have unrestricted : Run step (fun _ _ => True) cancelled [.returnHandler none Time.zero] last :=
    run.weaken fun _ _ _ => trivial
  have spares : Run step (SparesSubtree "page-1" s) cancelled [.returnHandler none Time.zero]
      last := by
    apply run.weaken
    intro later action noEnqueue id enqueued
    rw [enqueued] at noEnqueue
    contradiction
  have before : Run step (fun _ _ => True) (boot 4 ["pull_page"]) _ s :=
    (Run.ofExecute setup).weaken fun _ _ _ => trivial
  have rooted : "page-1" ∈ s.system.store.jobs.map Job.id := by simp [ids]
  exact ⟨s, cancelled, last, cancels, unrestricted,
    (cancellationFinal_iff before rooted cancels unrestricted).mpr spares⟩

/-- A page is cancelled between the section that sets it to pending for a retry and the
`Enqueue` of the retry, and its handler runs once more. -/
theorem retry_revives_cancelled_job :
    ¬ ∀ (bufferSize : ℕ+) (handlers : List String) (setup : List Action) (s : Observed),
      Run step (fun _ _ => True) (boot bufferSize handlers) setup s →
      ∀ (root : String) (now : String → Time) (cancelled : Observed),
        root ∈ s.system.store.jobs.map Job.id → s.step (.cancelJob root now) = some cancelled →
        ∀ (actions : List Action) (last : Observed),
          Run step (fun _ _ => True) cancelled actions last → CancellationFinal root s last := by
  intro claimed
  have executed : ((Run.execute step (fun _ _ => true) (boot 4 ["pull_page"])
      [.createJob (Job.child "page-1" none "pull_page" "{}" "" [] Time.zero),
        .enqueue (Job.child "page-1" none "pull_page" "{}" "" [] Time.zero), .send 0, .receive,
        .claim Time.zero, .returnHandler (some ⟨"timeout", false⟩) Time.zero]).bind fun s =>
      (s.step (.cancelJob "page-1" fun _ => Time.zero)).bind fun cancelled =>
        (Run.execute step (fun _ _ => true) cancelled
          [.reenqueue, .workerSend, .receive, .claim Time.zero]).map fun last =>
            (s.system.store.jobs.map Job.id, s.started, last.started)) =
      some (["page-1"], ["page-1"], ["page-1", "page-1"]) := by decide +kernel
  rcases Option.bind_eq_some_iff.mp executed with ⟨s, setup, afterSetup⟩
  rcases Option.bind_eq_some_iff.mp afterSetup with ⟨cancelled, cancels, afterCancel⟩
  rcases Option.map_eq_some_iff.mp afterCancel with ⟨last, continuation, observed⟩
  simp only [Prod.mk.injEq] at observed
  rcases observed with ⟨ids, startedBefore, startedAfter⟩
  have final := claimed 4 ["pull_page"] _ s
    ((Run.ofExecute setup).weaken fun _ _ _ => trivial) "page-1" _ cancelled (by simp [ids])
    cancels _ last ((Run.ofExecute continuation).weaken fun _ _ _ => trivial)
  rcases final.notStarted with ⟨events, started, outside⟩
  rw [startedAfter, startedBefore] at started
  have isNew : events = ["page-1"] := by
    have split : ["page-1"] ++ ["page-1"] = events ++ ["page-1"] := started
    exact (List.append_cancel_right split).symm
  exact outside "page-1" (by simp [isNew]) .refl

end Observed

end Kiyomi.Queue.InMemory
