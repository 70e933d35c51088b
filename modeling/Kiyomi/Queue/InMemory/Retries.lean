import Kiyomi.Queue.InMemory.Cancellation
import Kiyomi.Queue.RetryLaw

namespace Kiyomi.Queue.InMemory

open Go ParentTable

/-! # The runs of one job in memory

One job is followed through a run of the driver: it is created, enqueued once and left
alone otherwise, and its handler returns given outcomes. -/

/-- The id of the job behind a pointer. -/
def Pointer.id : Pointer → String
  | .entry id => id
  | .detached job => job.id

/-- The worker is in a run of the handler for this job. -/
def Phase.runs (id : String) : Phase → Bool
  | .handling job | .sending _ (some job) => job == .entry id
  | _ => false

theorem Phase.map_runs {f : Pointer → Pointer} {id : String} {phase : Phase}
    (same : ∀ pointer, phase.job? = some pointer → (f pointer = .entry id ↔ pointer = .entry id)) :
    (phase.map f).runs id = phase.runs id := by
  cases phase with
  | idle | found | retrying => rfl
  | handling pointer =>
      rw [Bool.eq_iff_iff, map, runs, runs, beq_iff_eq, beq_iff_eq]
      exact same pointer rfl
  | sending target handler =>
      cases handler with
      | none => rfl
      | some pointer =>
          rw [Bool.eq_iff_iff, map, Option.map_some, runs, runs, beq_iff_eq, beq_iff_eq]
          exact same pointer rfl

theorem Phase.job?_of_runs {id : String} {phase : Phase} (isRunning : phase.runs id = true) :
    phase.job? = some (.entry id) := by
  unfold runs at isRunning
  split at isRunning
  · rw [beq_iff_eq] at isRunning
    rw [isRunning]
    rfl
  · rw [beq_iff_eq] at isRunning
    rw [isRunning]
    rfl
  · contradiction

/-- The job of a caller's `Enqueue`. -/
def Action.enqueued? : Action → Option Job
  | .enqueue job | .enqueueChild job => some job
  | _ => none

/-- The job whose handler returns in a step. -/
def System.finishes (s : System) : Action → Option String
  | .returnHandler _ _ =>
      match s.worker with
      | .handling pointer => (s.deref pointer).map Job.id
      | _ => none
  | _ => none

/-- A system and what became of one job so far. -/
structure Tracked where
  system : System
  enqueued : Bool
  started : Nat
  finished : Nat

namespace Tracked

def boot (bufferSize : ℕ+) (handlers : List String) : Tracked where
  system := .boot bufferSize handlers
  enqueued := false
  started := 0
  finished := 0

def step (id : String) : StepFunction Tracked Action := fun s action =>
  (s.system.step action).map fun system =>
    { system
      enqueued := (action.enqueued?.any fun job => job.id == id) || s.enqueued
      started := s.started + if s.system.starts action = some id then 1 else 0
      finished := s.finished + if s.system.finishes action = some id then 1 else 0 }

/-- The job is created as it is, enqueued once, and neither updated, deleted nor cancelled;
its runs return the outcomes in their order. -/
def LeftAlone (job : Job) (outcomes : Nat → Option HandlerError) (s : Tracked) : Action → Prop
  | .createJob new => new.id = job.id → new = job
  | .updateJob new => new.id ≠ job.id
  | .deleteJob root | .cancelJob root _ =>
      ¬ Below Job.id Job.parentID s.system.store.jobs root job.id
  | .enqueue new | .enqueueChild new => new.id = job.id → new = job ∧ s.enqueued = false
  | .returnHandler handleErr now =>
      s.system.finishes (.returnHandler handleErr now) = some job.id →
        handleErr = outcomes s.finished
  | _ => True

/-- Once the job is stored, its entry and its runs obey the law. -/
def Lawful (job : Job) (outcomes : Nat → Option HandlerError) (s : Tracked) : Prop :=
  match s.system.store.find? job.id with
  | none => s.started = 0
  | some entry =>
      RetryLaw outcomes job.maxRetries s.started s.finished entry.status entry.retries

/-! ## The invariant -/

/-- Nobody has sent the id of the job, and the worker is not busy with it. -/
structure Unseen (s : System) (id : String) : Prop where
  notQueued : id ∉ s.driver.queueChan
  notProduced : id ∉ s.producers
  notSending : ∀ handler, s.worker ≠ .sending id handler
  notBusy : ∀ pointer, s.worker.job? = some pointer → pointer.id ≠ id

structure Follows (job : Job) (outcomes : Nat → Option HandlerError) (s : Tracked) : Prop where
  own : ∀ pointer, s.system.worker.job? = some pointer → pointer.id = job.id →
    pointer = .entry job.id
  unseen : s.enqueued = false → Unseen s.system job.id
  absent : s.system.store.find? job.id = none →
    s.enqueued = false ∧ s.started = 0 ∧ s.finished = 0
  present : ∀ entry, s.system.store.find? job.id = some entry →
    entry.type = job.type ∧ entry.maxRetries = job.maxRetries ∧
      RetryLaw outcomes job.maxRetries s.started s.finished entry.status entry.retries ∧
      (s.enqueued = false → entry.status = .pending ∧ s.started = 0)
  running : s.system.worker.runs job.id = true ↔ s.system.status? job.id = some .running
  counts : s.started = s.finished + if s.system.worker.runs job.id then 1 else 0
  retrying : s.system.worker = .retrying (.entry job.id) →
    s.system.status? job.id = some .pending
  handlers : s.system.handlers.contains job.type = true

variable {job : Job} {outcomes : Nat → Option HandlerError} {s : Tracked}

theorem Follows.lawful (follows : Follows job outcomes s) : s.Lawful job outcomes := by
  unfold Lawful
  split
  · rename_i absent
    exact (follows.absent absent).2.1
  · rename_i entry present
    exact (follows.present entry present).2.2.1

/-- A step that leaves the entry of the job alone and is not about one of its runs. -/
theorem Follows.move (follows : Follows job outcomes s) {system : System}
    (same : system.store.find? job.id = s.system.store.find? job.id)
    (sameHandlers : system.handlers = s.system.handlers)
    (runs : system.worker.runs job.id = s.system.worker.runs job.id)
    (own : ∀ pointer, system.worker.job? = some pointer → pointer.id = job.id →
      pointer = .entry job.id)
    (unseen : s.enqueued = false → Unseen system job.id)
    (retrying : system.worker = .retrying (.entry job.id) →
      s.system.worker = .retrying (.entry job.id)) :
    Follows job outcomes { s with system } where
  own
  unseen
  absent := by
    rw [same]
    exact follows.absent
  present := by
    rw [same]
    exact follows.present
  running := by
    rw [runs, System.status?, same]
    exact follows.running
  counts := by
    rw [runs]
    exact follows.counts
  retrying isRetrying := by
    rw [System.status?, same]
    exact follows.retrying (retrying isRetrying)
  handlers := by
    rw [sameHandlers]
    exact follows.handlers

/-! ## Operations on the map -/

theorem release_entry {system : System} {gone : String → Bool} {id : String}
    (stays : gone id = false) : system.release gone (.entry id) = .entry id := by
  simp [System.release, stays]

theorem release_id {system : System} (gone : String → Bool) (pointer : Pointer) :
    (system.release gone pointer).id = pointer.id := by
  cases pointer with
  | detached job => rfl
  | entry id =>
      simp only [System.release]
      split
      · cases found : system.store.find? id with
        | none => rfl
        | some job => exact Store.find?_id found
      · rfl

/-- The map is replaced by one with the same entry for the job, which is not released. -/
theorem Follows.withOutcome (follows : Follows job outcomes s) {gone : Store → String → Bool}
    {store : Store} (same : store.find? job.id = s.system.store.find? job.id)
    (stays : (∃ entry, s.system.store.find? job.id = some entry) → gone store job.id = false) :
    Follows job outcomes { s with system := s.system.withOutcome gone (.ok store) } := by
  have sameRelease (pointer : Pointer) (busy : s.system.worker.job? = some pointer)
      (isOwn : pointer.id = job.id) :
      s.system.release (gone store) pointer = .entry job.id := by
    rw [follows.own pointer busy isOwn]
    apply release_entry
    apply stays
    cases found : s.system.store.find? job.id with
    | some entry => exact ⟨entry, rfl⟩
    | none => exact absurd isOwn ((follows.unseen (follows.absent found).1).notBusy pointer busy)
  refine @Follows.move job outcomes s follows (s.system.withOutcome gone (.ok store)) same rfl
    ?_ ?_ ?_ ?_
  · apply Phase.map_runs
    intro pointer busy
    constructor
    · intro released
      apply follows.own pointer busy
      rw [← release_id (gone store) pointer, released]
      rfl
    · intro isOwn
      apply sameRelease pointer busy
      rw [isOwn]
      rfl
  · intro pointer busy isOwn
    simp only [System.withOutcome, Phase.map_job?, Option.map_eq_some_iff] at busy
    rcases busy with ⟨old, before, rfl⟩
    rw [release_id] at isOwn
    exact sameRelease old before isOwn
  · intro notEnqueued
    have unseen := follows.unseen notEnqueued
    refine ⟨unseen.notQueued, unseen.notProduced, ?_, ?_⟩
    · intro handler isSending
      cases phase : s.system.worker with
      | sending id before =>
          simp only [System.withOutcome, phase, Phase.map, Phase.sending.injEq] at isSending
          exact unseen.notSending before (by rw [phase, isSending.1])
      | idle | found | handling | retrying =>
          simp [System.withOutcome, phase, Phase.map] at isSending
    · intro pointer busy
      simp only [System.withOutcome, Phase.map_job?, Option.map_eq_some_iff] at busy
      rcases busy with ⟨old, before, rfl⟩
      rw [release_id]
      exact unseen.notBusy old before
  · intro isRetrying
    cases phase : s.system.worker with
    | retrying pointer =>
        simp only [System.withOutcome, phase, Phase.map, Phase.retrying.injEq] at isRetrying
        have isOwn : pointer.id = job.id := by
          rw [← release_id (gone store) pointer, isRetrying]
          rfl
        rw [follows.own pointer (by rw [phase]; rfl) isOwn]
    | idle | found | handling | sending =>
        simp [System.withOutcome, phase, Phase.map] at isRetrying

/-- A map that is replaced as a whole leaves the worker where it is. -/
theorem withOutcome_keep (system : System) (store : Store) :
    system.withOutcome (fun _ _ => false) (.ok store) = system.withStore store := by
  have sameJob : system.release (fun _ => false) = id := by
    funext pointer
    cases pointer <;> rfl
  have samePhase : system.worker.map (system.release fun _ => false) = system.worker := by
    rw [sameJob]
    cases system.worker with
    | sending id handler => cases handler <;> rfl
    | idle | found | handling | retrying => rfl
  simp only [System.withOutcome, samePhase]
  rfl

theorem Follows.createJob (follows : Follows job outcomes s) (pending : job.status = .pending)
    (unretried : job.retries = 0) {new : Job} (own : new.id = job.id → new = job) :
    Follows job outcomes
      { s with
        system := s.system.withOutcome (fun _ _ => false) (s.system.store.createJob new) } := by
  cases created : s.system.store.createJob new with
  | error error => exact follows
  | ok store =>
      rcases Store.find?_createJob created job.id with ⟨absent, lookup⟩
      by_cases isOwn : job.id = new.id
      · have same := own isOwn.symm
        subst same
        rw [if_pos rfl] at lookup
        rcases follows.absent absent with ⟨notEnqueued, notStarted, notFinished⟩
        have notRunning : s.system.worker.runs new.id = false := by
          rw [Bool.eq_false_iff, Ne, follows.running, System.status?, absent]
          simp
        rw [withOutcome_keep]
        have unseen := follows.unseen notEnqueued
        refine ⟨follows.own, fun _ => ⟨unseen.notQueued, unseen.notProduced, unseen.notSending,
          unseen.notBusy⟩, ?_, ?_, ?_, follows.counts, ?_, follows.handlers⟩
        · intro missing
          rw [System.store, System.withStore, lookup] at missing
          contradiction
        · intro entry found
          rw [System.store, System.withStore, lookup, Option.some.injEq] at found
          subst found
          refine ⟨rfl, rfl, ?_, fun _ => ⟨pending, notStarted⟩⟩
          rw [pending, unretried, notStarted, notFinished]
          exact .initial
        · rw [System.status?, System.store, System.withStore, lookup]
          simp [notRunning, pending]
        · intro _
          rw [System.status?, System.store, System.withStore, lookup]
          simp [pending]
      · rw [if_neg isOwn] at lookup
        exact follows.withOutcome lookup fun _ => rfl

/-- The one `Enqueue` of the job finds it absent or still pending. -/
theorem Follows.enqueue (follows : Follows job outcomes s) (unretried : job.retries = 0)
    (notEnqueued : s.enqueued = false) {system : System}
    (marked : system.store = s.system.store.mark job)
    (sameHandlers : system.handlers = s.system.handlers)
    (own : ∀ pointer, system.worker.job? = some pointer → s.system.worker.job? = some pointer)
    (runs : system.worker.runs job.id = s.system.worker.runs job.id) :
    Follows job outcomes { s with system, enqueued := true } := by
  have notBusy := (follows.unseen notEnqueued).notBusy
  have lookup : ∃ entry, system.store.find? job.id = some entry ∧ entry.status = .pending ∧
      entry.type = job.type ∧ entry.maxRetries = job.maxRetries ∧
      RetryLaw outcomes job.maxRetries s.started s.finished .pending entry.retries := by
    rw [marked, Store.find?_mark, if_pos rfl]
    cases found : s.system.store.find? job.id with
    | none =>
        rcases follows.absent found with ⟨_, notStarted, notFinished⟩
        refine ⟨_, rfl, rfl, rfl, rfl, ?_⟩
        rw [notStarted, notFinished, Option.getD_none, unretried]
        exact .initial
    | some entry =>
        rcases follows.present entry found with ⟨type, maxRetries, law, waiting⟩
        rw [(waiting notEnqueued).1] at law
        exact ⟨_, rfl, rfl, type, maxRetries, law⟩
  rcases lookup with ⟨entry, found, isPending, type, maxRetries, law⟩
  have notRunning : s.system.worker.runs job.id = false := by
    rw [Bool.eq_false_iff]
    exact fun isRunning => notBusy _ (Phase.job?_of_runs isRunning) rfl
  refine ⟨fun pointer busy isOwn => absurd isOwn (notBusy pointer (own pointer busy)), nofun,
    ?_, ?_, ?_, ?_, fun _ => ?_, ?_⟩
  · intro missing
    rw [found] at missing
    contradiction
  · intro other isFound
    rw [found, Option.some.injEq] at isFound
    subst isFound
    exact ⟨type, maxRetries, isPending ▸ law, nofun⟩
  · rw [runs, notRunning, System.status?, found]
    simp [isPending]
  · rw [runs]
    exact follows.counts
  · rw [System.status?, found, Option.map_some, isPending]
  · rw [sameHandlers]
    exact follows.handlers

/-! ## Steps of the worker -/

theorem deref_id {system : System} {pointer : Pointer} {found : Job}
    (lookup : system.deref pointer = some found) : found.id = pointer.id := by
  cases pointer with
  | entry id => exact Store.find?_id lookup
  | detached job =>
      cases lookup
      rfl

/-- An assignment to a job other than the one that is followed. -/
theorem assign_ne {system : System} {set : Job → Job} {pointer : Pointer} {id : String}
    (other : pointer.id ≠ id) :
    (system.assign set pointer).1.store.find? id = system.store.find? id ∧
      (system.assign set pointer).1.handlers = system.handlers ∧
      ((∀ job, (set job).id = job.id) → (system.assign set pointer).2.id = pointer.id) := by
  cases pointer with
  | entry target => exact ⟨Store.find?_modify_ne _ _ (Ne.symm other), rfl, fun _ => rfl⟩
  | detached job => exact ⟨rfl, rfl, fun keeps => keeps job⟩

/-- The worker went on with another job. -/
structure Elsewhere (s s' : System) (id : String) : Prop where
  same : s'.store.find? id = s.store.find? id
  handlers : s'.handlers = s.handlers
  queueChan : s'.driver.queueChan = s.driver.queueChan
  producers : s'.producers = s.producers
  notSending : s'.worker.isSending = false
  notBusy : ∀ pointer, s'.worker.job? = some pointer → pointer.id ≠ id

theorem Follows.elsewhere (follows : Follows job outcomes s) {system : System}
    (elsewhere : Elsewhere s.system system job.id)
    (before : s.system.worker.runs job.id = false) : Follows job outcomes { s with system } := by
  have notRunning : system.worker.runs job.id = false := by
    rw [Bool.eq_false_iff]
    exact fun isRunning => elsewhere.notBusy _ (Phase.job?_of_runs isRunning) rfl
  apply follows.move elsewhere.same elsewhere.handlers (by rw [notRunning, before])
  · exact fun pointer busy isOwn => absurd isOwn (elsewhere.notBusy pointer busy)
  · intro notEnqueued
    have unseen := follows.unseen notEnqueued
    refine ⟨elsewhere.queueChan ▸ unseen.notQueued, elsewhere.producers ▸ unseen.notProduced,
      ?_, elsewhere.notBusy⟩
    intro handler isSending
    have notSending := elsewhere.notSending
    rw [isSending] at notSending
    contradiction
  · intro isRetrying
    exact absurd rfl (elsewhere.notBusy (.entry job.id) (by rw [isRetrying]; rfl))

theorem assign_elsewhere {system : System} {set : Job → Job} {pointer : Pointer} {id : String}
    (other : pointer.id ≠ id) (keeps : ∀ job, (set job).id = job.id) (worker : Phase)
    (notSending : worker.isSending = false)
    (busy : ∀ next, worker.job? = some next → next = (system.assign set pointer).2) :
    Elsewhere system { (system.assign set pointer).1 with worker } id := by
  rcases @assign_ne system set pointer id other with ⟨same, handlers, sameId⟩
  refine ⟨same, handlers, ?_, ?_, notSending, ?_⟩
  · cases pointer <;> rfl
  · cases pointer <;> rfl
  · intro next isNext
    rw [busy next isNext, sameId keeps]
    exact other

theorem idle_elsewhere {system : System} {id : String} :
    Elsewhere system { system with worker := .idle } id :=
  ⟨rfl, rfl, rfl, rfl, rfl, fun _ busy => by cases busy⟩

theorem claim_elsewhere {system : System} (now : Time) {pointer : Pointer} (claimed : Job)
    {id : String} (other : pointer.id ≠ id) :
    Elsewhere system (system.claim now pointer claimed) id := by
  unfold System.claim
  split
  · split
    · refine assign_elsewhere other ?_ (.handling _) rfl fun _ busy => (Option.some.inj busy).symm
      exact fun _ => rfl
    · exact idle_elsewhere
  · split
    · refine assign_elsewhere other ?_ .idle rfl fun _ busy => by cases busy
      exact fun _ => rfl
    · exact idle_elsewhere

theorem conclude_elsewhere {system : System} (handleErr : Option HandlerError) (now : Time)
    {pointer : Pointer} (handled : Job) {id : String} (other : pointer.id ≠ id) :
    Elsewhere system (system.conclude handleErr now pointer handled) id := by
  unfold System.conclude
  split
  · split
    · split
      · refine assign_elsewhere other ?_ .idle rfl fun _ busy => by cases busy
        exact fun _ => rfl
      · refine assign_elsewhere other ?_ (.retrying _) rfl fun _ busy =>
          (Option.some.inj busy).symm
        exact fun _ => rfl
    · refine assign_elsewhere other ?_ .idle rfl fun _ busy => by cases busy
      exact fun _ => rfl
  · exact idle_elsewhere

/-- The entry of the job after an assignment through the pointer to it. -/
theorem find?_assign {system : System} {set : Job → Job} {id : String} {entry : Job}
    (found : system.store.find? id = some entry) (worker : Phase) :
    ({ (system.assign set (.entry id)).1 with worker } : System).store.find? id =
      some { set entry with id := entry.id } := by
  have lookup : (system.store.modify (fun job => job.id == id) set).find? id =
      some { set entry with id := entry.id } := by
    rw [Store.find?_modify, found, Option.map_some, if_pos (by simp [Store.find?_id found])]
  exact lookup

/-- The job's own entry is written, and the worker is in a run of it or not as its status
says. -/
theorem Follows.write (follows : Follows job outcomes s) {entry : Job}
    (found : s.system.store.find? job.id = some entry)
    (busy : s.system.worker.job? = some (.entry job.id)) (set : Job → Job) (worker : Phase)
    {started finished : Nat} (type : (set entry).type = entry.type)
    (maxRetries : (set entry).maxRetries = entry.maxRetries)
    (law : RetryLaw outcomes job.maxRetries started finished (set entry).status (set entry).retries)
    (own : ∀ pointer, worker.job? = some pointer → pointer = .entry job.id)
    (running : worker.runs job.id = true ↔ (set entry).status = .running)
    (counts : started = finished + if worker.runs job.id then 1 else 0)
    (retrying : worker = .retrying (.entry job.id) → (set entry).status = .pending) :
    Follows job outcomes
      { s with
        system := { (s.system.assign set (.entry job.id)).1 with worker }, started, finished } := by
  have lookup := @find?_assign s.system set job.id entry found worker
  rcases follows.present entry found with ⟨sameType, sameMaxRetries, _, _⟩
  have enqueued : s.enqueued = true := by
    by_contra notEnqueued
    exact (follows.unseen (by simpa using notEnqueued)).notBusy _ busy rfl
  refine ⟨fun pointer isBusy _ => own pointer isBusy, ?_, ?_, ?_, ?_, counts, ?_,
    follows.handlers⟩
  · intro notEnqueued
    rw [enqueued] at notEnqueued
    contradiction
  · intro missing
    rw [lookup] at missing
    contradiction
  · intro other isFound
    rw [lookup, Option.some.injEq] at isFound
    subst isFound
    refine ⟨type.trans sameType, maxRetries.trans sameMaxRetries, law, fun notEnqueued => ?_⟩
    rw [enqueued] at notEnqueued
    contradiction
  · rw [running, System.status?, lookup]
    simp
  · intro isRetrying
    rw [System.status?, lookup]
    simp [retrying isRetrying]

theorem Follows.claim (follows : Follows job outcomes s) (now : Time) {entry : Job}
    (found : s.system.store.find? job.id = some entry)
    (isFound : s.system.worker = .found (.entry job.id)) :
    Follows job outcomes
      { s with
        system := s.system.claim now (.entry job.id) entry
        started := s.started + if entry.status = .pending then 1 else 0 } := by
  rcases follows.present entry found with ⟨type, _, law, _⟩
  have notRunning : s.system.worker.runs job.id = false := by rw [isFound]; rfl
  have counts : s.started = s.finished := by simpa [notRunning] using follows.counts
  unfold System.claim
  rw [type, follows.handlers, if_pos rfl]
  by_cases pending : entry.status = .pending
  · rw [if_pos pending, if_pos pending]
    rw [pending, counts] at law
    rw [counts]
    exact follows.write found (by rw [isFound]; rfl) _ (.handling (.entry job.id)) rfl rfl
      law.start (fun _ busy => (Option.some.inj busy).symm) (by simp [Phase.runs])
      (by simp [Phase.runs]) fun isRetrying => by cases isRetrying
  · rw [if_neg pending, if_neg pending]
    exact follows.elsewhere idle_elsewhere notRunning

theorem Follows.conclude (follows : Follows job outcomes s) (now : Time) {entry : Job}
    (found : s.system.store.find? job.id = some entry)
    (isHandling : s.system.worker = .handling (.entry job.id)) :
    Follows job outcomes
      { s with
        system := s.system.conclude (outcomes s.finished) now (.entry job.id) entry
        finished := s.finished + 1 } := by
  rcases follows.present entry found with ⟨_, maxRetries, law, _⟩
  have isRunning : s.system.worker.runs job.id = true := by
    rw [isHandling]
    exact beq_self_eq_true _
  have counts : s.started = s.finished + 1 := by simpa [isRunning] using follows.counts
  have running : entry.status = .running := by
    simpa [System.status?, found] using follows.running.mp isRunning
  have busy : s.system.worker.job? = some (.entry job.id) := by rw [isHandling]; rfl
  rw [running, counts] at law
  have finished := law.finish
  unfold System.conclude
  rw [if_pos running, counts]
  cases outcome : outcomes s.finished with
  | none =>
      simp only [outcome, RetryLaw.recorded, Option.isSome_none, Bool.false_eq_true, if_false,
        add_zero] at finished
      refine follows.write found busy _ .idle rfl rfl finished (fun _ busy => by cases busy) ?_ rfl
        fun isRetrying => by cases isRetrying
      exact iff_of_false (Bool.eq_false_iff.mp rfl) (by simp)
  | some error =>
      rw [outcome] at finished
      simp only [RetryLaw.recorded, Option.isSome_some, if_true] at finished
      simp only [maxRetries]
      split
      · rename_i ends
        simp only [ends, if_true] at finished
        refine follows.write found busy _ .idle rfl rfl finished (fun _ busy => by cases busy) ?_
          rfl fun isRetrying => by cases isRetrying
        exact iff_of_false (Bool.eq_false_iff.mp rfl) (by simp)
      · rename_i continues
        simp only [continues] at finished
        refine follows.write found busy _ (.retrying (.entry job.id)) rfl rfl finished
          (fun _ busy => (Option.some.inj busy).symm) ?_ rfl fun _ => rfl
        exact iff_of_false (Bool.eq_false_iff.mp rfl) (by simp)

/-- The `Enqueue` of a retry finds its job pending already. -/
theorem Follows.reenqueue (follows : Follows job outcomes s) {enqueued : Job} {pointer : Pointer}
    (isRetrying : s.system.worker = .retrying pointer)
    (lookup : s.system.deref pointer = some enqueued) :
    Follows job outcomes
      { s with
        system :=
          { s.system.withStore (s.system.store.mark enqueued) with
            worker := .sending enqueued.id none } } := by
  have notRunning : s.system.worker.runs job.id = false := by rw [isRetrying]; rfl
  have busy : s.system.worker.job? = some pointer := by rw [isRetrying]; rfl
  have same : (s.system.store.mark enqueued).find? job.id = s.system.store.find? job.id := by
    rw [Store.find?_mark]
    by_cases isOwn : job.id = enqueued.id
    · have isEntry := follows.own pointer busy (by rw [← deref_id lookup, isOwn])
      subst isEntry
      have pending := follows.retrying isRetrying
      rcases System.status?_eq_some.mp pending with ⟨entry, found, isPending⟩
      rw [if_pos isOwn, found, ← isPending]
      rfl
    · rw [if_neg isOwn]
  refine @Follows.move job outcomes s follows
    { s.system.withStore (s.system.store.mark enqueued) with worker := .sending enqueued.id none }
    same rfl ?_ (fun _ busy => by cases busy) ?_ (fun isRetrying => by cases isRetrying)
  · rw [notRunning]
    rfl
  · intro notEnqueued
    have unseen := follows.unseen notEnqueued
    refine ⟨unseen.notQueued, unseen.notProduced, ?_, fun _ busy => by cases busy⟩
    intro handler isSending
    have isOwn : enqueued.id = job.id := (Phase.sending.inj isSending).1
    exact unseen.notBusy pointer busy (by rw [← deref_id lookup, isOwn])

/-- A caller's `Enqueue`, of the job or of another. -/
theorem Follows.enqueueStep (follows : Follows job outcomes s) (unretried : job.retries = 0)
    {new : Job} (leftAlone : new.id = job.id → new = job ∧ s.enqueued = false) {system : System}
    (marked : system.store = s.system.store.mark new)
    (sameHandlers : system.handlers = s.system.handlers)
    (sameJob : system.worker.job? = s.system.worker.job?)
    (runs : system.worker.runs job.id = s.system.worker.runs job.id)
    (unseen : new.id ≠ job.id → Unseen s.system job.id → Unseen system job.id)
    (retrying : ∀ pointer, system.worker = .retrying pointer →
      s.system.worker = .retrying pointer) :
    Follows job outcomes
      { s with system, enqueued := new.id == job.id || s.enqueued } := by
  by_cases isOwn : new.id = job.id
  · rcases leftAlone isOwn with ⟨same, notEnqueued⟩
    subst same
    rw [beq_self_eq_true, Bool.true_or]
    exact follows.enqueue unretried notEnqueued marked sameHandlers
      (fun pointer busy => sameJob ▸ busy) runs
  · rw [beq_eq_false_iff_ne.mpr isOwn, Bool.false_or]
    have same : system.store.find? job.id = s.system.store.find? job.id := by
      rw [marked, Store.find?_mark, if_neg (Ne.symm isOwn)]
    exact follows.move same sameHandlers runs (fun pointer busy => follows.own pointer (sameJob ▸ busy))
      (fun notEnqueued => unseen isOwn (follows.unseen notEnqueued)) (retrying _)

/-- The id behind the worker's pointer decides whose run a step starts. -/
theorem starts_claim {system : System} {pointer : Pointer} {claimed : Job} (now : Time)
    (isFound : system.worker = .found pointer) (lookup : system.deref pointer = some claimed) :
    system.starts (.claim now) =
      if system.handlers.contains claimed.type && claimed.status == .pending then
        some claimed.id
      else none := by
  simp only [System.starts, isFound, lookup, Option.filter_some]
  split <;> rfl

theorem Follows.step (follows : Follows job outcomes s) (pending : job.status = .pending)
    (unretried : job.retries = 0) {action : Action} {next : Tracked}
    (leftAlone : LeftAlone job outcomes s action) (taken : s.step job.id action = some next) :
    Follows job outcomes next := by
  rcases Option.map_eq_some_iff.mp taken with ⟨system, moved, rfl⟩
  cases action with
  | createJob new =>
      cases moved
      exact follows.createJob pending unretried leftAlone
  | updateJob new =>
      cases moved
      cases updated : s.system.store.updateJob new with
      | error error => exact follows
      | ok store =>
          exact follows.withOutcome (Store.find?_updateJob updated (Ne.symm leftAlone)) fun _ =>
            beq_eq_false_iff_ne.mpr (Ne.symm leftAlone)
  | deleteJob root =>
      rcases Option.map_eq_some_iff.mp moved with ⟨outcome, deleted, rfl⟩
      cases outcome with
      | error error => exact follows
      | ok store =>
          have same := Store.find?_deleteJob deleted leftAlone
          apply follows.withOutcome same
          intro present
          rcases present with ⟨entry, found⟩
          rw [← same] at found
          have contained : store.contains job.id = true := by
            rw [Store.contains_iff]
            exact List.mem_map.mpr ⟨entry, Store.find?_eq_some.mp found⟩
          rw [contained]
          rfl
  | cancelJob root now =>
      rcases Option.map_eq_some_iff.mp moved with ⟨outcome, cancelled, rfl⟩
      cases outcome with
      | error error => exact follows
      | ok store =>
          apply follows.withOutcome _ fun _ => rfl
          cases found : s.system.store.find? job.id with
          | none =>
              rcases Store.cancelJob_present now (Store.find?_cancelJob cancelled).1 with
                ⟨visited, outcome, _⟩
              rw [cancelled, Option.some.injEq, Except.ok.injEq] at outcome
              rw [outcome, Store.cancelling, Store.find?_modify, found]
              rfl
          | some entry =>
              rcases (Store.find?_cancelJob cancelled).2 job.id entry found with
                ⟨below, _⟩ | ⟨_, same⟩
              · exact absurd below leftAlone
              · exact same
  | enqueue new =>
      cases moved
      apply follows.enqueueStep unretried leftAlone
      · rfl
      · rfl
      · rfl
      · rfl
      · intro other unseen
        refine ⟨unseen.notQueued, ?_, unseen.notSending, unseen.notBusy⟩
        intro member
        rcases List.mem_append.mp member with old | isNew
        · exact unseen.notProduced old
        · exact other (List.mem_singleton.mp isNew).symm
      · exact fun _ isRetrying => isRetrying
  | send position =>
      simp only [System.step] at moved
      split at moved
      · contradiction
      · rename_i before id after focused
        rcases Option.map_eq_some_iff.mp moved with ⟨driver, sent, rfl⟩
        rcases Driver.send_eq_some.mp sent with ⟨_, rfl⟩
        have producers := focus_eq focused
        apply follows.move
        · rfl
        · rfl
        · rfl
        · exact follows.own
        · intro notEnqueued
          have unseen := follows.unseen notEnqueued
          have notProduced := unseen.notProduced
          simp only [producers, List.mem_append, List.mem_cons, not_or] at notProduced
          refine ⟨?_, ?_, unseen.notSending, unseen.notBusy⟩
          · simp [unseen.notQueued, notProduced.2.1]
          · simp [notProduced.1, notProduced.2.2]
        · exact fun isRetrying => isRetrying
  | giveUp position =>
      simp only [System.step] at moved
      split at moved
      · contradiction
      · rename_i before id after focused
        cases moved
        have producers := focus_eq focused
        apply follows.move
        · rfl
        · rfl
        · rfl
        · exact follows.own
        · intro notEnqueued
          have unseen := follows.unseen notEnqueued
          have notProduced := unseen.notProduced
          simp only [producers, List.mem_append, List.mem_cons, not_or] at notProduced
          refine ⟨unseen.notQueued, ?_, unseen.notSending, unseen.notBusy⟩
          simp [notProduced.1, notProduced.2.2]
        · exact fun isRetrying => isRetrying
  | receive =>
      simp only [System.step] at moved
      split at moved
      · rename_i jobID queueChan isIdle queued
        cases moved
        have notSending := s.system.lookUp_isSending jobID
        have lookedUp : s.system.lookUp jobID = .idle ∨
            s.system.lookUp jobID = .found (.entry jobID) := by
          unfold System.lookUp
          split
          · exact .inl rfl
          · split
            · exact .inr rfl
            · exact .inl rfl
        have busyWith : ∀ pointer, (s.system.lookUp jobID).job? = some pointer →
            pointer = .entry jobID := by
          intro pointer busy
          rcases lookedUp with idle | found
          · rw [idle] at busy
            contradiction
          · rw [found] at busy
            exact (Option.some.inj busy).symm
        apply follows.move
        · rfl
        · rfl
        · rw [isIdle]
          rcases lookedUp with idle | found
          · simp only [idle]
          · simp only [found]
            rfl
        · intro pointer busy isOwn
          rw [busyWith pointer busy] at isOwn ⊢
          rw [← isOwn]
          rfl
        · intro notEnqueued
          have unseen := follows.unseen notEnqueued
          have notQueued := unseen.notQueued
          rw [queued, List.mem_cons, not_or] at notQueued
          refine ⟨notQueued.2, unseen.notProduced, ?_, ?_⟩
          · intro handler isSending
            have isLookUp : s.system.lookUp jobID = .sending job.id handler := isSending
            rw [isLookUp] at notSending
            contradiction
          · intro pointer busy isOwn
            rw [busyWith pointer busy] at isOwn
            exact notQueued.1 isOwn.symm
        · intro isRetrying
          rcases lookedUp with idle | found
          · rw [idle] at isRetrying
            contradiction
          · rw [found] at isRetrying
            contradiction
      · contradiction
  | claim now =>
      simp only [System.step] at moved
      split at moved
      · rename_i pointer isFound
        rcases Option.map_eq_some_iff.mp moved with ⟨claimed, lookup, rfl⟩
        have busy : s.system.worker.job? = some pointer := by rw [isFound]; rfl
        rw [starts_claim now isFound lookup]
        by_cases isOwn : pointer.id = job.id
        · have isEntry := follows.own pointer busy isOwn
          subst isEntry
          have found : s.system.store.find? job.id = some claimed := lookup
          have type := (follows.present claimed found).1
          have isId := Store.find?_id found
          have stepped := follows.claim now found isFound
          rw [type, follows.handlers, Bool.true_and]
          have startsOwn : (if claimed.status == .pending then some claimed.id else none) =
              some job.id ↔ claimed.status = .pending := by
            simp [isId]
          rw [if_congr startsOwn rfl rfl]
          exact stepped
        · have notOwn : ¬ (if s.system.handlers.contains claimed.type &&
              claimed.status == .pending then some claimed.id else none) = some job.id := by
            split
            · rw [deref_id lookup, Option.some.injEq]
              exact isOwn
            · simp
          rw [if_neg notOwn]
          have notRunning : s.system.worker.runs job.id = false := by rw [isFound]; rfl
          exact follows.elsewhere (claim_elsewhere now claimed isOwn) notRunning
      · contradiction
  | enqueueChild new =>
      simp only [System.step] at moved
      split at moved
      · rename_i pointer isHandling
        cases moved
        apply follows.enqueueStep unretried leftAlone
        · rfl
        · rfl
        · rw [isHandling]
          rfl
        · rw [isHandling]
          rfl
        · intro other unseen
          refine ⟨unseen.notQueued, unseen.notProduced, ?_, ?_⟩
          · intro handler isSending
            exact other (Phase.sending.inj isSending).1
          · intro next busy
            exact unseen.notBusy next (by rw [isHandling]; exact busy)
        · intro _ isRetrying
          contradiction
      · contradiction
  | workerSend =>
      simp only [System.step] at moved
      split at moved
      · rename_i id handler isSending
        rcases Option.map_eq_some_iff.mp moved with ⟨driver, sent, rfl⟩
        rcases Driver.send_eq_some.mp sent with ⟨_, rfl⟩
        have sameJob : (Phase.afterSend handler).job? = s.system.worker.job? := by
          rw [isSending, Phase.afterSend_job?]
          rfl
        apply follows.move
        · rfl
        · rfl
        · rw [isSending]
          cases handler <;> rfl
        · intro pointer busy
          exact follows.own pointer (sameJob ▸ busy)
        · intro notEnqueued
          have unseen := follows.unseen notEnqueued
          have otherId : job.id ≠ id := by
            rintro rfl
            exact unseen.notSending handler isSending
          refine ⟨?_, unseen.notProduced, ?_, ?_⟩
          · simp [unseen.notQueued, otherId]
          · intro next isNext
            cases handler <;> cases isNext
          · intro pointer busy
            exact unseen.notBusy pointer (sameJob ▸ busy)
        · intro isRetrying
          cases handler <;> cases isRetrying
      · contradiction
  | workerGivesUp =>
      simp only [System.step] at moved
      split at moved
      · rename_i id pointer isSending
        cases moved
        have sameJob : (Phase.handling pointer).job? = s.system.worker.job? := by
          rw [isSending]
          rfl
        apply follows.move
        · rfl
        · rfl
        · rw [isSending]
          rfl
        · intro next busy
          exact follows.own next (sameJob ▸ busy)
        · intro notEnqueued
          have unseen := follows.unseen notEnqueued
          refine ⟨unseen.notQueued, unseen.notProduced, ?_, ?_⟩
          · intro handler isNext
            cases isNext
          · intro next busy
            exact unseen.notBusy next (sameJob ▸ busy)
        · intro isRetrying
          cases isRetrying
      · contradiction
  | returnHandler handleErr now =>
      simp only [System.step] at moved
      split at moved
      · rename_i pointer isHandling
        rcases Option.map_eq_some_iff.mp moved with ⟨handled, lookup, rfl⟩
        have busy : s.system.worker.job? = some pointer := by rw [isHandling]; rfl
        have finishes : s.system.finishes (.returnHandler handleErr now) = some handled.id := by
          simp only [System.finishes, isHandling, lookup, Option.map_some]
        have isId := deref_id lookup
        simp only [LeftAlone, finishes, isId, Option.some.injEq] at leftAlone
        rw [finishes, isId]
        by_cases isOwn : pointer.id = job.id
        · have isEntry := follows.own pointer busy isOwn
          subst isEntry
          rw [leftAlone isOwn, isOwn, if_pos rfl]
          exact follows.conclude now lookup isHandling
        · have notOwn : ¬ some pointer.id = some job.id := fun same => isOwn (Option.some.inj same)
          have notRunning : s.system.worker.runs job.id = false := by
            rw [Bool.eq_false_iff]
            intro isRunning
            have isEntry := Phase.job?_of_runs isRunning
            rw [busy, Option.some.injEq] at isEntry
            exact isOwn (by rw [isEntry]; rfl)
          rw [if_neg notOwn]
          exact follows.elsewhere (conclude_elsewhere handleErr now handled isOwn) notRunning
      · contradiction
  | reenqueue =>
      simp only [System.step] at moved
      split at moved
      · rename_i pointer isRetrying
        rcases Option.map_eq_some_iff.mp moved with ⟨enqueued, lookup, rfl⟩
        exact follows.reenqueue isRetrying lookup
      · contradiction

theorem Follows.boot (bufferSize : ℕ+) {handlers : List String}
    (registered : handlers.contains job.type = true) :
    Follows job outcomes (boot bufferSize handlers) where
  own _ busy := by cases busy
  unseen _ :=
    { notQueued := List.not_mem_nil
      notProduced := List.not_mem_nil
      notSending := fun _ isSending => by cases isSending
      notBusy := fun _ busy => by cases busy }
  absent _ := ⟨rfl, rfl, rfl⟩
  present _ found := by cases found
  running := by
    constructor
    · intro isRunning
      cases isRunning
    · intro isRunning
      cases isRunning
  counts := rfl
  retrying isRetrying := by cases isRetrying
  handlers := registered

/-- From a started driver, over every interleaving that leaves the job alone, its runs obey
the law in every state. -/
theorem lawful_of_leftAlone (bufferSize : ℕ+) {handlers : List String}
    (registered : handlers.contains job.type = true) (pending : job.status = .pending)
    (unretried : job.retries = 0) {actions : List Action} {last : Tracked}
    (run : Run (step job.id) (LeftAlone job outcomes) (Tracked.boot bufferSize handlers) actions
      last) : last.Lawful job outcomes := by
  apply Follows.lawful
  apply run.invariant (Follows job outcomes)
  · intro state action next leftAlone follows taken
    exact follows.step pending unretried leftAlone taken
  · exact .boot bufferSize registered

end Tracked

end Kiyomi.Queue.InMemory
