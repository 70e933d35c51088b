import Kiyomi.Queue.InMemory.Store

namespace Kiyomi.Queue.InMemory

open Go ParentTable

/-! # The in-memory driver as job store and enqueuer

Each operation on the map is one section under the mutex. The channel of `Enqueue`
is a queue of ids with a fixed number of slots. -/

namespace Store

def empty : Store := ⟨[], by simp⟩

def find? (d : Store) (id : String) : Option Job :=
  d.jobs.find? fun job => job.id == id

/-- Assignment to the fields of some jobs; none of these is the id. -/
def modify (d : Store) (condition : Job → Bool) (set : Job → Job) : Store where
  jobs := d.jobs.map fun job => if condition job then { set job with id := job.id } else job
  keys := by
    rw [List.map_map]
    have sameIds : (Job.id ∘ fun job : Job =>
        if condition job then { set job with id := job.id } else job) = Job.id := by
      funext job
      simp only [Function.comp_apply]
      split <;> rfl
    rw [sameIds]
    exact d.keys

/-- A new entry of the map. -/
def insert (d : Store) (job : Job) : Option Store :=
  if fresh : job.id ∈ d.jobs.map Job.id then none
  else some
    { jobs := d.jobs ++ [job]
      keys := by
        rw [List.map_append, List.map_singleton]
        exact List.nodup_append.mpr ⟨d.keys, by simp, by
          intro left leftMember right rightMember equal
          rw [List.mem_singleton.mp rightMember] at equal
          exact fresh (equal ▸ leftMember)⟩ }

/-- `Driver.CreateJob`. -/
def createJob (d : Store) (job : Job) : Except DriverError Store :=
  match d.insert job with
  | none => .error .alreadyExists
  | some d => .ok d

/-- `Driver.GetJob`; no job stands for `ErrJobNotFound`. -/
def getJob (d : Store) (id : String) : Option Job :=
  (d.find? id).map fun job => { job with childCount := d.childCount id }

/-- `Driver.UpdateJob`. -/
def updateJob (d : Store) (job : Job) : Except DriverError Store :=
  if d.contains job.id then .ok (d.modify (fun other => other.id == job.id) fun _ => job)
  else .error .jobNotFound

/-- What `CancelJob` writes to a live job. -/
def cancelled (now : Time) (job : Job) : Job :=
  { job with
    status := .failed
    error := "job cancelled by user"
    updatedAt := now
    completedAt := some now }

/-- The loop of `CancelJob` over `toCancel`; `none` when the fuel, which bounds its
iterations, runs out. The clock is read once for each job that is cancelled. -/
def cancelLoop (now : String → Time) : Nat → Store → List String → List String → Option Store
  | _, d, _, [] => some d
  | 0, _, _, _ :: _ => none
  | fuel + 1, d, visited, currID :: toCancel =>
      if visited.contains currID then cancelLoop now fuel d visited toCancel
      else
        let d := d.modify (fun job => job.id == currID && job.status.isLive)
          (cancelled (now currID))
        cancelLoop now fuel d (currID :: visited) (toCancel ++ d.childIDs currID)

/-- `Driver.CancelJob`. Every job enters the list at most once as a child, and the
root once more. -/
def cancelJob (d : Store) (id : String) (now : String → Time) :
    Option (Except DriverError Store) :=
  if d.contains id then
    (cancelLoop now (d.jobs.length + 1) d [] [id]).map .ok
  else some (.error .jobNotFound)

/-- The section of `Enqueue` under the mutex. -/
def mark (d : Store) (job : Job) : Store :=
  match d.insert { job with status := .pending } with
  | some d => d
  | none => d.modify (fun other => other.id == job.id) fun other => { other with status := .pending }

end Store

structure Driver where
  store : Store
  queueChan : List String
  bufferSize : Nat

namespace Driver

/-- `NewDriver`. -/
def new (bufferSize : Nat) : Driver := ⟨Store.empty, [], bufferSize⟩

/-- No slot of the channel is free. -/
def isFull (d : Driver) : Bool := d.bufferSize ≤ d.queueChan.length

/-- A send on the channel; without a free slot it has no outcome. -/
def send (d : Driver) (id : String) : Option Driver :=
  if d.isFull then none else some { d with queueChan := d.queueChan ++ [id] }

/-- `Driver.Enqueue` of a driver that is not stopped. The job is marked before the
send, so a caller that waits in the send has changed the map already. -/
def enqueue (d : Driver) (job : Job) : Option Driver :=
  { d with store := d.store.mark job }.send job.id

theorem send_eq_some {d d' : Driver} {id : String} :
    d.send id = some d' ↔ d.isFull = false ∧ { d with queueChan := d.queueChan ++ [id] } = d' := by
  unfold send
  split <;> simp_all

theorem enqueue_of_room {d : Driver} (room : d.isFull = false) (job : Job) :
    d.enqueue job =
      some { d with store := d.store.mark job, queueChan := d.queueChan ++ [job.id] } :=
  send_eq_some.mpr ⟨room, rfl⟩

end Driver

namespace Store

variable {d : Store}

theorem eq_of_id {left right : Job} (leftMember : left ∈ d.jobs) (rightMember : right ∈ d.jobs)
    (equal : left.id = right.id) : left = right :=
  List.inj_on_of_nodup_map d.keys leftMember rightMember equal

theorem find?_eq_some {id : String} {job : Job} :
    d.find? id = some job ↔ job ∈ d.jobs ∧ job.id = id := by
  constructor
  · intro found
    exact ⟨List.mem_of_find?_eq_some found, by simpa using List.find?_some found⟩
  · intro present
    rcases present with ⟨member, rfl⟩
    cases found : d.find? job.id with
    | none => simpa using List.find?_eq_none.mp found job member
    | some other =>
        have sameId : other.id = job.id := by simpa using List.find?_some found
        rw [eq_of_id (List.mem_of_find?_eq_some found) member sameId]

theorem find?_eq_none {id : String} : d.find? id = none ↔ id ∉ d.jobs.map Job.id := by
  simp [find?]

theorem insert_of_fresh {job : Job} (fresh : job.id ∉ d.jobs.map Job.id) :
    ∃ d' : Store, d.insert job = some d' ∧ d'.jobs = d.jobs ++ [job] := by
  unfold insert
  rw [dif_neg fresh]
  exact ⟨_, rfl, rfl⟩

theorem insert_of_taken {job : Job} (taken : job.id ∈ d.jobs.map Job.id) :
    d.insert job = none := by
  unfold insert
  rw [dif_pos taken]

theorem mark_of_fresh {job : Job} (fresh : job.id ∉ d.jobs.map Job.id) :
    (d.mark job).jobs = d.jobs ++ [{ job with status := .pending }] := by
  rcases @insert_of_fresh d { job with status := .pending } fresh with ⟨d', inserted, jobs⟩
  rw [mark, inserted]
  exact jobs

theorem mark_of_taken {job : Job} (taken : job.id ∈ d.jobs.map Job.id) :
    d.mark job = d.modify (fun other => other.id == job.id)
      fun other => { other with status := .pending } := by
  rw [mark, @insert_of_taken d { job with status := .pending } taken]

/-! ## A cancellation reaches exactly one tree -/

/-- The map after the live jobs among the visited keys have been cancelled. -/
def cancelling (start : Store) (now : String → Time) (visited : List String) : Store :=
  start.modify (fun job => visited.contains job.id && job.status.isLive)
    fun job => cancelled (now job.id) job

theorem cancelling_nil (start : Store) (now : String → Time) :
    start.cancelling now [] = start := by
  simp [cancelling, modify]

theorem cancelling_cons (start : Store) (now : String → Time) (visited : List String)
    {id : String} (fresh : id ∉ visited) :
    (start.cancelling now visited).modify (fun job => job.id == id && job.status.isLive)
      (cancelled (now id)) = start.cancelling now (id :: visited) := by
  simp only [cancelling, modify, mk.injEq, List.map_map]
  congr 1
  funext job
  simp only [Function.comp_apply, List.contains_eq_mem, List.mem_cons, Bool.and_eq_true,
    decide_eq_true_eq, beq_iff_eq]
  by_cases isId : job.id = id
  · subst isId
    simp [fresh]
  · by_cases hit : job.id ∈ visited ∧ job.status.isLive
    · simp [hit, isId]
    · simp [hit, isId]

theorem cancelling_childIDs (start : Store) (now : String → Time) (visited : List String)
    (id : String) : (start.cancelling now visited).childIDs id = start.childIDs id := by
  simp only [childIDs, cancelling, modify, List.filter_map, List.map_map]
  congr 1
  · funext job
    simp only [Function.comp_apply]
    split <;> rfl
  · congr 1
    funext job
    simp only [Function.comp_apply]
    split <;> rfl

/-- The jobs that may still enter the list as children. -/
def unexpanded (start : Store) (visited : List String) : Nat :=
  start.jobs.countP fun job => job.parentID.any fun parent => !visited.contains parent

theorem unexpanded_cons (start : Store) {visited : List String} {id : String}
    (fresh : id ∉ visited) :
    start.unexpanded visited = start.unexpanded (id :: visited) + (start.childIDs id).length := by
  simp only [unexpanded, childIDs, List.length_map, ← List.countP_eq_length_filter]
  induction start.jobs with
  | nil => rfl
  | cons job jobs induction =>
      simp only [List.countP_cons, induction]
      cases parentID : job.parentID with
      | none => simp
      | some parent =>
          by_cases isId : parent = id
          · subst isId
            simp [fresh]
            omega
          · simp [isId]
            omega

theorem mem_childIDs {id child : String} : child ∈ d.childIDs id ↔ d.Edge id child := by
  simp only [childIDs, List.mem_map, List.mem_filter, beq_iff_eq, Edge, ParentTable.Edge]
  constructor
  · intro listed
    rcases listed with ⟨job, ⟨member, names⟩, isChild⟩
    exact ⟨job, member, isChild, names⟩
  · intro edge
    rcases edge with ⟨job, member, isChild, names⟩
    exact ⟨job, ⟨member, names⟩, isChild⟩

/-- Each iteration drops one entry of the list and adds the children of a key that
was not visited before, so list and unexpanded jobs together shrink. -/
theorem cancelLoop_finishes (start : Store) (now : String → Time) (fuel : Nat) :
    ∀ visited toCancel, toCancel.length + start.unexpanded visited ≤ fuel →
      ∃ after, cancelLoop now fuel (start.cancelling now visited) visited toCancel =
        some (start.cancelling now after) ∧ Visited start toCancel visited after := by
  induction fuel with
  | zero =>
      intro visited toCancel enough
      have nothing : toCancel = [] := List.length_eq_zero_iff.mp (by omega)
      subst nothing
      exact ⟨visited, rfl, List.Subset.refl _, List.nil_subset _, fun _ => .inl, fun _ => .inl⟩
  | succ fuel induction =>
      intro visited toCancel enough
      cases toCancel with
      | nil =>
          exact ⟨visited, rfl, List.Subset.refl _, List.nil_subset _, fun _ => .inl, fun _ => .inl⟩
      | cons currID toCancel =>
          rw [List.length_cons] at enough
          by_cases seen : currID ∈ visited
          · rcases induction visited toCancel (by omega) with ⟨after, looped, rest⟩
            refine ⟨after, ?_, rest.grows, List.cons_subset.mpr ⟨rest.grows seen, rest.covers⟩,
              ?_, rest.closed⟩
            · simpa [cancelLoop, seen] using looped
            · intro key member
              rcases rest.below key member with old | ⟨id, listed, reaches⟩
              · exact .inl old
              · exact .inr ⟨id, List.mem_cons_of_mem _ listed, reaches⟩
          · have shrinks := start.unexpanded_cons seen
            rcases induction (currID :: visited) (toCancel ++ start.childIDs currID)
              (by rw [List.length_append]; omega) with ⟨after, looped, rest⟩
            have selfVisited : currID ∈ after := rest.grows List.mem_cons_self
            refine ⟨after, ?_, ?_, ?_, ?_, ?_⟩
            · rw [cancelLoop]
              simp only [List.contains_eq_mem, seen, decide_false, Bool.false_eq_true, if_false]
              rw [start.cancelling_cons now visited seen, cancelling_childIDs]
              exact looped
            · exact List.Subset.trans (List.subset_cons_self currID visited) rest.grows
            · exact List.cons_subset.mpr ⟨selfVisited,
                List.Subset.trans (List.subset_append_left _ _) rest.covers⟩
            · intro key member
              rcases rest.below key member with old | ⟨id, listed, reaches⟩
              · rcases List.mem_cons.mp old with rfl | inVisited
                · exact .inr ⟨key, List.mem_cons_self, .refl⟩
                · exact .inl inVisited
              · rcases List.mem_append.mp listed with waiting | isChild
                · exact .inr ⟨id, List.mem_cons_of_mem _ waiting, reaches⟩
                · exact .inr ⟨currID, List.mem_cons_self,
                    .head (mem_childIDs.mp isChild) reaches⟩
            · intro key member
              rcases rest.closed key member with old | closed
              · rcases List.mem_cons.mp old with rfl | inVisited
                · right
                  intro child edge
                  exact rest.covers (List.mem_append_right _ (mem_childIDs.mpr edge))
                · exact .inl inVisited
              · exact .inr closed

/-- Cyclic parents included, a cancellation finishes. It fails the live jobs of the
tree and leaves every other job alone. -/
theorem cancelJob_present {id : String} (now : String → Time)
    (present : id ∈ d.jobs.map Job.id) :
    ∃ visited, d.cancelJob id now = some (.ok (d.cancelling now visited)) ∧
      ∀ key, key ∈ visited ↔ Below Job.id Job.parentID d.jobs id key := by
  have bounded : d.unexpanded [] ≤ d.jobs.length := List.countP_le_length
  rcases d.cancelLoop_finishes now (d.jobs.length + 1) [] [id]
    (by rw [List.length_singleton]; omega) with ⟨after, looped, visited⟩
  rw [cancelling_nil] at looped
  refine ⟨after, ?_, visited.mem_iff⟩
  rw [cancelJob, if_pos (contains_iff.mpr present), looped, Option.map_some]

theorem cancelJob_absent {id : String} (now : String → Time)
    (absent : id ∉ d.jobs.map Job.id) : d.cancelJob id now = some (.error .jobNotFound) := by
  have missing : ¬ d.contains id = true := fun contained => absent (contains_iff.mp contained)
  rw [cancelJob, if_neg missing]

end Store

end Kiyomi.Queue.InMemory
