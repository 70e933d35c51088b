import Kiyomi.Queue.InMemory.Worker

namespace Kiyomi.Queue.InMemory

open Go ParentTable

/-! # What the operations do to one entry of the map -/

namespace Store

variable {d d' : Store}

@[simp] theorem find?_modify (d : Store) (condition : Job → Bool) (set : Job → Job)
    (id : String) :
    (d.modify condition set).find? id = (d.find? id).map fun job =>
      if condition job then { set job with id := job.id } else job := by
  simp only [find?, modify, List.find?_map]
  congr 2
  funext job
  simp only [Function.comp_apply]
  split <;> rfl

theorem find?_id {id : String} {job : Job} (found : d.find? id = some job) : job.id = id :=
  (find?_eq_some.mp found).2

/-- An assignment to one entry leaves every other entry alone. -/
theorem find?_modify_ne (d : Store) (set : Job → Job) {target id : String}
    (other : id ≠ target) :
    (d.modify (fun job => job.id == target) set).find? id = d.find? id := by
  rw [find?_modify]
  cases found : d.find? id with
  | none => rfl
  | some job => simp [find?_id found, other]

theorem find?_insert {job : Job} (inserted : d.insert job = some d') (id : String) :
    d'.find? id = if id = job.id then some job else d.find? id := by
  unfold insert at inserted
  split at inserted
  · contradiction
  · rename_i fresh
    cases inserted
    by_cases same : id = job.id
    · rw [if_pos same, find?_eq_some]
      simp [same]
    · rw [if_neg same, find?, List.find?_append]
      simp [find?, Ne.symm same]

/-- `Enqueue` leaves its job pending, whatever it was before. -/
theorem find?_mark (d : Store) (job : Job) (id : String) :
    (d.mark job).find? id =
      if id = job.id then some { (d.find? id).getD job with status := .pending }
      else d.find? id := by
  unfold mark
  split
  · rename_i d' inserted
    rw [find?_insert inserted]
    by_cases same : id = job.id
    · have absent : d.find? job.id = none := by
        rw [find?_eq_none]
        intro taken
        rw [@insert_of_taken d { job with status := .pending } taken] at inserted
        contradiction
      simp [same, absent]
    · simp [same]
  · rename_i refused
    have present : job.id ∈ d.jobs.map Job.id := by
      by_contra fresh
      rcases @insert_of_fresh d { job with status := .pending } fresh with ⟨d', inserted, _⟩
      rw [inserted] at refused
      contradiction
    rw [find?_modify]
    cases found : d.find? id with
    | none =>
        have other : id ≠ job.id := fun same => find?_eq_none.mp found (same ▸ present)
        simp [other]
    | some old =>
        have isId := find?_id found
        by_cases same : id = job.id
        · simp [same, isId.trans same]
        · simp [isId, same]

theorem find?_createJob {job : Job} (created : d.createJob job = .ok d') (id : String) :
    d.find? job.id = none ∧
      d'.find? id = if id = job.id then some job else d.find? id := by
  unfold createJob at created
  split at created
  · contradiction
  · rename_i inserted
    cases created
    refine ⟨?_, find?_insert inserted id⟩
    rw [find?_eq_none]
    intro taken
    rw [insert_of_taken taken] at inserted
    contradiction

theorem find?_updateJob {job : Job} (updated : d.updateJob job = .ok d') {id : String}
    (other : id ≠ job.id) : d'.find? id = d.find? id := by
  unfold updateJob at updated
  split at updated
  · cases updated
    exact find?_modify_ne d _ other
  · contradiction

/-- A cancellation that returned nil: the live jobs of the subtree are failed. -/
theorem find?_cancelJob {root : String} {now : String → Time}
    (cancelled : d.cancelJob root now = some (.ok d')) :
    root ∈ d.jobs.map Job.id ∧ ∀ id job, d.find? id = some job →
      (Below Job.id Job.parentID d.jobs root id ∧ job.status.isLive = true ∧
        d'.find? id = some (Store.cancelled (now id) job)) ∨
      (¬ (Below Job.id Job.parentID d.jobs root id ∧ job.status.isLive = true) ∧
        d'.find? id = some job) := by
  by_cases present : root ∈ d.jobs.map Job.id
  · rcases cancelJob_present now present with ⟨visited, outcome, reached⟩
    rw [outcome, Option.some.injEq, Except.ok.injEq] at cancelled
    subst cancelled
    refine ⟨present, fun id job found => ?_⟩
    have sameId := find?_id found
    rw [cancelling, find?_modify, found, ← reached]
    by_cases hit : id ∈ visited ∧ job.status.isLive = true
    · left
      simp [hit, sameId, Store.cancelled]
    · right
      refine ⟨hit, ?_⟩
      have notHit : ¬ (visited.contains job.id && job.status.isLive) = true := by
        simpa [sameId] using hit
      rw [Option.map_some, if_neg notHit]
  · rw [cancelJob_absent now present] at cancelled
    cases cancelled

theorem find?_without (d : Store) (visited : List String) {id : String} (spared : id ∉ visited) :
    (d.without visited).find? id = d.find? id := by
  cases found : d.find? id with
  | none =>
      rw [find?_eq_none] at found ⊢
      intro present
      rcases List.mem_map.mp present with ⟨job, member, isId⟩
      exact found (List.mem_map.mpr ⟨job, (mem_without.mp member).1, isId⟩)
  | some job =>
      rcases find?_eq_some.mp found with ⟨member, isId⟩
      exact find?_eq_some.mpr ⟨mem_without.mpr ⟨member, isId ▸ spared⟩, isId⟩

theorem find?_deleteJob {root id : String} (deleted : d.deleteJob root = some (.ok d'))
    (spared : ¬ Below Job.id Job.parentID d.jobs root id) : d'.find? id = d.find? id := by
  by_cases present : root ∈ d.jobs.map Job.id
  · rcases deleteJob_without present with ⟨visited, outcome, reached⟩
    rw [outcome, Option.some.injEq, Except.ok.injEq] at deleted
    subst deleted
    exact d.find?_without visited fun member => spared ((reached id).mp member)
  · rw [deleteJob_absent present] at deleted
    cases deleted

end Store

end Kiyomi.Queue.InMemory
