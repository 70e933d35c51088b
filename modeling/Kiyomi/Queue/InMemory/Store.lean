import Kiyomi.Go.Strings
import Kiyomi.Queue.TreeStore
import Mathlib.Data.List.Nodup
import Mathlib.Data.List.Sort

namespace Kiyomi.Queue.InMemory

open ParentTable

/-! # The in-memory driver as job store

The map from ids to jobs is a list of jobs with distinct ids. Where the code ranges
over the map, the list is in the order of that iteration. -/

structure Store where
  jobs : List Job
  keys : (jobs.map Job.id).Nodup

namespace Store

def contains (d : Store) (id : String) : Bool :=
  d.jobs.any fun job => job.id == id

/-- The entries of the map whose key satisfies a condition. -/
def keep (d : Store) (condition : String → Bool) : Store where
  jobs := d.jobs.filter fun job => condition job.id
  keys := (List.filter_sublist.map Job.id).nodup d.keys

/-- The ids of the jobs whose parent is `id`. -/
def childIDs (d : Store) (id : String) : List String :=
  (d.jobs.filter fun job => job.parentID == some id).map Job.id

/-- `deleteRecursive` on the map and the visited set; `none` when the fuel, which
bounds the depth of the recursion, runs out. -/
def deleteRecursive : Nat → String → Store × List String → Option (Store × List String)
  | 0, _, _ => none
  | fuel + 1, id, (d, visited) =>
      if visited.contains id then some (d, visited)
      else
        (d.childIDs id).foldlM (fun state childID => deleteRecursive fuel childID state)
          (d.keep (· != id), id :: visited)

/-- `Driver.DeleteJob`. A recursion deeper than the number of jobs would visit a
job twice, so this much fuel is enough. -/
def deleteJob (d : Store) (id : String) : Option (Except DriverError Store) :=
  if d.contains id then
    (deleteRecursive (d.jobs.length + 1) id (d, [])).map fun (d, _) => .ok d
  else some (.error .jobNotFound)

/-- The metadata value of a key. -/
def metadataValue (job : Job) (key : String) : Option String :=
  (job.metadata.find? fun entry => entry.1 == key).map Prod.snd

/-- The conditions of `ListJobs`. -/
def matchesFilter (filter : JobFilter) (job : Job) : Bool :=
  (filter.status == "" || job.status.text == filter.status) &&
  (filter.type == "" || job.type == filter.type) &&
  (match filter.parentID with
    | some parent => job.parentID == some parent
    | none => filter.all || job.parentID == none || job.parentID == some "") &&
  filter.metadata.all fun (key, value) => metadataValue job key == some value

/-- The comparison of the sort in `ListJobs`. -/
def listedBefore (left right : Job) : Bool :=
  if left.createdAt.unixNano ≠ right.createdAt.unixNano then
    left.createdAt.unixNano < right.createdAt.unixNano
  else
    match (metadataValue left "page_index").bind Go.atoi,
        (metadataValue right "page_index").bind Go.atoi with
    | some leftPage, some rightPage =>
        if leftPage ≠ rightPage then leftPage < rightPage else left.id < right.id
    | _, _ => left.id < right.id

def childCount (d : Store) (id : String) : Nat :=
  d.jobs.countP fun job => job.parentID == some id

/-- `Driver.ListJobs`. -/
def listJobs (d : Store) (filter : JobFilter) : List Job :=
  ((d.jobs.filter (matchesFilter filter)).map fun job =>
    { job with childCount := d.childCount job.id }).insertionSort
      fun left right => !listedBefore right left

/-! ## A deletion takes exactly one tree -/

variable {d : Store}

theorem contains_iff {id : String} : d.contains id = true ↔ id ∈ d.jobs.map Job.id := by
  simp [contains]

abbrev Edge (start : Store) (ancestor child : String) : Prop :=
  ParentTable.Edge Job.id Job.parentID start.jobs ancestor child

/-- The map between two steps of a deletion: the visited keys are gone. -/
def without (start : Store) (visited : List String) : Store :=
  start.keep fun id => !visited.contains id

theorem mem_without {start : Store} {visited : List String} {job : Job} :
    job ∈ (start.without visited).jobs ↔ job ∈ start.jobs ∧ job.id ∉ visited := by
  simp [without, keep]

theorem without_cons (start : Store) (visited : List String) (id : String) :
    (start.without visited).keep (· != id) = start.without (id :: visited) := by
  simp only [without, keep, mk.injEq, List.filter_filter]
  congr 1
  funext job
  rw [List.contains_cons, Bool.not_or]
  rfl

theorem without_length_le (start : Store) {before after : List String} (grows : before ⊆ after) :
    (start.without after).jobs.length ≤ (start.without before).jobs.length := by
  simp only [without, keep, ← List.countP_eq_length_filter]
  apply List.countP_mono_left
  intro job _ kept
  simp only [List.contains_eq_mem, Bool.not_eq_eq_eq_not, Bool.not_true,
    decide_eq_false_iff_not] at kept ⊢
  exact fun visited => kept (grows visited)

theorem without_cons_length_lt {start : Store} {visited : List String} {id : String}
    (present : id ∈ start.jobs.map Job.id) (fresh : id ∉ visited) :
    (start.without (id :: visited)).jobs.length < (start.without visited).jobs.length := by
  rw [← without_cons]
  rcases List.mem_map.mp present with ⟨job, member, rfl⟩
  apply List.length_filter_lt_length_iff_exists.mpr
  exact ⟨job, mem_without.mpr ⟨member, fresh⟩, by simp⟩

/-- What calls on some keys have visited besides what they started with: the keys,
only keys below them, and with each of these all its children. -/
structure Visited (start : Store) (ids before after : List String) : Prop where
  grows : before ⊆ after
  covers : ids ⊆ after
  below : ∀ key ∈ after, key ∈ before ∨
    ∃ id ∈ ids, Below Job.id Job.parentID start.jobs id key
  closed : ∀ key ∈ after, key ∈ before ∨ ∀ child, start.Edge key child → child ∈ after

theorem Visited.append {start : Store} {id : String} {ids before middle after : List String}
    (first : Visited start [id] before middle) (rest : Visited start ids middle after) :
    Visited start (id :: ids) before after where
  grows := List.Subset.trans first.grows rest.grows
  covers := List.cons_subset.mpr
    ⟨rest.grows (first.covers List.mem_cons_self), rest.covers⟩
  below key member := by
    rcases rest.below key member with inMiddle | ⟨other, isOther, reaches⟩
    · rcases first.below key inMiddle with inBefore | ⟨other, isId, reaches⟩
      · exact .inl inBefore
      · rw [List.mem_singleton.mp isId] at reaches
        exact .inr ⟨id, List.mem_cons_self, reaches⟩
    · exact .inr ⟨other, List.mem_cons_of_mem id isOther, reaches⟩
  closed key member := by
    rcases rest.closed key member with inMiddle | children
    · rcases first.closed key inMiddle with inBefore | children
      · exact .inl inBefore
      · exact .inr fun child edge => rest.grows (children child edge)
    · exact .inr children

/-- With enough fuel a call on a key of the map finishes and visits its tree. -/
def Finishes (start : Store) (fuel : Nat) : Prop :=
  ∀ id ∈ start.jobs.map Job.id, ∀ visited,
    (start.without visited).jobs.length < fuel →
    ∃ after, deleteRecursive fuel id (start.without visited, visited) =
      some (start.without after, after) ∧ Visited start [id] visited after

theorem Finishes.foldlM {start : Store} {fuel : Nat} (finishes : Finishes start fuel)
    (ids : List String) (present : ids ⊆ start.jobs.map Job.id) :
    ∀ visited, (start.without visited).jobs.length < fuel →
    ∃ after, ids.foldlM (fun state childID => deleteRecursive fuel childID state)
      (start.without visited, visited) = some (start.without after, after) ∧
      Visited start ids visited after := by
  induction ids with
  | nil =>
      intro visited _
      exact ⟨visited, rfl, List.Subset.refl _, List.nil_subset _, fun _ => .inl, fun _ => .inl⟩
  | cons id ids induction =>
      intro visited enough
      rw [List.cons_subset] at present
      rcases finishes id present.1 visited enough with ⟨middle, first, visitedFirst⟩
      have shorter := start.without_length_le visitedFirst.grows
      rcases induction present.2 middle (by omega) with ⟨after, rest, visitedRest⟩
      refine ⟨after, ?_, visitedFirst.append visitedRest⟩
      rw [List.foldlM_cons, first]
      exact rest

/-- The children are listed before the job leaves the map, so a child that is not
listed was visited before. -/
theorem finishes (start : Store) (fuel : Nat) : Finishes start fuel := by
  induction fuel with
  | zero =>
      intro id _ visited enough
      omega
  | succ fuel induction =>
      intro id present visited enough
      by_cases seen : id ∈ visited
      · refine ⟨visited, ?_, List.Subset.refl _, by simp [seen], fun _ => .inl, fun _ => .inl⟩
        simp [deleteRecursive, seen]
      · have childEdge : ∀ child, child ∈ (start.without visited).childIDs id ↔
            start.Edge id child ∧ child ∉ visited := by
          intro child
          simp only [childIDs, List.mem_map, List.mem_filter, mem_without, beq_iff_eq,
            ParentTable.Edge]
          constructor
          · intro listed
            rcases listed with ⟨job, ⟨⟨member, fresh⟩, names⟩, rfl⟩
            exact ⟨⟨job, member, rfl, names⟩, fresh⟩
          · intro listed
            rcases listed with ⟨⟨job, member, rfl, names⟩, fresh⟩
            exact ⟨job, ⟨⟨member, fresh⟩, names⟩, rfl⟩
        have childPresent : (start.without visited).childIDs id ⊆ start.jobs.map Job.id := by
          intro child listed
          rcases ((childEdge child).mp listed).1 with ⟨job, member, rfl, _⟩
          exact List.mem_map_of_mem member
        have fewer := without_cons_length_lt present seen
        rcases induction.foldlM _ childPresent (id :: visited) (by omega) with
          ⟨after, folded, children⟩
        have selfVisited : id ∈ after := children.grows List.mem_cons_self
        refine ⟨after, ?_, ?_, by simp [selfVisited], ?_, ?_⟩
        · rw [deleteRecursive, without_cons]
          simp only [List.contains_eq_mem, seen, decide_false, Bool.false_eq_true, if_false]
          exact folded
        · exact List.Subset.trans (List.subset_cons_self id visited) children.grows
        · intro key member
          rcases children.below key member with old | ⟨child, listed, reaches⟩
          · rcases List.mem_cons.mp old with rfl | inVisited
            · exact .inr ⟨key, List.mem_cons_self, .refl⟩
            · exact .inl inVisited
          · exact .inr ⟨id, List.mem_cons_self, .head ((childEdge child).mp listed).1 reaches⟩
        · intro key member
          rcases children.closed key member with old | closed
          · rcases List.mem_cons.mp old with rfl | inVisited
            · right
              intro child edge
              by_cases before : child ∈ visited
              · exact children.grows (List.mem_cons_of_mem key before)
              · exact children.covers ((childEdge child).mpr ⟨edge, before⟩)
            · exact .inl inVisited
          · exact .inr closed

/-- What a traversal that starts from nothing has visited is one tree. -/
theorem Visited.mem_iff {start : Store} {root : String} {after : List String}
    (visited : Visited start [root] [] after) (key : String) :
    key ∈ after ↔ Below Job.id Job.parentID start.jobs root key := by
  constructor
  · intro member
    rcases visited.below key member with old | ⟨id, isRoot, reaches⟩
    · cases old
    · rw [List.mem_singleton.mp isRoot] at reaches
      exact reaches
  · intro below
    induction below with
    | refl => exact visited.covers List.mem_cons_self
    | @tail middle key upper edge induction =>
        rcases visited.closed middle induction with old | closed
        · cases old
        · exact closed key edge

theorem deleteJob_without {id : String} (present : id ∈ d.jobs.map Job.id) :
    ∃ visited, d.deleteJob id = some (.ok (d.without visited)) ∧
      ∀ key, key ∈ visited ↔ Below Job.id Job.parentID d.jobs id key := by
  have nothing : d.without [] = d := by simp [without, keep]
  have enough : (d.without []).jobs.length < d.jobs.length + 1 := by rw [nothing]; omega
  rcases d.finishes (d.jobs.length + 1) id present [] enough with ⟨after, deleted, visited⟩
  rw [nothing] at deleted
  refine ⟨after, ?_, visited.mem_iff⟩
  rw [deleteJob, if_pos (contains_iff.mpr present), deleted, Option.map_some]

theorem deleteJob_present {id : String} (present : id ∈ d.jobs.map Job.id) :
    ∃ d' : Store, d.deleteJob id = some (.ok d') ∧
      Pruned Job.id Job.parentID d.jobs d'.jobs (· = id) := by
  rcases deleteJob_without present with ⟨visited, deleted, reached⟩
  refine ⟨d.without visited, deleted, ?_⟩
  intro job
  have inTree : InTree Job.id Job.parentID d.jobs id job.id ↔
      Below Job.id Job.parentID d.jobs id job.id := and_iff_right present
  simp only [mem_without, reached, forall_eq, inTree]

theorem deleteJob_absent {id : String} (absent : id ∉ d.jobs.map Job.id) :
    d.deleteJob id = some (.error .jobNotFound) := by
  have missing : ¬ d.contains id = true := fun contained => absent (contains_iff.mp contained)
  rw [deleteJob, if_neg missing]

theorem matchesFilter_ofStatus {wanted : JobStatus} {job : Job} :
    matchesFilter (.ofStatus wanted.text) job = true ↔ job.status = wanted := by
  simp [matchesFilter, JobFilter.ofStatus]

theorem mem_listJobs_ofStatus {wanted : JobStatus} {id : String} :
    id ∈ (d.listJobs (.ofStatus wanted.text)).map Job.id ↔
      ∃ job ∈ d.jobs, job.id = id ∧ job.status = wanted := by
  simp only [listJobs, List.mem_map, List.mem_insertionSort, List.mem_filter,
    matchesFilter_ofStatus]
  constructor
  · intro listed
    rcases listed with ⟨_, ⟨job, ⟨member, status⟩, rfl⟩, isId⟩
    exact ⟨job, member, isId, status⟩
  · intro present
    rcases present with ⟨job, member, isId, status⟩
    exact ⟨_, ⟨job, ⟨member, status⟩, rfl⟩, isId⟩

end Store

/-- The in-memory driver behind the `queue.JobStore` interface. -/
def jobStore : JobStore Store where
  listJobs := Store.listJobs
  deleteJob := Store.deleteJob

/-- Cyclic parents included, every content of the map will do. -/
def treeStore : TreeStore jobStore Job where
  key := Job.id
  parent := Job.parentID
  status := Job.status
  rows := Store.jobs
  Valid _ := True
  listJobs _ _ _ _ := Store.mem_listJobs_ofStatus
  deletePresent _ _ _ present := by
    rcases Store.deleteJob_present present with ⟨d', deleted, pruned⟩
    exact ⟨d', deleted, trivial, pruned⟩
  deleteAbsent _ _ _ absent := ⟨.jobNotFound, Store.deleteJob_absent absent⟩

end Kiyomi.Queue.InMemory
