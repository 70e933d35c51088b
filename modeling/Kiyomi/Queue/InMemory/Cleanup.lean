import Kiyomi.Queue.InMemory.Driver

namespace Kiyomi.Queue.InMemory

open Go ParentTable

/-! # Automatic clean-up in memory

`CleanupJobs` collects the roots, walks the tree of each one breadth first and deletes the
trees that are settled and old enough. Every `range` over the map has an order of its
own. -/

/-- The orders in which the map is visited: where the roots are collected, and for each
root where the children of a job are looked for. -/
structure Ranges where
  roots : List Job → List Job
  children : String → String → List Job → List Job
  roots_perm : ∀ jobs, (roots jobs).Perm jobs
  children_perm : ∀ rootID currID jobs, (children rootID currID jobs).Perm jobs

/-- Every `range` in the order of the list. -/
def Ranges.inOrder : Ranges := ⟨id, fun _ _ => id, fun _ => .rfl, fun _ _ _ => .rfl⟩

/-- The job has no parent. -/
def isRoot (job : Job) : Bool := job.parentID == none || job.parentID == some ""

/-- The completion time, or else the update time. -/
def lastTime (job : Job) : Time := job.completedAt.getD job.updatedAt

/-- The running maximum over `treeJobs`; the zero time stands for no maximum yet. -/
def maxTime (treeJobs : List Job) : Time :=
  treeJobs.foldl
    (fun maxTime job =>
      if maxTime.isZero || !(lastTime job).notAfter maxTime then lastTime job else maxTime)
    Time.zero

/-- The tree is settled and its newest time is not after the cutoff. -/
def eligible (completedCutoff failedCutoff : Time) (treeJobs : List Job) : Bool :=
  !(treeJobs.any fun job => job.status.isLive) &&
    if treeJobs.any fun job => job.status == .failed then (maxTime treeJobs).notAfter failedCutoff
    else (maxTime treeJobs).notAfter completedCutoff

namespace Store

/-- The loop over `queueList`; `none` when the fuel, which bounds its iterations, runs out.
The jobs of the map have distinct ids, so a `range` marks no job that it still has to
visit. -/
def treeLoop (d : Store) (range : String → List Job → List Job) :
    Nat → List Job → List String → List String → Option (List Job)
  | _, treeJobs, [], _ => some treeJobs
  | 0, _, _ :: _, _ => none
  | fuel + 1, treeJobs, currID :: queueList, treeVisited =>
      let found := (range currID d.jobs).filter fun job =>
        job.parentID == some currID && !treeVisited.contains job.id
      d.treeLoop range fuel (treeJobs ++ found) (queueList ++ found.map Job.id)
        (found.map Job.id ++ treeVisited)

/-- The jobs of the tree of a root. Each job of the map enters `queueList` once. -/
def treeJobs (d : Store) (range : String → List Job → List Job) (rootJob : Job) :
    Option (List Job) :=
  d.treeLoop range d.jobs.length [rootJob] [rootJob.id] [rootJob.id]

/-- The loop over the roots. -/
def cleanupLoop (ranges : Ranges) (limit : Nat) (completedCutoff failedCutoff : Time) :
    List String → Store → Nat → Option (Nat × Store)
  | [], d, deletedCount => some (deletedCount, d)
  | rootID :: rootIDs, d, deletedCount =>
      if limit ≤ deletedCount then some (deletedCount, d)
      else
        match d.find? rootID with
        | none => cleanupLoop ranges limit completedCutoff failedCutoff rootIDs d deletedCount
        | some rootJob =>
            match d.treeJobs (ranges.children rootID) rootJob with
            | none => none
            | some treeJobs =>
                if eligible completedCutoff failedCutoff treeJobs then
                  match deleteRecursive (d.jobs.length + 1) rootID (d, []) with
                  | none => none
                  | some (d, _) =>
                      cleanupLoop ranges limit completedCutoff failedCutoff rootIDs d
                        (deletedCount + 1)
                else
                  cleanupLoop ranges limit completedCutoff failedCutoff rootIDs d deletedCount

def rootIDs (d : Store) (ranges : Ranges) : List String :=
  ((ranges.roots d.jobs).filter isRoot).map Job.id

/-- `Driver.CleanupJobs` with its two readings of the clock. -/
def cleanupJobs (d : Store) (ranges : Ranges) (options : CleanupOptions)
    (completedNow failedNow : Time) : Option (Nat × Store) :=
  cleanupLoop ranges options.limit (completedNow.add (-options.completedTTL))
    (failedNow.add (-options.failedTTL)) (d.rootIDs ranges) d 0

/-! ## The specification -/

/-- The tree of `id` has no pending or running job, and no time in it is after the cutoff
for failed trees if a job of it failed, and for completed trees otherwise. -/
structure Expired (d : Store) (completedCutoff failedCutoff : Time) (id : String) : Prop where
  settled : ∀ job ∈ d.jobs, Below Job.id Job.parentID d.jobs id job.id →
    job.status.isLive = false
  failed : (∃ job ∈ d.jobs, Below Job.id Job.parentID d.jobs id job.id ∧ job.status = .failed) →
    ∀ job ∈ d.jobs, Below Job.id Job.parentID d.jobs id job.id →
      (lastTime job).notAfter failedCutoff = true
  completed : (∀ job ∈ d.jobs, Below Job.id Job.parentID d.jobs id job.id →
      job.status ≠ .failed) →
    ∀ job ∈ d.jobs, Below Job.id Job.parentID d.jobs id job.id →
      (lastTime job).notAfter completedCutoff = true

/-- `d'` is left when the trees of some expired roots are removed. -/
structure Cleaned (d d' : Store) (limit deletedCount : Nat) (completedCutoff failedCutoff : Time)
    (chosen : List String) : Prop where
  distinct : chosen.Nodup
  areRoots : ∀ id ∈ chosen, ∃ job ∈ d.jobs, job.id = id ∧ isRoot job = true
  removed : ∀ job, job ∈ d'.jobs ↔ job ∈ d.jobs ∧
    ∀ id ∈ chosen, ¬ Below Job.id Job.parentID d.jobs id job.id
  areExpired : ∀ id ∈ chosen, d.Expired completedCutoff failedCutoff id
  counted : chosen.length = deletedCount
  bounded : deletedCount ≤ limit

/-- A clean-up with room for more trees leaves no expired one. -/
structure CleanupSpec (d d' : Store) (limit deletedCount : Nat)
    (completedCutoff failedCutoff : Time) (chosen : List String) : Prop
    extends Cleaned d d' limit deletedCount completedCutoff failedCutoff chosen where
  exhausted : deletedCount < limit → ∀ job ∈ d'.jobs, isRoot job = true →
    ¬ d'.Expired completedCutoff failedCutoff job.id

/-- The empty id names no parent and nothing is before the zero time: no job with the empty
id has another job as its child, and all times of the jobs, or both cutoffs, are at or after
the zero time. -/
structure Conventional (d : Store) (completedCutoff failedCutoff : Time) : Prop where
  named : ∀ parent ∈ d.jobs, ∀ child ∈ d.jobs, parent.id = "" → child.parentID = some "" →
    child.id = ""
  timed : (∀ job ∈ d.jobs, Time.zero.notAfter (lastTime job) = true) ∨
    Time.zero.notAfter completedCutoff = true ∧ Time.zero.notAfter failedCutoff = true

/-! ## The tree of a root -/

variable {d : Store}

/-- The state of the walk: the jobs found so far are below the root, and the children of a
visited job are visited unless it still waits in the queue. -/
structure Walk (d : Store) (root : String) (treeJobs : List Job)
    (queueList treeVisited : List String) : Prop where
  rootVisited : root ∈ treeVisited
  queued : queueList ⊆ treeVisited
  found : ∀ job ∈ treeJobs, job ∈ d.jobs ∧ Below Job.id Job.parentID d.jobs root job.id
  visited : ∀ id, id ∈ treeVisited ↔ id ∈ treeJobs.map Job.id
  closed : ∀ id ∈ treeVisited, id ∈ queueList ∨ ∀ child, d.Edge id child → child ∈ treeVisited

/-- When nothing waits, the walk has found exactly the tree. -/
theorem Walk.mem_iff {root : String} {treeJobs : List Job} {treeVisited : List String}
    (walk : Walk d root treeJobs [] treeVisited) (job : Job) :
    job ∈ treeJobs ↔ job ∈ d.jobs ∧ Below Job.id Job.parentID d.jobs root job.id := by
  refine ⟨walk.found job, fun inTree => ?_⟩
  have isVisited : ∀ id, Below Job.id Job.parentID d.jobs root id → id ∈ treeVisited := by
    intro id below
    induction below with
    | refl => exact walk.rootVisited
    | tail upper edge induction => exact (walk.closed _ induction).resolve_left List.not_mem_nil _ edge
  rcases List.mem_map.mp ((walk.visited job.id).mp (isVisited job.id inTree.2)) with
    ⟨other, isFound, sameId⟩
  have same := List.inj_on_of_nodup_map d.keys (walk.found other isFound).1 inTree.1 sameId
  rwa [← same]

theorem Walk.expand {root currID : String} {treeJobs found : List Job}
    {queueList treeVisited : List String}
    (walk : Walk d root treeJobs (currID :: queueList) treeVisited)
    (isFound : ∀ job, job ∈ found ↔ job ∈ d.jobs ∧ job.parentID = some currID ∧
      job.id ∉ treeVisited) :
    Walk d root (treeJobs ++ found) (queueList ++ found.map Job.id)
      (found.map Job.id ++ treeVisited) where
  rootVisited := List.mem_append_right _ walk.rootVisited
  queued := by
    intro id waits
    rcases List.mem_append.mp waits with old | isNew
    · exact List.mem_append_right _ (walk.queued (List.mem_cons_of_mem currID old))
    · exact List.mem_append_left _ isNew
  found job member := by
    rcases List.mem_append.mp member with old | isNew
    · exact walk.found job old
    · rcases (isFound job).mp isNew with ⟨inMap, names, _⟩
      rcases List.mem_map.mp ((walk.visited currID).mp (walk.queued List.mem_cons_self)) with
        ⟨parent, parentFound, rfl⟩
      exact ⟨inMap, (walk.found parent parentFound).2.tail ⟨job, inMap, rfl, names⟩⟩
  visited id := by
    rw [List.mem_append, List.map_append, List.mem_append, walk.visited, or_comm]
  closed id member := by
    have newChild : ∀ child, d.Edge currID child → child ∈ found.map Job.id ++ treeVisited := by
      intro child edge
      rcases edge with ⟨job, inMap, rfl, names⟩
      by_cases isVisited : job.id ∈ treeVisited
      · exact List.mem_append_right _ isVisited
      · exact List.mem_append_left _
          (List.mem_map_of_mem ((isFound job).mpr ⟨inMap, names, isVisited⟩))
    rcases List.mem_append.mp member with isNew | old
    · exact .inl (List.mem_append_right _ isNew)
    · rcases walk.closed id old with waits | closed
      · rcases List.mem_cons.mp waits with rfl | waits
        · exact .inr newChild
        · exact .inl (List.mem_append_left _ waits)
      · exact .inr fun child edge => List.mem_append_right _ (closed child edge)

/-- The jobs that may still enter the queue. -/
def unvisited (d : Store) (treeVisited : List String) : Nat :=
  d.jobs.countP fun job => !treeVisited.contains job.id

theorem unvisited_append (d : Store) (treeVisited : List String) {currID : String}
    {range : List Job → List Job} (perm : ∀ jobs, (range jobs).Perm jobs) :
    d.unvisited treeVisited =
      ((range d.jobs).filter fun job =>
        job.parentID == some currID && !treeVisited.contains job.id).length +
      d.unvisited (((range d.jobs).filter fun job =>
        job.parentID == some currID && !treeVisited.contains job.id).map Job.id ++
          treeVisited) := by
  have sameLength : ((range d.jobs).filter fun job =>
      job.parentID == some currID && !treeVisited.contains job.id).length =
      d.jobs.countP fun job => job.parentID == some currID && !treeVisited.contains job.id := by
    rw [← List.countP_eq_length_filter]
    exact (perm d.jobs).countP_eq _
  rw [sameLength, unvisited, unvisited,
    List.countP_eq_countP_filter_add _ _ fun job => job.parentID == some currID,
    List.countP_filter, List.countP_filter]
  congr 1
  · apply List.countP_congr
    intro job _
    rw [Bool.and_comm]
  · apply List.countP_congr
    intro job inMap
    have isNew : job.id ∈ ((range d.jobs).filter fun job =>
        job.parentID == some currID && !treeVisited.contains job.id).map Job.id ↔
        job.parentID = some currID ∧ job.id ∉ treeVisited := by
      simp only [List.mem_map, List.mem_filter, (perm d.jobs).mem_iff, Bool.and_eq_true, beq_iff_eq,
        Bool.not_eq_true', List.contains_eq_mem, decide_eq_false_iff_not]
      constructor
      · intro listed
        rcases listed with ⟨other, ⟨otherInMap, names, fresh⟩, sameId⟩
        rw [← List.inj_on_of_nodup_map d.keys otherInMap inMap sameId]
        exact ⟨names, fresh⟩
      · exact fun selected => ⟨job, ⟨inMap, selected⟩, rfl⟩
    simp only [List.contains_eq_mem] at isNew
    simp only [Bool.and_eq_true, Bool.not_eq_true', List.contains_eq_mem, decide_eq_false_iff_not,
      List.mem_append, isNew, beq_eq_false_iff_ne]
    tauto

/-- Each iteration takes one job out of the queue and only unvisited jobs enter it. -/
theorem treeLoop_finishes {range : String → List Job → List Job} {root : String}
    (perm : ∀ currID jobs, (range currID jobs).Perm jobs) (fuel : Nat) :
    ∀ treeJobs queueList treeVisited, Walk d root treeJobs queueList treeVisited →
      queueList.length + d.unvisited treeVisited ≤ fuel →
      ∃ result, d.treeLoop range fuel treeJobs queueList treeVisited = some result ∧
        ∀ job, job ∈ result ↔ job ∈ d.jobs ∧ Below Job.id Job.parentID d.jobs root job.id := by
  induction fuel with
  | zero =>
      intro treeJobs queueList treeVisited walk enough
      have nothing : queueList = [] := List.length_eq_zero_iff.mp (by omega)
      subst nothing
      exact ⟨treeJobs, rfl, walk.mem_iff⟩
  | succ fuel induction =>
      intro treeJobs queueList treeVisited walk enough
      cases queueList with
      | nil => exact ⟨treeJobs, rfl, walk.mem_iff⟩
      | cons currID queueList =>
          have counted := @unvisited_append d treeVisited currID (range currID) (perm currID)
          rw [List.length_cons] at enough
          apply induction
          · apply walk.expand
            intro job
            simp only [List.mem_filter, (perm currID d.jobs).mem_iff, Bool.and_eq_true, beq_iff_eq,
              Bool.not_eq_true', List.contains_eq_mem, decide_eq_false_iff_not]
          · rw [List.length_append, List.length_map]
            omega

theorem treeJobs_eq {range : String → List Job → List Job}
    (perm : ∀ currID jobs, (range currID jobs).Perm jobs) {rootJob : Job}
    (present : rootJob ∈ d.jobs) :
    ∃ treeJobs, d.treeJobs range rootJob = some treeJobs ∧
      ∀ job, job ∈ treeJobs ↔
        job ∈ d.jobs ∧ Below Job.id Job.parentID d.jobs rootJob.id job.id := by
  apply treeLoop_finishes perm
  · refine ⟨List.mem_singleton.mpr rfl, List.Subset.refl _, ?_, ?_, ?_⟩
    · intro job member
      rw [List.mem_singleton.mp member]
      exact ⟨present, .refl⟩
    · exact fun _ => Iff.rfl
    · exact fun _ member => .inl member
  · have oneLess : d.unvisited [rootJob.id] < d.jobs.length := by
      apply lt_of_le_of_ne List.countP_le_length
      intro allUnvisited
      have fresh := List.countP_eq_length.mp allUnvisited rootJob present
      simp at fresh
    rw [List.length_singleton]
    omega

/-! ## The decision about a tree -/

/-- The running maximum is at or before a cutoff that is not before the zero time exactly
when every time is. -/
theorem foldl_notAfter {cutoff : Time} (zeroBefore : Time.zero.notAfter cutoff = true)
    (jobs : List Job) : ∀ start : Time,
      (jobs.foldl (fun maxTime job =>
          if maxTime.isZero || !(lastTime job).notAfter maxTime then lastTime job else maxTime)
          start).notAfter cutoff = true ↔
        start.notAfter cutoff = true ∧ ∀ job ∈ jobs, (lastTime job).notAfter cutoff = true := by
  induction jobs with
  | nil => simp
  | cons job jobs induction =>
      intro start
      have step : (if start.isZero || !(lastTime job).notAfter start then lastTime job
          else start).notAfter cutoff = true ↔
          start.notAfter cutoff = true ∧ (lastTime job).notAfter cutoff = true := by
        split
        · rename_i takes
          simp only [Time.notAfter, Time.isZero, Bool.or_eq_true, beq_iff_eq, Bool.not_eq_true',
            decide_eq_false_iff_not, decide_eq_true_eq] at takes zeroBefore ⊢
          omega
        · rename_i keeps
          simp only [Time.notAfter, Bool.or_eq_true, Bool.not_eq_true', decide_eq_false_iff_not,
            not_or, not_not, decide_eq_true_eq] at keeps ⊢
          omega
      rw [List.foldl_cons, induction, step, List.forall_mem_cons, and_assoc]

/-- The running maximum is one of the times when all of them are at or after the zero time. -/
theorem zero_notAfter_foldl (jobs : List Job)
    (times : ∀ job ∈ jobs, Time.zero.notAfter (lastTime job) = true) :
    ∀ start : Time, Time.zero.notAfter start = true →
      Time.zero.notAfter (jobs.foldl (fun maxTime job =>
        if maxTime.isZero || !(lastTime job).notAfter maxTime then lastTime job else maxTime)
        start) = true := by
  induction jobs with
  | nil => exact fun _ after => after
  | cons job jobs induction =>
      rw [List.forall_mem_cons] at times
      intro start after
      rw [List.foldl_cons]
      apply induction times.2
      split
      · exact times.1
      · exact after

theorem maxTime_notAfter {treeJobs : List Job} {cutoff : Time} (nonempty : treeJobs ≠ [])
    (timed : (∀ job ∈ treeJobs, Time.zero.notAfter (lastTime job) = true) ∨
      Time.zero.notAfter cutoff = true) :
    (maxTime treeJobs).notAfter cutoff = true ↔
      ∀ job ∈ treeJobs, (lastTime job).notAfter cutoff = true := by
  by_cases zeroBefore : Time.zero.notAfter cutoff = true
  · rw [maxTime, foldl_notAfter zeroBefore, and_iff_right zeroBefore]
  · have times := timed.resolve_right zeroBefore
    have after := zero_notAfter_foldl treeJobs times Time.zero (by decide)
    change Time.zero.notAfter (maxTime treeJobs) = true at after
    rcases List.exists_mem_of_ne_nil treeJobs nonempty with ⟨job, member⟩
    have first := times job member
    simp only [Time.notAfter, decide_eq_true_eq] at zeroBefore after first ⊢
    constructor
    · intro before
      omega
    · intro before
      have last := before job member
      omega

/-- The decision is the specification's. -/
theorem eligible_iff {completedCutoff failedCutoff : Time}
    (timed : (∀ job ∈ d.jobs, Time.zero.notAfter (lastTime job) = true) ∨
      Time.zero.notAfter completedCutoff = true ∧ Time.zero.notAfter failedCutoff = true)
    {treeJobs : List Job} {id : String} (present : id ∈ d.jobs.map Job.id)
    (isTree : ∀ job, job ∈ treeJobs ↔
      job ∈ d.jobs ∧ Below Job.id Job.parentID d.jobs id job.id) :
    eligible completedCutoff failedCutoff treeJobs = true ↔
      d.Expired completedCutoff failedCutoff id := by
  have nonempty : treeJobs ≠ [] := by
    rcases List.mem_map.mp present with ⟨root, inMap, rfl⟩
    exact List.ne_nil_of_mem ((isTree root).mpr ⟨inMap, .refl⟩)
  have times : (∀ job ∈ treeJobs, Time.zero.notAfter (lastTime job) = true) ∨
      Time.zero.notAfter completedCutoff = true ∧ Time.zero.notAfter failedCutoff = true :=
    timed.imp_left fun all job member => all job ((isTree job).mp member).1
  have inTree {P : Job → Prop} : (∀ job ∈ treeJobs, P job) ↔
      ∀ job ∈ d.jobs, Below Job.id Job.parentID d.jobs id job.id → P job := by
    simp only [isTree, and_imp]
  have completedTimes := maxTime_notAfter nonempty (times.imp_right And.left)
  have failedTimes := maxTime_notAfter nonempty (times.imp_right And.right)
  have settled : (!(treeJobs.any fun job => job.status.isLive)) = true ↔
      ∀ job ∈ treeJobs, job.status.isLive = false := by
    simp
  rw [eligible, Bool.and_eq_true, settled, inTree]
  cases anyFailed : treeJobs.any fun job => job.status == .failed with
  | true =>
      have failed : ∃ job ∈ d.jobs, Below Job.id Job.parentID d.jobs id job.id ∧
          job.status = .failed := by
        rcases List.any_eq_true.mp anyFailed with ⟨job, member, isFailed⟩
        exact ⟨job, ((isTree job).mp member).1, ((isTree job).mp member).2, by simpa using isFailed⟩
      rw [if_pos rfl, failedTimes, inTree]
      constructor
      · intro decided
        refine ⟨decided.1, fun _ => decided.2, fun noneFailed => ?_⟩
        rcases failed with ⟨job, inMap, below, isFailed⟩
        exact absurd isFailed (noneFailed job inMap below)
      · exact fun expired => ⟨expired.settled, expired.failed failed⟩
  | false =>
      have noneFailed : ∀ job ∈ d.jobs, Below Job.id Job.parentID d.jobs id job.id →
          job.status ≠ .failed := by
        rw [← inTree]
        simpa using anyFailed
      rw [if_neg Bool.false_ne_true, completedTimes, inTree]
      constructor
      · intro decided
        refine ⟨decided.1, fun failed => ?_, fun _ => decided.2⟩
        rcases failed with ⟨job, inMap, below, isFailed⟩
        exact absurd isFailed (noneFailed job inMap below)
      · exact fun expired => ⟨expired.settled, expired.completed noneFailed⟩

/-! ## Roots apart from one another -/

/-- No root is in the tree of another job. -/
theorem root_alone
    (named : ∀ parent ∈ d.jobs, ∀ child ∈ d.jobs, parent.id = "" → child.parentID = some "" →
      child.id = "")
    {ancestor key : String} (present : ancestor ∈ d.jobs.map Job.id)
    (below : Below Job.id Job.parentID d.jobs ancestor key) :
    (∃ root ∈ d.jobs, root.id = key ∧ isRoot root = true) → ancestor = key := by
  induction below with
  | refl => exact fun _ => rfl
  | @tail middle key upper edge induction =>
      intro root
      rcases root with ⟨root, inMap, rfl, isRoot⟩
      rcases edge with ⟨job, jobInMap, sameId, names⟩
      have same := List.inj_on_of_nodup_map d.keys jobInMap inMap sameId
      subst same
      have emptyParent : middle = "" := by
        simp only [InMemory.isRoot, names, Bool.or_eq_true, beq_iff_eq, reduceCtorEq, false_or,
          Option.some.injEq] at isRoot
        exact isRoot
      subst emptyParent
      have parentInMap : "" ∈ d.jobs.map Job.id := InTree.member_mem ⟨present, upper⟩
      rcases List.mem_map.mp parentInMap with ⟨parent, isIn, isEmpty⟩
      have ownId := named parent isIn job inMap isEmpty names
      rw [ownId]
      exact induction ⟨job, inMap, ownId, isRoot⟩

theorem Expired.of_sameTree {d' : Store} {completedCutoff failedCutoff : Time} {id : String}
    (expired : d.Expired completedCutoff failedCutoff id)
    (sameTree : ∀ job, (job ∈ d'.jobs ∧ Below Job.id Job.parentID d'.jobs id job.id) ↔
      (job ∈ d.jobs ∧ Below Job.id Job.parentID d.jobs id job.id)) :
    d'.Expired completedCutoff failedCutoff id where
  settled job inMap below := by
    have inTree := (sameTree job).mp ⟨inMap, below⟩
    exact expired.settled job inTree.1 inTree.2
  failed anyFailed job inMap below := by
    have inTree := (sameTree job).mp ⟨inMap, below⟩
    rcases anyFailed with ⟨other, otherInMap, otherBelow, isFailed⟩
    have otherInTree := (sameTree other).mp ⟨otherInMap, otherBelow⟩
    exact expired.failed ⟨other, otherInTree.1, otherInTree.2, isFailed⟩ job inTree.1 inTree.2
  completed noneFailed job inMap below := by
    have inTree := (sameTree job).mp ⟨inMap, below⟩
    apply expired.completed _ job inTree.1 inTree.2
    intro other otherInMap otherBelow
    have otherInTree := (sameTree other).mpr ⟨otherInMap, otherBelow⟩
    exact noneFailed other otherInTree.1 otherInTree.2

namespace Cleaned

variable {d' : Store} {limit deletedCount : Nat} {completedCutoff failedCutoff : Time}
  {chosen : List String}

theorem present (cleaned : Cleaned d d' limit deletedCount completedCutoff failedCutoff chosen)
    {id : String} (isChosen : id ∈ chosen) : id ∈ d.jobs.map Job.id := by
  rcases cleaned.areRoots id isChosen with ⟨job, inMap, rfl, _⟩
  exact List.mem_map_of_mem inMap

theorem pruned (cleaned : Cleaned d d' limit deletedCount completedCutoff failedCutoff chosen) :
    Pruned Job.id Job.parentID d.jobs d'.jobs (· ∈ chosen) := by
  intro job
  rw [cleaned.removed]
  apply and_congr_right
  intro _
  apply forall₂_congr
  intro id isChosen
  rw [InTree, and_iff_right (cleaned.present isChosen)]

/-- The tree of a root that was not chosen is as it was. -/
theorem sameTree (cleaned : Cleaned d d' limit deletedCount completedCutoff failedCutoff chosen)
    (named : ∀ parent ∈ d.jobs, ∀ child ∈ d.jobs, parent.id = "" → child.parentID = some "" →
      child.id = "")
    {root : Job} (inMap : root ∈ d.jobs) (isRoot : isRoot root = true) (spared : root.id ∉ chosen)
    (job : Job) :
    (job ∈ d'.jobs ∧ Below Job.id Job.parentID d'.jobs root.id job.id) ↔
      (job ∈ d.jobs ∧ Below Job.id Job.parentID d.jobs root.id job.id) := by
  have present : root.id ∈ d.jobs.map Job.id := List.mem_map_of_mem inMap
  constructor
  · intro inTree
    exact ⟨((cleaned.removed job).mp inTree.1).1, inTree.2.mono cleaned.pruned.subset⟩
  · intro inTree
    have left : job ∈ d'.jobs := by
      rw [cleaned.removed]
      refine ⟨inTree.1, fun id isChosen below => spared ?_⟩
      -- Two roots above one job are in one chain, and no root is below another job.
      have sameRoot : id = root.id := by
        rcases below.comparable d.keys inTree.2 with above | underneath
        · exact root_alone named (cleaned.present isChosen) above ⟨root, inMap, rfl, isRoot⟩
        · exact (root_alone named present underneath (cleaned.areRoots id isChosen)).symm
      exact sameRoot ▸ isChosen
    exact ⟨left, ((cleaned.pruned.inTree_iff left).mpr ⟨present, inTree.2⟩).2⟩

theorem expired_iff (cleaned : Cleaned d d' limit deletedCount completedCutoff failedCutoff chosen)
    (named : ∀ parent ∈ d.jobs, ∀ child ∈ d.jobs, parent.id = "" → child.parentID = some "" →
      child.id = "")
    {root : Job} (inMap : root ∈ d.jobs) (isRoot : isRoot root = true)
    (spared : root.id ∉ chosen) :
    d'.Expired completedCutoff failedCutoff root.id ↔
      d.Expired completedCutoff failedCutoff root.id := by
  have same := cleaned.sameTree named inMap isRoot spared
  exact ⟨fun expired => expired.of_sameTree fun job => (same job).symm,
    fun expired => expired.of_sameTree same⟩

theorem nothing (d : Store) (limit : Nat) (completedCutoff failedCutoff : Time) :
    Cleaned d d limit 0 completedCutoff failedCutoff [] where
  distinct := List.nodup_nil
  areRoots _ member := by cases member
  removed job := by simp
  areExpired _ member := by cases member
  counted := rfl
  bounded := Nat.zero_le limit

/-- One more tree is removed. -/
theorem delete (cleaned : Cleaned d d' limit deletedCount completedCutoff failedCutoff chosen)
    (named : ∀ parent ∈ d.jobs, ∀ child ∈ d.jobs, parent.id = "" → child.parentID = some "" →
      child.id = "")
    (room : deletedCount < limit) {root : Job} (inMap : root ∈ d.jobs)
    (isRoot : isRoot root = true) (spared : root.id ∉ chosen)
    (expired : d.Expired completedCutoff failedCutoff root.id) {rest : Store}
    (left : ∀ job, job ∈ rest.jobs ↔
      job ∈ d'.jobs ∧ ¬ Below Job.id Job.parentID d'.jobs root.id job.id) :
    Cleaned d rest limit (deletedCount + 1) completedCutoff failedCutoff (root.id :: chosen) where
  distinct := List.nodup_cons.mpr ⟨spared, cleaned.distinct⟩
  areRoots := List.forall_mem_cons.mpr ⟨⟨root, inMap, rfl, isRoot⟩, cleaned.areRoots⟩
  removed job := by
    have tree := cleaned.sameTree named inMap isRoot spared job
    have before := cleaned.removed job
    rw [left, List.forall_mem_cons]
    tauto
  areExpired := List.forall_mem_cons.mpr ⟨expired, cleaned.areExpired⟩
  counted := by rw [List.length_cons, cleaned.counted]
  bounded := room

end Cleaned

/-! ## The loop over the roots -/

variable {completedCutoff failedCutoff : Time}

theorem deleteRecursive_tree {id : String} (present : id ∈ d.jobs.map Job.id) :
    ∃ rest visited, deleteRecursive (d.jobs.length + 1) id (d, []) = some (rest, visited) ∧
      ∀ job, job ∈ rest.jobs ↔
        job ∈ d.jobs ∧ ¬ Below Job.id Job.parentID d.jobs id job.id := by
  have nothing : d.without [] = d := by simp [without, keep]
  have enough : (d.without []).jobs.length < d.jobs.length + 1 := by rw [nothing]; omega
  rcases d.finishes (d.jobs.length + 1) id present [] enough with ⟨after, deleted, visited⟩
  rw [nothing] at deleted
  refine ⟨d.without after, after, deleted, fun job => ?_⟩
  rw [mem_without, visited.mem_iff]

/-- Whatever trees were removed before, the decision about a root is that of the map at the
start. -/
theorem cleanupLoop_cleaned {ranges : Ranges} {limit : Nat}
    (conventional : d.Conventional completedCutoff failedCutoff) (rootIDs : List String) :
    ∀ d' deletedCount chosen,
      Cleaned d d' limit deletedCount completedCutoff failedCutoff chosen →
      (∀ id ∈ rootIDs, ∃ job ∈ d.jobs, job.id = id ∧ isRoot job = true) →
      rootIDs.Nodup → (∀ id ∈ rootIDs, id ∉ chosen) →
      ∃ finalCount rest finalChosen,
        cleanupLoop ranges limit completedCutoff failedCutoff rootIDs d' deletedCount =
          some (finalCount, rest) ∧
        Cleaned d rest limit finalCount completedCutoff failedCutoff finalChosen ∧
        chosen ⊆ finalChosen ∧
        (finalCount < limit → ∀ id ∈ rootIDs, id ∈ finalChosen ∨
          ¬ d.Expired completedCutoff failedCutoff id) := by
  induction rootIDs with
  | nil =>
      intro d' deletedCount chosen cleaned _ _ _
      exact ⟨deletedCount, d', chosen, rfl, cleaned, List.Subset.refl _, fun _ _ member => by
        cases member⟩
  | cons rootID rootIDs induction =>
      intro d' deletedCount chosen cleaned areRoots nodup apart
      rw [List.forall_mem_cons] at areRoots apart
      rw [List.nodup_cons] at nodup
      rcases areRoots.1 with ⟨root, inMap, rfl, isRoot⟩
      unfold cleanupLoop
      by_cases full : limit ≤ deletedCount
      · rw [if_pos full]
        exact ⟨deletedCount, d', chosen, rfl, cleaned, List.Subset.refl _, fun room => by omega⟩
      · have stays := ((cleaned.sameTree conventional.named inMap isRoot apart.1 root).mpr
          ⟨inMap, .refl⟩).1
        have found : d'.find? root.id = some root := find?_eq_some.mpr ⟨stays, rfl⟩
        have present : root.id ∈ d'.jobs.map Job.id := List.mem_map_of_mem stays
        rcases @treeJobs_eq d' (ranges.children root.id) (ranges.children_perm root.id) root stays
          with ⟨treeJobs, walked, isTree⟩
        have timed := conventional.timed.imp_left fun all job member =>
          all job (cleaned.pruned.subset member)
        have decision := eligible_iff timed present isTree
        rw [cleaned.expired_iff conventional.named inMap isRoot apart.1] at decision
        rw [if_neg full]
        simp only [found, walked]
        by_cases expired : d.Expired completedCutoff failedCutoff root.id
        · rw [if_pos (decision.mpr expired)]
          rcases deleteRecursive_tree present with ⟨rest, visited, deleted, left⟩
          simp only [deleted]
          have more := cleaned.delete conventional.named (by omega) inMap isRoot apart.1 expired left
          rcases induction rest (deletedCount + 1) (root.id :: chosen) more areRoots.2 nodup.2
            (fun id member => by
              rw [List.mem_cons, not_or]
              exact ⟨fun same => nodup.1 (same ▸ member), apart.2 id member⟩)
            with ⟨finalCount, final, finalChosen, looped, finally', grows, exhausted⟩
          refine ⟨finalCount, final, finalChosen, looped, finally',
            List.Subset.trans (List.subset_cons_self _ _) grows, fun room => ?_⟩
          exact List.forall_mem_cons.mpr ⟨.inl (grows List.mem_cons_self), exhausted room⟩
        · rw [if_neg fun eligible => expired (decision.mp eligible)]
          rcases induction d' deletedCount chosen cleaned areRoots.2 nodup.2 apart.2
            with ⟨finalCount, final, finalChosen, looped, finally', grows, exhausted⟩
          exact ⟨finalCount, final, finalChosen, looped, finally', grows, fun room =>
            List.forall_mem_cons.mpr ⟨.inr expired, exhausted room⟩⟩

theorem mem_rootIDs {ranges : Ranges} {id : String} :
    id ∈ d.rootIDs ranges ↔ ∃ job ∈ d.jobs, job.id = id ∧ isRoot job = true := by
  simp only [rootIDs, List.mem_map, List.mem_filter, (ranges.roots_perm d.jobs).mem_iff, and_assoc]
  constructor
  · intro listed
    rcases listed with ⟨job, inMap, isRoot, isId⟩
    exact ⟨job, inMap, isId, isRoot⟩
  · intro listed
    rcases listed with ⟨job, inMap, isId, isRoot⟩
    exact ⟨job, inMap, isRoot, isId⟩

theorem rootIDs_nodup (ranges : Ranges) : (d.rootIDs ranges).Nodup := by
  have distinct : ((ranges.roots d.jobs).map Job.id).Nodup :=
    ((ranges.roots_perm d.jobs).map Job.id).nodup_iff.mpr d.keys
  exact (List.filter_sublist.map Job.id).nodup distinct

/-- Every clean-up of a conventional map, in every order of its ranges, meets the
specification. -/
theorem cleanupJobs_spec (d : Store) (ranges : Ranges) (options : CleanupOptions)
    (completedNow failedNow : Time)
    (conventional : d.Conventional (completedNow.add (-options.completedTTL))
      (failedNow.add (-options.failedTTL))) :
    ∃ deletedCount d' chosen,
      d.cleanupJobs ranges options completedNow failedNow = some (deletedCount, d') ∧
      CleanupSpec d d' options.limit deletedCount (completedNow.add (-options.completedTTL))
        (failedNow.add (-options.failedTTL)) chosen := by
  rcases @cleanupLoop_cleaned d _ _ ranges options.limit conventional (d.rootIDs ranges) d 0 []
    (.nothing d _ _ _) (fun id member => mem_rootIDs.mp member) (rootIDs_nodup ranges)
    (fun _ _ => List.not_mem_nil) with ⟨deletedCount, d', chosen, cleans, cleaned, _, exhausted⟩
  refine ⟨deletedCount, d', chosen, cleans, { toCleaned := cleaned, exhausted := ?_ }⟩
  intro room job left isRoot
  have inMap := cleaned.pruned.subset left
  have spared : job.id ∉ chosen :=
    fun isChosen => ((cleaned.removed job).mp left).2 job.id isChosen .refl
  rw [cleaned.expired_iff conventional.named inMap isRoot spared]
  exact (exhausted room job.id (mem_rootIDs.mpr ⟨job, inMap, rfl, isRoot⟩)).resolve_left spared

/-! ## The two conventions are needed -/

/-- A job that ended at a given time. -/
def endedJob (id : String) (parentID : Option String) (status : JobStatus) (endedAt : Time) : Job :=
  { Job.child id parentID "pull_page" "{}" "" [] endedAt with
    status
    completedAt := some endedAt }

/-- A completed manga with a page that failed before. -/
def endedManga : Store where
  jobs := [endedJob "manga-1" none .completed ⟨20, 0⟩,
    endedJob "page-1" (some "manga-1") .failed ⟨10, 0⟩]
  keys := by decide

theorem cleanupJobs_spec_ended_manga :
    ∃ deletedCount d' chosen,
      endedManga.cleanupJobs .inOrder { completedTTL := 10, failedTTL := 20, batchSize := 0 }
        ⟨40, 0⟩ ⟨40, 0⟩ = some (deletedCount, d') ∧
      CleanupSpec endedManga d' 500 deletedCount ⟨30, 0⟩ ⟨20, 0⟩ chosen :=
  cleanupJobs_spec endedManga .inOrder { completedTTL := 10, failedTTL := 20, batchSize := 0 }
    ⟨40, 0⟩ ⟨40, 0⟩ ⟨by decide, .inr (by decide)⟩

/-- The tree of a job without a parent pointer is removed only with that job chosen. -/
theorem Cleaned.chosen_of_gone {d' : Store} {limit deletedCount : Nat} {chosen : List String}
    (cleaned : Cleaned d d' limit deletedCount completedCutoff failedCutoff chosen) {job : Job}
    (inMap : job ∈ d.jobs) (orphan : job.parentID = none) (gone : job ∉ d'.jobs) :
    job.id ∈ chosen := by
  rw [cleaned.removed, not_and] at gone
  have covered := gone inMap
  push_neg at covered
  rcases covered with ⟨id, isChosen, below⟩
  rcases Relation.ReflTransGen.cases_tail below with same | ⟨middle, _, edge⟩
  · rw [same]
    exact isChosen
  · rcases edge with ⟨other, otherInMap, sameId, names⟩
    rw [List.inj_on_of_nodup_map d.keys otherInMap inMap sameId, orphan] at names
    contradiction

/-- A failed page is the child of a job with the empty id. -/
def emptyId : Store where
  jobs := [endedJob "page-1" (some "") .failed ⟨10, 0⟩, endedJob "" none .completed ⟨20, 0⟩]
  keys := by decide

/-- The page of the manga ended before the zero time, the manga at it. -/
def zeroTime : Store where
  jobs := [endedJob "manga-1" none .completed Time.zero,
    endedJob "page-1" (some "manga-1") .completed (Time.zero.add (-2))]
  keys := by decide

/-- The page is taken for a root and goes first, and then the job with the empty id is
judged without it. In the other map the running maximum starts over at the zero time. -/
theorem cleanupJobs_spec_fails :
    (¬ ∃ deletedCount d' chosen,
      emptyId.cleanupJobs .inOrder { completedTTL := 10, failedTTL := 20, batchSize := 0 }
        ⟨30, 0⟩ ⟨30, 0⟩ = some (deletedCount, d') ∧
      CleanupSpec emptyId d' 500 deletedCount ⟨20, 0⟩ ⟨10, 0⟩ chosen) ∧
    (¬ ∃ deletedCount d' chosen,
      zeroTime.cleanupJobs .inOrder { completedTTL := 0, failedTTL := 0, batchSize := 0 }
        (Time.zero.add (-1)) (Time.zero.add (-1)) = some (deletedCount, d') ∧
      CleanupSpec zeroTime d' 500 deletedCount (Time.zero.add (-1)) (Time.zero.add (-1))
        chosen) := by
  constructor
  · intro meets
    rcases meets with ⟨deletedCount, d', chosen, cleans, spec⟩
    have empty : d'.jobs = [] := by
      have all : (emptyId.cleanupJobs .inOrder
          { completedTTL := 10, failedTTL := 20, batchSize := 0 } ⟨30, 0⟩ ⟨30, 0⟩).map
            (fun cleaned => cleaned.2.jobs) = some [] := by decide
      rw [cleans] at all
      exact Option.some.inj all
    have isChosen := spec.toCleaned.chosen_of_gone
      (by simp [emptyId] : endedJob "" none .completed ⟨20, 0⟩ ∈ emptyId.jobs) rfl
      (by simp [empty])
    have expired := spec.areExpired _ isChosen
    have late := expired.failed
      ⟨endedJob "page-1" (some "") .failed ⟨10, 0⟩, by simp [emptyId],
        .single ⟨_, by simp [emptyId], rfl, rfl⟩, rfl⟩
      (endedJob "" none .completed ⟨20, 0⟩) (by simp [emptyId]) .refl
    exact absurd late (by decide)
  · intro meets
    rcases meets with ⟨deletedCount, d', chosen, cleans, spec⟩
    have empty : d'.jobs = [] := by
      have all : (zeroTime.cleanupJobs .inOrder
          { completedTTL := 0, failedTTL := 0, batchSize := 0 } (Time.zero.add (-1))
            (Time.zero.add (-1))).map (fun cleaned => cleaned.2.jobs) = some [] := by decide
      rw [cleans] at all
      exact Option.some.inj all
    have isChosen := spec.toCleaned.chosen_of_gone
      (by simp [zeroTime] : endedJob "manga-1" none .completed Time.zero ∈ zeroTime.jobs) rfl
      (by simp [empty])
    have late := (spec.areExpired _ isChosen).completed
      (by
        intro job inMap _
        simp only [zeroTime, List.mem_cons, List.not_mem_nil, or_false] at inMap
        rcases inMap with rfl | rfl <;> decide)
      (endedJob "manga-1" none .completed Time.zero) (by simp [zeroTime]) .refl
    exact absurd late (by decide)

end Store

end Kiyomi.Queue.InMemory
