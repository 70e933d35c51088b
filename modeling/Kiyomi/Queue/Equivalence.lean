import Kiyomi.Foundation.Run
import Kiyomi.Foundation.StableSort
import Kiyomi.Queue.Contents

namespace Kiyomi.Queue

open Go ParentTable Sqlite InMemory

/-! # One sequence of calls on both drivers

The workers of the drivers are not started, so only the calls change what the drivers
hold. -/

inductive Call
  | createJob (job : Job)
  | updateJob (job : Job)
  /-- The SQLite driver reads the clock once in an `Enqueue` and in a `CancelJob`, the
  in-memory driver for each job that it cancels. -/
  | enqueue (job : Job) (now : Time)
  | cancelJob (id : String) (now : Time) (clock : String → Time)
  | deleteJob (id : String)
  | getJob (id : String)
  | listJobs (filter : JobFilter)

/-- What a call returns: an error, or the jobs that it read. -/
abbrev Answer := Except DriverError (List Job)

def Answer.ofFound : Option Job → Answer
  | some job => .ok [job]
  | none => .error .jobNotFound

namespace Sqlite.Database

/-- A call that fails leaves the database alone. -/
def withOutcome (db : Database) : Except DriverError Database → Answer × Database
  | .ok db => (.ok [], db)
  | .error error => (.error error, db)

def call (db : Database) : Call → Option (Answer × Database)
  | .createJob job => some (db.withOutcome (db.createJob job))
  | .updateJob job => some (db.withOutcome (db.updateJob job))
  | .enqueue job now => some (db.withOutcome ((db.enqueue job now).map Prod.snd))
  | .cancelJob id now _ => (db.cancelJob id now).map db.withOutcome
  | .deleteJob id => (db.deleteJob id).map db.withOutcome
  | .getJob id => some (.ofFound (db.getJob id), db)
  | .listJobs filter => some (.ok (db.listJobs filter), db)

/-- The text in the column by which `ListJobs` sorts. -/
def createdText (db : Database) (id : String) : String :=
  ((db.jobs.find? id).map Row.createdAt).getD ""

end Sqlite.Database

namespace InMemory.Driver

def withOutcome (d : Driver) : Except DriverError Store → Answer × Driver
  | .ok store => (.ok [], { d with store })
  | .error error => (.error error, d)

def call (d : Driver) : Call → Option (Answer × Driver)
  | .createJob job => some (d.withOutcome (d.store.createJob job))
  | .updateJob job => some (d.withOutcome (d.store.updateJob job))
  | .enqueue job _ => (d.enqueue job).map fun d => (.ok [], d)
  | .cancelJob id _ clock => (d.store.cancelJob id clock).map d.withOutcome
  | .deleteJob id => (d.store.deleteJob id).map d.withOutcome
  | .getJob id => some (.ofFound (d.store.getJob id), d)
  | .listJobs filter => some (.ok (d.store.listJobs filter), d)

end InMemory.Driver

structure Drivers where
  sqlite : Database
  inMemory : Driver

namespace Drivers

def new (bufferSize : Nat) : Drivers := ⟨Database.empty, Driver.new bufferSize⟩

/-- The same call on both drivers; no outcome if it returns in one driver only. -/
def call (s : Drivers) (call : Call) : Option ((Answer × Answer) × Drivers) :=
  match s.sqlite.call call, s.inMemory.call call with
  | some (answer, sqlite), some (other, inMemory) => some ((answer, other), { sqlite, inMemory })
  | _, _ => none

def step : StepFunction Drivers Call := fun s call => (s.call call).map Prod.snd

/-- What a caller sees of an answer when it does not look at times and error texts. -/
def observe : Answer → Option (List Job)
  | .ok jobs => some (jobs.map Job.withoutTimes)
  | .error _ => none

/-- Both drivers return and answer alike. -/
def SameAnswers (s : Drivers) (call : Call) : Prop :=
  ∃ answer other next, s.call call = some ((answer, other), next) ∧
    observe answer = observe other

/-- Both drivers answer alike and hold the same jobs afterwards. -/
def Agree (s : Drivers) (call : Call) : Prop :=
  ∃ answer other next, s.call call = some ((answer, other), next) ∧
    observe answer = observe other ∧ next.sqlite.contents = next.inMemory.store.contents

/-- Distinct creation times and acyclic parents. -/
structure Proper (d : Store) : Prop where
  createdAt : (d.jobs.map fun job => job.createdAt.unixNano).Nodup
  acyclic : Acyclic Job.id Job.parentID d.jobs

/-- The metadata of the job in a call is a map. -/
def metadataIsMap : Call → Bool
  | .createJob job | .updateJob job | .enqueue job _ => (job.metadata.map Prod.fst).Nodup
  | _ => true

/-- A call of the sequences in question. -/
structure Admissible (s : Drivers) (call : Call) : Prop where
  isMap : metadataIsMap call = true
  proper : ∀ answers next, s.call call = some (answers, next) → Proper next.inMemory.store

/-- What the drivers do alike: an `Enqueue` when a slot is free and the job, if it is
there, has no error text; a read of jobs whose parent is not the empty text; and a
listing of jobs that creation texts put in the opposite order of creation times. -/
def alike (s : Drivers) : Call → Bool
  | .enqueue job _ =>
      !s.inMemory.isFull && (s.inMemory.store.find? job.id).all fun old => old.error == ""
  | .getJob id => (s.inMemory.store.find? id).all fun job => job.parentID != some ""
  | .listJobs filter =>
      let found := s.inMemory.store.jobs.filter (Store.matchesFilter filter)
      (found.all fun job => job.parentID != some "") &&
        found.Pairwise fun left right =>
          s.sqlite.createdText right.id ≤ s.sqlite.createdText left.id ↔
            left.createdAt.unixNano ≤ right.createdAt.unixNano
  | _ => true

end Drivers

/-! ## Reading -/

/-- How a driver presents what it holds of a job. -/
def presented (readParent : Option String → Option String) (contents : List Job) (job : Job) : Job :=
  { job with
    parentID := readParent job.parentID
    childCount := contents.countP fun other => other.parentID == some job.id }

/-- The SQLite driver reads the empty text as no parent. -/
def Sqlite.readParent (parentID : Option String) : Option String := parentID.filter (· != "")

theorem presented_eq_iff {contents : List Job} {job : Job} :
    presented readParent contents job = presented id contents job ↔ job.parentID ≠ some "" := by
  simp only [presented, Job.mk.injEq, true_and, and_true, readParent, id]
  cases job.parentID with
  | none => simp
  | some parent => by_cases isEmpty : parent = "" <;> simp [isEmpty]

namespace SameContents

variable {db : Database} {d : Store}

theorem sqlite_presented (row : Row) :
    (db.jobOfRow row).withoutTimes =
      presented readParent db.contents (row.content db.jobMetadata) := by
  simp only [Database.jobOfRow, Job.withoutTimes, presented, Row.content, Job.mk.injEq, true_and,
    Database.childCount, Database.contents, List.countP_map, readParent]
  exact ⟨rfl, rfl⟩

theorem inMemory_presented (job : Job) :
    ({ job with childCount := d.childCount job.id } : Job).withoutTimes =
      presented id d.contents job.content := by
  simp only [Job.withoutTimes, presented, Job.content, Job.mk.injEq, true_and, id, Store.childCount,
    Store.contents, List.countP_map, and_true]
  rfl

theorem sqlite_getJob (id : String) :
    (db.getJob id).map Job.withoutTimes =
      (db.contents.find? fun job => job.id == id).map (presented readParent db.contents) := by
  simp only [Database.getJob, JobTable.find?, Option.map_map, Database.contents, List.find?_map]
  congr 1
  funext row
  exact sqlite_presented row

theorem inMemory_getJob (key : String) :
    (d.getJob key).map Job.withoutTimes =
      (d.contents.find? fun job => job.id == key).map (presented id d.contents) := by
  rw [Store.contents, List.find?_map, Store.getJob, Store.find?]
  simp only [Option.map_map]
  apply Option.map_congr
  intro job found
  have isKey : job.id = key := by simpa using List.find?_some found
  subst isKey
  exact inMemory_presented job

/-- Rows and contents satisfy a filter alike. -/
theorem matchesFilter_content (same : SameContents db d) (filter : JobFilter) (row : Row) :
    db.matchesFilter filter row =
      Store.matchesFilter filter (row.content db.jobMetadata) := by
  have sameValue : ∀ key value,
      (db.jobMetadata.any fun entry =>
        entry.jobID == row.id && entry.key == key && entry.value == value) =
      (Store.metadataValue (row.content db.jobMetadata) key == some value) := by
    intro key value
    rw [Bool.eq_iff_iff, beq_iff_eq, Store.metadataValue, Option.map_eq_some_iff,
      List.any_eq_true]
    simp only [Bool.and_eq_true, beq_iff_eq]
    constructor
    · intro stored
      rcases stored with ⟨entry, member, ⟨isRow, isKey⟩, isValue⟩
      have listed : (key, value) ∈ entriesOf db.jobMetadata row.id :=
        List.mem_map.mpr ⟨entry, List.mem_filter.mpr ⟨member, by simpa using isRow⟩, by
          rw [isKey, isValue]⟩
      cases found : (row.content db.jobMetadata).metadata.find? fun entry => entry.1 == key with
      | none => simpa using List.find?_eq_none.mp found _ listed
      | some hit =>
          rcases List.mem_map.mp (List.mem_of_find?_eq_some found) with ⟨other, inRow, rfl⟩
          have sameKey : other.key = key := by simpa using List.find?_some found
          rw [List.mem_filter, beq_iff_eq] at inRow
          have sameEntry : other = entry := List.inj_on_of_nodup_map same.keys inRow.1 member
            (by rw [inRow.2, isRow, sameKey, isKey])
          exact ⟨_, rfl, by rw [sameEntry]; exact isValue⟩
    · intro found
      rcases found with ⟨hit, found, isValue⟩
      rcases List.mem_map.mp (List.mem_of_find?_eq_some found) with ⟨entry, inRow, rfl⟩
      rw [List.mem_filter, beq_iff_eq] at inRow
      exact ⟨entry, inRow.1, ⟨inRow.2, by simpa using List.find?_some found⟩, isValue⟩
  unfold Database.matchesFilter Store.matchesFilter
  simp only [sameValue]
  rfl

/-- The contents that satisfy a filter, in the order of the table. -/
def found (d : Store) (filter : JobFilter) : List Job :=
  d.contents.filter (Store.matchesFilter filter)

theorem sqlite_listJobs (same : SameContents db d) (filter : JobFilter) :
    (db.listJobs filter).map Job.withoutTimes =
      ((found d filter).insertionSort fun left right =>
        db.createdText right.id ≤ db.createdText left.id).map
          (presented readParent d.contents) := by
  have sameText : ∀ row ∈ db.jobs.rows, db.createdText row.id = row.createdAt := by
    intro row member
    rw [Database.createdText, JobTable.find?_eq_some.mpr ⟨member, rfl⟩]
    rfl
  have sameFound : (db.jobs.rows.filter (db.matchesFilter filter)).map
      (Row.content db.jobMetadata) = found d filter := by
    rw [found, ← same.contents, Database.contents, List.filter_map]
    congr 1
    apply List.filter_congr
    intro row _
    exact same.matchesFilter_content filter row
  rw [Database.listJobs, List.map_map, ← sameFound, ← same.contents,
    ← List.map_insertionSort (fun left right : Row => right.createdAt ≤ left.createdAt), List.map_map]
  · apply List.map_congr_left
    intro row _
    exact sqlite_presented row
  · intro left leftFound right rightFound
    have leftText := sameText left (List.mem_of_mem_filter leftFound)
    have rightText := sameText right (List.mem_of_mem_filter rightFound)
    rw [Row.content_id, Row.content_id, leftText, rightText]

/-- The instant by which the in-memory driver sorts. -/
def createdNano (d : Store) (id : String) : Int :=
  ((d.find? id).map fun job => job.createdAt.unixNano).getD 0

theorem createdNano_eq {job : Job} (member : job ∈ d.jobs) :
    createdNano d job.id = job.createdAt.unixNano := by
  rw [createdNano, Store.find?_eq_some.mpr ⟨member, rfl⟩]
  rfl

/-- With distinct creation times the other criteria of the sort never count. -/
theorem listedBefore_iff (distinct : (d.jobs.map fun job => job.createdAt.unixNano).Nodup)
    {left right : Job} (leftMember : left ∈ d.jobs) (rightMember : right ∈ d.jobs)
    (leftCount rightCount : Nat) :
    Store.listedBefore { right with childCount := rightCount }
      { left with childCount := leftCount } = false ↔
      left.createdAt.unixNano ≤ right.createdAt.unixNano := by
  by_cases sameTime : left.createdAt.unixNano = right.createdAt.unixNano
  · have sameJob := List.inj_on_of_nodup_map distinct leftMember rightMember sameTime
    subst sameJob
    refine iff_of_true ?_ (Int.le_refl _)
    unfold Store.listedBefore
    simp only [ne_eq, not_true_eq_false, if_false]
    split
    · rename_i leftPage rightPage leftFound rightFound
      have samePage : leftPage = rightPage := Option.some.inj (leftFound.symm.trans rightFound)
      simp [samePage]
    · simp
  · simp [Store.listedBefore, Ne.symm sameTime]

theorem inMemory_listJobs (distinct : (d.jobs.map fun job => job.createdAt.unixNano).Nodup)
    (filter : JobFilter) :
    (d.listJobs filter).map Job.withoutTimes =
      ((found d filter).insertionSort fun left right =>
        createdNano d left.id ≤ createdNano d right.id).map (presented id d.contents) := by
  have sameFound : (d.jobs.filter (Store.matchesFilter filter)).map Job.content =
      found d filter := by
    rw [found, Store.contents, List.filter_map]
    rfl
  have sorted : (d.listJobs filter) =
      ((d.jobs.filter (Store.matchesFilter filter)).insertionSort fun left right =>
        createdNano d left.id ≤ createdNano d right.id).map fun job =>
          { job with childCount := d.childCount job.id } := by
    refine (List.map_insertionSort _ _ _ _ ?_).symm
    intro left leftFound right rightFound
    have leftMember := List.mem_of_mem_filter leftFound
    have rightMember := List.mem_of_mem_filter rightFound
    rw [createdNano_eq leftMember, createdNano_eq rightMember, Bool.not_eq_eq_eq_not, Bool.not_true]
    exact (listedBefore_iff distinct leftMember rightMember _ _).symm
  rw [sorted, ← sameFound, ← List.map_insertionSort
    (fun left right : Job => createdNano d left.id ≤ createdNano d right.id), List.map_map,
    List.map_map]
  · apply List.map_congr_left
    intro job _
    exact inMemory_presented job
  · intro left _ right _
    exact Iff.rfl

/-- The two listings are the same exactly when the two orders are opposite and no listed
job has the empty text as its parent. -/
theorem listJobs_iff (same : SameContents db d)
    (distinct : (d.jobs.map fun job => job.createdAt.unixNano).Nodup) (filter : JobFilter) :
    (db.listJobs filter).map Job.withoutTimes = (d.listJobs filter).map Job.withoutTimes ↔
      (∀ job ∈ found d filter, job.parentID ≠ some "") ∧
      (found d filter).Pairwise fun left right =>
        (db.createdText right.id ≤ db.createdText left.id ↔
          createdNano d left.id ≤ createdNano d right.id) := by
  rw [same.sqlite_listJobs, inMemory_listJobs distinct]
  have textTotal : Std.Total fun left right : Job =>
      db.createdText right.id ≤ db.createdText left.id := ⟨fun _ _ => String.le_total _ _⟩
  have textTrans : IsTrans Job fun left right =>
      db.createdText right.id ≤ db.createdText left.id :=
    ⟨fun _ _ _ first second => String.le_trans second first⟩
  have nanoTotal : Std.Total fun left right : Job =>
      createdNano d left.id ≤ createdNano d right.id := ⟨fun _ _ => Int.le_total _ _⟩
  have nanoTrans : IsTrans Job fun left right =>
      createdNano d left.id ≤ createdNano d right.id := ⟨fun _ _ _ => Int.le_trans⟩
  rw [← StableSort.insertionSort_eq_iff]
  constructor
  · intro listed
    have lookUp : ∀ jobs : List Job, jobs ⊆ d.contents →
        jobs.map some = (jobs.map Job.id).map fun key => (d.find? key).map Job.content := by
      intro jobs held
      rw [List.map_map]
      apply List.map_congr_left
      intro content member
      rcases List.mem_map.mp (held member) with ⟨job, isHeld, rfl⟩
      rw [Function.comp_apply, Job.content_id, Store.find?_eq_some.mpr ⟨isHeld, rfl⟩]
      rfl
    have ids := congrArg (List.map Job.id) listed
    rw [List.map_map, List.map_map] at ids
    have sorted := congrArg (List.map fun key => (d.find? key).map Job.content) ids
    have held : ∀ jobs : List Job, jobs.Perm (found d filter) → jobs ⊆ d.contents :=
      fun jobs permuted job member =>
        List.mem_of_mem_filter (permuted.subset member)
    have sameOrder := (lookUp _ (held _ (List.perm_insertionSort _ _))).trans
      (sorted.trans (lookUp _ (held _ (List.perm_insertionSort _ _))).symm)
    have sameSort := List.map_injective_iff.mpr (Option.some_injective Job) sameOrder
    refine ⟨fun job member => ?_, sameSort⟩
    rw [sameSort] at listed
    exact presented_eq_iff.mp
      (List.map_inj_left.mp listed job ((List.mem_insertionSort _).mpr member))
  · intro both
    rw [both.2]
    apply List.map_congr_left
    intro job member
    exact presented_eq_iff.mpr (both.1 job ((List.mem_insertionSort _).mp member))

end SameContents

namespace Drivers

variable {s : Drivers} {call : Call}

theorem call_eq {answer other : Answer} {sqlite : Database} {inMemory : Driver}
    (first : s.sqlite.call call = some (answer, sqlite))
    (second : s.inMemory.call call = some (other, inMemory)) :
    s.call call = some ((answer, other), { sqlite, inMemory }) := by
  rw [Drivers.call, first, second]

/-- The listing condition in terms of what the drivers hold. -/
theorem alike_listJobs_iff (filter : JobFilter) :
    s.alike (.listJobs filter) = true ↔
      (∀ job ∈ SameContents.found s.inMemory.store filter, job.parentID ≠ some "") ∧
      (SameContents.found s.inMemory.store filter).Pairwise fun left right =>
        (s.sqlite.createdText right.id ≤ s.sqlite.createdText left.id ↔
          SameContents.createdNano s.inMemory.store left.id ≤
            SameContents.createdNano s.inMemory.store right.id) := by
  have found : SameContents.found s.inMemory.store filter =
      (s.inMemory.store.jobs.filter (Store.matchesFilter filter)).map Job.content := by
    rw [SameContents.found, Store.contents, List.filter_map]
    rfl
  simp only [alike, found, Bool.and_eq_true, List.all_eq_true, bne_iff_ne, decide_eq_true_eq,
    List.forall_mem_map, List.pairwise_map, Job.content_id, Job.content_parentID]
  refine and_congr Iff.rfl (List.Pairwise.iff_of_mem fun leftFound rightFound => ?_)
  rw [SameContents.createdNano_eq (List.mem_of_mem_filter leftFound),
    SameContents.createdNano_eq (List.mem_of_mem_filter rightFound)]

theorem getJob_iff (same : SameContents s.sqlite s.inMemory.store) (id : String) :
    (s.sqlite.getJob id).map Job.withoutTimes =
        (s.inMemory.store.getJob id).map Job.withoutTimes ↔
      s.alike (.getJob id) = true := by
  rw [SameContents.sqlite_getJob, SameContents.inMemory_getJob, same.contents, Store.contents,
    List.find?_map, alike, Store.find?]
  have sameCondition : ((fun job : Job => job.id == id) ∘ Job.content) =
      fun job : Job => job.id == id := rfl
  rw [sameCondition]
  cases s.inMemory.store.jobs.find? fun job => job.id == id with
  | none => simp
  | some job => simp [presented_eq_iff]

/-- Operations with the same outcome are answered alike. -/
theorem call_of_sameOutcome (same : SameContents s.sqlite s.inMemory.store)
    {left : Except DriverError Database} {right : Except DriverError Store}
    (outcomes : SameOutcome left right)
    (first : s.sqlite.call call = some (s.sqlite.withOutcome left))
    (second : s.inMemory.call call = some (s.inMemory.withOutcome right)) :
    ∃ answer other next, s.call call = some ((answer, other), next) ∧
      observe answer = observe other ∧ SameContents next.sqlite next.inMemory.store := by
  rcases outcomes with ⟨error, rfl, rfl⟩ | ⟨db, d, rfl, rfl, same'⟩
  · exact ⟨_, _, _, call_eq first second, rfl, same⟩
  · exact ⟨_, _, _, call_eq first second, rfl, same'⟩

/-- A call that the drivers do alike succeeds or fails in both. -/
theorem call_of_alike (same : SameContents s.sqlite s.inMemory.store)
    (proper : Proper s.inMemory.store) (isMap : metadataIsMap call = true)
    (alike : s.alike call = true) :
    ∃ answer other next, s.call call = some ((answer, other), next) ∧
      observe answer = observe other ∧ SameContents next.sqlite next.inMemory.store := by
  cases call with
  | createJob job =>
      exact call_of_sameOutcome same (same.createJob (of_decide_eq_true isMap)) rfl rfl
  | updateJob job =>
      exact call_of_sameOutcome same (same.updateJob (of_decide_eq_true isMap)) rfl rfl
  | enqueue job now =>
      rw [Drivers.alike, Bool.and_eq_true, Bool.not_eq_true'] at alike
      have sent : s.inMemory.call (.enqueue job now) = some (.ok [],
          { s.inMemory with
            store := s.inMemory.store.mark job
            queueChan := s.inMemory.queueChan ++ [job.id] }) := by
        rw [Driver.call, Driver.enqueue_of_room alike.1]
        rfl
      have marked : ∃ job' db', s.sqlite.enqueue job now = .ok (job', db') ∧
          SameContents db' (s.inMemory.store.mark job) := by
        cases found : s.inMemory.store.find? job.id with
        | none =>
            exact same.enqueue_fresh now (Store.find?_eq_none.mp found) (of_decide_eq_true isMap)
        | some old =>
            rcases same.enqueue_taken now found with ⟨job', db', enqueued, cleared, _⟩
            rw [found, Option.all_some, beq_iff_eq] at alike
            exact ⟨job', db', enqueued, cleared.mpr alike.2⟩
      rcases marked with ⟨job', db', enqueued, same'⟩
      have stored : s.sqlite.call (.enqueue job now) = some (.ok [], db') := by
        rw [Database.call, enqueued]
        rfl
      exact ⟨_, _, _, call_eq stored sent, rfl, same'⟩
  | cancelJob id now clock =>
      rcases same.cancelJob proper.acyclic id now clock with ⟨left, right, first, second, outcomes⟩
      exact call_of_sameOutcome same outcomes (congrArg (Option.map _) first)
        (congrArg (Option.map _) second)
  | deleteJob id =>
      rcases same.deleteJob proper.acyclic id with ⟨left, right, first, second, outcomes⟩
      exact call_of_sameOutcome same outcomes (congrArg (Option.map _) first)
        (congrArg (Option.map _) second)
  | getJob id =>
      have read := (getJob_iff same id).mpr alike
      refine ⟨_, _, _, call_eq rfl rfl, ?_, same⟩
      cases left : s.sqlite.getJob id <;> cases right : s.inMemory.store.getJob id <;>
        simp_all [Answer.ofFound, observe]
  | listJobs filter =>
      have listed := (same.listJobs_iff proper.createdAt filter).mpr
        ((alike_listJobs_iff filter).mp alike)
      exact ⟨_, _, _, call_eq rfl rfl, congrArg some listed, same⟩

theorem alike_of_agree (same : SameContents s.sqlite s.inMemory.store)
    (proper : Proper s.inMemory.store) (agree : s.Agree call) : s.alike call = true := by
  rcases agree with ⟨answer, other, next, called, observed, contents⟩
  cases call with
  | createJob | updateJob | cancelJob | deleteJob => rfl
  | enqueue job now =>
      rw [Drivers.call] at called
      split at called
      · rename_i first second
        cases called
        rcases Option.map_eq_some_iff.mp second with ⟨inMemory, sent, equal⟩
        cases equal
        rcases Driver.send_eq_some.mp sent with ⟨notFull, rfl⟩
        rw [alike, Bool.and_eq_true, Bool.not_eq_true']
        refine ⟨notFull, ?_⟩
        cases found : s.inMemory.store.find? job.id with
        | none => rfl
        | some old =>
            rcases same.enqueue_taken now found with ⟨job', db', enqueued, _, cleared⟩
            rw [Database.call, enqueued] at first
            cases first
            rw [Option.all_some, beq_iff_eq]
            exact cleared contents
      · contradiction
  | getJob id =>
      cases called
      apply (getJob_iff same id).mp
      cases left : s.sqlite.getJob id <;> cases right : s.inMemory.store.getJob id <;>
        simp_all [Answer.ofFound, observe]
  | listJobs filter =>
      cases called
      exact (alike_listJobs_iff filter).mpr
        ((same.listJobs_iff proper.createdAt filter).mp (Option.some.inj observed))

/-- A decidable case of `Admissible`: afterwards `root` alone has children. -/
def admits (root : String) (s : Drivers) (call : Call) : Bool :=
  metadataIsMap call && (s.call call).all fun (_, next) =>
    (next.inMemory.store.jobs.map fun job => job.createdAt.unixNano).Nodup &&
      next.inMemory.store.jobs.all fun job =>
        job.parentID == none || (job.parentID == some root && job.id != root)

theorem Admissible.ofAdmits {root : String} (admitted : s.admits root call = true) :
    s.Admissible call := by
  simp only [admits, Bool.and_eq_true] at admitted
  refine ⟨admitted.1, fun answers next called => ?_⟩
  have shallow := admitted.2
  rw [called] at shallow
  simp only [Option.all_some, Bool.and_eq_true, decide_eq_true_eq, List.all_eq_true] at shallow
  refine ⟨shallow.1, Acyclic.ofRank (fun id => if id = root then 0 else 1) ?_⟩
  intro job member parent names
  have child := shallow.2 job member
  rw [names] at child
  have isChild : parent = root ∧ job.id ≠ root := by simpa using child
  simp [isChild]

/-- Over every sequence of calls, from empty drivers, that keeps creation times distinct
and parents acyclic and in which the drivers do each call alike, both hold the same jobs.
From there on a call is answered alike, and leaves the same jobs behind, exactly when the
condition holds of it. -/
theorem agree_iff_alike (bufferSize : Nat) {calls : List Call} {last : Drivers}
    (run : Run step (fun s call => s.Admissible call ∧ s.alike call = true) (new bufferSize)
      calls last) :
    ∀ call, last.Admissible call → (last.Agree call ↔ last.alike call = true) := by
  have related : SameContents last.sqlite last.inMemory.store ∧ Proper last.inMemory.store := by
    apply run.invariant fun s => SameContents s.sqlite s.inMemory.store ∧ Proper s.inMemory.store
    · intro s call next allowed related taken
      rcases call_of_alike related.1 related.2 allowed.1.isMap allowed.2 with
        ⟨answer, other, reached, called, _, same⟩
      rw [step, called] at taken
      cases taken
      exact ⟨same, allowed.1.proper _ _ called⟩
    · refine ⟨SameContents.empty, List.nodup_nil, ?_⟩
      exact Acyclic.ofRank (fun _ => 0) fun job member => by cases member
  intro call admissible
  constructor
  · exact alike_of_agree related.1 related.2
  · intro alike
    rcases call_of_alike related.1 related.2 admissible.isMap alike with
      ⟨answer, other, next, called, observed, same⟩
    exact ⟨answer, other, next, called, observed, same.contents⟩

/-- A chapter with one page, listed, cancelled and read again. -/
theorem agree_iff_alike_chapter :
    ∃ last,
      Run step (fun s call => s.Admissible call ∧ s.alike call = true) (new 1)
        [.createJob (Job.child "chapter" none "pull_chapter" "{}" "" [] ⟨0, 0⟩),
          .createJob (Job.child "page" (some "chapter") "pull_page" "{}" ""
            [("page_index", "0")] ⟨1, 0⟩),
          .enqueue (Job.child "page" none "pull_page" "{}" "" [] ⟨1, 0⟩) ⟨2, 0⟩,
          .listJobs { JobFilter.ofStatus "" with parentID := some "chapter" },
          .cancelJob "chapter" ⟨3, 0⟩ fun _ => ⟨3, 0⟩] last ∧
      last.Agree (.getJob "page") := by
  have executed : (Run.execute step (fun s call => s.admits "chapter" call && s.alike call)
      (new 1)
      [.createJob (Job.child "chapter" none "pull_chapter" "{}" "" [] ⟨0, 0⟩),
        .createJob (Job.child "page" (some "chapter") "pull_page" "{}" ""
          [("page_index", "0")] ⟨1, 0⟩),
        .enqueue (Job.child "page" none "pull_page" "{}" "" [] ⟨1, 0⟩) ⟨2, 0⟩,
        .listJobs { JobFilter.ofStatus "" with parentID := some "chapter" },
        .cancelJob "chapter" ⟨3, 0⟩ fun _ => ⟨3, 0⟩]).map
      (fun last => last.admits "chapter" (.getJob "page") && last.alike (.getJob "page")) =
      some true := by decide +kernel
  rcases Option.map_eq_some_iff.mp executed with ⟨last, executed, permitted⟩
  have allowed : ∀ (s : Drivers) call, (s.admits "chapter" call && s.alike call) = true →
      s.Admissible call ∧ s.alike call = true := by
    intro s call permitted
    rw [Bool.and_eq_true] at permitted
    exact ⟨Admissible.ofAdmits permitted.1, permitted.2⟩
  have run := (Run.ofExecute executed).weaken allowed
  have readable := allowed last _ permitted
  exact ⟨last, run, (agree_iff_alike 1 run _ readable.1).mpr readable.2⟩

/-- Two jobs are listed in opposite orders. -/
theorem listJobs_in_opposite_orders :
    ¬ ∀ (bufferSize : Nat) (calls : List Call) (last : Drivers),
      Run step Admissible (new bufferSize) calls last →
        ∀ call, last.Admissible call → last.SameAnswers call := by
  intro claimed
  have executed : (Run.execute step (admits "") (new 1)
      [.createJob (Job.child "first" none "pull_manga" "{}" "" [] ⟨0, 0⟩),
        .createJob (Job.child "second" none "pull_manga" "{}" "" [] ⟨1000000000, 0⟩)]).map
      (fun last => (last.admits "" (.listJobs (.ofStatus "")),
        (last.call (.listJobs (.ofStatus ""))).map fun (answers, _) =>
          decide (observe answers.1 = observe answers.2))) = some (true, some false) := by
    decide +kernel
  rcases Option.map_eq_some_iff.mp executed with ⟨last, executed, observed⟩
  rw [Prod.mk.injEq] at observed
  have run := (Run.ofExecute executed).weaken fun _ _ => Admissible.ofAdmits
  rcases claimed 1 _ last run _ (Admissible.ofAdmits observed.1) with
    ⟨answer, other, next, called, same⟩
  simp [called, same] at observed

end Drivers

end Kiyomi.Queue
