import Kiyomi.Cache.Consistency
import Mathlib.Algebra.GroupWithZero.Nat
import Mathlib.Algebra.Order.BigOperators.Group.List
import Mathlib.Algebra.Order.Group.Int

namespace Kiyomi.Cache

open Go

/-! # What a purge leaves

One purge that nothing disturbs: its workers take up every file of the directory, in any
order and side by side, and what they remove is gone. -/

/-! ## Pruning -/

def totalSize (items : List CacheEntry) : Int := (items.map CacheEntry.size).sum

theorem totalSize_append (front back : List CacheEntry) :
    totalSize (front ++ back) = totalSize front + totalSize back := by
  rw [totalSize, List.map_append, List.sum_append]
  rfl

theorem totalSize_perm {items other : List CacheEntry} (perm : items.Perm other) :
    totalSize items = totalSize other :=
  (perm.map _).sum_eq

theorem totalSize_nonneg {items : List CacheEntry} (sizes : ∀ item ∈ items, 0 ≤ item.size) :
    0 ≤ totalSize items := by
  apply List.sum_nonneg
  intro size member
  rcases List.mem_map.mp member with ⟨item, listed, rfl⟩
  exact sizes item listed

/-- The loop deletes from the front until the rest fits, and no item too many. -/
theorem toDelete_spec {maxBytes : Int} (positive : 0 ≤ maxBytes) (items : List CacheEntry) :
    ∃ rest, items = toDelete maxBytes (totalSize items) items ++ rest ∧
      totalSize rest ≤ maxBytes ∧
      ∀ before item after, toDelete maxBytes (totalSize items) items = before ++ item :: after →
        maxBytes < totalSize (item :: after ++ rest) := by
  induction items with
  | nil => exact ⟨[], rfl, positive, fun before item after parts => by simp [toDelete] at parts⟩
  | cons item items induction =>
      rw [toDelete]
      split
      · rename_i fits
        exact ⟨item :: items, rfl, fits, fun before item after parts => by simp at parts⟩
      · rename_i exceeds
        have less : totalSize (item :: items) - item.size = totalSize items := by
          simp [totalSize]
        rcases induction with ⟨rest, parts, fits, needed⟩
        rw [less]
        refine ⟨rest, congrArg (item :: ·) parts, fits, fun before other after split => ?_⟩
        cases before with
        | nil =>
            rw [List.nil_append, List.cons.injEq] at split
            rw [← split.1, ← split.2, List.cons_append, ← parts]
            exact not_le.mp exceeds
        | cons first before =>
            rw [List.cons_append, List.cons.injEq] at split
            exact needed before other after split.2

/-- What the pruning deletes of the active items. -/
structure Pruned (maxBytes : Int) (items deleted kept : List CacheEntry) : Prop where
  perm : (deleted ++ kept).Perm items
  fits : totalSize kept ≤ maxBytes
  oldest : ∀ item ∈ deleted, ∀ other ∈ kept,
    item.lastAccessed.notAfter other.lastAccessed = true
  needed : ∀ item ∈ deleted, maxBytes <
    totalSize (items.filter fun other => item.lastAccessed.notAfter other.lastAccessed)

theorem prune_spec {cache : DiskCache} (positive : 0 < cache.maxBytes) {items : List CacheEntry}
    (sizes : ∀ item ∈ items, 0 ≤ item.size) :
    ∃ kept, Pruned cache.maxBytes items (cache.prune items) kept := by
  unfold DiskCache.prune
  simp only [positive, decide_true, Bool.true_and, decide_eq_true_eq]
  split
  · let older : CacheEntry → CacheEntry → Prop :=
      fun i j => i.lastAccessed.notAfter j.lastAccessed = true
    have total : Std.Total older := ⟨fun i j => by
      simp only [older, Time.notAfter, decide_eq_true_eq]
      exact le_total _ _⟩
    have transitive : IsTrans CacheEntry older := ⟨fun i j k first second => by
      simp only [older, Time.notAfter, decide_eq_true_eq] at first second ⊢
      exact first.trans second⟩
    have sorted : (items.insertionSort older).Pairwise older := List.pairwise_insertionSort _ _
    have permuted : (items.insertionSort older).Perm items := List.perm_insertionSort _ items
    have total : (items.map CacheEntry.size).sum = totalSize (items.insertionSort older) :=
      (totalSize_perm permuted).symm
    rw [total]
    rcases toDelete_spec positive.le (items.insertionSort older) with ⟨kept, parts, fits, needed⟩
    refine ⟨kept, ?_, fits, ?_, ?_⟩
    · exact parts ▸ permuted
    · rw [parts, List.pairwise_append] at sorted
      exact sorted.2.2
    · intro item member
      rcases List.append_of_mem member with ⟨before, after, split⟩
      have later : ∀ other ∈ item :: after ++ kept, older item other := by
        rw [parts, split, List.append_assoc, List.pairwise_append] at sorted
        have tail := List.pairwise_cons.mp sorted.2.1
        rw [List.cons_append, List.forall_mem_cons]
        exact ⟨decide_eq_true (le_refl _), tail.1⟩
      have filtered : (items.filter fun other =>
          item.lastAccessed.notAfter other.lastAccessed).Perm
          ((before.filter fun other => item.lastAccessed.notAfter other.lastAccessed) ++
            (item :: after ++ kept)) := by
        refine (permuted.symm.filter _).trans (List.Perm.of_eq ?_)
        rw [parts, split, List.append_assoc, List.filter_append]
        exact congrArg _ (List.filter_eq_self.mpr later)
      have more : 0 ≤ totalSize (before.filter fun other =>
          item.lastAccessed.notAfter other.lastAccessed) := by
        refine totalSize_nonneg fun other isIn => sizes other (permuted.subset ?_)
        rw [parts, split]
        exact List.mem_append_left _ (List.mem_append_left _ (List.mem_of_mem_filter isIn))
      have rest := needed before item after split
      rw [totalSize_perm filtered, totalSize_append]
      omega
  · rename_i fits
    exact ⟨items, List.Perm.refl _, not_lt.mp fits, fun _ member => absurd member List.not_mem_nil,
      fun _ member => absurd member List.not_mem_nil⟩

/-! ## What the directory holds -/

namespace Files

/-- What a purge makes of an image. The time of the file stands for a time that its sidecar
does not tell, as does the time of creation for that of the last access; a sidecar that is
missing or broken tells nothing. -/
def entryOf (files : Files) (hash : String) (info : Image) : CacheEntry :=
  let found := (files.readSidecar hash {}).getD .zero
  let createdAt := if found.createdAt.isZero then info.modTime else found.createdAt
  { hash, size := info.size, createdAt
    lastAccessed := if found.lastAccessed.isZero then createdAt else found.lastAccessed }

/-- The images among the listed names. -/
def entries (files : Files) (listing : List String) : List CacheEntry :=
  listing.filterMap fun hash => (files.images hash).map (files.entryOf hash)

end Files

/-- The age of an image exceeds the time to live. -/
def DiskCache.outlived (cache : DiskCache) (now : Time) (entry : CacheEntry) : Bool :=
  cache.ttl < now.sub entry.createdAt

/-- The files that a purge leaves of those it found, and the bytes that it reports. -/
structure Purged (cache : DiskCache) (now : Time) (found left : Files) (listing : List String)
    (bytes : Int) : Prop where
  /-- What is left has been there, and is not too old. -/
  fresh : ∀ hash info, left.images hash = some info → found.images hash = some info ∧
    cache.outlived now (found.entryOf hash info) = false
  /-- What is left fits the limit. -/
  fits : totalSize (found.entries (listing.filter fun hash => (left.images hash).isSome)) ≤
    cache.maxBytes
  expired : ∀ hash info, found.images hash = some info →
    cache.outlived now (found.entryOf hash info) = true → left.images hash = none
  /-- An image that is not too old goes only if it exceeds the limit, with those accessed no
  earlier. -/
  needed : ∀ hash info, found.images hash = some info →
    cache.outlived now (found.entryOf hash info) = false → left.images hash = none →
    cache.maxBytes < totalSize ((found.entries listing).filter fun other =>
      !cache.outlived now other &&
        (found.entryOf hash info).lastAccessed.notAfter other.lastAccessed)
  /-- None goes that was accessed later than one that is left. -/
  oldest : ∀ hash info other info', found.images hash = some info →
    cache.outlived now (found.entryOf hash info) = false → left.images hash = none →
    left.images other = some info' →
    (found.entryOf hash info).lastAccessed.notAfter (found.entryOf other info').lastAccessed = true
  sidecars : ∀ hash, (found.images hash).isSome = true → left.images hash = none →
    left.sidecars hash = none
  bytes : bytes = totalSize (found.entries (listing.filter fun hash => (left.images hash).isNone))

/-! ## The run of a purge -/

/-- The names of the images that the workers take up. -/
def visitedImages (actions : List Action) : List String :=
  actions.filterMap fun
    | .visitImage _ hash => some hash
    | _ => none

/-- Only the thread of the purge runs, and no operation on a file fails. -/
def Undisturbed (thread : Nat) : State → Action → Prop
  | _, .call _ _ => False
  | _, .advance own answer => own = thread ∧ answer.fails = false
  | _, .visitImage own _ => own = thread
  | _, .visitSidecar own _ => own = thread
  | _, .visitTemp own _ => own = thread

instance (thread : Nat) (s : State) : (action : Action) → Decidable (Undisturbed thread s action)
  | .call _ _ => inferInstanceAs (Decidable False)
  | .advance own answer => inferInstanceAs (Decidable (own = thread ∧ answer.fails = false))
  | .visitImage own _ | .visitSidecar own _ | .visitTemp own _ =>
      inferInstanceAs (Decidable (own = thread))

/-- The listing has every image of the directory once; a file has no negative size. -/
structure Listing (files : Files) (listing : List String) : Prop where
  once : listing.Nodup
  images : ∀ hash, hash ∈ listing ↔ (files.images hash).isSome = true
  sizes : ∀ hash info, files.images hash = some info → 0 ≤ info.size

namespace Files

variable {files : Files} {answer : Answer}

theorem images_removeImage (succeeds : answer.fails = false) (hash other : String) :
    (files.removeImage hash answer).images other =
      if other = hash then none else files.images other := by
  rw [removeImage, succeeds, if_neg Bool.false_ne_true]
  exact Function.update_apply ..

theorem sidecars_removeImage (hash : String) :
    (files.removeImage hash answer).sidecars = files.sidecars := by
  unfold removeImage
  split <;> rfl

theorem sidecars_removeSidecar (succeeds : answer.fails = false) (hash other : String) :
    (files.removeSidecar hash answer).sidecars other =
      if other = hash then none else files.sidecars other := by
  rw [removeSidecar, succeeds, if_neg Bool.false_ne_true]
  exact Function.update_apply ..

theorem images_removeSidecar (hash : String) :
    (files.removeSidecar hash answer).images = files.images := by
  unfold removeSidecar
  split <;> rfl

theorem removeTemp_other (temp : Nat) :
    (files.removeTemp temp answer).images = files.images ∧
      (files.removeTemp temp answer).sidecars = files.sidecars := by
  unfold removeTemp
  split <;> exact ⟨rfl, rfl⟩

end Files

/-- The image that a task of the scan is about. -/
def Task.subject : Task → Option String
  | .image hash => some hash
  | .readFile hash _ _ => some hash
  | .removeExpired hash _ => some hash
  | .removeExpiredSidecar hash _ => some hash
  | _ => none

section Scan

variable {cache : DiskCache} {now : Time} {found files files' : Files}
  {visited dropped : List String} {purge : Purge}

/-- An image of the directory that is too old. -/
def IsExpired (cache : DiskCache) (now : Time) (found : Files) (hash : String) (size : Int) : Prop :=
  ∃ info, found.images hash = some info ∧ info.size = size ∧
    cache.outlived now (found.entryOf hash info) = true

/-- What a task of the scan has learned so far. -/
def Task.Fits (cache : DiskCache) (now : Time) (found files : Files) : Task → Prop
  | .image _ => True
  | .readFile hash size modTime => ∃ info, found.images hash = some info ∧ info.size = size ∧
      info.modTime = modTime
  | .removeExpired hash size => IsExpired cache now found hash size
  | .removeExpiredSidecar hash size =>
      IsExpired cache now found hash size ∧ files.images hash = none
  | .sidecar _ => True
  | .sidecarInfo hash => files.images hash = none
  | .removeOrphan hash => files.images hash = none
  | .temp _ => True
  | .removeTemp _ => True
  | .remove _ => False
  | .removeSidecar _ => False

/-- An entry tells of an image of the directory that is not too old. -/
def IsActive (cache : DiskCache) (now : Time) (found : Files) (item : CacheEntry) : Prop :=
  ∃ info, found.images item.hash = some info ∧ item = found.entryOf item.hash info ∧
    cache.outlived now item = false

/-- An image that was too old has gone with its sidecar. -/
def IsGone (cache : DiskCache) (now : Time) (found files : Files) (hash : String) : Prop :=
  (∃ size, IsExpired cache now found hash size) ∧ files.images hash = none ∧
    files.sidecars hash = none

/-- While the workers scan, every image that has been taken up is with a task, among the
active items or `dropped`. -/
structure Scanning (cache : DiskCache) (now : Time) (found : Files) (visited dropped : List String)
    (files : Files) (purge : Purge) : Prop where
  scanning : purge.pruning = false
  started : purge.now = now
  accounts : (purge.tasks.filterMap Task.subject ++ purge.activeItems.map CacheEntry.hash ++
    dropped).Perm visited
  tasks : ∀ task ∈ purge.tasks, task.Fits cache now found files
  active : ∀ item ∈ purge.activeItems, IsActive cache now found item
  gone : ∀ hash ∈ dropped, IsGone cache now found files hash
  total : purge.totalPurged = totalSize (found.entries dropped)
  images : ∀ hash, files.images hash = found.images hash ∨ files.images hash = none
  kept : ∀ hash, files.images hash = none → found.images hash ≠ none →
    hash ∈ dropped ∨ ∃ size, Task.removeExpiredSidecar hash size ∈ purge.tasks
  sidecars : ∀ hash, files.images hash ≠ none → files.sidecars hash = found.sidecars hash

theorem Task.Fits.shrink {task : Task} (fits : task.Fits cache now found files)
    (shrinks : Files.Shrinks files files') : task.Fits cache now found files' := by
  have stays {hash : String} (absent : files.images hash = none) : files'.images hash = none := by
    rcases shrinks.images hash with same | removed
    · rw [same, absent]
    · exact removed
  cases task with
  | removeExpiredSidecar hash size => exact ⟨fits.1, stays fits.2⟩
  | sidecarInfo hash => exact stays fits
  | removeOrphan hash => exact stays fits
  | image | readFile | removeExpired | sidecar | temp | removeTemp | remove | removeSidecar =>
      exact fits

theorem IsGone.shrink {hash : String} (isGone : IsGone cache now found files hash)
    (shrinks : Files.Shrinks files files') : IsGone cache now found files' hash := by
  refine ⟨isGone.1, ?_, ?_⟩
  · rcases shrinks.images hash with same | removed
    · rw [same, isGone.2.1]
    · exact removed
  · rcases shrinks.sidecars hash with same | removed
    · rw [same, isGone.2.2]
    · exact removed

/-- A task becomes `next`, and what it is about is accounted for. -/
theorem Scanning.advance (scanning : Scanning cache now found visited dropped files purge)
    {before next after : List Task} {task : Task} (parts : purge.tasks = before ++ task :: after)
    {entry : Option CacheEntry} {dropped' : List String} {bytes : Int}
    (accounts : (next.filterMap Task.subject ++ entry.toList.map CacheEntry.hash ++ dropped').Perm
      (task.subject.toList ++ dropped))
    (fits : ∀ task ∈ next, task.Fits cache now found files')
    (active : ∀ item ∈ entry.toList, IsActive cache now found item)
    (isGone : ∀ hash ∈ dropped', hash ∉ dropped → IsGone cache now found files' hash)
    (total : totalSize (found.entries dropped') = totalSize (found.entries dropped) + bytes)
    (shrinks : Files.Shrinks files files') (stay : ∀ hash ∈ dropped, hash ∈ dropped')
    (kept : ∀ hash, files'.images hash = none →
      files.images hash ≠ none ∨ (∃ size, task = .removeExpiredSidecar hash size) →
      hash ∈ dropped' ∨ ∃ size, Task.removeExpiredSidecar hash size ∈ next)
    (sidecars : ∀ hash, files'.images hash ≠ none → files'.sidecars hash = files.sidecars hash) :
    Scanning cache now found visited dropped' files'
      { purge with
        tasks := before ++ next ++ after
        activeItems := purge.activeItems ++ entry.toList
        totalPurged := purge.totalPurged + bytes } := by
  have others : ∀ task ∈ before ++ after, task.Fits cache now found files' := by
    intro other member
    refine (scanning.tasks other ?_).shrink shrinks
    rw [parts]
    rcases List.mem_append.mp member with left | right
    · exact List.mem_append_left _ left
    · exact List.mem_append_right _ (List.mem_cons_of_mem _ right)
  refine
    { scanning := scanning.scanning
      started := scanning.started
      accounts := ?_
      tasks := fun other member => ?_
      active := fun item member => ?_
      gone := fun hash member => ?_
      total := ?_
      images := fun hash => ?_
      kept := fun hash absent present => ?_
      sidecars := fun hash present => ?_ }
  · refine List.Perm.trans ?_ scanning.accounts
    rw [parts, List.perm_iff_count]
    intro hash
    have moved := accounts.count_eq hash
    have subjects : (task :: after).filterMap Task.subject =
        task.subject.toList ++ after.filterMap Task.subject := by
      rw [List.filterMap_cons]
      cases task.subject <;> rfl
    simp only [List.filterMap_append, List.map_append, List.count_append, subjects] at moved ⊢
    omega
  · rw [List.append_assoc, List.mem_append, List.mem_append] at member
    rcases member with left | isNext | right
    · exact others other (List.mem_append_left _ left)
    · exact fits other isNext
    · exact others other (List.mem_append_right _ right)
  · rcases List.mem_append.mp member with old | new
    · exact scanning.active item old
    · exact active item new
  · by_cases old : hash ∈ dropped
    · exact (scanning.gone hash old).shrink shrinks
    · exact isGone hash member old
  · rw [total, scanning.total]
  · rcases shrinks.images hash with same | removed
    · rw [same]
      exact scanning.images hash
    · exact .inr removed
  · have isNext : hash ∈ dropped' ∨ (∃ size, Task.removeExpiredSidecar hash size ∈ next) →
        hash ∈ dropped' ∨
          ∃ size, Task.removeExpiredSidecar hash size ∈ before ++ next ++ after := by
      rintro (isDropped | ⟨size, member⟩)
      · exact .inl isDropped
      · exact .inr ⟨size, List.mem_append_left _ (List.mem_append_right _ member)⟩
    by_cases was : files.images hash = none
    · rcases scanning.kept hash was present with isDropped | ⟨size, member⟩
      · exact .inl (stay hash isDropped)
      · rw [parts, List.mem_append, List.mem_cons] at member
        rcases member with left | same | right
        · exact .inr ⟨size, List.mem_append_left _ (List.mem_append_left _ left)⟩
        · exact isNext (kept hash absent (.inr ⟨size, same.symm⟩))
        · exact .inr ⟨size, List.mem_append_right _ right⟩
    · exact isNext (kept hash absent (.inl was))
  · rw [sidecars hash present]
    refine scanning.sidecars hash fun absent => present ?_
    rcases shrinks.images hash with same | removed
    · rw [same, absent]
    · exact removed

theorem subjects_cons (task : Task) (tasks : List Task) :
    (task :: tasks).filterMap Task.subject =
      task.subject.toList ++ tasks.filterMap Task.subject := by
  rw [List.filterMap_cons]
  cases task.subject <;> rfl

/-- An image stays in place until its task removes it. -/
theorem Scanning.intact (scanning : Scanning cache now found visited dropped files purge)
    (once : visited.Nodup) {before after : List Task} {task : Task}
    (parts : purge.tasks = before ++ task :: after) {hash : String}
    (subject : task.subject = some hash)
    (notYet : ∀ size, task ≠ .removeExpiredSidecar hash size) :
    files.images hash = found.images hash := by
  rcases scanning.images hash with same | removed
  · exact same
  by_contra differs
  have present : found.images hash ≠ none := fun absent => differs (removed.trans absent.symm)
  have single := List.nodup_iff_count_le_one.mp once hash
  rw [← scanning.accounts.count_eq hash, parts, List.filterMap_append, subjects_cons, subject,
    Option.toList_some, List.count_append, List.count_append, List.count_append,
    List.singleton_append, List.count_cons_self] at single
  rcases scanning.kept hash removed present with isDropped | ⟨size, member⟩
  · have twice := List.count_pos_iff.mpr isDropped
    omega
  · have listed {tasks : List Task} (member : Task.removeExpiredSidecar hash size ∈ tasks) :
        0 < (tasks.filterMap Task.subject).count hash :=
      List.count_pos_iff.mpr (List.mem_filterMap.mpr ⟨_, member, rfl⟩)
    rw [parts, List.mem_append, List.mem_cons] at member
    rcases member with left | same | right
    · have twice := listed left
      omega
    · exact notYet size same.symm
    · have twice := listed right
      omega

theorem Scanning.subject_present (scanning : Scanning cache now found visited dropped files purge)
    (present : ∀ hash ∈ visited, found.images hash ≠ none) {before after : List Task} {task : Task}
    (parts : purge.tasks = before ++ task :: after) {hash : String}
    (subject : task.subject = some hash) : found.images hash ≠ none := by
  refine present hash (scanning.accounts.subset ?_)
  rw [parts, List.filterMap_append, subjects_cons, subject]
  simp

/-- A step of a worker that changes no image. -/
theorem Scanning.proceed (scanning : Scanning cache now found visited dropped files purge)
    {before next after : List Task} {task : Task} (parts : purge.tasks = before ++ task :: after)
    (subject : next.filterMap Task.subject = task.subject.toList)
    (fits : ∀ task ∈ next, task.Fits cache now found files')
    (notYet : ∀ hash size, task ≠ .removeExpiredSidecar hash size)
    (images : files'.images = files.images)
    (sidecars : ∀ hash, files'.sidecars hash = files.sidecars hash ∨
      files'.sidecars hash = none ∧ files.images hash = none) :
    Scanning cache now found visited dropped files'
      { purge with tasks := before ++ next ++ after } := by
  have moved := @Scanning.advance cache now found files files' visited dropped purge scanning
    before next after task parts none dropped 0 (by simp [subject]) fits (by simp)
    (fun hash isDropped notDropped => absurd isDropped notDropped) (by simp)
    ⟨fun hash => .inl (congrFun images hash), fun hash => (sidecars hash).imp id And.left⟩
    (fun _ => id) ?_ ?_
  · simpa using moved
  · rintro hash absent (present | ⟨size, same⟩)
    · exact absurd ((congrFun images hash).symm.trans absent) present
    · exact absurd same (notYet hash size)
  · intro hash present
    rcases sidecars hash with same | ⟨_, absent⟩
    · exact same
    · exact absurd ((congrFun images hash).trans absent) present

/-- The purge after a step of one worker. -/
def Purge.after (purge : Purge) (before after : List Task) : Processed → Purge
  | .more task => { purge with tasks := before ++ task :: after }
  | .done entry purged =>
      { purge with
        tasks := before ++ after
        activeItems := purge.activeItems ++ entry.toList
        totalPurged := purge.totalPurged + purged }

theorem Scanning.more (scanning : Scanning cache now found visited dropped files purge)
    {before after : List Task} {task next : Task} (parts : purge.tasks = before ++ task :: after)
    (subject : next.subject = task.subject) (fits : next.Fits cache now found files')
    (notYet : ∀ hash size, task ≠ .removeExpiredSidecar hash size)
    (images : files'.images = files.images)
    (sidecars : ∀ hash, files'.sidecars hash = files.sidecars hash ∨
      files'.sidecars hash = none ∧ files.images hash = none) :
    Scanning cache now found visited dropped files' (purge.after before after (.more next)) := by
  have moved := @Scanning.proceed cache now found files files' visited dropped purge scanning
    before [next] after task parts (by rw [subjects_cons, subject]; simp) (by simpa using fits)
    notYet images sidecars
  simpa [Purge.after] using moved

theorem Scanning.done (scanning : Scanning cache now found visited dropped files purge)
    {before after : List Task} {task : Task} (parts : purge.tasks = before ++ task :: after)
    (subject : task.subject = none) (images : files'.images = files.images)
    (sidecars : ∀ hash, files'.sidecars hash = files.sidecars hash ∨
      files'.sidecars hash = none ∧ files.images hash = none) :
    Scanning cache now found visited dropped files' (purge.after before after (.done none 0)) := by
  have moved := @Scanning.proceed cache now found files files' visited dropped purge scanning
    before [] after task parts (by rw [subject]; rfl) (by simp)
    (fun hash size same => by rw [same] at subject; cases subject) images sidecars
  simpa [Purge.after] using moved

/-- The step of a worker while the purge scans. -/
theorem Scanning.next (scanning : Scanning cache now found visited dropped files purge)
    (once : visited.Nodup) (present : ∀ hash ∈ visited, found.images hash ≠ none)
    (positive : 0 < cache.ttl) {before after : List Task} {task : Task}
    (parts : purge.tasks = before ++ task :: after) {answer : Answer}
    (succeeds : answer.fails = false) :
    ∃ dropped', Scanning cache now found visited dropped' (task.next cache now files answer).2
      (purge.after before after (task.next cache now files answer).1) := by
  have fits := scanning.tasks task (parts ▸ List.mem_append_right _ List.mem_cons_self)
  have same : ∀ hash, files.sidecars hash = files.sidecars hash ∨
      files.sidecars hash = none ∧ files.images hash = none := fun _ => .inl rfl
  cases task with
  | image hash =>
      have isThere := scanning.intact once parts rfl (by simp)
      have isFound := scanning.subject_present present parts rfl
      rw [← isThere] at isFound
      rcases Option.ne_none_iff_exists'.mp isFound with ⟨info, image⟩
      simp only [Task.next, image, succeeds]
      have learned : Task.Fits cache now found files (.readFile hash info.size info.modTime) :=
        ⟨info, isThere.symm.trans image, rfl, rfl⟩
      exact ⟨dropped, scanning.more parts rfl learned (by simp) rfl same⟩
  | readFile hash size modTime =>
      rcases fits with ⟨info, image, rfl, rfl⟩
      have isThere := scanning.intact once parts rfl (by simp)
      have isSome : files.images hash ≠ none := by
        rw [isThere, image]
        exact Option.some_ne_none _
      have sidecar : files.readSidecar hash answer = found.readSidecar hash {} := by
        simp [Files.readSidecar, succeeds, scanning.sidecars hash isSome]
      have outcome : (Task.readFile hash info.size info.modTime).next cache now files answer =
          if cache.outlived now (found.entryOf hash info) then
            (.more (.removeExpired hash info.size), files)
          else (.done (some (found.entryOf hash info)) 0, files) := by
        simp only [Task.next, sidecar, positive, decide_true, Bool.true_and]
        rfl
      rw [outcome]
      split
      · rename_i old
        have learned : Task.Fits cache now found files (.removeExpired hash info.size) :=
          ⟨info, image, rfl, old⟩
        exact ⟨dropped, scanning.more parts rfl learned (by simp) rfl same⟩
      · rename_i young
        have isActive : IsActive cache now found (found.entryOf hash info) :=
          ⟨info, image, rfl, Bool.eq_false_iff.mpr young⟩
        have moved := @Scanning.advance cache now found files files visited dropped purge scanning
          before [] after _ parts (some (found.entryOf hash info)) dropped 0 (.refl _) (by simp)
          (by simpa using isActive) (fun _ isDropped notDropped => absurd isDropped notDropped)
          (by simp) (.refl files) (fun _ => id) ?_ fun _ _ => rfl
        · refine ⟨dropped, ?_⟩
          simpa [Purge.after] using moved
        · rintro other absent (isThere | ⟨size, isSame⟩)
          · exact absurd absent isThere
          · cases isSame
  | removeExpired hash size =>
      have moved := @Scanning.advance cache now found files (files.removeImage hash answer) visited
        dropped purge scanning before [.removeExpiredSidecar hash size] after _ parts none dropped 0
        (.refl _) ?_ (by simp) (fun _ isDropped notDropped => absurd isDropped notDropped) (by simp)
        (Files.shrinks_removeImage files hash answer) (fun _ => id) ?_ ?_
      · refine ⟨dropped, ?_⟩
        simpa [Purge.after, Task.next] using moved
      · rw [List.forall_mem_singleton]
        refine ⟨fits, ?_⟩
        rw [Files.images_removeImage succeeds, if_pos rfl]
      · rintro other absent (isThere | ⟨size, isSame⟩)
        · rw [Files.images_removeImage succeeds] at absent
          split at absent
          · rename_i isHash
            exact .inr ⟨size, isHash ▸ List.mem_singleton_self _⟩
          · exact absurd absent isThere
        · cases isSame
      · intro other _
        rw [Files.sidecars_removeImage]
  | removeExpiredSidecar hash size =>
      rcases fits with ⟨isExpired, isRemoved⟩
      have moved := @Scanning.advance cache now found files (files.removeSidecar hash answer)
        visited dropped purge scanning before [] after _ parts none (hash :: dropped) size
        (.refl _) (by simp) (by simp) ?_ ?_ (Files.shrinks_removeSidecar files hash answer)
        (fun _ => List.mem_cons_of_mem _) ?_ ?_
      · refine ⟨hash :: dropped, ?_⟩
        simpa [Purge.after, Task.next] using moved
      · intro other member notDropped
        have isHash := (List.mem_cons.mp member).resolve_right notDropped
        subst isHash
        refine ⟨⟨size, isExpired⟩, ?_, ?_⟩
        · rw [Files.images_removeSidecar, isRemoved]
        · rw [Files.sidecars_removeSidecar succeeds, if_pos rfl]
      · rcases isExpired with ⟨info, image, rfl, _⟩
        simp [Files.entries, image, totalSize, Files.entryOf, Int.add_comm]
      · rintro other absent (isThere | ⟨size, isSame⟩)
        · rw [Files.images_removeSidecar] at absent
          exact absurd absent isThere
        · cases isSame
          exact .inl List.mem_cons_self
      · intro other isThere
        rw [Files.images_removeSidecar] at isThere
        rw [Files.sidecars_removeSidecar succeeds, if_neg]
        rintro rfl
        exact isThere isRemoved
  | sidecar hash =>
      simp only [Task.next]
      split
      · rename_i absent
        refine ⟨dropped, scanning.more parts rfl ?_ (by simp) rfl same⟩
        change files.images hash = none
        simpa [succeeds] using absent
      · exact ⟨dropped, scanning.done parts rfl rfl same⟩
  | sidecarInfo hash =>
      simp only [Task.next]
      split
      · split
        · exact ⟨dropped, scanning.more parts rfl fits (by simp) rfl same⟩
        · exact ⟨dropped, scanning.done parts rfl rfl same⟩
      · exact ⟨dropped, scanning.done parts rfl rfl same⟩
  | removeOrphan hash =>
      refine ⟨dropped, scanning.done parts rfl (Files.images_removeSidecar hash) fun other => ?_⟩
      simp only [Task.next, Files.sidecars_removeSidecar succeeds]
      split
      · rename_i isHash
        exact .inr ⟨rfl, isHash ▸ fits⟩
      · exact .inl rfl
  | temp name =>
      simp only [Task.next]
      split
      · split
        · exact ⟨dropped, scanning.more parts rfl trivial (by simp) rfl same⟩
        · exact ⟨dropped, scanning.done parts rfl rfl same⟩
      · exact ⟨dropped, scanning.done parts rfl rfl same⟩
  | removeTemp name =>
      have others := @Files.removeTemp_other files answer name
      exact ⟨dropped, scanning.done parts rfl others.1 fun hash => .inl (congrFun others.2 hash)⟩
  | remove item => exact fits.elim
  | removeSidecar item => exact fits.elim

/-! ## Evicting -/

variable {evicted kept : List CacheEntry}

/-- The workers delete what the pruning has chosen; the other images stay as they are. -/
structure Evicting (cache : DiskCache) (now : Time) (found : Files) (visited dropped : List String)
    (evicted kept : List CacheEntry) (files : Files) (purge : Purge) : Prop where
  pruning : purge.pruning = true
  accounts : (purge.activeItems.map CacheEntry.hash ++ dropped).Perm visited
  active : ∀ item ∈ purge.activeItems, IsActive cache now found item
  gone : ∀ hash ∈ dropped, IsGone cache now found files hash
  pruned : Pruned cache.maxBytes purge.activeItems evicted kept
  tasks : ∀ task ∈ purge.tasks, ∃ item ∈ evicted, task = .remove item ∨
    task = .removeSidecar item ∧ files.images item.hash = none
  deleted : ∀ item ∈ evicted, Task.remove item ∈ purge.tasks ∨
    files.images item.hash = none ∧
      (Task.removeSidecar item ∈ purge.tasks ∨ files.sidecars item.hash = none)
  images : ∀ hash, hash ∉ dropped → hash ∉ evicted.map CacheEntry.hash →
    files.images hash = found.images hash
  total : purge.totalPurged = totalSize (found.entries dropped) + totalSize evicted

/-- The purge after its scan. -/
def Purge.prune (cache : DiskCache) (purge : Purge) : Purge :=
  { purge with
    pruning := true
    tasks := (cache.prune purge.activeItems).map .remove
    totalPurged := purge.totalPurged + ((cache.prune purge.activeItems).map CacheEntry.size).sum }

theorem Scanning.prune (scanning : Scanning cache now found visited dropped files purge)
    (limit : 0 < cache.maxBytes) (listing : Listing found visited) (idle : purge.tasks = []) :
    ∃ evicted kept, Evicting cache now found visited dropped evicted kept files
      (purge.prune cache) := by
  have sizes : ∀ item ∈ purge.activeItems, 0 ≤ item.size := by
    intro item member
    rcases scanning.active item member with ⟨info, image, isEntry, _⟩
    rw [isEntry]
    exact listing.sizes item.hash info image
  rcases prune_spec limit sizes with ⟨kept, pruned⟩
  have accounts := scanning.accounts
  rw [idle] at accounts
  refine ⟨_, kept,
    { pruning := rfl
      accounts
      active := scanning.active
      gone := scanning.gone
      pruned
      tasks := fun task member => ?_
      deleted := fun item member => .inl (List.mem_map_of_mem member)
      images := fun hash notDropped _ => ?_
      total := ?_ }⟩
  · rcases List.mem_map.mp member with ⟨item, isDeleted, rfl⟩
    exact ⟨item, isDeleted, .inl rfl⟩
  · rcases scanning.images hash with same | removed
    · exact same
    by_contra differs
    have present : found.images hash ≠ none := fun absent => differs (removed.trans absent.symm)
    rcases scanning.kept hash removed present with isDropped | ⟨size, member⟩
    · exact notDropped isDropped
    · rw [idle] at member
      contradiction
  · rw [Purge.prune, scanning.total]
    rfl

theorem Evicting.next
    (evicting : Evicting cache now found visited dropped evicted kept files purge)
    {before after : List Task} {task : Task} (parts : purge.tasks = before ++ task :: after)
    {answer : Answer} (succeeds : answer.fails = false) :
    Evicting cache now found visited dropped evicted kept (task.next cache purge.now files answer).2
      (purge.after before after (task.next cache purge.now files answer).1) := by
  have tasks {other : Task} : other ∈ purge.tasks ↔ other = task ∨ other ∈ before ++ after := by
    rw [parts, List.mem_append, List.mem_cons, List.mem_append]
    exact or_left_comm
  rcases evicting.tasks task (tasks.mpr (.inl rfl)) with
    ⟨item, isEvicted, rfl | ⟨rfl, isRemoved⟩⟩
  · have shrinks := Files.shrinks_removeImage files item.hash answer
    have imagesOf := @Files.images_removeImage files answer succeeds item.hash
    have next {other : Task} : other ∈ before ++ .removeSidecar item :: after ↔
        other = .removeSidecar item ∨ other ∈ before ++ after := by
      rw [List.mem_append, List.mem_cons, List.mem_append]
      exact or_left_comm
    refine
      { pruning := evicting.pruning
        accounts := evicting.accounts
        active := evicting.active
        gone := fun hash member => (evicting.gone hash member).shrink shrinks
        pruned := evicting.pruned
        tasks := fun other member => ?_
        deleted := fun other member => ?_
        images := fun hash notDropped notEvicted => ?_
        total := evicting.total }
    · rcases next.mp member with rfl | old
      · exact ⟨item, isEvicted, .inr ⟨rfl, by simp only [Task.next, imagesOf, if_true]⟩⟩
      · rcases evicting.tasks other (tasks.mpr (.inr old)) with ⟨item', isEvicted', now | ⟨now, absent⟩⟩
        · exact ⟨item', isEvicted', .inl now⟩
        · refine ⟨item', isEvicted', .inr ⟨now, ?_⟩⟩
          simp only [Task.next, imagesOf, absent, ite_self]
    · rcases evicting.deleted other member with coming | ⟨absent, rest⟩
      · rcases tasks.mp coming with same | old
        · cases same
          exact .inr ⟨by simp only [Task.next, imagesOf, if_true], .inl (next.mpr (.inl rfl))⟩
        · exact .inl (next.mpr (.inr old))
      · refine .inr ⟨by simp only [Task.next, imagesOf, absent, ite_self], ?_⟩
        rcases rest with coming | removed
        · rcases tasks.mp coming with same | old
          · cases same
          · exact .inl (next.mpr (.inr old))
        · refine .inr ?_
          simp only [Task.next, Files.sidecars_removeImage, removed]
    · have differs : hash ≠ item.hash := by
        rintro rfl
        exact notEvicted (List.mem_map_of_mem isEvicted)
      simp only [Task.next, imagesOf, if_neg differs]
      exact evicting.images hash notDropped notEvicted
  · have shrinks := Files.shrinks_removeSidecar files item.hash answer
    have imagesOf := @Files.images_removeSidecar files answer item.hash
    have sidecarsOf := @Files.sidecars_removeSidecar files answer succeeds item.hash
    have activeItems : (purge.after before after (.done none 0)).activeItems = purge.activeItems :=
      List.append_nil _
    refine
      { pruning := evicting.pruning
        accounts := ?_
        active := ?_
        gone := fun hash member => (evicting.gone hash member).shrink shrinks
        pruned := ?_
        tasks := fun other member => ?_
        deleted := fun other member => ?_
        images := fun hash notDropped notEvicted => ?_
        total := ?_ }
    · rw [Task.next, activeItems]
      exact evicting.accounts
    · rw [Task.next, activeItems]
      exact evicting.active
    · rw [Task.next, activeItems]
      exact evicting.pruned
    · simp only [Task.next, imagesOf]
      exact evicting.tasks other (tasks.mpr (.inr member))
    · simp only [Task.next, Purge.after, imagesOf, sidecarsOf]
      rcases evicting.deleted other member with coming | ⟨absent, rest⟩
      · rcases tasks.mp coming with same | old
        · cases same
        · exact .inl old
      · refine .inr ⟨absent, ?_⟩
        rcases rest with coming | removed
        · rcases tasks.mp coming with same | old
          · cases same
            exact .inr (if_pos rfl)
          · exact .inl old
        · rw [removed, ite_self]
          exact .inr rfl
    · simp only [Task.next, imagesOf]
      exact evicting.images hash notDropped notEvicted
    · simp only [Task.next, Purge.after, Int.add_zero]
      exact evicting.total

/-! ## The end of the purge -/

theorem Files.entries_active {items : List CacheEntry}
    (active : ∀ item ∈ items, IsActive cache now found item) :
    found.entries (items.map CacheEntry.hash) = items := by
  induction items with
  | nil => rfl
  | cons item items induction =>
      rw [List.forall_mem_cons] at active
      rcases active.1 with ⟨info, image, isEntry, _⟩
      rw [Files.entries, List.map_cons, List.filterMap_cons, image]
      exact congrArg₂ _ isEntry.symm (induction active.2)

theorem Files.entries_append (front back : List String) :
    found.entries (front ++ back) = found.entries front ++ found.entries back :=
  List.filterMap_append

theorem Files.entries_perm {listing other : List String} (perm : listing.Perm other) :
    (found.entries listing).Perm (found.entries other) :=
  perm.filterMap _

namespace Evicting

/-- What the pruning has settled about an image. -/
inductive Fate (cache : DiskCache) (now : Time) (found : Files) (dropped : List String)
    (evicted kept : List CacheEntry) (hash : String) (info : Image) : Prop where
  | dropped : hash ∈ dropped → cache.outlived now (found.entryOf hash info) = true →
      Fate cache now found dropped evicted kept hash info
  | evicted : found.entryOf hash info ∈ evicted →
      cache.outlived now (found.entryOf hash info) = false →
      Fate cache now found dropped evicted kept hash info
  | kept : found.entryOf hash info ∈ kept →
      cache.outlived now (found.entryOf hash info) = false →
      Fate cache now found dropped evicted kept hash info

theorem fate (evicting : Evicting cache now found visited dropped evicted kept files purge)
    (listing : Listing found visited) {hash : String} {info : Image}
    (image : found.images hash = some info) :
    Fate cache now found dropped evicted kept hash info := by
  have isVisited : hash ∈ visited := (listing.images hash).mpr (by rw [image]; rfl)
  rcases List.mem_append.mp (evicting.accounts.mem_iff.mpr isVisited) with isActive | isDropped
  · rcases List.mem_map.mp isActive with ⟨item, member, rfl⟩
    rcases evicting.active item member with ⟨info', image', isEntry, young⟩
    rw [image, Option.some.injEq] at image'
    subst image'
    rcases List.mem_append.mp (evicting.pruned.perm.mem_iff.mpr member) with left | right
    · rw [isEntry] at left young
      exact .evicted left young
    · rw [isEntry] at right young
      exact .kept right young
  · rcases (evicting.gone hash isDropped).1 with ⟨size, info', image', _, old⟩
    rw [image, Option.some.injEq] at image'
    exact .dropped isDropped (image' ▸ old)

/-- What has been evicted is gone. -/
theorem removed (evicting : Evicting cache now found visited dropped evicted kept files purge)
    (idle : purge.tasks = []) {item : CacheEntry} (member : item ∈ evicted) :
    files.images item.hash = none ∧ files.sidecars item.hash = none := by
  have deleted := evicting.deleted item member
  rw [idle] at deleted
  simpa using deleted

/-- What is kept has not been touched. -/
theorem untouched (evicting : Evicting cache now found visited dropped evicted kept files purge)
    (once : visited.Nodup) {item : CacheEntry} (member : item ∈ kept) :
    files.images item.hash = found.images item.hash := by
  have apart := (evicting.accounts.nodup_iff.mpr once)
  rw [((evicting.pruned.perm.map CacheEntry.hash).append_right dropped).nodup_iff.symm,
    List.map_append, List.nodup_append', List.nodup_append'] at apart
  rcases apart with ⟨⟨_, _, fromEvicted⟩, _, fromDropped⟩
  have isKept : item.hash ∈ kept.map CacheEntry.hash := List.mem_map_of_mem member
  exact evicting.images item.hash (fun isDropped => fromDropped (List.mem_append_right _ isKept) isDropped)
    fun isEvicted => fromEvicted isEvicted isKept

/-- An image is left exactly if it is kept. -/
theorem left_iff (evicting : Evicting cache now found visited dropped evicted kept files purge)
    (listing : Listing found visited) (idle : purge.tasks = []) {hash : String} {info : Image}
    (left : files.images hash = some info) :
    found.images hash = some info ∧ found.entryOf hash info ∈ kept ∧
      cache.outlived now (found.entryOf hash info) = false := by
  by_cases isVisited : hash ∈ visited
  · rcases Option.isSome_iff_exists.mp ((listing.images hash).mp isVisited) with ⟨info', image⟩
    cases evicting.fate listing image with
    | dropped isDropped _ =>
        rw [(evicting.gone hash isDropped).2.1] at left
        contradiction
    | evicted isEvicted _ =>
        have absent : files.images hash = none := (evicting.removed idle isEvicted).1
        rw [absent] at left
        contradiction
    | kept isKept young =>
        have same : files.images hash = found.images hash := evicting.untouched listing.once isKept
        rw [left, image, Option.some.injEq] at same
        exact same ▸ ⟨image, isKept, young⟩
  · have notDropped : hash ∉ dropped := fun isDropped =>
      isVisited (evicting.accounts.subset (List.mem_append_right _ isDropped))
    have notEvicted : hash ∉ evicted.map CacheEntry.hash := by
      intro isEvicted
      rcases List.mem_map.mp isEvicted with ⟨item, member, rfl⟩
      have isActive := evicting.pruned.perm.subset (List.mem_append_left _ member)
      exact isVisited (evicting.accounts.subset
        (List.mem_append_left _ (List.mem_map_of_mem isActive)))
    rw [evicting.images hash notDropped notEvicted] at left
    exact absurd ((listing.images hash).mpr (left ▸ rfl)) isVisited

theorem accounted (evicting : Evicting cache now found visited dropped evicted kept files purge) :
    (evicted.map CacheEntry.hash ++ kept.map CacheEntry.hash ++ dropped).Perm visited := by
  rw [← List.map_append]
  exact ((evicting.pruned.perm.map CacheEntry.hash).append_right dropped).trans evicting.accounts

theorem filter_left (evicting : Evicting cache now found visited dropped evicted kept files purge)
    (listing : Listing found visited) (idle : purge.tasks = []) :
    (visited.filter fun hash => (files.images hash).isSome).Perm (kept.map CacheEntry.hash) ∧
      (visited.filter fun hash => (files.images hash).isNone).Perm
        (evicted.map CacheEntry.hash ++ dropped) := by
  have ofEvicted : ∀ hash ∈ evicted.map CacheEntry.hash, files.images hash = none := by
    intro hash member
    rcases List.mem_map.mp member with ⟨item, isEvicted, rfl⟩
    exact (evicting.removed idle isEvicted).1
  have ofDropped : ∀ hash ∈ dropped, files.images hash = none :=
    fun hash isDropped => (evicting.gone hash isDropped).2.1
  have ofKept : ∀ hash ∈ kept.map CacheEntry.hash, (files.images hash).isSome = true := by
    intro hash member
    rcases List.mem_map.mp member with ⟨item, isKept, rfl⟩
    rw [evicting.untouched listing.once isKept]
    have isActive := evicting.pruned.perm.subset (List.mem_append_right _ isKept)
    rcases evicting.active item isActive with ⟨info, image, _⟩
    rw [image]
    rfl
  constructor
  · refine (evicting.accounted.symm.filter _).trans (List.Perm.of_eq ?_)
    rw [List.filter_append, List.filter_append, List.filter_eq_self.mpr ofKept,
      List.filter_eq_nil_iff.mpr fun hash member => by simp [ofEvicted hash member],
      List.filter_eq_nil_iff.mpr fun hash member => by simp [ofDropped hash member],
      List.nil_append, List.append_nil]
  · refine (evicting.accounted.symm.filter _).trans (List.Perm.of_eq ?_)
    rw [List.filter_append, List.filter_append,
      List.filter_eq_self.mpr fun hash member => by simp [ofEvicted hash member],
      List.filter_eq_nil_iff.mpr fun hash member => by
        simp [Option.isSome_iff_ne_none.mp (ofKept hash member)],
      List.append_nil, List.filter_eq_self.mpr fun hash member => by simp [ofDropped hash member]]

/-- The images that are not too old are the active items. -/
theorem entries_young (evicting : Evicting cache now found visited dropped evicted kept files purge)
    (chosen : CacheEntry → Bool) :
    ((found.entries visited).filter fun other => !cache.outlived now other && chosen other).Perm
      (purge.activeItems.filter chosen) := by
  have young : purge.activeItems.filter (fun other => !cache.outlived now other && chosen other) =
      purge.activeItems.filter chosen := by
    refine List.filter_congr fun item member => ?_
    rcases evicting.active item member with ⟨_, _, _, young⟩
    rw [young, Bool.not_false, Bool.true_and]
  have old : (found.entries dropped).filter
      (fun other => !cache.outlived now other && chosen other) = [] := by
    refine List.filter_eq_nil_iff.mpr fun item member => ?_
    rcases List.mem_filterMap.mp member with ⟨hash, isDropped, isEntry⟩
    rcases (evicting.gone hash isDropped).1 with ⟨_, info, image, _, old⟩
    rw [image, Option.map_some, Option.some.injEq] at isEntry
    simp [← isEntry, old]
  refine ((Files.entries_perm evicting.accounts.symm).filter _).trans (List.Perm.of_eq ?_)
  rw [Files.entries_append, Files.entries_active evicting.active, List.filter_append, young, old,
    List.append_nil]

end Evicting

theorem Evicting.purged
    (evicting : Evicting cache now found visited dropped evicted kept files purge)
    (listing : Listing found visited) (idle : purge.tasks = []) :
    Purged cache now found files visited purge.totalPurged := by
  have isActive {item : CacheEntry} (member : item ∈ evicted ∨ item ∈ kept) :
      IsActive cache now found item :=
    evicting.active item (evicting.pruned.perm.subset (List.mem_append.mpr member))
  have filtered := evicting.filter_left listing idle
  have fate {hash : String} {info : Image} (image : found.images hash = some info)
      (young : cache.outlived now (found.entryOf hash info) = false)
      (absent : files.images hash = none) : found.entryOf hash info ∈ evicted := by
    cases evicting.fate listing image with
    | dropped _ old =>
        rw [young] at old
        contradiction
    | evicted isEvicted _ => exact isEvicted
    | kept isKept _ =>
        have same : files.images hash = found.images hash := evicting.untouched listing.once isKept
        rw [absent, image] at same
        contradiction
  exact
    { fresh := fun hash info left => by
        have isLeft := evicting.left_iff listing idle left
        exact ⟨isLeft.1, isLeft.2.2⟩
      fits := by
        rw [totalSize_perm (Files.entries_perm filtered.1),
          Files.entries_active fun item isKept => isActive (.inr isKept)]
        exact evicting.pruned.fits
      expired := fun hash info image old => by
        by_contra isThere
        rcases Option.ne_none_iff_exists'.mp isThere with ⟨info', left⟩
        have isLeft := evicting.left_iff listing idle left
        rw [image, Option.some.injEq] at isLeft
        rcases isLeft with ⟨rfl, _, young⟩
        rw [old] at young
        contradiction
      needed := fun hash info image young absent => by
        have exceeds := evicting.pruned.needed _ (fate image young absent)
        rw [totalSize_perm (evicting.entries_young _)]
        exact exceeds
      oldest := fun hash info other info' image young absent left => by
        exact evicting.pruned.oldest _ (fate image young absent) _
          (evicting.left_iff listing idle left).2.1
      sidecars := fun hash present absent => by
        rcases Option.isSome_iff_exists.mp present with ⟨info, image⟩
        cases evicting.fate listing image with
        | dropped isDropped _ => exact (evicting.gone hash isDropped).2.2
        | evicted isEvicted _ => exact (evicting.removed idle isEvicted).2
        | kept isKept _ =>
            have same : files.images hash = found.images hash :=
              evicting.untouched listing.once isKept
            rw [absent, image] at same
            contradiction
      bytes := by
        rw [totalSize_perm (Files.entries_perm filtered.2), Files.entries_append,
          totalSize_append, Files.entries_active fun item isEvicted => isActive (.inl isEvicted),
          evicting.total, Int.add_comm] }

end Scan

/-! ## The whole run -/

theorem Purge.next_cases {cache : DiskCache} {files files' : Files} {answer : Answer}
    {purge : Purge} {thread : Thread}
    (next : purge.next cache files answer = some (thread, files')) :
    (purge.tasks = [] ∧ files' = files ∧
      (purge.pruning = true ∧ thread = .free (some (.purged purge.totalPurged)) ∨
        purge.pruning = false ∧ thread = .purge (purge.prune cache))) ∨
    ∃ before task after, purge.tasks = before ++ task :: after ∧
      thread = .purge (purge.after before after (task.next cache purge.now files answer).1) ∧
      files' = (task.next cache purge.now files answer).2 := by
  unfold Purge.next at next
  split at next
  · rename_i idle
    split at next
    · rename_i pruning
      cases next
      exact .inl ⟨idle, rfl, .inl ⟨pruning, rfl⟩⟩
    · rename_i scanning
      cases next
      exact .inl ⟨idle, rfl, .inr ⟨Bool.eq_false_iff.mpr scanning, rfl⟩⟩
  · contradiction
  · rename_i first others before task after tasks focused
    have parts := focus_eq focused
    refine .inr ⟨before, task, after, parts, ?_⟩
    split at next
    · rename_i processed
      cases next
      rw [processed]
      exact ⟨rfl, rfl⟩
    · rename_i processed
      cases next
      rw [processed]
      exact ⟨rfl, rfl⟩

section Undisturbed

variable {cache : DiskCache} {now : Time} {found : Files} {visited dropped : List String}
  {thread : Nat} {s next last : State} {actions : List Action} {answer : Answer}

/-- A worker takes up a name. -/
theorem Scanning.visit {files : Files} {purge : Purge}
    (scanning : Scanning cache now found visited dropped files purge) {task : Task}
    (fits : task.Fits cache now found files) :
    Scanning cache now found (visited ++ task.subject.toList) dropped files
      { purge with tasks := purge.tasks ++ [task] } where
  scanning := scanning.scanning
  started := scanning.started
  accounts := by
    rw [List.perm_iff_count]
    intro hash
    have accounts := scanning.accounts.count_eq hash
    simp only [List.filterMap_append, subjects_cons, List.filterMap_nil, List.append_nil,
      List.count_append] at accounts ⊢
    omega
  tasks other member := by
    rcases List.mem_append.mp member with old | new
    · exact scanning.tasks other old
    · exact List.mem_singleton.mp new ▸ fits
  active := scanning.active
  gone := scanning.gone
  total := scanning.total
  images := scanning.images
  kept hash absent present := by
    rcases scanning.kept hash absent present with isDropped | ⟨size, member⟩
    · exact .inl isDropped
    · exact .inr ⟨size, List.mem_append_left _ member⟩
  sidecars := scanning.sidecars

/-- Where a purge is that nothing disturbs. -/
inductive Underway (cache : DiskCache) (now : Time) (found : Files) (visited : List String)
    (files : Files) : Thread → Prop
  | scanning {purge : Purge} {dropped : List String} :
      Scanning cache now found visited dropped files purge →
      Underway cache now found visited files (.purge purge)
  | evicting {purge : Purge} {dropped : List String} {evicted kept : List CacheEntry} :
      Evicting cache now found visited dropped evicted kept files purge →
      Underway cache now found visited files (.purge purge)
  | returned {bytes : Int} : Purged cache now found files visited bytes →
      Underway cache now found visited files (.free (some (.purged bytes)))

/-- The purge has listed the directory. -/
def Thread.listed : Thread → Bool
  | .purge state => state.pruning
  | .free _ => true
  | _ => false

theorem advance_cases (taken : cache.step s (.advance thread answer) = some next)
    {purge : Purge} (running : s.threads thread = .purge purge) :
    ∃ after files', purge.next cache s.files answer = some (after, files') ∧
      next.threads thread = after ∧ next.files = files' := by
  rcases Option.bind_eq_some_iff.mp taken with ⟨move, moved, applied⟩
  rw [running] at moved
  rcases Option.map_eq_some_iff.mp moved with ⟨⟨after, files'⟩, purged, rfl⟩
  cases applied
  exact ⟨after, files', purged, Function.update_self .., rfl⟩

theorem visit_cases {task : Task} (visited : s.visit thread task = some next) :
    ∃ purge, s.threads thread = .purge purge ∧ purge.pruning = false ∧
      next.threads thread = .purge { purge with tasks := purge.tasks ++ [task] } ∧
      next.files = s.files := by
  unfold State.visit at visited
  split at visited
  · rename_i purge running
    split at visited
    · contradiction
    · rename_i scanning
      cases visited
      exact ⟨purge, running, Bool.eq_false_iff.mpr scanning, Function.update_self .., rfl⟩
  · contradiction

theorem listed_advance (taken : cache.step s (.advance thread answer) = some next)
    (listed : (s.threads thread).listed = true) : (next.threads thread).listed = true := by
  cases running : s.threads thread with
  | purge purge =>
      rw [running] at listed
      have pruning : purge.pruning = true := listed
      rcases advance_cases taken running with ⟨after, files', moved, isNext, _⟩
      rw [isNext]
      rcases Purge.next_cases moved with ⟨_, _, ⟨_, rfl⟩ | ⟨scanning, _⟩⟩ |
        ⟨before, task, rest, _, rfl, _⟩
      · rfl
      · rw [pruning] at scanning
        contradiction
      · cases (task.next cache purge.now s.files answer).1 <;> exact pruning
  | free last =>
      rcases Option.bind_eq_some_iff.mp taken with ⟨move, moved, _⟩
      rw [running] at moved
      contradiction
  | lookup | openCached | join | waiting | store | finish | openResult =>
      rw [running] at listed
      contradiction

/-- After the listing no worker takes up a name. -/
theorem no_visits (run : Run cache.step (Undisturbed thread) s actions last)
    (listed : (s.threads thread).listed = true) : visitedImages actions = [] := by
  have noVisit {s next : State} {task : Task} (listed : (s.threads thread).listed = true)
      (visited : s.visit thread task = some next) : False := by
    rcases visit_cases visited with ⟨purge, running, scanning, _⟩
    rw [running, Thread.listed, scanning] at listed
    contradiction
  induction run with
  | nil => rfl
  | @cons s middle last action actions allowed taken _ induction =>
      cases action with
      | call => exact allowed.elim
      | advance own answer =>
          rcases allowed with ⟨rfl, _⟩
          exact induction (listed_advance taken listed)
      | visitImage own hash =>
          cases allowed
          exact (noVisit listed taken).elim
      | visitSidecar own hash =>
          cases allowed
          exact (noVisit listed taken).elim
      | visitTemp own temp =>
          cases allowed
          exact (noVisit listed taken).elim

/-- What a step of the purge keeps. -/
theorem Underway.advance (ttl : 0 < cache.ttl) (limit : 0 < cache.maxBytes)
    (once : visited.Nodup) (present : ∀ hash ∈ visited, found.images hash ≠ none)
    (listing : (next.threads thread).listed = true → Listing found visited)
    (underway : Underway cache now found visited s.files (s.threads thread))
    (succeeds : answer.fails = false)
    (taken : cache.step s (.advance thread answer) = some next) :
    Underway cache now found visited next.files (next.threads thread) := by
  cases running : s.threads thread with
  | purge purge =>
      rcases advance_cases taken running with ⟨after, files', moved, isNext, isFiles⟩
      rw [running] at underway
      rw [isNext] at listing
      rw [isNext, isFiles]
      cases underway with
      | scanning scanning =>
          rcases Purge.next_cases moved with ⟨idle, rfl, ⟨pruning, _⟩ | ⟨_, rfl⟩⟩ |
            ⟨before, task, rest, parts, rfl, rfl⟩
          · rw [scanning.scanning] at pruning
            contradiction
          · rcases scanning.prune limit (listing rfl) idle with ⟨evicted, kept, evicting⟩
            exact .evicting evicting
          · have moved := scanning.next once present ttl parts succeeds
            rw [← scanning.started] at moved ⊢
            rcases moved with ⟨dropped', scanning'⟩
            exact .scanning scanning'
      | evicting evicting =>
          rcases Purge.next_cases moved with ⟨idle, rfl, ⟨_, rfl⟩ | ⟨scanning, _⟩⟩ |
            ⟨before, task, rest, parts, rfl, rfl⟩
          · exact .returned (evicting.purged (listing rfl) idle)
          · rw [evicting.pruning] at scanning
            contradiction
          · exact .evicting (evicting.next parts succeeds)
  | free last =>
      rcases Option.bind_eq_some_iff.mp taken with ⟨move, moved, _⟩
      rw [running] at moved
      contradiction
  | lookup | openCached | join | waiting | store | finish | openResult =>
      rw [running] at underway
      cases underway

theorem Underway.visit {task : Task} (fits : ∀ files, task.Fits cache now found files)
    (underway : Underway cache now found visited s.files (s.threads thread))
    (taken : s.visit thread task = some next) :
    Underway cache now found (visited ++ task.subject.toList) next.files (next.threads thread) := by
  rcases visit_cases taken with ⟨purge, running, isScanning, isNext, isFiles⟩
  rw [running] at underway
  rw [isNext, isFiles]
  cases underway with
  | scanning scanning => exact .scanning (scanning.visit (fits s.files))
  | evicting evicting =>
      rw [evicting.pruning] at isScanning
      contradiction

theorem Underway.run (ttl : 0 < cache.ttl) (limit : 0 < cache.maxBytes)
    (run : Run cache.step (Undisturbed thread) s actions last)
    (listing : Listing found (visited ++ visitedImages actions))
    (underway : Underway cache now found visited s.files (s.threads thread)) :
    Underway cache now found (visited ++ visitedImages actions) last.files
      (last.threads thread) := by
  induction run generalizing visited with
  | nil s => exact (List.append_nil visited).symm ▸ underway
  | @cons s middle last action actions allowed taken rest induction =>
      cases action with
      | call => exact allowed.elim
      | advance own answer =>
          rcases allowed with ⟨rfl, succeeds⟩
          refine induction listing (underway.advance ttl limit ?_ ?_ ?_ succeeds taken)
          · exact (List.sublist_append_left _ _).nodup listing.once
          · intro hash isVisited
            have isThere := (listing.images hash).mp (List.mem_append_left _ isVisited)
            exact Option.isSome_iff_ne_none.mp isThere
          · intro listed
            have noMore : visitedImages actions = [] := no_visits rest listed
            have visits : visitedImages (.advance own answer :: actions) = [] := noMore
            rw [visits, List.append_nil] at listing
            exact listing
      | visitImage own hash =>
          cases allowed
          have visits : visitedImages (.visitImage thread hash :: actions) =
              [hash] ++ visitedImages actions := rfl
          have fits : ∀ files, (Task.image hash).Fits cache now found files := fun _ => trivial
          rw [visits, ← List.append_assoc] at listing ⊢
          exact induction listing (underway.visit fits taken)
      | visitSidecar own hash =>
          cases allowed
          have fits : ∀ files, (Task.sidecar hash).Fits cache now found files := fun _ => trivial
          have underway' := underway.visit fits taken
          exact induction listing ((List.append_nil visited) ▸ underway')
      | visitTemp own temp =>
          cases allowed
          have fits : ∀ files, (Task.temp temp).Fits cache now found files := fun _ => trivial
          have underway' := underway.visit fits taken
          exact induction listing ((List.append_nil visited) ▸ underway')

/-! ## The purge returns -/

/-- The operations that a task has left, at most. -/
def Task.left : Task → Nat
  | .image _ => 4
  | .readFile .. => 3
  | .removeExpired .. => 2
  | .removeExpiredSidecar .. => 1
  | .sidecar _ => 3
  | .sidecarInfo _ => 2
  | .removeOrphan _ => 1
  | .temp _ => 2
  | .removeTemp _ => 1
  | .remove _ => 2
  | .removeSidecar _ => 1

/-- An active item may have to be deleted yet. -/
def Purge.left (purge : Purge) : Nat :=
  (purge.tasks.map Task.left).sum +
    if purge.pruning then 1 else 2 * purge.activeItems.length + 2

def Processed.left : Processed → Nat
  | .more task => task.left
  | .done entry _ => 2 * entry.toList.length

theorem Task.next_left {files : Files} {task : Task} :
    (task.next cache now files answer).1.left < task.left := by
  cases task with
  | image | readFile | sidecar | sidecarInfo | temp =>
      simp only [Task.next]
      repeat' split
      all_goals simp [Processed.left, Task.left]
  | removeExpired | removeExpiredSidecar | removeOrphan | removeTemp | remove | removeSidecar =>
      exact Nat.lt_succ_self _

theorem Purge.after_left {purge : Purge} {before after : List Task} {task : Task}
    (parts : purge.tasks = before ++ task :: after) {processed : Processed}
    (less : processed.left < task.left) : (purge.after before after processed).left < purge.left := by
  cases processed with
  | more next =>
      have less : next.left < task.left := less
      simp only [Purge.left, Purge.after, parts, List.map_append, List.map_cons, List.sum_append,
        List.sum_cons]
      exact Nat.add_lt_add_right (by omega) _
  | done entry bytes =>
      have less : 2 * entry.toList.length < task.left := less
      simp only [Purge.left, Purge.after, parts, List.map_append, List.map_cons, List.sum_append,
        List.sum_cons, List.length_append]
      split <;> omega

theorem toDelete_length (maxBytes total : Int) (items : List CacheEntry) :
    (toDelete maxBytes total items).length ≤ items.length := by
  induction items generalizing total with
  | nil => rfl
  | cons item items induction =>
      rw [toDelete]
      split
      · exact Nat.zero_le _
      · exact Nat.succ_le_succ (induction _)

theorem prune_length (items : List CacheEntry) : (cache.prune items).length ≤ items.length := by
  unfold DiskCache.prune
  simp only
  split
  · refine (toDelete_length ..).trans (le_of_eq ?_)
    exact List.length_insertionSort _ _
  · exact Nat.zero_le _

theorem Purge.prune_left {purge : Purge} (idle : purge.tasks = [])
    (scanning : purge.pruning = false) : (purge.prune cache).left < purge.left := by
  have weights (items : List CacheEntry) :
      ((items.map Task.remove).map Task.left).sum = 2 * items.length := by
    rw [List.map_map, show Task.left ∘ Task.remove = fun _ => 2 from rfl, List.map_const',
      List.sum_replicate_nat, Nat.mul_comm]
  have length := @prune_length cache purge.activeItems
  simp only [Purge.left, Purge.prune, weights, idle, scanning, List.map_nil, List.sum_nil, if_true,
    Bool.false_eq_true, if_false]
  omega

theorem Purge.next_exists (purge : Purge) (files : Files) :
    ∃ after files', purge.next cache files {} = some (after, files') := by
  unfold Purge.next
  split
  · split <;> exact ⟨_, _, rfl⟩
  · rename_i first others tasks focused
    rw [tasks] at focused
    contradiction
  · split <;> exact ⟨_, _, rfl⟩

/-- A purge that goes on returns. -/
theorem purge_returns {purge : Purge} (running : s.threads thread = .purge purge) :
    ∃ actions last bytes, Run cache.step (Undisturbed thread) s actions last ∧
      visitedImages actions = [] ∧ last.threads thread = .free (some (.purged bytes)) := by
  induction steps : purge.left using Nat.strong_induction_on generalizing s purge with
  | _ steps induction =>
      rcases @Purge.next_exists cache purge s.files with ⟨after, files', moved⟩
      have taken : cache.step s (.advance thread {}) =
          some { s.setThread thread after with files := files' } := by
        simp only [DiskCache.step, running, Thread.next, moved]
        rfl
      have goesOn {purge' : Purge} (isPurge : after = .purge purge')
          (less : purge'.left < purge.left) :
          ∃ actions last bytes, Run cache.step (Undisturbed thread) s actions last ∧
            visitedImages actions = [] ∧ last.threads thread = .free (some (.purged bytes)) := by
        have isNext : ({ s.setThread thread after with files := files' } : State).threads thread =
            .purge purge' := (Function.update_self ..).trans isPurge
        rcases induction _ (steps ▸ less) isNext rfl with ⟨actions, last, bytes, run, visits, isLast⟩
        exact ⟨.advance thread {} :: actions, last, bytes, .cons ⟨rfl, rfl⟩ taken run, visits, isLast⟩
      rcases Purge.next_cases moved with ⟨idle, _, ⟨_, rfl⟩ | ⟨scanning, isPurge⟩⟩ |
        ⟨before, task, rest, parts, isPurge, _⟩
      · exact ⟨[.advance thread {}], _, _, .cons ⟨rfl, rfl⟩ taken (.nil _), rfl,
          Function.update_self ..⟩
      · exact goesOn isPurge (Purge.prune_left idle scanning)
      · exact goesOn isPurge (Purge.after_left parts Task.next_left)

end Undisturbed

def Thread.purgedBytes : Thread → Option Int
  | .free (some (.purged bytes)) => some bytes
  | _ => none

theorem Thread.eq_of_purgedBytes {thread : Thread} {bytes : Int}
    (purged : thread.purgedBytes = some bytes) : thread = .free (some (.purged bytes)) := by
  unfold purgedBytes at purged
  split at purged
  · cases purged
    rfl
  · contradiction

/-- Three images of one directory: the first is too old, the other two are too big together. -/
def threeImages : Files :=
  let image (size seconds : Int) : Option Image :=
    some { size, modTime := ⟨seconds, 0⟩, storedAs := .zero }
  ((Files.empty.setImage "aa" (image 5 10)).setImage "bb" (image 3 90)).setImage "cc" (image 2 80)

theorem listing_threeImages : Listing threeImages ["aa", "bb", "cc"] where
  once := by decide
  images hash := by
    by_cases isFirst : hash = "aa"
    · subst isFirst
      decide
    by_cases isSecond : hash = "bb"
    · subst isSecond
      decide
    by_cases isThird : hash = "cc"
    · subst isThird
      decide
    · simp [threeImages, Files.setImage, Files.empty, isFirst, isSecond, isThird]
  sizes hash info image := by
    simp only [threeImages, Files.setImage, Files.empty, Function.update_apply] at image
    split at image
    · cases image
      decide
    · split at image
      · cases image
        decide
      · split at image
        · cases image
          decide
        · contradiction

end Kiyomi.Cache
