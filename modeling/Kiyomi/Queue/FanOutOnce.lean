import Kiyomi.Queue.FanOut
import Kiyomi.Queue.PullManifests

namespace Kiyomi.Queue

open Go Library

/-! # One job per chapter over concurrent runs

Between two sections the library has the chapters it had at first and those of the lists that
the finished runs have fetched, and each of these has its one job. -/

namespace PullManga

variable {l : Layout} {before : Disk} {s s' : PullManga} {action : PullAction}

theorem present_mono {payload : PullMangaPayload} {disk : Disk}
    (kept : ∀ dir, readable before dir → readable disk dir) {id : String}
    (isIn : present l payload before id = true) : present l payload disk id = true := by
  rcases Layout.getChapter_isSome_iff.mp isIn with ⟨dir, located, found⟩
  exact Layout.getChapter_isSome_iff.mpr ⟨dir, located, kept dir found⟩

theorem eq_of_plain_directory {mangaID providerID left right : String} {dir : Path}
    (provider : l.plain providerID = true) (leftPlain : l.plain left = true)
    (rightPlain : l.plain right = true)
    (leftDir : l.providerChapterDir mangaID providerID left = .ok dir)
    (rightDir : l.providerChapterDir mangaID providerID right = .ok dir) : left = right := by
  cases mangaLocated : l.mangaDir mangaID with
  | error refused => simp [Layout.providerChapterDir, mangaLocated] at leftDir
  | ok mDir =>
      rw [Layout.providerChapterDir_of_plain mangaLocated provider leftPlain,
        Except.ok.injEq] at leftDir
      rw [Layout.providerChapterDir_of_plain mangaLocated provider rightPlain, Except.ok.injEq,
        ← leftDir] at rightDir
      simpa using rightDir.symm

/-- Among plain ids, saving a chapter adds that chapter only. -/
theorem present_of_saveChapter {payload : PullMangaPayload} {disk disk' : Disk}
    {chapterID id : String} {chMeta : ChapterMeta} (provider : l.plain payload.providerID = true)
    (chapter : l.plain chapterID = true) (plain : l.plain id = true)
    (saved : l.saveChapter disk payload.mangaID payload.providerID chapterID chMeta = some disk')
    (isIn : present l payload disk' id = true) :
    id = chapterID ∨ present l payload disk id = true := by
  rcases Layout.readable_saveChapter saved with ⟨dir, located, changed⟩
  rcases Layout.getChapter_isSome_iff.mp isIn with ⟨other, otherLocated, found⟩
  rcases (changed other).mp found with rfl | already
  · exact .inl (eq_of_plain_directory provider plain chapter otherLocated located)
  · exact .inr (Layout.getChapter_isSome_iff.mpr ⟨other, otherLocated, already⟩)

/-! ## What one section does -/

/-- If the child is a `pull_chapter` job, it is for a new chapter of the run's list. -/
def ForNew (l : Layout) (before : Disk) (s : PullManga) (child : ChildJob) : Prop :=
  ∀ p, child.payload = .pullChapter p →
    p.mangaID = s.payload.mangaID ∧ p.providerID = s.payload.providerID ∧
      IsNew l s.payload s.upstream before p.chapterID

/-- The run saves chapters of its list only, and gives jobs to the new ones only. -/
structure OnlyNew (l : Layout) (before : Disk) (s : PullManga) : Prop where
  enqueued : ∀ child ∈ s.enqueued, s.ForNew l before child
  waiting : ∀ child, s.point.child = some child → s.ForNew l before child
  saved : ∀ id, l.plain id = true → present l s.payload s.disk id = true →
    present l s.payload before id = true ∨ ∃ ch ∈ s.upstream, ch.id = id
  ahead : ∀ existing chapters, s.point.ahead = some (existing, chapters) →
    ∀ ch ∈ chapters, ch ∈ s.upstream ∧
      (ch.id ∉ existing → present l s.payload before ch.id = false)

/-- The ids of the run's provider and chapters name the directories of the same name. -/
structure Plain (l : Layout) (payload : PullMangaPayload) (upstream : List Chapter) : Prop where
  provider : l.plain payload.providerID = true
  chapter : ∀ ch ∈ upstream, l.plain ch.id = true
  distinct : (upstream.map Chapter.id).Nodup

theorem Plain.chapters {payload : PullMangaPayload} {upstream : List Chapter}
    (plain : Plain l payload upstream) (before : Disk) :
    PlainChapters l payload upstream before where
  provider := plain.provider
  chapter := fun ch member _ => plain.chapter ch member
  distinct := plain.distinct.filter _

theorem onlyNew_enter (job : PullMangaJob) (disk : Disk) : OnlyNew l disk (job.enter disk) where
  enqueued := by simp [PullMangaJob.enter, queued]
  waiting := by simp [PullMangaJob.enter, queued, PullPoint.child]
  saved := fun id _ isIn => .inl isIn
  ahead := by simp [PullMangaJob.enter, queued, PullPoint.ahead]

/-- A run that ends, or leaves the chapters behind it, gives no further job. -/
theorem OnlyNew.leave (only : OnlyNew l before s) {disk : Disk} {point : PullPoint}
    (same : SameChapters s.disk disk)
    (waiting : ∀ child, point.child = some child → s.ForNew l before child)
    (ahead : point.ahead = none) : OnlyNew l before { s with disk, point } where
  enqueued := only.enqueued
  waiting := waiting
  saved := fun id plain isIn => only.saved id plain ((present_congr same id).symm.trans isIn)
  ahead := by simp [ahead]

theorem Moved.onlyNew (plain : Plain l s.payload s.upstream)
    (kept : ∀ dir, readable before dir → readable s.disk dir) (only : OnlyNew l before s)
    (moved : Moved l s action s') : OnlyNew l before s' := by
  cases moved with
  | @started now ok existing point listed =>
      refine ⟨only.enqueued, by simp [PullPoint.child], only.saved, ?_⟩
      intro names chapters ahead ch member
      cases ahead
      refine ⟨member, fun unlisted => ?_⟩
      rw [Layout.mem_listChapters listed plain.provider (plain.chapter ch member)] at unlisted
      rw [← Bool.not_eq_true]
      exact fun isIn => unlisted (present_mono kept isIn)
  | failed alone same => exact only.leave same (by simp [PullPoint.child]) rfl
  | childFailed point failure same => exact only.leave same (by simp [PullPoint.child]) rfl
  | @skipped existing ch chapters point listed =>
      refine ⟨only.enqueued, by simp [PullPoint.child], only.saved, ?_⟩
      intro names rest ahead other member
      cases ahead
      exact only.ahead existing (ch :: chapters) (by rw [point]; rfl) other
        (List.mem_cons_of_mem _ member)
  | @saved existing ch chapters chMeta disk point unlisted saved =>
      have ahead := only.ahead existing (ch :: chapters) (by rw [point]; rfl)
      rcases ahead ch List.mem_cons_self with ⟨inList, absent⟩
      refine ⟨only.enqueued, ?_, ?_, ?_⟩
      · intro child waits p payload
        cases waits
        cases payload
        exact ⟨rfl, rfl, ⟨ch, inList, rfl⟩, absent unlisted⟩
      · intro id isPlain isIn
        rcases present_of_saveChapter plain.provider (plain.chapter ch inList) isPlain saved isIn
          with rfl | already
        · exact .inr ⟨ch, inList, rfl⟩
        · exact only.saved id isPlain already
      · intro names rest same other member
        cases same
        exact ahead other (List.mem_cons_of_mem _ member)
  | @created child resume point =>
      have waiting := only.waiting child (by rw [point]; rfl)
      refine ⟨only.enqueued, ?_, only.saved, ?_⟩
      · intro own waits
        cases waits
        exact waiting
      · intro names chapters ahead
        exact only.ahead names chapters (by rw [point]; exact ahead)
  | @enqueued child resume point =>
      have waiting := only.waiting child (by rw [point]; rfl)
      refine ⟨?_, by simp, only.saved, ?_⟩
      · intro own member
        rcases List.mem_cons.mp member with rfl | earlier
        · exact waiting
        · exact only.enqueued own earlier
      · intro names chapters ahead
        rw [PullResume.ahead_point] at ahead
        exact only.ahead names chapters (by rw [point]; exact ahead)
  | chaptersDone point => exact only.leave (fun dir => Iff.rfl) (by simp [PullPoint.child]) rfl
  | coverDone point same => exact only.leave same (by simp [PullPoint.child]) rfl
  | coverClaimed point same =>
      apply only.leave same _ rfl
      intro child waits p payload
      cases waits
      cases payload
  | stamped point same => exact only.leave same (by simp [PullPoint.child]) rfl

theorem Moved.keeps (moved : Moved l s action s') :
    s'.jobID = s.jobID ∧ s'.payload = s.payload ∧ s'.upstream = s.upstream := by
  cases moved <;> exact ⟨rfl, rfl, rfl⟩

/-- The failures that `enqueuesNew` is about end the run with an error. -/
theorem Moved.enqueuesNew_of_fine (moved : Moved l s action s')
    (fine : s'.point ≠ .returned false) : s.enqueuesNew l before action = true := by
  cases moved with
  | failed => exact absurd rfl fine
  | childFailed => exact absurd rfl fine
  | _ => rfl

/-- A run in its section, which found the library as it was at `entry`. -/
structure InSection (l : Layout) (entry : Disk) (s : PullManga) : Prop where
  accounted : Accounted l s.payload s.upstream entry s
  onlyNew : OnlyNew l entry s

theorem inSection_enter (l : Layout) (job : PullMangaJob) (disk : Disk) :
    InSection l disk (job.enter disk) where
  accounted := queued_accounted job.jobID
  onlyNew := onlyNew_enter job disk

theorem InSection.step {entry : Disk} (plain : Plain l s.payload s.upstream)
    (inSection : InSection l entry s) (moved : Moved l s action s')
    (fine : s'.point ≠ .returned false) : InSection l entry s' := by
  rcases moved.keeps with ⟨_, payload, upstream⟩
  constructor
  · rw [payload, upstream]
    exact moved.accounted (plain.chapters entry) inSection.accounted (moved.enqueuesNew_of_fine fine)
  · exact moved.onlyNew plain inSection.accounted.kept inSection.onlyNew

/-- The run's own `pull_chapter` jobs for a chapter. -/
def jobsOf (children : List ChildJob) (p : PullChapterPayload) : Nat :=
  children.countP fun child => child.payload == .pullChapter p

/-- The chapter belongs to the title that the run is about. -/
def IsTitle (payload : PullMangaPayload) (p : PullChapterPayload) : Prop :=
  p.mangaID = payload.mangaID ∧ p.providerID = payload.providerID

theorem InSection.present_of_listed {entry : Disk} (inSection : InSection l entry s)
    (returned : s.point = .returned true) {ch : Chapter} (member : ch ∈ s.upstream) :
    present l s.payload s.disk ch.id = true := by
  by_cases old : present l s.payload entry ch.id = true
  · exact present_mono inSection.accounted.kept old
  · have all := inSection.accounted.atPoint
    rw [returned] at all
    exact all ch member (Bool.not_eq_true _ ▸ old)

theorem InSection.jobsOf_new {entry : Disk} (inSection : InSection l entry s)
    (returned : s.point = .returned true) {p : PullChapterPayload} (title : IsTitle s.payload p)
    (new : IsNew l s.payload s.upstream entry p.chapterID) : jobsOf s.enqueued p = 1 := by
  have counted := inSection.accounted.counted p.chapterID new
  rcases new with ⟨⟨ch, member, same⟩, absent⟩
  have isIn := inSection.present_of_listed returned member
  rw [awaits, returned, ← same, isIn] at counted
  rw [jobsOf, ← show s.jobsFor ch.id = 1 from counted, jobsFor]
  apply List.countP_congr
  intro child enqueued
  have forNew := inSection.onlyNew.enqueued child enqueued
  cases payload : child.payload with
  | pullCover own => simp [ChildJob.pulls, payload]
  | pullChapter own =>
      rcases forNew own payload with ⟨manga, provider, _⟩
      rcases own with ⟨ownManga, ownProvider, ownChapter⟩
      rcases p with ⟨mangaID, providerID, chapterID⟩
      rcases title with ⟨titleManga, titleProvider⟩
      simp only at manga provider titleManga titleProvider same
      subst manga provider titleManga titleProvider same
      simp [ChildJob.pulls, payload]

theorem InSection.jobsOf_old {entry : Disk} (inSection : InSection l entry s)
    {p : PullChapterPayload}
    (old : ¬ (IsTitle s.payload p ∧ IsNew l s.payload s.upstream entry p.chapterID)) :
    jobsOf s.enqueued p = 0 := by
  rw [jobsOf, List.countP_eq_zero]
  intro child enqueued same
  rcases inSection.onlyNew.enqueued child enqueued p (by simpa using same) with
    ⟨manga, provider, new⟩
  exact old ⟨⟨manga, provider⟩, new⟩

end PullManga

namespace FanOut

open PullManga

/-! ## What the finished runs have done -/

/-- The library has a readable chapter of this id. -/
def inLibrary (l : Layout) (mangaID providerID : String) (disk : Disk) (id : String) : Bool :=
  (l.getChapter disk mangaID providerID id).isSome

/-- One of the lists has the chapter. -/
def Listed (lists : List (List Chapter)) (id : String) : Prop :=
  ∃ chapters ∈ lists, ∃ ch ∈ chapters, ch.id = id

/-- A chapter of the title that was not in the library and occurs in some list. -/
def Wanted (l : Layout) (mangaID providerID : String) (before : Disk) (lists : List (List Chapter))
    (p : PullChapterPayload) : Prop :=
  p.mangaID = mangaID ∧ p.providerID = providerID ∧
    inLibrary l mangaID providerID before p.chapterID = false ∧ Listed lists p.chapterID

/-- The jobs are for the same title, with lists of plain and distinct ids. -/
structure SameTitle (l : Layout) (mangaID providerID : String) (jobs : List PullMangaJob) : Prop
    where
  mangaID : ∀ job ∈ jobs, job.payload.mangaID = mangaID
  providerID : ∀ job ∈ jobs, job.payload.providerID = providerID
  plain : ∀ job ∈ jobs, Plain l job.payload job.upstream

def lists (runs : List PullManga) : List (List Chapter) := runs.map PullManga.upstream

def children (runs : List PullManga) : List ChildJob := runs.flatMap PullManga.enqueued

variable {l : Layout} {mangaID providerID : String} {before : Disk} {jobs : List PullMangaJob}

theorem listed_lists {left right : List PullManga} {pull : PullManga} {id : String} :
    Listed (lists (left ++ pull :: right)) id ↔
      Listed (lists (left ++ right)) id ∨ ∃ ch ∈ pull.upstream, ch.id = id := by
  simp only [Listed, lists, List.map_append, List.map_cons, List.mem_append, List.mem_cons]
  constructor
  · rintro ⟨chapters, inLeft | rfl | inRight, found⟩
    · exact .inl ⟨chapters, .inl inLeft, found⟩
    · exact .inr found
    · exact .inl ⟨chapters, .inr inRight, found⟩
  · rintro (⟨chapters, inLeft | inRight, found⟩ | found)
    · exact ⟨chapters, .inl inLeft, found⟩
    · exact ⟨chapters, .inr (.inr inRight), found⟩
    · exact ⟨pull.upstream, .inr (.inl rfl), found⟩

theorem jobsOf_children {left right : List PullManga} {pull : PullManga} {p : PullChapterPayload} :
    jobsOf (children (left ++ pull :: right)) p =
      jobsOf (children (left ++ right)) p + jobsOf pull.enqueued p := by
  simp only [jobsOf, children, List.flatMap_append, List.flatMap_cons, List.countP_append]
  omega

/-- What the library and the queue owe to the runs that have finished. -/
structure Settled (l : Layout) (mangaID providerID : String) (before disk : Disk)
    (runs : List PullManga) : Prop where
  saved : ∀ id, l.plain id = true →
    (inLibrary l mangaID providerID disk id = true ↔
      inLibrary l mangaID providerID before id = true ∨ Listed (lists runs) id)
  once : ∀ p, Wanted l mangaID providerID before (lists runs) p → jobsOf (children runs) p = 1
  others : ∀ p, ¬ Wanted l mangaID providerID before (lists runs) p →
    jobsOf (children runs) p = 0

theorem settled_nil (disk : Disk) : Settled l mangaID providerID disk disk [] where
  saved := by simp [Listed, lists]
  once := by
    rintro p ⟨_, _, _, chapters, member, _⟩
    simp [lists] at member
  others := fun p _ => rfl

/-- A section that succeeds settles its list as well. -/
theorem Settled.add {entry : Disk} {left right : List PullManga} {pull : PullManga}
    (manga : pull.payload.mangaID = mangaID) (provider : pull.payload.providerID = providerID)
    (plain : Plain l pull.payload pull.upstream)
    (settled : Settled l mangaID providerID before entry (left ++ right))
    (inSection : InSection l entry pull) (returned : pull.point = .returned true) :
    Settled l mangaID providerID before pull.disk (left ++ pull :: right) := by
  subst manga provider
  have kept : ∀ id, inLibrary l pull.payload.mangaID pull.payload.providerID entry id = true →
      inLibrary l pull.payload.mangaID pull.payload.providerID pull.disk id = true :=
    fun id isIn => present_mono inSection.accounted.kept isIn
  have old : ∀ {p : PullChapterPayload}, ¬ (IsTitle pull.payload p ∧
      IsNew l pull.payload pull.upstream entry p.chapterID) → jobsOf pull.enqueued p = 0 :=
    fun old => inSection.jobsOf_old old
  constructor
  · intro id isPlain
    rw [listed_lists, ← or_assoc, ← settled.saved id isPlain]
    constructor
    · exact inSection.onlyNew.saved id isPlain
    · rintro (isIn | ⟨ch, member, rfl⟩)
      · exact kept id isIn
      · exact inSection.present_of_listed returned member
  · rintro p ⟨manga, provider, absent, listed⟩
    rw [jobsOf_children]
    by_cases earlier : Listed (lists (left ++ right)) p.chapterID
    · -- the chapter is no longer new to this run
      rw [settled.once p ⟨manga, provider, absent, earlier⟩, old]
      rintro ⟨_, ⟨ch, member, same⟩, notIn⟩
      have isPlain : l.plain p.chapterID = true := same ▸ plain.chapter ch member
      have isIn := (settled.saved p.chapterID isPlain).mpr (.inr earlier)
      exact Bool.false_ne_true (notIn.symm.trans isIn)
    · rcases (listed_lists.mp listed).resolve_left earlier with ⟨ch, member, same⟩
      have isPlain : l.plain p.chapterID = true := same ▸ plain.chapter ch member
      have notIn : inLibrary l pull.payload.mangaID pull.payload.providerID entry p.chapterID =
          false := by
        rw [← Bool.not_eq_true, settled.saved p.chapterID isPlain, absent]
        simpa using earlier
      rw [settled.others p fun wanted => earlier wanted.2.2.2,
        inSection.jobsOf_new returned ⟨manga, provider⟩ ⟨⟨ch, member, same⟩, notIn⟩]
  · intro p unwanted
    have earlier : ¬ Wanted l pull.payload.mangaID pull.payload.providerID before
        (lists (left ++ right)) p := fun ⟨manga, provider, absent, listed⟩ =>
      unwanted ⟨manga, provider, absent, listed_lists.mpr (.inl listed)⟩
    rw [jobsOf_children, settled.others p earlier, old]
    rintro ⟨⟨manga, provider⟩, ⟨ch, member, same⟩, notIn⟩
    have isPlain : l.plain p.chapterID = true := same ▸ plain.chapter ch member
    refine unwanted ⟨manga, provider, ?_, listed_lists.mpr (.inr ⟨ch, member, same⟩)⟩
    rw [← Bool.not_eq_true]
    intro wasIn
    have isIn := (settled.saved p.chapterID isPlain).mpr (.inl wasIn)
    exact Bool.false_ne_true (notIn.symm.trans isIn)

/-! ## Every interleaving -/

/-- The runs that have returned. -/
def done (s : FanOut) : List PullManga := s.runs.filterMap FanOutRun.done

/-- Without a run in its section, the library is what the finished runs have made of it;
a run in its section found it so. -/
structure Account (l : Layout) (mangaID providerID : String) (before : Disk)
    (jobs : List PullMangaJob) (s : FanOut) : Prop where
  asked : s.runs.map FanOutRun.job = jobs
  exclusive : s.runs.countP FanOutRun.holds ≤ 1
  free : (∀ run ∈ s.runs, run.holds = false) →
    Settled l mangaID providerID before s.disk s.done
  busy : ∀ pull, .holding pull ∈ s.runs →
    ∃ entry, Settled l mangaID providerID before entry s.done ∧
      InSection l entry { pull with disk := s.disk }

theorem account_start (disk : Disk) :
    Account l mangaID providerID disk jobs (start disk jobs) where
  asked := by simp [start, Function.comp_def, FanOutRun.job]
  exclusive := by simp [start, List.countP_map, Function.comp_def, FanOutRun.holds]
  free := by
    intro _
    have nothing : (start disk jobs).done = [] := by
      simp [done, start, List.filterMap_map, Function.comp_def, FanOutRun.done]
    rw [nothing]
    exact settled_nil disk
  busy := by simp [start]

theorem Account.mem_jobs {s : FanOut} (account : Account l mangaID providerID before jobs s)
    {left right : List FanOutRun} {run : FanOutRun} (at_ : s.runs = left ++ run :: right) :
    run.job ∈ jobs := by
  rw [← account.asked, at_]
  simp

/-- No run of the list is in its section. -/
def NoneHolds (runs : List FanOutRun) : Prop := ∀ run ∈ runs, run.holds = false

theorem NoneHolds.countP {runs : List FanOutRun} (none : NoneHolds runs) :
    runs.countP FanOutRun.holds = 0 := by
  rw [List.countP_eq_zero]
  intro run member
  simp [none run member]

theorem noneHolds_append {left right : List FanOutRun} :
    NoneHolds (left ++ right) ↔ NoneHolds left ∧ NoneHolds right := by
  simp only [NoneHolds, List.mem_append]
  constructor
  · exact fun both =>
      ⟨fun run inLeft => both run (.inl inLeft), fun run inRight => both run (.inr inRight)⟩
  · exact fun each run member => member.elim (each.1 run) (each.2 run)

/-- The only run in its section is the one in the middle. -/
theorem NoneHolds.only {left right : List FanOutRun} (none : NoneHolds (left ++ right))
    {pull other : PullManga} (member : .holding other ∈ left ++ .holding pull :: right) :
    other = pull := by
  rw [List.mem_append, List.mem_cons] at member
  rcases member with inLeft | isOwn | inRight
  · exact (Bool.false_ne_true (none _ (List.mem_append_left _ inLeft)).symm).elim
  · exact FanOutRun.holding.inj isOwn
  · exact (Bool.false_ne_true (none _ (List.mem_append_right _ inRight)).symm).elim

theorem Account.holding {disk : Disk} {left right : List FanOutRun} {pull : PullManga}
    {entry : Disk} (asked : (left ++ .holding pull :: right).map FanOutRun.job = jobs)
    (alone : NoneHolds (left ++ right))
    (settled : Settled l mangaID providerID before entry
      ((left ++ right).filterMap FanOutRun.done))
    (inSection : InSection l entry { pull with disk }) :
    Account l mangaID providerID before jobs ⟨disk, left ++ .holding pull :: right⟩ where
  asked := asked
  exclusive := by
    rcases noneHolds_append.mp alone with ⟨noneLeft, noneRight⟩
    rw [List.countP_append, List.countP_cons, noneLeft.countP, noneRight.countP]
    rfl
  free := by
    intro noneHolds
    have held := noneHolds (.holding pull) (by simp)
    contradiction
  busy := by
    intro other member
    rcases alone.only member with rfl
    refine ⟨entry, ?_, inSection⟩
    rw [List.filterMap_append] at settled
    rwa [done, List.filterMap_append, List.filterMap_cons_none rfl]

theorem Account.left {left right : List FanOutRun} {pull : PullManga} {entry : Disk}
    (same : SameTitle l mangaID providerID jobs)
    (asked : (left ++ .left pull :: right).map FanOutRun.job = jobs)
    (alone : NoneHolds (left ++ right))
    (settled : Settled l mangaID providerID before entry
      ((left ++ right).filterMap FanOutRun.done))
    (inSection : InSection l entry pull) (returned : pull.point = .returned true) :
    Account l mangaID providerID before jobs ⟨pull.disk, left ++ .left pull :: right⟩ where
  asked := asked
  exclusive := by
    rcases noneHolds_append.mp alone with ⟨noneLeft, noneRight⟩
    rw [List.countP_append, List.countP_cons, noneLeft.countP, noneRight.countP]
    exact Nat.zero_le 1
  free := by
    intro _
    have inJobs : (FanOutRun.left pull).job ∈ jobs := by
      rw [← asked]
      simp
    rw [List.filterMap_append] at settled
    have doneNow : done ⟨pull.disk, left ++ .left pull :: right⟩ =
        left.filterMap FanOutRun.done ++ pull :: right.filterMap FanOutRun.done := by
      simp [done, FanOutRun.done]
    rw [doneNow]
    exact settled.add (same.mangaID _ inJobs) (same.providerID _ inJobs) (same.plain _ inJobs)
      inSection returned
  busy := by
    intro other member
    have inOthers : FanOutRun.holding other ∈ left ++ right := by simpa using member
    exact (Bool.false_ne_true (alone _ inOthers).symm).elim

/-- The run in its section goes on or leaves it without an error. -/
theorem Account.settle {left right : List FanOutRun} {pull : PullManga} {entry : Disk}
    (same : SameTitle l mangaID providerID jobs)
    (asked : (left ++ .left pull :: right).map FanOutRun.job = jobs)
    (alone : NoneHolds (left ++ right))
    (settled : Settled l mangaID providerID before entry
      ((left ++ right).filterMap FanOutRun.done))
    (inSection : InSection l entry pull) (fine : pull.point ≠ .returned false) :
    Account l mangaID providerID before jobs ⟨pull.disk, left ++ .settle pull :: right⟩ := by
  have goesOn (running : ∀ ok, pull.point ≠ .returned ok) :
      FanOutRun.settle pull = .holding pull := by
    cases point : pull.point with
    | returned ok => exact absurd point (running ok)
    | loop | creating | enqueuing | coverClaim | bindings => simp [FanOutRun.settle, point]
  by_cases running : ∀ ok, pull.point ≠ .returned ok
  · rw [goesOn running]
    exact .holding (by simpa [FanOutRun.job] using asked) alone settled inSection
  · rcases not_forall_not.mp running with ⟨ok, returned⟩
    cases ok with
    | false => exact absurd returned fine
    | true =>
        rw [show FanOutRun.settle pull = .left pull by simp [FanOutRun.settle, returned]]
        exact .left same asked alone settled inSection returned

/-- Two runs of one title are never inside their sections together. -/
theorem noneHolds_of_isFree {s : FanOut} (same : SameTitle l mangaID providerID jobs)
    (account : Account l mangaID providerID before jobs s)
    (free : s.isFree (getMangaLock mangaID) = true) :
    NoneHolds s.runs := by
  intro run member
  have own := List.all_eq_true.mp free run member
  have inJobs : run.job ∈ jobs := account.asked ▸ List.mem_map_of_mem member
  rw [same.mangaID _ inJobs] at own
  simpa using own

theorem Account.step {s s' : FanOut} (same : SameTitle l mangaID providerID jobs)
    (account : Account l mangaID providerID before jobs s) (moved : Moved l s s')
    (fine : s'.runs.all FanOutRun.isFine = true) :
    Account l mangaID providerID before jobs s' := by
  have fineRun : ∀ {pull : PullManga} {left right : List FanOutRun} {disk : Disk},
      (FanOut.mk disk (left ++ .settle pull :: right)).runs.all FanOutRun.isFine = true →
      pull.point ≠ .returned false := by
    intro pull left right disk fine returned
    have own := List.all_eq_true.mp fine (.settle pull) (by simp)
    simp [FanOutRun.settle, returned, FanOutRun.isFine] at own
  cases moved with
  | @fetched left job right at_ =>
      have doneSame : done { s with runs := left ++ .waiting job :: right } = s.done := by
        simp only [done, at_, List.filterMap_append]
        rw [List.filterMap_cons_none rfl, List.filterMap_cons_none rfl]
      refine ⟨?_, ?_, ?_, ?_⟩
      · rw [← account.asked, at_]
        simp [FanOutRun.job]
      · have exclusive := account.exclusive
        rw [at_] at exclusive
        simpa [List.countP_append, FanOutRun.holds] using exclusive
      · intro noneHolds
        rw [doneSame]
        apply account.free
        intro run member
        rw [at_, List.mem_append, List.mem_cons] at member
        rcases member with inLeft | rfl | inRight
        · exact noneHolds run (by simp [inLeft])
        · rfl
        · exact noneHolds run (by simp [inRight])
      · intro pull member
        rw [doneSame]
        apply account.busy pull
        rw [at_]
        simpa using member
  | @fetchFailed left job right at_ =>
      have own := List.all_eq_true.mp fine (.left (job.enter s.disk)) (by simp)
      simp [FanOutRun.isFine, PullMangaJob.enter, queued] at own
  | @locked left job right now pull at_ free moved =>
      have inJobs : job ∈ jobs := account.mem_jobs at_
      rw [same.mangaID job inJobs] at free
      have none := noneHolds_of_isFree same account free
      have settled := account.free none
      rw [done, at_, List.filterMap_append, List.filterMap_cons_none rfl,
        ← List.filterMap_append] at settled
      have alone : NoneHolds (left ++ right) := by
        intro run member
        apply none run
        rw [at_]
        exact (List.mem_append.mp member).elim (List.mem_append_left _)
          fun inRight => List.mem_append_right _ (List.mem_cons_of_mem _ inRight)
      have asked : (left ++ .left pull :: right).map FanOutRun.job = jobs := by
        rcases moved.keeps with ⟨jobID, payload, upstream⟩
        rw [← account.asked, at_]
        simp [FanOutRun.job, jobID, payload, upstream, PullMangaJob.enter, queued]
      exact .settle same asked alone settled
        ((inSection_enter l job s.disk).step (same.plain job inJobs) moved (fineRun fine))
        (fineRun fine)
  | @inside left pull right action pull' at_ moved =>
      have plain : Plain l pull.payload pull.upstream := same.plain _ (account.mem_jobs at_)
      rcases account.busy pull (by simp [at_]) with ⟨entry, settled, inSection⟩
      rw [done, at_, List.filterMap_append, List.filterMap_cons_none rfl,
        ← List.filterMap_append] at settled
      have alone : NoneHolds (left ++ right) := by
        have exclusive := account.exclusive
        rw [at_, List.countP_append, List.countP_cons_of_pos rfl] at exclusive
        have none : (left ++ right).countP FanOutRun.holds = 0 := by
          rw [List.countP_append]
          omega
        rw [List.countP_eq_zero] at none
        exact fun run member => Bool.not_eq_true _ ▸ none run member
      have asked : (left ++ .left pull' :: right).map FanOutRun.job = jobs := by
        rcases moved.keeps with ⟨jobID, payload, upstream⟩
        rw [← account.asked, at_]
        simp [FanOutRun.job, jobID, payload, upstream]
      exact .settle same asked alone settled
        (InSection.step (s := { pull with disk := s.disk }) plain inSection moved (fineRun fine))
        (fineRun fine)

theorem Account.settled {s : FanOut} (account : Account l mangaID providerID before jobs s)
    (finished : s.finished = true) :
    Settled l mangaID providerID before s.disk s.done ∧
      lists s.done = jobs.map PullMangaJob.upstream ∧ children s.done = s.enqueued := by
  have allLeft : ∀ run ∈ s.runs, ∃ pull, run = .left pull := by
    intro run member
    have isDone := List.all_eq_true.mp finished run member
    cases run with
    | left pull => exact ⟨pull, rfl⟩
    | fetching | waiting | holding => simp [FanOutRun.done] at isDone
  have listsOf : ∀ runs : List FanOutRun, (∀ run ∈ runs, ∃ pull, run = .left pull) →
      lists (runs.filterMap FanOutRun.done) = (runs.map FanOutRun.job).map PullMangaJob.upstream ∧
      children (runs.filterMap FanOutRun.done) = runs.flatMap FanOutRun.enqueued := by
    intro runs allLeft
    induction runs with
    | nil => exact ⟨rfl, rfl⟩
    | cons run runs induction =>
        rcases allLeft run List.mem_cons_self with ⟨pull, rfl⟩
        rcases induction fun run member => allLeft run (List.mem_cons_of_mem _ member) with
          ⟨lists_, children_⟩
        constructor
        · simpa [lists, FanOutRun.done, FanOutRun.job] using lists_
        · simpa [children, FanOutRun.done, FanOutRun.enqueued] using children_
  refine ⟨account.free ?_, ?_, (listsOf s.runs allLeft).2⟩
  · intro run member
    rcases allLeft run member with ⟨pull, rfl⟩
    rfl
  · rw [← account.asked]
    exact (listsOf s.runs allLeft).1

/-- Concurrent `pull_manga` runs of one title none of whose operations fails come to an end,
and at the end each chapter that was not in the library and occurs in some list is in it and
has one `pull_chapter` job over all runs together; there are no other such jobs. -/
theorem one_job_per_new_chapter (same : SameTitle l mangaID providerID jobs)
    {actions : List FanOutAction} {last : FanOut}
    (run : Run (step l) (fun s action => s.succeeds l action = true) (start before jobs) actions
      last) :
    actions.length ≤ (start before jobs).stepsLeft ∧
    (last.finished = false →
      ∃ action : FanOutAction, action.attempts = true ∧ (step l last action).isSome) ∧
    (last.finished = true → ∀ p,
      (Wanted l mangaID providerID before (jobs.map PullMangaJob.upstream) p →
        jobsOf last.enqueued p = 1 ∧
          inLibrary l mangaID providerID last.disk p.chapterID = true) ∧
      (¬ Wanted l mangaID providerID before (jobs.map PullMangaJob.upstream) p →
        jobsOf last.enqueued p = 0)) := by
  have inside : last.Inside := run.invariant FanOut.Inside
    (fun _ _ _ _ inside taken => inside.step (step_moved taken)) (inside_start before jobs)
  have account : Account l mangaID providerID before jobs last := by
    apply run.invariant (Account l mangaID providerID before jobs) _ (account_start before)
    intro s action s' succeeds account taken
    rw [FanOut.succeeds, taken] at succeeds
    exact account.step same (step_moved taken) succeeds
  refine ⟨length_le_stepsLeft run (inside_start before jobs), exists_attempt l inside, ?_⟩
  intro finished p
  rcases account.settled finished with ⟨settled, lists_, children_⟩
  rw [← lists_, ← children_]
  refine ⟨fun wanted => ⟨settled.once p wanted, ?_⟩, settled.others p⟩
  rcases wanted with ⟨_, _, _, listed⟩
  have isPlain : l.plain p.chapterID = true := by
    rw [lists_] at listed
    rcases listed with ⟨_, inLists, ch, member, same_⟩
    rcases List.mem_map.mp inLists with ⟨job, inJobs, rfl⟩
    exact same_ ▸ (same.plain job inJobs).chapter ch member
  exact (settled.saved p.chapterID isPlain).mpr (.inr listed)

/-- Two runs with the same list; the second one fetches it while the first one saves it. -/
theorem one_job_per_new_chapter_two_runs :
    ∃ last : FanOut, last.finished = true ∧
      jobsOf last.enqueued ⟨"frieren", "mangadex", "1"⟩ = 1 ∧
      inLibrary plainLayout "frieren" "mangadex" last.disk "1" = true := by
  have executed : (Run.execute (step plainLayout) (succeeds plainLayout)
      (start emptyDisk
        [⟨"pull-1", frieren, [firstChapter]⟩, ⟨"pull-2", frieren, [firstChapter]⟩])
      [.fetch 0, .lock 0 Time.zero, .inside 0 .nextChapter, .fetch 1, .inside 0 .createJob,
        .inside 0 .enqueue, .inside 0 .nextChapter, .inside 0 .claimCover,
        .inside 0 .stampBindings, .lock 1 Time.zero, .inside 1 .nextChapter,
        .inside 1 .nextChapter, .inside 1 .claimCover, .inside 1 .stampBindings]).map
      FanOut.finished = some true := by decide +kernel
  rcases Option.map_eq_some_iff.mp executed with ⟨last, executed, finished⟩
  have same : SameTitle plainLayout "frieren" "mangadex"
      [⟨"pull-1", frieren, [firstChapter]⟩, ⟨"pull-2", frieren, [firstChapter]⟩] := by
    constructor
    · simp [frieren]
    · simp [frieren]
    · have plain : Plain plainLayout frieren [firstChapter] :=
        ⟨by decide +kernel, by decide +kernel, by decide +kernel⟩
      simp [plain]
  have wanted : Wanted plainLayout "frieren" "mangadex" emptyDisk [[firstChapter], [firstChapter]]
      ⟨"frieren", "mangadex", "1"⟩ :=
    ⟨rfl, rfl, by decide +kernel, [firstChapter], List.mem_cons_self, firstChapter,
      List.mem_cons_self, rfl⟩
  exact ⟨last, finished,
    ((one_job_per_new_chapter same (Run.ofExecute executed)).2.2 finished _).1 wanted⟩

end FanOut

end Kiyomi.Queue
