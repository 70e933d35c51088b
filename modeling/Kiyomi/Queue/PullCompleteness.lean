import Kiyomi.Queue.PullManga

namespace Kiyomi.Queue

open Go Library

/-! # Completeness of `pull_manga` over its retries

A chapter is new when the library did not have it before the first run. Once a run has
saved a new chapter, no later run gives it a job, so it has its one job exactly if that
run enqueued it. -/

/-- The library has a readable chapter of this id. -/
def present (l : Layout) (payload : PullMangaPayload) (disk : Disk) (id : String) : Bool :=
  (l.getChapter disk payload.mangaID payload.providerID id).isSome

namespace PullManga

variable {l : Layout} {payload : PullMangaPayload} {upstream : List Chapter}
  {before : Disk} {s s' : PullManga} {action : PullAction}

theorem present_congr {disk disk' : Disk} (same : SameChapters disk disk') (id : String) :
    present l payload disk' id = present l payload disk id := by
  apply Bool.eq_iff_iff.mpr
  simp only [present, Layout.getChapter_isSome_iff, same _]

/-- The upstream ids that are new can be told apart by the directories they name. -/
structure PlainChapters (l : Layout) (payload : PullMangaPayload) (upstream : List Chapter)
    (before : Disk) : Prop where
  provider : l.plain payload.providerID = true
  chapter : ∀ ch ∈ upstream, present l payload before ch.id = false → l.plain ch.id = true
  distinct : ((upstream.map Chapter.id).filter fun id => !present l payload before id).Nodup

/-- A new chapter of the upstream list. -/
def IsNew (l : Layout) (payload : PullMangaPayload) (upstream : List Chapter) (before : Disk)
    (id : String) : Prop :=
  (∃ ch ∈ upstream, ch.id = id) ∧ present l payload before id = false

/-- The enqueued `pull_chapter` jobs for a chapter. -/
def jobsFor (s : PullManga) (id : String) : Nat := s.enqueued.countP (ChildJob.pulls id)

/-- Every new chapter is in the library and has exactly one job. -/
def Complete (l : Layout) (payload : PullMangaPayload) (upstream : List Chapter) (before : Disk)
    (s : PullManga) : Prop :=
  ∀ id, IsNew l payload upstream before id → present l payload s.disk id = true ∧ s.jobsFor id = 1

/-- `CreateJob` or `Enqueue` do not fail for a chapter that is new. -/
def enqueuesNew (l : Layout) (before : Disk) (s : PullManga) : PullAction → Bool
  | .createJobFails _ | .enqueueFails _ =>
      match s.point.child.map ChildJob.payload with
      | some (.pullChapter payload) =>
          (l.getChapter before payload.mangaID payload.providerID payload.chapterID).isSome
      | _ => true
  | _ => true

theorem plain_of_isNew (plain : PlainChapters l payload upstream before) {id : String}
    (new : IsNew l payload upstream before id) : l.plain id = true := by
  rcases new with ⟨⟨ch, member, rfl⟩, absent⟩
  exact plain.chapter ch member absent

/-- Saving a chapter of the list adds it and no other new chapter. -/
theorem present_saveChapter (plain : PlainChapters l payload upstream before) {disk disk' : Disk}
    (kept : ∀ dir, readable before dir → readable disk dir) {ch : Chapter} (member : ch ∈ upstream)
    {chMeta : ChapterMeta}
    (saved : l.saveChapter disk payload.mangaID payload.providerID ch.id chMeta = some disk') :
    present l payload disk' ch.id = true ∧
      ∀ id, IsNew l payload upstream before id → id ≠ ch.id →
        present l payload disk' id = present l payload disk id := by
  rcases Layout.readable_saveChapter saved with ⟨dir, located, changed⟩
  constructor
  · exact Layout.getChapter_isSome_iff.mpr ⟨dir, located, (changed dir).mpr (.inl rfl)⟩
  · intro id new different
    apply Bool.eq_iff_iff.mpr
    simp only [present, Layout.getChapter_isSome_iff, changed]
    constructor
    · intro found
      rcases found with ⟨other, otherLocated, same | already⟩
      · subst same
        by_cases chNew : present l payload before ch.id = false
        · -- two plain ids with one directory are the same id
          cases mangaLocated : l.mangaDir payload.mangaID with
          | error refused =>
              simp [Layout.providerChapterDir, mangaLocated] at located
          | ok mDir =>
              rw [Layout.providerChapterDir_of_plain mangaLocated plain.provider
                (plain.chapter ch member chNew), Except.ok.injEq] at located
              rw [Layout.providerChapterDir_of_plain mangaLocated plain.provider
                (plain_of_isNew plain new), Except.ok.injEq, ← located] at otherLocated
              exact absurd (by simpa using otherLocated) different
        · rw [Bool.not_eq_false] at chNew
          rcases Layout.getChapter_isSome_iff.mp chNew with ⟨dir', located', wasReadable⟩
          rw [located, Except.ok.injEq] at located'
          exact ⟨other, otherLocated, kept other (located' ▸ wasReadable)⟩
      · exact ⟨other, otherLocated, already⟩
    · intro found
      rcases found with ⟨other, otherLocated, already⟩
      exact ⟨other, otherLocated, .inr already⟩

/-! ## The invariant -/

/-- The loop has dealt with a first part of the list, and the listing of this run tells
which of the remaining new chapters earlier runs have saved. -/
def Upto (l : Layout) (payload : PullMangaPayload) (upstream : List Chapter) (before disk : Disk)
    (existing : List String) (chapters : List Chapter) : Prop :=
  ∃ done, upstream = done ++ chapters ∧
    (∀ ch ∈ done, present l payload before ch.id = false → present l payload disk ch.id = true) ∧
    ∀ ch ∈ chapters, present l payload before ch.id = false →
      (ch.id ∈ existing ↔ present l payload disk ch.id = true)

def AllPresent (l : Layout) (payload : PullMangaPayload) (upstream : List Chapter)
    (before disk : Disk) : Prop :=
  ∀ ch ∈ upstream, present l payload before ch.id = false → present l payload disk ch.id = true

/-- What holds at a point where the run goes on with `resume` after the child job. -/
def Resumes (l : Layout) (payload : PullMangaPayload) (upstream : List Chapter) (before : Disk)
    (s : PullManga) (child : ChildJob) : PullResume → Prop
  | .nextChapter existing chapters =>
      Upto l payload upstream before s.disk existing chapters ∧
      ∃ ch ∈ upstream, child = s.chapterJob ch.id ∧ present l payload s.disk ch.id = true
  | .stampBindings =>
      AllPresent l payload upstream before s.disk ∧ ∀ id, child.pulls id = false

def AtPoint (l : Layout) (payload : PullMangaPayload) (upstream : List Chapter) (before : Disk)
    (s : PullManga) : PullPoint → Prop
  | .loop existing chapters => Upto l payload upstream before s.disk existing chapters
  | .creating child resume | .enqueuing child resume =>
      Resumes l payload upstream before s child resume
  | .coverClaim | .bindings | .returned true => AllPresent l payload upstream before s.disk
  | .returned false => True

/-- The run is about to give the chapter its job. -/
def awaits (s : PullManga) (id : String) : Bool := s.point.child.any (ChildJob.pulls id)

structure Accounted (l : Layout) (payload : PullMangaPayload) (upstream : List Chapter)
    (before : Disk) (s : PullManga) : Prop where
  payloadEq : s.payload = payload
  upstreamEq : s.upstream = upstream
  kept : ∀ dir, readable before dir → readable s.disk dir
  counted : ∀ id, IsNew l payload upstream before id →
    s.jobsFor id = if present l payload s.disk id && !s.awaits id then 1 else 0
  atPoint : AtPoint l payload upstream before s s.point

theorem queued_accounted (jobID : String) :
    Accounted l payload upstream before (queued jobID payload upstream before) where
  payloadEq := rfl
  upstreamEq := rfl
  kept := fun _ found => found
  counted := by
    intro id new
    simp [queued, jobsFor, new.2]
  atPoint := trivial

theorem AllPresent.congr {disk disk' : Disk} (same : SameChapters disk disk')
    (all : AllPresent l payload upstream before disk) :
    AllPresent l payload upstream before disk' := by
  simpa only [AllPresent, present_congr same] using all

/-- A run that ends while no new chapter waits for its job keeps the account. -/
theorem Accounted.fails (accounted : Accounted l payload upstream before s) {disk : Disk}
    (same : SameChapters s.disk disk)
    (settled : ∀ id, IsNew l payload upstream before id → s.awaits id = false) :
    Accounted l payload upstream before (s.fails disk) where
  payloadEq := accounted.payloadEq
  upstreamEq := accounted.upstreamEq
  kept := fun dir found => (same dir).mpr (accounted.kept dir found)
  counted := by
    intro id new
    have counted := accounted.counted id new
    rw [settled id new] at counted
    change s.jobsFor id = _
    rw [counted, PullManga.fails, present_congr same]
    rfl
  atPoint := trivial

/-- A child job that waits is the job of its chapter or a cover job. -/
theorem Accounted.child (accounted : Accounted l payload upstream before s) {child : ChildJob}
    (point : s.point.child = some child) :
    (∃ ch ∈ upstream, child = s.chapterJob ch.id ∧ present l payload s.disk ch.id = true) ∨
      ∀ id, child.pulls id = false := by
  have atPoint := accounted.atPoint
  cases at_ : s.point with
  | creating waiting resume | enqueuing waiting resume =>
      rw [at_] at point atPoint
      simp only [PullPoint.child, Option.some.injEq] at point
      subst point
      cases resume with
      | nextChapter existing chapters => exact .inl atPoint.2
      | stampBindings => exact .inr atPoint.2
  | loop | coverClaim | bindings | returned => simp [at_, PullPoint.child] at point

theorem pulls_chapterJob {id chapterID : String} :
    (s.chapterJob chapterID).pulls id = true ↔ chapterID = id := by
  simp [chapterJob, ChildJob.pulls]

/-- When the failures spare the new chapters, none of them waits at a failure. -/
theorem Accounted.settled (accounted : Accounted l payload upstream before s) {child : ChildJob}
    (point : s.point.child = some child)
    (failure : (∃ released, action = .createJobFails released) ∨
      ∃ released, action = .enqueueFails released)
    (spared : s.enqueuesNew l before action = true) (id : String)
    (new : IsNew l payload upstream before id) : s.awaits id = false := by
  rw [awaits, point, Option.any_some]
  rcases accounted.child point with ⟨ch, _, rfl, _⟩ | cover
  · have old : present l payload before ch.id = true := by
      rcases failure with ⟨released, rfl⟩ | ⟨released, rfl⟩ <;>
        simpa [enqueuesNew, point, chapterJob, present, accounted.payloadEq] using spared
    by_contra waits
    rw [Bool.not_eq_false, pulls_chapterJob] at waits
    rw [waits, new.2] at old
    contradiction
  · exact cover id

theorem Moved.accounted (plain : PlainChapters l payload upstream before)
    (accounted : Accounted l payload upstream before s) (moved : Moved l s action s')
    (spared : s.enqueuesNew l before action = true) :
    Accounted l payload upstream before s' := by
  have atPoint := accounted.atPoint
  cases moved with
  | @started now ok existing point listed =>
      refine ⟨accounted.payloadEq, accounted.upstreamEq, accounted.kept, ?_, ?_⟩
      · intro id new
        have counted := accounted.counted id new
        rwa [awaits, point] at counted
      · refine ⟨[], accounted.upstreamEq.symm, by simp, ?_⟩
        intro ch member absent
        rw [accounted.upstreamEq] at member
        rw [accounted.payloadEq] at listed
        exact Layout.mem_listChapters listed plain.provider (plain.chapter ch member absent)
  | failed alone same =>
      apply accounted.fails same
      intro id _
      rw [awaits, alone]
      rfl
  | childFailed point failure same =>
      exact accounted.fails same (accounted.settled point failure spared)
  | @skipped existing ch chapters point listed =>
      rw [point] at atPoint
      rcases atPoint with ⟨done, parts, doneIn, listing⟩
      refine ⟨accounted.payloadEq, accounted.upstreamEq, accounted.kept, ?_, ?_⟩
      · intro id new
        have counted := accounted.counted id new
        rwa [awaits, point] at counted
      · refine ⟨done ++ [ch], by simp [parts], ?_, ?_⟩
        · intro other member absent
          rcases List.mem_append.mp member with earlier | last
          · exact doneIn other earlier absent
          · rw [List.mem_singleton.mp last] at absent ⊢
            exact (listing ch List.mem_cons_self absent).mp listed
        · exact fun other member => listing other (List.mem_cons_of_mem _ member)
  | @saved existing ch chapters chMeta disk point unlisted saved =>
      rw [point] at atPoint
      rcases atPoint with ⟨done, parts, doneIn, listing⟩
      have member : ch ∈ upstream := by simp [parts]
      rw [accounted.payloadEq] at saved
      rcases present_saveChapter plain accounted.kept member saved with ⟨nowIn, others⟩
      rcases Layout.readable_saveChapter saved with ⟨dir, _, changed⟩
      have stays : ∀ id, IsNew l payload upstream before id →
          present l payload s.disk id = true → present l payload disk id = true := by
        intro id new isIn
        by_cases same : id = ch.id
        · rw [same, nowIn]
        · rw [others id new same, isIn]
      refine ⟨accounted.payloadEq, accounted.upstreamEq, ?_, ?_, ?_⟩
      · exact fun other found => (changed other).mpr (.inr (accounted.kept other found))
      · intro id new
        have counted := accounted.counted id new
        rw [awaits, point] at counted
        change s.jobsFor id = if present l payload disk id && !(s.chapterJob ch.id).pulls id
          then 1 else 0
        rw [counted]
        by_cases same : ch.id = id
        · have absent : present l payload s.disk id = false := by
            rw [← Bool.not_eq_true, ← same, ← listing ch List.mem_cons_self (same ▸ new.2)]
            exact unlisted
          simp [absent, pulls_chapterJob.mpr same]
        · have other : (s.chapterJob ch.id).pulls id = false := by
            rw [← Bool.not_eq_true, pulls_chapterJob]
            exact same
          simp [others id new (Ne.symm same), other, PullPoint.child]
      · refine ⟨⟨done ++ [ch], by simp [parts], ?_, ?_⟩, ch, member, rfl, nowIn⟩
        · intro other isDone absent
          rcases List.mem_append.mp isDone with earlier | last
          · have new : IsNew l payload upstream before other.id :=
              ⟨⟨other, by simp [parts, earlier], rfl⟩, absent⟩
            exact stays other.id new (doneIn other earlier absent)
          · rw [List.mem_singleton.mp last]
            exact nowIn
        · intro other later absent
          have new : IsNew l payload upstream before other.id :=
            ⟨⟨other, by simp [parts, later], rfl⟩, absent⟩
          have different : other.id ≠ ch.id := by
            intro same
            have distinct := plain.distinct
            rw [parts, List.map_append, List.map_cons, List.filter_append, List.filter_cons,
              if_pos (by rw [← same, absent]; rfl)] at distinct
            have once := (List.nodup_cons.mp (List.nodup_append.mp distinct).2.1).1
            apply once
            rw [List.mem_filter]
            exact ⟨same ▸ List.mem_map_of_mem later, by rw [← same, absent]; rfl⟩
          rw [others other.id new different]
          exact listing other (List.mem_cons_of_mem _ later) absent
  | @created child resume point =>
      rw [point] at atPoint
      refine ⟨accounted.payloadEq, accounted.upstreamEq, accounted.kept, ?_, ?_⟩
      · intro id new
        have counted := accounted.counted id new
        rwa [awaits, point] at counted
      · cases resume <;> exact atPoint
  | @enqueued child resume point =>
      have waits : s.point.child = some child := by
        rw [point]
        rfl
      have waiting := accounted.child waits
      rw [point] at atPoint
      refine ⟨accounted.payloadEq, accounted.upstreamEq, accounted.kept, ?_, ?_⟩
      · intro id new
        have counted := accounted.counted id new
        rw [awaits, point] at counted
        change (child :: s.enqueued).countP (ChildJob.pulls id) =
          if present l payload s.disk id && !resume.point.child.any (ChildJob.pulls id) then 1 else 0
        rw [jobsFor] at counted
        rw [List.countP_cons, counted, PullResume.child_point]
        by_cases pulls : child.pulls id = true
        · have isIn : present l payload s.disk id = true := by
            rcases waiting with ⟨ch, _, rfl, isIn⟩ | cover
            · rwa [pulls_chapterJob.mp pulls] at isIn
            · simp [cover id] at pulls
          simp [PullPoint.child, pulls, isIn]
        · simp [PullPoint.child, pulls]
      · cases resume with
        | nextChapter existing chapters => exact atPoint.1
        | stampBindings => exact atPoint.1
  | @chaptersDone existing point =>
      rw [point] at atPoint
      rcases atPoint with ⟨done, parts, doneIn, _⟩
      refine ⟨accounted.payloadEq, accounted.upstreamEq, accounted.kept, ?_, ?_⟩
      · intro id new
        have counted := accounted.counted id new
        rwa [awaits, point] at counted
      · rw [List.append_nil] at parts
        exact fun ch member => doneIn ch (parts ▸ member)
  | @coverDone disk point same =>
      rw [point] at atPoint
      refine ⟨accounted.payloadEq, accounted.upstreamEq,
        fun dir found => (same dir).mpr (accounted.kept dir found), ?_, atPoint.congr same⟩
      intro id new
      have counted := accounted.counted id new
      rw [awaits, point] at counted
      change s.jobsFor id = _
      rw [counted, present_congr same]
      rfl
  | @coverClaimed disk point same =>
      rw [point] at atPoint
      refine ⟨accounted.payloadEq, accounted.upstreamEq,
        fun dir found => (same dir).mpr (accounted.kept dir found), ?_, atPoint.congr same, ?_⟩
      · intro id new
        have counted := accounted.counted id new
        rw [awaits, point] at counted
        change s.jobsFor id = _
        rw [counted, present_congr same]
        rfl
      · exact fun id => rfl
  | @stamped disk point same =>
      rw [point] at atPoint
      refine ⟨accounted.payloadEq, accounted.upstreamEq,
        fun dir found => (same dir).mpr (accounted.kept dir found), ?_, atPoint.congr same⟩
      intro id new
      have counted := accounted.counted id new
      rw [awaits, point] at counted
      change s.jobsFor id = _
      rw [counted, present_congr same]
      rfl

/-! ## A chapter without its job -/

/-- The run's listing has the chapter, and the job that waits is not for it. -/
def Passed (id : String) (child : Option ChildJob) (existing : List String) : Prop :=
  id ∈ existing ∧ child.any (ChildJob.pulls id) = false

/-- A chapter that was saved and will not get a job. -/
structure Lost (l : Layout) (payload : PullMangaPayload) (s : PullManga) (id : String) : Prop where
  payloadEq : s.payload = payload
  isIn : present l payload s.disk id = true
  jobless : s.jobsFor id = 0
  atPoint :
    match s.point with
    | .loop existing _ => Passed id none existing
    | .creating child (.nextChapter existing _) | .enqueuing child (.nextChapter existing _) =>
        Passed id (some child) existing
    | .creating child .stampBindings | .enqueuing child .stampBindings => child.pulls id = false
    | _ => True

theorem Moved.lost (plain : PlainChapters l payload upstream before) {id : String}
    (new : IsNew l payload upstream before id) (lost : Lost l payload s id)
    (moved : Moved l s action s') : Lost l payload s' id := by
  have atPoint := lost.atPoint
  have payloadEq := lost.payloadEq
  cases moved with
  | @started now ok existing point listed =>
      refine ⟨payloadEq, lost.isIn, lost.jobless, ?_, rfl⟩
      rw [payloadEq] at listed
      exact (Layout.mem_listChapters listed plain.provider (plain_of_isNew plain new)).mpr lost.isIn
  | failed alone same =>
      exact ⟨payloadEq, (present_congr same id).trans lost.isIn, lost.jobless, trivial⟩
  | childFailed point failure same =>
      exact ⟨payloadEq, (present_congr same id).trans lost.isIn, lost.jobless, trivial⟩
  | @skipped existing ch chapters point listed =>
      rw [point] at atPoint
      exact ⟨payloadEq, lost.isIn, lost.jobless, atPoint⟩
  | @saved existing ch chapters chMeta disk point unlisted saved =>
      rw [point] at atPoint
      have other : (s.chapterJob ch.id).pulls id = false := by
        rw [← Bool.not_eq_true, pulls_chapterJob]
        intro same
        exact unlisted (same ▸ atPoint.1)
      refine ⟨payloadEq, ?_, lost.jobless, atPoint.1, other⟩
      rw [payloadEq] at saved
      rcases Layout.readable_saveChapter saved with ⟨dir, _, changed⟩
      rcases Layout.getChapter_isSome_iff.mp lost.isIn with ⟨own, located, found⟩
      exact Layout.getChapter_isSome_iff.mpr ⟨own, located, (changed own).mpr (.inr found)⟩
  | @created child resume point =>
      rw [point] at atPoint
      exact ⟨payloadEq, lost.isIn, lost.jobless, by cases resume <;> exact atPoint⟩
  | @enqueued child resume point =>
      rw [point] at atPoint
      have other : child.pulls id = false := by
        cases resume with
        | nextChapter existing chapters => exact atPoint.2
        | stampBindings => exact atPoint
      refine ⟨payloadEq, lost.isIn, ?_, ?_⟩
      · have jobless := lost.jobless
        rw [jobsFor] at jobless ⊢
        rw [List.countP_cons, jobless, other]
        rfl
      · cases resume with
        | nextChapter existing chapters => exact ⟨atPoint.1, rfl⟩
        | stampBindings => trivial
  | chaptersDone point => exact ⟨payloadEq, lost.isIn, lost.jobless, trivial⟩
  | coverDone point same =>
      exact ⟨payloadEq, (present_congr same id).trans lost.isIn, lost.jobless, trivial⟩
  | coverClaimed point same =>
      exact ⟨payloadEq, (present_congr same id).trans lost.isIn, lost.jobless, rfl⟩
  | stamped point same =>
      exact ⟨payloadEq, (present_congr same id).trans lost.isIn, lost.jobless, trivial⟩

/-- A failure between saving a new chapter and enqueuing its job loses the job. -/
theorem Moved.lost_of_failure (accounted : Accounted l payload upstream before s)
    (moved : Moved l s action s') (hits : s.enqueuesNew l before action = false) :
    ∃ id, IsNew l payload upstream before id ∧ Lost l payload s' id := by
  have failure : (∃ released, action = .createJobFails released) ∨
      ∃ released, action = .enqueueFails released := by
    cases action with
    | createJobFails released => exact .inl ⟨released, rfl⟩
    | enqueueFails released => exact .inr ⟨released, rfl⟩
    | _ => simp [enqueuesNew] at hits
  have waits : ∃ child, s.point.child = some child := by
    cases waiting : s.point.child with
    | some child => exact ⟨child, rfl⟩
    | none => rcases failure with ⟨released, rfl⟩ | ⟨released, rfl⟩ <;> simp [enqueuesNew, waiting] at hits
  rcases waits with ⟨child, point⟩
  have ended : ∃ disk, s' = s.fails disk ∧ SameChapters s.disk disk := by
    cases moved with
    | failed alone same => exact ⟨_, rfl, same⟩
    | childFailed _ _ same => exact ⟨_, rfl, same⟩
    | _ => rcases failure with ⟨released, same⟩ | ⟨released, same⟩ <;> cases same
  rcases ended with ⟨disk, rfl, same⟩
  rcases accounted.child point with ⟨ch, member, rfl, isIn⟩ | cover
  · have absent : present l payload before ch.id = false := by
      rcases failure with ⟨released, rfl⟩ | ⟨released, rfl⟩ <;>
        simpa [enqueuesNew, point, chapterJob, present, accounted.payloadEq] using hits
    have new : IsNew l payload upstream before ch.id := ⟨⟨ch, member, rfl⟩, absent⟩
    have counted := accounted.counted ch.id new
    have pulls : (s.chapterJob ch.id).pulls ch.id = true := pulls_chapterJob.mpr rfl
    rw [awaits, point, Option.any_some, pulls] at counted
    refine ⟨ch.id, new, accounted.payloadEq, (present_congr same ch.id).trans isIn, ?_, trivial⟩
    change s.jobsFor ch.id = 0
    simpa using counted
  · exfalso
    cases payloadOf : child.payload with
    | pullChapter own =>
        have pulls := cover own.chapterID
        simp [ChildJob.pulls, payloadOf] at pulls
    | pullCover own =>
        rcases failure with ⟨released, rfl⟩ | ⟨released, rfl⟩ <;>
          simp [enqueuesNew, point, payloadOf] at hits

/-- Either no failure hits a new chapter, or one is without a job at the end. -/
theorem run_enqueuesNew_or_lost (plain : PlainChapters l payload upstream before)
    {actions : List PullAction} {last : PullManga}
    (run : Run (step l) (fun _ _ => True) s actions last)
    (accounted : Accounted l payload upstream before s) :
    (Run (step l) (fun s action => s.enqueuesNew l before action = true) s actions last ∧
      Accounted l payload upstream before last) ∨
      ∃ id, IsNew l payload upstream before id ∧ Lost l payload last id := by
  induction run with
  | nil => exact .inl ⟨.nil _, accounted⟩
  | @cons first middle last action actions _ taken rest induction =>
      cases spared : first.enqueuesNew l before action with
      | true =>
          have next := (step_moved taken).accounted plain accounted spared
          rcases induction next with ⟨run, atEnd⟩ | lost
          · exact .inl ⟨.cons spared taken run, atEnd⟩
          · exact .inr lost
      | false =>
          rcases (step_moved taken).lost_of_failure accounted spared with ⟨id, new, lost⟩
          refine .inr ⟨id, new, rest.invariant (fun s => Lost l payload s id) ?_ lost⟩
          intro state action next _ lost taken
          exact (step_moved taken).lost plain new lost

/-- When a run finally returns without an error, the new chapters are complete exactly if
no failure of `CreateJob` or `Enqueue` in any run was for a new chapter. -/
theorem complete_iff_enqueuesNew (plain : PlainChapters l payload upstream before)
    {jobID : String} {actions : List PullAction} {last : PullManga}
    (run : Run (step l) (fun _ _ => True) (queued jobID payload upstream before) actions last)
    (returned : last.point = .returned true) :
    last.Complete l payload upstream before ↔
      Run (step l) (fun s action => s.enqueuesNew l before action = true)
        (queued jobID payload upstream before) actions last := by
  constructor
  · intro complete
    rcases run_enqueuesNew_or_lost plain run (queued_accounted jobID) with ⟨spared, _⟩ | ⟨id, new, lost⟩
    · exact spared
    · have jobless := lost.jobless
      rw [(complete id new).2] at jobless
      contradiction
  · intro spared id new
    have accounted : Accounted l payload upstream before last :=
      spared.invariant (Accounted l payload upstream before)
        (fun _ _ _ spared accounted taken => (step_moved taken).accounted plain accounted spared)
        (queued_accounted jobID)
    have all := accounted.atPoint
    rw [returned] at all
    rcases new with ⟨⟨ch, member, rfl⟩, absent⟩
    have isIn := all ch member absent
    have counted := accounted.counted ch.id ⟨⟨ch, member, rfl⟩, absent⟩
    rw [awaits, returned, isIn] at counted
    exact ⟨isIn, counted⟩

/-! One manga with one upstream chapter, in an empty library. -/

def plainLayout : Layout where
  root := ["library"]
  parseURL := fun id => some ⟨"", "", id⟩
  toLower := id

def emptyDisk : Disk := FileTree.ofEntries [] rfl

def frieren : PullMangaPayload := ⟨"frieren", "mangadex", "b0b721ff", ""⟩

def firstChapter : Chapter := ⟨"1", "Chapter 1", 1, Time.zero, 0⟩

/-- The first run fails to save the chapter, the second one finishes. -/
theorem complete_iff_enqueuesNew_second_run :
    ∃ last,
      Run (step plainLayout) (fun _ _ => True) (queued "pull" frieren [firstChapter] emptyDisk)
        [.start Time.zero, .saveChapterFails true, .start Time.zero, .nextChapter, .createJob,
          .enqueue, .nextChapter, .claimCover, .stampBindings] last ∧
      last.point = .returned true ∧
      (last.Complete plainLayout frieren [firstChapter] emptyDisk ↔
        Run (step plainLayout)
          (fun s action => s.enqueuesNew plainLayout emptyDisk action = true)
          (queued "pull" frieren [firstChapter] emptyDisk)
          [.start Time.zero, .saveChapterFails true, .start Time.zero, .nextChapter, .createJob,
            .enqueue, .nextChapter, .claimCover, .stampBindings] last) := by
  have executed : (Run.execute (step plainLayout) (fun _ _ => true)
      (queued "pull" frieren [firstChapter] emptyDisk)
      [.start Time.zero, .saveChapterFails true, .start Time.zero, .nextChapter, .createJob,
        .enqueue, .nextChapter, .claimCover, .stampBindings]).map PullManga.point =
      some (.returned true) := by decide +kernel
  rcases Option.map_eq_some_iff.mp executed with ⟨last, executed, returned⟩
  have run : Run (step plainLayout) (fun _ _ => True) _ _ last :=
    (Run.ofExecute executed).weaken fun _ _ _ => trivial
  have plain : PlainChapters plainLayout frieren [firstChapter] emptyDisk :=
    ⟨by decide +kernel, by decide +kernel, by decide +kernel⟩
  exact ⟨last, run, returned, complete_iff_enqueuesNew plain run returned⟩

/-- The first run saves the chapter but cannot enqueue its job; the second one takes the
chapter for an old one. -/
theorem failed_enqueue_loses_job :
    ¬ ∀ l payload upstream before jobID actions last,
      Run (step l) (fun _ _ => True) (queued jobID payload upstream before) actions last →
      last.point = .returned true → last.Complete l payload upstream before := by
  intro claimed
  have executed : (Run.execute (step plainLayout) (fun _ _ => true)
      (queued "pull" frieren [firstChapter] emptyDisk)
      [.start Time.zero, .nextChapter, .createJob, .enqueueFails false, .start Time.zero,
        .nextChapter, .nextChapter, .claimCover, .stampBindings]).map
      (fun last => (last.point, last.jobsFor "1")) = some (.returned true, 0) := by decide +kernel
  rcases Option.map_eq_some_iff.mp executed with ⟨last, executed, observed⟩
  rw [Prod.mk.injEq] at observed
  have complete := claimed _ _ _ _ _ _ last
    ((Run.ofExecute executed).weaken fun _ _ _ => trivial) observed.1
  have new : IsNew plainLayout frieren [firstChapter] emptyDisk "1" :=
    ⟨⟨firstChapter, List.mem_cons_self, rfl⟩, by decide +kernel⟩
  have jobs := (complete "1" new).2
  rw [observed.2] at jobs
  contradiction

/-- A chapter that the list names twice gets two jobs without any failure. -/
example : (Run.execute (step plainLayout) (fun _ _ => true)
    (queued "pull" frieren [firstChapter, firstChapter] emptyDisk)
    [.start Time.zero, .nextChapter, .createJob, .enqueue, .nextChapter, .createJob, .enqueue,
      .nextChapter, .claimCover, .stampBindings]).map (jobsFor · "1") = some 2 := by
  decide +kernel

end PullManga

end Kiyomi.Queue
