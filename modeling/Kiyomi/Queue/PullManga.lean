import Kiyomi.Foundation.Run
import Kiyomi.Library.Files
import Kiyomi.Queue.Job

namespace Kiyomi.Queue

open Go Library

/-! # The runs of one `pull_manga` job

`HandlePullManga` between two effects that can fail: saving a chapter, creating and
enqueuing a child job, claiming the cover, stamping the bindings. A failed effect ends
the run with an error, and the job is run again. -/

structure PullMangaPayload where
  mangaID : String
  providerID : String
  providerMangaID : String
  coverURL : String

def PullMangaPayload.complete (p : PullMangaPayload) : Bool :=
  p.mangaID != "" && p.providerID != "" && p.providerMangaID != ""

structure PullChapterPayload where
  mangaID : String
  providerID : String
  chapterID : String
  deriving DecidableEq

structure PullCoverPayload where
  mangaID : String
  coverURL : String
  providerID : String
  deriving DecidableEq

inductive ChildPayload
  | pullChapter (payload : PullChapterPayload)
  | pullCover (payload : PullCoverPayload)
  deriving DecidableEq

/-- What `enqueueChild` is given. -/
structure ChildJob where
  parentID : String
  payload : ChildPayload
  group : String
  metadata : List (String × String)
  deriving DecidableEq

/-- A `pull_chapter` job for this chapter. -/
def ChildJob.pulls (chapterID : String) (child : ChildJob) : Bool :=
  match child.payload with
  | .pullChapter payload => payload.chapterID == chapterID
  | .pullCover _ => false

def pullGroup (providerID : String) : String := "pull:" ++ providerID

def coverConcurrencyGroup : String := "pull:cover"

/-- Where a run goes on after it enqueued a child job. -/
inductive PullResume
  | nextChapter (existing : List String) (chapters : List Chapter)
  | stampBindings
  deriving DecidableEq

/-- How far a run has come: before the next chapter of the loop, inside `enqueueChild`,
before the cover claim, before the bindings, or back with or without an error. -/
inductive PullPoint
  | loop (existing : List String) (chapters : List Chapter)
  | creating (child : ChildJob) (resume : PullResume)
  | enqueuing (child : ChildJob) (resume : PullResume)
  | coverClaim
  | bindings
  | returned (ok : Bool)
  deriving DecidableEq

def PullResume.point : PullResume → PullPoint
  | .nextChapter existing chapters => .loop existing chapters
  | .stampBindings => .bindings

structure PullManga where
  jobID : String
  payload : PullMangaPayload
  /-- What `FetchChapters` returns. -/
  upstream : List Chapter
  disk : Disk
  created : List ChildJob
  enqueued : List ChildJob
  now : Time
  point : PullPoint

/-- A failing save or claim may have made its directories; a failing child job of the
cover releases the claim, if that does not fail too. -/
inductive PullAction
  | start (now : Time)
  | startFails
  | nextChapter
  | saveChapterFails (dirMade : Bool)
  | createJob
  | createJobFails (released : Bool)
  | enqueue
  | enqueueFails (released : Bool)
  | claimCover
  | claimCoverFails (dirMade : Bool)
  | stampBindings
  | stampBindingsFails (dirMade : Bool)

namespace PullManga

/-- Before the first run. -/
def queued (jobID : String) (payload : PullMangaPayload) (upstream : List Chapter)
    (disk : Disk) : PullManga where
  jobID
  payload
  upstream
  disk
  created := []
  enqueued := []
  now := Time.zero
  point := .returned false

def chapterJob (s : PullManga) (chapterID : String) : ChildJob where
  parentID := s.jobID
  payload := .pullChapter ⟨s.payload.mangaID, s.payload.providerID, chapterID⟩
  group := pullGroup s.payload.providerID
  metadata := [("manga_id", s.payload.mangaID), ("provider_id", s.payload.providerID),
    ("chapter_id", chapterID)]

def coverJob (s : PullManga) : ChildJob where
  parentID := s.jobID
  payload := .pullCover ⟨s.payload.mangaID, s.payload.coverURL, s.payload.providerID⟩
  group := coverConcurrencyGroup
  metadata := [("manga_id", s.payload.mangaID), ("provider_id", s.payload.providerID)]

/-- The manifest of a new chapter. -/
def newChapter (s : PullManga) (ch : Chapter) : ChapterMeta :=
  { ChapterMeta.zero with
    title := ch.name
    number := ch.number
    uploadDate := ch.uploadDate
    sourceOrder := ch.sourceOrder
    content := some
      { ContentSource.zero with
        providerID := s.payload.providerID, chapterRef := ch.id, lastSyncedAt := s.now } }

def fails (s : PullManga) (disk : Disk) : PullManga := { s with disk, point := .returned false }

/-- The directories of a failed write, if it came that far. -/
def made (disk : Disk) (dirMade : Bool) : Except PathError Path → Disk
  | .ok dir => if dirMade then (disk.mkdirAll dir).getD disk else disk
  | .error _ => disk

variable (l : Layout)

/-- The error path after `enqueueChild`. -/
def childFails (s : PullManga) (resume : PullResume) (released : Bool) : PullManga :=
  match resume with
  | .nextChapter _ _ => s.fails s.disk
  | .stampBindings =>
      s.fails (if released then (l.releaseCoverClaim s.disk s.payload.mangaID).getD s.disk
        else s.disk)

def step : StepFunction PullManga PullAction
  | s, .start now =>
      match s.point with
      | .returned _ =>
          if s.payload.mangaID = "" ∨ s.payload.providerID = "" ∨ s.payload.providerMangaID = ""
          then some (s.fails s.disk)
          else
            match l.listChapters s.disk s.payload.mangaID [s.payload.providerID] with
            | .error _ => some (s.fails s.disk)
            | .ok existing =>
                some { s with now, point := .loop (existing.map ChapterInfo.id) s.upstream }
      | _ => none
  | s, .startFails =>
      match s.point with
      | .returned _ => some (s.fails s.disk)
      | _ => none
  | s, .nextChapter =>
      match s.point with
      | .loop _ [] => some { s with point := .coverClaim }
      | .loop existing (ch :: chapters) =>
          if existing.contains ch.id then some { s with point := .loop existing chapters }
          else
            match l.saveChapter s.disk s.payload.mangaID s.payload.providerID ch.id
              (s.newChapter ch) with
            | none => some (s.fails s.disk)
            | some disk =>
                some { s with
                  disk, point := .creating (s.chapterJob ch.id) (.nextChapter existing chapters) }
      | _ => none
  | s, .saveChapterFails dirMade =>
      match s.point with
      | .loop existing (ch :: _) =>
          if existing.contains ch.id then none
          else
            some (s.fails (made s.disk dirMade
              (l.providerChapterDir s.payload.mangaID s.payload.providerID ch.id)))
      | _ => none
  | s, .createJob =>
      match s.point with
      | .creating child resume =>
          some { s with created := child :: s.created, point := .enqueuing child resume }
      | _ => none
  | s, .createJobFails released =>
      match s.point with
      | .creating _ resume => some (s.childFails l resume released)
      | _ => none
  | s, .enqueue =>
      match s.point with
      | .enqueuing child resume =>
          some { s with enqueued := child :: s.enqueued, point := resume.point }
      | _ => none
  | s, .enqueueFails released =>
      match s.point with
      | .enqueuing _ resume => some (s.childFails l resume released)
      | _ => none
  | s, .claimCover =>
      match s.point with
      | .coverClaim =>
          if s.payload.coverURL = "" then some { s with point := .bindings }
          else
            match l.claimCoverEnqueue s.disk s.payload.mangaID with
            | none => some (s.fails s.disk)
            | some (false, disk) => some { s with disk, point := .bindings }
            | some (true, disk) =>
                some { s with disk, point := .creating s.coverJob .stampBindings }
      | _ => none
  | s, .claimCoverFails dirMade =>
      match s.point with
      | .coverClaim =>
          if s.payload.coverURL = "" then none
          else some (s.fails (made s.disk dirMade (l.mangaDir s.payload.mangaID)))
      | _ => none
  | s, .stampBindings =>
      match s.point with
      | .bindings =>
          match l.getBindings s.disk s.payload.mangaID with
          | none => some (s.fails s.disk)
          | some bindings =>
              match bindings.content with
              | none => some { s with point := .returned true }
              | some content =>
                  match l.saveBindings s.disk s.payload.mangaID
                    { bindings with content := some { content with lastSyncedAt := s.now } } with
                  | none => some (s.fails s.disk)
                  | some disk => some { s with disk, point := .returned true }
      | _ => none
  | s, .stampBindingsFails dirMade =>
      match s.point with
      | .bindings => some (s.fails (made s.disk dirMade (l.mangaDir s.payload.mangaID)))
      | _ => none

/-! ## What a step does -/

/-- Both disks have the same readable chapters. -/
def SameChapters (disk disk' : Disk) : Prop := ∀ dir, readable disk' dir ↔ readable disk dir

theorem sameChapters_made (disk : Disk) (dirMade : Bool) (dir : Except PathError Path) :
    SameChapters disk (made disk dirMade dir) := by
  intro other
  rcases dir with refused | dir
  · rfl
  · rw [made]
    split
    · cases created : disk.mkdirAll dir with
      | none => rfl
      | some disk' => exact Layout.readable_mkdirAll created other
    · rfl

end PullManga

/-- The child job that a run is about to create or enqueue. -/
def PullPoint.child : PullPoint → Option ChildJob
  | .creating child _ | .enqueuing child _ => some child
  | _ => none

@[simp] theorem PullResume.child_point (resume : PullResume) : resume.point.child = none := by
  cases resume <;> rfl

namespace PullManga

inductive Moved (l : Layout) (s : PullManga) : PullAction → PullManga → Prop
  | started {now ok existing} (point : s.point = .returned ok)
      (listed : l.listChapters s.disk s.payload.mangaID [s.payload.providerID] = .ok existing) :
      Moved l s (.start now)
        { s with now, point := .loop (existing.map ChapterInfo.id) s.upstream }
  | failed {action disk} (alone : s.point.child = none) (same : SameChapters s.disk disk) :
      Moved l s action (s.fails disk)
  | childFailed {action child disk} (point : s.point.child = some child)
      (failure : (∃ released, action = .createJobFails released) ∨
        ∃ released, action = .enqueueFails released)
      (same : SameChapters s.disk disk) : Moved l s action (s.fails disk)
  | skipped {existing ch chapters} (point : s.point = .loop existing (ch :: chapters))
      (listed : ch.id ∈ existing) :
      Moved l s .nextChapter { s with point := .loop existing chapters }
  | saved {existing ch chapters chMeta disk} (point : s.point = .loop existing (ch :: chapters))
      (unlisted : ch.id ∉ existing)
      (saved : l.saveChapter s.disk s.payload.mangaID s.payload.providerID ch.id chMeta =
        some disk) :
      Moved l s .nextChapter
        { s with disk, point := .creating (s.chapterJob ch.id) (.nextChapter existing chapters) }
  | created {child resume} (point : s.point = .creating child resume) :
      Moved l s .createJob
        { s with created := child :: s.created, point := .enqueuing child resume }
  | enqueued {child resume} (point : s.point = .enqueuing child resume) :
      Moved l s .enqueue { s with enqueued := child :: s.enqueued, point := resume.point }
  | chaptersDone {existing} (point : s.point = .loop existing []) :
      Moved l s .nextChapter { s with point := .coverClaim }
  | coverDone {disk} (point : s.point = .coverClaim) (same : SameChapters s.disk disk) :
      Moved l s .claimCover { s with disk, point := .bindings }
  | coverClaimed {disk} (point : s.point = .coverClaim) (same : SameChapters s.disk disk) :
      Moved l s .claimCover { s with disk, point := .creating s.coverJob .stampBindings }
  | stamped {disk} (point : s.point = .bindings) (same : SameChapters s.disk disk) :
      Moved l s .stampBindings { s with disk, point := .returned true }

theorem sameChapters_claimCover {l : Layout} {disk disk' : Disk} {mangaID : String} {claimed : Bool}
    (result : l.claimCoverEnqueue disk mangaID = some (claimed, disk')) :
    SameChapters disk disk' := by
  simp only [Layout.claimCoverEnqueue] at result
  split at result
  · simp at result
  · split at result
    · simp only [Option.some.injEq, Prod.mk.injEq] at result
      exact fun dir => result.2 ▸ Iff.rfl
    · rcases Option.bind_eq_some_iff.mp result with ⟨middle, made, result⟩
      split at result
      · simp only [Option.some.injEq, Prod.mk.injEq] at result
        exact fun dir => result.2 ▸ Layout.readable_mkdirAll made dir
      · rcases Option.map_eq_some_iff.mp result with ⟨written, wrote, same⟩
        simp only [Prod.mk.injEq] at same
        intro dir
        rw [← same.2, Layout.readable_writeFile (by decide) wrote,
          Layout.readable_mkdirAll made]

theorem sameChapters_saveBindings {l : Layout} {disk disk' : Disk} {mangaID : String}
    {b : MangaBindings} (saved : l.saveBindings disk mangaID b = some disk') :
    SameChapters disk disk' := by
  simp only [Layout.saveBindings] at saved
  split at saved
  · simp at saved
  · rcases Option.bind_eq_some_iff.mp saved with ⟨middle, made, written⟩
    intro dir
    rw [Layout.readable_writeFile (by decide) written, Layout.readable_mkdirAll made]

theorem sameChapters_releaseCover {l : Layout} (disk : Disk) (mangaID : String) :
    SameChapters disk ((l.releaseCoverClaim disk mangaID).getD disk) := by
  cases released : l.releaseCoverClaim disk mangaID with
  | none => exact fun dir => Iff.rfl
  | some disk' =>
      simp only [Layout.releaseCoverClaim] at released
      split at released
      · simp at released
      · exact Layout.readable_remove (by decide) released

theorem childFails_moved {l : Layout} {s : PullManga} {action : PullAction} {child : ChildJob}
    {resume : PullResume} (released : Bool) (point : s.point.child = some child)
    (failure : (∃ released, action = .createJobFails released) ∨
      ∃ released, action = .enqueueFails released) :
    Moved l s action (s.childFails l resume released) := by
  cases resume with
  | nextChapter existing chapters => exact .childFailed point failure fun dir => Iff.rfl
  | stampBindings =>
      apply Moved.childFailed point failure
      split
      · exact sameChapters_releaseCover s.disk s.payload.mangaID
      · exact fun dir => Iff.rfl

theorem step_moved {l : Layout} {s s' : PullManga} {action : PullAction}
    (taken : step l s action = some s') : Moved l s action s' := by
  have unchanged : SameChapters s.disk s.disk := fun dir => Iff.rfl
  cases action with
  | start now =>
      simp only [step] at taken
      split at taken
      · rename_i ok point
        split at taken
        · cases taken
          exact .failed (by simp [point, PullPoint.child]) unchanged
        · split at taken
          · cases taken
            exact .failed (by simp [point, PullPoint.child]) unchanged
          · rename_i listed
            cases taken
            exact .started point listed
      · simp at taken
  | startFails =>
      simp only [step] at taken
      split at taken
      · rename_i ok point
        cases taken
        exact .failed (by simp [point, PullPoint.child]) unchanged
      · simp at taken
  | nextChapter =>
      simp only [step] at taken
      split at taken
      · rename_i existing point
        cases taken
        exact .chaptersDone point
      · rename_i existing ch chapters point
        split at taken
        · rename_i listed
          cases taken
          exact .skipped point (by simpa using listed)
        · rename_i unlisted
          split at taken
          · cases taken
            exact .failed (by simp [point, PullPoint.child]) unchanged
          · rename_i saved
            cases taken
            exact .saved point (by simpa using unlisted) saved
      · simp at taken
  | saveChapterFails dirMade =>
      simp only [step] at taken
      split at taken
      · rename_i existing ch chapters point
        split at taken
        · simp at taken
        · cases taken
          exact .failed (by simp [point, PullPoint.child]) (sameChapters_made _ _ _)
      · simp at taken
  | createJob =>
      simp only [step] at taken
      split at taken
      · rename_i child resume point
        cases taken
        exact .created point
      · simp at taken
  | createJobFails released =>
      simp only [step] at taken
      split at taken
      · rename_i child resume point
        cases taken
        have waits : s.point.child = some child := by simp [point, PullPoint.child]
        exact childFails_moved released waits (.inl ⟨released, rfl⟩)
      · simp at taken
  | enqueue =>
      simp only [step] at taken
      split at taken
      · rename_i child resume point
        cases taken
        exact .enqueued point
      · simp at taken
  | enqueueFails released =>
      simp only [step] at taken
      split at taken
      · rename_i child resume point
        cases taken
        have waits : s.point.child = some child := by simp [point, PullPoint.child]
        exact childFails_moved released waits (.inr ⟨released, rfl⟩)
      · simp at taken
  | claimCover =>
      simp only [step] at taken
      split at taken
      · rename_i point
        split at taken
        · cases taken
          exact .coverDone point unchanged
        · split at taken
          · cases taken
            exact .failed (by simp [point, PullPoint.child]) unchanged
          · rename_i result
            cases taken
            exact .coverDone point (sameChapters_claimCover result)
          · rename_i result
            cases taken
            exact .coverClaimed point (sameChapters_claimCover result)
      · simp at taken
  | claimCoverFails dirMade =>
      simp only [step] at taken
      split at taken
      · rename_i point
        split at taken
        · simp at taken
        · cases taken
          exact .failed (by simp [point, PullPoint.child]) (sameChapters_made _ _ _)
      · simp at taken
  | stampBindings =>
      simp only [step] at taken
      split at taken
      · rename_i point
        split at taken
        · cases taken
          exact .failed (by simp [point, PullPoint.child]) unchanged
        · split at taken
          · cases taken
            exact .stamped point unchanged
          · split at taken
            · cases taken
              exact .failed (by simp [point, PullPoint.child]) unchanged
            · rename_i saved
              cases taken
              exact .stamped point (sameChapters_saveBindings saved)
      · simp at taken
  | stampBindingsFails dirMade =>
      simp only [step] at taken
      split at taken
      · rename_i point
        cases taken
        exact .failed (by simp [point, PullPoint.child]) (sameChapters_made _ _ _)
      · simp at taken

end PullManga

end Kiyomi.Queue
