import Kiyomi.Foundation.Run
import Kiyomi.Library.Documents
import Mathlib.Logic.Basic

namespace Kiyomi.Library

open Go

/-! # Writers of one chapter manifest

Reading progress shares the manifest with the page metadata. A progress `PATCH`
reads the manifest to fill in the fields it does not name and later overwrites both
progress fields; page downloads and refreshes read the manifest and later write the
whole of it. -/

/-- The body of a progress request; an absent field is not named. -/
structure ProgressPatch where
  isRead : Option Bool
  lastReadPage : Option Int
  deriving DecidableEq, Repr

namespace ChapterMeta

/-- The manifest part of `UpdateChapterProgress`. -/
def updateChapterProgress (stored : ChapterMeta) (pageFiles : Nat) (isRead : Bool)
    (lastReadPage : Int) (now : Time) : ChapterMeta :=
  ({ stored.read pageFiles with isRead, lastReadPage, lastReadAt := now }).saved

/-- What both refreshes write over their copy. -/
def refreshed (chMeta : ChapterMeta) (upstream : Chapter) (providerID chapterRef : String)
    (now : Time) : ChapterMeta :=
  let content := chMeta.content.getD
    { ContentSource.zero with providerID := providerID, chapterRef := chapterRef }
  { chMeta with
    title := upstream.name
    number := upstream.number
    uploadDate := upstream.uploadDate
    sourceOrder := upstream.sourceOrder
    content := some { content with lastSyncedAt := now } }

end ChapterMeta

/-- The user-state part of `UpdateChapterProgress`. -/
def UserState.lastRead (u : UserState) (chapterID : String) (now : Time) : UserState :=
  ({ u with lastReadChapterID := chapterID, lastReadAt := now }).saved now

inductive ChapterWriter
  | patchRead (req : ProgressPatch) (existing : ChapterMeta)
  | pullDownloaded
  | pullRead (chMeta : ChapterMeta)
  | refreshRead (chMeta : ChapterMeta)
  | refreshFetched (chMeta : ChapterMeta) (upstream : Chapter)
  | batchFetched (upstream : Chapter) (now : Time)
  | batchRead (chMeta : ChapterMeta) (upstream : Chapter) (now : Time)

structure ProgressSystem where
  providerID : String
  chapterID : String
  stored : ChapterMeta
  userState : UserState
  writers : List ChapterWriter
  /-- Requests whose update section ran, newest first. -/
  log : List ProgressPatch

/-- The reads take the number of page images they find on disk; a batch refresh that
cannot read the manifest finds none. -/
inductive ProgressAction
  | findChapter (req : ProgressPatch) (pageFiles : Nat)
  | updateChapterProgress (position : Nat) (pageFiles : Nat) (now : Time)
  | downloadImage
  | pullGetChapter (position : Nat) (pageFiles : Nat)
  | pullSaveChapter (position : Nat) (now : Time)
  | startRefresh (pageFiles : Nat)
  | refreshFetch (position : Nat) (upstream : Chapter)
  | refreshSaveChapter (position : Nat) (now : Time)
  | batchFetch (upstream : Chapter) (now : Time)
  | batchGetChapter (position : Nat) (pageFiles : Option Nat)
  | batchSaveChapter (position : Nat)
  | fail (position : Nat)

namespace ProgressSystem

/-- No writer under way. -/
def idle (providerID chapterID : String) (stored : ChapterMeta) (userState : UserState) :
    ProgressSystem :=
  { providerID, chapterID, stored, userState, writers := [], log := [] }

/-- Replace a writer by its successors. -/
def proceed (s : ProgressSystem) (before writers after : List ChapterWriter) : ProgressSystem :=
  { s with writers := before ++ writers ++ after }

def saveChapter (s : ProgressSystem) (chMeta : ChapterMeta) : ProgressSystem :=
  { s with stored := chMeta.saved }

def step : StepFunction ProgressSystem ProgressAction
  | s, .findChapter req pageFiles =>
      some (s.proceed s.writers [.patchRead req (s.stored.read pageFiles)] [])
  | s, .updateChapterProgress position pageFiles now =>
      match focus position s.writers with
      | some (before, .patchRead req existing, after) =>
          some
            { s.proceed before [] after with
              stored := s.stored.updateChapterProgress pageFiles
                (req.isRead.getD existing.isRead)
                (req.lastReadPage.getD existing.lastReadPage) now
              userState := s.userState.lastRead s.chapterID now
              log := req :: s.log }
      | _ => none
  | s, .downloadImage => some (s.proceed s.writers [.pullDownloaded] [])
  | s, .pullGetChapter position pageFiles =>
      match focus position s.writers with
      | some (before, .pullDownloaded, after) =>
          some (s.proceed before [.pullRead (s.stored.read pageFiles)] after)
      | _ => none
  | s, .pullSaveChapter position now =>
      match focus position s.writers with
      | some (before, .pullRead chMeta, after) =>
          some ((s.proceed before [] after).saveChapter { chMeta with downloadedAt := now })
      | _ => none
  | s, .startRefresh pageFiles =>
      some (s.proceed s.writers [.refreshRead (s.stored.read pageFiles)] [])
  | s, .refreshFetch position upstream =>
      match focus position s.writers with
      | some (before, .refreshRead chMeta, after) =>
          some (s.proceed before [.refreshFetched chMeta upstream] after)
      | _ => none
  | s, .refreshSaveChapter position now =>
      match focus position s.writers with
      | some (before, .refreshFetched chMeta upstream, after) =>
          some ((s.proceed before [] after).saveChapter
            (chMeta.refreshed upstream s.providerID upstream.id now))
      | _ => none
  | s, .batchFetch upstream now => some (s.proceed s.writers [.batchFetched upstream now] [])
  | s, .batchGetChapter position pageFiles =>
      match focus position s.writers with
      | some (before, .batchFetched upstream now, after) =>
          let chMeta := (pageFiles.map s.stored.read).getD
            { ChapterMeta.zero with
              content := some
                { ContentSource.zero with
                  providerID := s.providerID, chapterRef := s.chapterID } }
          some (s.proceed before [.batchRead chMeta upstream now] after)
      | _ => none
  | s, .batchSaveChapter position =>
      match focus position s.writers with
      | some (before, .batchRead chMeta upstream now, after) =>
          some ((s.proceed before [] after).saveChapter
            (chMeta.refreshed upstream s.providerID s.chapterID now))
      | _ => none
  | s, .fail position =>
      match focus position s.writers with
      | some (before, _, after) => some (s.proceed before [] after)
      | none => none

/-! ## Progress as a register -/

structure Progress where
  isRead : Bool
  lastReadPage : Int
  deriving DecidableEq, Repr

/-- What a request is for. -/
def patched (patch : ProgressPatch) (progress : Progress) : Progress where
  isRead := patch.isRead.getD progress.isRead
  lastReadPage := patch.lastReadPage.getD progress.lastReadPage

def progressOf (chMeta : ChapterMeta) : Progress := ⟨chMeta.isRead, chMeta.lastReadPage⟩

/-- The last value that a log with the newest request first names for a field. -/
def lastNamed (field : ProgressPatch → Option α) (log : List ProgressPatch) (initial : α) : α :=
  (log.findSome? field).getD initial

theorem replay_patched (log : List ProgressPatch) (start : Progress) :
    log.foldr patched start =
      ⟨lastNamed ProgressPatch.isRead log start.isRead,
        lastNamed ProgressPatch.lastReadPage log start.lastReadPage⟩ := by
  induction log with
  | nil => rfl
  | cons patch log induction =>
      rw [List.foldr_cons, induction, patched]
      congr 1
      · cases named : patch.isRead <;> simp [lastNamed, named]
      · cases named : patch.lastReadPage <;> simp [lastNamed, named]

/-- Both fields have the value of the last request that named them. -/
def NoLostProgress (start : ChapterMeta) (s : ProgressSystem) : Prop :=
  s.stored.isRead = lastNamed ProgressPatch.isRead s.log start.isRead ∧
  s.stored.lastReadPage = lastNamed ProgressPatch.lastReadPage s.log start.lastReadPage

/-- Each write finds the progress fields that it does not set on purpose as its copy
has them. -/
def freshProgress (s : ProgressSystem) : ProgressAction → Bool
  | .updateChapterProgress position _ _ | .pullSaveChapter position _
  | .refreshSaveChapter position _ | .batchSaveChapter position =>
      match focus position s.writers with
      | some (_, .patchRead req existing, _) =>
          (req.isRead.isSome || existing.isRead == s.stored.isRead) &&
            (req.lastReadPage.isSome || existing.lastReadPage == s.stored.lastReadPage)
      | some (_, .pullRead chMeta, _) | some (_, .refreshFetched chMeta _, _)
      | some (_, .batchRead chMeta _ _, _) => progressOf chMeta == progressOf s.stored
      | _ => true
  | _ => true

variable {s s' : ProgressSystem}

theorem progressOf_updateChapterProgress (stored : ChapterMeta) (pageFiles : Nat) (isRead : Bool)
    (lastReadPage : Int) (now : Time) :
    progressOf (stored.updateChapterProgress pageFiles isRead lastReadPage now) =
      ⟨isRead, lastReadPage⟩ := rfl

theorem progressOf_refreshed (chMeta : ChapterMeta) (upstream : Chapter)
    (providerID chapterRef : String) (now : Time) :
    progressOf (chMeta.refreshed upstream providerID chapterRef now).saved =
      progressOf chMeta := rfl

/-- A fresh step performs one logged request on the progress, or leaves it alone. -/
theorem step_progress {action : ProgressAction} (fresh : s.freshProgress action = true)
    (taken : s.step action = some s') :
    progressOf s'.stored = progressOf s.stored ∧ s'.log = s.log ∨
    ∃ patch, s'.log = patch :: s.log ∧
      progressOf s'.stored = patched patch (progressOf s.stored) := by
  cases action with
  | findChapter req pageFiles =>
      cases taken
      exact .inl ⟨rfl, rfl⟩
  | updateChapterProgress position pageFiles now =>
      simp only [step] at taken
      split at taken
      · rename_i before req existing after focused
        cases taken
        refine .inr ⟨req, rfl, ?_⟩
        simp only [freshProgress, focused, Bool.and_eq_true, Bool.or_eq_true, beq_iff_eq] at fresh
        rw [progressOf_updateChapterProgress, patched]
        congr 1
        · cases named : req.isRead with
          | some value => rfl
          | none => exact fresh.1.resolve_left (by simp [named])
        · cases named : req.lastReadPage with
          | some value => rfl
          | none => exact fresh.2.resolve_left (by simp [named])
      · contradiction
  | downloadImage =>
      cases taken
      exact .inl ⟨rfl, rfl⟩
  | pullGetChapter position pageFiles =>
      simp only [step] at taken
      split at taken
      · cases taken
        exact .inl ⟨rfl, rfl⟩
      · contradiction
  | pullSaveChapter position now =>
      simp only [step] at taken
      split at taken
      · rename_i before chMeta after focused
        cases taken
        simp only [freshProgress, focused, beq_iff_eq] at fresh
        exact .inl ⟨fresh, rfl⟩
      · contradiction
  | startRefresh pageFiles =>
      cases taken
      exact .inl ⟨rfl, rfl⟩
  | refreshFetch position upstream =>
      simp only [step] at taken
      split at taken
      · cases taken
        exact .inl ⟨rfl, rfl⟩
      · contradiction
  | refreshSaveChapter position now =>
      simp only [step] at taken
      split at taken
      · rename_i before chMeta upstream after focused
        cases taken
        simp only [freshProgress, focused, beq_iff_eq] at fresh
        exact .inl ⟨(progressOf_refreshed chMeta upstream s.providerID upstream.id now).trans fresh,
          rfl⟩
      · contradiction
  | batchFetch upstream now =>
      cases taken
      exact .inl ⟨rfl, rfl⟩
  | batchGetChapter position pageFiles =>
      simp only [step] at taken
      split at taken
      · cases taken
        exact .inl ⟨rfl, rfl⟩
      · contradiction
  | batchSaveChapter position =>
      simp only [step] at taken
      split at taken
      · rename_i before chMeta upstream now after focused
        cases taken
        simp only [freshProgress, focused, beq_iff_eq] at fresh
        exact .inl ⟨(progressOf_refreshed chMeta upstream s.providerID s.chapterID now).trans fresh,
          rfl⟩
      · contradiction
  | fail position =>
      simp only [step] at taken
      split at taken
      · cases taken
        exact .inl ⟨rfl, rfl⟩
      · contradiction

/-- Over every interleaving in which each write is fresh, in every state reached. -/
theorem noLostProgress_of_freshProgress (providerID chapterID : String) (stored : ChapterMeta)
    (userState : UserState) {actions : List ProgressAction} {last : ProgressSystem}
    (run : Run step (fun s action => s.freshProgress action = true)
      (idle providerID chapterID stored userState) actions last) :
    last.NoLostProgress stored := by
  have replayed := run.replays (fun s => progressOf s.stored) log patched (progressOf stored)
    (fun _ _ _ fresh taken => step_progress fresh taken) rfl
  rw [replay_patched] at replayed
  exact ⟨congrArg Progress.isRead replayed, congrArg Progress.lastReadPage replayed⟩

/-- A page download between two requests that each name one field. -/
theorem noLostProgress_of_freshProgress_in_turn :
    ∃ last,
      Run step (fun s action => s.freshProgress action = true)
        (idle "mangadex" "chapter-1" ChapterMeta.zero UserState.zero)
        [.findChapter ⟨some true, none⟩ 0, .updateChapterProgress 0 0 Time.zero, .downloadImage,
          .pullGetChapter 0 1, .pullSaveChapter 0 Time.zero, .findChapter ⟨none, some 7⟩ 1,
          .updateChapterProgress 0 1 Time.zero] last ∧
      last.log = [⟨none, some 7⟩, ⟨some true, none⟩] ∧
      last.NoLostProgress ChapterMeta.zero := by
  have executed : (Run.execute step freshProgress
      (idle "mangadex" "chapter-1" ChapterMeta.zero UserState.zero)
      [.findChapter ⟨some true, none⟩ 0, .updateChapterProgress 0 0 Time.zero, .downloadImage,
        .pullGetChapter 0 1, .pullSaveChapter 0 Time.zero, .findChapter ⟨none, some 7⟩ 1,
        .updateChapterProgress 0 1 Time.zero]).map log =
      some [⟨none, some 7⟩, ⟨some true, none⟩] := by decide
  rcases Option.map_eq_some_iff.mp executed with ⟨last, executed, observed⟩
  have run := Run.ofExecute executed
  exact ⟨last, run, observed,
    noLostProgress_of_freshProgress "mangadex" "chapter-1" ChapterMeta.zero UserState.zero run⟩

/-- The chapter is marked read while a page download holds its copy. -/
theorem pullPage_reverts_read_mark :
    ¬ ∀ providerID chapterID stored userState actions last,
      Run step (fun _ _ => true = true) (idle providerID chapterID stored userState) actions last →
      last.NoLostProgress stored := by
  intro claimed
  have executed : (Run.execute step (fun _ _ => true)
      (idle "mangadex" "chapter-1" ChapterMeta.zero UserState.zero)
      [.downloadImage, .pullGetChapter 0 1, .findChapter ⟨some true, none⟩ 1,
        .updateChapterProgress 1 1 Time.zero, .pullSaveChapter 0 Time.zero]).map
      (fun last => (last.log, last.stored.isRead, last.writers.length)) =
      some ([⟨some true, none⟩], false, 0) := by decide
  rcases Option.map_eq_some_iff.mp executed with ⟨last, executed, observed⟩
  simp only [Prod.mk.injEq] at observed
  have kept := (claimed _ _ _ _ _ last (Run.ofExecute executed)).1
  rw [observed.1, observed.2.1] at kept
  simp [lastNamed] at kept

end ProgressSystem

end Kiyomi.Library
