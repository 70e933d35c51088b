import Kiyomi.Library.Manifests
import Kiyomi.Queue.PullManga

namespace Kiyomi.Queue

open Go Library

/-! # The manifests that a `pull_manga` job writes

A step saves the manifest of one upstream chapter that was not listed, or changes no
manifest. -/

/-- The chapters that a run still has to go through, with its listing. -/
def PullResume.ahead : PullResume → Option (List String × List Chapter)
  | .nextChapter existing chapters => some (existing, chapters)
  | .stampBindings => none

def PullPoint.ahead : PullPoint → Option (List String × List Chapter)
  | .loop existing chapters => some (existing, chapters)
  | .creating _ resume | .enqueuing _ resume => resume.ahead
  | _ => none

@[simp] theorem PullResume.ahead_point (resume : PullResume) : resume.point.ahead = resume.ahead := by
  cases resume <;> rfl

namespace PullManga

theorem made_beside (disk : Disk) (dirMade : Bool) (dir : Except PathError Path) :
    Beside disk (made disk dirMade dir) := by
  rcases dir with refused | dir
  · exact .refl disk
  · rw [made]
    split
    · cases created : disk.mkdirAll dir with
      | none => exact .refl disk
      | some disk' => exact .of_mkdirAll created
    · exact .refl disk

theorem childFails_beside (l : Layout) (s : PullManga) (resume : PullResume) (released : Bool) :
    Beside s.disk (s.childFails l resume released).disk := by
  cases resume with
  | nextChapter existing chapters => exact .refl s.disk
  | stampBindings =>
      rw [childFails, fails]
      split
      · exact Layout.releaseCoverClaim_beside s.disk s.payload.mangaID
      · exact .refl s.disk

/-- The step saves this chapter. -/
structure SavesChapter (l : Layout) (s s' : PullManga) (existing : List String) (ch : Chapter)
    (chapters : List Chapter) : Prop where
  point : s.point = .loop existing (ch :: chapters)
  unlisted : ch.id ∉ existing
  saved : l.saveChapter s.disk s.payload.mangaID s.payload.providerID ch.id (s.newChapter ch) =
    some s'.disk

theorem step_manifests {l : Layout} {s s' : PullManga} {action : PullAction}
    (taken : step l s action = some s') :
    Beside s.disk s'.disk ∨
      ∃ existing ch chapters, action = .nextChapter ∧ SavesChapter l s s' existing ch chapters := by
  cases action with
  | nextChapter =>
      simp only [step] at taken
      split at taken
      · cases taken
        exact .inl (.refl s.disk)
      · rename_i existing ch chapters point
        split at taken
        · cases taken
          exact .inl (.refl s.disk)
        · rename_i unlisted
          split at taken
          · cases taken
            exact .inl (.refl s.disk)
          · rename_i saved
            cases taken
            exact .inr ⟨existing, ch, chapters, rfl, point, by simpa using unlisted, saved⟩
      · contradiction
  | start now =>
      left
      simp only [step] at taken
      split at taken
      · split at taken
        · cases taken
          exact .refl s.disk
        · split at taken <;> cases taken <;> exact .refl s.disk
      · contradiction
  | startFails =>
      left
      simp only [step] at taken
      split at taken
      · cases taken
        exact .refl s.disk
      · contradiction
  | saveChapterFails dirMade =>
      left
      simp only [step] at taken
      split at taken
      · split at taken
        · contradiction
        · cases taken
          exact made_beside s.disk dirMade _
      · contradiction
  | createJob | enqueue =>
      left
      simp only [step] at taken
      split at taken
      · cases taken
        exact .refl s.disk
      · contradiction
  | createJobFails released | enqueueFails released =>
      left
      simp only [step] at taken
      split at taken
      · cases taken
        exact childFails_beside l s _ released
      · contradiction
  | claimCover =>
      left
      simp only [step] at taken
      split at taken
      · split at taken
        · cases taken
          exact .refl s.disk
        · split at taken
          · cases taken
            exact .refl s.disk
          · rename_i result
            cases taken
            exact Layout.claimCoverEnqueue_beside result
          · rename_i result
            cases taken
            exact Layout.claimCoverEnqueue_beside result
      · contradiction
  | claimCoverFails dirMade =>
      left
      simp only [step] at taken
      split at taken
      · split at taken
        · contradiction
        · cases taken
          exact made_beside s.disk dirMade _
      · contradiction
  | stampBindings =>
      left
      simp only [step] at taken
      split at taken
      · split at taken
        · cases taken
          exact .refl s.disk
        · split at taken
          · cases taken
            exact .refl s.disk
          · split at taken
            · cases taken
              exact .refl s.disk
            · rename_i saved
              cases taken
              exact Layout.saveBindings_beside saved
      · contradiction
  | stampBindingsFails dirMade =>
      left
      simp only [step] at taken
      split at taken
      · cases taken
        exact made_beside s.disk dirMade _
      · contradiction

end PullManga

end Kiyomi.Queue
