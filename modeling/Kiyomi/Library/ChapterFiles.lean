import Kiyomi.Go.Glob
import Kiyomi.Library.ChapterProgress
import Kiyomi.Library.Files

namespace Kiyomi.Library

open Go

/-! # Progress and deletion of chapters

Operations of the library that go on until something fails. What they have changed by then
stays, so they return a disk in any case and whether they went through. -/

/-- A loop that stops at the first failure. -/
def each (op : α → Disk → Disk × Bool) : List α → Disk → Disk × Bool
  | [], disk => (disk, true)
  | x :: xs, disk =>
      match op x disk with
      | (disk, true) => each op xs disk
      | (disk, false) => (disk, false)

/-- An operation that changes nothing when it fails. -/
def orKeep (op : Disk → Option Disk) (disk : Disk) : Disk × Bool :=
  match op disk with
  | some disk => (disk, true)
  | none => (disk, false)

/-- `os.Remove`. -/
def removeFile (path : Path) (disk : Disk) : Option Disk :=
  if (disk.find path).isNone then none else disk.remove path

namespace Layout

variable (l : Layout)

/-- `getChapterFileStatus`: the files that were downloaded, and whether these are all. -/
def getChapterFileStatus (disk : Disk) (mangaID providerID chapterID : String)
    (metaPageCount : Int) : Nat × Bool :=
  let downloadedPages :=
    match l.providerChapterDir mangaID providerID chapterID with
    | .error _ => 0
    | .ok dir => l.countDownloadedPages disk dir
  (downloadedPages, decide (downloadedPages > 0) &&
    (metaPageCount == 0 || decide ((downloadedPages : Int) ≥ metaPageCount)))

def saveUserState (disk : Disk) (mangaID : String) (u : UserState) (now : Time) : Option Disk :=
  match l.mangaDir mangaID with
  | .error _ => none
  | .ok dir =>
      (disk.mkdirAll dir).bind fun disk =>
        disk.writeFile dir "user_state.json" (.userState (u.saved now))

/-- The end of both progress updates. -/
def saveLastRead (mangaID chapterID : String) (now : Time) (disk : Disk) : Disk × Bool :=
  match l.getUserState disk mangaID with
  | none => (disk, false)
  | some userState =>
      orKeep (fun disk =>
        l.saveUserState disk mangaID
          { userState with lastReadChapterID := chapterID, lastReadAt := now } now) disk

/-- The part of both progress updates about the manifest. -/
def saveProgress (mangaID providerID : String) (isRead : Bool) (lastReadPage : Int) (now : Time)
    (chapterID : String) (disk : Disk) : Disk × Bool :=
  match l.getChapter disk mangaID providerID chapterID with
  | none => (disk, false)
  | some chMeta =>
      orKeep (fun disk =>
        l.saveChapter disk mangaID providerID chapterID
          { chMeta with isRead, lastReadPage, lastReadAt := now }) disk

/-- `UpdateChapterProgress`. -/
def updateChapterProgress (disk : Disk) (mangaID providerID chapterID : String) (isRead : Bool)
    (lastReadPage : Int) (now : Time) : Disk × Bool :=
  let mangaID := l.sanitizeID mangaID
  let chapterID := l.sanitizeID chapterID
  match l.saveProgress mangaID providerID isRead lastReadPage now chapterID disk with
  | (disk, false) => (disk, false)
  | (disk, true) => l.saveLastRead mangaID chapterID now disk

/-- `BatchUpdateChapterProgress`. -/
def batchUpdateChapterProgress (mangaID providerID : String) (chapterIDs : List String)
    (isRead : Bool) (lastReadPage : Int) (now : Time) (disk : Disk) : Disk × Bool :=
  let mangaID := l.sanitizeID mangaID
  let cleanIDs := chapterIDs.map l.sanitizeID
  match each (l.saveProgress mangaID providerID isRead lastReadPage now) cleanIDs disk with
  | (disk, false) => (disk, false)
  | (disk, true) =>
      match cleanIDs.getLast? with
      | none => (disk, true)
      | some lastUpdatedChapterID => l.saveLastRead mangaID lastUpdatedChapterID now disk

/-- `deleteChapter`. -/
def deleteChapter (mangaID providerID chapterID : String) (disk : Disk) : Disk × Bool :=
  match l.providerChapterDir mangaID providerID chapterID with
  | .error _ => (disk, false)
  | .ok dir => (disk.removeAll dir, true)

/-- `BatchDeleteChapters`. -/
def batchDeleteChapters (mangaID providerID : String) (chapterIDs : List String) (disk : Disk) :
    Disk × Bool :=
  each (l.deleteChapter mangaID providerID) chapterIDs disk

/-- Remove the images of one extension from a chapter directory. -/
def removeImages (dir : Path) (ext : String) (disk : Disk) : Disk × Bool :=
  match glob disk (dir ++ ["*" ++ ext]) with
  | none => (disk, false)
  | some found => each (fun path => orKeep (removeFile path)) found disk

/-- Remove `pages.json`, which may be missing. -/
def removePages (dir : Path) (disk : Disk) : Disk × Bool :=
  if notExist disk (dir ++ ["pages.json"]) then (disk, true)
  else orKeep (removeFile (dir ++ ["pages.json"])) disk

/-- Take the time of the download out of the manifest, if there is one. -/
def forgetDownload (mangaID providerID chapterID : String) (dir : Path) (disk : Disk) :
    Disk × Bool :=
  if (disk.find (dir ++ ["meta.json"])).isNone then (disk, true)
  else
    match l.getChapter disk mangaID providerID chapterID with
    | none => (disk, true)
    | some chMeta =>
        orKeep (fun disk =>
          l.saveChapter disk mangaID providerID chapterID
            { chMeta with downloadedAt := Time.zero }) disk

/-- `deleteChapterFiles`. -/
def deleteChapterFiles (mangaID providerID chapterID : String) (disk : Disk) : Disk × Bool :=
  match l.providerChapterDir mangaID providerID chapterID with
  | .error _ => (disk, false)
  | .ok dir =>
      if notExist disk dir then (disk, false)
      else
        match each (removeImages dir) imageExts disk with
        | (disk, false) => (disk, false)
        | (disk, true) =>
            match removePages dir disk with
            | (disk, false) => (disk, false)
            | (disk, true) => l.forgetDownload mangaID providerID chapterID dir disk

/-- `BatchDeleteChapterFiles`. -/
def batchDeleteChapterFiles (mangaID providerID : String) (chapterIDs : List String)
    (disk : Disk) : Disk × Bool :=
  each (l.deleteChapterFiles mangaID providerID) chapterIDs disk

end Layout

/-! ## What they change -/

/-- Only what lies strictly below a directory, or is a certain file, changes. -/
def ChangesOnly (dir file : Path) (disk disk' : Disk) : Prop :=
  ∀ path, disk'.find path ≠ disk.find path →
    (∃ name rest, path = dir ++ name :: rest) ∨ path = file

namespace ChangesOnly

variable {dir file : Path} {disk middle disk' : Disk}

theorem refl (disk : Disk) : ChangesOnly dir file disk disk :=
  fun _ changed => absurd rfl changed

theorem trans (first : ChangesOnly dir file disk middle)
    (second : ChangesOnly dir file middle disk') : ChangesOnly dir file disk disk' := by
  intro path changed
  by_cases later : disk'.find path = middle.find path
  · exact first path fun same => changed (later.trans same)
  · exact second path later

/-- The directory itself stays, for it is not below itself. -/
theorem directory (only : ChangesOnly dir file disk disk') (apart : dir ≠ file)
    (isDirectory : disk.find dir = some .directory) : disk'.find dir = some .directory := by
  by_contra other
  have changed : disk'.find dir ≠ disk.find dir := by rwa [isDirectory]
  rcases only dir changed with ⟨name, rest, below⟩ | same
  · simpa using below
  · exact apart same

end ChangesOnly

/-- An operation that keeps within a directory and a file while the directory is there. -/
def Keeps (dir file : Path) (op : Disk → Disk × Bool) : Prop :=
  ∀ disk, disk.find dir = some .directory → ChangesOnly dir file disk (op disk).1

namespace Keeps

variable {dir file : Path}

theorem andThen {first second : Disk → Disk × Bool} (apart : dir ≠ file)
    (firstKeeps : Keeps dir file first) (secondKeeps : Keeps dir file second) :
    Keeps dir file fun disk =>
      match first disk with
      | (disk, false) => (disk, false)
      | (disk, true) => second disk := by
  intro disk isDirectory
  have before := firstKeeps disk isDirectory
  cases ran : first disk with
  | mk middle went =>
      rw [ran] at before
      simp only [ran]
      cases went with
      | false => exact before
      | true => exact before.trans (secondKeeps middle (before.directory apart isDirectory))

theorem each {op : α → Disk → Disk × Bool} (apart : dir ≠ file) {xs : List α}
    (keeps : ∀ x ∈ xs, Keeps dir file (op x)) : Keeps dir file (Library.each op xs) := by
  induction xs with
  | nil => exact fun disk _ => .refl disk
  | cons x xs induction =>
      intro disk isDirectory
      have before := keeps x List.mem_cons_self disk isDirectory
      rw [Library.each]
      cases ran : op x disk with
      | mk middle went =>
          rw [ran] at before
          cases went with
          | false => exact before
          | true =>
              have rest := induction fun y member => keeps y (List.mem_cons_of_mem _ member)
              exact before.trans (rest middle (before.directory apart isDirectory))

theorem orKeep {op : Disk → Option Disk}
    (keeps : ∀ disk disk', disk.find dir = some .directory → op disk = some disk' →
      ChangesOnly dir file disk disk') : Keeps dir file (Library.orKeep op) := by
  intro disk isDirectory
  rw [Library.orKeep]
  cases done : op disk with
  | none => exact .refl disk
  | some disk' => exact keeps disk disk' isDirectory done

end Keeps

/-- A path below a directory is below it or above a path that is. -/
theorem below_of_prefix {dir path : Path} {name : String} {rest : Path}
    (upper : path <+: dir ++ name :: rest) :
    path <+: dir ∨ ∃ name rest, path = dir ++ name :: rest := by
  rcases List.prefix_or_prefix_of_prefix upper (List.prefix_append dir (name :: rest)) with
    above | below
  · exact .inl above
  · rcases below with ⟨suffix, rfl⟩
    cases suffix with
    | nil => exact .inl (by simp)
    | cons first suffix => exact .inr ⟨first, suffix, rfl⟩

/-- Making directories below an existing one changes nothing else. -/
theorem changesOnly_mkdirAll {dir file : Path} {disk disk' : Disk} {name : String} {rest : Path}
    (isDirectory : disk.find dir = some .directory)
    (created : disk.mkdirAll (dir ++ name :: rest) = some disk') :
    ChangesOnly dir file disk disk' := by
  intro path changed
  rw [FileTree.find_mkdirAll created] at changed
  split at changed
  · rename_i upper
    rcases below_of_prefix upper with above | below
    · exact absurd (FileTree.directory_above above isDirectory).symm changed
    · exact .inl below
  · exact absurd rfl changed

namespace Layout

variable {l : Layout} {dir file : Path} {mangaID providerID chapterID name : String} {rest : Path}

theorem changesOnly_saveChapter {disk disk' : Disk} {chMeta : ChapterMeta}
    (located : l.providerChapterDir mangaID providerID chapterID = .ok (dir ++ name :: rest))
    (isDirectory : disk.find dir = some .directory)
    (saved : l.saveChapter disk mangaID providerID chapterID chMeta = some disk') :
    ChangesOnly dir file disk disk' := by
  simp only [saveChapter, located] at saved
  rcases Option.bind_eq_some_iff.mp saved with ⟨middle, created, written⟩
  apply (changesOnly_mkdirAll isDirectory created).trans
  intro path changed
  rw [FileTree.find_put written] at changed
  split at changed
  · rename_i same
    exact .inl ⟨name, rest ++ ["meta.json"], by simp [same]⟩
  · exact absurd rfl changed

/-- A chapter that has no directory yet can be saved where no file stands in the way. -/
theorem saveChapter_of_absent {disk : Disk} {chDir : Path}
    (located : l.providerChapterDir mangaID providerID chapterID = .ok chDir)
    (absent : disk.find chDir = none)
    (free : ∀ upper, upper <+: chDir → ∀ content, disk.find upper ≠ some (.file content))
    (chMeta : ChapterMeta) :
    ∃ disk', l.saveChapter disk mangaID providerID chapterID chMeta = some disk' ∧
      disk'.find chDir = some .directory := by
  rcases Option.isSome_iff_exists.mp (FileTree.mkdirAll_isSome free) with ⟨middle, created⟩
  have made : middle.find chDir = some .directory := by
    rw [FileTree.find_mkdirAll created, if_pos (List.prefix_refl _)]
  have fresh : middle.find (chDir ++ ["meta.json"]) = none := by
    rw [FileTree.find_mkdirAll created, if_neg]
    · by_contra found
      rcases Option.ne_none_iff_exists'.mp found with ⟨node, found⟩
      rw [FileTree.parent found] at absent
      contradiction
    · intro upper
      simpa using upper.length_le
  have written : ∃ disk', middle.writeFile chDir "meta.json" (.chapter chMeta.saved) = some disk' := by
    rw [FileTree.writeFile, FileTree.put, dif_pos]
    · exact ⟨_, rfl⟩
    · exact ⟨made, by rw [← FileTree.find, fresh]; simp⟩
  rcases written with ⟨disk', written⟩
  refine ⟨disk', ?_, ?_⟩
  · simp only [saveChapter, located]
    exact Option.bind_eq_some_iff.mpr ⟨middle, created, written⟩
  · rw [FileTree.find_put written, if_neg (by simp), made]

theorem keeps_saveProgress
    (located : l.providerChapterDir mangaID providerID chapterID = .ok (dir ++ name :: rest))
    (isRead : Bool) (lastReadPage : Int) (now : Time) :
    Keeps dir file (l.saveProgress mangaID providerID isRead lastReadPage now chapterID) := by
  intro disk isDirectory
  rw [saveProgress]
  cases l.getChapter disk mangaID providerID chapterID with
  | none => exact .refl disk
  | some chMeta =>
      exact Keeps.orKeep (fun _ _ isDirectory saved =>
        changesOnly_saveChapter located isDirectory saved) disk isDirectory

/-- The reading state lies in the manga's directory, which is there. -/
theorem keeps_saveLastRead {mDir : Path} (located : l.mangaDir mangaID = .ok mDir)
    (below : mDir <+: dir) (now : Time) :
    Keeps dir (mDir ++ ["user_state.json"]) (l.saveLastRead mangaID chapterID now) := by
  intro disk isDirectory
  rw [saveLastRead]
  cases l.getUserState disk mangaID with
  | none => exact .refl disk
  | some userState =>
      refine Keeps.orKeep (fun disk disk' isDirectory saved => ?_) disk isDirectory
      simp only [saveUserState, located] at saved
      rcases Option.bind_eq_some_iff.mp saved with ⟨middle, created, written⟩
      intro path changed
      rw [FileTree.find_put written, FileTree.find_mkdirAll created] at changed
      split at changed
      · rename_i same
        exact .inr same
      · split at changed
        · rename_i upper
          exact absurd (FileTree.directory_above (upper.trans below) isDirectory).symm changed
        · exact absurd rfl changed

theorem keeps_deleteChapter
    (located : l.providerChapterDir mangaID providerID chapterID = .ok (dir ++ name :: rest)) :
    Keeps dir file (l.deleteChapter mangaID providerID chapterID) := by
  intro disk _ path changed
  simp only [deleteChapter, located] at changed
  rw [FileTree.find_removeAll (by simp)] at changed
  split at changed
  · rename_i below
    rcases below with ⟨suffix, rfl⟩
    exact .inl ⟨name, rest ++ suffix, by simp⟩
  · exact absurd rfl changed

theorem keeps_removeFile {path : Path} (below : path = dir ++ name :: rest) :
    Keeps dir file (orKeep (removeFile path)) := by
  apply Keeps.orKeep
  intro disk disk' _ removed other changed
  rw [removeFile] at removed
  split at removed
  · contradiction
  · rw [FileTree.find_remove (by simp [below]) removed] at changed
    split at changed
    · rename_i same
      exact .inl ⟨name, rest, same.trans below⟩
    · exact absurd rfl changed

/-- Images are removed from the chapter directory alone when its names are no patterns. -/
theorem keeps_removeImages (apart : dir ≠ file)
    (literal : (dir ++ name :: rest).any hasMeta = false) (ext : String) :
    Keeps dir file (removeImages (dir ++ name :: rest) ext) := by
  intro disk isDirectory
  rw [removeImages]
  cases globbed : glob disk (dir ++ name :: rest ++ ["*" ++ ext]) with
  | none => exact .refl disk
  | some found =>
      apply Keeps.each apart _ disk isDirectory
      intro path member
      rcases below_of_glob literal globbed member with ⟨image, same⟩
      exact keeps_removeFile (same.trans (List.append_assoc dir (name :: rest) [image]))

theorem keeps_forgetDownload
    (located : l.providerChapterDir mangaID providerID chapterID = .ok (dir ++ name :: rest)) :
    Keeps dir file (l.forgetDownload mangaID providerID chapterID (dir ++ name :: rest)) := by
  intro disk isDirectory
  rw [forgetDownload]
  split
  · exact .refl disk
  · cases l.getChapter disk mangaID providerID chapterID with
    | none => exact .refl disk
    | some chMeta =>
        exact Keeps.orKeep (fun _ _ isDirectory saved =>
          changesOnly_saveChapter located isDirectory saved) disk isDirectory

theorem keeps_removePages : Keeps dir file (removePages (dir ++ name :: rest)) := by
  intro disk isDirectory
  rw [removePages]
  split
  · exact .refl disk
  · exact keeps_removeFile (List.append_assoc dir (name :: rest) _) disk isDirectory

theorem keeps_deleteChapterFiles (apart : dir ≠ file)
    (located : l.providerChapterDir mangaID providerID chapterID = .ok (dir ++ name :: rest))
    (literal : (dir ++ name :: rest).any hasMeta = false) :
    Keeps dir file (l.deleteChapterFiles mangaID providerID chapterID) := by
  intro disk isDirectory
  simp only [deleteChapterFiles, located]
  split
  · exact .refl disk
  · exact (Keeps.each apart fun ext _ => keeps_removeImages apart literal ext).andThen apart
      (keeps_removePages.andThen apart (keeps_forgetDownload located)) disk isDirectory

end Layout

end Kiyomi.Library
