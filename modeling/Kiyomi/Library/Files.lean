import Kiyomi.Go.Filepath
import Kiyomi.Library.Bindings

namespace Kiyomi.Library

open Go

/-! # The library on disk

Every manga has a directory below the library root with its three concern files, and
below that a directory per provider with a directory per chapter. -/

/-- What a file holds. A file that its reader cannot decode is plain data. -/
inductive Document
  | metadata (m : MangaMetadata)
  | userState (u : UserState)
  | bindings (b : MangaBindings)
  | chapter (c : ChapterMeta)
  | data (bytes : List UInt8)
  deriving DecidableEq

abbrev Disk := FileTree Document

structure ChapterInfo where
  id : String
  mangaID : String
  chMeta : ChapterMeta

structure Manga where
  id : String
  metadata : MangaMetadata
  userState : UserState
  bindings : MangaBindings

/-- The parts of a `url.URL` that are read. -/
structure URL where
  scheme : String
  host : String
  path : String

/-- The cleaned root of the library, an absolute path, with the functions of the standard
library whose tables and grammar are not spelled out: `url.Parse` and `strings.ToLower`. -/
structure Layout where
  root : Path
  parseURL : String → Option URL
  toLower : String → String

/-- Why a path is refused. -/
inductive PathError
  | emptyMangaID
  | mangaOutsideRoot
  | emptyChapterPath
  | chapterOutsideRoot
  deriving DecidableEq, Repr

def trimSlashes (s : String) : String := String.ofList (trimChars (· == '/') s.toList)

namespace Layout

variable (l : Layout)

@[irreducible] def sanitizeID (id : String) : String :=
  let id := trimSpace id
  let id :=
    match l.parseURL id with
    | some u => if u.scheme ≠ "" ∨ u.host ≠ "" then u.path else id
    | none => id
  let id := trimSlashes id
  if hasPrefix id "manga/" then trimSlashes (String.ofList (id.toList.drop "manga/".length)) else id

/-- The relative path from the root neither is `.` nor starts with two dots. -/
def within (dir : Path) : Bool :=
  l.root.isPrefixOf dir &&
    match dir.drop l.root.length with
    | [] => false
    | first :: _ => !hasPrefix first ".."

@[irreducible] def mangaDir (mangaID : String) : Except PathError Path :=
  let id := l.sanitizeID mangaID
  if id = "" then .error .emptyMangaID
  else
    let dir := join l.root [id]
    if l.within dir then .ok dir else .error .mangaOutsideRoot

variable {l} in
theorem mangaDir_within {mangaID : String} {dir : Path} (located : l.mangaDir mangaID = .ok dir) :
    l.within dir = true := by
  simp only [mangaDir] at located
  by_cases empty : l.sanitizeID mangaID = ""
  · simp [empty] at located
  · by_cases inside : l.within (join l.root [l.sanitizeID mangaID]) = true
    · simp only [empty, if_false, inside, if_true, Except.ok.injEq] at located
      exact located ▸ inside
    · simp [empty, inside] at located

variable {l} in
theorem mangaDir_ne_nil {mangaID : String} {dir : Path} (located : l.mangaDir mangaID = .ok dir) :
    dir ≠ [] := by
  intro root
  have inside := mangaDir_within located
  simp [root, within] at inside

@[irreducible] def providerChapterDir (mangaID providerID chapterID : String) :
    Except PathError Path :=
  match l.mangaDir mangaID with
  | .error refused => .error refused
  | .ok mDir =>
      let pID := l.sanitizeID providerID
      let cID := l.sanitizeID chapterID
      if pID = "" ∨ cID = "" then .error .emptyChapterPath
      else
        let dir := join mDir [pID, cID]
        if l.within dir then .ok dir else .error .chapterOutsideRoot

/-- The names in an id. -/
def spelled (id : String) : Path := split (l.sanitizeID id) '/'

/-- An id that names the directory of the same name. -/
def plain (name : String) : Bool := isName name && l.sanitizeID name == name

variable {l} in
theorem spelled_of_plain {name : String} (plain : l.plain name = true) :
    l.spelled name = [name] := by
  simp only [Layout.plain, Bool.and_eq_true, beq_iff_eq] at plain
  rw [spelled, plain.2, split_of_isName plain.1]

variable {l} in
theorem sanitizeID_ne_empty {id : String} (names : (l.spelled id).all isName = true) :
    l.sanitizeID id ≠ "" := by
  intro empty
  rw [spelled, empty] at names
  contradiction

variable {l} in
/-- Ids that spell file names name directories below the manga's. -/
theorem providerChapterDir_of_names {mangaID providerID chapterID : String} {mDir : Path}
    (located : l.mangaDir mangaID = .ok mDir) (provider : (l.spelled providerID).all isName = true)
    (chapter : (l.spelled chapterID).all isName = true) :
    l.providerChapterDir mangaID providerID chapterID =
      .ok (mDir ++ (l.spelled providerID ++ l.spelled chapterID)) := by
  have inside := mangaDir_within located
  have below : l.within (mDir ++ (l.spelled providerID ++ l.spelled chapterID)) = true := by
    simp only [within, Bool.and_eq_true, List.isPrefixOf_iff_prefix] at inside ⊢
    rcases inside with ⟨⟨rest, rfl⟩, first⟩
    refine ⟨by simp [List.append_assoc], ?_⟩
    rw [List.drop_left] at first
    rw [List.append_assoc, List.drop_left]
    cases rest with
    | nil => simp at first
    | cons name rest => exact first
  have notEmpty : l.sanitizeID providerID ≠ "" ∧ l.sanitizeID chapterID ≠ "" :=
    ⟨sanitizeID_ne_empty provider, sanitizeID_ne_empty chapter⟩
  have pieces : [l.sanitizeID providerID, l.sanitizeID chapterID].flatMap
      (fun element => split element '/') = l.spelled providerID ++ l.spelled chapterID := by
    simp [spelled]
  have joined : join mDir [l.sanitizeID providerID, l.sanitizeID chapterID] =
      mDir ++ (l.spelled providerID ++ l.spelled chapterID) := by
    rw [List.all_eq_true] at provider chapter
    rw [join_of_isName, pieces]
    intro name member
    rw [pieces, List.mem_append] at member
    exact member.elim (provider name) (chapter name)
  simp only [providerChapterDir, located, notEmpty.1, notEmpty.2, or_self, if_false, joined, below,
    if_true]

variable {l} in
theorem providerChapterDir_of_plain {mangaID providerID chapterID : String} {mDir : Path}
    (located : l.mangaDir mangaID = .ok mDir) (provider : l.plain providerID = true)
    (chapter : l.plain chapterID = true) :
    l.providerChapterDir mangaID providerID chapterID = .ok (mDir ++ [providerID, chapterID]) := by
  have names := fun {id : String} (plain : l.plain id = true) =>
    (Bool.and_eq_true _ _).mp plain |>.1
  rw [providerChapterDir_of_names located]
  · rw [spelled_of_plain provider, spelled_of_plain chapter]
    rfl
  · simp [spelled_of_plain provider, names provider]
  · simp [spelled_of_plain chapter, names chapter]

/-! ## Chapters -/

def imageExts : List String := [".jpg", ".jpeg", ".png", ".webp", ".gif", ".avif"]

/-- `countDownloadedPages` for a chapter directory. -/
def countDownloadedPages (disk : Disk) (dir : Path) : Nat :=
  ((disk.readDir dir).getD []).countP fun name =>
    (disk.readFile (dir ++ [name])).isSome && !contains name ".tmp." &&
      imageExts.contains (l.toLower (ext name))

/-- `getChapter`; its errors are told apart nowhere. -/
def getChapter (disk : Disk) (mangaID providerID chapterID : String) : Option ChapterMeta :=
  match l.providerChapterDir mangaID providerID chapterID with
  | .error _ => none
  | .ok dir =>
      match disk.readFile (dir ++ ["meta.json"]) with
      | some (.chapter chMeta) => some (chMeta.read (l.countDownloadedPages disk dir))
      | _ => none

/-- `FindChapter`: the chapter in the first provider directory that has it. -/
def findChapter (disk : Disk) (mangaID chapterID : String) : Option (ChapterMeta × String) :=
  match l.mangaDir mangaID with
  | .error _ => none
  | .ok mangaDir =>
      ((disk.readDir mangaDir).getD []).findSome? fun providerID =>
        if disk.find (mangaDir ++ [providerID]) = some .directory then
          (l.getChapter disk mangaID providerID chapterID).map (·, providerID)
        else none

/-- The chapters in the directory of one provider. -/
def listProvider (disk : Disk) (mangaID providerID : String) (mangaDir : Path) :
    List ChapterInfo :=
  let providerDir := join mangaDir [providerID]
  ((disk.readDir providerDir).getD []).filterMap fun chapterID =>
    if disk.find (providerDir ++ [chapterID]) = some .directory then
      (l.getChapter disk mangaID providerID chapterID).map fun chMeta =>
        { id := chapterID, mangaID := l.sanitizeID mangaID, chMeta }
    else none

/-- `ListChapters` for providers that are named. -/
def listChapters (disk : Disk) (mangaID : String) (providerIDs : List String) :
    Except PathError (List ChapterInfo) :=
  match l.mangaDir mangaID with
  | .error refused => .error refused
  | .ok mangaDir =>
      let allChapters := providerIDs.flatMap fun providerID =>
        l.listProvider disk mangaID providerID mangaDir
      .ok (allChapters.insertionSort fun a b => a.chMeta.number ≤ b.chMeta.number)

/-- `saveChapter`. -/
def saveChapter (disk : Disk) (mangaID providerID chapterID : String) (chMeta : ChapterMeta) :
    Option Disk :=
  match l.providerChapterDir mangaID providerID chapterID with
  | .error _ => none
  | .ok dir =>
      (disk.mkdirAll dir).bind fun disk => disk.writeFile dir "meta.json" (.chapter chMeta.saved)

/-! ## Concern files and the cover claim -/

/-- Whether the system reports that nothing is there. -/
def notExist (disk : Disk) (path : Path) : Bool :=
  disk.find path = none && path.inits.all fun upper => (disk.readFile upper).isNone

/-- A concern file; a missing one reads as the zero value. -/
def readConcern (disk : Disk) (path : Path) (zero : α) (decode : Document → Option α) :
    Option α :=
  if notExist disk path then some zero else (disk.readFile path).bind decode

def getMetadata (disk : Disk) (mangaID : String) : Option MangaMetadata :=
  match l.mangaDir mangaID with
  | .error _ => none
  | .ok dir =>
      readConcern disk (dir ++ ["metadata.json"]) MangaMetadata.zero fun
        | .metadata m => some m
        | _ => none

def getUserState (disk : Disk) (mangaID : String) : Option UserState :=
  match l.mangaDir mangaID with
  | .error _ => none
  | .ok dir =>
      readConcern disk (dir ++ ["user_state.json"]) UserState.zero fun
        | .userState u => some u
        | _ => none

def getBindings (disk : Disk) (mangaID : String) : Option MangaBindings :=
  match l.mangaDir mangaID with
  | .error _ => none
  | .ok dir =>
      readConcern disk (dir ++ ["bindings.json"]) SavedBindings.missing.bindings fun
        | .bindings b => some b
        | _ => none

/-- `GetManga`; there is none without metadata. -/
def getManga (disk : Disk) (id : String) : Option Manga :=
  match l.mangaDir id with
  | .error _ => none
  | .ok dir =>
      if (disk.find (dir ++ ["metadata.json"])).isNone then none
      else do
        let metadata ← l.getMetadata disk id
        let userState ← l.getUserState disk id
        let bindings ← l.getBindings disk id
        some { id, metadata, userState, bindings }

/-- `SaveMetadata`, when the system refuses nothing. -/
def saveMetadata (disk : Disk) (mangaID : String) (m : MangaMetadata) : Option Disk :=
  match l.mangaDir mangaID with
  | .error _ => none
  | .ok dir =>
      (disk.mkdirAll dir).bind fun disk =>
        disk.writeFile dir "metadata.json" (.metadata (m.saved l.toLower))

def saveBindings (disk : Disk) (mangaID : String) (b : MangaBindings) : Option Disk :=
  match l.mangaDir mangaID with
  | .error _ => none
  | .ok dir =>
      (disk.mkdirAll dir).bind fun disk =>
        disk.writeFile dir "bindings.json" (.bindings (SavedBindings.save b).bindings)

def coverExts : List String := [".jpg", ".jpeg", ".png", ".webp", ".gif"]

/-- `hasCover` for a manga directory. -/
def hasCover (disk : Disk) (mangaDir : Path) : Bool :=
  coverExts.any fun ext => (disk.find (mangaDir ++ ["cover" ++ ext])).isSome

/-- `claimCoverEnqueue`: whether the claim is the caller's. -/
def claimCoverEnqueue (disk : Disk) (mangaID : String) : Option (Bool × Disk) :=
  match l.mangaDir mangaID with
  | .error _ => none
  | .ok mangaDir =>
      if hasCover disk mangaDir then some (false, disk)
      else
        (disk.mkdirAll mangaDir).bind fun disk =>
          if (disk.find (mangaDir ++ [".cover-pending"])).isSome then some (false, disk)
          else (disk.writeFile mangaDir ".cover-pending" (.data [])).map fun disk => (true, disk)

def releaseCoverClaim (disk : Disk) (mangaID : String) : Option Disk :=
  match l.mangaDir mangaID with
  | .error _ => none
  | .ok mangaDir => disk.remove (mangaDir ++ [".cover-pending"])

end Layout

/-! ## Readable chapters -/

/-- The chapter directory has a manifest that can be read. -/
def readable (disk : Disk) (dir : Path) : Prop :=
  ∃ chMeta, disk.readFile (dir ++ ["meta.json"]) = some (.chapter chMeta)

namespace Layout

variable {l : Layout} {disk disk' : Disk} {mangaID providerID chapterID : String}

theorem getChapter_isSome_iff :
    (l.getChapter disk mangaID providerID chapterID).isSome ↔
      ∃ dir, l.providerChapterDir mangaID providerID chapterID = .ok dir ∧ readable disk dir := by
  simp only [getChapter]
  cases l.providerChapterDir mangaID providerID chapterID with
  | error refused => simp
  | ok dir =>
      simp only [readable, Except.ok.injEq, exists_eq_left']
      split
      · rename_i chMeta found
        simp [found]
      · rename_i unreadable
        simpa using unreadable

theorem manifest_ne {name : String} (other : name ≠ "meta.json") (dir path : Path) :
    dir ++ ["meta.json"] ≠ path ++ [name] := by
  intro same
  exact other (List.singleton_inj.mp (List.append_inj' same rfl).2).symm

theorem readable_mkdirAll {path : Path} (created : disk.mkdirAll path = some disk') (dir : Path) :
    readable disk' dir ↔ readable disk dir := by
  have same : ∀ content,
      disk'.readFile (dir ++ ["meta.json"]) = some content ↔
        disk.readFile (dir ++ ["meta.json"]) = some content := by
    intro content
    rw [FileTree.readFile_eq_some, FileTree.readFile_eq_some]
    constructor
    · intro found
      rw [FileTree.find_mkdirAll created] at found
      split at found
      · simp at found
      · exact found
    · exact FileTree.mkdirAll_keeps created
  simp only [readable, same]

theorem readable_writeFile {path : Path} {name : String} {content : Document}
    (other : name ≠ "meta.json") (written : disk.writeFile path name content = some disk')
    (dir : Path) : readable disk' dir ↔ readable disk dir := by
  have different := manifest_ne other dir path
  simp only [readable, FileTree.readFile_eq_some, FileTree.find_put written, if_neg different]

theorem readable_remove {path : Path} {name : String} (other : name ≠ "meta.json")
    (removed : disk.remove (path ++ [name]) = some disk') (dir : Path) :
    readable disk' dir ↔ readable disk dir := by
  have different := manifest_ne other dir path
  simp only [readable, FileTree.readFile_eq_some,
    FileTree.find_remove (by simp) removed, if_neg different]

/-- Saving a chapter makes its directory readable and changes no other chapter. -/
theorem readable_saveChapter {chMeta : ChapterMeta}
    (saved : l.saveChapter disk mangaID providerID chapterID chMeta = some disk') :
    ∃ dir, l.providerChapterDir mangaID providerID chapterID = .ok dir ∧
      ∀ other, readable disk' other ↔ other = dir ∨ readable disk other := by
  simp only [saveChapter] at saved
  cases located : l.providerChapterDir mangaID providerID chapterID with
  | error refused => simp [located] at saved
  | ok dir =>
      simp only [located] at saved
      rcases Option.bind_eq_some_iff.mp saved with ⟨middle, created, written⟩
      refine ⟨dir, rfl, fun other => ?_⟩
      rw [← readable_mkdirAll created other]
      by_cases same : other = dir
      · subst same
        simp only [readable, FileTree.readFile_eq_some, FileTree.find_put written]
        simp
      · have different : other ++ ["meta.json"] ≠ dir ++ ["meta.json"] := by simpa using same
        simp only [readable, FileTree.readFile_eq_some, FileTree.find_put written,
          if_neg different, same, false_or]

theorem directory_of_readable {dir : Path} (found : readable disk dir) :
    disk.find dir = some .directory := by
  rcases found with ⟨chMeta, found⟩
  exact FileTree.parent (FileTree.readFile_eq_some.mp found)

/-- The listing of one provider shows exactly the readable chapters, for plain ids. -/
theorem mem_listChapters {chapters : List ChapterInfo}
    (listed : l.listChapters disk mangaID [providerID] = .ok chapters)
    (provider : l.plain providerID = true) (chapter : l.plain chapterID = true) :
    chapterID ∈ chapters.map ChapterInfo.id ↔
      (l.getChapter disk mangaID providerID chapterID).isSome := by
  simp only [listChapters] at listed
  cases located : l.mangaDir mangaID with
  | error refused => simp [located] at listed
  | ok mDir =>
      have providerDir : join mDir [providerID] = mDir ++ [providerID] := by
        simp only [plain, Bool.and_eq_true] at provider
        exact join_name provider.1 mDir
      simp only [located, Except.ok.injEq, List.flatMap_singleton] at listed
      subst listed
      simp only [List.mem_map, List.mem_insertionSort, listProvider, List.mem_filterMap,
        providerDir]
      constructor
      · intro found
        rcases found with ⟨info, ⟨name, _, shown⟩, rfl⟩
        split at shown
        · rcases Option.map_eq_some_iff.mp shown with ⟨chMeta, read, rfl⟩
          simp [read]
        · simp at shown
      · intro found
        rcases Option.isSome_iff_exists.mp found with ⟨chMeta, read⟩
        rcases getChapter_isSome_iff.mp found with ⟨dir, dirOk, manifest, readFile⟩
        rw [providerChapterDir_of_plain located provider chapter, Except.ok.injEq] at dirOk
        subst dirOk
        have whole : mDir ++ [providerID, chapterID] ++ ["meta.json"] =
            (mDir ++ [providerID] ++ [chapterID]) ++ ["meta.json"] := by simp
        rw [whole, FileTree.readFile_eq_some] at readFile
        have isDirectory := FileTree.parent readFile
        have providerDirectory := FileTree.parent isDirectory
        rcases Option.isSome_iff_exists.mp (FileTree.readDir_isSome.mpr providerDirectory)
          with ⟨names, entries⟩
        refine ⟨_, ⟨chapterID, ?_, by rw [if_pos isDirectory, read]; rfl⟩, rfl⟩
        rw [entries, Option.getD_some, FileTree.mem_readDir entries]
        exact ⟨_, isDirectory⟩

end Layout

end Kiyomi.Library
