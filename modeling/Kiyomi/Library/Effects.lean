import Kiyomi.Foundation.FileProgram
import Kiyomi.Library.Files

namespace Kiyomi.Library

open Go

/-! # The calls behind the operations of the library

The functions of the library as programs on files, call by call. A function that returns
nothing but an error gives whether it returned none. -/

/-- A program that may also ask something outside the library. -/
abbrev Effect {Question : Type} (Answer : Question → Type) (α : Type) :=
  FileProgram Document Question Answer α

variable {Question : Type} {Answer : Question → Type}

/-- Make one call of the file system. -/
def request (c : FileCall Document Question) : Effect Answer (c.Reply Answer) := Program.perform c

/-- Whether a call succeeds. -/
def succeeds (reply : Except FileError α) : Bool := reply matches .ok _

/-- A file that is written to a temporary one in a directory and then renamed. The
temporary file is removed in the end, if it is still there. -/
def replaceFile (dir : Path) (base : String) (target : Path) (content : Document) :
    Effect Answer Bool := do
  match ← request (.createTemp dir (base ++ ".tmp.") (.data [])) with
  | .error _ => pure false
  | .ok tmp =>
      let tmpPath := dir ++ [tmp]
      if succeeds (← request (.write tmpPath content)) then
        let renamed := succeeds (← request (.rename tmpPath target))
        let _ ← request (.remove tmpPath)
        pure renamed
      else
        let _ ← request (.remove tmpPath)
        pure false

def saveJSONAtomic (dir : Path) (name : String) (content : Document) : Effect Answer Bool := do
  match ← request (.createTemp dir (name ++ ".tmp.") (.data [])) with
  | .error _ => pure false
  | .ok tmp =>
      let tmpPath := dir ++ [tmp]
      if succeeds (← request (.write tmpPath content)) then
        if succeeds (← request (.rename tmpPath (dir ++ [name]))) then pure true
        else
          let _ ← request (.remove tmpPath)
          pure false
      else
        let _ ← request (.remove tmpPath)
        pure false

/-- A concern file; a missing one reads as the zero value. -/
def readConcernFile (path : Path) (zero : α) (decode : Document → Option α) :
    Effect Answer (Option α) := do
  match ← request (.readFile path) with
  | .ok document => pure (decode document)
  | .error .notExist => pure (some zero)
  | .error _ => pure none

/-- A page of a chapter, as `pages.json` keeps it. -/
structure PageItem where
  index : Int
  url : String
  source : String
  deriving DecidableEq

/-- `ProviderChapterDir`, which joins ids that `providerChapterDir` refuses. -/
def Layout.providerChapterDirOrJoined (l : Layout) (mangaID providerID chapterID : String) : Path :=
  match l.providerChapterDir mangaID providerID chapterID with
  | .ok dir => dir
  | .error _ =>
      join l.root [l.sanitizeID mangaID, l.sanitizeID providerID, l.sanitizeID chapterID]

namespace Effects

variable (l : Layout)

def countDownloadedPages (dir : Path) : Effect Answer Nat := do
  match ← request (.readDir dir) with
  | .error _ => pure 0
  | .ok entries => pure (entries.countP fun (name, isDir) =>
      !isDir && !contains name ".tmp." && Layout.imageExts.contains (l.toLower (ext name)))

def getChapter (mangaID providerID chapterID : String) : Effect Answer (Option ChapterMeta) :=
  match l.providerChapterDir mangaID providerID chapterID with
  | .error _ => pure none
  | .ok dir => do
      match ← request (.readFile (dir ++ ["meta.json"])) with
      | .ok (.chapter chMeta) => do
          let pages ← countDownloadedPages l dir
          pure (some (chMeta.read pages))
      | _ => pure none

def saveChapter (mangaID providerID chapterID : String) (chMeta : ChapterMeta) :
    Effect Answer Bool :=
  match l.providerChapterDir mangaID providerID chapterID with
  | .error _ => pure false
  | .ok dir => do
      if succeeds (← request (.mkdirAll dir)) then
        replaceFile dir "meta.json" (dir ++ ["meta.json"]) (.chapter chMeta.saved)
      else pure false

/-- The chapters in the directories of one provider. -/
def getChapters (mangaID providerID : String) : List String → Effect Answer (List ChapterInfo)
  | [] => pure []
  | chapterID :: chapterIDs => do
      let stored ← getChapter l mangaID providerID chapterID
      let others ← getChapters mangaID providerID chapterIDs
      match stored with
      | some chMeta => pure ({ id := chapterID, mangaID := l.sanitizeID mangaID, chMeta } :: others)
      | none => pure others

/-- The names of the directories among the entries. -/
def directories (entries : List (String × Bool)) : List String :=
  (entries.filter (·.2)).map (·.1)

/-- The loop of `ListChapters`. -/
def listProviders (mangaID : String) (mangaDir : Path) : List String → Effect Answer (List ChapterInfo)
  | [] => pure []
  | providerID :: providerIDs => do
      match ← request (.readDir (join mangaDir [providerID])) with
      | .error _ => listProviders mangaID mangaDir providerIDs
      | .ok entries => do
          let chapters ← getChapters l mangaID providerID (directories entries)
          let others ← listProviders mangaID mangaDir providerIDs
          pure (chapters ++ others)

def listChapters (mangaID : String) (providerIDs : List String) :
    Effect Answer (Option (List ChapterInfo)) :=
  match l.mangaDir mangaID with
  | .error _ => pure none
  | .ok mangaDir => do
      let providerIDs ←
        if providerIDs = [] then
          match ← request (.readDir mangaDir) with
          | .ok entries => pure (some (directories entries))
          | .error .notExist => pure (some [])
          | .error _ => pure none
        else pure (some providerIDs)
      match providerIDs with
      | none => pure none
      | some providerIDs => do
          let allChapters ← listProviders l mangaID mangaDir providerIDs
          pure (some (allChapters.insertionSort fun a b => a.chMeta.number ≤ b.chMeta.number))

/-- Where `SaveChapterPages` writes: the directory of the temporary file and the target. -/
def pagesTarget (mangaID providerID chapterID : String) : Option (Path × Path) :=
  if mangaID ≠ "" then
    match l.providerChapterDir mangaID providerID chapterID with
    | .error _ => none
    | .ok dir => some (dir, dir ++ ["pages.json"])
  else if chapterID = "" then none
  else
    let targetDir := l.root ++ ["_pages"]
    let targetFile := join targetDir [chapterID ++ ".json"]
    if l.within targetFile || targetFile == l.root then some (targetDir, targetFile) else none

/-- `SaveChapterPages`, with the encoding of the pages. -/
def saveChapterPages (encode : List PageItem → List UInt8) (mangaID providerID chapterID : String)
    (pages : List PageItem) : Effect Answer Bool :=
  let chapterID := l.sanitizeID chapterID
  if pages = [] then pure false
  else
    match pagesTarget l mangaID providerID chapterID with
    | none => pure false
    | some (targetDir, targetFile) => do
        if !succeeds (← request (.mkdirAll targetDir)) then pure false
        else if !(← replaceFile targetDir "pages.json" targetFile (.data (encode pages))) then
          pure false
        else if mangaID = "" then pure true
        else if !succeeds (← request (.stat (targetDir ++ ["meta.json"]))) then pure true
        else
          match ← getChapter l mangaID providerID chapterID with
          | none => pure false
          | some chMeta =>
              saveChapter l mangaID providerID chapterID
                { chMeta with pageCount := pages.length }

def getBindings (mangaID : String) : Effect Answer (Option MangaBindings) :=
  match l.mangaDir mangaID with
  | .error _ => pure none
  | .ok dir =>
      readConcernFile (dir ++ ["bindings.json"]) SavedBindings.missing.bindings fun
        | .bindings b => some b
        | _ => none

def saveBindings (mangaID : String) (b : MangaBindings) : Effect Answer Bool :=
  match l.mangaDir mangaID with
  | .error _ => pure false
  | .ok dir => do
      if succeeds (← request (.mkdirAll dir)) then
        saveJSONAtomic dir "bindings.json" (.bindings (SavedBindings.save b).bindings)
      else pure false

/-- `hasCover` for a manga directory. -/
def hasCover (mangaDir : Path) : List String → Effect Answer Bool
  | [] => pure false
  | ext :: exts => do
      if succeeds (← request (.stat (mangaDir ++ ["cover" ++ ext]))) then pure true
      else hasCover mangaDir exts

/-- `ClaimCoverEnqueue`, whether the claim is the caller's if it does not fail. -/
def claimCoverEnqueue (mangaID : String) : Effect Answer (Option Bool) :=
  match l.mangaDir mangaID with
  | .error _ => pure none
  | .ok mangaDir => do
      if ← hasCover mangaDir Layout.coverExts then pure (some false)
      else if !succeeds (← request (.mkdirAll mangaDir)) then pure none
      else
        match ← request (.create mangaDir ".cover-pending" (.data [])) with
        | .ok _ => pure (some true)
        | .error .exist => pure (some false)
        | .error _ => pure none

def releaseCoverClaim (mangaID : String) : Effect Answer Bool :=
  match l.mangaDir mangaID with
  | .error _ => pure false
  | .ok mangaDir => do
      match ← request (.remove (mangaDir ++ [".cover-pending"])) with
      | .ok _ | .error .notExist => pure true
      | .error _ => pure false

end Effects

/-! ## The files that the operations use -/

variable {dirs : Path → Prop} {dir : Path}

theorem calls_request {c : FileCall Document Question} {kind : FileCall Document Question → Prop}
    (allowed : kind c) {post : α → Prop} {next : c.Reply Answer → Effect Answer α}
    (rest : ∀ reply, (next reply).Calls kind post) : (request c >>= next).Calls kind post :=
  ⟨allowed, rest⟩

theorem uses_request {c : FileCall Document Question} (isDir : dirs dir) (inside : c.UsesIn dir)
    {post : α → Prop} {next : c.Reply Answer → Effect Answer α}
    (rest : ∀ reply, Uses dirs post (next reply)) : Uses dirs post (request c >>= next) :=
  calls_request ⟨dir, isDir, inside⟩ rest

theorem reads_request {c : FileCall Document Question} (reads : c.Reads) (isDir : dirs dir)
    (inside : c.UsesIn dir) {post : α → Prop} {next : c.Reply Answer → Effect Answer α}
    (rest : ∀ reply, Reads dirs post (next reply)) : Reads dirs post (request c >>= next) :=
  calls_request ⟨reads, dir, isDir, inside⟩ rest

theorem writesIn_request {c : FileCall Document Question} (isDir : dirs dir)
    (inside : c.InDirectory dir) {post : α → Prop} {next : c.Reply Answer → Effect Answer α}
    (rest : ∀ reply, WritesIn dirs post (next reply)) : WritesIn dirs post (request c >>= next) :=
  calls_request ⟨dir, isDir, inside⟩ rest

/-- The temporary file is removed in the end. -/
theorem uses_cleanup (isDir : dirs dir) (tmp : String) (result : Bool) :
    Uses dirs (fun _ => True)
      (request (.remove (dir ++ [tmp])) >>= fun _ => pure result : Effect Answer Bool) := by
  refine uses_request isDir ?_ fun reply => trivial
  exact ⟨tmp, rfl⟩

theorem replaceFile_uses (isDir : dirs dir) (base name : String) (content : Document) :
    Uses dirs (fun _ => True)
      (replaceFile dir base (dir ++ [name]) content : Effect Answer Bool) := by
  unfold replaceFile
  refine uses_request isDir ?_ fun reply => ?_
  · exact rfl
  cases reply with
  | error _ => exact trivial
  | ok tmp =>
      refine uses_request isDir ?_ fun reply => ?_
      · exact ⟨tmp, rfl⟩
      split
      · refine uses_request isDir ?_ fun reply => uses_cleanup isDir tmp _
        exact ⟨⟨tmp, rfl⟩, name, rfl⟩
      · exact uses_cleanup isDir tmp false

theorem saveJSONAtomic_uses (isDir : dirs dir) (name : String) (content : Document) :
    Uses dirs (fun _ => True) (saveJSONAtomic dir name content : Effect Answer Bool) := by
  unfold saveJSONAtomic
  refine uses_request isDir ?_ fun reply => ?_
  · exact rfl
  cases reply with
  | error _ => exact trivial
  | ok tmp =>
      refine uses_request isDir ?_ fun reply => ?_
      · exact ⟨tmp, rfl⟩
      split
      · refine uses_request isDir ?_ fun reply => ?_
        · exact ⟨⟨tmp, rfl⟩, name, rfl⟩
        · split
          · exact trivial
          · exact uses_cleanup isDir tmp false
      · exact uses_cleanup isDir tmp false

theorem readConcernFile_reads (isDir : dirs dir) (name : String) (zero : α)
    (decode : Document → Option α) :
    Reads dirs (fun _ => True)
      (readConcernFile (dir ++ [name]) zero decode : Effect Answer (Option α)) := by
  unfold readConcernFile
  refine reads_request ?_ isDir ?_ fun reply => ?_
  · exact trivial
  · exact ⟨name, rfl⟩
  split
  all_goals exact trivial

namespace Effects

variable {l : Layout} {mangaID providerID chapterID : String}

theorem countDownloadedPages_reads (isDir : dirs dir) :
    Reads dirs (fun _ => True) (countDownloadedPages l dir : Effect Answer Nat) := by
  unfold countDownloadedPages
  refine reads_request ?_ isDir ?_ fun reply => ?_
  · exact trivial
  · exact rfl
  split
  all_goals exact trivial

theorem getChapter_reads
    (located : ∀ dir, l.providerChapterDir mangaID providerID chapterID = .ok dir → dirs dir) :
    Reads dirs (fun _ => True)
      (getChapter l mangaID providerID chapterID : Effect Answer (Option ChapterMeta)) := by
  unfold getChapter
  split
  · exact trivial
  rename_i dir isDir
  refine reads_request ?_ (located dir isDir) ?_ fun reply => ?_
  · exact trivial
  · exact ⟨"meta.json", rfl⟩
  split
  · exact Program.Calls.bind (countDownloadedPages_reads (located dir isDir)) fun _ _ => trivial
  · exact trivial

theorem saveChapter_uses {chMeta : ChapterMeta}
    (located : ∀ dir, l.providerChapterDir mangaID providerID chapterID = .ok dir → dirs dir) :
    Uses dirs (fun _ => True)
      (saveChapter l mangaID providerID chapterID chMeta : Effect Answer Bool) := by
  unfold saveChapter
  split
  · exact trivial
  rename_i dir isDir
  refine uses_request (located dir isDir) ?_ fun reply => ?_
  · exact rfl
  split
  · exact replaceFile_uses (located dir isDir) _ _ _
  · exact trivial

theorem getChapters_reads {chapterIDs : List String}
    (located : ∀ chapterID ∈ chapterIDs, ∀ dir,
      l.providerChapterDir mangaID providerID chapterID = .ok dir → dirs dir) :
    Reads dirs (fun _ => True)
      (getChapters l mangaID providerID chapterIDs : Effect Answer (List ChapterInfo)) := by
  induction chapterIDs with
  | nil => exact trivial
  | cons chapterID chapterIDs induction =>
      rw [getChapters]
      refine Program.Calls.bind (getChapter_reads (located chapterID List.mem_cons_self))
        fun stored _ => ?_
      refine Program.Calls.bind (induction fun other member =>
        located other (List.mem_cons_of_mem _ member)) fun others _ => ?_
      split
      all_goals exact trivial

theorem listProviders_reads {mangaDir : Path} {providerIDs : List String}
    (listed : ∀ providerID ∈ providerIDs, dirs (join mangaDir [providerID]))
    (located : ∀ providerID ∈ providerIDs, ∀ chapterID dir,
      l.providerChapterDir mangaID providerID chapterID = .ok dir → dirs dir) :
    Reads dirs (fun _ => True)
      (listProviders l mangaID mangaDir providerIDs : Effect Answer (List ChapterInfo)) := by
  induction providerIDs with
  | nil => exact trivial
  | cons providerID providerIDs induction =>
      have rest := induction (fun other member => listed other (List.mem_cons_of_mem _ member))
        fun other member => located other (List.mem_cons_of_mem _ member)
      rw [listProviders]
      refine reads_request ?_ (listed providerID List.mem_cons_self) ?_ fun reply => ?_
      · exact trivial
      · exact rfl
      split
      · exact rest
      refine Program.Calls.bind (getChapters_reads fun chapterID _ =>
        located providerID List.mem_cons_self chapterID) fun chapters _ => ?_
      exact Program.Calls.bind rest fun _ _ => trivial

theorem listChapters_reads {providerIDs : List String}
    (listed : ∀ dir, l.mangaDir mangaID = .ok dir →
      dirs dir ∧ ∀ providerID, dirs (join dir [providerID]))
    (located : ∀ providerID chapterID dir,
      l.providerChapterDir mangaID providerID chapterID = .ok dir → dirs dir) :
    Reads dirs (fun _ => True)
      (listChapters l mangaID providerIDs : Effect Answer (Option (List ChapterInfo))) := by
  unfold listChapters
  split
  · exact trivial
  rename_i dir isDir
  rcases listed dir isDir with ⟨here, below⟩
  have rest : ∀ (names : List String) (value : List ChapterInfo → Option (List ChapterInfo)),
      Reads dirs (fun _ => True)
        (listProviders l mangaID dir names >>= fun chapters => pure (value chapters) :
          Effect Answer (Option (List ChapterInfo))) := fun names value =>
    Program.Calls.bind (listProviders_reads (fun providerID _ => below providerID)
      fun providerID _ => located providerID) fun _ _ => trivial
  dsimp only
  split
  · refine reads_request ?_ here ?_ fun reply => ?_
    · exact trivial
    · exact rfl
    split
    · exact rest _ _
    · exact rest _ _
    · exact trivial
  · exact rest _ _

/-- With a manga, everything happens in the directory of the chapter. -/
theorem saveChapterPages_uses {encode : List PageItem → List UInt8} {pages : List PageItem}
    (named : mangaID ≠ "")
    (located : ∀ dir, l.providerChapterDir mangaID providerID (l.sanitizeID chapterID) = .ok dir →
      dirs dir) :
    Uses dirs (fun _ => True)
      (saveChapterPages l encode mangaID providerID chapterID pages : Effect Answer Bool) := by
  unfold saveChapterPages
  simp only [pagesTarget, if_pos named]
  split
  · exact trivial
  split
  · exact trivial
  rename_i targetDir targetFile target
  split at target
  · contradiction
  rename_i isDir
  cases target
  have isDir := located _ isDir
  refine uses_request isDir ?_ fun reply => ?_
  · exact rfl
  split
  · exact trivial
  refine Program.Calls.bind (replaceFile_uses isDir _ _ _) fun written _ => ?_
  split
  · exact trivial
  refine uses_request isDir ?_ fun reply => ?_
  · exact ⟨"meta.json", rfl⟩
  split
  · exact trivial
  refine Program.Calls.bind (Reads.uses (getChapter_reads located)) fun stored _ => ?_
  split
  · exact trivial
  · exact saveChapter_uses located

theorem getBindings_reads (located : ∀ dir, l.mangaDir mangaID = .ok dir → dirs dir) :
    Reads dirs (fun _ => True) (getBindings l mangaID : Effect Answer (Option MangaBindings)) := by
  unfold getBindings
  split
  · exact trivial
  rename_i dir isDir
  exact readConcernFile_reads (located dir isDir) _ _ _

theorem saveBindings_uses {b : MangaBindings} (located : ∀ dir, l.mangaDir mangaID = .ok dir → dirs dir) :
    Uses dirs (fun _ => True) (saveBindings l mangaID b : Effect Answer Bool) := by
  unfold saveBindings
  split
  · exact trivial
  rename_i dir isDir
  refine uses_request (located dir isDir) ?_ fun reply => ?_
  · exact rfl
  split
  · exact saveJSONAtomic_uses (located dir isDir) _ _
  · exact trivial

theorem hasCover_reads (isDir : dirs dir) (exts : List String) :
    Reads dirs (fun _ => True) (hasCover dir exts : Effect Answer Bool) := by
  induction exts with
  | nil => exact trivial
  | cons ext exts induction =>
      rw [hasCover]
      refine reads_request ?_ isDir ?_ fun reply => ?_
      · exact trivial
      · exact ⟨_, rfl⟩
      split
      · exact trivial
      · exact induction

theorem claimCoverEnqueue_uses (located : ∀ dir, l.mangaDir mangaID = .ok dir → dirs dir) :
    Uses dirs (fun _ => True) (claimCoverEnqueue l mangaID : Effect Answer (Option Bool)) := by
  unfold claimCoverEnqueue
  split
  · exact trivial
  rename_i dir isDir
  refine Program.Calls.bind (Reads.uses (hasCover_reads (located dir isDir) _)) fun covered _ => ?_
  split
  · exact trivial
  refine uses_request (located dir isDir) ?_ fun reply => ?_
  · exact rfl
  split
  · exact trivial
  refine uses_request (located dir isDir) ?_ fun reply => ?_
  · exact rfl
  split
  all_goals exact trivial

theorem releaseCoverClaim_uses (located : ∀ dir, l.mangaDir mangaID = .ok dir → dirs dir) :
    Uses dirs (fun _ => True) (releaseCoverClaim l mangaID : Effect Answer Bool) := by
  unfold releaseCoverClaim
  split
  · exact trivial
  rename_i dir isDir
  refine uses_request (located dir isDir) ?_ fun reply => ?_
  · exact ⟨".cover-pending", rfl⟩
  split
  all_goals exact trivial

end Effects

end Kiyomi.Library
