import Kiyomi.Library.Effects
import Kiyomi.Library.Merge

namespace Kiyomi.Library

open Go

/-! # The calls behind merging

The operations of the library that the merge endpoint uses, call by call. Each of them
tells whether it returned no error. -/

variable {Question : Type} {Answer : Question → Type}

namespace Effects

variable (l : Layout)

def getMetadata (mangaID : String) : Effect Answer (Option MangaMetadata) :=
  match l.mangaDir mangaID with
  | .error _ => pure none
  | .ok dir =>
      readConcernFile (dir ++ ["metadata.json"]) MangaMetadata.zero fun
        | .metadata m => some m
        | _ => none

def getUserState (mangaID : String) : Effect Answer (Option UserState) :=
  match l.mangaDir mangaID with
  | .error _ => pure none
  | .ok dir =>
      readConcernFile (dir ++ ["user_state.json"]) UserState.zero fun
        | .userState u => some u
        | _ => none

def getManga (id : String) : Effect Answer (Option Manga) :=
  match l.mangaDir id with
  | .error _ => pure none
  | .ok dir => do
      if !succeeds (← request (.stat (dir ++ ["metadata.json"]))) then pure none
      else
        match ← getMetadata l id with
        | none => pure none
        | some metadata =>
            match ← getUserState l id with
            | none => pure none
            | some userState =>
                match ← getBindings l id with
                | none => pure none
                | some bindings => pure (some { id, metadata, userState, bindings })

def saveMetadata (mangaID : String) (m : MangaMetadata) : Effect Answer Bool :=
  match l.mangaDir mangaID with
  | .error _ => pure false
  | .ok dir => do
      if succeeds (← request (.mkdirAll dir)) then
        saveJSONAtomic dir "metadata.json" (.metadata (m.saved l.toLower))
      else pure false

/-- `DeleteManga`, with the directory that it removed. -/
def deleteManga (id : String) : Effect Answer (Option Path) :=
  match l.mangaDir id with
  | .error _ => pure none
  | .ok dir => do
      if succeeds (← request (.removeAll dir)) then pure (some dir) else pure none

/-! ## Chapters -/

def mergeSingleChapter (keepID sourceID providerID chapterID : String) : Effect Answer Bool :=
  match l.providerChapterDir sourceID providerID chapterID with
  | .error _ => pure false
  | .ok sourceChapterDir => do
      match ← request (.stat sourceChapterDir) with
      | .error .notExist => pure true
      | _ =>
          match l.providerChapterDir keepID providerID chapterID with
          | .error _ => pure false
          | .ok keepChapterDir => do
              if succeeds (← request (.stat keepChapterDir)) then pure true
              else if !succeeds (← request (.mkdirAll keepChapterDir.dropLast)) then pure false
              else pure (succeeds (← request (.rename sourceChapterDir keepChapterDir)))

/-- The inner loop of `MergeChapters`. -/
def mergeProvider (keepID sourceID providerID : String) : List String → Effect Answer Bool
  | [] => pure true
  | chapterID :: chapterIDs => do
      if ← mergeSingleChapter l keepID sourceID providerID chapterID then
        mergeProvider keepID sourceID providerID chapterIDs
      else pure false

/-- The outer loop of `MergeChapters`. -/
def mergeProviders (keepID sourceID : String) (sourceDir : Path) : List String → Effect Answer Bool
  | [] => pure true
  | providerID :: providerIDs => do
      if hasPrefix providerID "." then mergeProviders keepID sourceID sourceDir providerIDs
      else
        match ← request (.readDir (join sourceDir [providerID])) with
        | .error .notExist => mergeProviders keepID sourceID sourceDir providerIDs
        | .error _ => pure false
        | .ok entries => do
            if ← mergeProvider l keepID sourceID providerID (directories entries) then
              mergeProviders keepID sourceID sourceDir providerIDs
            else pure false

def mergeChapters (keepID sourceID : String) : Effect Answer Bool :=
  match l.mangaDir sourceID with
  | .error _ => pure false
  | .ok sourceDir => do
      match ← request (.stat sourceDir) with
      | .error .notExist => pure true
      | _ =>
          match ← request (.readDir sourceDir) with
          | .error _ => pure false
          | .ok entries => mergeProviders l keepID sourceID sourceDir (directories entries)

/-! ## The cover -/

/-- `findCoverFile`, the name of the cover. -/
def findCoverFile (mangaDir : Path) : List String → Effect Answer (Option String)
  | [] => pure none
  | ext :: exts => do
      if succeeds (← request (.stat (mangaDir ++ ["cover" ++ ext]))) then
        pure (some ("cover" ++ ext))
      else findCoverFile mangaDir exts

def removeCovers (mangaDir : Path) : List String → Effect Answer Bool
  | [] => pure true
  | ext :: exts => do
      match ← request (.remove (mangaDir ++ ["cover" ++ ext])) with
      | .ok _ | .error .notExist => removeCovers mangaDir exts
      | .error _ => pure false

def replaceCoverFromSource (keepID sourceID : String) : Effect Answer Bool :=
  match l.mangaDir keepID, l.mangaDir sourceID with
  | .ok keepDir, .ok sourceDir => do
      match ← findCoverFile sourceDir Layout.coverExts with
      | none => pure true
      | some cover =>
          if ← removeCovers keepDir Layout.coverExts then
            pure (succeeds (← request (.rename (sourceDir ++ [cover]) (keepDir ++ [cover]))))
          else pure false
  | _, _ => pure false

end Effects

/-! ## Reading a manga -/

variable [DecidableEq Question]

theorem missing_eq_notExist (disk : Disk) {path : Path} (absent : disk.find path = none) :
    disk.missing path = .notExist ↔ Layout.notExist disk path = true := by
  simp only [FileTree.missing, Layout.notExist, absent, decide_true, Bool.true_and]
  split
  · rename_i above
    simp [above]
  · rename_i above
    simp [above]

theorem readConcernFile_readsAs (path : Path) (zero : α) (decode : Document → Option α) :
    ReadsAs (readConcernFile path zero decode : Effect Answer (Option α))
      (fun disk => Layout.readConcern disk path zero decode) (· = none) := by
  intro f f' choices value ran
  rcases Program.run_call.mp ran with ⟨choice, rest, reply, middle, rfl, responded, ran⟩
  cases choice with
  | answer question answer => contradiction
  | refuse made =>
      cases responded
      rcases Program.run_done.mp ran with ⟨_, rfl, rfl⟩
      exact ⟨rfl, .inr ⟨rfl, _, List.mem_cons_self, rfl⟩⟩
  | grant suffix =>
      simp only [Files.respond, Files.granted] at responded
      split at responded
      · rename_i content found
        cases responded
        rcases Program.run_done.mp ran with ⟨_, rfl, rfl⟩
        refine ⟨rfl, .inl ?_⟩
        simp [Layout.readConcern, Layout.notExist, FileTree.readFile, found]
      · rename_i found
        cases responded
        rcases Program.run_done.mp ran with ⟨_, rfl, rfl⟩
        refine ⟨rfl, .inl ?_⟩
        simp [Layout.readConcern, Layout.notExist, FileTree.readFile, found]
      · rename_i absent
        cases responded
        by_cases above : Layout.notExist f.tree path = true
        · rw [(missing_eq_notExist f.tree absent).mpr above] at ran
          rcases Program.run_done.mp ran with ⟨_, rfl, rfl⟩
          exact ⟨rfl, .inl (by simp only [Layout.readConcern, if_pos above])⟩
        · have other : f.tree.missing path = .other := by
            rw [FileTree.missing, if_neg]
            intro clear
            exact above ((missing_eq_notExist f.tree absent).mp
              (by rw [FileTree.missing, if_pos clear]))
          rw [other] at ran
          rcases Program.run_done.mp ran with ⟨_, rfl, rfl⟩
          refine ⟨rfl, .inl ?_⟩
          simp only [Layout.readConcern, if_neg above, FileTree.readFile, absent]
          rfl

namespace Effects

variable (l : Layout)

theorem getMetadata_readsAs (mangaID : String) :
    ReadsAs (getMetadata l mangaID : Effect Answer _) (l.getMetadata · mangaID) (· = none) := by
  cases located : l.mangaDir mangaID with
  | error refused =>
      simp only [getMetadata, Layout.getMetadata, located]
      exact .pure none
  | ok dir =>
      simp only [getMetadata, Layout.getMetadata, located]
      exact readConcernFile_readsAs _ _ _

theorem getUserState_readsAs (mangaID : String) :
    ReadsAs (getUserState l mangaID : Effect Answer _) (l.getUserState · mangaID) (· = none) := by
  cases located : l.mangaDir mangaID with
  | error refused =>
      simp only [getUserState, Layout.getUserState, located]
      exact .pure none
  | ok dir =>
      simp only [getUserState, Layout.getUserState, located]
      exact readConcernFile_readsAs _ _ _

theorem getBindings_readsAs (mangaID : String) :
    ReadsAs (getBindings l mangaID : Effect Answer _) (l.getBindings · mangaID) (· = none) := by
  cases located : l.mangaDir mangaID with
  | error refused =>
      simp only [getBindings, Layout.getBindings, located]
      exact .pure none
  | ok dir =>
      simp only [getBindings, Layout.getBindings, located]
      exact readConcernFile_readsAs _ _ _

/-- A value that has to be read, and what is made of it. -/
theorem some_readsAs {program : Effect Answer (Option α)} {stored : Disk → Option α}
    (reads : ReadsAs program stored (· = none)) {next : Option α → Effect Answer (Option β)}
    (nothing : next none = .done none) {rest : α → Disk → Option β}
    (others : ∀ value, ReadsAs (next (some value)) (rest value) (· = none)) :
    ReadsAs (program >>= next) (fun disk => (stored disk).bind (rest · disk)) (· = none) := by
  refine (reads.bind (fun value disk => value.bind (rest · disk)) ?_ ?_).congr ?_
  · intro value
    cases value with
    | none =>
        rw [nothing]
        exact .pure none
    | some value => exact others value
  · rintro _ rfl disk
    rfl
  · exact fun disk => rfl

theorem getManga_readsAs (id : String) :
    ReadsAs (getManga l id : Effect Answer _) (l.getManga · id) (· = none) := by
  cases located : l.mangaDir id with
  | error refused =>
      simp only [getManga, Layout.getManga, located]
      exact .pure none
  | ok dir =>
      simp only [getManga, Layout.getManga, located]
      let others (present : Except FileError Bool) (disk : Disk) : Option Manga :=
        if succeeds present then
          (l.getMetadata disk id).bind fun metadata =>
            (l.getUserState disk id).bind fun userState =>
              (l.getBindings disk id).bind fun bindings =>
                some { id, metadata, userState, bindings }
        else none
      refine ((ReadsAs.stat (dir ++ ["metadata.json"])).bind others ?_ ?_).congr ?_
      · intro present
        cases present with
        | error _ =>
            change ReadsAs (.done none : Effect Answer (Option Manga)) (fun _ => none) _
            exact .pure none
        | ok isDir =>
            simp only [others, succeeds, Bool.not_true, Bool.false_eq_true, if_false, if_true]
            refine some_readsAs (@getMetadata_readsAs _ Answer _ l id) ?_ fun metadata => ?_
            · rfl
            refine some_readsAs (@getUserState_readsAs _ Answer _ l id) ?_ fun userState => ?_
            · rfl
            refine some_readsAs (@getBindings_readsAs _ Answer _ l id) ?_ fun bindings => ?_
            · rfl
            exact .pure (some ({ id, metadata, userState, bindings } : Manga))
      · rintro _ rfl disk
        rfl
      · intro disk
        simp only [FileTree.stat, others]
        cases disk.find (dir ++ ["metadata.json"]) with
        | none => rfl
        | some node => rfl

end Effects

end Kiyomi.Library
