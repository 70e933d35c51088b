import Kiyomi.Library.Files

namespace Kiyomi.Library

open Go

/-! # Merging one manga into another

The moves of `MergeChapters` and `ReplaceCoverFromSource`. An operation that the file
system refuses has no outcome; a path that the library refuses ends `MergeChapters` with
what it has moved so far. -/

/-- The disk, and the path that was refused if one was. -/
abbrev Moves := Option (Disk × Option PathError)

/-- The directories among the entries of a directory. -/
def subdirectories (disk : Disk) (path : Path) : Option (List String) :=
  (disk.readDir path).map fun names =>
    names.filter fun name => disk.find (path ++ [name]) = some .directory

namespace Layout

variable (l : Layout) (keepID sourceID : String)

def mergeSingleChapter (disk : Disk) (providerID chapterID : String) : Moves :=
  match l.providerChapterDir sourceID providerID chapterID with
  | .error refused => some (disk, some refused)
  | .ok sourceChapterDir =>
      if notExist disk sourceChapterDir then some (disk, none)
      else
        match l.providerChapterDir keepID providerID chapterID with
        | .error refused => some (disk, some refused)
        | .ok keepChapterDir =>
            if (disk.find keepChapterDir).isSome then some (disk, none)
            else
              (disk.mkdirAll keepChapterDir.dropLast).bind fun disk =>
                (disk.rename sourceChapterDir keepChapterDir).map fun disk => (disk, none)

/-- The inner loop of `MergeChapters`. -/
def mergeProvider (providerID : String) : Disk → List String → Moves
  | disk, [] => some (disk, none)
  | disk, chapterID :: chapterIDs =>
      match l.mergeSingleChapter keepID sourceID disk providerID chapterID with
      | some (disk, none) => mergeProvider providerID disk chapterIDs
      | stopped => stopped

/-- The outer loop of `MergeChapters`. -/
def mergeProviders (sourceDir : Path) : Disk → List String → Moves
  | disk, [] => some (disk, none)
  | disk, providerID :: providerIDs =>
      if hasPrefix providerID "." then mergeProviders sourceDir disk providerIDs
      else
        let providerDir := join sourceDir [providerID]
        if notExist disk providerDir then mergeProviders sourceDir disk providerIDs
        else
          match subdirectories disk providerDir with
          | none => none
          | some chapterIDs =>
              match l.mergeProvider keepID sourceID providerID disk chapterIDs with
              | some (disk, none) => mergeProviders sourceDir disk providerIDs
              | stopped => stopped

def mergeChapters (disk : Disk) : Moves :=
  match l.mangaDir sourceID with
  | .error refused => some (disk, some refused)
  | .ok sourceDir =>
      if notExist disk sourceDir then some (disk, none)
      else
        match subdirectories disk sourceDir with
        | none => none
        | some providerIDs => l.mergeProviders keepID sourceID sourceDir disk providerIDs

/-- `findCoverFile`, the name of the cover. -/
def findCoverFile (disk : Disk) (mangaDir : Path) : Option String :=
  (coverExts.map ("cover" ++ ·)).find? fun name => (disk.find (mangaDir ++ [name])).isSome

def removeCovers (mangaDir : Path) : Disk → List String → Option Disk
  | disk, [] => some disk
  | disk, ext :: exts =>
      (disk.remove (mangaDir ++ ["cover" ++ ext])).bind fun disk => removeCovers mangaDir disk exts

def replaceCoverFromSource (disk : Disk) : Option Disk :=
  match l.mangaDir keepID, l.mangaDir sourceID with
  | .ok keepDir, .ok sourceDir =>
      match findCoverFile disk sourceDir with
      | none => some disk
      | some cover =>
          (removeCovers keepDir disk coverExts).bind fun disk =>
            disk.rename (sourceDir ++ [cover]) (keepDir ++ [cover])
  | _, _ => some disk

end Layout

end Kiyomi.Library
