import Kiyomi.Library.Merge

namespace Kiyomi.Api

open Go Library

/-! # The merge endpoint

`POST /api/v1/library/manga/merge` moves the chapters of the source manga into the manga
to keep, deletes the sources and saves the merged concerns. -/

structure MergeRequest where
  keepMangaID : String
  sourceMangaIDs : List String
  /-- The provider id and the provider's manga id. -/
  contentProvider : Option (String × String)
  metadata : List (String × String)

inductive MergeRefusal
  | keepRequired
  | sourcesRequired
  | keepAmongSources
  | contentProviderIncomplete
  | mangaNotFound (id : String)
  | contentProviderUnknown
  | contentProviderUnbound
  deriving DecidableEq, Repr

def MergeRefusal.status : MergeRefusal → Nat
  | .mangaNotFound _ => 404
  | _ => 400

/-- The error of the response; that of `GetManga` goes on with its cause. -/
def MergeRefusal.message : MergeRefusal → String
  | .keepRequired => "keep_manga_id is required"
  | .sourcesRequired => "source_manga_ids is required"
  | .keepAmongSources => "keep_manga_id cannot appear in source_manga_ids"
  | .contentProviderIncomplete =>
      "content_provider.provider_id and content_provider.provider_manga_id are required"
  | .mangaNotFound id => "get manga " ++ id ++ ": "
  | .contentProviderUnknown =>
      "cannot infer content_provider: keep manga has no active content provider that survives " ++
        "merge; specify content_provider explicitly"
  | .contentProviderUnbound => "content_provider not present in merged providers list"

/-- A successful merge: the manga of the response, the disk, and the deleted directories. -/
structure Merged where
  saved : Option Manga
  disk : Disk
  deleted : List Path

/-- `append` on slices. -/
def appendSlice (items more : Option (List String)) : Option (List String) :=
  match more with
  | none | some [] => items
  | some more => some (items.getD [] ++ more)

/-- The source that a selection names. -/
def selectedSource (body : MergeRequest) (sources : List (String × Manga)) (field : String) :
    Option (String × Manga) :=
  (body.metadata.lookup field).bind fun sel =>
    if hasPrefix sel "source:" then
      let srcID := String.ofList (sel.toList.drop "source:".length)
      (sources.lookup srcID).map fun srcInfo => (srcID, srcInfo)
    else none

/-- The working copy of the kept metadata. -/
def mergedMetadata (body : MergeRequest) (keepInfo : Manga)
    (sources : List (String × Manga)) : MangaMetadata :=
  let appended := sources.foldl (fun (mergedMeta : MangaMetadata) source =>
    let sourceMeta := source.2.metadata
    { mergedMeta with
      aliases := appendSlice mergedMeta.aliases sourceMeta.aliases
      tags := appendSlice mergedMeta.tags sourceMeta.tags
      authors := appendSlice mergedMeta.authors sourceMeta.authors
      artists := appendSlice mergedMeta.artists sourceMeta.artists
      publishers := appendSlice mergedMeta.publishers sourceMeta.publishers }) keepInfo.metadata
  let scalar {α : Type} (field : String) (get : MangaMetadata → α) : α :=
    match selectedSource body sources field with
    | some (_, srcInfo) => get srcInfo.metadata
    | none => get keepInfo.metadata
  { appended with
    title := scalar "title" MangaMetadata.title
    description := scalar "description" MangaMetadata.description
    releaseYear := scalar "release_year" MangaMetadata.releaseYear
    coverURL := scalar "cover_url" MangaMetadata.coverURL }

def mergeProviderRefs (keep : List ProviderRef) (sources : List (String × Manga)) :
    List ProviderRef :=
  firstSeen [] (keep ++ sources.flatMap fun source => source.2.bindings.providers)

def keepReadingMode (content : Option ContentSource) : String :=
  (content.map ContentSource.readingMode).getD ""

variable (l : Layout)

/-- The sources by id, or the first id that is not found. -/
def loadSources (disk : Disk) : List String → Except String (List (String × Manga))
  | [] => .ok []
  | srcID :: rest =>
      match l.getManga disk srcID with
      | none => .error srcID
      | some srcInfo =>
          (loadSources disk rest).map fun sources =>
            (srcID, srcInfo) :: sources.filter fun source => source.1 ≠ srcID

/-- Step 5; a refused path is only logged. -/
def mergeSources (keepID : String) : Disk → List String → Option Disk
  | disk, [] => some disk
  | disk, srcID :: rest =>
      (l.mergeChapters keepID srcID disk).bind fun moved => mergeSources keepID moved.1 rest

/-- Step 7; a refused path is only logged. -/
def deleteSources : Disk → List String → Disk × List Path
  | disk, [] => (disk, [])
  | disk, srcID :: rest =>
      match l.mangaDir srcID with
      | .error _ => deleteSources disk rest
      | .ok dir =>
          let (after, deleted) := deleteSources (disk.removeAll dir) rest
          (after, dir :: deleted)

/-- Steps 5 to 9, after the request is accepted. -/
def performMerge (disk : Disk) (body : MergeRequest) (mergedMeta : MangaMetadata)
    (mergedBindings : MangaBindings) (cover : Option String) : Option Merged :=
  (mergeSources l body.keepMangaID disk body.sourceMangaIDs).bind fun disk =>
  (match cover with
    | some srcID => l.replaceCoverFromSource body.keepMangaID srcID disk
    | none => some disk).bind fun disk =>
  let (disk, deleted) := deleteSources l disk body.sourceMangaIDs
  (l.saveMetadata disk body.keepMangaID mergedMeta).bind fun disk =>
  (l.saveBindings disk body.keepMangaID mergedBindings).map fun disk =>
    { saved := l.getManga disk body.keepMangaID, disk, deleted }

/-- `Handler.mergeLibraryManga`. There is no outcome when the file system refuses an
operation. -/
def mergeLibraryManga (disk : Disk) (body : MergeRequest) : Option (Except MergeRefusal Merged) :=
  if body.keepMangaID = "" then some (.error .keepRequired)
  else if body.sourceMangaIDs = [] then some (.error .sourcesRequired)
  else if body.sourceMangaIDs.contains body.keepMangaID then some (.error .keepAmongSources)
  else if body.contentProvider.any fun pair => pair.1 = "" || pair.2 = "" then
    some (.error .contentProviderIncomplete)
  else
    match l.getManga disk body.keepMangaID with
    | none => some (.error (.mangaNotFound body.keepMangaID))
    | some keepInfo =>
        match loadSources l disk body.sourceMangaIDs with
        | .error srcID => some (.error (.mangaNotFound srcID))
        | .ok sources =>
            let mergedProviders := mergeProviderRefs keepInfo.bindings.providers sources
            match body.contentProvider.or (keepInfo.bindings.content.map ContentSource.pair) with
            | none => some (.error .contentProviderUnknown)
            | some pair =>
                if !mergedProviders.any fun p => p.pair == pair then
                  some (.error .contentProviderUnbound)
                else
                  let mergedBindings : MangaBindings :=
                    { providers := mergedProviders
                      content := some
                        { ContentSource.zero with
                          providerID := pair.1
                          providerMangaID := pair.2
                          readingMode := keepReadingMode keepInfo.bindings.content } }
                  (performMerge l disk body (mergedMetadata body keepInfo sources) mergedBindings
                    ((selectedSource body sources "cover_url").map Prod.fst)).map .ok

end Kiyomi.Api
