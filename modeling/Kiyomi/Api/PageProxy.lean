import Kiyomi.Library.Effects

namespace Kiyomi.Api

open Go Library

/-! # `proxyPageImage` -/

/-- What a request names; an absent parameter is empty. -/
structure PageRequest where
  mangaID : String
  chapterID : String
  pageIndex : String
  /-- `provider_id`, or else `providerId`. -/
  providerID : String
  url : String

/-- How a request is answered. -/
inductive PageImage
  | invalidPageNumber
  | chapterNotFound
  | file (path : Path) (content : Document)
  | urlRequired
  /-- The image comes from the upstream. -/
  | remote (url : String) (content : ContentSource)
  deriving DecidableEq

variable (l : Layout)

/-- The chapter that is looked up, and the provider whose directory is searched. -/
def locateChapter (disk : Disk) (req : PageRequest) : Option (ChapterMeta × String) :=
  if req.providerID = "" then
    (l.findChapter disk req.mangaID req.chapterID).map fun (chMeta, foundProviderID) =>
      match chMeta.content with
      | some content =>
          (chMeta, if content.providerID ≠ "" then content.providerID else foundProviderID)
      | none => (chMeta, foundProviderID)
  else (l.getChapter disk req.mangaID req.providerID req.chapterID).map (·, req.providerID)

/-- `GetChapterPages` for a manga. -/
def getChapterPages (decode : Document → Option (List PageItem)) (disk : Disk)
    (mangaID providerID chapterID : String) : Option (List PageItem) :=
  match l.providerChapterDir mangaID providerID chapterID with
  | .error _ => none
  | .ok dir => (disk.readFile (dir ++ ["pages.json"])).bind decode

/-- The file of a page with an extension. -/
def pageFile (disk : Disk) (chapterDir : Path) (pageIndex : Int) (ext : String) :
    Option (Path × Document) :=
  let localPath := chapterDir ++ [toString pageIndex ++ ext]
  (disk.readFile localPath).map (localPath, ·)

/-- The file of a page that lies in a chapter's directory, by the order of the extensions. -/
def localPage (disk : Disk) (chapterDir : Path) (pageIndex : Int) : Option (Path × Document) :=
  Layout.imageExts.findSome? (pageFile disk chapterDir pageIndex)

/-- The answer for a page that has no file: its image comes from the URL of the request or
the stored one. -/
def upstreamPage (decode : Document → Option (List PageItem)) (disk : Disk) (req : PageRequest)
    (chMeta : ChapterMeta) (providerID : String) (pageIndex : Int) : PageImage :=
  let savedPages := (getChapterPages l decode disk req.mangaID providerID req.chapterID).getD []
  let savedURL := (savedPages.find? (·.index = pageIndex)).map (·.url)
  let imageURL := if req.url = "" ∧ providerID ≠ "" then savedURL.getD "" else req.url
  if imageURL = "" then .urlRequired
  else .remote imageURL (chMeta.content.getD { ContentSource.zero with providerID })

def proxyPageImage (decode : Document → Option (List PageItem)) (disk : Disk) (req : PageRequest) :
    PageImage :=
  match atoi req.pageIndex with
  | none => .invalidPageNumber
  | some pageIndex =>
      if pageIndex < 1 then .invalidPageNumber
      else
        match locateChapter l disk req with
        | none => .chapterNotFound
        | some (chMeta, providerID) =>
            let chapterDir := l.providerChapterDirOrJoined req.mangaID providerID req.chapterID
            match localPage disk chapterDir pageIndex with
            | some (path, content) => .file path content
            | none => upstreamPage l decode disk req chMeta providerID pageIndex

variable {l} in
theorem upstreamPage_ne_file {decode : Document → Option (List PageItem)} {disk : Disk}
    {req : PageRequest} {chMeta : ChapterMeta} {providerID : String} {pageIndex : Int}
    {path : Path} {content : Document} :
    upstreamPage l decode disk req chMeta providerID pageIndex ≠ .file path content := by
  simp only [upstreamPage]
  intro same
  split at same
  · split at same <;> cases same
  · split at same <;> cases same

end Kiyomi.Api
