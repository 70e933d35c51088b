import Kiyomi.Library.Effects
import Kiyomi.Queue.PullManga

namespace Kiyomi.Queue

open Go Library

/-! # The handlers of the pull jobs

`HandlePullManga`, `HandlePullChapter`, `HandlePullPage` and `HandlePullCover` as programs.
What they ask outside the library, the SSRF guard, the image cache, the network, the queue
and the clock, is answered arbitrarily. -/

structure PullPagePayload where
  mangaID : String
  providerID : String
  chapterID : String
  pageIndex : Int
  pageURL : String
  deriving DecidableEq

deriving instance DecidableEq for PullMangaPayload

/-- The payload of a pull job. -/
inductive PullPayload
  | manga (payload : PullMangaPayload)
  | chapter (payload : PullChapterPayload)
  | page (payload : PullPagePayload)
  | cover (payload : PullCoverPayload)
  deriving DecidableEq

/-- What comes back for an image request. -/
structure Response where
  statusCode : Nat
  contentType : String
  body : List UInt8

/-- What `enqueueChild` has done. -/
inductive Enqueued
  | enqueued
  /-- The job was created, but enqueuing it failed. -/
  | created
  | failed
  deriving DecidableEq, Repr

inductive PullQuestion
  /-- `GetContent` of the registry. -/
  | hasContent (providerID : String)
  | fetchChapters (providerID providerMangaID : String)
  | fetchPages (providerID mangaRef chapterRef : String)
  | enqueueChild (payload : PullPayload)
  /-- `ssrfguard.ValidateURL`. -/
  | validateURL (rawURL : String)
  /-- `GetPath` of the image cache, if there is one. -/
  | cached (rawURL : String)
  /-- Building the request, sending it and getting a response. -/
  | fetch (rawURL providerID : String)
  | now
  deriving DecidableEq

abbrev PullQuestion.Answer : PullQuestion → Type
  | .hasContent _ => Bool
  | .fetchChapters .. => Option (List Chapter)
  | .fetchPages .. => Option (List (Int × String))
  | .enqueueChild _ => Enqueued
  | .validateURL _ => Bool
  | .cached _ => Option (Path × String)
  | .fetch .. => Option Response
  | .now => Time

/-- How a handler returns. -/
inductive Handled
  | completed
  | failed
  | permanent
  deriving DecidableEq, Repr

abbrev PullEffect := Effect PullQuestion.Answer

def askOutside (question : PullQuestion) : PullEffect question.Answer :=
  request (FileCall.ask question)

variable (l : Layout)

def imageSuffixes : List String := [".jpg", ".jpeg", ".png", ".webp", ".gif"]

/-- `extensionFromImageResponse`. -/
def extensionFromImageResponse (rawURL contentType : String) : String :=
  let fromPath := (l.parseURL rawURL).bind fun u =>
    let suffix := l.toLower (ext u.path)
    if imageSuffixes.contains suffix then some suffix else none
  match fromPath with
  | some suffix => suffix
  | none =>
      let contentType := l.toLower contentType
      if contentType = "image/png" then ".png"
      else if contentType = "image/webp" then ".webp"
      else if contentType = "image/gif" then ".gif"
      else ".jpg"

/-- `copyFileAtomically`. -/
def copyFileAtomically (srcPath dir : Path) (name : String) : PullEffect Bool := do
  match ← request (.readFile srcPath) with
  | .error _ => pure false
  | .ok content => replaceFile dir name (dir ++ [name]) content

/-- The attempt of `downloadImage` to take the image from the cache; `none` goes on to the
network. -/
def takeCached (cachedPath : Path) (resolved : Option (Path × String)) :
    PullEffect (Option Handled) :=
  match resolved with
  | none => pure (some .failed)
  | some (dir, name) => do
      if succeeds (← request (.mkdirAll dir)) then
        let _ ← request (.remove (dir ++ [name]))
        if succeeds (← request (.link cachedPath (dir ++ [name]))) then pure (some .completed)
        else if ← copyFileAtomically cachedPath dir name then pure (some .completed)
        else pure none
      else pure (some .failed)

/-- The part of `downloadImage` that uses the network. -/
def fetchImage (rawURL providerID : String)
    (resolveTarget : String → PullEffect (Option (Path × String))) : PullEffect Handled := do
  match ← askOutside (.fetch rawURL providerID) with
  | none => pure .failed
  | some response =>
      if 400 ≤ response.statusCode then
        pure (if [400, 401, 403, 404, 410].contains response.statusCode then .permanent else .failed)
      else
        match ← resolveTarget (extensionFromImageResponse l rawURL response.contentType) with
        | none => pure .failed
        | some (dir, name) => do
            if ← replaceFile dir name (dir ++ [name]) (.data response.body) then pure .completed
            else pure .failed

/-- `downloadImage`; a target is its directory and its name there. -/
def downloadImage (rawURL providerID : String)
    (resolveTarget : String → PullEffect (Option (Path × String))) : PullEffect Handled := do
  match ← askOutside (.cached rawURL) with
  | none => fetchImage l rawURL providerID resolveTarget
  | some (cachedPath, contentType) =>
      let resolved ← resolveTarget (extensionFromImageResponse l rawURL contentType)
      match ← takeCached cachedPath resolved with
      | some handled => pure handled
      | none => fetchImage l rawURL providerID resolveTarget

/-- The `resolveTarget` of both handlers: make the directory, then name the file. -/
def targetIn (dir : Path) (name : String → String) (suffix : String) :
    PullEffect (Option (Path × String)) := do
  if succeeds (← request (.mkdirAll dir)) then pure (some (dir, name suffix)) else pure none

def PullPagePayload.complete (p : PullPagePayload) : Bool :=
  p.mangaID != "" && p.providerID != "" && p.chapterID != "" && p.pageURL != ""

def handlePullPage (p : PullPagePayload) : PullEffect Handled := do
  if !p.complete then pure .permanent
  else if !(← askOutside (.validateURL p.pageURL)) then pure .permanent
  else
    let dir := l.providerChapterDirOrJoined p.mangaID p.providerID p.chapterID
    match ← downloadImage l p.pageURL p.providerID (targetIn dir (toString p.pageIndex ++ ·)) with
    | .completed =>
        match ← Effects.getChapter l p.mangaID p.providerID p.chapterID with
        | none => pure .failed
        | some chMeta =>
            let downloadedAt ← askOutside .now
            if ← Effects.saveChapter l p.mangaID p.providerID p.chapterID
              { chMeta with downloadedAt } then pure .completed
            else pure .failed
    | notSaved => pure notSaved

def PullCoverPayload.complete (p : PullCoverPayload) : Bool :=
  p.mangaID != "" && p.coverURL != ""

/-- The provider that a cover is fetched for. -/
def coverProvider (p : PullCoverPayload) : PullEffect String := do
  if p.providerID ≠ "" then pure p.providerID
  else
    match ← Effects.getBindings l p.mangaID with
    | none => pure ""
    | some bindings =>
        match bindings.content.map (·.providerID) with
        | some providerID =>
            if providerID ≠ "" then pure providerID
            else pure ((bindings.providers.head?.map (·.providerID)).getD "")
        | none => pure ((bindings.providers.head?.map (·.providerID)).getD "")

def handlePullCover (p : PullCoverPayload) : PullEffect Handled := do
  if !p.complete then pure .permanent
  else if !(← askOutside (.validateURL p.coverURL)) then
    let _ ← Effects.releaseCoverClaim l p.mangaID
    pure .permanent
  else
    let providerID ← coverProvider l p
    match ← downloadImage l p.coverURL providerID (targetIn (join l.root [p.mangaID]) ("cover" ++ ·)) with
    | .completed =>
        if ← Effects.releaseCoverClaim l p.mangaID then pure .completed else pure .failed
    | notSaved =>
        let _ ← Effects.releaseCoverClaim l p.mangaID
        pure notSaved

/-! ## Mangas and chapters -/

/-- `enqueueChild`: whether it returns no error. -/
def enqueueChild (payload : PullPayload) : PullEffect Bool := do
  pure ((← askOutside (.enqueueChild payload)) == .enqueued)

/-- The manifest of a chapter that is not there yet. -/
def newChapterMeta (providerID : String) (ch : Chapter) (now : Time) : ChapterMeta :=
  { ChapterMeta.zero with
    title := ch.name
    number := ch.number
    uploadDate := ch.uploadDate
    sourceOrder := ch.sourceOrder
    content := some
      { ContentSource.zero with providerID, chapterRef := ch.id, lastSyncedAt := now } }

/-- The chapter loop of `HandlePullManga`: whether it goes through. -/
def pullNewChapters (p : PullMangaPayload) (existing : List String) (now : Time) :
    List Chapter → PullEffect Bool
  | [] => pure true
  | ch :: chapters => do
      if existing.contains ch.id then pullNewChapters p existing now chapters
      else if !(← Effects.saveChapter l p.mangaID p.providerID ch.id
          (newChapterMeta p.providerID ch now)) then pure false
      else if !(← enqueueChild (.chapter ⟨p.mangaID, p.providerID, ch.id⟩)) then pure false
      else pullNewChapters p existing now chapters

/-- The part of `HandlePullManga` about the cover. -/
def pullCover (p : PullMangaPayload) : PullEffect Handled := do
  if p.coverURL = "" then pure .completed
  else
    match ← Effects.claimCoverEnqueue l p.mangaID with
    | none => pure .permanent
    | some false => pure .completed
    | some true =>
        if ← enqueueChild (.cover ⟨p.mangaID, p.coverURL, p.providerID⟩) then pure .completed
        else
          let _ ← Effects.releaseCoverClaim l p.mangaID
          pure .failed

/-- The part of `HandlePullManga` that stamps the bindings. -/
def stampBindings (p : PullMangaPayload) (now : Time) : PullEffect Handled := do
  match ← Effects.getBindings l p.mangaID with
  | none => pure .failed
  | some bindings =>
      match bindings.content with
      | none => pure .completed
      | some content => do
          if ← Effects.saveBindings l p.mangaID
            { bindings with content := some { content with lastSyncedAt := now } } then
            pure .completed
          else pure .failed

def handlePullManga (p : PullMangaPayload) : PullEffect Handled := do
  if !p.complete then pure .permanent
  else if !(← askOutside (.hasContent p.providerID)) then pure .permanent
  else
    match ← askOutside (.fetchChapters p.providerID p.providerMangaID) with
    | none => pure .failed
    | some chapters =>
        match ← Effects.listChapters l p.mangaID [p.providerID] with
        | none => pure .failed
        | some existing =>
            let now ← askOutside .now
            if !(← pullNewChapters l p (existing.map (·.id)) now chapters) then pure .failed
            else
              match ← pullCover l p with
              | .completed => stampBindings l p now
              | notDone => pure notDone

/-- The page loop of `HandlePullChapter`: whether it goes through. -/
def pullPages (p : PullChapterPayload) : List (Int × String) → PullEffect Bool
  | [] => pure true
  | (index, url) :: pages => do
      if !(← enqueueChild (.page ⟨p.mangaID, p.providerID, p.chapterID, index, url⟩)) then
        pure false
      else pullPages p pages

def PullChapterPayload.complete (p : PullChapterPayload) : Bool :=
  p.mangaID != "" && p.providerID != "" && p.chapterID != ""

/-- The content source of something stored, as far as it names a reference. -/
def storedRef (content : Option ContentSource) (ref : ContentSource → String) (otherwise : String) :
    String :=
  match content with
  | some content => if ref content ≠ "" then ref content else otherwise
  | none => otherwise

def handlePullChapter (encode : List PageItem → List UInt8) (p : PullChapterPayload) :
    PullEffect Handled := do
  if !p.complete then pure .permanent
  else if !(← askOutside (.hasContent p.providerID)) then pure .permanent
  else
    let chMeta ← Effects.getChapter l p.mangaID p.providerID p.chapterID
    let chapterRef := storedRef (chMeta.bind (·.content)) (·.chapterRef) p.chapterID
    let bindings ← Effects.getBindings l p.mangaID
    let mangaRef := storedRef (bindings.bind (·.content)) (·.providerMangaID) p.mangaID
    match ← askOutside (.fetchPages p.providerID mangaRef chapterRef) with
    | none => pure .failed
    | some pages =>
        let pageItems := pages.map fun (index, url) => ⟨index, url, "provider"⟩
        if !(← Effects.saveChapterPages l encode p.mangaID p.providerID p.chapterID pageItems) then
          pure .failed
        else if ← pullPages p pages then pure .completed
        else pure .failed

/-- The handler of a pull job. -/
def handlePull (encode : List PageItem → List UInt8) : PullPayload → PullEffect Handled
  | .manga p => handlePullManga l p
  | .chapter p => handlePullChapter l encode p
  | .page p => handlePullPage l p
  | .cover p => handlePullCover l p

end Kiyomi.Queue
