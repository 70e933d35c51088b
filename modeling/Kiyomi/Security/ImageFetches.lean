import Kiyomi.Queue.PullHandlers
import Kiyomi.Security.Ssrfguard

namespace Kiyomi.Security

open Go Library Queue

/-! # The paths on which images are fetched

`syncCover` and `streamRemoteImage` ask of the outside what the pull handlers ask. -/

variable (l : Layout)

/-- Whether a cover was downloaded and saved. -/
def syncCover (mangaID coverURL : String) : PullEffect Bool := do
  if coverURL = "" then pure false
  else if !(← askOutside (.validateURL coverURL)) then pure false
  else
    match l.mangaDir mangaID with
    | .error _ => pure false
    | .ok mangaDir => do
        if succeeds (← request (.mkdirAll mangaDir)) then
          match ← askOutside (.fetch coverURL "") with
          | none => pure false
          | some resp =>
              if 400 ≤ resp.statusCode then pure false
              else
                -- `extensionFromCoverResponse` computes the same
                let suffix := extensionFromImageResponse l coverURL resp.contentType
                replaceFile mangaDir "cover" (mangaDir ++ ["cover" ++ suffix]) (.data resp.body)
        else pure false

/-! ## The image proxy -/

/-- The files of the image cache. -/
structure ImageCache where
  hash : String → String
  shardDir : String → Path
  encodeMeta : Response → List UInt8

/-- An image that is sent to the browser, or the status of an error. -/
inductive Streamed
  | image (contentType : String) (body : Document)
  | error (statusCode : Nat)
  deriving DecidableEq

namespace ImageCache

/-- `os.WriteFile`. -/
def writeFile (dir : Path) (name : String) (content : Document) : PullEffect Bool := do
  if succeeds (← request (.create dir name content)) then pure true
  else pure (succeeds (← request (.write (dir ++ [name]) content)))

/-- Fetch an image that the cache does not have, and keep it. -/
def populate (cache : ImageCache) (urlStr : String) (fetcher : PullEffect (Option Response)) :
    PullEffect (Option (Path × String)) := do
  match ← askOutside (.cached urlStr) with
  | some found => pure (some found)
  | none =>
      let hash := cache.hash urlStr
      let dir := cache.shardDir hash
      let imgPath := dir ++ [hash ++ ".img"]
      if succeeds (← request (.mkdirAll dir)) then
        match ← fetcher with
        | none => pure none
        | some resp =>
            if ← replaceFile dir hash imgPath (.data resp.body) then
              if ← writeFile dir (hash ++ ".json") (.data (cache.encodeMeta resp)) then
                pure (some (imgPath, resp.contentType))
              else
                let _ ← request (.remove imgPath)
                pure none
            else pure none
      else pure none

/-- Open an image that `populate` has found or stored. -/
def fetchThenOpen (cache : ImageCache) (urlStr : String)
    (fetcher : PullEffect (Option Response)) : PullEffect (Option (String × Document)) := do
  match ← cache.populate urlStr fetcher with
  | none => pure none
  | some (imgPath, contentType) =>
      match ← request (.readFile imgPath) with
      | .ok body => pure (some (contentType, body))
      | .error _ => pure none

def getOrFetch (cache : ImageCache) (urlStr : String) (fetcher : PullEffect (Option Response)) :
    PullEffect (Option (String × Document)) := do
  match ← askOutside (.cached urlStr) with
  | none => cache.fetchThenOpen urlStr fetcher
  | some (imgPath, contentType) =>
      match ← request (.readFile imgPath) with
      | .ok body => pure (some (contentType, body))
      | .error _ => cache.fetchThenOpen urlStr fetcher

end ImageCache

/-- The fetcher of the image proxy. -/
def fetchUpstream (urlStr providerID : String) : PullEffect (Option Response) := do
  match ← askOutside (.fetch urlStr providerID) with
  | none => pure none
  | some resp => pure (if 400 ≤ resp.statusCode then none else some resp)

/-- `streamRemoteImage`, with or without an image cache; `dataURI` answers what needs no
network. -/
def streamRemoteImage (dataURI : String → Streamed) (imageCache : Option ImageCache)
    (urlStr providerID : String) : PullEffect Streamed := do
  if hasPrefix urlStr "data:" then pure (dataURI urlStr)
  else if !(← askOutside (.validateURL urlStr)) then pure (.error 400)
  else
    match imageCache with
    | none =>
        match ← askOutside (.fetch urlStr providerID) with
        | none => pure (.error 502)
        | some resp =>
            if 400 ≤ resp.statusCode then pure (.error resp.statusCode)
            else pure (.image resp.contentType (.data resp.body))
    | some cache =>
        match ← cache.getOrFetch urlStr (fetchUpstream urlStr providerID) with
        | none => pure (.error 502)
        | some (contentType, body) => pure (.image contentType body)

/-- The paths on which the code fetches images. -/
inductive ImageFetch
  | syncCover (mangaID coverURL : String)
  | pullPage (payload : PullPagePayload)
  | pullCover (payload : PullCoverPayload)
  | streamRemoteImage (dataURI : String → Streamed) (imageCache : Option ImageCache)
      (urlStr providerID : String)

namespace ImageFetch

def url : ImageFetch → String
  | .syncCover _ coverURL => coverURL
  | .pullPage payload => payload.pageURL
  | .pullCover payload => payload.coverURL
  | .streamRemoteImage _ _ urlStr _ => urlStr

def program : ImageFetch → PullEffect Unit
  | .syncCover mangaID coverURL => do
      let _ ← Security.syncCover l mangaID coverURL
  | .pullPage payload => do
      let _ ← handlePullPage l payload
  | .pullCover payload => do
      let _ ← handlePullCover l payload
  | .streamRemoteImage dataURI imageCache urlStr providerID => do
      let _ ← Security.streamRemoteImage dataURI imageCache urlStr providerID

end ImageFetch

/-! ## Requests -/

/-- What the guard and the client go by. -/
structure Web where
  names : Ssrfguard.Names
  net : Http.Network
  allowPrivateNetworks : Bool

namespace Web

variable (web : Web)

def accepts (u : Http.URL) : Bool := Ssrfguard.accepts web.names web.allowPrivateNetworks u

/-- Build a request and send it: the URLs that are requested, and what comes back. -/
def fetch (rawURL : String) : List Http.URL × Option Response :=
  match web.names.parse rawURL with
  | none => ([], none)
  | some u =>
      let (requests, last) := Http.clientDo web.net u
      (requests, last.map fun resp => ⟨resp.statusCode, resp.contentType, resp.body⟩)

/-- The questions to the guard and the network are answered by them, all others anyhow. -/
def Answers : FileChoice PullQuestion.Answer → Prop
  | .answer (.validateURL rawURL) valid =>
      valid = (Ssrfguard.validateURL web.names rawURL web.allowPrivateNetworks).isSome
  | .answer (.fetch rawURL _) response => response = (web.fetch rawURL).2
  | _ => True

/-- The URLs that are requested on a run. -/
def requests (choices : List (FileChoice PullQuestion.Answer)) : List Http.URL :=
  choices.flatMap fun
    | .answer (.fetch rawURL _) _ => (web.fetch rawURL).1
    | _ => []

end Web

end Kiyomi.Security
