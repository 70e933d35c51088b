import Kiyomi.Plugin.Server

namespace Kiyomi.Plugin.Host

open Go

/-! # The adapter that calls a plugin's providers

A client is the server at the other end: a call runs the server's handler on the request. -/

structure GRPCProviderAdapter where
  providerID : String
  rateLimit : RateLimitHint
  metaClient : Option (GRPCServer MetadataProvider)
  contentClient : Option (GRPCServer ContentProvider)
  trackClient : Option (GRPCServer Tracker)

/-- What a stream has not yet handed out: the rest of the last chunk, the chunks to come, and
whether it then ends with an error other than `io.EOF`. -/
structure AdapterStreamReader where
  buf : List UInt8
  chunks : List (List UInt8)
  fails : Bool

namespace AdapterStreamReader

/-- `none` is the end of the stream. -/
def read (r : AdapterStreamReader) (size : Nat) : Option (List UInt8) × AdapterStreamReader :=
  if r.buf ≠ [] then
    (some (r.buf.take size), { r with buf := r.buf.drop size })
  else
    match r.chunks with
    | [] => (none, r)
    | chunk :: chunks => (some (chunk.take size), { r with buf := chunk.drop size, chunks })

/-- The bytes still to be read. -/
def content (r : AdapterStreamReader) : List UInt8 := r.buf ++ r.chunks.flatten

/-- What reads of these sizes hand out. -/
def readAll (r : AdapterStreamReader) : List Nat → List UInt8 × AdapterStreamReader
  | [] => ([], r)
  | size :: sizes =>
      let (bytes, r') := r.read size
      let (rest, r'') := r'.readAll sizes
      (bytes.getD [] ++ rest, r'')

/-- A read hands out the next bytes. -/
theorem read_content (r : AdapterStreamReader) (size : Nat) :
    (r.read size).1.getD [] ++ (r.read size).2.content = r.content := by
  unfold read
  split
  · simp only [Option.getD_some, content, ← List.append_assoc, List.take_append_drop]
  · rename_i empty
    have none_left : r.buf = [] := not_not.1 empty
    split
    · rfl
    · rename_i chunk chunks more
      simp only [Option.getD_some, content, none_left, more, List.flatten_cons, List.nil_append,
        ← List.append_assoc, List.take_append_drop]

theorem read_fails (r : AdapterStreamReader) (size : Nat) : (r.read size).2.fails = r.fails := by
  unfold read
  split
  · rfl
  · split <;> rfl

/-- The stream ends only when nothing is left. -/
theorem content_of_read_none {r : AdapterStreamReader} {size : Nat}
    (ended : (r.read size).1 = none) : r.content = [] := by
  unfold read at ended
  split at ended
  · simp at ended
  · rename_i empty
    have none_left : r.buf = [] := not_not.1 empty
    split at ended
    · rename_i no_chunks
      simp [content, none_left, no_chunks]
    · simp at ended

end AdapterStreamReader

namespace GRPCProviderAdapter

/-! ## Metadata -/

def searchResult (r : V1.SearchResult) : SearchResult where
  remoteID := r.remoteId
  title := r.title
  aliases := r.aliases
  coverURL := r.coverUrl
  url := r.url
  availability := r.availability

def search (a : GRPCProviderAdapter) (query : String) (opts : SearchOptions) :
    Option (List SearchResult) := do
  let client ← a.metaClient
  let results ← GRPCMetadataProviderServer.search client
    { providerId := a.providerID
      query
      limit := Int32.ofInt opts.limit
      offset := Int32.ofInt opts.offset
      mode := opts.mode }
  pure (results.map searchResult)

def mangaMetadata (m : V1.MangaMetadata) : MangaMetadata where
  remoteID := m.remoteId
  title := m.title
  aliases := m.aliases
  coverURL := m.coverUrl
  synopsis := m.synopsis
  status := m.status
  authors := m.authors
  artists := m.artists
  tags := m.tags
  totalChapters := m.totalChapters.toInt
  readingMode := m.readingMode
  score := m.score
  url := m.url
  availability := m.availability
  publishers := m.publishers
  releaseYear := m.releaseYear.toInt
  startDate := m.startDate
  endDate := m.endDate
  country := m.country

/-- A response without a message is an error. -/
def details (a : GRPCProviderAdapter) (remoteID : String) : Option MangaMetadata := do
  let client ← a.metaClient
  let resp ← GRPCMetadataProviderServer.details client
    { providerId := a.providerID, remoteId := remoteID }
  let m ← resp
  pure (mangaMetadata m)

def imageRef (cov : V1.ImageRef) : ImageRef where
  url := cov.url
  width := cov.width.toInt
  height := cov.height.toInt
  mimeType := cov.mimeType

def cover (a : GRPCProviderAdapter) (remoteID size : String) : Option ImageRef := do
  let client ← a.metaClient
  let resp ← GRPCMetadataProviderServer.cover client
    { providerId := a.providerID, remoteId := remoteID, size }
  let cov ← resp
  pure (imageRef cov)

def aliases (a : GRPCProviderAdapter) (remoteID : String) : Option (List String) := do
  let client ← a.metaClient
  GRPCMetadataProviderServer.aliases client { providerId := a.providerID, remoteId := remoteID }

/-! ## Content -/

def hasStableChapterID (a : GRPCProviderAdapter) : Bool :=
  match a.contentClient with
  | none => false
  | some client =>
      (GRPCContentProviderServer.hasStableChapterID client a.providerID).getD false

def chapter (ch : V1.Chapter) : Chapter where
  id := ch.id
  name := ch.name
  url := ch.url
  number := ch.number
  uploadDate := ofUnix ch.uploadDateUnix
  sourceOrder := ch.sourceOrder.toInt

def fetchChapters (a : GRPCProviderAdapter) (mangaRef : String) : Option (List Chapter) := do
  let client ← a.contentClient
  let chapters ← GRPCContentProviderServer.fetchChapters client
    { providerId := a.providerID, mangaRef }
  pure (chapters.map chapter)

def page (pg : V1.Page) : Page where
  index := pg.index.toInt
  url := pg.url

def fetchPages (a : GRPCProviderAdapter) (mangaRef chapterRef : String) : Option (List Page) := do
  let client ← a.contentClient
  let pages ← GRPCContentProviderServer.fetchPages client
    { providerId := a.providerID, mangaRef, chapterRef }
  pure (pages.map page)

/-- The request for the stream of a page; it sets no headers. -/
def fetchPageStreamRequest (a : GRPCProviderAdapter) (page : Page) : V1.FetchPageStreamRequest where
  providerId := a.providerID
  page := some { index := Int32.ofInt page.index, url := page.url, headers := ∅ }

/-- Opening the stream does not wait for the handler: its error ends the stream instead. -/
def fetchPageStream (a : GRPCProviderAdapter) (page : Page) : Option AdapterStreamReader := do
  let client ← a.contentClient
  let stream :=
    (GRPCContentProviderServer.fetchPageStream client (a.fetchPageStreamRequest page)).getD
      ([], true)
  pure { buf := [], chunks := stream.1, fails := stream.2 }

/-- An error, or a response without a message, leaves the limit of the provider's description. -/
def currentRateLimit (a : GRPCProviderAdapter) : RateLimitHint :=
  match a.contentClient with
  | none => a.rateLimit
  | some client =>
      match GRPCContentProviderServer.rateLimit client a.providerID with
      | some (some hint) =>
          { requestsPerSecond := hint.requestsPerSecond
            requestsPerMinute := hint.requestsPerMinute }
      | _ => a.rateLimit

/-! ## Tracking -/

def authenticate (a : GRPCProviderAdapter) (creds : UserCredentials) : Option Session := do
  let client ← a.trackClient
  let credentials : V1.UserCredentials :=
    { accessToken := creds.accessToken
      refreshToken := creds.refreshToken
      expiresAtUnix := creds.expiresAt }
  let resp ← GRPCTrackerServer.authenticate client
    { providerId := a.providerID, credentials := some credentials }
  let sess ← resp
  pure
    { accessToken := sess.accessToken
      refreshToken := sess.refreshToken
      expiresAt := ofUnix sess.expiresAtUnix
      userID := sess.userId }

/-- Whether the progress was pushed without an error. -/
def pushProgress (a : GRPCProviderAdapter) (remoteID : String) (n : Int) : Bool :=
  match a.trackClient with
  | none => false
  | some client =>
      (GRPCTrackerServer.pushProgress client
        { providerId := a.providerID, remoteId := remoteID, progress := Int32.ofInt n }).isSome

def fetchProgress (a : GRPCProviderAdapter) (remoteID : String) : Option Progress := do
  let client ← a.trackClient
  let resp ← GRPCTrackerServer.fetchProgress client
    { providerId := a.providerID, remoteId := remoteID }
  let p ← resp
  pure
    { status := p.status
      score := p.score.toInt
      progress := p.progress.toInt
      updatedAt := p.updatedAtUnix }

def isAuthenticated (a : GRPCProviderAdapter) : Bool :=
  match a.trackClient with
  | none => false
  | some client => (GRPCTrackerServer.isAuthenticated client a.providerID).getD false

end GRPCProviderAdapter

end Kiyomi.Plugin.Host
