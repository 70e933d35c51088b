import Kiyomi.Plugin.Messages

namespace Kiyomi.Plugin

open Go

/-! # The gRPC servers of the SDK

`none` is an error. -/

structure MetadataProvider where
  search : String → SearchOptions → Option (List SearchResult)
  details : String → Option MangaMetadata
  cover : String → (size : String) → Option Sdk.ImageRef
  aliases : String → Option (List String)

/-- What an `io.Reader` yields: the bytes of its reads, and whether it ends with an error
other than `io.EOF`. -/
structure Reader where
  reads : List (List UInt8)
  fails : Bool

structure ContentProvider where
  hasStableChapterID : Bool
  fetchChapters : String → Option (List Chapter)
  fetchPages : String → String → Option (List Sdk.Page)
  fetchPageStream : Sdk.Page → Option Reader
  rateLimit : RateLimitHint

structure Tracker where
  authenticate : UserCredentials → Option Session
  /-- `false` is an error. -/
  pushProgress : String → Int → Bool
  fetchProgress : String → Option Progress
  isAuthenticated : Bool

/-- The providers of a server by id. -/
structure GRPCServer (Provider : Type) where
  providers : Map String Provider

def GRPCServer.getProvider (s : GRPCServer Provider) (id : String) : Option Provider :=
  s.providers.lookup id

/-! ## Metadata -/

namespace GRPCMetadataProviderServer

def searchResult (r : SearchResult) : V1.SearchResult where
  remoteId := r.remoteID
  title := r.title
  aliases := r.aliases
  coverUrl := r.coverURL
  url := r.url
  availability := r.availability

def search (s : GRPCServer MetadataProvider) (req : V1.SearchRequest) :
    Option (List V1.SearchResult) := do
  let p ← s.getProvider req.providerId
  let opts : SearchOptions :=
    { limit := req.limit.toInt, offset := req.offset.toInt, mode := req.mode }
  let results ← p.search req.query opts
  pure (results.map searchResult)

def mangaMetadata (m : MangaMetadata) : V1.MangaMetadata where
  remoteId := m.remoteID
  title := m.title
  aliases := m.aliases
  coverUrl := m.coverURL
  synopsis := m.synopsis
  status := m.status
  authors := m.authors
  artists := m.artists
  tags := m.tags
  totalChapters := Int32.ofInt m.totalChapters
  readingMode := m.readingMode
  score := m.score
  url := m.url
  availability := m.availability
  publishers := m.publishers
  releaseYear := Int32.ofInt m.releaseYear
  startDate := m.startDate
  endDate := m.endDate
  country := m.country

/-- The response may lack its message. -/
def details (s : GRPCServer MetadataProvider) (req : V1.DetailsRequest) :
    Option (Option V1.MangaMetadata) := do
  let p ← s.getProvider req.providerId
  let m ← p.details req.remoteId
  pure (some (mangaMetadata m))

def imageRef (img : Sdk.ImageRef) : V1.ImageRef where
  url := img.url
  width := Int32.ofInt img.width
  height := Int32.ofInt img.height
  mimeType := img.mimeType
  headers := img.headers

def cover (s : GRPCServer MetadataProvider) (req : V1.CoverRequest) :
    Option (Option V1.ImageRef) := do
  let p ← s.getProvider req.providerId
  let img ← p.cover req.remoteId req.size
  pure (some (imageRef img))

def aliases (s : GRPCServer MetadataProvider) (req : V1.AliasesRequest) :
    Option (List String) := do
  let p ← s.getProvider req.providerId
  p.aliases req.remoteId

end GRPCMetadataProviderServer

/-! ## Content -/

namespace GRPCContentProviderServer

def hasStableChapterID (s : GRPCServer ContentProvider) (providerId : String) : Option Bool := do
  let p ← s.getProvider providerId
  pure p.hasStableChapterID

def chapter (ch : Chapter) : V1.Chapter where
  id := ch.id
  name := ch.name
  url := ch.url
  number := ch.number
  uploadDateUnix := unix ch.uploadDate
  sourceOrder := Int32.ofInt ch.sourceOrder

def fetchChapters (s : GRPCServer ContentProvider) (req : V1.FetchChaptersRequest) :
    Option (List V1.Chapter) := do
  let p ← s.getProvider req.providerId
  let chapters ← p.fetchChapters req.mangaRef
  pure (chapters.map chapter)

def page (pg : Sdk.Page) : V1.Page where
  index := Int32.ofInt pg.index
  url := pg.url
  headers := pg.headers

def fetchPages (s : GRPCServer ContentProvider) (req : V1.FetchPagesRequest) :
    Option (List V1.Page) := do
  let p ← s.getProvider req.providerId
  let pages ← p.fetchPages req.mangaRef req.chapterRef
  pure (pages.map page)

/-- The page that a request asks the provider for. -/
def requestedPage (req : V1.FetchPageStreamRequest) : Sdk.Page :=
  let pgProto := req.page.getD .zero
  { index := pgProto.index.toInt, url := pgProto.url, headers := pgProto.headers }

/-- The chunks that are sent, and whether the stream ends with an error. -/
def fetchPageStream (s : GRPCServer ContentProvider) (req : V1.FetchPageStreamRequest) :
    Option (List (List UInt8) × Bool) := do
  let p ← s.getProvider req.providerId
  let rc ← p.fetchPageStream (requestedPage req)
  pure (rc.reads.filter (· ≠ []), rc.fails)

/-- The response may lack its message. -/
def rateLimit (s : GRPCServer ContentProvider) (providerId : String) :
    Option (Option V1.RateLimitHint) := do
  let p ← s.getProvider providerId
  let hint := p.rateLimit
  pure (some
    { requestsPerSecond := hint.requestsPerSecond, requestsPerMinute := hint.requestsPerMinute })

end GRPCContentProviderServer

/-! ## Tracking -/

namespace GRPCTrackerServer

def authenticate (s : GRPCServer Tracker) (req : V1.AuthenticateRequest) :
    Option (Option V1.Session) := do
  let p ← s.getProvider req.providerId
  let credentials := req.credentials.getD .zero
  let creds : UserCredentials :=
    { accessToken := credentials.accessToken
      refreshToken := credentials.refreshToken
      expiresAt := credentials.expiresAtUnix }
  let sess ← p.authenticate creds
  pure (some
    { accessToken := sess.accessToken
      refreshToken := sess.refreshToken
      expiresAtUnix := unix sess.expiresAt
      userId := sess.userID })

def pushProgress (s : GRPCServer Tracker) (req : V1.PushProgressRequest) : Option Unit := do
  let p ← s.getProvider req.providerId
  if p.pushProgress req.remoteId req.progress.toInt then some () else none

def fetchProgress (s : GRPCServer Tracker) (req : V1.FetchProgressRequest) :
    Option (Option V1.Progress) := do
  let p ← s.getProvider req.providerId
  let prog ← p.fetchProgress req.remoteId
  pure (some
    { status := prog.status
      score := Int32.ofInt prog.score
      progress := Int32.ofInt prog.progress
      updatedAtUnix := prog.updatedAt })

def isAuthenticated (s : GRPCServer Tracker) (providerId : String) : Option Bool := do
  let p ← s.getProvider providerId
  pure p.isAuthenticated

end GRPCTrackerServer

end Kiyomi.Plugin
