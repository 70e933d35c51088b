import Kiyomi.Go.Map

namespace Kiyomi.Plugin

open Go

/-! # Values and messages of the plugin boundary

The value types of the SDK and those of the host have the same fields, except that the host's
`ImageRef` and `Page` have no headers; the types they share are declared once. A nil list or
map counts as an empty one, a `time.Time` as its instant in nanoseconds, and a float as its
bits. -/

structure SearchOptions where
  limit : Int
  offset : Int
  mode : String

structure SearchResult where
  remoteID : String
  title : String
  aliases : List String
  coverURL : String
  url : String
  availability : String

structure MangaMetadata where
  remoteID : String
  title : String
  aliases : List String
  coverURL : String
  synopsis : String
  status : String
  authors : List String
  artists : List String
  tags : List String
  totalChapters : Int
  readingMode : String
  score : UInt32
  url : String
  availability : String
  publishers : List String
  releaseYear : Int
  startDate : String
  endDate : String
  country : String

structure Chapter where
  id : String
  name : String
  url : String
  number : UInt32
  uploadDate : Int
  sourceOrder : Int

structure RateLimitHint where
  requestsPerSecond : UInt64
  requestsPerMinute : UInt64

structure UserCredentials where
  accessToken : String
  refreshToken : String
  expiresAt : Int

structure Session where
  accessToken : String
  refreshToken : String
  expiresAt : Int
  userID : String

structure Progress where
  status : String
  score : Int
  progress : Int
  updatedAt : Int

namespace Sdk

structure ImageRef where
  url : String
  width : Int
  height : Int
  mimeType : String
  headers : Map String String

structure Page where
  index : Int
  url : String
  headers : Map String String

end Sdk

namespace Host

structure ImageRef where
  url : String
  width : Int
  height : Int
  mimeType : String

structure Page where
  index : Int
  url : String

end Host

/-! ## Messages -/

namespace V1

structure SearchRequest where
  providerId : String
  query : String
  limit : Int32
  offset : Int32
  mode : String

structure SearchResult where
  remoteId : String
  title : String
  aliases : List String
  coverUrl : String
  url : String
  availability : String

structure DetailsRequest where
  providerId : String
  remoteId : String

structure MangaMetadata where
  remoteId : String
  title : String
  aliases : List String
  coverUrl : String
  synopsis : String
  status : String
  authors : List String
  artists : List String
  tags : List String
  totalChapters : Int32
  readingMode : String
  score : UInt32
  url : String
  availability : String
  publishers : List String
  releaseYear : Int32
  startDate : String
  endDate : String
  country : String

structure CoverRequest where
  providerId : String
  remoteId : String
  size : String

structure ImageRef where
  url : String
  width : Int32
  height : Int32
  mimeType : String
  headers : Map String String

structure AliasesRequest where
  providerId : String
  remoteId : String

structure FetchChaptersRequest where
  providerId : String
  mangaRef : String

structure Chapter where
  id : String
  name : String
  url : String
  number : UInt32
  uploadDateUnix : Int
  sourceOrder : Int32

structure FetchPagesRequest where
  providerId : String
  mangaRef : String
  chapterRef : String

structure Page where
  index : Int32
  url : String
  headers : Map String String

/-- What the getters of a nil message return. -/
def Page.zero : Page where
  index := 0
  url := ""
  headers := ∅

structure FetchPageStreamRequest where
  providerId : String
  page : Option Page

structure RateLimitHint where
  requestsPerSecond : UInt64
  requestsPerMinute : UInt64

structure UserCredentials where
  accessToken : String
  refreshToken : String
  expiresAtUnix : Int

/-- What the getters of a nil message return. -/
def UserCredentials.zero : UserCredentials where
  accessToken := ""
  refreshToken := ""
  expiresAtUnix := 0

structure AuthenticateRequest where
  providerId : String
  credentials : Option UserCredentials

structure Session where
  accessToken : String
  refreshToken : String
  expiresAtUnix : Int
  userId : String

structure PushProgressRequest where
  providerId : String
  remoteId : String
  progress : Int32

structure FetchProgressRequest where
  providerId : String
  remoteId : String

structure Progress where
  status : String
  score : Int32
  progress : Int32
  updatedAtUnix : Int

end V1

/-- `t.Unix()` of an instant in nanoseconds. -/
def unix (instant : Int) : Int := instant / 1000000000

/-- `time.Unix(seconds, 0)`. -/
def ofUnix (seconds : Int) : Int := seconds * 1000000000

end Kiyomi.Plugin
