import Kiyomi.Upstream.Fingerprint
import Mathlib.Data.List.Sort

namespace Kiyomi.Upstream

open Go

/-! # Requests to upstream providers -/

/-- The functions of the standard library whose grammar is not spelled out. -/
structure Web where
  /-- `url.Parse`. -/
  parse : String → Option Http.URL
  /-- What `AddCookie` writes for a cookie. -/
  cookieText : Cookie → String
  /-- The names of the cookies that `Request.Cookies` finds in a `Cookie` header. -/
  cookieNames : String → List String

/-- A GET request. -/
structure Request where
  url : Http.URL
  header : Map String String

namespace Request

/-- `Header.Get` -/
def getHeader (req : Request) (key : String) : String := (req.header.lookup key).getD ""

def setHeader (req : Request) (key value : String) : Request :=
  { req with header := req.header.insert key value }

def delHeader (req : Request) (key : String) : Request :=
  { req with header := req.header.erase key }

def addCookie (web : Web) (req : Request) (c : Cookie) : Request :=
  if req.getHeader "Cookie" = "" then req.setHeader "Cookie" (web.cookieText c)
  else req.setHeader "Cookie" (req.getHeader "Cookie" ++ "; " ++ web.cookieText c)

def hasCookie (web : Web) (req : Request) (name : String) : Bool :=
  (web.cookieNames (req.getHeader "Cookie")).contains name

end Request

/-! ## The builder -/

/-- What a provider says about its base URL, if it has the method. -/
structure Referring where
  getConfig : Option String
  baseURL : Option String

/-- The lookups of the provider registry. -/
structure Providers where
  getContent : String → Option Referring
  getMetadata : String → Option Referring
  get : String → Option Referring

def Providers.find (registry : Providers) (id : String) : Option Referring :=
  match registry.getContent id with
  | some prov => some prov
  | none =>
      match registry.getMetadata id with
      | some prov => some prov
      | none => registry.get id

def defaultUserAgent : String :=
  "Mozilla/5.0 (Macintosh; Intel Mac OS X 10_15_7) AppleWebKit/537.36 (KHTML, like Gecko) Chrome/120.0.0.0 Safari/537.36"

def defaultAcceptHeader : String :=
  "image/avif,image/webp,image/apng,image/svg+xml,image/*,*/*;q=0.8"

def ofMangaFox (rawURL : String) : Bool :=
  contains rawURL "fanfox.net" || contains rawURL "mfcdn.net" || contains rawURL "mangafox.me" ||
    contains rawURL "zjcdn"

def ofMangaDex (rawURL : String) : Bool :=
  contains rawURL "mangadex.org" || contains rawURL "mangadex.network"

/-- The provider of a request that names none. -/
def guessedProvider (rawURL providerID : String) : String :=
  if providerID = "" then
    if ofMangaFox rawURL then "mangafox" else if ofMangaDex rawURL then "mangadex" else ""
  else providerID

/-- The id without what follows an `@`. -/
def baseProvider (providerID : String) : String :=
  String.ofList (cut '@' providerID.toList).1

/-- The profile of a provider: its own, or that of its other name. -/
def profileOf (fpStore : Option (String → Option Profile)) (providerID : String) :
    Option Profile :=
  match fpStore with
  | none => none
  | some get =>
      if providerID = "" then none
      else
        match get providerID with
        | some prof => some prof
        | none =>
            if contains providerID "@" then get (baseProvider providerID)
            else get (providerID ++ "@builtin")

/-- The cookies of a request, with those of a site that asks for the reader's age. -/
def requestCookies (prof : Option Profile) (isMangaFox : Bool) : Map String String :=
  let cookies := (prof.map (·.cookies)).getD ∅
  if isMangaFox && cookies.entries.isEmpty then
    AList.singleton "https://fanfox.net" "isAdult=1; readway=2"
  else cookies

/-- The pieces whose names are neither in the jar nor among the earlier ones. -/
def cookieHeaderParts (jarNames : List String) : List String → List String → List String
  | _, [] => []
  | seenNames, part :: parts =>
      let name := trimSpace (String.ofList (cut '=' part.toList).1)
      if seenNames.contains name || jarNames.contains name then
        cookieHeaderParts jarNames seenNames parts
      else part :: cookieHeaderParts jarNames (name :: seenNames) parts

/-- The raw headers in the order of their domains. -/
def sortedHeaders (cookies : Map String String) : List String :=
  (cookies.entries.insertionSort fun left right => compareStrings left.1 right.1 ≤ 0).map (·.2)

def withSlash (referer : String) : String :=
  if referer.toList.getLast? = some '/' then referer else referer ++ "/"

/-- The referer that the registry knows for a provider; empty when there is none. -/
def registeredReferer (registry : Option Providers) (providerID : String) : String :=
  match registry with
  | none => ""
  | some registry =>
      let other :=
        if contains providerID "@" then baseProvider providerID else providerID ++ "@builtin"
      match (registry.find providerID).or (registry.find other) with
      | none => ""
      | some prov =>
          match prov.getConfig, prov.baseURL with
          | some base, _ => if base = "" then "" else withSlash base
          | none, some base => if base = "" then "" else withSlash base
          | none, none => ""

def resolveReferer (registry : Option Providers) (providerID explicitReferer : String)
    (isMangaFox isMangaDex : Bool) : String :=
  let referer :=
    if explicitReferer = "" ∧ providerID ≠ "" then registeredReferer registry providerID
    else explicitReferer
  if referer = "" then
    if isMangaFox then "https://fanfox.net/"
    else if isMangaDex then "https://mangadex.org/"
    else ""
  else referer

/-- Set a header unless there is nothing to say. -/
def setGiven (key value : String) (req : Request) : Request :=
  if value = "" then req else req.setHeader key value

def setClientHints (hints : Option ClientHints) (req : Request) : Request :=
  match hints with
  | none => req
  | some hints =>
      setGiven "Sec-Ch-Ua-Mobile" hints.mobile (setGiven "Sec-Ch-Ua-Platform" hints.platform
        (setGiven "Sec-Ch-Ua" hints.ua req))

section Building

variable {Jar : Type} (web : Web) (jar : CookieJar Jar) (now : Int)

/-- The names of the jar's cookies for a request; they are asked for only with cookies at hand. -/
def jarNames (j : Option Jar) (u : Http.URL) : List String :=
  match j with
  | none => []
  | some j => (jar.cookies j now u).map (·.name)

/-- The request, and the jar with the cookies of the profile. -/
def buildRequest (registry : Option Providers) (fpStore : Option (String → Option Profile))
    (j : Option Jar) (rawURL providerID explicitReferer : String) :
    Option (Request × Option Jar) := do
  let u ← web.parse rawURL
  let providerID := guessedProvider rawURL providerID
  let isMangaFox := baseProvider providerID = "mangafox" || ofMangaFox rawURL
  let isMangaDex := baseProvider providerID = "mangadex" || ofMangaDex rawURL
  let prof := profileOf fpStore providerID
  let cookies := requestCookies prof isMangaFox
  let j := j.map fun j => jar.setAll now j (jarEntries web.parse cookies)
  let parts := cookieHeaderParts (jarNames jar now j u) []
    ((sortedHeaders cookies).flatMap cookieParts)
  let req : Request := { url := u, header := ∅ }
  let req := setGiven "Cookie" (String.intercalate "; " parts) req
  let req := req.setHeader "User-Agent"
    (match prof with
    | some prof => if prof.userAgent = "" then defaultUserAgent else prof.userAgent
    | none => defaultUserAgent)
  let req := req.setHeader "Accept" defaultAcceptHeader
  let req := setClientHints (prof.bind (·.clientHints)) req
  let req := setGiven "Referer"
    (resolveReferer registry providerID explicitReferer isMangaFox isMangaDex) req
  some (req, j)

/-- `Client.Do` adds the cookies of the jar. -/
def withJarCookies (j : Jar) (req : Request) : Request :=
  (jar.cookies j now req.url).foldl (Request.addCookie web) req

end Building

end Kiyomi.Upstream
