import Kiyomi.Upstream.RequestBuilder

namespace Kiyomi.ProviderSdk

open Go Upstream

/-! # The transport of an HTTP source

It puts the profile of the source into every request. -/

/-- The configuration of an `HttpSource`, as far as it decides headers. -/
structure HttpSource where
  id : String
  userAgent : String
  clientHints : Option ClientHints

def defaultClientHints : ClientHints where
  ua := "\"Chromium\";v=\"120\", \"Not_A Brand\";v=\"24\""
  platform := "\"macOS\""
  mobile := "?0"
  platformVersion := "\"\""

/-- Set a header, or delete it for an empty value. -/
def setOrDel (key value : String) (req : Request) : Request :=
  if value = "" then req.delHeader key else req.setHeader key value

/-- Set a header that the request does not have. -/
def setMissing (key value : String) (req : Request) : Request :=
  if value ≠ "" ∧ req.getHeader key = "" then req.setHeader key value else req

/-- Apply one of the three hints after the other. -/
def applyHints (apply : String → String → Request → Request) (hints : ClientHints)
    (req : Request) : Request :=
  apply "Sec-Ch-Ua-Mobile" hints.mobile (apply "Sec-Ch-Ua-Platform" hints.platform
    (apply "Sec-Ch-Ua" hints.ua req))

namespace HttpSource

/-- The profile of the source; a zero one when the lookup fails. -/
def profile (source : HttpSource) (fingerprint : Option (String → Option Profile)) : Profile :=
  match fingerprint with
  | none => .zero
  | some get => if source.id = "" then .zero else (get source.id).getD .zero

/-- The headers of `RoundTrip` before the cookies. -/
def applyProfile (source : HttpSource) (prof : Profile) (req : Request) : Request :=
  let ua :=
    if prof.userAgent ≠ "" then prof.userAgent
    else if source.userAgent ≠ "" then source.userAgent
    else defaultUserAgent
  let req :=
    if req.getHeader "User-Agent" = "" ∨ prof.userAgent ≠ "" then req.setHeader "User-Agent" ua
    else req
  match prof.clientHints with
  | some hints => applyHints setOrDel hints req
  | none => applyHints setMissing (source.clientHints.getD defaultClientHints) req

variable {Jar : Type} (web : Web) (jar : CookieJar Jar) (now : Int)

/-- The request that reaches the base transport, and the jar of the source's client. -/
def roundTrip (source : HttpSource) (fingerprint : Option (String → Option Profile)) (j : Jar)
    (req : Request) : Request × Jar :=
  let prof := source.profile fingerprint
  let req := source.applyProfile prof req
  if prof.cookies.entries.isEmpty then (req, j)
  else
    let j := jar.setAll now j (jarEntries web.parse prof.cookies)
    let req := (jar.cookies j now req.url).foldl
      (fun req c => if req.hasCookie web c.name then req else req.addCookie web c) req
    (req, j)

theorem jarEntries_of_isEmpty {parse : String → Option Http.URL} {cookies : Map String String}
    (none_given : cookies.entries.isEmpty) : jarEntries parse cookies = [] := by
  rw [jarEntries, List.isEmpty_iff.1 none_given]
  rfl

theorem roundTrip_jar (source : HttpSource) (fingerprint : Option (String → Option Profile))
    (j : Jar) (req : Request) :
    (source.roundTrip web jar now fingerprint j req).2 =
      jar.setAll now j (jarEntries web.parse (source.profile fingerprint).cookies) := by
  unfold roundTrip
  by_cases none_given : (source.profile fingerprint).cookies.entries.isEmpty
  · rw [if_pos none_given, jarEntries_of_isEmpty none_given]
    rfl
  · rw [if_neg none_given]

/-- `Client.Do` with the cookies that the jar has before the transport runs. -/
def clientDo (source : HttpSource) (fingerprint : Option (String → Option Profile)) (j : Jar)
    (req : Request) : Request × Jar :=
  source.roundTrip web jar now fingerprint j (withJarCookies web jar now j req)

end HttpSource

end Kiyomi.ProviderSdk
