import Kiyomi.Go.Http
import Kiyomi.Go.Map
import Kiyomi.Go.Strings

namespace Kiyomi.Upstream

open Go

/-! # Fingerprint profiles

What an operator overrides in the requests of a source. -/

structure ClientHints where
  ua : String
  platform : String
  mobile : String
  platformVersion : String
  deriving DecidableEq

structure Profile where
  userAgent : String
  clientHints : Option ClientHints
  /-- Raw cookie headers by the URL of their domain. -/
  cookies : Map String String
  tlsProfile : String

namespace Profile

/-- What a failed lookup leaves. -/
def zero : Profile where
  userAgent := ""
  clientHints := none
  cookies := ∅
  tlsProfile := ""

def isZero (p : Profile) : Bool :=
  p.userAgent == "" && p.clientHints.isNone && p.cookies.entries.isEmpty && p.tlsProfile == ""

def validTLSProfile (profile : String) : Bool :=
  ["default", "chrome", "firefox", "safari", "edge"].contains profile

/-- Whether `Validate` finds nothing wrong; `parse` is `url.Parse`. -/
def valid (parse : String → Option Http.URL) (p : Profile) : Bool :=
  (p.tlsProfile == "" || validTLSProfile p.tlsProfile) &&
    p.cookies.keys.all fun domain =>
      match parse domain with
      | none => false
      | some u => u.host != "" && (u.scheme == "http" || u.scheme == "https")

theorem valid_of_isZero {parse : String → Option Http.URL} {p : Profile} (zero : p.isZero) :
    p.valid parse := by
  simp only [isZero, Bool.and_eq_true, List.isEmpty_iff] at zero
  simp only [valid, AList.keys, List.keys, zero.1.2, zero.2, Bool.true_or, List.map_nil,
    List.all_nil, Bool.and_self]

end Profile

/-- The profiles of a `MemoryStore`. -/
abbrev MemoryStore := Map String Profile

namespace MemoryStore

/-- `none` is an error: there is no profile, or no id. -/
def get (m : MemoryStore) (sourceID : String) : Option Profile :=
  if trimSpace sourceID = "" then none else m.lookup (trimSpace sourceID)

/-- The store afterwards; an error leaves it as it is. -/
def set (parse : String → Option Http.URL) (m : MemoryStore) (sourceID : String) (p : Profile) :
    MemoryStore :=
  if trimSpace sourceID = "" then m
  else if ¬ p.valid parse then m
  else if p.isZero then m.erase (trimSpace sourceID)
  else m.insert (trimSpace sourceID) p

def delete (m : MemoryStore) (sourceID : String) : MemoryStore :=
  if trimSpace sourceID = "" then m else m.erase (trimSpace sourceID)

variable {parse : String → Option Http.URL} {m : MemoryStore}

theorem lookup_set (id : String) (p : Profile) (key : String) :
    (m.set parse id p).lookup key =
      if trimSpace id ≠ "" ∧ p.valid parse ∧ key = trimSpace id then
        (if p.isZero then none else some p)
      else m.lookup key := by
  by_cases no_id : trimSpace id = ""
  · simp [set, no_id]
  · by_cases valid : p.valid parse
    · by_cases zero : p.isZero
      · simp [set, no_id, valid, zero, Map.lookup_erase]
      · simp [set, no_id, valid, zero, Map.lookup_insert]
    · simp [set, no_id, valid]

theorem lookup_delete (id key : String) :
    (m.delete id).lookup key =
      if trimSpace id ≠ "" ∧ key = trimSpace id then none else m.lookup key := by
  by_cases no_id : trimSpace id = ""
  · simp [delete, no_id]
  · simp [delete, no_id, Map.lookup_erase]

end MemoryStore

/-! ## Cookies -/

structure Cookie where
  name : String
  value : String
  deriving DecidableEq

/-- A `net/http/cookiejar`: what a jar holds, and how requests and responses use it. Cookies of
profiles have the path `/` and no other attribute. -/
structure CookieJar (Jar : Type) where
  setCookies : Jar → (now : Int) → Http.URL → List Cookie → Jar
  cookies : Jar → (now : Int) → Http.URL → List Cookie

/-- The pieces of a raw cookie header. -/
def cookieParts (rawHeader : String) : List String :=
  ((split rawHeader ';').map trimSpace).filter (· ≠ "")

/-- The cookies of a raw header, without the pieces that have no `=`. -/
def jarCookies (rawHeader : String) : List Cookie :=
  (cookieParts rawHeader).filterMap fun part =>
    match cut '=' part.toList with
    | (name, some value) =>
        some { name := trimSpace (String.ofList name), value := trimSpace (String.ofList value) }
    | (_, none) => none

/-- The calls of `SetCookies` that the cookies of a profile lead to. -/
def jarEntries (parse : String → Option Http.URL) (cookies : Map String String) :
    List (Http.URL × List Cookie) :=
  cookies.entries.filterMap fun entry =>
    match parse entry.1 with
    | none => none
    | some u =>
        if u.host = "" ∨ jarCookies entry.2 = [] then none else some (u, jarCookies entry.2)

namespace CookieJar

variable {Jar : Type} (jar : CookieJar Jar)

def setAll (now : Int) (j : Jar) (entries : List (Http.URL × List Cookie)) : Jar :=
  entries.foldl (fun j entry => jar.setCookies j now entry.1 entry.2) j

end CookieJar

end Kiyomi.Upstream
