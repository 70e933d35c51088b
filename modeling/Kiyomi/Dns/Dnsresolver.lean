import Kiyomi.Go.Bytes
import Kiyomi.Go.Strings
import Kiyomi.Go.Url

namespace Kiyomi.Dns

open Go Go.Url

/-! # Resolver URLs -/

/-- A port of zero stands for that of the scheme. -/
structure Spec where
  scheme : List UInt8
  host : List UInt8
  port : Nat
  path : List UInt8
  bootstrap : List (List UInt8)
  deriving DecidableEq

inductive ParseError
  | invalidURL
  | invalidPort (port : List UInt8)
  | unknownScheme (scheme : List UInt8)
  deriving DecidableEq

def defaultDNSPort : Nat := 53
def defaultDoTPort : Nat := 853
def defaultDoHPort : Nat := 443
def defaultDoHPath : List UInt8 := utf8 "/dns-query"

def dns : List UInt8 := utf8 "dns"
def tls : List UInt8 := utf8 "tls"
def https : List UInt8 := utf8 "https"

/-- What stands between the scheme and the host. -/
def separator : List UInt8 := utf8 "://"

def bootstrapKey : List UInt8 := utf8 "bootstrap"

/-! ## Numbers -/

def decimal (n : Nat) : List UInt8 := (Nat.toDigits 10 n).map Char.toUInt8

def portValue (digits : List UInt8) : Nat :=
  digits.foldl (fun value digit => 10 * value + (digit.toNat - 0x30)) 0

/-- `fmt.Sscanf` with `%d`, of digits. -/
def scanPort (digits : List UInt8) : Option Nat :=
  let value := portValue digits
  if value < 0x8000000000000000 then some value else none

/-! ## Parsing and formatting -/

section Parse

variable (r : Rules)

/-- `strings.TrimSuffix` of a slash. -/
def trimSlash (path : List UInt8) : List UInt8 :=
  if path.getLast? = some slash then path.dropLast else path

def specPath (u : URL) : List UInt8 :=
  let path := trimSlash u.path
  if path = [] ∧ u.scheme = https then defaultDoHPath else path

/-- The addresses that one value of `bootstrap` lists. -/
def addresses (value : List UInt8) : List (List UInt8) :=
  ((value.splitOn comma).map Bytes.trimSpace).filter (· ≠ [])

def bootstrapOf (u : URL) : List (List UInt8) := (u.query r bootstrapKey).flatMap addresses

def defaultPort (scheme : List UInt8) : Option Nat :=
  if scheme = dns then some defaultDNSPort
  else if scheme = tls then some defaultDoTPort
  else if scheme = https then some defaultDoHPort
  else none

/-- The part of `parseURL` behind `url.Parse`. -/
def specOf (u : URL) : Except ParseError Spec :=
  match if u.port = [] then some 0 else scanPort u.port with
  | none => .error (.invalidPort u.port)
  | some port =>
      let spec : Spec :=
        { scheme := u.scheme
          host := u.hostname
          port := port
          path := specPath u
          bootstrap := bootstrapOf r u }
      if port = 0 then
        match defaultPort u.scheme with
        | some port => .ok { spec with port := port }
        | none => .error (.unknownScheme u.scheme)
      else .ok spec

/-- The text that `parseURL` passes on: a text without `://` is one of plain DNS. -/
def withScheme (raw : List UInt8) : List UInt8 :=
  if separator <:+: raw then raw else dns ++ separator ++ raw

def parseURL (raw : List UInt8) : Except ParseError Spec :=
  match r.parse (withScheme raw) with
  | none => .error .invalidURL
  | some u => specOf r u

end Parse

/-- The URL that `formatSpec` writes. -/
def specURL (s : Spec) : URL where
  scheme := s.scheme
  host := if s.port ≠ 0 then s.host ++ colon :: decimal s.port else s.host
  path := if s.path ≠ [] ∧ s.scheme = https then s.path else []
  rawQuery :=
    if s.bootstrap ≠ [] then bootstrapKey ++ equalSign :: [comma].intercalate s.bootstrap else []

def formatSpec (s : Spec) : List UInt8 := (specURL s).string

/-! ## Lists of resolvers -/

section Lists

variable (r : Rules)

/-- One round of the loop of `ParseList`. -/
def parsePart (lists : List Spec × List (List UInt8)) (part : List UInt8) :
    Except ParseError (List Spec × List (List UInt8)) :=
  let part := Bytes.trimSpace part
  if part = [] then .ok lists
  else if separator <:+: part then
    (parseURL r part).map fun spec => (lists.1 ++ [spec], lists.2)
  else .ok (lists.1, lists.2 ++ [part])

/-- `ParseList`: the specs and the bare entries. -/
def parseList (raw : List UInt8) : Except ParseError (List Spec × List (List UInt8)) :=
  if raw = [] then .ok ([], []) else (raw.splitOn comma).foldlM (parsePart r) ([], [])

/-- `LoadFromEnv`, for the value of the variable. -/
def loadFromEnv (raw : List UInt8) : List (List UInt8) :=
  match parseList r raw with
  | .error _ => []
  | .ok lists => lists.1.map formatSpec ++ lists.2

/-- The specs that `DialFuncFromURLs` dials through. -/
def dialFuncFromURLs (urls : List (List UInt8)) : Except ParseError (List Spec) :=
  urls.mapM (parseURL r)

end Lists

end Kiyomi.Dns
