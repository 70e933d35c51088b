import Kiyomi.Foundation.Cuts
import Kiyomi.Foundation.PercentEncoding

namespace Kiyomi.Go.Url

open PercentEncoding

/-! # `net/url`

The parts of URLs that are read here; user information is only checked. -/

def utf8 (s : String) : List UInt8 := s.toUTF8.data.toList

def space : UInt8 := 0x20
def hash : UInt8 := 0x23
def ampersand : UInt8 := 0x26
def star : UInt8 := 0x2A
def plus : UInt8 := 0x2B
def comma : UInt8 := 0x2C
def slash : UInt8 := 0x2F
def colon : UInt8 := 0x3A
def semicolon : UInt8 := 0x3B
def equalSign : UInt8 := 0x3D
def question : UInt8 := 0x3F
def atSign : UInt8 := 0x40
def openBracket : UInt8 := 0x5B
def closeBracket : UInt8 := 0x5D

def isDigit (c : UInt8) : Bool := 0x30 ≤ c && c ≤ 0x39

def isLetter (c : UInt8) : Bool := (0x61 ≤ c && c ≤ 0x7A) || (0x41 ≤ c && c ≤ 0x5A)

def isAlnum (c : UInt8) : Bool := isLetter c || isDigit c

def isControl (c : UInt8) : Bool := c < 0x20 || c == 0x7F

/-! ## Escapes -/

inductive Encoding
  | path
  | userPassword
  | host
  | zone
  | queryComponent
  | fragment
  deriving DecidableEq

def Encoding.ofHost : Encoding → Bool
  | .host | .zone => true
  | _ => false

def shouldEscape (mode : Encoding) (c : UInt8) : Bool :=
  if isAlnum c then false
  -- ! $ & ' ( ) * + , ; = : [ ] < > "
  else if mode.ofHost && c ∈ [0x21, 0x24, 0x26, 0x27, 0x28, 0x29, 0x2A, 0x2B, 0x2C, 0x3B, 0x3D,
      0x3A, 0x5B, 0x5D, 0x3C, 0x3E, 0x22] then false
  -- - _ . ~
  else if c ∈ [0x2D, 0x5F, 0x2E, 0x7E] then false
  -- $ & + , / : ; = ? @
  else if c ∈ [0x24, 0x26, 0x2B, 0x2C, 0x2F, 0x3A, 0x3B, 0x3D, 0x3F, 0x40] then
    match mode with
    | .path => c == question
    | .userPassword => c == atSign || c == slash || c == question || c == colon
    | .fragment => false
    | .queryComponent | .host | .zone => true
  -- ! ( ) *
  else if mode = .fragment && c ∈ [0x21, 0x28, 0x29, 0x2A] then false
  else true

/-- The escapes of hosts stand for bytes that are not ASCII, or for the percent sign of a zone. -/
def policy (mode : Encoding) : Policy where
  accepts high low :=
    let isPercent := high == 0x32 && low == 0x35
    match mode with
    | .host => 8 ≤ unhex high || isPercent
    | .zone => isPercent || hexByte high low == space || !shouldEscape .host (hexByte high low)
    | _ => true
  read c :=
    if c = plus then some (if mode = .queryComponent then space else plus)
    else if mode.ofHost && c < 0x80 && shouldEscape mode c then none
    else some c

def unescape (mode : Encoding) (s : List UInt8) : Option (List UInt8) := (policy mode).decode s

/-- `escape`, in a mode that does not write a space as a plus sign. -/
def escape (mode : Encoding) (s : List UInt8) : List UInt8 := encode (shouldEscape mode) s

/-! ## Parsing -/

def isSchemeByte (c : UInt8) : Bool := isAlnum c || c == plus || c == 0x2D || c == 0x2E

/-- The scheme and what follows its colon; no scheme and all of the text where it has none;
`none` for a colon at the start. -/
def getScheme (rawURL : List UInt8) : Option (List UInt8 × List UInt8) :=
  let scheme := rawURL.takeWhile isSchemeByte
  match rawURL.dropWhile isSchemeByte with
  | c :: rest =>
      if c = colon then
        match scheme with
        | [] => none
        | first :: _ =>
            if isLetter first then some (scheme, rest) else some ([], rawURL)
      else some ([], rawURL)
  | [] => some ([], rawURL)

def toLower (c : UInt8) : UInt8 := if 0x41 ≤ c && c ≤ 0x5A then c + 0x20 else c

def validOptionalPort : List UInt8 → Bool
  | [] => true
  | c :: port => c == colon && port.all isDigit

/-- The text before the first `%25` and the text from there. -/
def cutZone : List UInt8 → List UInt8 × List UInt8
  | [] => ([], [])
  | c :: s =>
      if [0x25, 0x32, 0x35].isPrefixOf (c :: s) then ([], c :: s)
      else (c :: (cutZone s).1, (cutZone s).2)

def unescapeLiteral (hostname : List UInt8) : Option (List UInt8) :=
  (unescape .host (cutZone hostname).1).bind fun hostPart =>
    (unescape .zone (cutZone hostname).2).map (hostPart ++ ·)

/-- What differs between versions and settings, and the addresses of `net/netip`. -/
structure Rules where
  /-- `netip.ParseAddr` reads an address that is not IPv4. -/
  isIPv6 : List UInt8 → Bool
  /-- Hosts of this scheme have no colon but the one of the port: `http` and `https`, no scheme
  with `urlstrictcolons=0`. -/
  strictColons : List UInt8 → Bool
  /-- The most `&` that a query has. -/
  maxSeparators : Nat

structure URL where
  scheme : List UInt8
  host : List UInt8
  path : List UInt8
  rawQuery : List UInt8
  deriving DecidableEq

def validUserinfo (userinfo : List UInt8) : Bool :=
  userinfo.all fun c => isAlnum c ||
    -- - . _ : ~ ! $ & ' ( ) * + , ; = % @
    c ∈ [0x2D, 0x2E, 0x5F, 0x3A, 0x7E, 0x21, 0x24, 0x26, 0x27, 0x28, 0x29, 0x2A, 0x2B, 0x2C, 0x3B,
      0x3D, 0x25, 0x40]

namespace Rules

variable (r : Rules)

def parseHost (scheme host : List UInt8) : Option (List UInt8) :=
  if openBracket ∈ host.tail then none
  else if host.head? = some openBracket then
    (Cuts.cutLast closeBracket host.tail).bind fun literal =>
      if validOptionalPort literal.2 then
        (unescape .host literal.2).bind fun port =>
          (unescapeLiteral literal.1).bind fun hostname =>
            if r.isIPv6 hostname then some (openBracket :: hostname ++ closeBracket :: port)
            else none
      else none
  else
    let port := if r.strictColons scheme then Cuts.after colon host else Cuts.afterLast colon host
    if port.all isDigit then unescape .host host else none

def parseAuthority (scheme authority : List UInt8) : Option (List UInt8) :=
  match Cuts.cutLast atSign authority with
  | none => r.parseHost scheme authority
  | some (userinfo, host) =>
      (r.parseHost scheme host).bind fun host =>
        if validUserinfo userinfo &&
            (unescape .userPassword (Cuts.before colon userinfo)).isSome &&
            (unescape .userPassword (Cuts.after colon userinfo)).isSome then some host
        else none

/-- The rest of a URL behind its scheme and before its query. -/
def parseRest (scheme rawQuery rest : List UInt8) : Option URL :=
  if rest.head? ≠ some slash ∧ scheme ≠ [] then some ⟨scheme, [], [], rawQuery⟩
  else if rest.head? ≠ some slash ∧ colon ∈ Cuts.before slash rest then none
  else if (scheme ≠ [] ∨ ¬[slash, slash, slash] <+: rest) ∧ [slash, slash] <+: rest then
    let authority := rest.drop 2
    (r.parseAuthority scheme (authority.takeWhile (· ≠ slash))).bind fun host =>
      (unescape .path (authority.dropWhile (· ≠ slash))).map fun path =>
        ⟨scheme, host, path, rawQuery⟩
  else (unescape .path rest).map fun path => ⟨scheme, [], path, rawQuery⟩

/-- `parse`; a question mark at the end leaves the query empty either way. -/
def parseReference (rawURL : List UInt8) : Option URL :=
  if rawURL.any isControl then none
  else if rawURL = [star] then some ⟨[], [], [star], []⟩
  else
    (getScheme rawURL).bind fun parts =>
      r.parseRest (parts.1.map toLower) (Cuts.after question parts.2) (Cuts.before question parts.2)

/-- `url.Parse`. -/
def parse (rawURL : List UInt8) : Option URL :=
  (r.parseReference (Cuts.before hash rawURL)).bind fun url =>
    (unescape .fragment (Cuts.after hash rawURL)).map fun _ => url

/-- The pair that one part of a query holds, if that can be read. -/
def parsePair (part : List UInt8) : Option (List UInt8 × List UInt8) :=
  if semicolon ∈ part ∨ part = [] then none
  else
    (unescape .queryComponent (Cuts.before equalSign part)).bind fun key =>
      (unescape .queryComponent (Cuts.after equalSign part)).map fun value => (key, value)

/-- The pairs that `ParseQuery` returns, also where it reports an error. -/
def parseQuery (query : List UInt8) : List (List UInt8 × List UInt8) :=
  if query.count ampersand ≤ r.maxSeparators then
    (query.splitOn ampersand).filterMap parsePair
  else []

end Rules

namespace URL

/-- The values of a key in `u.Query()`. -/
def query (r : Rules) (u : URL) (key : List UInt8) : List (List UInt8) :=
  ((r.parseQuery u.rawQuery).filter fun pair => pair.1 = key).map Prod.snd

end URL

/-- The host and the port behind the last colon, where that is digits. -/
def cutPort (hostPort : List UInt8) : List UInt8 × List UInt8 :=
  match Cuts.cutLast colon hostPort with
  | some (host, port) => if port.all isDigit then (host, port) else (hostPort, [])
  | none => (hostPort, [])

def unbracket (host : List UInt8) : List UInt8 :=
  if host.head? = some openBracket ∧ host.getLast? = some closeBracket then host.tail.dropLast
  else host

def splitHostPort (hostPort : List UInt8) : List UInt8 × List UInt8 :=
  (unbracket (cutPort hostPort).1, (cutPort hostPort).2)

namespace URL

def hostname (u : URL) : List UInt8 := (splitHostPort u.host).1

def port (u : URL) : List UInt8 := (splitHostPort u.host).2

/-- `u.EscapedPath()`, where `RawPath` is not set. -/
def escapedPath (u : URL) : List UInt8 := if u.path = [star] then [star] else escape .path u.path

/-- `u.String()` of a URL with no more than these parts. -/
def string (u : URL) : List UInt8 :=
  let scheme := if u.scheme = [] then [] else u.scheme ++ [colon]
  let slashes :=
    if (u.scheme ≠ [] ∨ u.host ≠ []) ∧ (u.host ≠ [] ∨ u.path ≠ []) then [slash, slash] else []
  let path := u.escapedPath
  let root := if path ≠ [] ∧ path.head? ≠ some slash ∧ u.host ≠ [] then [slash] else []
  let start := scheme ++ slashes ++ escape .host u.host ++ root
  let here := if start = [] ∧ colon ∈ Cuts.before slash path then utf8 "./" else []
  let query := if u.rawQuery = [] then [] else question :: u.rawQuery
  start ++ here ++ path ++ query

end URL

end Kiyomi.Go.Url
