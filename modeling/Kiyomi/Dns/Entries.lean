import Kiyomi.Dns.RoundTrip

namespace Kiyomi.Dns

open Go Go.Url PercentEncoding

/-! # The grammar of resolver entries

`<scheme>://<host>[:<port>][/<path>][?bootstrap=<ip>[,<ip>...]]`, or `<host>:<port>`. -/

inductive Scheme
  | plain
  | dot
  | doh
  deriving DecidableEq

def Scheme.text : Scheme → List UInt8
  | .plain => dns
  | .dot => tls
  | .doh => https

def Scheme.defaultPort : Scheme → Nat
  | .plain => defaultDNSPort
  | .dot => defaultDoTPort
  | .doh => defaultDoHPort

inductive Host
  /-- A name or an IPv4 address. -/
  | name (name : List UInt8)
  /-- An IPv6 address, which is written between brackets. -/
  | literal (address : List UInt8)

def Host.text : Host → List UInt8
  | .name written => written
  | .literal address => openBracket :: address ++ [closeBracket]

def Host.hostname : Host → List UInt8
  | .name written => written
  | .literal address => address

/-- A URL of the grammar; the path is written with its slash, and has its escapes. -/
structure Location where
  scheme : Scheme
  host : Host
  port : Option Nat
  path : List UInt8
  bootstrap : List (List UInt8)

def portDigits (port : Option Nat) : List UInt8 := port.elim [] decimal

def portText (port : Option Nat) : List UInt8 := port.elim [] fun port => colon :: decimal port

namespace Location

def authority (l : Location) : List UInt8 := l.host.text ++ portText l.port

def text (l : Location) : List UInt8 :=
  l.scheme.text ++ colon :: slash :: slash :: (l.authority ++ l.path) ++
    queryText (bootstrapQuery l.bootstrap)

def decodedPath (l : Location) : List UInt8 := (unescape .path l.path).getD []

/-- What the location specifies. -/
def spec (l : Location) : Spec where
  scheme := l.scheme.text
  host := l.host.hostname
  port := l.port.getD l.scheme.defaultPort
  path :=
    if l.scheme = .doh then
      if trimSlash l.decodedPath = [] then defaultDoHPath else trimSlash l.decodedPath
    else []
  bootstrap := l.bootstrap

end Location

/-! ## Valid locations -/

def isNameByte (c : UInt8) : Bool := isAlnum c || c ∈ utf8 "-._"

def isAddressByte (c : UInt8) : Bool := isHex c || c ∈ utf8 ":."

/-- A byte that is seen, and stands neither for a query nor for a fragment. -/
def isPathByte (c : UInt8) : Bool := 0x21 ≤ c && c ≤ 0x7E && c ≠ question && c ≠ hash

inductive Host.Valid (r : Rules) : Host → Prop
  | name {name : List UInt8} (nonempty : name ≠ []) (bytes : name.all isNameByte = true) :
      Valid r (.name name)
  | literal {address : List UInt8} (bytes : address.all isAddressByte = true)
      (isAddress : r.isIPv6 address = true) : Valid r (.literal address)

structure Location.Valid (r : Rules) (l : Location) : Prop where
  host : l.host.Valid r
  port : ∀ port, l.port = some port → 1 ≤ port ∧ port ≤ 65535
  /-- Only DNS over HTTPS has a path. -/
  path : l.path = [] ∨ l.scheme = .doh ∧ l.path.head? = some slash
  pathBytes : l.path.all isPathByte = true
  pathEscapes : (unescape .path l.path).isSome
  bootstrap : ∀ address ∈ l.bootstrap, address ≠ [] ∧ address.all isAddressByte = true

/-! ## Bytes of a location -/

/-- The byte has no meaning in a URL, and is no space. -/
def Visible (c : UInt8) : Prop :=
  isControl c = false ∧ c ≠ hash ∧ c < 0x80 ∧ Bytes.asciiSpace c = false

instance (c : UInt8) : Decidable (Visible c) := inferInstanceAs (Decidable (_ ∧ _))

/-- A byte of a host is read as it is. -/
def HostPlain (c : UInt8) : Prop :=
  Visible c ∧ c ≠ question ∧ c ≠ slash ∧ c ≠ atSign ∧ c ≠ comma ∧ c ≠ percent ∧
    c ≠ openBracket ∧ c ≠ closeBracket ∧ (policy .host).read c = some c

instance (c : UInt8) : Decidable (HostPlain c) := inferInstanceAs (Decidable (_ ∧ _))

set_option maxRecDepth 2048 in
theorem nameByte_plain (c : UInt8) : isNameByte c = true → HostPlain c ∧ c ≠ colon := by
  revert c
  apply forall_byte
  decide +kernel

set_option maxRecDepth 2048 in
theorem addressByte_plain (c : UInt8) : isAddressByte c = true → HostPlain c ∧ Plain c := by
  revert c
  apply forall_byte
  decide +kernel

set_option maxRecDepth 2048 in
theorem pathByte_visible (c : UInt8) : isPathByte c = true → Visible c ∧ c ≠ question := by
  revert c
  apply forall_byte
  decide +kernel

set_option maxRecDepth 2048 in
theorem digit_plain (c : UInt8) : isDigit c = true → HostPlain c ∧ c ≠ colon := by
  revert c
  apply forall_byte
  decide +kernel

variable {r : Rules} {l : Location} {h : Host} {port : Option Nat}

theorem portText_plain (port : Option Nat) : ∀ c ∈ portText port, HostPlain c := by
  cases port with
  | none => exact fun c member => absurd member List.not_mem_nil
  | some port =>
      refine List.forall_mem_cons.mpr ⟨by decide, fun c member => ?_⟩
      exact (digit_plain c (List.all_eq_true.mp (isDigit_decimal port) c member)).1

theorem validOptionalPort_portText (port : Option Nat) :
    validOptionalPort (portText port) = true := by
  cases port with
  | none => rfl
  | some port =>
      rw [portText, Option.elim_some, validOptionalPort, isDigit_decimal]
      rfl

theorem not_mem_of_plain {s : List UInt8} {c : UInt8} (plain : ∀ b ∈ s, HostPlain b)
    (special : ¬HostPlain c) : c ∉ s := fun member => special (plain c member)

theorem unescape_host_of_plain {s : List UInt8} (plain : ∀ b ∈ s, HostPlain b) :
    unescape .host s = some s :=
  Policy.decode_of_plain fun c member =>
    ⟨(plain c member).2.2.2.2.2.1, (plain c member).2.2.2.2.2.2.2.2⟩

/-! ## Hosts -/

theorem hostname_plain (valid : h.Valid r) : ∀ c ∈ h.hostname, HostPlain c := by
  cases valid with
  | name _ bytes => exact fun c member => (nameByte_plain c (List.all_eq_true.mp bytes c member)).1
  | literal bytes _ =>
      exact fun c member => (addressByte_plain c (List.all_eq_true.mp bytes c member)).1

theorem unescapeLiteral_of_plain {s : List UInt8} (plain : ∀ b ∈ s, HostPlain b) :
    unescapeLiteral s = some s := by
  have noZone : cutZone s = (s, []) := by
    induction s with
    | nil => rfl
    | cons c s induction =>
        rcases List.forall_mem_cons.mp plain with ⟨first, rest⟩
        have other : ¬[0x25, 0x32, 0x35].isPrefixOf (c :: s) = true := by
          rw [List.isPrefixOf_iff_prefix, List.cons_prefix_cons, not_and_or]
          exact .inl (Ne.symm first.2.2.2.2.2.1)
        rw [cutZone, if_neg other, induction rest]
  rw [unescapeLiteral, noZone, unescape_host_of_plain plain, Option.bind_some]
  exact congrArg some (List.append_nil s)

/-- A host is read as it is written. -/
theorem parseHost_authority (scheme : List UInt8) (valid : h.Valid r) (port : Option Nat) :
    r.parseHost scheme (h.text ++ portText port) = some (h.text ++ portText port) := by
  have inPort := portText_plain port
  have plain := hostname_plain valid
  cases valid with
  | @name name nonempty bytes =>
      have noColon : colon ∉ name := fun member =>
        (nameByte_plain colon (List.all_eq_true.mp bytes colon member)).2 rfl
      have all : ∀ c ∈ name ++ portText port, HostPlain c :=
        List.forall_mem_append.mpr ⟨plain, inPort⟩
      have free : openBracket ∉ name ++ portText port := not_mem_of_plain all (by decide)
      have digits : (if r.strictColons scheme then Cuts.after colon (name ++ portText port)
          else Cuts.afterLast colon (name ++ portText port)).all isDigit = true := by
        cases port with
        | none =>
            have noLast : Cuts.afterLast colon name = [] := by
              rw [Cuts.afterLast, Cuts.cutLast_eq_none_iff.mpr noColon]
              rfl
            rw [portText, Option.elim_none, List.append_nil, Cuts.after_of_not_mem noColon, noLast,
              ite_self]
            rfl
        | some port =>
            have noLater : colon ∉ decimal port := fun member =>
              (digit_plain colon (List.all_eq_true.mp (isDigit_decimal port) colon member)).2 rfl
            rw [portText, Option.elim_some, Cuts.after_append noColon,
              Cuts.afterLast_append name noLater, ite_self]
            exact isDigit_decimal port
      rw [Host.text, Rules.parseHost, if_neg fun member => free (List.mem_of_mem_tail member),
        if_neg fun isOpen => free (List.mem_of_head? isOpen)]
      dsimp only
      rw [if_pos digits, unescape_host_of_plain all]
  | @literal address bytes isAddress =>
      have isHostname : unescapeLiteral address = some address := unescapeLiteral_of_plain plain
      have noClose : closeBracket ∉ portText port := not_mem_of_plain inPort (by decide)
      have shape : (openBracket :: address ++ [closeBracket]) ++ portText port =
          openBracket :: (address ++ closeBracket :: portText port) := by simp
      have free : openBracket ∉ address ++ closeBracket :: portText port := by
        rw [List.mem_append, List.mem_cons, not_or, not_or]
        exact ⟨not_mem_of_plain plain (by decide), by decide, not_mem_of_plain inPort (by decide)⟩
      rw [Host.text, shape, Rules.parseHost, List.tail_cons, if_neg free, List.head?_cons,
        if_pos rfl, Cuts.cutLast_eq_some_iff.mpr ⟨rfl, noClose⟩, Option.bind_some]
      dsimp only
      rw [if_pos (validOptionalPort_portText port), unescape_port (validOptionalPort_portText port),
        Option.bind_some, isHostname, Option.bind_some, if_pos isAddress]
      rfl

/-- The name and the port are found again. -/
theorem splitHostPort_authority (valid : h.Valid r) (port : Option Nat) :
    splitHostPort (h.text ++ portText port) = (h.hostname, portDigits port) := by
  cases valid with
  | @name name nonempty bytes =>
      have plain : ∀ c ∈ name, HostPlain c ∧ c ≠ colon := fun c member =>
        nameByte_plain c (List.all_eq_true.mp bytes c member)
      have free : openBracket ∉ name :=
        not_mem_of_plain (fun c member => (plain c member).1) (by decide)
      cases port with
      | none =>
          have noColon : colon ∉ name := fun member => (plain colon member).2 rfl
          have whole : cutPort name = (name, []) := by
            rw [cutPort, Cuts.cutLast_eq_none_iff.mpr noColon]
          have noBracket : ¬(name.head? = some openBracket ∧ name.getLast? = some closeBracket) :=
            fun both => free (List.mem_of_head? both.1)
          rw [portText, Option.elim_none, Host.text, List.append_nil, splitHostPort, whole, unbracket,
            if_neg noBracket]
          rfl
      | some port => exact splitHostPort_of_port free (isDigit_decimal port)
  | @literal address bytes isAddress =>
      have isHost : (splitHostPort (openBracket :: address ++ closeBracket :: portText port)).1 =
          address := splitHostPort_literal (validOptionalPort_portText port)
      have isPort : (splitHostPort (openBracket :: address ++ closeBracket :: portText port)).2 =
          portDigits port := by
        cases port with
        | none =>
            rw [splitHostPort, portText, Option.elim_none, cutPort_of_bracket List.getLast?_concat]
            rfl
        | some port =>
            rw [splitHostPort, portText, Option.elim_some,
              List.append_cons (openBracket :: address) closeBracket,
              cutPort_of_port (isDigit_decimal port)]
            rfl
      rw [Host.text, List.append_assoc, List.singleton_append]
      exact Prod.ext isHost isPort

/-! ## Reading a location -/

theorem separator_eq : separator = [colon, slash, slash] := by decide

namespace Location

/-- The URL that a location is read as. -/
def url (l : Location) : URL where
  scheme := l.scheme.text
  host := l.authority
  path := l.decodedPath
  rawQuery := bootstrapQuery l.bootstrap

theorem schemeText_text (scheme : Scheme) : SchemeText scheme.text where
  bytes := by
    cases scheme with
    | plain => exact List.all_iff_forall_prop.mp (by decide)
    | dot => exact List.all_iff_forall_prop.mp (by decide)
    | doh => exact List.all_iff_forall_prop.mp (by decide)
  letter c isHead := by
    have first : ∀ scheme : Scheme, (scheme.text.head?.all isLetter) = true := by
      intro scheme
      cases scheme <;> decide
    have letter := first scheme
    rw [isHead] at letter
    exact letter

theorem text_ne_nil (scheme : Scheme) : scheme.text ≠ [] := by
  cases scheme <;> decide

theorem authority_plain (valid : l.Valid r) : ∀ c ∈ l.authority, Visible c ∧ c ≠ question ∧
    c ≠ slash ∧ c ≠ atSign ∧ c ≠ comma := by
  have plain {c : UInt8} (isPlain : HostPlain c) : Visible c ∧ c ≠ question ∧ c ≠ slash ∧
      c ≠ atSign ∧ c ≠ comma :=
    ⟨isPlain.1, isPlain.2.1, isPlain.2.2.1, isPlain.2.2.2.1, isPlain.2.2.2.2.1⟩
  refine List.forall_mem_append.mpr ⟨fun c member => ?_, fun c member =>
    plain (portText_plain l.port c member)⟩
  have inName := hostname_plain valid.host
  cases isHost : l.host with
  | name name =>
      rw [isHost] at member inName
      exact plain (inName c member)
  | literal address =>
      rw [isHost] at member inName
      rcases List.mem_append.mp member with first | last
      · rcases List.mem_cons.mp first with rfl | inAddress
        · decide
        · exact plain (inName c inAddress)
      · rw [List.mem_singleton.mp last]
        decide

theorem authority_ne_nil (valid : l.Valid r) : l.authority ≠ [] := by
  have nonempty : l.host.text ≠ [] := by
    have isValid := valid.host
    cases isHost : l.host with
    | name name =>
        rw [isHost] at isValid
        cases isValid with
        | name nonempty _ => exact nonempty
    | literal address => exact List.cons_ne_nil _ _
  exact List.append_ne_nil_of_left_ne_nil nonempty _

theorem bootstrap_plain (valid : l.Valid r) : ∀ address ∈ l.bootstrap, ∀ c ∈ address,
    HostPlain c ∧ Plain c := fun address member c inAddress =>
  addressByte_plain c (List.all_eq_true.mp (valid.bootstrap address member).2 c inAddress)

/-- Everything before the path. -/
def start (l : Location) : List UInt8 :=
  l.scheme.text ++ colon :: slash :: slash :: l.authority

theorem comma_not_mem_start (valid : l.Valid r) : comma ∉ l.start := by
  have inScheme : comma ∉ l.scheme.text := by
    cases l.scheme <;> decide
  simp only [start, List.mem_append, List.mem_cons, not_or]
  exact ⟨inScheme, by decide, by decide, by decide, fun member =>
    (authority_plain valid comma member).2.2.2.2 rfl⟩

theorem text_eq (l : Location) :
    l.text = l.start ++ l.path ++ queryText (bootstrapQuery l.bootstrap) := by
  rw [text, start]
  simp

theorem query_visible (valid : l.Valid r) :
    ∀ c ∈ bootstrapQuery l.bootstrap, Visible c := by
  refine forall_bootstrapQuery (List.all_iff_forall_prop.mp (by decide)) (by decide) (by decide) ?_
  exact fun address member c inAddress => (bootstrap_plain valid address member c inAddress).1.1

theorem rooted_path (valid : l.Valid r) : l.path = [] ∨ l.path.head? = some slash :=
  valid.path.imp_right And.right

theorem pathByte (valid : l.Valid r) : ∀ c ∈ l.path, Visible c ∧ c ≠ question := fun c member =>
  pathByte_visible c (List.all_eq_true.mp valid.pathBytes c member)

theorem text_visible (valid : l.Valid r) : ∀ c ∈ l.text, Visible c := by
  have inScheme : ∀ c ∈ l.scheme.text, Visible c := by
    cases l.scheme with
    | plain => exact List.all_iff_forall_prop.mp (by decide)
    | dot => exact List.all_iff_forall_prop.mp (by decide)
    | doh => exact List.all_iff_forall_prop.mp (by decide)
  have inQuery : ∀ c ∈ queryText (bootstrapQuery l.bootstrap), Visible c := by
    rw [queryText]
    split
    · exact fun c member => absurd member List.not_mem_nil
    · exact List.forall_mem_cons.mpr ⟨by decide, query_visible valid⟩
  exact List.forall_mem_append.mpr ⟨List.forall_mem_append.mpr ⟨inScheme,
    List.forall_mem_cons.mpr ⟨by decide, List.forall_mem_cons.mpr ⟨by decide,
      List.forall_mem_cons.mpr ⟨by decide, List.forall_mem_append.mpr
        ⟨fun c member => (authority_plain valid c member).1,
          fun c member => (pathByte valid c member).1⟩⟩⟩⟩⟩, inQuery⟩

theorem parse_text (valid : l.Valid r) : r.parse l.text = some l.url := by
  have inAuthority := authority_plain valid
  have plain : ∀ c ∈ l.authority ++ l.path, isControl c = false ∧ c ≠ hash ∧ c ≠ question := by
    refine List.forall_mem_append.mpr ⟨fun c member => ?_, fun c member => ?_⟩
    · have both := inAuthority c member
      exact ⟨both.1.1, both.1.2.1, both.2.1⟩
    · have both := pathByte valid c member
      exact ⟨both.1.1, both.1.2.1, both.2⟩
  have free : slash ∉ l.authority ∧ atSign ∉ l.authority :=
    ⟨fun member => (inAuthority slash member).2.2.1 rfl,
      fun member => (inAuthority atSign member).2.2.2.1 rfl⟩
  have inQuery : ∀ c ∈ bootstrapQuery l.bootstrap, isControl c = false ∧ c ≠ hash :=
    fun c member => ⟨(query_visible valid c member).1, (query_visible valid c member).2.1⟩
  have isHost : r.parseHost l.scheme.text l.authority = some l.authority :=
    parseHost_authority l.scheme.text valid.host l.port
  rcases Option.isSome_iff_exists.mp valid.pathEscapes with ⟨path, decoded⟩
  rw [text, parse_plain (schemeText_text l.scheme) (text_ne_nil l.scheme) (authority_ne_nil valid)
    plain free (rooted_path valid) inQuery, isHost, decoded, url, decodedPath, decoded]
  rfl

theorem defaultPort_text (scheme : Scheme) :
    Dns.defaultPort scheme.text = some scheme.defaultPort := by
  cases scheme <;> decide

theorem text_eq_https_iff (scheme : Scheme) : scheme.text = https ↔ scheme = .doh := by
  cases scheme <;> decide

theorem specPath_url (valid : l.Valid r) : specPath l.url = l.spec.path := by
  by_cases isDoh : l.scheme = .doh
  · have isHttps : l.url.scheme = https := (text_eq_https_iff l.scheme).mpr isDoh
    rw [specPath_https isHttps, spec, if_pos isDoh]
    rfl
  · have notHttps : ¬l.url.scheme = https := fun isHttps =>
      isDoh ((text_eq_https_iff l.scheme).mp isHttps)
    have noPath : l.path = [] := valid.path.resolve_right fun both => isDoh both.1
    have empty : l.url.path = [] := by
      rw [url, decodedPath, noPath]
      rfl
    rw [specPath, if_neg fun both => notHttps both.2, spec, if_neg isDoh, empty]
    rfl

/-- A text of visible bytes has nothing to trim. -/
theorem trimSpace_visible {s : List UInt8} (visible : ∀ c ∈ s, Visible c) :
    Bytes.trimSpace s = s := by
  cases isHead : s.head? with
  | none =>
      rw [List.head?_eq_none_iff.mp isHead]
      rfl
  | some b =>
      have nonempty : s ≠ [] := List.ne_nil_of_mem (List.mem_of_head? isHead)
      have isLast := List.getLast?_eq_some_getLast nonempty
      have first := visible b (List.mem_of_head? isHead)
      have last := visible _ (List.getLast_mem nonempty)
      exact Bytes.trimSpace_of_ends first.2.2.1 first.2.2.2 last.2.2.1 last.2.2.2 isHead isLast

theorem bootstrapOf_url (valid : l.Valid r) : bootstrapOf r l.url = l.bootstrap := by
  rw [bootstrapOf_eq]
  refine queryAddresses_of_plain (fun address member => ?_) fun address member c inAddress =>
    (bootstrap_plain valid address member c inAddress).2
  have plain := bootstrap_plain valid address member
  exact ⟨(valid.bootstrap address member).1,
    trimSpace_visible fun c inAddress => (plain c inAddress).1.1, not_mem_of_plain (fun c inAddress => (plain c inAddress).1) (by decide)⟩

theorem specOf_url (valid : l.Valid r) : specOf r l.url = .ok l.spec := by
  have isSplit : splitHostPort l.url.host = (l.host.hostname, portDigits l.port) :=
    splitHostPort_authority valid.host l.port
  have isHostname : l.url.hostname = l.host.hostname := by rw [URL.hostname, isSplit]
  have isDigits : l.url.port = portDigits l.port := by rw [URL.port, isSplit]
  have shape (port : Nat) (isPort : l.port.getD l.scheme.defaultPort = port) :
      l.spec = ⟨l.url.scheme, l.url.hostname, port, specPath l.url, bootstrapOf r l.url⟩ := by
    rw [isHostname, specPath_url valid, bootstrapOf_url valid, ← isPort]
    rfl
  cases isPort : l.port with
  | none =>
      rw [isPort] at isDigits shape
      have isDefault : Dns.defaultPort l.url.scheme = some l.scheme.defaultPort :=
        defaultPort_text l.scheme
      have empty : l.url.port = [] := isDigits
      rw [shape _ rfl, specOf, empty, if_pos rfl]
      dsimp only
      rw [if_pos rfl, isDefault]
      rfl
  | some port =>
      rw [isPort] at isDigits shape
      have bounds := valid.port port isPort
      rw [shape port rfl]
      exact specOf_of_port isDigits ⟨by omega, by omega⟩

theorem separator_text (l : Location) : separator <:+: l.text :=
  ⟨l.scheme.text, (l.authority ++ l.path) ++ queryText (bootstrapQuery l.bootstrap), by
    rw [text, separator_eq]
    simp⟩

/-- A valid location is read as what it specifies. -/
theorem parseURL_text (valid : l.Valid r) : parseURL r l.text = .ok l.spec :=
  parseURL_eq_ok_iff.mpr ⟨l.url, by rw [withScheme, if_pos (separator_text l), parse_text valid],
    specOf_url valid⟩

end Location

end Kiyomi.Dns
