import Kiyomi.Go.Url
import Mathlib.Data.Bool.AllAny

namespace Kiyomi.Go.Url

open PercentEncoding

/-! # What `Parse` makes of a URL that `String` writes -/

/-! ## Bytes -/

/-- A byte that a parsed host can have. -/
def HostByte (c : UInt8) : Prop :=
  shouldEscape .host c = false ∨ 0x80 ≤ c ∨ c = percent ∨ c = space

instance (c : UInt8) : Decidable (HostByte c) := inferInstanceAs (Decidable (_ ∨ _))

/-- What is read off the tables of bytes, for every byte at once. -/
theorem byte_tables (c : UInt8) :
    (encodeByte (shouldEscape .host) c).all (fun b =>
      isControl b = false ∧ b ≠ hash ∧ b ≠ question ∧ b ≠ slash ∧ b ≠ atSign ∧
        (b = colon → c = colon) ∧ (b = openBracket → c = openBracket)) ∧
    (encodeByte (shouldEscape .path) c).all (fun b =>
      isControl b = false ∧ b ≠ hash ∧ b ≠ question) ∧
    (policy .path).Decodes (shouldEscape .path) c ∧
    (HostByte c → (policy .host).Decodes (shouldEscape .host) c ∨ c = space) ∧
    (c ≠ percent →
      (policy .host).read c = none ∨ (policy .host).read c = some c ∧ HostByte c) ∧
    (c ≠ percent →
      (policy .zone).read c = none ∨ (policy .zone).read c = some c ∧ HostByte c) ∧
    (isHex c = true → 8 ≤ unhex c → 0x80 ≤ (unhex c <<< 4).toNat) := by
  revert c
  apply forall_byte
  decide +kernel

theorem escape_host_byte (c : UInt8) : ∀ b ∈ encodeByte (shouldEscape .host) c,
    isControl b = false ∧ b ≠ hash ∧ b ≠ question ∧ b ≠ slash ∧ b ≠ atSign ∧
      (b = colon → c = colon) ∧ (b = openBracket → c = openBracket) :=
  List.all_iff_forall_prop.mp (byte_tables c).1

theorem escape_path_byte (c : UInt8) : ∀ b ∈ encodeByte (shouldEscape .path) c,
    isControl b = false ∧ b ≠ hash ∧ b ≠ question :=
  List.all_iff_forall_prop.mp (byte_tables c).2.1

theorem decodes_path (c : UInt8) : (policy .path).Decodes (shouldEscape .path) c :=
  (byte_tables c).2.2.1

theorem decodes_host (c : UInt8) :
    HostByte c → (policy .host).Decodes (shouldEscape .host) c ∨ c = space :=
  (byte_tables c).2.2.2.1

theorem read_host (c : UInt8) : c ≠ percent →
    (policy .host).read c = none ∨ (policy .host).read c = some c ∧ HostByte c :=
  (byte_tables c).2.2.2.2.1

theorem read_zone (c : UInt8) : c ≠ percent →
    (policy .zone).read c = none ∨ (policy .zone).read c = some c ∧ HostByte c :=
  (byte_tables c).2.2.2.2.2.1

theorem high_half (high : UInt8) :
    isHex high = true → 8 ≤ unhex high → 0x80 ≤ (unhex high <<< 4).toNat :=
  (byte_tables high).2.2.2.2.2.2

/-- An escape of a host stands for no ASCII byte but the percent sign. -/
theorem hexByte_host {high low : UInt8} (digits : isHex high = true ∧ isHex low = true)
    (accepted : (policy .host).accepts high low = true) :
    0x80 ≤ hexByte high low ∨ hexByte high low = percent := by
  simp only [policy, Bool.or_eq_true, Bool.and_eq_true, beq_iff_eq, decide_eq_true_eq] at accepted
  rcases accepted with large | ⟨rfl, rfl⟩
  · refine .inl (UInt8.le_iff_toNat_le.mpr ((high_half high digits.1 large).trans ?_))
    rw [hexByte, UInt8.toNat_or]
    exact Nat.left_le_or
  · exact .inr (by decide)

section Hosts

variable {s t : List UInt8}

theorem hostByte_of_unescape (decoded : unescape .host s = some t) : ∀ b ∈ t, HostByte b := by
  refine Policy.forall_mem_decode ?_ ?_ decoded
  · intro c _ plain b isRead
    rcases read_host c plain with refused | ⟨same, ofHost⟩
    · rw [refused] at isRead
      contradiction
    · rw [same] at isRead
      cases isRead
      exact ofHost
  · intro high low accepted _
    rcases hexByte_host accepted.1 accepted.2 with large | isPercent
    · exact .inr (.inl large)
    · exact .inr (.inr (.inl isPercent))

theorem hostByte_of_unescape_zone (decoded : unescape .zone s = some t) :
    ∀ b ∈ t, HostByte b := by
  refine Policy.forall_mem_decode ?_ ?_ decoded
  · intro c _ plain b isRead
    rcases read_zone c plain with refused | ⟨same, ofHost⟩
    · rw [refused] at isRead
      contradiction
    · rw [same] at isRead
      cases isRead
      exact ofHost
  · intro high low accepted _
    have cases := accepted.2
    simp only [policy, Bool.or_eq_true, Bool.and_eq_true, beq_iff_eq, Bool.not_eq_true'] at cases
    rcases cases with (⟨rfl, rfl⟩ | isSpace) | plain
    · exact .inr (.inr (.inl (by decide)))
    · exact .inr (.inr (.inr isSpace))
    · exact .inl plain

/-- Brackets are not escaped in a host. -/
theorem openBracket_of_unescape (decoded : unescape .host s = some t)
    (member : openBracket ∈ t) : openBracket ∈ s := by
  by_contra free
  have others : ∀ b ∈ t, b ≠ openBracket := by
    refine Policy.forall_mem_decode ?_ ?_ decoded
    · rintro c isByte plain b isRead rfl
      rcases read_host c plain with refused | ⟨same, _⟩
      · rw [refused] at isRead
        contradiction
      · rw [same] at isRead
        cases isRead
        exact free isByte
    · intro high low accepted _ same
      have outside := hexByte_host accepted.1 accepted.2
      rw [same] at outside
      exact absurd outside (by decide)
  exact others openBracket member rfl

theorem hostByte_of_unescapeLiteral (decoded : unescapeLiteral s = some t) :
    ∀ b ∈ t, HostByte b := by
  rcases Option.bind_eq_some_iff.mp decoded with ⟨hostPart, isHost, mapped⟩
  rcases Option.map_eq_some_iff.mp mapped with ⟨zonePart, isZone, rfl⟩
  exact List.forall_mem_append.mpr
    ⟨hostByte_of_unescape isHost, hostByte_of_unescape_zone isZone⟩

theorem isPrefix_cutZone_fst (s : List UInt8) : (cutZone s).1 <+: s := by
  induction s with
  | nil => exact List.prefix_rfl
  | cons c s induction =>
      rw [cutZone]
      split
      · exact List.nil_prefix
      · exact List.cons_prefix_cons.mpr ⟨rfl, induction⟩

theorem cutZone_snd (s : List UInt8) :
    (cutZone s).2 = [] ∨ ∃ zone, (cutZone s).2 = percent :: 0x32 :: 0x35 :: zone := by
  induction s with
  | nil => exact .inl rfl
  | cons c s induction =>
      rw [cutZone]
      split
      · rename_i isZone
        rcases List.isPrefixOf_iff_prefix.mp isZone with ⟨zone, same⟩
        exact .inr ⟨zone, same.symm⟩
      · exact induction

/-- The address between brackets does not start with another bracket. -/
theorem head_of_unescapeLiteral (decoded : unescapeLiteral s = some t) (free : openBracket ∉ s) :
    t.head? ≠ some openBracket := by
  rcases Option.bind_eq_some_iff.mp decoded with ⟨hostPart, isHost, mapped⟩
  rcases Option.map_eq_some_iff.mp mapped with ⟨zonePart, isZone, rfl⟩
  cases hostPart with
  | cons b hostPart =>
      intro isOpen
      cases isOpen
      exact free ((isPrefix_cutZone_fst s).subset
        (openBracket_of_unescape isHost List.mem_cons_self))
  | nil =>
      rw [List.nil_append]
      rcases cutZone_snd s with nothing | ⟨zone, isPercent⟩
      · rw [nothing] at isZone
        cases isZone
        exact fun isOpen => absurd isOpen (by simp)
      · rw [isPercent, unescape, Policy.decode_escape ⟨by decide, by decide⟩,
          if_pos (by decide)] at isZone
        rcases Option.map_eq_some_iff.mp isZone with ⟨rest, _, rfl⟩
        rw [List.head?_cons]
        decide

set_option maxRecDepth 2048 in
theorem decodes_port (c : UInt8) : isDigit c = true ∨ c = colon →
    (c ≠ percent ∧ (policy .host).read c = some c) ∧ shouldEscape .host c = false := by
  revert c
  apply forall_byte
  decide +kernel

theorem forall_port {port : List UInt8} (valid : validOptionalPort port = true) :
    ∀ c ∈ port, isDigit c = true ∨ c = colon := by
  cases port with
  | nil => exact fun c member => absurd member List.not_mem_nil
  | cons c port =>
      simp only [validOptionalPort, Bool.and_eq_true, beq_iff_eq, List.all_eq_true] at valid
      exact List.forall_mem_cons.mpr ⟨.inr valid.1, fun c member => .inl (valid.2 c member)⟩

theorem unescape_port {port : List UInt8} (valid : validOptionalPort port = true) :
    unescape .host port = some port :=
  Policy.decode_of_plain fun c member => (decodes_port c (forall_port valid c member)).1

variable {r : Rules} {scheme host h : List UInt8}

/-- A parsed host is an address between brackets, or a text without opening brackets. -/
theorem parseHost_cases (parsed : r.parseHost scheme host = some h) :
    (openBracket ∉ h ∧ unescape .host host = some h) ∨
      ∃ literal hostname port, openBracket ∉ literal ∧ unescapeLiteral literal = some hostname ∧
        validOptionalPort port = true ∧ h = openBracket :: hostname ++ closeBracket :: port := by
  rw [Rules.parseHost] at parsed
  split at parsed
  · contradiction
  · rename_i free
    split at parsed
    · rcases Option.bind_eq_some_iff.mp parsed with ⟨⟨literal, port⟩, isLiteral, checked⟩
      rcases Cuts.cutLast_eq_some_iff.mp isLiteral with ⟨parts, _⟩
      split at checked
      · rename_i valid
        rw [unescape_port valid, Option.bind_some] at checked
        rcases Option.bind_eq_some_iff.mp checked with ⟨hostname, isHostname, found⟩
        split at found
        · cases found
          refine .inr ⟨literal, hostname, port, fun member => free ?_, isHostname, valid, rfl⟩
          rw [parts]
          exact List.mem_append_left _ member
        · contradiction
      · contradiction
    · rename_i other
      dsimp only at parsed
      generalize (if r.strictColons scheme then _ else _ : List UInt8) = port at parsed
      split at parsed
      · refine .inl ⟨fun member => ?_, parsed⟩
        have inText := openBracket_of_unescape parsed member
        cases host with
        | nil => exact absurd inText List.not_mem_nil
        | cons c host =>
            rcases List.mem_cons.mp inText with rfl | inTail
            · exact other rfl
            · exact free inTail
      · contradiction

theorem hostByte_of_parseHost (parsed : r.parseHost scheme host = some h) :
    ∀ b ∈ h, HostByte b := by
  rcases parseHost_cases parsed with ⟨_, decoded⟩ | ⟨literal, hostname, port, _, isHostname, valid, rfl⟩
  · exact hostByte_of_unescape decoded
  · rw [List.cons_append]
    refine List.forall_mem_cons.mpr ⟨by decide, List.forall_mem_append.mpr
      ⟨hostByte_of_unescapeLiteral isHostname, List.forall_mem_cons.mpr ⟨by decide, ?_⟩⟩⟩
    exact hostByte_of_unescape (unescape_port valid)

/-! ## Host and port -/

theorem cutPort_of_port {port : List UInt8} (digits : port.all isDigit = true) :
    cutPort (host ++ colon :: port) = (host, port) := by
  have free : colon ∉ port := fun member =>
    absurd (List.all_eq_true.mp digits colon member) (by decide)
  rw [cutPort, Cuts.cutLast_eq_some_iff.mpr ⟨rfl, free⟩]
  exact if_pos digits

theorem cutPort_of_bracket (last : host.getLast? = some closeBracket) :
    cutPort host = (host, []) := by
  rw [cutPort]
  split
  · rename_i name port parts
    refine if_neg fun digits => ?_
    rw [(Cuts.cutLast_eq_some_iff.mp parts).1, List.getLast?_append_cons] at last
    rcases List.mem_cons.mp (List.mem_of_getLast? last) with isColon | inPort
    · exact absurd isColon (by decide)
    · exact absurd (List.all_eq_true.mp digits _ inPort) (by decide)
  · rfl

theorem isPrefix_cutPort_fst (h : List UInt8) : (cutPort h).1 <+: h := by
  rw [cutPort]
  split
  · rename_i host port parts
    split
    · exact ⟨colon :: port, (Cuts.cutLast_eq_some_iff.mp parts).1.symm⟩
    · exact List.prefix_rfl
  · exact List.prefix_rfl

theorem isInfix_unbracket (host : List UInt8) : unbracket host <:+: host := by
  rw [unbracket]
  split
  · exact (List.dropLast_prefix _).isInfix.trans (List.tail_suffix _).isInfix
  · exact List.infix_rfl

theorem unbracket_brackets (hostname : List UInt8) :
    unbracket (openBracket :: hostname ++ [closeBracket]) = hostname := by
  rw [unbracket, if_pos ⟨rfl, List.getLast?_concat⟩]
  simp

theorem splitHostPort_literal {hostname port : List UInt8} (valid : validOptionalPort port = true) :
    (splitHostPort (openBracket :: hostname ++ closeBracket :: port)).1 = hostname := by
  have whole : (cutPort (openBracket :: hostname ++ closeBracket :: port)).1 =
      openBracket :: hostname ++ [closeBracket] := by
    cases port with
    | nil => rw [cutPort_of_bracket List.getLast?_concat]
    | cons c port =>
        simp only [validOptionalPort, Bool.and_eq_true, beq_iff_eq] at valid
        rcases valid with ⟨rfl, digits⟩
        rw [List.append_cons (openBracket :: hostname) closeBracket, cutPort_of_port digits]
  rw [splitHostPort, whole, unbracket_brackets]

theorem hostByte_of_hostname (parsed : r.parseHost scheme host = some h) :
    ∀ b ∈ (splitHostPort h).1, HostByte b := fun b member =>
  hostByte_of_parseHost parsed b
    (((isInfix_unbracket _).trans (isPrefix_cutPort_fst h).isInfix).subset member)

theorem head_of_hostname (parsed : r.parseHost scheme host = some h) :
    (splitHostPort h).1.head? ≠ some openBracket := by
  rcases parseHost_cases parsed with ⟨free, _⟩ | ⟨literal, hostname, port, free, decoded, valid, rfl⟩
  · intro isOpen
    exact free (((isInfix_unbracket _).trans (isPrefix_cutPort_fst h).isInfix).subset
      (List.mem_of_head? isOpen))
  · rw [splitHostPort_literal valid]
    exact head_of_unescapeLiteral decoded free

end Hosts

/-! ## The parts of a parsed URL -/

/-- The text is empty or a scheme in small letters. -/
structure SchemeText (scheme : List UInt8) : Prop where
  bytes : ∀ c ∈ scheme, isSchemeByte c = true ∧ toLower c = c
  letter : ∀ c, scheme.head? = some c → isLetter c = true

set_option maxRecDepth 2048 in
theorem lower_schemeByte (c : UInt8) : isSchemeByte c = true →
    (isSchemeByte (toLower c) = true ∧ toLower (toLower c) = toLower c) ∧
      (isLetter c = true → isLetter (toLower c) = true) := by
  revert c
  apply forall_byte
  decide +kernel

set_option maxRecDepth 2048 in
theorem schemeByte_plain (c : UInt8) : isSchemeByte c = true →
    isControl c = false ∧ c ≠ hash ∧ c ≠ colon := by
  revert c
  apply forall_byte
  decide +kernel

section Parts

variable {r : Rules} {raw scheme rest host path : List UInt8} {u : URL}

theorem schemeText_nil : SchemeText [] where
  bytes _ member := absurd member List.not_mem_nil
  letter _ isHead := by contradiction

theorem schemeText_of_getScheme (found : getScheme raw = some (scheme, rest)) :
    SchemeText (scheme.map toLower) := by
  have passes : ∀ c ∈ raw.takeWhile isSchemeByte, isSchemeByte c = true :=
    fun c member => List.all_eq_true.mp (List.all_takeWhile) c member
  rw [getScheme] at found
  split at found
  · split at found
    · split at found
      · contradiction
      · rename_i first others isScheme
        split at found
        · rename_i letter
          cases found
          rw [isScheme] at passes ⊢
          constructor
          · intro c member
            rcases List.mem_map.mp member with ⟨b, isByte, rfl⟩
            exact (lower_schemeByte b (passes b isByte)).1
          · intro c isHead
            cases isHead
            exact (lower_schemeByte first (passes first List.mem_cons_self)).2 letter
        · cases found
          exact schemeText_nil
    · cases found
      exact schemeText_nil
  · cases found
    exact schemeText_nil

theorem getScheme_of_text (text : SchemeText scheme) (nonempty : scheme ≠ [])
    (rest : List UInt8) : getScheme (scheme ++ colon :: rest) = some (scheme, rest) := by
  have all : ∀ c ∈ scheme, isSchemeByte c = true := fun c member => (text.bytes c member).1
  have stops : isSchemeByte colon = false := by decide
  rw [getScheme, List.takeWhile_append_of_pos all, List.dropWhile_append_of_pos all,
    List.takeWhile_cons_of_neg (by simp [stops]), List.dropWhile_cons_of_neg (by simp [stops]),
    List.append_nil]
  cases scheme with
  | nil => contradiction
  | cons first others =>
      have letter := text.letter first rfl
      simp [letter]

theorem getScheme_of_slash (rest : List UInt8) :
    getScheme (slash :: rest) = some ([], slash :: rest) := by
  have stops : isSchemeByte slash = false := by decide
  rw [getScheme, List.dropWhile_cons_of_neg (by simp [stops])]
  exact if_neg (by decide)

/-- What holds of the parts that `Parse` returns. -/
structure Parsed (r : Rules) (u : URL) : Prop where
  scheme : SchemeText u.scheme
  host : u.host = [] ∨ ∃ host, r.parseHost u.scheme host = some u.host
  rooted : u.scheme ≠ [] → u.path = [] ∨ u.path.head? = some slash

theorem unescape_path_slash (decoded : unescape .path (slash :: rest) = some path) :
    path.head? = some slash := by
  rw [unescape, Policy.decode_plain (by decide)] at decoded
  rcases Option.bind_eq_some_iff.mp decoded with ⟨b, isRead, mapped⟩
  rcases Option.map_eq_some_iff.mp mapped with ⟨others, _, rfl⟩
  cases isRead
  rfl

theorem parseAuthority_host (parsed : r.parseAuthority scheme rest = some host) :
    ∃ text, r.parseHost scheme text = some host := by
  rw [Rules.parseAuthority] at parsed
  split at parsed
  · exact ⟨rest, parsed⟩
  · rename_i userinfo text _
    rcases Option.bind_eq_some_iff.mp parsed with ⟨found, isHost, checked⟩
    split at checked
    · cases checked
      exact ⟨text, isHost⟩
    · contradiction

theorem parsed_of_parseRest {rawQuery : List UInt8} (text : SchemeText scheme)
    (parsed : r.parseRest scheme rawQuery rest = some u) : u.scheme = scheme ∧ Parsed r u := by
  rw [Rules.parseRest] at parsed
  split at parsed
  · cases parsed
    exact ⟨rfl, text, .inl rfl, fun _ => .inl rfl⟩
  · rename_i noOpaque
    have slashed : scheme ≠ [] → rest.head? = some slash := by
      intro nonempty
      by_contra other
      exact noOpaque ⟨other, nonempty⟩
    split at parsed
    · contradiction
    · split at parsed
      · rcases Option.bind_eq_some_iff.mp parsed with ⟨host, isHost, mapped⟩
        rcases Option.map_eq_some_iff.mp mapped with ⟨path, isPath, rfl⟩
        refine ⟨rfl, text, .inr (parseAuthority_host isHost), fun _ => ?_⟩
        cases behind : (rest.drop 2).dropWhile (· ≠ slash) with
        | nil =>
            rw [behind] at isPath
            cases isPath
            exact .inl rfl
        | cons c others =>
            have stopped := List.head?_dropWhile_not (· ≠ slash) (rest.drop 2)
            rw [behind] at stopped
            have isSlash : c = slash := by simpa using stopped
            rw [behind, isSlash] at isPath
            exact .inr (unescape_path_slash isPath)
      · rcases Option.map_eq_some_iff.mp parsed with ⟨path, isPath, rfl⟩
        refine ⟨rfl, text, .inl rfl, fun nonempty => .inr ?_⟩
        cases rest with
        | nil => exact absurd (slashed nonempty) (by simp)
        | cons c others =>
            cases slashed nonempty
            exact unescape_path_slash isPath

theorem parsed_of_parse (parsed : r.parse raw = some u) : Parsed r u := by
  rcases Option.bind_eq_some_iff.mp parsed with ⟨found, isReference, mapped⟩
  rcases Option.map_eq_some_iff.mp mapped with ⟨_, _, rfl⟩
  rw [Rules.parseReference] at isReference
  split at isReference
  · contradiction
  · split at isReference
    · cases isReference
      exact ⟨schemeText_nil, .inl rfl, fun nonempty => absurd rfl nonempty⟩
    · rcases Option.bind_eq_some_iff.mp isReference with ⟨⟨scheme, rest⟩, isScheme, parsedRest⟩
      exact (parsed_of_parseRest (schemeText_of_getScheme isScheme) parsedRest).2

/-- A text that starts with a scheme is a URL of that scheme. -/
theorem scheme_of_parse (text : SchemeText scheme) (nonempty : scheme ≠ [])
    (parsed : r.parse (scheme ++ colon :: rest) = some u) : u.scheme = scheme := by
  have noHash : hash ∉ scheme ++ [colon] := by
    rw [List.mem_append, List.mem_singleton, not_or]
    exact ⟨fun member => (schemeByte_plain hash (text.bytes hash member).1).2.1 rfl, by decide⟩
  have lowered : scheme.map toLower = scheme :=
    (List.map_congr_left fun c member => (text.bytes c member).2).trans (List.map_id _)
  rcases Option.bind_eq_some_iff.mp parsed with ⟨found, isReference, mapped⟩
  rcases Option.map_eq_some_iff.mp mapped with ⟨_, _, rfl⟩
  rw [List.append_cons, Cuts.before_append_of_not_mem noHash, List.append_assoc,
    List.singleton_append, Rules.parseReference] at isReference
  split at isReference
  · contradiction
  · split at isReference
    · rename_i isStar
      have starts := getScheme_of_text text nonempty (Cuts.before hash rest)
      rw [isStar] at starts
      have isEmpty : [] = scheme := congrArg (fun parts => (parts.map Prod.fst).getD []) starts
      exact absurd isEmpty.symm nonempty
    · rw [getScheme_of_text text nonempty, Option.bind_some, lowered] at isReference
      exact (parsed_of_parseRest text isReference).1

end Parts

/-! ## Parsing what `String` writes -/

section Written

variable {r : Rules} {scheme host path : List UInt8} {u : URL}

theorem forall_encode {escapes : UInt8 → Bool} {p : UInt8 → Prop} {s : List UInt8}
    (bytes : ∀ c ∈ s, ∀ b ∈ encodeByte escapes c, p b) : ∀ b ∈ encode escapes s, p b := by
  intro b member
  rcases List.mem_flatMap.mp member with ⟨c, isByte, inCode⟩
  exact bytes c isByte b inCode

theorem escape_host_plain (host : List UInt8) : ∀ b ∈ escape .host host,
    isControl b = false ∧ b ≠ hash ∧ b ≠ question ∧ b ≠ slash ∧ b ≠ atSign := by
  refine forall_encode fun c _ b member => ?_
  rcases escape_host_byte c b member with ⟨control, noHash, noQuestion, noSlash, noAt, _⟩
  exact ⟨control, noHash, noQuestion, noSlash, noAt⟩

theorem escape_path_plain (path : List UInt8) : ∀ b ∈ escape .path path,
    isControl b = false ∧ b ≠ hash ∧ b ≠ question :=
  forall_encode fun c _ => escape_path_byte c

/-- The scheme with its colon. -/
def schemeText (scheme : List UInt8) : List UInt8 := if scheme = [] then [] else scheme ++ [colon]

/-- The query with its question mark. -/
def queryText (query : List UInt8) : List UInt8 := if query = [] then [] else question :: query

/-- Everything before the query of a URL with a host. -/
def front (scheme host path : List UInt8) : List UInt8 :=
  schemeText scheme ++ slash :: slash :: (escape .host host ++ escape .path path)

theorem escape_eq_nil_iff {mode : Encoding} {s : List UInt8} : escape mode s = [] ↔ s = [] := by
  cases s with
  | nil => simp [escape]
  | cons c s =>
      rw [escape, encode_cons, encodeByte]
      split
      · simp
      · simp

theorem string_eq (hostful : u.host ≠ []) (rooted : u.path = [] ∨ u.path.head? = some slash) :
    u.string = front u.scheme u.host u.path ++ queryText u.rawQuery := by
  have notStar : u.path ≠ [star] := by
    intro isStar
    rw [isStar] at rooted
    exact absurd rooted (by decide)
  have escapedRoot : escape .path u.path = [] ∨ (escape .path u.path).head? = some slash := by
    rcases rooted with empty | isSlash
    · exact .inl (escape_eq_nil_iff.mpr empty)
    · cases path : u.path with
      | nil => exact .inl rfl
      | cons c others =>
          rw [path] at isSlash
          cases isSlash
          exact .inr rfl
  have noRoot : ¬(escape .path u.path ≠ [] ∧ (escape .path u.path).head? ≠ some slash ∧
      u.host ≠ []) := fun all => escapedRoot.elim all.1 all.2.1
  have slashes : (u.scheme ≠ [] ∨ u.host ≠ []) ∧ (u.host ≠ [] ∨ u.path ≠ []) :=
    ⟨.inr hostful, .inl hostful⟩
  simp only [URL.string, URL.escapedPath, if_neg notStar, if_neg noRoot, if_pos slashes]
  simp [front, schemeText, queryText]

/-- No byte before the query ends the URL or is refused. -/
theorem front_byte (text : SchemeText scheme) :
    ∀ b ∈ front scheme host path, isControl b = false ∧ b ≠ hash := by
  have inScheme : ∀ b ∈ schemeText scheme, isControl b = false ∧ b ≠ hash := by
    intro b member
    rw [schemeText] at member
    split at member
    · exact absurd member List.not_mem_nil
    · rcases List.mem_append.mp member with isByte | isColon
      · have plain := schemeByte_plain b (text.bytes b isByte).1
        exact ⟨plain.1, plain.2.1⟩
      · rw [List.mem_singleton.mp isColon]
        decide
  refine List.forall_mem_append.mpr ⟨inScheme, List.forall_mem_cons.mpr ⟨by decide,
    List.forall_mem_cons.mpr ⟨by decide, List.forall_mem_append.mpr ⟨?_, ?_⟩⟩⟩⟩
  · intro b member
    have plain := escape_host_plain host b member
    exact ⟨plain.1, plain.2.1⟩
  · intro b member
    have plain := escape_path_plain path b member
    exact ⟨plain.1, plain.2.1⟩

theorem parseAuthority_of_free {authority : List UInt8} (noUser : atSign ∉ authority) :
    r.parseAuthority scheme authority = r.parseHost scheme authority := by
  rw [Rules.parseAuthority, Cuts.cutLast_eq_none_iff.mpr noUser]

theorem unescape_escape_path (path : List UInt8) :
    unescape .path (escape .path path) = some path := by
  have decoded := Policy.decode_encode (fun c (_ : c ∈ path) => decodes_path c) []
  rw [List.append_nil] at decoded
  rw [unescape, escape, decoded, Policy.decode, Option.map_some, List.append_nil]

/-- The authority ends at the first slash. -/
theorem parseRest_authority {authority pathText : List UInt8} (rawQuery : List UInt8)
    (nonempty : authority ≠ []) (noSlash : slash ∉ authority)
    (rooted : pathText = [] ∨ pathText.head? = some slash) :
    r.parseRest scheme rawQuery (slash :: slash :: (authority ++ pathText)) =
      (r.parseAuthority scheme authority).bind fun host =>
        (unescape .path pathText).map fun path => ⟨scheme, host, path, rawQuery⟩ := by
  have passes : ∀ b ∈ authority, decide (b ≠ slash) = true := by
    intro b member
    refine decide_eq_true ?_
    rintro rfl
    exact noSlash member
  have stops : pathText.takeWhile (· ≠ slash) = [] ∧
      pathText.dropWhile (· ≠ slash) = pathText := by
    cases pathText with
    | nil => exact ⟨rfl, rfl⟩
    | cons c others =>
        have isSlash : c = slash := by simpa using rooted
        subst isSlash
        exact ⟨rfl, rfl⟩
  have single : ¬[slash, slash, slash] <+: slash :: slash :: (authority ++ pathText) := by
    cases authority with
    | nil => contradiction
    | cons b authority =>
        have other : b ≠ slash := of_decide_eq_true (passes b List.mem_cons_self)
        simp [Ne.symm other]
  rw [Rules.parseRest, if_neg (by simp), if_neg (by simp), if_pos ⟨.inr single, by simp⟩]
  simp only [List.drop_succ_cons, List.drop_zero]
  rw [List.takeWhile_append_of_pos passes, List.dropWhile_append_of_pos passes, stops.1, stops.2,
    List.append_nil]

/-- The host and the path are read where they were written. -/
theorem parseRest_escape (rawQuery : List UInt8) (hostful : host ≠ [])
    (rooted : path = [] ∨ path.head? = some slash) :
    r.parseRest scheme rawQuery (slash :: slash :: (escape .host host ++ escape .path path)) =
      (r.parseHost scheme (escape .host host)).map fun host => ⟨scheme, host, path, rawQuery⟩ := by
  have noSlash : slash ∉ escape .host host := fun member =>
    (escape_host_plain host slash member).2.2.2.1 rfl
  have rootedText : escape .path path = [] ∨ (escape .path path).head? = some slash := by
    cases path with
    | nil => exact .inl rfl
    | cons c others =>
        have isSlash : c = slash := by simpa using rooted
        subst isSlash
        exact .inr rfl
  have noUser : atSign ∉ escape .host host := fun member =>
    (escape_host_plain host atSign member).2.2.2.2 rfl
  rw [parseRest_authority rawQuery (mt escape_eq_nil_iff.mp hostful) noSlash rootedText,
    parseAuthority_of_free noUser, unescape_escape_path]
  cases r.parseHost scheme (escape .host host) with
  | none => rfl
  | some host => rfl

theorem getScheme_front (text : SchemeText scheme) (query : List UInt8) :
    getScheme (front scheme host path ++ query) =
      some (scheme, slash :: slash :: (escape .host host ++ escape .path path) ++ query) := by
  rw [front, schemeText]
  split
  · rename_i empty
    rw [empty]
    exact getScheme_of_slash _
  · rename_i nonempty
    rw [List.append_assoc, List.append_assoc]
    exact getScheme_of_text text nonempty _

/-- The text before the fragment is read back part by part. -/
theorem parseReference_front (text : SchemeText scheme) (hostful : host ≠ [])
    (rooted : path = [] ∨ path.head? = some slash) {query rawQuery : List UInt8}
    (isQuery : query = [] ∧ rawQuery = [] ∨ query = question :: rawQuery) :
    r.parseReference (front scheme host path ++ query) =
      if rawQuery.any isControl then none
      else (r.parseHost scheme (escape .host host)).map fun host =>
        ⟨scheme, host, path, rawQuery⟩ := by
  have frontPlain : (front scheme host path).any isControl = false := by
    rw [List.any_eq_false]
    exact fun b member => Bool.eq_false_iff.mp (front_byte text b member).1
  have queryControl : query.any isControl = rawQuery.any isControl := by
    rcases isQuery with ⟨rfl, rfl⟩ | rfl
    · rfl
    · rw [List.any_cons]
      rfl
  have notStar : front scheme host path ++ query ≠ [star] := by
    intro isStar
    have found := @getScheme_front scheme host path text query
    rw [isStar] at found
    cases found
  have noQuestion : question ∉ slash :: slash :: (escape .host host ++ escape .path path) := by
    intro member
    simp only [List.mem_cons, List.mem_append] at member
    rcases member with first | second | inHost | inPath
    · exact absurd first (by decide)
    · exact absurd second (by decide)
    · exact (escape_host_plain host _ inHost).2.2.1 rfl
    · exact (escape_path_plain path _ inPath).2.2 rfl
  have lowered : scheme.map toLower = scheme :=
    (List.map_congr_left fun c member => (text.bytes c member).2).trans (List.map_id _)
  have cuts : Cuts.before question query = [] ∧ Cuts.after question query = rawQuery := by
    rcases isQuery with ⟨rfl, rfl⟩ | rfl
    · exact ⟨rfl, rfl⟩
    · exact ⟨Cuts.before_append List.not_mem_nil rawQuery,
        Cuts.after_append List.not_mem_nil rawQuery⟩
  rw [Rules.parseReference, List.any_append, frontPlain, Bool.false_or, queryControl,
    if_neg notStar, getScheme_front text, Option.bind_some, lowered,
    Cuts.before_append_of_not_mem noQuestion, Cuts.after_append_of_not_mem noQuestion, cuts.1,
    cuts.2, List.append_nil, parseRest_escape rawQuery hostful rooted]

theorem parse_string (text : SchemeText u.scheme) (hostful : u.host ≠ [])
    (rooted : u.path = [] ∨ u.path.head? = some slash) :
    r.parse u.string =
      if (Cuts.before hash u.rawQuery).any isControl then none
      else (r.parseHost u.scheme (escape .host u.host)).bind fun host =>
        (unescape .fragment (Cuts.after hash u.rawQuery)).map fun _ =>
          ⟨u.scheme, host, u.path, Cuts.before hash u.rawQuery⟩ := by
  have noHash : hash ∉ front u.scheme u.host u.path := fun member =>
    (front_byte text hash member).2 rfl
  have queryParts : (Cuts.before hash (queryText u.rawQuery) = [] ∧
        Cuts.before hash u.rawQuery = [] ∨
      Cuts.before hash (queryText u.rawQuery) = question :: Cuts.before hash u.rawQuery) ∧
      Cuts.after hash (queryText u.rawQuery) = Cuts.after hash u.rawQuery := by
    rw [queryText]
    split
    · rename_i empty
      rw [empty]
      exact ⟨.inl ⟨rfl, rfl⟩, rfl⟩
    · have free : hash ∉ [question] := by decide
      exact ⟨.inr (Cuts.before_append_of_not_mem free _), Cuts.after_append_of_not_mem free _⟩
  rw [Rules.parse, string_eq hostful rooted, Cuts.before_append_of_not_mem noHash,
    Cuts.after_append_of_not_mem noHash, queryParts.2,
    parseReference_front text hostful rooted queryParts.1]
  split
  · rfl
  · rw [Option.bind_map]
    rfl

/-- A text of plain parts is read part by part. -/
theorem parse_plain {authority pathText rawQuery : List UInt8} (text : SchemeText scheme)
    (named : scheme ≠ []) (nonempty : authority ≠ [])
    (plain : ∀ b ∈ authority ++ pathText, isControl b = false ∧ b ≠ hash ∧ b ≠ question)
    (free : slash ∉ authority ∧ atSign ∉ authority)
    (rooted : pathText = [] ∨ pathText.head? = some slash)
    (plainQuery : ∀ b ∈ rawQuery, isControl b = false ∧ b ≠ hash) :
    r.parse (scheme ++ colon :: slash :: slash :: (authority ++ pathText) ++ queryText rawQuery) =
      (r.parseHost scheme authority).bind fun host =>
        (unescape .path pathText).map fun path => ⟨scheme, host, path, rawQuery⟩ := by
  have inScheme : ∀ b ∈ scheme, isControl b = false ∧ b ≠ hash := fun b member =>
    have schemePlain := schemeByte_plain b (text.bytes b member).1
    ⟨schemePlain.1, schemePlain.2.1⟩
  have inQuery : ∀ b ∈ queryText rawQuery, isControl b = false ∧ b ≠ hash := by
    rw [queryText]
    split
    · exact fun b member => absurd member List.not_mem_nil
    · exact List.forall_mem_cons.mpr ⟨by decide, plainQuery⟩
  have all : ∀ b ∈ scheme ++ colon :: slash :: slash :: (authority ++ pathText) ++
      queryText rawQuery, isControl b = false ∧ b ≠ hash := by
    refine List.forall_mem_append.mpr ⟨List.forall_mem_append.mpr ⟨inScheme,
      List.forall_mem_cons.mpr ⟨by decide, List.forall_mem_cons.mpr ⟨by decide,
        List.forall_mem_cons.mpr ⟨by decide, fun b member => ?_⟩⟩⟩⟩, inQuery⟩
    exact ⟨(plain b member).1, (plain b member).2.1⟩
  have noHash : hash ∉ scheme ++ colon :: slash :: slash :: (authority ++ pathText) ++
      queryText rawQuery := fun member => (all hash member).2 rfl
  have printable : (scheme ++ colon :: slash :: slash :: (authority ++ pathText) ++
      queryText rawQuery).any isControl = false := by
    rw [List.any_eq_false]
    exact fun b member => Bool.eq_false_iff.mp (all b member).1
  have found : getScheme (scheme ++ colon :: slash :: slash :: (authority ++ pathText) ++
      queryText rawQuery) = some (scheme, slash :: slash :: (authority ++ pathText) ++
        queryText rawQuery) := by
    rw [List.append_assoc, List.cons_append]
    exact getScheme_of_text text named _
  have notStar : scheme ++ colon :: slash :: slash :: (authority ++ pathText) ++
      queryText rawQuery ≠ [star] := by
    intro isStar
    rw [isStar] at found
    cases found
  have noQuestion : question ∉ slash :: slash :: (authority ++ pathText) := by
    rw [List.mem_cons, List.mem_cons, not_or, not_or]
    exact ⟨by decide, by decide, fun member => (plain question member).2.2 rfl⟩
  have lowered : scheme.map toLower = scheme :=
    (List.map_congr_left fun c member => (text.bytes c member).2).trans (List.map_id _)
  have cuts : Cuts.before question (queryText rawQuery) = [] ∧
      Cuts.after question (queryText rawQuery) = rawQuery := by
    rw [queryText]
    split
    · rename_i empty
      rw [empty]
      exact ⟨rfl, rfl⟩
    · exact ⟨Cuts.before_append List.not_mem_nil rawQuery,
        Cuts.after_append List.not_mem_nil rawQuery⟩
  rw [Rules.parse, Cuts.before_of_not_mem noHash, Cuts.after_of_not_mem noHash,
    Rules.parseReference, printable, if_neg Bool.false_ne_true, if_neg notStar, found,
    Option.bind_some, lowered, Cuts.before_append_of_not_mem noQuestion,
    Cuts.after_append_of_not_mem noQuestion, cuts.1, cuts.2, List.append_nil,
    parseRest_authority rawQuery nonempty free.1 rooted, parseAuthority_of_free free.2]
  exact Option.bind_fun_some _

end Written

/-! ## Hosts written with a port -/

section HostPort

variable {r : Rules} {scheme hostname port : List UInt8}

theorem escape_host_port (digits : port.all isDigit = true) :
    escape .host (hostname ++ colon :: port) = escape .host hostname ++ colon :: port := by
  rw [escape, encode_append, escape]
  refine congrArg (_ ++ ·) (encode_of_plain ?_)
  refine List.forall_mem_cons.mpr ⟨by decide, fun c member => ?_⟩
  exact (decodes_port c (.inl (List.all_eq_true.mp digits c member))).2

/-- A byte that hosts show as it is. -/
theorem mem_escape_host {c : UInt8} (shown : shouldEscape .host c = false)
    (kept : ∀ d, ∀ b ∈ encodeByte (shouldEscape .host) d, b = c → d = c) :
    c ∈ escape .host hostname ↔ c ∈ hostname := by
  rw [escape, encode, List.mem_flatMap]
  constructor
  · rintro ⟨d, isByte, inCode⟩
    exact kept d c inCode rfl ▸ isByte
  · intro member
    exact ⟨c, member, by simp [encodeByte, shown]⟩

theorem colon_mem_escape : colon ∈ escape .host hostname ↔ colon ∈ hostname :=
  mem_escape_host (by decide) fun d b member => (escape_host_byte d b member).2.2.2.2.2.1

theorem openBracket_mem_escape : openBracket ∈ escape .host hostname ↔ openBracket ∈ hostname :=
  mem_escape_host (by decide) fun d b member => (escape_host_byte d b member).2.2.2.2.2.2

theorem head_escape_host (head : hostname.head? ≠ some openBracket) :
    (escape .host hostname).head? ≠ some openBracket := by
  cases hostname with
  | nil => exact fun isOpen => by contradiction
  | cons c hostname =>
      intro isOpen
      have first : openBracket ∈ encodeByte (shouldEscape .host) c := by
        rw [escape, encode_cons, List.head?_append] at isOpen
        refine List.mem_of_head? ?_
        cases code : encodeByte (shouldEscape .host) c with
        | nil =>
            rw [encodeByte] at code
            split at code
            · contradiction
            · contradiction
        | cons b others =>
            rw [code] at isOpen
            exact isOpen
      exact head (congrArg some ((escape_host_byte c _ first).2.2.2.2.2.2 rfl))

/-- The port is found behind the last colon, which is the only one where colons are strict. -/
theorem port_digits_iff (digits : port.all isDigit = true) :
    (if r.strictColons scheme then Cuts.after colon (escape .host hostname ++ colon :: port)
      else Cuts.afterLast colon (escape .host hostname ++ colon :: port)).all isDigit = true ↔
      (r.strictColons scheme = true → colon ∉ hostname) := by
  have free : colon ∉ port := fun member =>
    absurd (List.all_eq_true.mp digits colon member) (by decide)
  split
  · rename_i strict
    by_cases member : colon ∈ escape .host hostname
    · have within := (Cuts.eq_before_append member).1
      have afterFirst : Cuts.after colon (escape .host hostname ++ colon :: port) =
          Cuts.after colon (escape .host hostname) ++ colon :: port := by
        conv_lhs => rw [within, List.append_assoc, List.cons_append]
        exact Cuts.after_append (Cuts.eq_before_append member).2 _
      rw [afterFirst, List.all_append, List.all_cons]
      refine iff_of_false ?_ fun only => only strict (colon_mem_escape.mp member)
      rw [show isDigit colon = false from by decide, Bool.false_and, Bool.and_false]
      exact Bool.false_ne_true
    · rw [Cuts.after_append member]
      exact iff_of_true digits fun _ => mt colon_mem_escape.mpr member
  · rename_i lenient
    rw [Cuts.afterLast_append _ free]
    exact iff_of_true digits fun strict => absurd strict lenient

theorem unescape_escape_host (bytes : ∀ b ∈ hostname, HostByte b)
    (digits : port.all isDigit = true) :
    unescape .host (escape .host hostname ++ colon :: port) =
      if space ∈ hostname then none else some (hostname ++ colon :: port) := by
  have valid : validOptionalPort (colon :: port) = true := by
    rw [validOptionalPort, digits]
    rfl
  split
  · rename_i member
    exact Policy.decode_encode_refused (by decide) (by decide)
      (fun b isByte => decodes_host b (bytes b isByte)) member _
  · rename_i free
    have decodes : ∀ c ∈ hostname, (policy .host).Decodes (shouldEscape .host) c := fun c isByte =>
      (decodes_host c (bytes c isByte)).resolve_right fun isSpace => free (isSpace ▸ isByte)
    have rest := unescape_port valid
    rw [unescape] at rest
    rw [unescape, escape, Policy.decode_encode decodes, rest]
    rfl

theorem parseHost_escape (bytes : ∀ b ∈ hostname, HostByte b)
    (head : hostname.head? ≠ some openBracket) (digits : port.all isDigit = true) :
    r.parseHost scheme (escape .host (hostname ++ colon :: port)) =
      if openBracket ∉ hostname ∧ space ∉ hostname ∧
          (r.strictColons scheme = true → colon ∉ hostname) then some (hostname ++ colon :: port)
      else none := by
  have freePort : openBracket ∉ colon :: port := by
    rw [List.mem_cons, not_or]
    exact ⟨by decide, fun member =>
      absurd (List.all_eq_true.mp digits openBracket member) (by decide)⟩
  rw [escape_host_port digits, Rules.parseHost]
  by_cases bracket : openBracket ∈ hostname
  · have inTail : openBracket ∈ (escape .host hostname ++ colon :: port).tail := by
      have inCode := openBracket_mem_escape.mpr bracket
      have other := head_escape_host head
      cases code : escape .host hostname with
      | nil => exact absurd (code ▸ inCode) List.not_mem_nil
      | cons b others =>
          rw [code] at inCode other
          rcases List.mem_cons.mp inCode with same | inOthers
          · exact absurd (congrArg some same.symm) other
          · exact List.mem_append_left _ inOthers
    rw [if_pos inTail, if_neg fun all => all.1 bracket]
  · have free : openBracket ∉ escape .host hostname ++ colon :: port := by
      rw [List.mem_append, not_or]
      exact ⟨mt openBracket_mem_escape.mp bracket, freePort⟩
    rw [if_neg fun member => free (List.mem_of_mem_tail member),
      if_neg fun isOpen => free (List.mem_of_head? isOpen)]
    dsimp only
    by_cases strict : r.strictColons scheme = true → colon ∉ hostname
    · rw [if_pos ((port_digits_iff digits).mpr strict), unescape_escape_host bytes digits]
      by_cases spaced : space ∈ hostname
      · rw [if_pos spaced, if_neg fun all => all.2.1 spaced]
      · rw [if_neg spaced, if_pos ⟨bracket, spaced, strict⟩]
    · rw [if_neg (mt (port_digits_iff digits).mp strict), if_neg fun all => strict all.2.2]

theorem splitHostPort_of_port (free : openBracket ∉ hostname) (digits : port.all isDigit = true) :
    splitHostPort (hostname ++ colon :: port) = (hostname, port) := by
  have noBracket : ¬(hostname.head? = some openBracket ∧
      hostname.getLast? = some closeBracket) := fun both => free (List.mem_of_head? both.1)
  rw [splitHostPort, cutPort_of_port digits]
  exact congrArg (·, port) (if_neg noBracket)

end HostPort

end Kiyomi.Go.Url
