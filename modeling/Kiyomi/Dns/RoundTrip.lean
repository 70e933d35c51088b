import Kiyomi.Dns.BootstrapQuery
import Kiyomi.Foundation.Occurrences

namespace Kiyomi.Dns

open Go Go.Url

/-! # Reading back what `formatSpec` writes -/

variable {r : Rules} {u : URL} {s : Spec} {raw : List UInt8}

/-! ## Ports -/

theorem digit_toUInt8 {c : Char} (digit : c.isDigit = true) :
    c.toUInt8.toNat = c.toNat ∧ isDigit c.toUInt8 = true := by
  have bounds := Char.isDigit_iff_toNat.mp digit
  have low : 48 ≤ c.toNat := bounds.1
  have high : c.toNat ≤ 57 := bounds.2
  have same : c.toUInt8.toNat = c.toNat := by
    rw [Char.toUInt8, UInt32.toNat_toUInt8]
    exact Nat.mod_eq_of_lt (show c.toNat < 256 by omega)
  refine ⟨same, ?_⟩
  simp only [isDigit, Bool.and_eq_true, decide_eq_true_eq, UInt8.le_iff_toNat_le, same]
  exact ⟨low, high⟩

theorem isDigit_decimal (n : Nat) : (decimal n).all isDigit = true := by
  rw [decimal, List.all_map, List.all_eq_true]
  exact fun c member => (digit_toUInt8 (List.all_eq_true.mp (isDigit_toDigits n) c member)).2

theorem decimal_ne_nil (n : Nat) : decimal n ≠ [] := by
  rw [decimal, ne_eq, List.map_eq_nil_iff]
  exact Nat.toDigits_ne_nil

theorem portValue_decimal (n : Nat) : portValue (decimal n) = n := by
  rw [portValue, decimal, List.foldl_map]
  refine Eq.trans (List.foldl_ext _ _ 0 fun value c member => ?_) (digitsValue_toDigits n)
  rw [(digit_toUInt8 (List.all_eq_true.mp (isDigit_toDigits n) c member)).1]
  rfl

theorem scanPort_decimal {n : Nat} (small : n < 0x8000000000000000) :
    scanPort (decimal n) = some n := by
  rw [scanPort, portValue_decimal]
  exact if_pos small

/-- A port of a spec: not zero, and in the range of `int`. -/
def IsPort (port : Nat) : Prop := port ≠ 0 ∧ port < 0x8000000000000000

instance (port : Nat) : Decidable (IsPort port) := inferInstanceAs (Decidable (_ ∧ _))

theorem isPort_of_default {scheme : List UInt8} {port : Nat}
    (isDefault : defaultPort scheme = some port) : IsPort port := by
  have each : ∀ port ∈ [defaultDNSPort, defaultDoTPort, defaultDoHPort], IsPort port := by decide
  refine each port ?_
  rw [defaultPort] at isDefault
  split at isDefault
  · cases isDefault
    simp
  · split at isDefault
    · cases isDefault
      simp
    · split at isDefault
      · cases isDefault
        simp
      · contradiction

/-- What `parseURL` takes from the parts of a URL. -/
theorem specOf_eq (parsed : specOf r u = .ok s) :
    s = ⟨u.scheme, u.hostname, s.port, specPath u, bootstrapOf r u⟩ ∧ IsPort s.port := by
  rw [specOf] at parsed
  split at parsed
  · contradiction
  · rename_i port isPort
    have small : port < 0x8000000000000000 := by
      split at isPort
      · cases isPort
        decide
      · rw [scanPort] at isPort
        split at isPort
        · rename_i small
          cases isPort
          exact small
        · contradiction
    dsimp only at parsed
    split at parsed
    · split at parsed
      · rename_i port isDefault
        cases parsed
        exact ⟨rfl, isPort_of_default isDefault⟩
      · contradiction
    · rename_i nonzero
      cases parsed
      exact ⟨rfl, nonzero, small⟩

theorem specOf_of_port {port : Nat} (written : u.port = decimal port) (isPort : IsPort port) :
    specOf r u = .ok ⟨u.scheme, u.hostname, port, specPath u, bootstrapOf r u⟩ := by
  rw [specOf, written, if_neg (decimal_ne_nil port), scanPort_decimal isPort.2]
  exact if_neg isPort.1

/-! ## Paths -/

theorem trimSlash_concat (path : List UInt8) : trimSlash (path ++ [slash]) = path := by
  rw [trimSlash, if_pos List.getLast?_concat, List.dropLast_concat]

theorem trimSlash_of_other {path : List UInt8} (other : path.getLast? ≠ some slash) :
    trimSlash path = path := if_neg other

theorem trimSlash_cases (path : List UInt8) :
    trimSlash path = path ∧ path.getLast? ≠ some slash ∨
      path = trimSlash path ++ [slash] := by
  by_cases isLast : path.getLast? = some slash
  · rcases List.eq_nil_or_concat path with rfl | ⟨start, last, rfl⟩
    · contradiction
    · rw [List.concat_eq_append, List.getLast?_concat, Option.some.injEq] at isLast
      subst isLast
      rw [List.concat_eq_append, trimSlash_concat]
      exact .inr rfl
  · exact .inl ⟨trimSlash_of_other isLast, isLast⟩

/-- The path that a URL of the spec is written with. -/
def writtenPath (u : URL) : List UInt8 := if u.scheme = https then specPath u else []

theorem specPath_ne_nil (isHttps : u.scheme = https) : specPath u ≠ [] := by
  rw [specPath]
  split
  · decide
  · rename_i other
    exact fun empty => other ⟨empty, isHttps⟩

theorem writtenPath_rooted (parsed : Parsed r u) :
    writtenPath u = [] ∨ (writtenPath u).head? = some slash := by
  rw [writtenPath]
  split
  · rename_i isHttps
    refine .inr ?_
    rw [specPath]
    split
    · decide
    · rename_i other
      have nonempty : trimSlash u.path ≠ [] := fun empty => other ⟨empty, isHttps⟩
      have rooted := parsed.rooted (by rw [isHttps]; decide)
      rcases trimSlash_cases u.path with ⟨whole, _⟩ | longer
      · rw [whole] at nonempty ⊢
        exact rooted.resolve_left nonempty
      · cases trimmed : trimSlash u.path with
        | nil => exact absurd trimmed nonempty
        | cons c others =>
            rw [trimmed] at longer
            rw [longer] at rooted
            exact rooted.resolve_left (List.cons_ne_nil _ _)
  · exact .inl rfl

/-- The path is one that is written, and is not cut again. -/
def PathKept (u : URL) : Prop :=
  if u.scheme = https then ¬[slash, slash] <:+ u.path else u.path = [] ∨ u.path = [slash]

theorem specPath_https {u : URL} (isHttps : u.scheme = https) :
    specPath u = if trimSlash u.path = [] then defaultDoHPath else trimSlash u.path := by
  rw [specPath]
  simp [isHttps]

theorem trimSlash_eq_nil_iff {path : List UInt8} :
    trimSlash path = [] ↔ path = [] ∨ path = [slash] := by
  rcases trimSlash_cases path with ⟨whole, other⟩ | longer
  · rw [whole]
    refine ⟨.inl, fun either => either.resolve_right ?_⟩
    rintro rfl
    exact other rfl
  · constructor
    · intro empty
      rw [empty] at longer
      exact .inr longer
    · rintro (rfl | rfl)
      · rfl
      · rfl

theorem double_slash_iff {path : List UInt8} :
    [slash, slash] <:+ path ↔ (trimSlash path).getLast? = some slash := by
  constructor
  · rintro ⟨start, rfl⟩
    rw [show start ++ [slash, slash] = start ++ [slash] ++ [slash] by simp, trimSlash_concat,
      List.getLast?_concat]
  · intro isLast
    rcases trimSlash_cases path with ⟨whole, other⟩ | longer
    · exact absurd (whole ▸ isLast) other
    · rcases trimSlash_cases (trimSlash path) with ⟨_, other⟩ | again
      · exact absurd isLast other
      · refine ⟨trimSlash (trimSlash path), ?_⟩
        conv_rhs => rw [longer, again]
        simp

/-- The path that is read back is the one of the spec exactly where it is kept. -/
theorem specPath_written_iff {host rawQuery : List UInt8} :
    specPath ⟨u.scheme, host, writtenPath u, rawQuery⟩ = specPath u ↔ PathKept u := by
  rw [PathKept]
  split
  · rename_i isHttps
    rw [double_slash_iff, writtenPath, if_pos isHttps,
      @specPath_https ⟨u.scheme, host, specPath u, rawQuery⟩ isHttps]
    have nonempty := specPath_ne_nil isHttps
    dsimp only
    constructor
    · intro kept isLast
      have longer : specPath u = trimSlash (specPath u) ++ [slash] := by
        have shape : specPath u = trimSlash u.path := by
          rw [specPath_https isHttps, if_neg fun empty => by rw [empty] at isLast; contradiction]
        rw [← shape] at isLast
        exact (trimSlash_cases (specPath u)).resolve_left fun whole => whole.2 isLast
      split at kept
      · rename_i empty
        rw [empty] at longer
        rw [longer] at kept
        exact absurd kept (by decide)
      · rw [kept] at longer
        exact absurd longer (by simp)
    · intro other
      have whole : trimSlash (specPath u) = specPath u := by
        refine trimSlash_of_other ?_
        rw [specPath_https isHttps]
        split
        · decide
        · exact other
      rw [whole, if_neg nonempty]
  · rename_i notHttps
    rw [writtenPath, if_neg notHttps, specPath, specPath, if_neg fun both => notHttps both.2,
      if_neg fun both => notHttps both.2, ← trimSlash_eq_nil_iff]
    exact eq_comm

/-! ## The written URL -/

theorem specURL_eq (parsed : specOf r u = .ok s) : specURL s =
    ⟨u.scheme, u.hostname ++ colon :: decimal s.port, writtenPath u,
      bootstrapQuery (bootstrapOf r u)⟩ := by
  rcases specOf_eq parsed with ⟨isSpec, nonzero, _⟩
  have path : (if s.path ≠ [] ∧ s.scheme = https then s.path else []) = writtenPath u := by
    rw [isSpec, writtenPath]
    dsimp only
    by_cases isHttps : u.scheme = https
    · rw [if_pos ⟨specPath_ne_nil isHttps, isHttps⟩, if_pos isHttps]
    · rw [if_neg fun both => isHttps both.2, if_neg isHttps]
  rw [specURL, if_pos nonzero, path, isSpec]
  rfl

/-- The name of the host is read back. -/
def HostKept (r : Rules) (u : URL) : Prop :=
  openBracket ∉ u.hostname ∧ space ∉ u.hostname ∧
    (r.strictColons u.scheme = true → colon ∉ u.hostname)

instance (r : Rules) (u : URL) : Decidable (HostKept r u) := inferInstanceAs (Decidable (_ ∧ _))

theorem hostname_of_parsed (parsed : Parsed r u) :
    (∀ b ∈ u.hostname, HostByte b) ∧ u.hostname.head? ≠ some openBracket := by
  rcases parsed.host with empty | ⟨host, isHost⟩
  · have noHost : u.hostname = [] := by
      rw [URL.hostname, empty]
      rfl
    rw [noHost]
    exact ⟨fun b member => absurd member List.not_mem_nil, by decide⟩
  · exact ⟨hostByte_of_hostname isHost, head_of_hostname isHost⟩

/-- The URL that is parsed again. -/
def rereadURL (r : Rules) (u : URL) (port : Nat) : URL where
  scheme := u.scheme
  host := u.hostname ++ colon :: decimal port
  path := writtenPath u
  rawQuery := Cuts.before hash (bootstrapQuery (bootstrapOf r u))

theorem parse_formatSpec (parsed : Parsed r u) (isSpec : specOf r u = .ok s) :
    r.parse (formatSpec s) =
      if (Cuts.before hash (bootstrapQuery (bootstrapOf r u))).any isControl = false ∧
          HostKept r u ∧
          (unescape .fragment (Cuts.after hash (bootstrapQuery (bootstrapOf r u)))).isSome then
        some (rereadURL r u s.port)
      else none := by
  rcases hostname_of_parsed parsed with ⟨bytes, head⟩
  have hostful : u.hostname ++ colon :: decimal s.port ≠ [] := by simp
  have written := @parse_string r ⟨u.scheme, _, writtenPath u, bootstrapQuery (bootstrapOf r u)⟩
    parsed.scheme hostful (writtenPath_rooted parsed)
  dsimp only at written
  have isHost : r.parseHost u.scheme (escape .host (u.hostname ++ colon :: decimal s.port)) =
      if HostKept r u then some (u.hostname ++ colon :: decimal s.port) else none :=
    parseHost_escape bytes head (isDigit_decimal s.port)
  rw [formatSpec, specURL_eq isSpec, written, isHost]
  by_cases printable : (Cuts.before hash (bootstrapQuery (bootstrapOf r u))).any isControl = true
  · rw [if_pos printable, if_neg fun all => by rw [all.1] at printable; contradiction]
  · rw [if_neg printable]
    by_cases kept : HostKept r u
    · rw [if_pos kept, Option.bind_some]
      cases fragment : unescape .fragment
          (Cuts.after hash (bootstrapQuery (bootstrapOf r u))) with
      | none =>
          rw [if_neg fun all => Bool.false_ne_true all.2.2]
          rfl
      | some _ =>
          rw [if_pos ⟨Bool.eq_false_iff.mpr printable, kept, rfl⟩]
          rfl
    · rw [if_neg kept, if_neg fun all => kept all.2.1]
      rfl

theorem specOf_rereadURL {port : Nat} (kept : HostKept r u) (isPort : IsPort port) :
    specOf r (rereadURL r u port) =
      .ok ⟨u.scheme, u.hostname, port, specPath (rereadURL r u port),
        queryAddresses r (Cuts.before hash (bootstrapQuery (bootstrapOf r u)))⟩ := by
  have parts : splitHostPort (rereadURL r u port).host = (u.hostname, decimal port) :=
    splitHostPort_of_port kept.1 (isDigit_decimal port)
  have isHostname : (rereadURL r u port).hostname = u.hostname := by rw [URL.hostname, parts]
  have written : (rereadURL r u port).port = decimal port := by rw [URL.port, parts]
  rw [specOf_of_port written isPort, isHostname, bootstrapOf_eq]
  rfl

/-- The URL has a scheme, or some address with `://` stands in for one. -/
def Named (r : Rules) (u : URL) : Prop :=
  u.scheme ≠ [] ∨ ∃ address ∈ bootstrapOf r u, separator <:+: address

theorem not_separator {text : List UInt8} (free : slash ∉ text) :
    ¬separator <:+: slash :: slash :: text := by
  have shape : separator = [colon, slash, slash] := by decide
  rw [shape, List.infix_cons_iff, List.infix_cons_iff]
  rintro (first | second | inText)
  · exact absurd (List.cons_prefix_cons.mp first).1 (by decide)
  · exact absurd (List.cons_prefix_cons.mp second).1 (by decide)
  · exact free (inText.subset (by simp))

theorem separator_bootstrapQuery {entries : List (List UInt8)}
    (occurs : separator <:+: bootstrapQuery entries) :
    ∃ address ∈ entries, separator <:+: address := by
  have nonempty : separator ≠ [] := by decide
  rw [bootstrapQuery] at occurs
  split at occurs
  · rw [Occurrences.infix_append_cons_iff (by decide)] at occurs
    rcases occurs with inKey | inJoin
    · exact absurd inKey (by decide)
    · exact Occurrences.exists_of_infix_intercalate (by decide) nonempty inJoin
  · exact absurd (List.infix_nil.mp occurs) nonempty

theorem separator_formatSpec_iff (isSpec : specOf r u = .ok s) (parsed : Parsed r u) :
    separator <:+: formatSpec s ↔ Named r u := by
  have hostful : u.hostname ++ colon :: decimal s.port ≠ [] := by simp
  have written := @string_eq ⟨u.scheme, _, writtenPath u, bootstrapQuery (bootstrapOf r u)⟩
    hostful (writtenPath_rooted parsed)
  dsimp only at written
  rw [formatSpec, specURL_eq isSpec, written]
  constructor
  · intro occurs
    by_cases empty : u.scheme = []
    · refine .inr ?_
      have noPath : writtenPath u = [] := by
        rw [writtenPath, empty]
        exact if_neg (by decide)
      have notFront : ¬separator <:+:
          front u.scheme (u.hostname ++ colon :: decimal s.port) (writtenPath u) := by
        rw [front, schemeText, if_pos empty, noPath]
        refine not_separator fun member => ?_
        rcases List.mem_append.mp member with inHost | inPath
        · exact (escape_host_plain _ _ inHost).2.2.2.1 rfl
        · exact absurd inPath List.not_mem_nil
      rw [queryText] at occurs
      split at occurs
      · rw [List.append_nil] at occurs
        exact absurd occurs notFront
      · rw [Occurrences.infix_append_cons_iff (by decide)] at occurs
        exact separator_bootstrapQuery (occurs.resolve_left notFront)
    · exact .inl empty
  · rintro (nonempty | ⟨address, member, inside⟩)
    · refine List.IsInfix.trans ?_ (List.prefix_append _ _).isInfix
      rw [front, schemeText, if_neg nonempty]
      exact ⟨u.scheme, escape .host _ ++ escape .path _, by simp [separator]; rfl⟩
    · have nonempty := List.ne_nil_of_mem member
      refine List.IsInfix.trans ?_ (List.suffix_append _ _).isInfix
      rw [queryText, bootstrapQuery, if_pos nonempty, if_neg (by simp)]
      have joined : address <:+: [comma].intercalate (bootstrapOf r u) :=
        Cuts.infix_intercalate member
      refine (inside.trans joined).trans ?_
      exact ⟨question :: (bootstrapKey ++ [equalSign]), [], by simp⟩

/-! ## The round trip -/

/-- No address has a byte that ends or splits a query, stands for another, or is refused. -/
def BootstrapKept (r : Rules) (u : URL) : Prop :=
  ∀ address ∈ bootstrapOf r u, ∀ b ∈ address, Plain b

theorem fragment_of_plain (kept : BootstrapKept r u) :
    Cuts.before hash (bootstrapQuery (bootstrapOf r u)) = bootstrapQuery (bootstrapOf r u) ∧
      Cuts.after hash (bootstrapQuery (bootstrapOf r u)) = [] ∧
      (bootstrapQuery (bootstrapOf r u)).any isControl = false := by
  have plain := plain_bootstrapQuery kept
  have noHash : hash ∉ bootstrapQuery (bootstrapOf r u) := fun member => (plain hash member).1 rfl
  refine ⟨Cuts.before_of_not_mem noHash, Cuts.after_of_not_mem noHash, ?_⟩
  rw [List.any_eq_false]
  exact fun b member => Bool.eq_false_iff.mp (plain b member).2.2.2.2.2

/-- The spec that is read back is the same exactly where every part is kept. -/
theorem specOf_rereadURL_iff (isSpec : specOf r u = .ok s) (kept : HostKept r u)
    (printable : (Cuts.before hash (bootstrapQuery (bootstrapOf r u))).any isControl = false) :
    specOf r (rereadURL r u s.port) = .ok s ↔ PathKept u ∧ BootstrapKept r u := by
  rcases specOf_eq isSpec with ⟨shape, isPort⟩
  have same : specOf r (rereadURL r u s.port) = .ok s ↔
      specPath (rereadURL r u s.port) = specPath u ∧
        queryAddresses r (Cuts.before hash (bootstrapQuery (bootstrapOf r u))) =
          bootstrapOf r u := by
    rw [specOf_rereadURL kept isPort]
    constructor
    · intro equal
      have parts := Except.ok.inj equal
      rw [shape] at parts
      injection parts with _ _ _ path bootstrap
      exact ⟨path, bootstrap⟩
    · rintro ⟨path, bootstrap⟩
      rw [path, bootstrap, ← shape]
  rw [same, ← specPath_written_iff]
  refine and_congr_right fun _ => ⟨fun read => plain_of_queryAddresses read printable, ?_⟩
  intro plain
  rw [(fragment_of_plain plain).1]
  exact queryAddresses_of_plain (listed_bootstrapOf r u) plain

theorem schemeText_dns : SchemeText dns where
  bytes := List.all_iff_forall_prop.mp (by decide)
  letter c isHead := by
    have first : dns.head? = some 0x64 := by decide
    rw [first] at isHead
    cases isHead
    decide

theorem parseURL_eq_ok_iff : parseURL r raw = .ok s ↔
    ∃ u, r.parse (withScheme raw) = some u ∧ specOf r u = .ok s := by
  rw [parseURL]
  cases r.parse (withScheme raw) with
  | none => simp
  | some u => simp

/-- What `parseURL` reads is written so that it is read again. -/
structure Reproducible (r : Rules) (u : URL) : Prop where
  named : Named r u
  host : HostKept r u
  path : PathKept u
  bootstrap : BootstrapKept r u

theorem formatSpec_of_reproducible (parsed : Parsed r u) (isSpec : specOf r u = .ok s)
    (kept : Reproducible r u) : parseURL r (formatSpec s) = .ok s := by
  have isURL := (separator_formatSpec_iff isSpec parsed).mpr kept.named
  rcases fragment_of_plain kept.bootstrap with ⟨whole, noFragment, printable⟩
  refine parseURL_eq_ok_iff.mpr ⟨rereadURL r u s.port, ?_, ?_⟩
  · rw [withScheme, if_pos isURL, parse_formatSpec parsed isSpec, whole, noFragment]
    exact if_pos ⟨printable, kept.host, rfl⟩
  · rw [← whole] at printable
    exact (specOf_rereadURL_iff isSpec kept.host printable).mpr ⟨kept.path, kept.bootstrap⟩

theorem reproducible_of_formatSpec (parsed : Parsed r u) (isSpec : specOf r u = .ok s)
    (again : parseURL r (formatSpec s) = .ok s) : Reproducible r u := by
  rcases parseURL_eq_ok_iff.mp again with ⟨v, isParsed, sameSpec⟩
  by_cases isURL : separator <:+: formatSpec s
  · rw [withScheme, if_pos isURL, parse_formatSpec parsed isSpec] at isParsed
    split at isParsed
    · rename_i all
      rcases all with ⟨printable, kept, _⟩
      cases isParsed
      rcases (specOf_rereadURL_iff isSpec kept printable).mp sameSpec with ⟨path, bootstrap⟩
      exact ⟨(separator_formatSpec_iff isSpec parsed).mp isURL, kept, path, bootstrap⟩
    · contradiction
  · -- Read as plain DNS, the text has a scheme, which the spec had not.
    have noScheme : u.scheme = [] := by
      by_contra nonempty
      exact isURL ((separator_formatSpec_iff isSpec parsed).mpr (.inl nonempty))
    have isDNS : v.scheme = dns := by
      rw [withScheme, if_neg isURL] at isParsed
      exact scheme_of_parse schemeText_dns (by decide) isParsed
    have first := congrArg Spec.scheme (specOf_eq isSpec).1
    have second := congrArg Spec.scheme (specOf_eq sameSpec).1
    have impossible : dns = [] := isDNS.symm.trans (second.symm.trans (first.trans noScheme))
    exact absurd impossible (by decide)

/-- A spec is written so that it is read again exactly where each of its parts can be. -/
theorem parseURL_formatSpec_iff (accepted : parseURL r raw = .ok s) :
    parseURL r (formatSpec s) = .ok s ↔
      ∃ u, r.parse (withScheme raw) = some u ∧ Reproducible r u := by
  rcases parseURL_eq_ok_iff.mp accepted with ⟨u, isURL, isSpec⟩
  have parsed := parsed_of_parse isURL
  constructor
  · intro again
    exact ⟨u, isURL, reproducible_of_formatSpec parsed isSpec again⟩
  · rintro ⟨v, isOther, kept⟩
    rw [isURL] at isOther
    cases isOther
    exact formatSpec_of_reproducible parsed isSpec kept

/-- The rules of Go 1.26, where no address stands in brackets. -/
def standardRules : Rules where
  isIPv6 _ := false
  strictColons scheme := scheme == utf8 "http" || scheme == https
  maxSeparators := 9999

theorem parseURL_formatSpec_iff_bootstrap :
    ∃ s, parseURL standardRules (utf8 "https://dns.google/?bootstrap=8.8.8.8,%208.8.4.4") = .ok s ∧
      s.bootstrap = [utf8 "8.8.8.8", utf8 "8.8.4.4"] ∧
      (parseURL standardRules (formatSpec s) = .ok s ↔
        ∃ u, standardRules.parse
          (withScheme (utf8 "https://dns.google/?bootstrap=8.8.8.8,%208.8.4.4")) = some u ∧
            Reproducible standardRules u) := by
  have accepted : parseURL standardRules
      (utf8 "https://dns.google/?bootstrap=8.8.8.8,%208.8.4.4") =
        .ok ⟨https, utf8 "dns.google", 443, utf8 "/dns-query",
          [utf8 "8.8.8.8", utf8 "8.8.4.4"]⟩ := by
    decide +kernel
  exact ⟨_, accepted, rfl, parseURL_formatSpec_iff accepted⟩

/-- The path of a plain resolver is kept in its spec and left out of the text. -/
theorem plain_path_is_lost : ¬∀ raw s, parseURL standardRules raw = .ok s →
    parseURL standardRules (formatSpec s) = .ok s := by
  intro round
  have accepted : parseURL standardRules (utf8 "dns://1.1.1.1/foo") =
      .ok ⟨dns, utf8 "1.1.1.1", 53, utf8 "/foo", []⟩ := by
    decide +kernel
  have again : parseURL standardRules (formatSpec ⟨dns, utf8 "1.1.1.1", 53, utf8 "/foo", []⟩) =
      .ok ⟨dns, utf8 "1.1.1.1", 53, [], []⟩ := by
    decide +kernel
  rw [round _ _ accepted] at again
  injection again with same
  injection same with _ _ _ path
  exact absurd path (by decide)

/-! ## Lists of resolvers -/

/-- The specs of a list are those of its entries with a scheme. -/
theorem spec_of_parsePart {lists after : List Spec × List (List UInt8)} {part : List UInt8}
    (parsed : parsePart r lists part = .ok after) : ∀ s ∈ after.1, s ∈ lists.1 ∨
      separator <:+: Bytes.trimSpace part ∧ parseURL r (Bytes.trimSpace part) = .ok s := by
  intro s member
  rw [parsePart] at parsed
  split at parsed
  · cases parsed
    exact .inl member
  · split at parsed
    · rename_i isURL
      cases isSpec : parseURL r (Bytes.trimSpace part) with
      | error e =>
          rw [isSpec] at parsed
          contradiction
      | ok spec =>
          rw [isSpec] at parsed
          cases parsed
          rcases List.mem_append.mp member with old | new
          · exact .inl old
          · rw [List.mem_singleton.mp new]
            exact .inr ⟨isURL, rfl⟩
    · cases parsed
      exact .inl member

theorem spec_of_foldlM {parts : List (List UInt8)} {lists after : List Spec × List (List UInt8)}
    (parsed : parts.foldlM (parsePart r) lists = .ok after) : ∀ s ∈ after.1, s ∈ lists.1 ∨
      ∃ part ∈ parts,
        separator <:+: Bytes.trimSpace part ∧ parseURL r (Bytes.trimSpace part) = .ok s := by
  induction parts generalizing lists with
  | nil =>
      cases parsed
      exact fun s member => .inl member
  | cons part parts induction =>
      intro s member
      rw [List.foldlM_cons] at parsed
      cases one : parsePart r lists part with
      | error e =>
          rw [one] at parsed
          contradiction
      | ok next =>
          rw [one] at parsed
          rcases induction parsed s member with earlier | ⟨other, inParts, isURL, isSpec⟩
          · rcases spec_of_parsePart one s earlier with old | ⟨isURL, isSpec⟩
            · exact .inl old
            · exact .inr ⟨part, List.mem_cons_self, isURL, isSpec⟩
          · exact .inr ⟨other, List.mem_cons_of_mem _ inParts, isURL, isSpec⟩

theorem mapM_formatSpec {specs : List Spec}
    (round : ∀ s ∈ specs, parseURL r (formatSpec s) = .ok s) :
    (specs.map formatSpec).mapM (parseURL r) = .ok specs := by
  induction specs with
  | nil => rfl
  | cons s specs induction =>
      rcases List.forall_mem_cons.mp round with ⟨first, rest⟩
      rw [List.map_cons, List.mapM_cons, first, induction rest]
      rfl

/-- The resolvers of the environment are dialled by the specs that were parsed, where each of
them can be written: the formatted entries first, then the bare ones. -/
theorem dialFuncFromURLs_loadFromEnv {lists : List Spec × List (List UInt8)}
    (parsed : parseList r raw = .ok lists)
    (kept : ∀ part ∈ raw.splitOn comma, separator <:+: Bytes.trimSpace part →
      ∀ u, r.parse (withScheme (Bytes.trimSpace part)) = some u → Reproducible r u) :
    dialFuncFromURLs r (loadFromEnv r raw) =
      (lists.2.mapM (parseURL r)).map (lists.1 ++ ·) := by
  have round : ∀ s ∈ lists.1, parseURL r (formatSpec s) = .ok s := by
    intro s member
    rw [parseList] at parsed
    split at parsed
    · cases parsed
      exact absurd member List.not_mem_nil
    · rcases spec_of_foldlM parsed s member with none_yet | ⟨part, inRaw, hasScheme, isSpec⟩
      · exact absurd none_yet List.not_mem_nil
      · rcases parseURL_eq_ok_iff.mp isSpec with ⟨u, isURL, fromURL⟩
        exact formatSpec_of_reproducible (parsed_of_parse isURL) fromURL
          (kept part inRaw hasScheme u isURL)
  rw [loadFromEnv, parsed, dialFuncFromURLs, List.mapM_append, mapM_formatSpec round]
  cases lists.2.mapM (parseURL r) with
  | error e => rfl
  | ok specs => rfl

end Kiyomi.Dns
