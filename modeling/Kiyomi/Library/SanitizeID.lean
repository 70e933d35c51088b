import Kiyomi.Go.Bytes
import Kiyomi.Go.UrlString

namespace Kiyomi.Library

open Go Go.Url

/-! # Sanitized ids

`sanitizeID` on the bytes of an id, and where it does nothing the second time. -/

def mangaPrefix : List UInt8 := utf8 "manga/"

section Definition

variable (r : Rules)

/-- The id is a URL with a scheme or a host. -/
def isAbsolute (id : List UInt8) : Bool :=
  (r.parse id).any fun u => u.scheme ≠ [] ∨ u.host ≠ []

/-- The path of such a URL, and any other id as it is. -/
def urlPath (id : List UInt8) : List UInt8 :=
  match r.parse id with
  | some u => if u.scheme ≠ [] ∨ u.host ≠ [] then u.path else id
  | none => id

def stripManga (id : List UInt8) : List UInt8 :=
  if mangaPrefix <+: id then Bytes.trim slash (id.drop mangaPrefix.length) else id

def sanitizeID (id : List UInt8) : List UInt8 :=
  stripManga (Bytes.trim slash (urlPath r (Bytes.trimSpace id)))

end Definition

variable {r : Rules} {s rest path raw scheme : List UInt8} {u : Url.URL}

/-! ## The path of a URL is shorter than the URL -/

theorem length_of_getScheme (found : getScheme raw = some (scheme, rest)) :
    rest.length ≤ raw.length ∧ (scheme ≠ [] → rest.length < raw.length) := by
  rw [getScheme] at found
  split at found
  · rename_i c behind dropped
    have inside : (c :: behind).length ≤ raw.length :=
      dropped ▸ (List.dropWhile_suffix isSchemeByte).length_le
    rw [List.length_cons] at inside
    split at found
    · split at found
      · contradiction
      · split at found
        · cases found
          omega
        · cases found
          exact ⟨le_rfl, fun nonempty => absurd rfl nonempty⟩
    · cases found
      exact ⟨le_rfl, fun nonempty => absurd rfl nonempty⟩
  · cases found
    exact ⟨le_rfl, fun nonempty => absurd rfl nonempty⟩

theorem length_of_parseRest {rawQuery : List UInt8}
    (parsed : r.parseRest scheme rawQuery rest = some u) :
    u.path.length ≤ rest.length ∧ (u.host ≠ [] → u.path.length < rest.length) := by
  rw [Rules.parseRest] at parsed
  split at parsed
  · cases parsed
    exact ⟨Nat.zero_le _, fun nonempty => absurd rfl nonempty⟩
  · split at parsed
    · contradiction
    · split at parsed
      · rename_i slashes
        rcases Option.bind_eq_some_iff.mp parsed with ⟨host, _, mapped⟩
        rcases Option.map_eq_some_iff.mp mapped with ⟨path, isPath, rfl⟩
        have decoded := (PercentEncoding.Policy.length_decode isPath).1
        have behind := (List.dropWhile_suffix (· ≠ slash) (l := rest.drop 2)).length_le
        have double := slashes.2.length_le
        simp only [List.length_cons, List.length_nil, List.length_drop] at behind double
        have shorter : path.length < rest.length := by omega
        exact ⟨shorter.le, fun _ => shorter⟩
      · rcases Option.map_eq_some_iff.mp parsed with ⟨path, isPath, rfl⟩
        have decoded := (PercentEncoding.Policy.length_decode isPath).1
        exact ⟨decoded, fun nonempty => absurd rfl nonempty⟩

theorem length_path_lt (parsed : r.parse s = some u)
    (absolute : u.scheme ≠ [] ∨ u.host ≠ []) : u.path.length < s.length := by
  rcases Option.bind_eq_some_iff.mp parsed with ⟨v, isReference, fragment⟩
  rcases Option.map_eq_some_iff.mp fragment with ⟨_, _, rfl⟩
  have noFragment := (Cuts.before_prefix hash s).length_le
  rw [Rules.parseReference] at isReference
  split at isReference
  · contradiction
  · split at isReference
    · cases isReference
      exact absurd absolute (by simp)
    · rcases Option.bind_eq_some_iff.mp isReference with ⟨⟨scheme, behind⟩, found, isRest⟩
      have ofScheme := length_of_getScheme found
      have noQuery := (Cuts.before_prefix question behind).length_le
      have ofRest := length_of_parseRest isRest
      dsimp only at ofRest
      have same := (parsed_of_parseRest (schemeText_of_getScheme found) isRest).1
      rcases absolute with hasScheme | hasHost
      · have nonempty : scheme ≠ [] := by
          rintro rfl
          exact hasScheme same
        have := ofScheme.2 nonempty
        omega
      · have := ofRest.2 hasHost
        omega

/-! ## Ids that stay as they are -/

theorem urlPath_of_not_absolute (relative : isAbsolute r s = false) : urlPath r s = s := by
  rw [isAbsolute] at relative
  rw [urlPath]
  cases parsed : r.parse s with
  | none => rfl
  | some u =>
      rw [parsed, Option.any_some, decide_eq_false_iff_not] at relative
      exact if_neg relative

theorem length_urlPath_lt (absolute : isAbsolute r s = true) :
    (urlPath r s).length < s.length := by
  rw [isAbsolute] at absolute
  rw [urlPath]
  cases parsed : r.parse s with
  | none =>
      rw [parsed] at absolute
      contradiction
  | some u =>
      rw [parsed, Option.any_some, decide_eq_true_eq] at absolute
      change (if _ then _ else _ : List UInt8).length < _
      rw [if_pos absolute]
      exact length_path_lt parsed absolute

theorem length_urlPath_le (r : Rules) (s : List UInt8) : (urlPath r s).length ≤ s.length := by
  cases absolute : isAbsolute r s with
  | true => exact (length_urlPath_lt absolute).le
  | false => rw [urlPath_of_not_absolute absolute]

theorem length_stripManga_lt (starts : mangaPrefix <+: s) : (stripManga s).length < s.length := by
  have inside := (Bytes.isInfix_trim slash (s.drop mangaPrefix.length)).length_le
  have size := starts.length_le
  have positive : mangaPrefix.length = 6 := by decide
  rw [stripManga, if_pos starts]
  rw [List.length_drop] at inside
  omega

theorem length_stripManga_le (s : List UInt8) : (stripManga s).length ≤ s.length := by
  by_cases starts : mangaPrefix <+: s
  · exact (length_stripManga_lt starts).le
  · rw [stripManga, if_neg starts]

/-- An id that stays as it is has nothing that any of the steps would take away. -/
theorem sanitizeID_eq_self_iff : sanitizeID r s = s ↔
    Bytes.trimSpace s = s ∧ isAbsolute r s = false ∧ Bytes.trim slash s = s ∧
      ¬mangaPrefix <+: s := by
  constructor
  · intro same
    have spaces := (Bytes.isInfix_trimSpace s).length_le
    have paths := length_urlPath_le r (Bytes.trimSpace s)
    have slashes := (Bytes.isInfix_trim slash (urlPath r (Bytes.trimSpace s))).length_le
    have dirs := length_stripManga_le (Bytes.trim slash (urlPath r (Bytes.trimSpace s)))
    have whole := congrArg List.length same
    rw [sanitizeID] at whole
    have trimmed : Bytes.trimSpace s = s := (Bytes.isInfix_trimSpace s).eq_of_length (by omega)
    rw [trimmed] at paths slashes dirs whole
    have relative : isAbsolute r s = false := by
      cases absolute : isAbsolute r s with
      | false => rfl
      | true =>
          have := length_urlPath_lt absolute
          omega
    rw [urlPath_of_not_absolute relative] at slashes dirs whole
    have free : Bytes.trim slash s = s := (Bytes.isInfix_trim slash s).eq_of_length (by omega)
    rw [free] at dirs whole
    refine ⟨trimmed, relative, free, fun starts => ?_⟩
    have := length_stripManga_lt starts
    omega
  · rintro ⟨trimmed, relative, free, other⟩
    rw [sanitizeID, trimmed, urlPath_of_not_absolute relative, free, stripManga, if_neg other]

/-! ## What an id comes to -/

/-- The path is this text between slashes, behind one `manga/` where it has that. -/
def Holds (path rest : List UInt8) : Prop :=
  (¬mangaPrefix <+: Bytes.trim slash path ∧ rest = Bytes.trim slash path) ∨
    ∃ slashes, (∀ b ∈ slashes, b = slash) ∧
      Bytes.trim slash path = mangaPrefix ++ slashes ++ rest ∧ rest.head? ≠ some slash

/-- Behind `manga/` only the slashes at the start are left to trim. -/
theorem trim_behind {slashes : List UInt8} (all : ∀ b ∈ slashes, b = slash)
    (inside : slashes ++ rest <:+ Bytes.trim slash path) (start : rest.head? ≠ some slash) :
    Bytes.trim slash (slashes ++ rest) = rest := by
  have dropped : Bytes.trimLeft slash (slashes ++ rest) = Bytes.trimLeft slash rest :=
    List.dropWhile_append_of_pos fun b member => beq_iff_eq.mpr (all b member)
  rw [Bytes.trim, dropped, ← Bytes.trim]
  refine Bytes.trim_of_ends start fun ends => Bytes.getLast?_trim slash path ?_
  rcases (List.suffix_append slashes rest).trans inside with ⟨front, split⟩
  rw [← split, List.getLast?_append, ends, Option.some_or]

theorem holds_iff : Holds path rest ↔ rest = stripManga (Bytes.trim slash path) := by
  rw [Holds, stripManga]
  by_cases starts : mangaPrefix <+: Bytes.trim slash path
  · rw [if_pos starts]
    rcases starts with ⟨tail, split⟩
    have behind : (Bytes.trim slash path).drop mangaPrefix.length = tail := by
      rw [← split, List.drop_left]
    rw [behind]
    constructor
    · rintro (⟨absent, _⟩ | ⟨slashes, all, parts, start⟩)
      · exact absurd ⟨tail, split⟩ absent
      · have isTail : tail = slashes ++ rest := by
          rw [← split, List.append_assoc] at parts
          exact List.append_cancel_left parts
        rw [isTail, trim_behind all ⟨mangaPrefix, by rw [← isTail, split]⟩ start]
    · rintro rfl
      have all : ∀ b ∈ tail.takeWhile (· == slash), b = slash := fun b member =>
        beq_iff_eq.mp (List.all_eq_true.mp List.all_takeWhile b member)
      have start : (tail.dropWhile (· == slash)).head? ≠ some slash := fun isHead => by
        have stops := List.head?_dropWhile_not (· == slash) tail
        rw [isHead] at stops
        simp at stops
      have parts := List.takeWhile_append_dropWhile (p := (· == slash)) (l := tail)
      have inside : tail.takeWhile (· == slash) ++ tail.dropWhile (· == slash) <:+
          Bytes.trim slash path := by
        rw [parts]
        exact ⟨mangaPrefix, split⟩
      have trimmed := trim_behind all inside start
      rw [parts] at trimmed
      rw [trimmed]
      exact .inr ⟨_, all, by rw [List.append_assoc, parts, split], start⟩
  · rw [if_neg starts]
    constructor
    · rintro (⟨_, same⟩ | ⟨slashes, _, parts, _⟩)
      · exact same
      · rw [List.append_assoc] at parts
        exact absurd ⟨_, parts.symm⟩ starts
    · exact fun same => .inl ⟨starts, same⟩

theorem trim_stripManga (s : List UInt8) : Bytes.trim slash (stripManga (Bytes.trim slash s)) =
    stripManga (Bytes.trim slash s) := by
  rw [stripManga]
  split
  · exact Bytes.trim_trim slash _
  · exact Bytes.trim_trim slash s

variable (r) in
/-- The second time can take away what the first one has laid bare. -/
theorem sanitizeID_sanitizeID_iff (s : List UInt8) :
    sanitizeID r (sanitizeID r s) = sanitizeID r s ↔
      ∀ rest, Holds (urlPath r (Bytes.trimSpace s)) rest →
        Bytes.trimSpace rest = rest ∧ isAbsolute r rest = false ∧ ¬mangaPrefix <+: rest := by
  simp only [holds_iff, forall_eq]
  rw [sanitizeID_eq_self_iff, sanitizeID, trim_stripManga, eq_self, true_and]

theorem nested_directory_is_stripped_twice :
    let r : Rules := ⟨fun _ => false, fun _ => false, 0⟩
    sanitizeID r (utf8 "manga/manga/x") = utf8 "manga/x" ∧
      sanitizeID r (sanitizeID r (utf8 "manga/manga/x")) = utf8 "x" := by
  decide +kernel

end Kiyomi.Library
