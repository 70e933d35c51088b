import Kiyomi.Foundation.SemanticVersion
import Kiyomi.Go.Strings

namespace Kiyomi.Plugin.Host

open Go

/-! # Versions of the plugin host -/

structure SemVer where
  major : Int
  minor : Int
  patch : Int
  prerelease : String
  raw : String

/-- What `ParseSemVer` refuses. -/
inductive VersionError
  | empty
  | format (version : String)
  | number (part version : String)

/-- `strconv.Atoi` on one part of a version. -/
def parseNumber (part version digits : String) : Except VersionError Int :=
  match atoi digits with
  | none => .error (.number part version)
  | some n => .ok n

def parseSemVer (v : String) : Except VersionError SemVer :=
  let raw := trimSpace v
  let s := if raw.toList.head? = some 'v' then raw.toList.tail else raw.toList
  if s = [] then .error .empty
  else
    let (s, prerelease) := cut '-' s
    let parts := (splitChars '.' s).map String.ofList
    if parts.length < 1 ∨ 3 < parts.length then .error (.format v)
    else do
      let major ← parseNumber "major" v (parts.getD 0 "")
      let minor ← if 1 < parts.length then parseNumber "minor" v (parts.getD 1 "") else pure 0
      let patch ← if 2 < parts.length then parseNumber "patch" v (parts.getD 2 "") else pure 0
      return { major, minor, patch, prerelease := String.ofList (prerelease.getD []), raw }

def compareSemVer (v1 v2 : String) : Int :=
  match parseSemVer v1, parseSemVer v2 with
  | .error _, .error _ => compareStrings v1 v2
  | .error _, .ok _ => -1
  | .ok _, .error _ => 1
  | .ok sv1, .ok sv2 =>
      if sv1.major ≠ sv2.major then if sv1.major > sv2.major then 1 else -1
      else if sv1.minor ≠ sv2.minor then if sv1.minor > sv2.minor then 1 else -1
      else if sv1.patch ≠ sv2.patch then if sv1.patch > sv2.patch then 1 else -1
      -- A release is above its pre-releases.
      else if sv1.prerelease = "" ∧ sv2.prerelease ≠ "" then 1
      else if sv1.prerelease ≠ "" ∧ sv2.prerelease = "" then -1
      else compareStrings sv1.prerelease sv2.prerelease

end Kiyomi.Plugin.Host

namespace Kiyomi.Semantic

open Go

/-! ## Well-formed versions

How the parsers of the host and of the registry cut the text of a version. -/

theorem toNat_isIdentifierChar {c : Char} (isIdentifier : isIdentifierChar c = true) :
    45 ≤ c.toNat ∧ c.toNat ≤ 122 := by
  rw [isIdentifierChar, Bool.or_eq_true, beq_iff_eq] at isIdentifier
  rcases isIdentifier with alphanumeric | rfl
  · change (decide (c.val ≥ 65 ∧ c.val ≤ 90) ||
      (decide (c.val ≥ 97) && decide (c.val ≤ 122)) ||
      (decide (c.val ≥ 48) && decide (c.val ≤ 57))) = true at alphanumeric
    simp only [Bool.or_eq_true, Bool.and_eq_true, decide_eq_true_eq, UInt32.le_iff_toNat_le,
      ge_iff_le] at alphanumeric
    change ((65 ≤ c.toNat ∧ c.toNat ≤ 90) ∨ (97 ≤ c.toNat ∧ c.toNat ≤ 122)) ∨
      (48 ≤ c.toNat ∧ c.toNat ≤ 57) at alphanumeric
    omega
  · decide

theorem isIdentifierChar_marks {c : Char} (isIdentifier : isIdentifierChar c = true) :
    isSpace c = false ∧ c ≠ '.' ∧ c ≠ '+' := by
  have bounds := toNat_isIdentifierChar isIdentifier
  refine ⟨?_, ?_, ?_⟩
  · have noBlank : c ≠ ' ' := by
      rintro rfl
      contradiction
    have above : ¬ c ≤ '\r' := by
      rw [Char.le_def, UInt32.le_iff_toNat_le]
      exact fun low => absurd (bounds.1.trans low) (by decide)
    simp [isSpace, noBlank, above]
    omega
  · rintro rfl
    contradiction
  · rintro rfl
    contradiction

namespace Version

variable (v : Version) (leadingV : Bool)

/-- Build metadata that follow the numbers at once. -/
def buildOnly : Bool := v.preRelease.isEmpty && !v.build.isEmpty

variable {v leadingV}

theorem mem_suffix {c : Char} (member : c ∈ v.suffix) :
    isIdentifierChar c = true ∨ c = '.' ∨ c = '+' := by
  rcases List.mem_append.mp member with member | member
  · unfold preReleaseText at member
    split at member
    · contradiction
    · rcases List.mem_cons.mp member with rfl | member
      · exact .inl rfl
      · exact (mem_dotted (identifiers_preRelease v) member).imp id .inl
  · unfold buildText at member
    split at member
    · contradiction
    · rcases List.mem_cons.mp member with rfl | member
      · exact .inr (.inr rfl)
      · exact (mem_dotted (identifiers_build v) member).imp id .inl

theorem mem_chars {c : Char} (member : c ∈ v.chars leadingV) :
    isIdentifierChar c = true ∨ c = '.' ∨ c = '+' := by
  have digit {n : Nat} (member : c ∈ Nat.toDigits 10 n) :
      isIdentifierChar c = true ∨ c = '.' ∨ c = '+' :=
    .inl (isIdentifierChar_chars (.number n) c member)
  have lead (member : c ∈ if leadingV then ['v'] else []) : isIdentifierChar c = true := by
    cases leadingV with
    | false => contradiction
    | true =>
        rw [List.mem_singleton.mp member]
        rfl
  simp only [chars, List.mem_append, List.mem_cons] at member
  rcases member with member | member | rfl | member | rfl | member | member
  · exact .inl (lead member)
  · exact digit member
  · exact .inr (.inl rfl)
  · exact digit member
  · exact .inr (.inl rfl)
  · exact digit member
  · exact mem_suffix member

theorem trimSpace_text : trimSpace (v.text leadingV) = v.text leadingV := by
  have noSpace : ∀ c ∈ v.chars leadingV, isSpace c = false := by
    intro c member
    rcases mem_chars member with isIdentifier | rfl | rfl
    · exact (isIdentifierChar_marks isIdentifier).1
    · rfl
    · rfl
  have kept {s : List Char} (noSpace : ∀ c ∈ s, isSpace c = false) : s.dropWhile isSpace = s :=
    dropWhile_eq_self fun c first => noSpace c (List.mem_of_mem_head? first)
  rw [trimSpace, text, String.toList_ofList, trimChars, kept noSpace, kept, List.reverse_reverse]
  intro c member
  exact noSpace c (List.mem_reverse.mp member)

/-- Without its `v` a version begins with a digit. -/
theorem head_chars : (v.chars false).head? ≠ some 'v' := by
  unfold chars
  cases digits : Nat.toDigits 10 v.major with
  | nil => exact absurd digits Nat.toDigits_ne_nil
  | cons c more =>
      have isDigit := isDigit_toDigits c (digits ▸ List.mem_cons_self)
      simp only [Bool.false_eq_true, if_false, List.nil_append, List.cons_append, List.head?_cons]
      rintro ⟨⟩
      contradiction

theorem withoutV_text : (if (v.text leadingV).toList.head? = some 'v' then
    (v.text leadingV).toList.tail else (v.text leadingV).toList) = v.chars false := by
  rw [text, String.toList_ofList]
  cases leadingV with
  | false => rw [if_neg head_chars]
  | true => rfl

theorem cut_append_free {separator : Char} {before : List Char} (absent : separator ∉ before)
    (rest : List Char) : cut separator (before ++ rest) =
      (before ++ (cut separator rest).1, (cut separator rest).2) := by
  induction before with
  | nil => rfl
  | cons c before induction =>
      rw [List.mem_cons, not_or] at absent
      rw [List.cons_append, cut, if_neg (Ne.symm absent.1), induction absent.2]
      rfl

theorem splitChars_append {separator : Char} {piece : List Char} (absent : separator ∉ piece)
    (rest : List Char) :
    splitChars separator (piece ++ separator :: rest) = piece :: splitChars separator rest := by
  induction piece with
  | nil => simp [splitChars]
  | cons c piece induction =>
      rw [List.mem_cons, not_or] at absent
      rw [List.cons_append, splitChars, if_neg (Ne.symm absent.1), induction absent.2]

/-- The first piece goes on to the first separator. -/
theorem splitChars_begins {separator : Char} {front : List Char} (absent : separator ∉ front)
    (rest : List Char) : ∃ piece pieces, splitChars separator rest = piece :: pieces ∧
      splitChars separator (front ++ rest) = (front ++ piece) :: pieces := by
  induction front with
  | nil =>
      cases parts : splitChars separator rest with
      | nil =>
          have nonempty := split_ne_nil (String.ofList rest) separator
          rw [split, String.toList_ofList, parts] at nonempty
          contradiction
      | cons piece pieces => exact ⟨piece, pieces, rfl, parts⟩
  | cons c front induction =>
      rw [List.mem_cons, not_or] at absent
      rcases induction absent.2 with ⟨piece, pieces, isRest, parts⟩
      refine ⟨piece, pieces, isRest, ?_⟩
      rw [List.cons_append, splitChars, if_neg (Ne.symm absent.1), parts]
      rfl

theorem absent_of_digits {mark : Char} (noDigit : mark.isDigit = false) (n : Nat) :
    mark ∉ Nat.toDigits 10 n := by
  intro member
  rw [isDigit_toDigits mark member] at noDigit
  contradiction

/-- The text up to the dash: the numbers, and the build metadata that follow them at once. -/
theorem cut_chars (v : Version) : ∃ marked, (cut '-' (v.chars false)).1 =
      Nat.toDigits 10 v.major ++ '.' ::
        (Nat.toDigits 10 v.minor ++ '.' :: (Nat.toDigits 10 v.patch ++ marked)) ∧
    (v.buildOnly = false → marked = [] ∧ (cut '-' (v.chars false)).2.getD [] = v.suffix.tail) ∧
    (v.buildOnly = true → ∃ rest, marked = '+' :: rest) := by
  have dash (n : Nat) : '-' ∉ Nat.toDigits 10 n := absent_of_digits rfl n
  have numbers : '-' ∉ Nat.toDigits 10 v.major ++ '.' ::
      (Nat.toDigits 10 v.minor ++ '.' :: Nat.toDigits 10 v.patch) := by
    simp [dash]
  have whole : v.chars false = (Nat.toDigits 10 v.major ++ '.' ::
      (Nat.toDigits 10 v.minor ++ '.' :: Nat.toDigits 10 v.patch)) ++ v.suffix := by
    simp [chars]
  rw [whole, cut_append_free numbers]
  refine ⟨(cut '-' v.suffix).1, by simp, fun readable => ?_, fun isBuild => ?_⟩
  · cases preRelease : v.preRelease with
    | nil =>
        have noBuild : v.build = [] := by simpa [buildOnly, preRelease] using readable
        simp [suffix, preReleaseText, buildText, preRelease, noBuild, cut]
    | cons first others => simp [suffix, preReleaseText, preRelease, cut]
  · have parts : v.preRelease = [] ∧ v.build ≠ [] := by simpa [buildOnly] using isBuild
    simp [suffix, preReleaseText, buildText, parts.1, parts.2, cut]

/-- The three numbers, the last one with what stands between it and the next mark. -/
theorem pieces (v : Version) : ∃ marked more, splitChars '.' (cut '-' (v.chars false)).1 =
      Nat.toDigits 10 v.major :: Nat.toDigits 10 v.minor ::
        (Nat.toDigits 10 v.patch ++ marked) :: more ∧
    (v.buildOnly = false → marked = [] ∧ more = []) ∧
    (v.buildOnly = true → ∃ rest, marked = '+' :: rest) := by
  have dot (n : Nat) : '.' ∉ Nat.toDigits 10 n := absent_of_digits rfl n
  rcases cut_chars v with ⟨marked, front, readable, unreadable⟩
  rcases splitChars_begins (dot v.patch) marked with ⟨piece, more, isPiece, parts⟩
  refine ⟨piece, more, ?_, fun plain => ?_, fun isBuild => ?_⟩
  · rw [front, splitChars_append (dot _), splitChars_append (dot _), parts]
  · rw [(readable plain).1, splitChars, List.cons.injEq] at isPiece
    exact ⟨isPiece.1.symm, isPiece.2.symm⟩
  · rcases unreadable isBuild with ⟨rest, rfl⟩
    have plus : '.' ∉ ['+'] := by decide
    rcases splitChars_begins plus rest with ⟨first, others, _, begins⟩
    rw [List.singleton_append] at begins
    rw [begins, List.cons.injEq] at isPiece
    exact ⟨first, isPiece.1.symm⟩

end Version

end Kiyomi.Semantic

namespace Kiyomi.Plugin.Host

open Go Semantic

variable {v w : Version} {leadingV : Bool}

/-- The host can read the version: it fits 64-bit integers, and nothing follows the numbers
but a pre-release. -/
def readable (v : Version) : Bool :=
  decide (v.major < 0x8000000000000000 ∧ v.minor < 0x8000000000000000 ∧
    v.patch < 0x8000000000000000) && !v.buildOnly

theorem chars_ne_nil : v.chars false ≠ [] := by
  simp [Version.chars]

theorem parseSemVer_readable (isReadable : readable v = true) :
    parseSemVer (v.text leadingV) = .ok
      { major := v.major, minor := v.minor, patch := v.patch,
        prerelease := String.ofList v.suffix.tail, raw := v.text leadingV } := by
  have fits : (v.major < 0x8000000000000000 ∧ v.minor < 0x8000000000000000 ∧
      v.patch < 0x8000000000000000) ∧ v.buildOnly = false := by
    simpa [readable] using isReadable
  rcases v.cut_chars with ⟨_, _, isCut, _⟩
  have prerelease := (isCut fits.2).2
  rcases v.pieces with ⟨marked, more, pieces, exactly, _⟩
  rcases exactly fits.2 with ⟨rfl, rfl⟩
  rw [List.append_nil] at pieces
  unfold parseSemVer
  simp only [Version.trimSpace_text, Version.withoutV_text, if_neg chars_ne_nil]
  rcases parts : cut '-' (v.chars false) with ⟨front, back⟩
  rw [parts] at pieces prerelease
  simp only [pieces, prerelease, List.map_cons, List.map_nil, List.length_cons, List.length_nil,
    List.getD_cons_zero, List.getD_cons_succ, parseNumber, atoi_digits, if_pos fits.1.1,
    if_pos fits.1.2.1, if_pos fits.1.2.2]
  rfl

theorem parseSemVer_unreadable (isUnreadable : readable v = false) :
    ∃ reason, parseSemVer (v.text leadingV) = .error reason := by
  rcases v.pieces with ⟨marked, more, pieces, exactly, isMarked⟩
  unfold parseSemVer
  simp only [Version.trimSpace_text, Version.withoutV_text, if_neg chars_ne_nil]
  rcases parts : cut '-' (v.chars false) with ⟨front, back⟩
  rw [parts] at pieces
  simp only [pieces, List.map_cons, List.length_cons, List.getD_cons_zero, List.getD_cons_succ]
  split
  · exact ⟨_, rfl⟩
  by_cases major : v.major < 0x8000000000000000
  · by_cases minor : v.minor < 0x8000000000000000
    · have patch : atoi (String.ofList (Nat.toDigits 10 v.patch ++ marked)) = none := by
        cases isBuild : v.buildOnly with
        | true =>
            rcases isMarked isBuild with ⟨rest, rfl⟩
            exact atoi_stopped _ rfl _
        | false =>
            have large : ¬ v.patch < 0x8000000000000000 := by
              simpa [readable, isBuild, major, minor] using isUnreadable
            rw [(exactly isBuild).1, List.append_nil, atoi_digits, if_neg large]
      refine ⟨.number "patch" (v.text leadingV), ?_⟩
      simp [parseNumber, atoi_digits, major, minor, patch, -String.ofList_append]
      rfl
    · refine ⟨.number "minor" (v.text leadingV), ?_⟩
      simp [parseNumber, atoi_digits, major, minor]
      rfl
  · refine ⟨.number "major" (v.text leadingV), ?_⟩
    simp [parseNumber, atoi_digits, major]
    rfl

end Kiyomi.Plugin.Host
