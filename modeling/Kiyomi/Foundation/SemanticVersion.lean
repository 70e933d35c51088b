import Mathlib.Data.Nat.Basic
import Mathlib.Order.Compare
import Mathlib.Order.Lattice

namespace Kiyomi.Semantic

/-! # Semantic versions

Versions of the form that SemVer 2.0.0 asks for, how they are written and which of two
goes first. -/

/-- A character of an identifier. -/
def isIdentifierChar (c : Char) : Bool := c.isAlphanum || c == '-'

/-- An identifier of a pre-release: a number without leading zeros, or a word. -/
inductive PreRelease
  | number (n : Nat)
  | word (chars : List Char) (allowed : chars.all isIdentifierChar = true)
      (noNumber : chars.all Char.isDigit = false)
  deriving DecidableEq

/-- An identifier of the build metadata. -/
structure Build where
  chars : List Char
  nonempty : chars ≠ []
  allowed : chars.all isIdentifierChar = true
  deriving DecidableEq

structure Version where
  major : Nat
  minor : Nat
  patch : Nat
  preRelease : List PreRelease := []
  build : List Build := []
  deriving DecidableEq

/-! ## Precedence -/

/-- Compare by the first number that differs. -/
def compareNumbers {α : Type} [Ord α] (m n : α × α × α) : Ordering :=
  (compare m.1 n.1).then ((compare m.2.1 n.2.1).then (compare m.2.2 n.2.2))

/-- Numbers are compared as numbers, and they go before words. -/
def PreRelease.compare : PreRelease → PreRelease → Ordering
  | .number m, .number n => Ord.compare m n
  | .number _, .word _ _ _ => .lt
  | .word _ _ _, .number _ => .gt
  | .word left _ _, .word right _ _ => List.compareLex Ord.compare left right

/-- A pre-release is below its release. -/
def comparePreReleases : List PreRelease → List PreRelease → Ordering
  | [], [] => .eq
  | [], _ :: _ => .gt
  | _ :: _, [] => .lt
  | first :: left, second :: right =>
      List.compareLex PreRelease.compare (first :: left) (second :: right)

def Version.numbers (v : Version) : Nat × Nat × Nat := (v.major, v.minor, v.patch)

/-- The precedence of SemVer 2.0.0; the build metadata do not count. -/
def precedence (v w : Version) : Ordering :=
  (compareNumbers v.numbers w.numbers).then (comparePreReleases v.preRelease w.preRelease)

section Numbers

variable {α : Type} [LinearOrder α] {m n : α × α × α}

theorem compareNumbers_eq_lt : compareNumbers m n = .lt ↔
    m.1 < n.1 ∨ m.1 = n.1 ∧ (m.2.1 < n.2.1 ∨ m.2.1 = n.2.1 ∧ m.2.2 < n.2.2) := by
  simp only [compareNumbers, Ordering.then_eq_lt, compare_lt_iff_lt, compare_eq_iff_eq]

theorem compareNumbers_eq_gt : compareNumbers m n = .gt ↔
    n.1 < m.1 ∨ m.1 = n.1 ∧ (n.2.1 < m.2.1 ∨ m.2.1 = n.2.1 ∧ n.2.2 < m.2.2) := by
  simp only [compareNumbers, Ordering.then_eq_gt, compare_gt_iff_gt, compare_eq_iff_eq]

theorem compareNumbers_eq_eq : compareNumbers m n = .eq ↔ m = n := by
  simp only [compareNumbers, Ordering.then_eq_eq, compare_eq_iff_eq, Prod.ext_iff]

theorem compareNumbers_swap : compareNumbers m n = .gt ↔ compareNumbers n m = .lt := by
  rw [compareNumbers_eq_gt, compareNumbers_eq_lt, @eq_comm _ m.1, @eq_comm _ m.2.1]

end Numbers

instance : Std.LawfulEqCmp PreRelease.compare where
  compare_self := by
    intro identifier
    cases identifier with
    | number n => exact compare_eq_iff_eq.mpr (Eq.refl n)
    | word chars _ _ =>
        exact @Std.ReflCmp.compare_self _ (List.compareLex Ord.compare) _ chars
  eq_of_compare := by
    intro left right same
    cases left with
    | number m =>
        cases right with
        | number n => exact congrArg _ (compare_eq_iff_eq.mp same)
        | word chars _ _ => cases same
    | word leftChars _ _ =>
        cases right with
        | number n => cases same
        | word rightChars _ _ =>
            cases @Std.LawfulEqCmp.eq_of_compare _ (List.compareLex Ord.compare) _ _ _ same
            rfl

theorem comparePreReleases_eq_eq {left right : List PreRelease} :
    comparePreReleases left right = .eq ↔ left = right := by
  cases left with
  | nil => cases right <;> simp [comparePreReleases]
  | cons first left =>
      cases right with
      | nil => simp [comparePreReleases]
      | cons second right =>
          exact @Std.LawfulEqCmp.compare_eq_iff_eq _ (List.compareLex PreRelease.compare) _ _ _

/-! ## Text -/

/-- Identifiers with dots between them. -/
def dotted : List (List Char) → List Char
  | [] => []
  | part :: parts => part ++ parts.flatMap ('.' :: ·)

def PreRelease.chars : PreRelease → List Char
  | .number n => Nat.toDigits 10 n
  | .word chars _ _ => chars

namespace Version

def preReleaseText (v : Version) : List Char :=
  if v.preRelease = [] then [] else '-' :: dotted (v.preRelease.map PreRelease.chars)

def buildText (v : Version) : List Char :=
  if v.build = [] then [] else '+' :: dotted (v.build.map Build.chars)

def suffix (v : Version) : List Char := v.preReleaseText ++ v.buildText

/-- The text of a version, with a leading `v` or without. -/
def chars (leadingV : Bool) (v : Version) : List Char :=
  (if leadingV then ['v'] else []) ++ (Nat.toDigits 10 v.major ++ '.' ::
    (Nat.toDigits 10 v.minor ++ '.' :: (Nat.toDigits 10 v.patch ++ v.suffix)))

def text (leadingV : Bool) (v : Version) : String := String.ofList (v.chars leadingV)

end Version

/-! ## What the text tells -/

/-- A text is cut in one way where a kind of characters ends. -/
theorem append_inj_of_kind {kind : Char → Bool} {front front' back back' : List Char}
    (inside : ∀ c ∈ front, kind c = true) (inside' : ∀ c ∈ front', kind c = true)
    (stops : ∀ c ∈ back.head?, kind c = false) (stops' : ∀ c ∈ back'.head?, kind c = false)
    (same : front ++ back = front' ++ back') : front = front' ∧ back = back' := by
  have taken {l r : List Char} (inside : ∀ c ∈ l, kind c = true)
      (stops : ∀ c ∈ r.head?, kind c = false) : (l ++ r).takeWhile kind = l := by
    rw [List.takeWhile_append_of_pos inside]
    cases r with
    | nil => simp
    | cons c r => simp [stops c rfl]
  have fronts : front = front' := by
    rw [← taken inside stops, same, taken inside' stops']
  refine ⟨fronts, ?_⟩
  rw [fronts] at same
  exact List.append_cancel_left same

theorem dotted_inj {left right : List (List Char)} (some_ : left ≠ []) (some_' : right ≠ [])
    (free : ∀ part ∈ left, '.' ∉ part) (free' : ∀ part ∈ right, '.' ∉ part)
    (same : dotted left = dotted right) : left = right := by
  have other {part : List Char} (free : '.' ∉ part) : ∀ c ∈ part, (c != '.') = true := by
    intro c member
    simpa using fun isDot : c = '.' => free (isDot ▸ member)
  have stops (parts : List (List Char)) :
      ∀ c ∈ (parts.flatMap ('.' :: ·)).head?, (c != '.') = false := by
    cases parts <;> simp
  cases left with
  | nil => contradiction
  | cons first left =>
      cases right with
      | nil => contradiction
      | cons second right =>
          rw [List.forall_mem_cons] at free free'
          clear some_ some_'
          induction left generalizing first second right with
          | nil =>
              have parts := append_inj_of_kind (other free.1) (other free'.1) (stops [])
                (stops right) same
              cases right with
              | nil => rw [parts.1]
              | cons third right => cases parts.2
          | cons next left induction =>
              have parts := append_inj_of_kind (other free.1) (other free'.1)
                (stops (next :: left)) (stops right) same
              cases right with
              | nil => cases parts.2
              | cons third right =>
                  rw [List.flatMap_cons, List.flatMap_cons, List.cons_append, List.cons_append,
                    List.cons.injEq] at parts
                  have more := induction next (List.forall_mem_cons.mp free.2) third right
                    (List.forall_mem_cons.mp free'.2) parts.2.2
                  rw [parts.1, more]

theorem toDigits_inj {m n : Nat} (same : Nat.toDigits 10 m = Nat.toDigits 10 n) : m = n := by
  rw [← Nat.ofDigitChars_ten_toDigits (n := m), same, Nat.ofDigitChars_ten_toDigits]

theorem isDigit_toDigits {n : Nat} : ∀ c ∈ Nat.toDigits 10 n, c.isDigit = true :=
  fun _ => Nat.isDigit_of_mem_toDigits (by decide) (by decide)

theorem PreRelease.chars_inj {left right : PreRelease} (same : left.chars = right.chars) :
    left = right := by
  cases left with
  | number m =>
      cases right with
      | number n => rw [toDigits_inj same]
      | word chars _ noNumber =>
          have digits := List.all_eq_true.mpr (@isDigit_toDigits m)
          rw [show Nat.toDigits 10 m = chars from same, noNumber] at digits
          contradiction
  | word leftChars _ noNumber =>
      cases right with
      | number n =>
          have digits := List.all_eq_true.mpr (@isDigit_toDigits n)
          rw [← show leftChars = Nat.toDigits 10 n from same, noNumber] at digits
          contradiction
      | word rightChars _ _ =>
          cases show leftChars = rightChars from same
          rfl

theorem isIdentifierChar_chars (identifier : PreRelease) :
    ∀ c ∈ identifier.chars, isIdentifierChar c = true := by
  cases identifier with
  | number n =>
      intro c member
      simp [isIdentifierChar, Char.isAlphanum, isDigit_toDigits c member]
  | word chars allowed _ => exact List.all_eq_true.mp allowed

/-- What is between the marks has none of the marks. -/
theorem mem_dotted {parts : List (List Char)} {c : Char}
    (allowed : ∀ part ∈ parts, ∀ c ∈ part, isIdentifierChar c = true) (member : c ∈ dotted parts) :
    isIdentifierChar c = true ∨ c = '.' := by
  cases parts with
  | nil => exact absurd member List.not_mem_nil
  | cons part parts =>
      rw [List.forall_mem_cons] at allowed
      rcases List.mem_append.mp member with first | later
      · exact .inl (allowed.1 c first)
      · rcases List.mem_flatMap.mp later with ⟨other, isIn, inside⟩
        rcases List.mem_cons.mp inside with rfl | inside
        · exact .inr rfl
        · exact .inl (allowed.2 other isIn c inside)

namespace Version

variable {v w : Version}

theorem identifiers_preRelease (v : Version) :
    ∀ part ∈ v.preRelease.map PreRelease.chars, ∀ c ∈ part, isIdentifierChar c = true := by
  intro part member
  rcases List.mem_map.mp member with ⟨identifier, _, rfl⟩
  exact isIdentifierChar_chars identifier

theorem identifiers_build (v : Version) :
    ∀ part ∈ v.build.map Build.chars, ∀ c ∈ part, isIdentifierChar c = true := by
  intro part member
  rcases List.mem_map.mp member with ⟨identifier, _, rfl⟩
  exact List.all_eq_true.mp identifier.allowed

theorem dot_free {parts : List (List Char)}
    (allowed : ∀ part ∈ parts, ∀ c ∈ part, isIdentifierChar c = true) :
    ∀ part ∈ parts, '.' ∉ part :=
  fun part member isDot => absurd (allowed part member '.' isDot) (by decide)

/-- The two parts of the suffix are told apart by the plus. -/
theorem suffix_inj (same : v.suffix = w.suffix) :
    v.preRelease = w.preRelease ∧ v.build = w.build := by
  have inside (v : Version) : ∀ c ∈ v.preReleaseText, (c != '+') = true := by
    intro c member
    unfold preReleaseText at member
    split at member
    · contradiction
    · rcases List.mem_cons.mp member with rfl | member
      · rfl
      · rcases mem_dotted (identifiers_preRelease v) member with allowed | rfl
        · rw [bne_iff_ne]
          rintro rfl
          contradiction
        · rfl
  have stops (v : Version) : ∀ c ∈ v.buildText.head?, (c != '+') = false := by
    unfold buildText
    split <;> simp
  have parts := append_inj_of_kind (inside v) (inside w) (stops v) (stops w) same
  constructor
  · have first := parts.1
    unfold preReleaseText at first
    split at first <;> split at first
    · rename_i none none'
      rw [none, none']
    · contradiction
    · contradiction
    · rename_i some_ some_'
      rw [List.cons.injEq] at first
      have identifiers := dotted_inj (by simpa using some_) (by simpa using some_')
        (dot_free (identifiers_preRelease v)) (dot_free (identifiers_preRelease w)) first.2
      exact (List.map_inj_right fun _ _ => PreRelease.chars_inj).mp identifiers
  · have second := parts.2
    unfold buildText at second
    split at second <;> split at second
    · rename_i none none'
      rw [none, none']
    · contradiction
    · contradiction
    · rename_i some_ some_'
      rw [List.cons.injEq] at second
      have identifiers := dotted_inj (by simpa using some_) (by simpa using some_')
        (dot_free (identifiers_build v)) (dot_free (identifiers_build w)) second.2
      refine (List.map_inj_right fun left right same => ?_).mp identifiers
      cases left
      cases right
      cases same
      rfl

/-- The suffix does not go on with a digit. -/
theorem suffix_stops (v : Version) : ∀ c ∈ v.suffix.head?, c.isDigit = false := by
  unfold suffix preReleaseText buildText
  split <;> split <;> simp

theorem chars_inj {leadV leadW : Bool} (same : v.chars leadV = w.chars leadW) :
    leadV = leadW ∧ v = w := by
  have digitFirst (n : Nat) (rest : List Char) : ∃ c more, Nat.toDigits 10 n ++ rest = c :: more ∧
      c.isDigit = true := by
    cases digits : Nat.toDigits 10 n with
    | nil => exact absurd digits Nat.toDigits_ne_nil
    | cons c more =>
        exact ⟨c, more ++ rest, rfl, isDigit_toDigits c (digits ▸ List.mem_cons_self)⟩
  have leads : leadV = leadW := by
    have distinct {n : Nat} {rest other : List Char} :
        Nat.toDigits 10 n ++ rest ≠ ['v'] ++ other := by
      intro same
      rcases digitFirst n rest with ⟨c, more, parts, isDigit⟩
      rw [parts, List.singleton_append, List.cons.injEq] at same
      rw [same.1] at isDigit
      contradiction
    unfold chars at same
    cases leadV <;> cases leadW
    · rfl
    · exact absurd same distinct
    · exact absurd same.symm distinct
    · rfl
  refine ⟨leads, ?_⟩
  subst leads
  have rest := List.append_cancel_left same
  have dot (rest : List Char) : ∀ c ∈ ('.' :: rest).head?, c.isDigit = false := by simp
  have first := append_inj_of_kind isDigit_toDigits isDigit_toDigits (dot _) (dot _) rest
  rw [List.cons.injEq] at first
  have second := append_inj_of_kind isDigit_toDigits isDigit_toDigits (dot _) (dot _) first.2.2
  rw [List.cons.injEq] at second
  have third := append_inj_of_kind isDigit_toDigits isDigit_toDigits (suffix_stops v)
    (suffix_stops w) second.2.2
  have identifiers := suffix_inj third.2
  cases v
  cases w
  cases toDigits_inj first.1
  cases toDigits_inj second.1
  cases toDigits_inj third.1
  cases identifiers.1
  cases identifiers.2
  rfl

end Version

end Kiyomi.Semantic
