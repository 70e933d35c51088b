import Mathlib.Data.List.DropRight
import Mathlib.Data.String.Basic

namespace Kiyomi.Go

/-! # Functions of the `strings` and `strconv` packages

A Go string that holds valid UTF-8 is a list of code points here. -/

/-- `unicode.IsSpace`. -/
def isSpace (c : Char) : Bool :=
  c == ' ' || ('\t' ≤ c && c ≤ '\r') || c.toNat == 0x85 || c.toNat == 0xA0 ||
    c.toNat == 0x1680 || (0x2000 ≤ c.toNat && c.toNat ≤ 0x200A) || c.toNat == 0x2028 ||
    c.toNat == 0x2029 || c.toNat == 0x202F || c.toNat == 0x205F || c.toNat == 0x3000

/-- Drop the characters that satisfy `cut` from both ends. -/
def trimChars (cut : Char → Bool) (s : List Char) : List Char :=
  ((s.dropWhile cut).reverse.dropWhile cut).reverse

/-- `strings.TrimSpace`. -/
def trimSpace (s : String) : String := String.ofList (trimChars isSpace s.toList)

theorem dropWhile_eq_self {cut : Char → Bool} {s : List Char} (kept : ∀ c ∈ s.head?, cut c = false) :
    s.dropWhile cut = s := by
  cases s with
  | nil => rfl
  | cons c rest => simp [kept c rfl]

theorem trimChars_trimChars (cut : Char → Bool) (s : List Char) :
    trimChars cut (trimChars cut s) = trimChars cut s := by
  have trimmed : (trimChars cut s).dropWhile cut = trimChars cut s := by
    apply dropWhile_eq_self
    intro c first
    have isPrefix : trimChars cut s <+: s.dropWhile cut := List.rdropWhile_prefix cut (s.dropWhile cut)
    rcases isPrefix with ⟨rest, parts⟩
    cases kept : trimChars cut s with
    | nil => simp [kept] at first
    | cons d remaining =>
        rw [kept, List.head?_cons, Option.mem_some_iff] at first
        rw [kept, List.cons_append] at parts
        have head := List.head?_dropWhile_not cut s
        rw [← parts, List.head?_cons, first] at head
        simpa using head
  rw [trimChars, trimmed, trimChars, List.reverse_reverse, List.dropWhile_idempotent]

theorem trimSpace_trimSpace (s : String) : trimSpace (trimSpace s) = trimSpace s := by
  rw [trimSpace, trimSpace, String.toList_ofList, trimChars_trimChars]

/-- The pieces between the separators. -/
def splitChars (separator : Char) : List Char → List (List Char)
  | [] => [[]]
  | c :: rest =>
      if c = separator then [] :: splitChars separator rest
      else
        match splitChars separator rest with
        | [] => [[c]]
        | piece :: pieces => (c :: piece) :: pieces

/-- `strings.Split` at a single character. -/
def split (s : String) (separator : Char) : List String :=
  (splitChars separator s.toList).map String.ofList

theorem split_of_absent {s : String} {separator : Char} (absent : separator ∉ s.toList) :
    split s separator = [s] := by
  have whole : ∀ chars : List Char, separator ∉ chars → splitChars separator chars = [chars] := by
    intro chars absent
    induction chars with
    | nil => rfl
    | cons c rest induction =>
        rw [List.mem_cons, not_or] at absent
        rw [splitChars, if_neg (Ne.symm absent.1), induction absent.2]
  rw [split, whole _ absent, List.map_singleton, String.ofList_toList]

theorem split_ne_nil (s : String) (separator : Char) : split s separator ≠ [] := by
  have pieces : ∀ chars : List Char, splitChars separator chars ≠ [] := by
    intro chars
    cases chars with
    | nil => simp [splitChars]
    | cons c rest =>
        rw [splitChars]
        split
        · simp
        · split <;> simp
  simpa [split] using pieces s.toList

/-- What stands before the first `separator`, and what stands after it if there is one:
`strings.Index` with the two slices it is used for. -/
def cut (separator : Char) : List Char → List Char × Option (List Char)
  | [] => ([], none)
  | c :: rest =>
      if c = separator then ([], some rest)
      else ((c :: (cut separator rest).1), (cut separator rest).2)

theorem cut_of_absent {separator : Char} {chars : List Char} (absent : separator ∉ chars) :
    cut separator chars = (chars, none) := by
  induction chars with
  | nil => rfl
  | cons c rest induction =>
      rw [List.mem_cons, not_or] at absent
      rw [cut, if_neg (Ne.symm absent.1), induction absent.2]

theorem cut_append {separator : Char} {before : List Char} (absent : separator ∉ before)
    (after : List Char) : cut separator (before ++ separator :: after) = (before, some after) := by
  induction before with
  | nil => simp [cut]
  | cons c rest induction =>
      rw [List.mem_cons, not_or] at absent
      rw [List.cons_append, cut, if_neg (Ne.symm absent.1), induction absent.2]

theorem not_mem_cut (separator : Char) (chars : List Char) :
    separator ∉ (cut separator chars).1 := by
  induction chars with
  | nil => exact List.not_mem_nil
  | cons c rest induction =>
      rw [cut]
      split
      · exact List.not_mem_nil
      · rename_i other
        exact fun member => (List.mem_cons.mp member).elim (other ·.symm) induction

theorem eq_of_cut {separator : Char} {chars before : List Char} {after : Option (List Char)}
    (parts : cut separator chars = (before, after)) :
    chars = before ++ (after.map (separator :: ·)).getD [] := by
  induction chars generalizing before with
  | nil =>
      cases parts
      rfl
  | cons c rest induction =>
      rw [cut] at parts
      split at parts
      · rename_i same
        cases parts
        rw [same]
        rfl
      · cases parts
        rw [List.cons_append, ← induction rfl]

/-- `strings.HasPrefix`. -/
def hasPrefix (s start : String) : Bool := start.toList.isPrefixOf s.toList

/-- `strings.Contains`. -/
def contains (s part : String) : Bool := s.toList.tails.any part.toList.isPrefixOf

def digitsValue (digits : List Char) : Nat :=
  digits.foldl (fun value digit => 10 * value + (digit.toNat - '0'.toNat)) 0

/-- `strconv.Atoi` on a platform with 64-bit integers. -/
def atoi (s : String) : Option Int :=
  let (negative, digits) :=
    match s.toList with
    | '-' :: digits => (true, digits)
    | '+' :: digits => (false, digits)
    | digits => (false, digits)
  if digits.isEmpty || !digits.all Char.isDigit then none
  else
    let value : Int := if negative then -digitsValue digits else digitsValue digits
    if -0x8000000000000000 ≤ value ∧ value < 0x8000000000000000 then some value else none

/-- The number that `strconv.ParseUint` returns beside its error: zero where it meets a
character that is no digit, the largest 64-bit number where it overflows before. -/
def parseUint (value : Nat) : List Char → Nat
  | [] => value
  | c :: rest =>
      if !c.isDigit then 0
      else
        let value := 10 * value + (c.toNat - '0'.toNat)
        if value < 0x10000000000000000 then parseUint value rest else 0xFFFFFFFFFFFFFFFF

/-- The sign that a number begins with, and the rest. -/
def cutSign : List Char → Bool × List Char
  | '-' :: digits => (true, digits)
  | '+' :: digits => (false, digits)
  | digits => (false, digits)

/-- The number that `strconv.Atoi` returns beside its error: zero for text that is no
number, the nearest 64-bit integer for one out of range. -/
def atoiValue (s : String) : Int :=
  let (negative, digits) := cutSign s.toList
  if negative then max (-0x8000000000000000) (-parseUint 0 digits)
  else min 0x7FFFFFFFFFFFFFFF (parseUint 0 digits)

/-- The sign that comparisons return. -/
def sign : Ordering → Int
  | .lt => -1
  | .eq => 0
  | .gt => 1

/-- `strings.Compare`; the order of the code points is that of their UTF-8 bytes. -/
def compareStrings (a b : String) : Int := sign (List.compareLex compare a.toList b.toList)

/-! ## Numbers as text -/

theorem digitsValue_toDigits (n : Nat) : digitsValue (Nat.toDigits 10 n) = n := by
  rw [digitsValue, ← Nat.ofDigitChars_eq_foldl, Nat.ofDigitChars_ten_toDigits]

theorem toList_toString_nat (n : Nat) : (toString n).toList = Nat.toDigits 10 n := by
  rw [Nat.toString_eq_repr, Nat.repr_eq_ofList_toDigits, String.toList_ofList]

theorem toList_toString_neg (n : Nat) :
    (toString (Int.negSucc n)).toList = '-' :: Nat.toDigits 10 (n + 1) := by
  change ("-" ++ toString (n + 1)).toList = _
  rw [String.toList_append, toList_toString_nat]
  rfl

theorem isDigit_toDigits (n : Nat) : (Nat.toDigits 10 n).all Char.isDigit = true :=
  List.all_eq_true.mpr fun _ member => Nat.isDigit_of_mem_toDigits (by decide) (by decide) member

/-- `strconv.Atoi` reads what `strconv.Itoa` writes. -/
theorem atoi_toString {i : Int} (range : -0x8000000000000000 ≤ i ∧ i < 0x8000000000000000) :
    atoi (toString i) = some i := by
  cases i with
  | ofNat n =>
      have chars : (toString (Int.ofNat n)).toList = Nat.toDigits 10 n := toList_toString_nat n
      have digits_only : (Nat.toDigits 10 n).all Char.isDigit = true := isDigit_toDigits n
      have value : digitsValue (Nat.toDigits 10 n) = n := digitsValue_toDigits n
      have some_digit : Nat.toDigits 10 n ≠ [] := Nat.toDigits_ne_nil
      have upper : (n : Int) < 0x8000000000000000 := range.2
      unfold atoi
      rw [chars]
      split
      rename_i negative digits sign
      split at sign
      · rename_i rest same
        rw [same] at digits_only
        simp at digits_only
      · rename_i rest same
        rw [same] at digits_only
        simp at digits_only
      · cases sign
        simp [digits_only, value, some_digit]
        omega
  | negSucc n =>
      have all := isDigit_toDigits (n + 1)
      have value := digitsValue_toDigits (n + 1)
      unfold atoi
      rw [toList_toString_neg]
      simp [all, value, Nat.toDigits_ne_nil]
      omega

theorem cutSign_digits (n : Nat) (rest : List Char) :
    cutSign (Nat.toDigits 10 n ++ rest) = (false, Nat.toDigits 10 n ++ rest) := by
  cases digits : Nat.toDigits 10 n with
  | nil => exact absurd digits Nat.toDigits_ne_nil
  | cons c more =>
      have isDigit := List.all_eq_true.mp (isDigit_toDigits n) c (digits ▸ List.mem_cons_self)
      rw [List.cons_append]
      unfold cutSign
      split
      · rename_i same
        cases same
        contradiction
      · rename_i same
        cases same
        contradiction
      · rfl

theorem le_foldl_digits (digits : List Char) (value : Nat) :
    value ≤ digits.foldl (fun value digit => 10 * value + (digit.toNat - '0'.toNat)) value := by
  induction digits generalizing value with
  | nil => exact le_rfl
  | cons c digits induction =>
      have more : value ≤ 10 * value + (c.toNat - '0'.toNat) := by omega
      exact more.trans (induction _)

theorem parseUint_append {digits : List Char} (isDigit : digits.all Char.isDigit = true)
    (rest : List Char) {value : Nat} (small : value < 0x10000000000000000) :
    parseUint value (digits ++ rest) =
      if digits.foldl (fun value digit => 10 * value + (digit.toNat - '0'.toNat)) value <
        0x10000000000000000 then
        parseUint (digits.foldl (fun value digit => 10 * value + (digit.toNat - '0'.toNat)) value)
          rest
      else 0xFFFFFFFFFFFFFFFF := by
  induction digits generalizing value with
  | nil => rw [List.nil_append, List.foldl_nil, if_pos small]
  | cons c digits induction =>
      rw [List.all_cons, Bool.and_eq_true] at isDigit
      rw [List.cons_append, parseUint, isDigit.1, List.foldl_cons]
      simp only [Bool.not_true, Bool.false_eq_true, if_false]
      split
      · rename_i next
        exact induction isDigit.2 next
      · rename_i overflow
        have above := (not_lt.mp overflow).trans (le_foldl_digits digits _)
        rw [if_neg (not_lt.mpr above)]

theorem parseUint_digits (n : Nat) (rest : List Char) :
    parseUint 0 (Nat.toDigits 10 n ++ rest) =
      if n < 0x10000000000000000 then parseUint n rest else 0xFFFFFFFFFFFFFFFF := by
  rw [parseUint_append (isDigit_toDigits n) rest (by decide), ← digitsValue, digitsValue_toDigits]

theorem atoiValue_digits (n : Nat) :
    atoiValue (String.ofList (Nat.toDigits 10 n)) = min 0x7FFFFFFFFFFFFFFF (n : Int) := by
  have unsigned := cutSign_digits n []
  have value := parseUint_digits n []
  rw [List.append_nil] at unsigned value
  rw [atoiValue, String.toList_ofList, unsigned]
  simp only [Bool.false_eq_true, if_false, value, parseUint]
  split
  · rfl
  · omega

/-- A number with something behind it that is no digit. -/
theorem atoiValue_stopped (n : Nat) {c : Char} (noDigit : c.isDigit = false) (rest : List Char) :
    atoiValue (String.ofList (Nat.toDigits 10 n ++ c :: rest)) =
      if n < 0x10000000000000000 then 0 else 0x7FFFFFFFFFFFFFFF := by
  rw [atoiValue, String.toList_ofList, cutSign_digits]
  simp only [Bool.false_eq_true, if_false, parseUint_digits, parseUint, noDigit, Bool.not_false,
    if_true]
  split <;> rfl

theorem atoi_eq (s : String) : atoi s =
    if (cutSign s.toList).2.isEmpty || !(cutSign s.toList).2.all Char.isDigit then none
    else
      let value : Int := if (cutSign s.toList).1 then -digitsValue (cutSign s.toList).2
        else digitsValue (cutSign s.toList).2
      if -0x8000000000000000 ≤ value ∧ value < 0x8000000000000000 then some value else none := rfl

theorem atoi_digits (n : Nat) : atoi (String.ofList (Nat.toDigits 10 n)) =
    if n < 0x8000000000000000 then some (n : Int) else none := by
  have unsigned := cutSign_digits n []
  rw [List.append_nil] at unsigned
  rw [atoi_eq, String.toList_ofList, unsigned]
  simp only [isDigit_toDigits, digitsValue_toDigits, Bool.not_true, Bool.or_false,
    List.isEmpty_eq_false_iff.mpr Nat.toDigits_ne_nil, Bool.false_eq_true, if_false]
  by_cases small : n < 0x8000000000000000
  · rw [if_pos small, if_pos (by omega)]
  · rw [if_neg small, if_neg (by omega)]

theorem atoi_stopped (n : Nat) {c : Char} (noDigit : c.isDigit = false) (rest : List Char) :
    atoi (String.ofList (Nat.toDigits 10 n ++ c :: rest)) = none := by
  rw [atoi_eq, String.toList_ofList, cutSign_digits]
  simp [noDigit]

theorem mem_toString {i : Int} {c : Char} (member : c ∈ (toString i).toList) :
    c.isDigit = true ∨ c = '-' := by
  have digit : ∀ {n}, c ∈ Nat.toDigits 10 n → c.isDigit = true := fun member =>
    Nat.isDigit_of_mem_toDigits (by decide) (by decide) member
  cases i with
  | ofNat n =>
      change c ∈ (toString n).toList at member
      rw [toList_toString_nat] at member
      exact .inl (digit member)
  | negSucc n =>
      rw [toList_toString_neg, List.mem_cons] at member
      rcases member with rfl | member
      · exact .inr rfl
      · exact .inl (digit member)

end Kiyomi.Go
