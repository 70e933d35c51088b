import Kiyomi.Go.Url
import Mathlib.Algebra.Ring.Int.Defs

namespace Kiyomi.Go

/-! # Integers of 64 bits -/

/-- The value that `int` keeps of a sum. -/
def int64 (n : Int) : Int := Int.bmod n (2 ^ 64)

def maxInt : Int := 2 ^ 63 - 1

theorem int64_of_range {n : Int} (nonneg : 0 ≤ n) (small : n ≤ maxInt) : int64 n = n := by
  have small : n ≤ 2 ^ 63 - 1 := small
  rw [int64]
  exact Int.bmod_eq_of_le (by omega) (by omega)

namespace Strconv

open Url

/-! ## `strconv`, on bytes -/

def minusSign : UInt8 := 0x2D

/-- The value of a digit, with letters of either case for those above nine. -/
def digitValue (c : UInt8) : Option Nat :=
  if isDigit c then some (c.toNat - 0x30)
  else if isLetter c then some ((toLower c).toNat - 0x61 + 10)
  else none

/-- The value of one more digit. -/
def addDigit (base value : Nat) (c : UInt8) : Option Nat :=
  (digitValue c).bind fun digit => if digit < base then some (base * value + digit) else none

def digitsValue (base : Nat) (digits : List UInt8) : Option Nat :=
  if digits = [] then none else digits.foldlM (addDigit base) 0

/-- Whether there is a minus sign, and what follows the sign. -/
def cutSign : List UInt8 → Bool × List UInt8
  | [] => (false, [])
  | c :: digits =>
      if c = minusSign then (true, digits)
      else if c = plus then (false, digits)
      else (false, c :: digits)

/-- `strconv.ParseInt` in a base from 2 to 36, of 64 bits; `none` for an error. -/
def parseIntIn (base : Nat) (s : List UInt8) : Option Int :=
  (digitsValue base (cutSign s).2).bind fun value =>
    if (cutSign s).1 then
      if value ≤ 0x8000000000000000 then some (-value : Int) else none
    else if value < 0x8000000000000000 then some (value : Int)
    else none

/-- The base that the start of a number names, and its digits. -/
def inferBase : List UInt8 → Nat × List UInt8
  | 0x30 :: c :: digits =>
      if toLower c = 0x62 ∧ digits ≠ [] then (2, digits)
      else if toLower c = 0x6F ∧ digits ≠ [] then (8, digits)
      else if toLower c = 0x78 ∧ digits ≠ [] then (16, digits)
      else (8, c :: digits)
  | digits => (10, digits)

/-- `strconv.ParseInt` of 64 bits, of a text without underscores. -/
def parseInt (base : Nat) (s : List UInt8) : Option Int :=
  if 2 ≤ base ∧ base ≤ 36 then parseIntIn base s
  else if base = 0 then
    let inferred := inferBase (cutSign s).2
    if (cutSign s).1 then (parseIntIn inferred.1 (minusSign :: inferred.2))
    else parseIntIn inferred.1 (plus :: inferred.2)
  else none

/-- `strconv.Atoi`, where an integer has 64 bits. -/
def atoi (s : List UInt8) : Option Int := parseIntIn 10 s

/-! ## Numbers without a sign -/

variable {base : Nat} {s : List UInt8}

theorem cutSign_of_alnum (alnum : s.all isAlnum = true) : cutSign s = (false, s) := by
  rcases s with _ | ⟨c, s⟩
  · rfl
  · rw [List.all_cons, Bool.and_eq_true] at alnum
    have noMinus : c ≠ minusSign := by
      rintro rfl
      exact absurd alnum.1 (by decide)
    have noPlus : c ≠ plus := by
      rintro rfl
      exact absurd alnum.1 (by decide)
    rw [cutSign, if_neg noMinus, if_neg noPlus]

/-- The digits of a number, read without its sign. -/
theorem parseIntIn_of_digits {value : Nat} (alnum : s.all isAlnum = true)
    (read : digitsValue base s = some value) (small : value ≤ maxInt) :
    parseIntIn base s = some (value : Int) := by
  have bound : value < 0x8000000000000000 := by
    have small : (value : Int) ≤ 2 ^ 63 - 1 := small
    omega
  rw [parseIntIn, cutSign_of_alnum alnum, read, Option.bind_some, if_neg Bool.false_ne_true]
  exact if_pos bound

end Strconv

end Kiyomi.Go
