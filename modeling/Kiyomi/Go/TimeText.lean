import Kiyomi.Foundation.Numerals
import Kiyomi.Go.Calendar
import Mathlib.Data.Char
import Mathlib.Data.String.Basic
import Mathlib.Data.List.DropRight
import Mathlib.Tactic.IntervalCases

namespace Kiyomi.Go

open Numerals

/-! # The text of a time

The text that `Format` writes, field by field: how two texts compare, and what `Parse` reads. -/

/-! ## Digits -/

theorem digit_mod (n : Nat) : digit (n % 10) = digit n := by
  rw [digit, digit, Nat.mod_mod]

theorem digitValue?_digit (n : Nat) : digitValue? (digit n) = some ((n % 10 : Nat) : Int) := by
  have small : n % 10 < 10 := Nat.mod_lt n (by decide)
  rw [← digit_mod]
  interval_cases n % 10 <;> decide

theorem digit_lt_digit_iff (c d : Nat) (left : c < 10) (right : d < 10) :
    digit c < digit d ↔ c < d := by
  interval_cases c <;> interval_cases d <;> decide

/-- The decimal numeral of a width. -/
abbrev digits (width n : Nat) : List Char := numeral 10 digit width n

theorem digits_succ (width n : Nat) : digits (width + 1) n = digits width (n / 10) ++ [digit n] := by
  rw [digits, numeral, digit_mod]

theorem padded_decimalDigits {fuel n : Nat} (width : Nat) (enough : n < fuel)
    (small : n < 10 ^ (width + 1)) :
    List.replicate (width + 1 - (decimalDigits fuel n).length) '0' ++ decimalDigits fuel n =
      digits (width + 1) n := by
  induction width generalizing fuel n with
  | zero =>
      cases fuel with
      | zero => contradiction
      | succ fuel =>
          have single : n < 10 := by simpa using small
          rw [decimalDigits, if_pos single, digits_succ]
          rfl
  | succ width induction =>
      cases fuel with
      | zero => contradiction
      | succ fuel =>
          rw [decimalDigits, digits_succ]
          by_cases single : n < 10
          · have nothing : n / 10 = 0 := Nat.div_eq_of_lt single
            rw [if_pos single, nothing, digits, numeral_zero]
            rfl
          · have rest : n / 10 < 10 ^ (width + 1) := by
              rw [Nat.div_lt_iff_lt_mul (by decide), ← Nat.pow_succ]
              exact small
            have shorter : n / 10 < fuel := by omega
            rw [if_neg single, ← induction shorter rest, List.length_append, List.length_singleton,
              Nat.add_sub_add_right, List.append_assoc]

theorem appendInt_eq {n width : Nat} (positive : 0 < width) (small : n < 10 ^ width) :
    appendInt n width = digits width n := by
  obtain ⟨width, rfl⟩ := Nat.exists_eq_succ_of_ne_zero positive.ne'
  have natural : ¬(n : Int) < 0 := by omega
  rw [appendInt, if_neg natural, List.nil_append, Int.natAbs_natCast]
  exact padded_decimalDigits width n.lt_succ_self small

theorem getnum_digits {n : Nat} (small : n < 100) (fixed : Bool) (rest : List Char) :
    getnum fixed (digits 2 n ++ rest) = some ((n : Int), rest) := by
  have parts : digits 2 n = [digit (n / 10), digit n] := by
    rw [digits_succ, digits_succ]
    rfl
  rw [parts, List.cons_append, List.cons_append, List.nil_append, getnum]
  simp only [digitValue?_digit, Option.some.injEq, Prod.mk.injEq, and_true]
  omega

theorem getYear_digits {n : Nat} (small : n < 10000) (rest : List Char) :
    getYear (digits 4 n ++ rest) = some ((n : Int), rest) := by
  have parts : digits 4 n =
      [digit (n / 10 / 10 / 10), digit (n / 10 / 10), digit (n / 10), digit n] := by
    rw [digits_succ, digits_succ, digits_succ, digits_succ]
    rfl
  rw [parts]
  simp only [List.cons_append, List.nil_append, getYear, digitValue?_digit, Option.bind_eq_bind,
    Option.bind_some, Option.pure_def, Option.some.injEq, Prod.mk.injEq, and_true]
  omega

/-! ## Fields -/

/-- Two numerals behind which a character stands. -/
theorem field_lt_iff {width m n : Nat} (left : m < 10 ^ width) (right : n < 10 ^ width) (c : Char)
    (s t : List Char) :
    digits width m ++ c :: s < digits width n ++ c :: t ↔ m < n ∨ m = n ∧ s < t := by
  have ordered := numeral_lt_iff digit_lt_digit_iff (by decide) left right
  have same : digits width m = digits width n ↔ m = n := numeral_inj digit_lt_digit_iff (by decide) left right
  rw [append_lt_append_iff (by rw [length_numeral, length_numeral]), ordered, same,
    List.cons_lt_cons_iff]
  simp

/-- The date and the clock reading, for the seconds since 1970 by the clock of the zone. -/
def stamp (seconds : Int) : List Char :=
  let civil := civilOfDays (seconds / 86400)
  let clock := seconds % 86400
  appendInt civil.year 4 ++ '-' :: appendInt civil.month 2 ++ '-' :: appendInt civil.day 2 ++
    'T' :: appendInt (clock / 3600) 2 ++ ':' :: appendInt (clock % 3600 / 60) 2 ++
    ':' :: appendInt (clock % 60) 2

/-- The seconds by the clock of the zone. -/
def Time.clock (t : Time) : Int := t.unixNano / 1000000000 + t.offset

def Time.nanosecond (t : Time) : Int := t.unixNano % 1000000000

/-- `t.Year()`. -/
def Time.year (t : Time) : Int := (civilOfDays (t.clock / 86400)).year

theorem format_eq (t : Time) :
    t.format.toList = stamp t.clock ++ (appendNano t.nanosecond ++ appendZone t.offset) := by
  simp only [Time.format, String.toList_ofList, stamp, List.append_assoc, List.cons_append,
    Time.clock, Time.nanosecond]

/-- The numbers of a date and of a clock reading. -/
structure Fields where
  year : Nat
  month : Nat
  day : Nat
  hour : Nat
  minute : Nat
  second : Nat
  fits : year < 10000 ∧ month < 100 ∧ day < 100 ∧ hour < 100 ∧ minute < 100 ∧ second < 100

namespace Fields

def text (f : Fields) : List Char :=
  digits 4 f.year ++ '-' :: (digits 2 f.month ++ '-' :: (digits 2 f.day ++
    'T' :: (digits 2 f.hour ++ ':' :: (digits 2 f.minute ++ ':' :: digits 2 f.second))))

theorem length_text (f : Fields) : f.text.length = 19 := by
  simp only [text, List.length_append, List.length_cons, length_numeral]

theorem text_lt_iff (f g : Fields) : f.text < g.text ↔
    f.year < g.year ∨ f.year = g.year ∧ (f.month < g.month ∨ f.month = g.month ∧
      (f.day < g.day ∨ f.day = g.day ∧ (f.hour < g.hour ∨ f.hour = g.hour ∧
        (f.minute < g.minute ∨ f.minute = g.minute ∧ f.second < g.second)))) := by
  have left := f.fits
  have right := g.fits
  rw [text, text, field_lt_iff left.1 right.1, field_lt_iff left.2.1 right.2.1,
    field_lt_iff left.2.2.1 right.2.2.1, field_lt_iff left.2.2.2.1 right.2.2.2.1,
    field_lt_iff left.2.2.2.2.1 right.2.2.2.2.1,
    numeral_lt_iff digit_lt_digit_iff (by decide) left.2.2.2.2.2 right.2.2.2.2.2]

end Fields

theorem appendInt_toNat {x : Int} {width : Nat} (positive : 0 < width) (natural : 0 ≤ x)
    (small : x.toNat < 10 ^ width) : appendInt x width = digits width x.toNat := by
  rw [← appendInt_eq positive small, Int.toNat_of_nonneg natural]

/-- Seconds in a year of four digits have these fields. -/
theorem exists_fields {seconds : Int} (year : 0 ≤ (civilOfDays (seconds / 86400)).year ∧
    (civilOfDays (seconds / 86400)).year ≤ 9999) :
    ∃ f : Fields, stamp seconds = f.text ∧
      civilOfDays (seconds / 86400) = { year := f.year, month := f.month, day := f.day } ∧
      seconds % 86400 = f.hour * 3600 + f.minute * 60 + f.second ∧
      f.hour < 24 ∧ f.minute < 60 ∧ f.second < 60 := by
  have valid := civilOfDays_valid (seconds / 86400)
  have month := valid.1
  have days : daysIn (civilOfDays (seconds / 86400)).month (civilOfDays (seconds / 86400)).year ≤
      31 := by
    rw [daysIn]
    split
    · split <;> decide
    · split <;> decide
  have day := valid.2
  generalize isCivil : civilOfDays (seconds / 86400) = civil at *
  refine ⟨⟨civil.year.toNat, civil.month.toNat, civil.day.toNat, (seconds % 86400 / 3600).toNat,
    (seconds % 86400 % 3600 / 60).toNat, (seconds % 86400 % 60).toNat, by omega⟩, ?_, ?_, ?_, ?_⟩
  · simp only [stamp, isCivil, Fields.text]
    rw [appendInt_toNat (by decide) (by omega) (by omega),
      appendInt_toNat (by decide) (by omega) (by omega),
      appendInt_toNat (by decide) (by omega) (by omega),
      appendInt_toNat (by decide) (by omega) (by omega),
      appendInt_toNat (by decide) (by omega) (by omega),
      appendInt_toNat (by decide) (by omega) (by omega)]
    simp only [List.append_assoc, List.cons_append]
  · dsimp only
    rw [Int.toNat_of_nonneg year.1, Int.toNat_of_nonneg (by omega), Int.toNat_of_nonneg (by omega)]
  · dsimp only
    omega
  · dsimp only
    omega

theorem stamp_lt_stamp {seconds later : Int} (year : 0 ≤ (civilOfDays (seconds / 86400)).year ∧
    (civilOfDays (seconds / 86400)).year ≤ 9999)
    (yearLater : 0 ≤ (civilOfDays (later / 86400)).year ∧
      (civilOfDays (later / 86400)).year ≤ 9999) (less : seconds < later) :
    stamp seconds < stamp later := by
  rcases exists_fields year with ⟨f, isText, isCivil, isClock, clock⟩
  rcases exists_fields yearLater with ⟨g, isTextLater, isCivilLater, isClockLater, clockLater⟩
  rw [isText, isTextLater, Fields.text_lt_iff]
  have notLater : seconds / 86400 ≤ later / 86400 := by omega
  rcases lt_or_eq_of_le notLater with days | sameDay
  · have inOrder := civilOfDays_lt days
    rw [isCivil, isCivilLater] at inOrder
    dsimp only at inOrder
    omega
  · rw [sameDay, isCivilLater, Civil.mk.injEq] at isCivil
    have clocks : seconds % 86400 < later % 86400 := by omega
    omega

theorem stamp_lt_iff {seconds other : Int} (year : 0 ≤ (civilOfDays (seconds / 86400)).year ∧
    (civilOfDays (seconds / 86400)).year ≤ 9999)
    (yearOther : 0 ≤ (civilOfDays (other / 86400)).year ∧
      (civilOfDays (other / 86400)).year ≤ 9999) :
    stamp seconds < stamp other ↔ seconds < other := by
  rcases lt_trichotomy seconds other with less | rfl | greater
  · exact iff_of_true (stamp_lt_stamp year yearOther less) less
  · exact iff_of_false (lt_irrefl _) (lt_irrefl _)
  · exact iff_of_false (stamp_lt_stamp yearOther year greater).asymm greater.asymm

/-! ## Fractions -/

/-- The nine digits of the nanoseconds without the zeros at their end. -/
def decimals (nanosecond : Int) : List Char := (appendInt nanosecond 9).rdropWhile (· == '0')

theorem appendNano_eq (nanosecond : Int) : appendNano nanosecond =
    if decimals nanosecond = [] then [] else '.' :: decimals nanosecond := by
  change (if (decimals nanosecond).isEmpty then [] else '.' :: decimals nanosecond) = _
  cases decimals nanosecond <;> rfl

theorem digit_bounds (n : Nat) : '0' ≤ digit n ∧ digit n ≤ '9' := by
  have small : n % 10 < 10 := Nat.mod_lt n (by decide)
  rw [← digit_mod]
  interval_cases n % 10 <;> decide

theorem digits_bounds (width n : Nat) : ∀ c ∈ digits width n, '0' ≤ c ∧ c ≤ '9' := by
  induction width generalizing n with
  | zero => exact fun c member => absurd member List.not_mem_nil
  | succ width induction =>
      rw [digits_succ, List.forall_mem_append, List.forall_mem_singleton]
      exact ⟨induction (n / 10), digit_bounds n⟩

/-- The decimals of a larger fraction are larger where they differ first, or they go on. -/
theorem decimals_cases {m n : Int} (natural : 0 ≤ m) (less : m < n) (small : n < 1000000000) :
    (∃ front x y s t, x < y ∧ decimals m = front ++ x :: s ∧ decimals n = front ++ y :: t) ∨
      ∃ y t, ('0' ≤ y ∧ y ≤ '9') ∧ decimals n = decimals m ++ y :: t := by
  have isLeft : appendInt m 9 = digits 9 m.toNat :=
    appendInt_toNat (by decide) natural (by omega)
  have isRight : appendInt n 9 = digits 9 n.toNat :=
    appendInt_toNat (by decide) (by omega) (by omega)
  have inOrder : digits 9 m.toNat < digits 9 n.toNat :=
    (numeral_lt_iff digit_lt_digit_iff (by decide) (by omega) (by omega)).mpr (by omega)
  rw [decimals, decimals, isLeft, isRight]
  rcases trimmed_cases (fun c member => (digits_bounds _ _ c member).1)
      (by rw [length_numeral, length_numeral]) inOrder with differ | ⟨y, t, member, parts⟩
  · exact .inl differ
  · exact .inr ⟨y, t, digits_bounds _ _ y member, parts⟩

section Tails

variable {m n : Int} {zone : Char} (natural : 0 ≤ m) (less : m < n) (small : n < 1000000000)
  (s t : List Char)

include natural less small

/-- `Z` is above the decimals that could stand in its place. -/
theorem appendNano_lt_of_continued (isUTC : zone = 'Z')
    (continued : decimals m <+: decimals n) :
    appendNano n ++ t < appendNano m ++ zone :: s := by
  rcases decimals_cases natural less small with
    ⟨front, x, y, u, v, differ, isLeft, isRight⟩ | ⟨y, v, bounds, goes⟩
  · rw [isLeft, isRight, List.prefix_append_right_inj, List.cons_prefix_cons] at continued
    exact absurd continued.1 differ.ne
  · have below : y < zone := isUTC ▸ bounds.2.trans_lt (by decide)
    have right : appendNano n = '.' :: (decimals m ++ y :: v) := by
      rw [appendNano_eq, if_neg (by simp [goes]), goes]
    rw [right, appendNano_eq]
    split
    · rw [List.nil_append, List.cons_append, List.cons_lt_cons_iff, isUTC]
      exact .inl (by decide)
    · rw [List.cons_append, List.cons_append, List.append_assoc, List.cons_append,
        List.cons_lt_cons_iff, append_lt_append_left_iff, List.cons_lt_cons_iff]
      exact .inr ⟨rfl, .inl below⟩

/-- Another zone is below them. -/
theorem appendNano_lt_of_not_continued (signed : zone = 'Z' ∨ zone = '+' ∨ zone = '-')
    (other : ¬(zone = 'Z' ∧ decimals m <+: decimals n)) :
    appendNano m ++ zone :: s < appendNano n ++ t := by
  rcases decimals_cases natural less small with
    ⟨front, x, y, u, v, differ, isLeft, isRight⟩ | ⟨y, v, bounds, goes⟩
  · rw [appendNano_eq, appendNano_eq, if_neg (by simp [isLeft]), if_neg (by simp [isRight]), isLeft,
      isRight, List.cons_append, List.cons_append, List.append_assoc, List.append_assoc,
      List.cons_lt_cons_iff, append_lt_append_left_iff, List.cons_append, List.cons_append,
      List.cons_lt_cons_iff]
    exact .inr ⟨rfl, .inl differ⟩
  · have isSign : zone = '+' ∨ zone = '-' := signed.resolve_left fun isUTC =>
      other ⟨isUTC, ⟨y :: v, goes.symm⟩⟩
    have belowPoint : zone < '.' := by rcases isSign with rfl | rfl <;> decide
    have below : zone < y := belowPoint.trans (lt_of_lt_of_le (by decide) bounds.1)
    have right : appendNano n = '.' :: (decimals m ++ y :: v) := by
      rw [appendNano_eq, if_neg (by simp [goes]), goes]
    rw [right, appendNano_eq]
    split
    · rw [List.nil_append, List.cons_append, List.cons_lt_cons_iff]
      exact .inl belowPoint
    · rw [List.cons_append, List.cons_append, List.append_assoc, List.cons_append,
        List.cons_lt_cons_iff, append_lt_append_left_iff, List.cons_lt_cons_iff]
      exact .inr ⟨rfl, .inl below⟩

end Tails

/-! ## Zones -/

/-- Hours and minutes. -/
def hoursMinutes (minutes : Nat) : List Char :=
  digits 2 (minutes / 60) ++ ':' :: digits 2 (minutes % 60)

theorem hoursMinutes_lt_iff {j k : Nat} (left : j < 6000) (right : k < 6000) :
    hoursMinutes j < hoursMinutes k ↔ j < k := by
  rw [hoursMinutes, hoursMinutes, field_lt_iff (by omega) (by omega),
    numeral_lt_iff digit_lt_digit_iff (by decide) (by omega) (by omega)]
  exact div_mod_lt_iff

/-- The zone has whole minutes, and fewer than 25 hours of them. -/
def IsPortable (offset : Int) : Prop := offset % 60 = 0 ∧ -90000 < offset ∧ offset < 90000

instance (offset : Int) : Decidable (IsPortable offset) := inferInstanceAs (Decidable (_ ∧ _))

theorem appendZone_eq {offset : Int} (small : (offset.tdiv 60).natAbs < 6000) :
    appendZone offset = if offset = 0 then ['Z'] else
      (if offset.tdiv 60 < 0 then '-' else '+') :: hoursMinutes (offset.tdiv 60).natAbs := by
  rw [appendZone, hoursMinutes]
  split
  · rfl
  · generalize offset.tdiv 60 = zone at small ⊢
    have hours : ((zone.natAbs : Int) / 60) = ((zone.natAbs / 60 : Nat) : Int) := by omega
    have minutes : ((zone.natAbs : Int) % 60) = ((zone.natAbs % 60 : Nat) : Int) := by omega
    dsimp only
    rw [hours, minutes, appendInt_eq (by decide) (by omega), appendInt_eq (by decide) (by omega),
      List.cons_append]

/-- Zones as texts: those east of Greenwich come first and `Z` last, and on either side a zone
that is further away comes later. -/
theorem appendZone_lt_iff {offset other : Int} (portable : IsPortable offset)
    (portableOther : IsPortable other) : appendZone offset < appendZone other ↔
      (0 < offset ∧ (other ≤ 0 ∨ offset < other)) ∨
        (offset < 0 ∧ (other = 0 ∨ other < 0 ∧ other < offset)) := by
  rw [IsPortable] at portable portableOther
  have minutes : offset.tdiv 60 * 60 = offset := Int.tdiv_mul_cancel (by omega)
  have minutesOther : other.tdiv 60 * 60 = other := Int.tdiv_mul_cancel (by omega)
  rw [appendZone_eq (by omega), appendZone_eq (by omega)]
  have inOrder := hoursMinutes_lt_iff (j := (offset.tdiv 60).natAbs) (k := (other.tdiv 60).natAbs)
    (by omega) (by omega)
  generalize offset.tdiv 60 = zone at *
  generalize other.tdiv 60 = zoneOther at *
  split_ifs <;>
    simp only [List.cons_lt_cons_iff, inOrder, Char.reduceLT, Char.reduceEq, List.not_lt_nil,
      lt_irrefl, true_and, false_and, false_or, or_false, true_iff, false_iff] <;>
    omega

/-! ## What `Parse` reads -/

theorem bind_of_eq_some {α β : Type} {o : Option α} {a : α} {f : α → Option β}
    (isSome : o = some a) : o.bind f = f a := by
  rw [isSome, Option.bind_some]

theorem expect_self (c : Char) (rest : List Char) : expect c (c :: rest) = some rest :=
  if_pos (beq_self_eq_true c)

theorem inRange_self {low high value : Int} (inside : low ≤ value ∧ value ≤ high) :
    inRange low high value = some () := if_pos inside

theorem digitValue?_isSome_iff (c : Char) :
    (digitValue? c).isSome = true ↔ '0' ≤ c ∧ c ≤ '9' := by
  rw [digitValue?]
  split <;> simp [*]

theorem foldl_digits {width n : Nat} (small : n < 10 ^ width) :
    (digits width n).foldl (fun value c => value * 10 + (digitValue? c).getD 0) 0 = (n : Int) := by
  induction width generalizing n with
  | zero =>
      rw [Nat.pow_zero, Nat.lt_one_iff] at small
      rw [small]
      rfl
  | succ width induction =>
      have rest : n / 10 < 10 ^ width := by
        rw [Nat.div_lt_iff_lt_mul (by decide), ← Nat.pow_succ]
        exact small
      rw [digits_succ, List.foldl_append, induction rest, List.foldl_cons, List.foldl_nil,
        digitValue?_digit, Option.getD_some]
      omega

theorem parseNanoseconds_decimals {nanosecond : Int}
    (range : 0 ≤ nanosecond ∧ nanosecond < 1000000000) :
    parseNanoseconds (decimals nanosecond) = nanosecond := by
  have padded := take_rdropWhile_append '0' (digits 9 nanosecond.toNat)
  rw [length_numeral] at padded
  rw [parseNanoseconds, decimals, appendInt_toNat (by decide) range.1 (by omega), padded,
    foldl_digits (by omega), Int.toNat_of_nonneg range.1]

theorem getFraction_appendNano {nanosecond : Int}
    (range : 0 ≤ nanosecond ∧ nanosecond < 1000000000) {zone : Char} (rest : List Char)
    (sign : zone = 'Z' ∨ zone = '+' ∨ zone = '-') :
    getFraction (appendNano nanosecond ++ zone :: rest) = (nanosecond, zone :: rest) := by
  have isValue := parseNanoseconds_decimals range
  have areDigits : ∀ c ∈ decimals nanosecond, (digitValue? c).isSome = true := by
    intro c member
    rw [digitValue?_isSome_iff]
    rw [decimals, appendInt_toNat (by decide) range.1 (by omega)] at member
    exact digits_bounds _ _ c ((List.rdropWhile_prefix _ _).subset member)
  have noDigit : (digitValue? zone).isSome = false := by rcases sign with rfl | rfl | rfl <;> rfl
  have noPoint : (zone == '.' || zone == ',') = false := by
    rcases sign with rfl | rfl | rfl <;> rfl
  rw [appendNano_eq]
  cases written : decimals nanosecond with
  | nil =>
      rw [written] at isValue
      rw [if_pos rfl, List.nil_append, ← isValue]
      cases rest with
      | nil => rfl
      | cons c rest =>
          rw [getFraction, noPoint, Bool.false_and]
          rfl
  | cons d others =>
      rw [written] at isValue areDigits
      have whole : ((d :: others) ++ zone :: rest).takeWhile (fun c => (digitValue? c).isSome) =
          d :: others := by
        rw [List.takeWhile_append_of_pos areDigits, List.takeWhile_cons_of_neg (by simp [noDigit]),
          List.append_nil]
      have behind : ((d :: others) ++ zone :: rest).dropWhile (fun c => (digitValue? c).isSome) =
          zone :: rest := by
        rw [List.dropWhile_append_of_pos areDigits, List.dropWhile_cons_of_neg (by simp [noDigit])]
      have isPoint : (('.' == '.' || '.' == ',') && (digitValue? d).isSome) = true := by
        simp [areDigits d List.mem_cons_self]
      rw [if_neg (List.cons_ne_nil d others), List.cons_append, List.cons_append, getFraction,
        if_pos isPoint]
      dsimp only
      rw [← List.cons_append, whole, behind, isValue]

/-- The zone decides what is read behind a date and a clock reading. -/
theorem parse_fields {f : Fields} {days clock nanosecond : Int} {zone : Char} (rest : List Char)
    (isDate : civilOfDays days = { year := f.year, month := f.month, day := f.day })
    (isClock : clock = f.hour * 3600 + f.minute * 60 + f.second)
    (hour : f.hour < 24) (minute : f.minute < 60) (second : f.second < 60)
    (range : 0 ≤ nanosecond ∧ nanosecond < 1000000000)
    (sign : zone = 'Z' ∨ zone = '+' ∨ zone = '-') :
    parse (String.ofList (f.text ++ (appendNano nanosecond ++ zone :: rest))) =
      (getZone (zone :: rest)).bind fun found =>
        if found.2 = [] then
          some ⟨(days * 86400 + clock - found.1) * 1000000000 + nanosecond, found.1⟩
        else none := by
  have valid := civilOfDays_valid days
  have isDays := daysOfCivil_civilOfDays days
  rw [isDate] at valid isDays
  dsimp only at valid
  have fits := f.fits
  rw [parse, String.toList_ofList, Fields.text]
  simp only [List.append_assoc, List.cons_append]
  refine (bind_of_eq_some (getYear_digits fits.1 _)).trans ?_
  refine (bind_of_eq_some (expect_self '-' _)).trans ?_
  refine (bind_of_eq_some (getnum_digits fits.2.1 true _)).trans ?_
  refine (bind_of_eq_some (inRange_self (by omega))).trans ?_
  refine (bind_of_eq_some (expect_self '-' _)).trans ?_
  refine (bind_of_eq_some (getnum_digits fits.2.2.1 true _)).trans ?_
  refine (bind_of_eq_some (expect_self 'T' _)).trans ?_
  refine (bind_of_eq_some (getnum_digits fits.2.2.2.1 false _)).trans ?_
  refine (bind_of_eq_some (inRange_self (by omega))).trans ?_
  refine (bind_of_eq_some (expect_self ':' _)).trans ?_
  refine (bind_of_eq_some (getnum_digits fits.2.2.2.2.1 true _)).trans ?_
  refine (bind_of_eq_some (inRange_self (by omega))).trans ?_
  refine (bind_of_eq_some (expect_self ':' _)).trans ?_
  refine (bind_of_eq_some (getnum_digits fits.2.2.2.2.2 true _)).trans ?_
  refine (bind_of_eq_some (inRange_self (by omega))).trans ?_
  rw [getFraction_appendNano range rest sign]
  refine Option.bind_congr fun found _ => ?_
  by_cases whole : found.2 = []
  · have sum : days * 86400 + clock = days * 86400 + f.hour * 3600 + f.minute * 60 + f.second := by
      omega
    rw [if_neg (not_not.mpr whole), if_pos whole, sum]
    refine (bind_of_eq_some (inRange_self valid.2)).trans ?_
    dsimp only
    rw [isDays]
    rfl
  · rw [if_pos whole, if_neg whole]
    rfl

/-! ## Reading zones -/

/-- How the text of a zone starts. -/
def zoneSign (offset : Int) : Char :=
  if offset = 0 then 'Z' else if offset.tdiv 60 < 0 then '-' else '+'

theorem zoneSign_cases (offset : Int) :
    zoneSign offset = 'Z' ∨ zoneSign offset = '+' ∨ zoneSign offset = '-' := by
  rw [zoneSign]
  split_ifs <;> simp

theorem zoneSign_eq_iff {offset : Int} : zoneSign offset = 'Z' ↔ offset = 0 := by
  rw [zoneSign]
  split_ifs <;> simp [*]

theorem appendZone_cons (offset : Int) : ∃ rest, appendZone offset = zoneSign offset :: rest := by
  rw [appendZone, zoneSign]
  split
  · exact ⟨[], rfl⟩
  · exact ⟨_, List.cons_append⟩

theorem decimalDigits_bounds {fuel n : Nat} (c : Char) (member : c ∈ decimalDigits fuel n) :
    '0' ≤ c ∧ c ≤ '9' := by
  induction fuel generalizing n with
  | zero => exact absurd member List.not_mem_nil
  | succ fuel induction =>
      rw [decimalDigits] at member
      split at member
      · rw [List.mem_singleton] at member
        exact member ▸ digit_bounds n
      · rcases List.mem_append.mp member with early | last
        · exact induction early
        · rw [List.mem_singleton] at last
          exact last ▸ digit_bounds n

theorem length_decimalDigits {fuel n : Nat} (enough : n < fuel) (large : 100 ≤ n) :
    3 ≤ (decimalDigits fuel n).length := by
  obtain ⟨fuel, rfl⟩ : ∃ more, fuel = more + 3 := ⟨fuel - 3, by omega⟩
  rw [decimalDigits, if_neg (by omega), decimalDigits, if_neg (by omega), decimalDigits]
  split <;> simp

/-- Hours of three digits are no hours. -/
theorem getnum_large {hours : Int} (large : 100 ≤ hours) (rest : List Char) :
    ∃ value c others, getnum true (appendInt hours 2 ++ rest) = some (value, c :: others) ∧
      c ≠ ':' := by
  have size : 3 ≤ (decimalDigits (hours.natAbs + 1) hours.natAbs).length :=
    length_decimalDigits (Nat.lt_succ_self _) (by omega)
  have bounds := @decimalDigits_bounds (hours.natAbs + 1) hours.natAbs
  have whole : appendInt hours 2 = decimalDigits (hours.natAbs + 1) hours.natAbs := by
    rw [appendInt, if_neg (by omega), Nat.sub_eq_zero_of_le (by omega)]
    rfl
  rw [whole]
  generalize decimalDigits (hours.natAbs + 1) hours.natAbs = written at size bounds
  rcases written with _ | ⟨a, _ | ⟨b, _ | ⟨c, others⟩⟩⟩
  · contradiction
  · simp at size
  · simp at size
  · have first := (digitValue?_isSome_iff a).mpr (bounds a (by simp))
    have second := (digitValue?_isSome_iff b).mpr (bounds b (by simp))
    rcases Option.isSome_iff_exists.mp first with ⟨tens, isTens⟩
    rcases Option.isSome_iff_exists.mp second with ⟨ones, isOnes⟩
    refine ⟨tens * 10 + ones, c, others ++ rest, ?_, ?_⟩
    · simp only [List.cons_append, getnum, isTens, isOnes]
    · rintro rfl
      exact absurd (bounds ':' (by simp)).2 (by decide)

theorem getZone_hoursMinutes {sign : Char} (isSign : sign = '+' ∨ sign = '-') {minutes : Nat}
    (twoDigits : minutes < 6000) : getZone (sign :: hoursMinutes minutes) =
      if minutes < 1500 then
        some (if sign = '+' then (minutes : Int) * 60 else -((minutes : Int) * 60), [])
      else none := by
  have notZ : sign ≠ 'Z' := by rcases isSign with rfl | rfl <;> decide
  have last := getnum_digits (show minutes % 60 < 100 by omega) true []
  rw [List.append_nil] at last
  rw [getZone]
  · simp only [hoursMinutes, getnum_digits (show minutes / 60 < 100 by omega), expect_self, last,
      Option.bind_eq_bind, Option.bind_some]
    have minutesFit : inRange 0 60 ((minutes % 60 : Nat) : Int) = some () :=
      inRange_self (by omega)
    by_cases small : minutes < 1500
    · have hoursFit : inRange 0 24 ((minutes / 60 : Nat) : Int) = some () :=
        inRange_self (by omega)
      have whole : ((minutes / 60 : Nat) : Int) * 60 + ((minutes % 60 : Nat) : Int) = minutes := by
        omega
      rw [hoursFit, minutesFit, if_pos small, whole]
      rcases isSign with rfl | rfl <;> rfl
    · have noHours : inRange 0 24 ((minutes / 60 : Nat) : Int) = none := if_neg (by omega)
      rw [noHours, if_neg small]
      rfl
  · exact notZ

theorem getZone_appendZone (offset : Int) : getZone (appendZone offset) =
    if -90000 < offset ∧ offset < 90000 then some (offset.tdiv 60 * 60, []) else none := by
  have size : (offset.tdiv 60).natAbs = offset.natAbs / 60 := Int.natAbs_tdiv offset 60
  by_cases utc : offset = 0
  · subst utc
    rfl
  by_cases twoDigits : (offset.tdiv 60).natAbs < 6000
  · have isSign : (if offset.tdiv 60 < 0 then '-' else '+') = '+' ∨
        (if offset.tdiv 60 < 0 then '-' else '+') = '-' := by
      split <;> simp
    rw [appendZone_eq twoDigits, if_neg utc, getZone_hoursMinutes isSign twoDigits]
    refine if_congr (by omega) ?_ rfl
    by_cases west : offset.tdiv 60 < 0
    · rw [if_pos west, if_neg (by decide)]
      congr 2
      omega
    · rw [if_neg west, if_pos rfl]
      congr 2
      omega
  · have large : 100 ≤ ((offset.tdiv 60).natAbs : Int) / 60 := by omega
    rcases getnum_large large (':' :: appendInt (((offset.tdiv 60).natAbs : Int) % 60) 2) with
      ⟨value, c, others, isRead, noColon⟩
    have stops : expect ':' (c :: others) = none := if_neg (by simpa using noColon)
    rw [appendZone, if_neg utc, if_neg (by omega)]
    dsimp only
    rw [List.cons_append, getZone]
    · rw [isRead]
      simp only [Option.bind_eq_bind, Option.bind_some, stops, Option.bind_none]
    · split <;> decide

/-! ## Times of four-digit years -/

/-- The layout has room for the year. -/
def Time.FourDigits (t : Time) : Prop := 0 ≤ t.year ∧ t.year ≤ 9999

instance (t : Time) : Decidable t.FourDigits := inferInstanceAs (Decidable (_ ∧ _))

theorem nanosecond_range (t : Time) : 0 ≤ t.nanosecond ∧ t.nanosecond < 1000000000 := by
  rw [Time.nanosecond]
  omega

theorem unixNano_eq (t : Time) :
    t.unixNano = (t.clock - t.offset) * 1000000000 + t.nanosecond := by
  rw [Time.clock, Time.nanosecond]
  omega

theorem parse_format {t : Time} (year : t.FourDigits) : parse t.format =
    if -90000 < t.offset ∧ t.offset < 90000 then
      some { unixNano := (t.clock - t.offset.tdiv 60 * 60) * 1000000000 + t.nanosecond,
             offset := t.offset.tdiv 60 * 60 }
    else none := by
  rcases exists_fields year with ⟨f, isText, isDate, isClock, hour, minute, second⟩
  rcases appendZone_cons t.offset with ⟨rest, isZone⟩
  have isFormat : t.format =
      String.ofList (f.text ++ (appendNano t.nanosecond ++ zoneSign t.offset :: rest)) := by
    rw [← isText, ← isZone, ← format_eq, String.ofList_toList]
  have whole : t.clock / 86400 * 86400 + t.clock % 86400 = t.clock := by omega
  rw [isFormat, parse_fields rest isDate isClock hour minute second (nanosecond_range t)
    (zoneSign_cases t.offset), ← isZone, getZone_appendZone, whole]
  split <;> rfl

/-- The instant comes back where the layout has room for the whole zone. -/
theorem parse_format_iff {t : Time} (year : t.FourDigits) :
    (parse t.format).map (·.unixNano) = some t.unixNano ↔ IsPortable t.offset := by
  have isInstant := unixNano_eq t
  have isWhole : t.offset.tdiv 60 * 60 = t.offset ↔ t.offset % 60 = 0 := by
    constructor
    · intro same
      omega
    · exact fun whole => Int.tdiv_mul_cancel (Int.dvd_of_emod_eq_zero whole)
  rw [parse_format year, IsPortable]
  split
  · rename_i inside
    rw [Option.map_some, Option.some.injEq, ← isWhole, and_iff_left inside, isInstant]
    dsimp only
    omega
  · rename_i outside
    exact iff_of_false (by simp) fun both => outside both.2

/-- Texts compare by the clock readings, and for one reading by what follows. -/
theorem format_lt_iff {t u : Time} (year : t.FourDigits) (yearOther : u.FourDigits) :
    t.format < u.format ↔ t.clock < u.clock ∨ t.clock = u.clock ∧
      appendNano t.nanosecond ++ appendZone t.offset <
        appendNano u.nanosecond ++ appendZone u.offset := by
  have less := stamp_lt_iff year yearOther
  have same := eq_iff_of_lt_iff (m := t.clock) less (stamp_lt_iff yearOther year)
  rcases exists_fields year with ⟨f, isText, _⟩
  rcases exists_fields yearOther with ⟨g, isTextOther, _⟩
  rw [String.lt_iff_toList_lt, format_eq, format_eq, append_lt_append_iff]
  · rw [less, same]
  · rw [isText, isTextOther, Fields.length_text, Fields.length_text]

end Kiyomi.Go
