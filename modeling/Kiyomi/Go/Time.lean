namespace Kiyomi.Go

/-! # Instants and their RFC 3339 text

The part of Go's `time` package that the program stores and compares: an instant
with the offset of its location, the layout `time.RFC3339Nano` and the parser
for it. -/

/-- A `time.Time`: nanoseconds since the Unix epoch and the offset, in seconds
east of UTC, of the location it is shown in. -/
structure Time where
  unixNano : Int
  offset : Int
  deriving DecidableEq, Repr

namespace Time

/-- January 1, year 1, 00:00:00 UTC, the zero value of the type. -/
def zero : Time := { unixNano := -62135596800 * 1000000000, offset := 0 }

/-- `t.IsZero()` looks at the instant only. -/
def isZero (t : Time) : Bool := t.unixNano == zero.unixNano

/-- `t.Add(d)` for a duration in nanoseconds. -/
def add (t : Time) (duration : Int) : Time := { t with unixNano := t.unixNano + duration }

/-- `t.Sub(u)` in nanoseconds, kept within the range of a duration. -/
def sub (t u : Time) : Int :=
  max (-9223372036854775808) (min 9223372036854775807 (t.unixNano - u.unixNano))

/-- `!t.After(u)`, the order of instants. -/
def notAfter (t u : Time) : Bool := t.unixNano ≤ u.unixNano

end Time

/-! ## Calendar -/

/-- A day of the proleptic Gregorian calendar. -/
structure Civil where
  year : Int
  month : Int
  day : Int
  deriving DecidableEq, Repr

/-- The calendar day a number of days after January 1, 1970. The year is counted
from March so that the leap day is the last of its year. -/
def civilOfDays (days : Int) : Civil :=
  let shifted := days + 719468
  let era := shifted / 146097
  let dayOfEra := shifted % 146097
  let yearOfEra := (dayOfEra - dayOfEra / 1460 + dayOfEra / 36524 - dayOfEra / 146096) / 365
  let dayOfYear := dayOfEra - (365 * yearOfEra + yearOfEra / 4 - yearOfEra / 100)
  let marchMonth := (5 * dayOfYear + 2) / 153
  let day := dayOfYear - (153 * marchMonth + 2) / 5 + 1
  let month := if marchMonth < 10 then marchMonth + 3 else marchMonth - 9
  let year := yearOfEra + era * 400 + if month ≤ 2 then 1 else 0
  { year, month, day }

/-- Inverse of `civilOfDays` on valid days. -/
def daysOfCivil (civil : Civil) : Int :=
  let year := if civil.month ≤ 2 then civil.year - 1 else civil.year
  let era := year / 400
  let yearOfEra := year % 400
  let marchMonth := if civil.month ≤ 2 then civil.month + 9 else civil.month - 3
  let dayOfYear := (153 * marchMonth + 2) / 5 + civil.day - 1
  let dayOfEra := yearOfEra * 365 + yearOfEra / 4 - yearOfEra / 100 + dayOfYear
  era * 146097 + dayOfEra - 719468

def isLeap (year : Int) : Bool := year % 4 == 0 && (year % 100 != 0 || year % 400 == 0)

def daysIn (month year : Int) : Int :=
  if month = 2 then if isLeap year then 29 else 28
  else if month = 4 ∨ month = 6 ∨ month = 9 ∨ month = 11 then 30
  else 31

/-! ## Formatting -/

def digit (n : Nat) : Char := Char.ofNat (48 + n % 10)

def decimalDigits : (fuel n : Nat) → List Char
  | 0, _ => []
  | fuel + 1, n => if n < 10 then [digit n] else decimalDigits fuel (n / 10) ++ [digit n]

/-- Decimal text padded with zeros to a width. -/
def appendInt (x : Int) (width : Nat) : List Char :=
  let digits := decimalDigits (x.natAbs + 1) x.natAbs
  (if x < 0 then ['-'] else []) ++ List.replicate (width - digits.length) '0' ++ digits

/-- The fractional second of the layout: nine digits without trailing zeros, and
nothing at all for a whole second. -/
def appendNano (nanosecond : Int) : List Char :=
  let digits := ((appendInt nanosecond 9).reverse.dropWhile (· == '0')).reverse
  if digits.isEmpty then [] else '.' :: digits

/-- The zone of the layout, in whole minutes. -/
def appendZone (offset : Int) : List Char :=
  if offset = 0 then ['Z']
  else
    let zone := offset.tdiv 60
    (if zone < 0 then '-' else '+') ::
      appendInt (zone.natAbs / 60) 2 ++ ':' :: appendInt (zone.natAbs % 60) 2

/-- `t.Format(time.RFC3339Nano)`. -/
def Time.format (t : Time) : String :=
  let seconds := t.unixNano / 1000000000 + t.offset
  let nanosecond := t.unixNano % 1000000000
  let civil := civilOfDays (seconds / 86400)
  let clock := seconds % 86400
  String.ofList <|
    appendInt civil.year 4 ++ '-' :: appendInt civil.month 2 ++ '-' :: appendInt civil.day 2 ++
    'T' :: appendInt (clock / 3600) 2 ++ ':' :: appendInt (clock % 3600 / 60) 2 ++
    ':' :: appendInt (clock % 60) 2 ++ appendNano nanosecond ++ appendZone t.offset

/-- Half a second past midnight, one hour east of Greenwich. -/
example : (Time.mk 1767222000500000000 3600).format = "2026-01-01T00:00:00.5+01:00" := by
  decide +kernel

/-! ## Parsing -/

def digitValue? (c : Char) : Option Int :=
  if '0' ≤ c ∧ c ≤ '9' then some (c.toNat - 48 : Nat) else none

/-- One or two digits; `fixed` insists on two. -/
def getnum (fixed : Bool) : List Char → Option (Int × List Char)
  | [] => none
  | first :: rest =>
      match digitValue? first with
      | none => none
      | some tens =>
          match rest with
          | [] => if fixed then none else some (tens, [])
          | second :: tail =>
              match digitValue? second with
              | none => if fixed then none else some (tens, second :: tail)
              | some ones => some (tens * 10 + ones, tail)

/-- A four-digit year. -/
def getYear : List Char → Option (Int × List Char)
  | a :: b :: c :: d :: rest => do
      let thousands ← digitValue? a
      let hundreds ← digitValue? b
      let tens ← digitValue? c
      let ones ← digitValue? d
      return (thousands * 1000 + hundreds * 100 + tens * 10 + ones, rest)
  | _ => none

def expect (c : Char) : List Char → Option (List Char)
  | [] => none
  | head :: tail => if head == c then some tail else none

def inRange (low high value : Int) : Option Unit :=
  if low ≤ value ∧ value ≤ high then some () else none

/-- Nanoseconds from the digits of a fraction; digits after the ninth are
dropped. -/
def parseNanoseconds (digits : List Char) : Int :=
  (digits ++ List.replicate 9 '0' |>.take 9).foldl
    (fun value c => value * 10 + (digitValue? c).getD 0) 0

/-- An optional fraction after a period or a comma. -/
def getFraction : List Char → Int × List Char
  | separator :: first :: rest =>
      if (separator == '.' || separator == ',') && (digitValue? first).isSome then
        let isDigit := fun c => (digitValue? c).isSome
        (parseNanoseconds ((first :: rest).takeWhile isDigit),
          (first :: rest).dropWhile isDigit)
      else (0, separator :: first :: rest)
  | value => (0, value)

/-- The zone as an offset in seconds. -/
def getZone : List Char → Option (Int × List Char)
  | [] => none
  | 'Z' :: rest => some (0, rest)
  | sign :: rest => do
      let (hours, rest) ← getnum true rest
      let rest ← expect ':' rest
      let (minutes, rest) ← getnum true rest
      inRange 0 24 hours
      inRange 0 60 minutes
      let offset := (hours * 60 + minutes) * 60
      if sign == '+' then return (offset, rest)
      else if sign == '-' then return (-offset, rest)
      else none

/-- `time.Parse(time.RFC3339Nano, s)`. Parsing under `time.RFC3339` accepts the
same text, as the parser takes a fraction the layout lacks. -/
def parse (s : String) : Option Time := do
  let (year, rest) ← getYear s.toList
  let rest ← expect '-' rest
  let (month, rest) ← getnum true rest
  inRange 1 12 month
  let rest ← expect '-' rest
  let (day, rest) ← getnum true rest
  let rest ← expect 'T' rest
  let (hour, rest) ← getnum false rest
  inRange 0 23 hour
  let rest ← expect ':' rest
  let (minute, rest) ← getnum true rest
  inRange 0 59 minute
  let rest ← expect ':' rest
  let (second, rest) ← getnum true rest
  inRange 0 59 second
  let (nanosecond, rest) := getFraction rest
  let (offset, rest) ← getZone rest
  if rest ≠ [] then none
  inRange 1 (daysIn month year) day
  let days := daysOfCivil { year, month, day }
  let seconds := days * 86400 + hour * 3600 + minute * 60 + second - offset
  return { unixNano := seconds * 1000000000 + nanosecond, offset }

example : parse "2026-01-01T00:00:00.5+01:00" = some ⟨1767222000500000000, 3600⟩ := by
  decide +kernel

end Kiyomi.Go
