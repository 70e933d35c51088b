import Kiyomi.Go.TimeText
import Kiyomi.Queue.Sqlite.Database

namespace Kiyomi.Queue.Sqlite

open Go

/-! # Stored timestamps

The database sorts by the texts that `formatTime` writes. Their order is that of the clock
readings; what decides for one reading are the fraction, without the zeros at its end, and the
zone behind it. -/

/-- For one reading and fraction the texts of these zones are not in the order of the instants. -/
def Clash (offset other : Int) : Prop :=
  offset ≠ other ∧
    (0 < offset ∧ 0 < other ∨ offset = 0 ∧ other < 0 ∨ offset < 0 ∧ other = 0)

instance (offset other : Int) : Decidable (Clash offset other) :=
  inferInstanceAs (Decidable (_ ∧ _))

/-- The smaller fraction is read first, unless the other one goes on where `Z` follows it. -/
def ReadFirst (t u : Time) : Prop :=
  ¬(t.offset = 0 ∧ decimals t.nanosecond <+: decimals u.nanosecond)

instance (t u : Time) : Decidable (ReadFirst t u) := inferInstanceAs (Decidable (¬_))

/-- Readings, fractions and zones of two times are in the order of the instants. -/
structure InOrder (t u : Time) : Prop where
  readings : t.clock ≠ u.clock → (t.clock < u.clock ↔ t.unixNano < u.unixNano)
  zones : t.clock = u.clock → t.nanosecond = u.nanosecond → ¬Clash t.offset u.offset
  fractions : t.clock = u.clock → t.nanosecond < u.nanosecond →
    (u.offset ≤ t.offset ↔ ReadFirst t u)
  fractionsBack : t.clock = u.clock → u.nanosecond < t.nanosecond →
    (t.offset ≤ u.offset ↔ ReadFirst u t)

section Tails

variable {t u : Time}

/-- The text behind the clock reading. -/
def tail (t : Time) : List Char := appendNano t.nanosecond ++ appendZone t.offset

theorem tail_lt_tail (less : t.nanosecond < u.nanosecond) (first : ReadFirst t u) :
    tail t < tail u := by
  rcases appendZone_cons t.offset with ⟨rest, isZone⟩
  rw [tail, tail, isZone]
  refine appendNano_lt_of_not_continued (nanosecond_range t).1 less (nanosecond_range u).2 rest _
    (zoneSign_cases t.offset) ?_
  rw [zoneSign_eq_iff]
  exact first

theorem tail_lt_tail_of_continued (less : t.nanosecond < u.nanosecond)
    (continued : ¬ReadFirst t u) : tail u < tail t := by
  rcases appendZone_cons t.offset with ⟨rest, isZone⟩
  rw [ReadFirst, not_not] at continued
  rw [tail, tail, isZone]
  exact appendNano_lt_of_continued (nanosecond_range t).1 less (nanosecond_range u).2 rest _
    (zoneSign_eq_iff.mpr continued.1) continued.2

theorem tail_lt_iff (less : t.nanosecond < u.nanosecond) :
    (tail t < tail u ↔ ReadFirst t u) ∧ (tail u < tail t ↔ ¬ReadFirst t u) := by
  by_cases first : ReadFirst t u
  · have below := tail_lt_tail less first
    exact ⟨iff_of_true below first, iff_of_false below.asymm (not_not.mpr first)⟩
  · have below := tail_lt_tail_of_continued less first
    exact ⟨iff_of_false below.asymm first, iff_of_true below first⟩

/-- Before another instant, for times of one clock reading. -/
theorem unixNano_lt_iff (reading : t.clock = u.clock) : t.unixNano < u.unixNano ↔
    u.offset < t.offset ∨ u.offset = t.offset ∧ t.nanosecond < u.nanosecond := by
  have left := nanosecond_range t
  have right := nanosecond_range u
  rw [unixNano_eq t, unixNano_eq u, reading]
  omega

/-- For one clock reading. -/
theorem tails_in_order_iff (reading : t.clock = u.clock) (portable : IsPortable t.offset)
    (portableOther : IsPortable u.offset) :
    (tail t < tail u ↔ t.unixNano < u.unixNano) ↔
      (t.nanosecond = u.nanosecond → ¬Clash t.offset u.offset) ∧
      (t.nanosecond < u.nanosecond → (u.offset ≤ t.offset ↔ ReadFirst t u)) ∧
      (u.nanosecond < t.nanosecond → (t.offset ≤ u.offset ↔ ReadFirst u t)) := by
  rw [unixNano_lt_iff reading]
  rcases lt_trichotomy t.nanosecond u.nanosecond with less | same | greater
  · have notLater : u.offset < t.offset ∨ u.offset = t.offset ∧ t.nanosecond < u.nanosecond ↔
        u.offset ≤ t.offset := by omega
    rw [(tail_lt_iff less).1, notLater]
    simp only [less, less.ne, less.not_gt, forall_const, false_imp_iff, true_and, and_true]
    exact Iff.comm
  · have zones : tail t < tail u ↔ appendZone t.offset < appendZone u.offset := by
      rw [tail, tail, same, Numerals.append_lt_append_left_iff]
    rw [zones, appendZone_lt_iff portable portableOther]
    simp only [same, lt_irrefl, forall_const, false_imp_iff, and_true, and_false, or_false, Clash]
    omega
  · have later : u.offset < t.offset ∨ u.offset = t.offset ∧ t.nanosecond < u.nanosecond ↔
        ¬t.offset ≤ u.offset := by omega
    rw [(tail_lt_iff greater).2, later]
    simp only [greater, greater.ne', greater.not_gt, forall_const, false_imp_iff, true_and]
    rw [not_iff_not]
    exact Iff.comm

/-- The texts are in the order of the instants when reading, fraction and zone are. -/
theorem format_lt_iff_unixNano_lt (year : t.FourDigits) (yearOther : u.FourDigits)
    (portable : IsPortable t.offset) (portableOther : IsPortable u.offset) :
    (t.format < u.format ↔ t.unixNano < u.unixNano) ↔ InOrder t u := by
  rw [format_lt_iff year yearOther]
  change (t.clock < u.clock ∨ t.clock = u.clock ∧ tail t < tail u ↔ _) ↔ _
  by_cases reading : t.clock = u.clock
  · have tails := tails_in_order_iff reading portable portableOther
    rw [or_iff_right reading.not_lt, and_iff_right reading, tails]
    exact ⟨fun all => ⟨fun other => absurd reading other, fun _ => all.1, fun _ => all.2.1,
      fun _ => all.2.2⟩, fun inOrder =>
      ⟨inOrder.zones reading, inOrder.fractions reading, inOrder.fractionsBack reading⟩⟩
  · rw [or_iff_left fun both => reading both.1]
    exact ⟨fun same => ⟨fun _ => same, fun equal => absurd equal reading,
      fun equal => absurd equal reading, fun equal => absurd equal reading⟩,
      fun inOrder => inOrder.readings reading⟩

end Tails

/-! ## Stored times -/

theorem format_ne_empty {t : Time} (year : t.FourDigits) : t.format ≠ "" := by
  intro empty
  rcases exists_fields year with ⟨f, isText, _⟩
  have size := congrArg List.length (format_eq t)
  rw [isText, List.length_append, Fields.length_text, empty] at size
  simp at size
  omega

/-- A stored time comes back, and stands among the others as its instant does, where its zone is
one that the layout has room for and the texts are in order. -/
theorem stored_timestamps_iff (t u : Time) (year : t.FourDigits) (yearOther : u.FourDigits) :
    (formatTime t < formatTime u ↔ t.unixNano < u.unixNano) ∧
        (parseTime (formatTime t)).map (·.unixNano) = some t.unixNano ∧
        (parseTime (formatTime u)).map (·.unixNano) = some u.unixNano ↔
      IsPortable t.offset ∧ IsPortable u.offset ∧ InOrder t u := by
  simp only [formatTime, parseTime, format_ne_empty year, format_ne_empty yearOther, if_false,
    parse_format_iff year, parse_format_iff yearOther]
  constructor
  · rintro ⟨same, portable, portableOther⟩
    exact ⟨portable, portableOther,
      (format_lt_iff_unixNano_lt year yearOther portable portableOther).mp same⟩
  · rintro ⟨portable, portableOther, inOrder⟩
    exact ⟨(format_lt_iff_unixNano_lt year yearOther portable portableOther).mpr inOrder, portable,
      portableOther⟩

/-- The same pair one hour east of Greenwich. -/
def eastMidnight : Time := { unixNano := 1767222000000000000, offset := 3600 }

def eastHalfSecond : Time := { unixNano := 1767222000500000000, offset := 3600 }

theorem east_timestamps_in_order : eastMidnight.FourDigits ∧ eastHalfSecond.FourDigits ∧
    (formatTime eastMidnight < formatTime eastHalfSecond ↔
      eastMidnight.unixNano < eastHalfSecond.unixNano) ∧
    (parseTime (formatTime eastMidnight)).map (·.unixNano) = some eastMidnight.unixNano ∧
    (parseTime (formatTime eastHalfSecond)).map (·.unixNano) = some eastHalfSecond.unixNano := by
  have year : eastMidnight.FourDigits := by decide +kernel
  have yearOther : eastHalfSecond.FourDigits := by decide +kernel
  have inOrder : InOrder eastMidnight eastHalfSecond :=
    { readings := by decide
      zones := by decide
      fractions := fun _ _ => iff_of_true (by decide) fun utc => absurd utc.1 (by decide)
      fractionsBack := by decide }
  exact ⟨year, yearOther, (stored_timestamps_iff eastMidnight eastHalfSecond year yearOther).mpr
    ⟨by decide, by decide, inOrder⟩⟩

/-- Midnight, and half a second later, in Greenwich. -/
def midnight : Time := { unixNano := 1767225600000000000, offset := 0 }

def halfSecond : Time := { unixNano := 1767225600500000000, offset := 0 }

theorem half_second_is_stored_before_midnight :
    midnight.FourDigits ∧ halfSecond.FourDigits ∧ midnight.unixNano < halfSecond.unixNano ∧
      formatTime midnight = "2026-01-01T00:00:00Z" ∧
      formatTime halfSecond = "2026-01-01T00:00:00.5Z" ∧
      ¬formatTime midnight < formatTime halfSecond := by
  decide +kernel

end Kiyomi.Queue.Sqlite
