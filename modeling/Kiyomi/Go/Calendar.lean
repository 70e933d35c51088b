import Kiyomi.Go.Time
import Mathlib.Tactic.Ring

namespace Kiyomi.Go

/-! # The calendar

Days and civil dates stand for each other, in the same order. -/

/-- The days before March 1 of a year, from March 1 of the year 0. -/
def yearStart (year : Int) : Int := 365 * year + year / 4 - year / 100 + year / 400

/-- The year, counted from March, that a day is in. -/
def marchYear (shifted : Int) : Int :=
  let dayOfEra := shifted % 146097
  (dayOfEra - dayOfEra / 1460 + dayOfEra / 36524 - dayOfEra / 146096) / 365 +
    shifted / 146097 * 400

theorem yearOfEra_eq {c q y d : Int} (century : 0 ≤ c ∧ c ≤ 3) (quad : 0 ≤ q ∧ q ≤ 24)
    (single : 0 ≤ y ∧ y ≤ 3) (day : 0 ≤ d ∧ d ≤ 365) (leap : d = 365 → y = 3 ∧ (q < 24 ∨ c = 3)) :
    let dayOfEra := 36524 * c + 1461 * q + 365 * y + d
    (dayOfEra - dayOfEra / 1460 + dayOfEra / 36524 - dayOfEra / 146096) / 365 =
      100 * c + 4 * q + y := by
  intro dayOfEra
  have quads : dayOfEra / 1460 = 25 * c + q + (24 * c + q + 365 * y + d) / 1460 := by omega
  have ends : (24 * c + q + 365 * y + d) / 1460 = 0 ∨
      (24 * c + q + 365 * y + d) / 1460 = 1 ∧ 0 < d := by omega
  have centuries : dayOfEra / 36524 - dayOfEra / 146096 = c := by
    by_cases isLast : 1461 * q + 365 * y + d = 36524
    · have isEnd : c = 3 := by omega
      omega
    · have short : 1461 * q + 365 * y + d < 36524 := by omega
      have none_over : dayOfEra / 146096 = 0 := by omega
      omega
  omega

/-- The parts of a day: the century, the four years and the year that it is in, and its day in
that year. -/
theorem exists_parts (dayOfEra : Int) (low : 0 ≤ dayOfEra) (high : dayOfEra < 146097) :
    ∃ c q y d : Int, (0 ≤ c ∧ c ≤ 3) ∧ (0 ≤ q ∧ q ≤ 24) ∧ (0 ≤ y ∧ y ≤ 3) ∧ (0 ≤ d ∧ d ≤ 365) ∧
      (d = 365 → y = 3 ∧ (q < 24 ∨ c = 3)) ∧
      dayOfEra = 36524 * c + 1461 * q + 365 * y + d := by
  have century : ∃ c r : Int, (0 ≤ c ∧ c ≤ 3) ∧ 0 ≤ r ∧ r ≤ 36524 ∧ (r = 36524 → c = 3) ∧
      dayOfEra = 36524 * c + r :=
    ⟨min 3 (dayOfEra / 36524), dayOfEra - 36524 * min 3 (dayOfEra / 36524), by omega⟩
  rcases century with ⟨c, r, century, positive, most, full, rfl⟩
  have single : ∃ y d : Int, (0 ≤ y ∧ y ≤ 3) ∧ (0 ≤ d ∧ d ≤ 365) ∧ (d = 365 → y = 3) ∧
      r % 1461 = 365 * y + d :=
    ⟨min 3 (r % 1461 / 365), r % 1461 - 365 * min 3 (r % 1461 / 365), by omega⟩
  rcases single with ⟨y, d, single, day, isLast, parts⟩
  exact ⟨c, r / 1461, y, d, century, by omega, single, day, by omega, by omega⟩

theorem yearStart_eq {c q y : Int} (era : Int) (century : 0 ≤ c ∧ c ≤ 3)
    (quad : 0 ≤ q ∧ q ≤ 24) (single : 0 ≤ y ∧ y ≤ 3) :
    yearStart (100 * c + 4 * q + y + era * 400) =
      146097 * era + 36524 * c + 1461 * q + 365 * y := by
  have fours : (100 * c + 4 * q + y + era * 400) / 4 = 25 * c + q + 100 * era := by omega
  have hundreds : (100 * c + 4 * q + y + era * 400) / 100 = c + 4 * era := by omega
  have fourHundreds : (100 * c + 4 * q + y + era * 400) / 400 = era := by omega
  rw [yearStart, fours, hundreds, fourHundreds]
  omega

/-- A year ends where the next one starts. -/
theorem lt_yearStart {c q y d : Int} (era : Int) (century : 0 ≤ c ∧ c ≤ 3)
    (quad : 0 ≤ q ∧ q ≤ 24) (single : 0 ≤ y ∧ y ≤ 3) (day : d ≤ 365)
    (leap : d = 365 → y = 3 ∧ (q < 24 ∨ c = 3)) :
    146097 * era + 36524 * c + 1461 * q + 365 * y + d <
      yearStart (100 * c + 4 * q + y + era * 400 + 1) := by
  by_cases within : y < 3
  · have next := yearStart_eq era century quad (y := y + 1) (by omega)
    rw [show 100 * c + 4 * q + y + era * 400 + 1 = 100 * c + 4 * q + (y + 1) + era * 400 by ring,
      next]
    omega
  obtain rfl : y = 3 := by omega
  by_cases inCentury : q < 24
  · have next := yearStart_eq era century (q := q + 1) (y := 0) (by omega) (by omega)
    rw [show 100 * c + 4 * q + 3 + era * 400 + 1 = 100 * c + 4 * (q + 1) + 0 + era * 400 by ring,
      next]
    omega
  obtain rfl : q = 24 := by omega
  by_cases inEra : c < 3
  · have next := yearStart_eq era (c := c + 1) (q := 0) (y := 0) (by omega) (by omega) (by omega)
    rw [show 100 * c + 4 * 24 + 3 + era * 400 + 1 = 100 * (c + 1) + 4 * 0 + 0 + era * 400 by ring,
      next]
    omega
  · obtain rfl : c = 3 := by omega
    have next := yearStart_eq (era + 1) (c := 0) (q := 0) (y := 0) (by omega) (by omega) (by omega)
    rw [show 100 * 3 + 4 * 24 + 3 + era * 400 + 1 = 100 * 0 + 4 * 0 + 0 + (era + 1) * 400 by ring,
      next]
    omega

/-- The day of the year, counted from March 1, as 0. -/
def dayOfYear (shifted : Int) : Int := shifted - yearStart (marchYear shifted)

theorem marchYear_parts (shifted : Int) : ∃ c q y,
    ((0 ≤ c ∧ c ≤ 3) ∧ (0 ≤ q ∧ q ≤ 24) ∧ (0 ≤ y ∧ y ≤ 3)) ∧
    ((0 ≤ dayOfYear shifted ∧ dayOfYear shifted ≤ 365) ∧
      (dayOfYear shifted = 365 → y = 3 ∧ (q < 24 ∨ c = 3))) ∧
    marchYear shifted = 100 * c + 4 * q + y + shifted / 146097 * 400 ∧
    shifted % 146097 = 36524 * c + 1461 * q + 365 * y + dayOfYear shifted := by
  rcases exists_parts (shifted % 146097) (by omega) (by omega) with
    ⟨c, q, y, d, century, quad, single, day, leap, parts⟩
  have isMarchYear : marchYear shifted = 100 * c + 4 * q + y + shifted / 146097 * 400 := by
    rw [marchYear, parts]
    exact congrArg (· + _) (yearOfEra_eq century quad single day leap)
  have isDay : dayOfYear shifted = d := by
    have start := yearStart_eq (shifted / 146097) century quad single
    rw [dayOfYear, isMarchYear, start]
    omega
  rw [isDay]
  exact ⟨c, q, y, ⟨century, quad, single⟩, ⟨day, leap⟩, isMarchYear, parts⟩

theorem yearStart_marchYear (shifted : Int) :
    yearStart (marchYear shifted) + dayOfYear shifted = shifted := by
  rw [dayOfYear]
  omega

theorem dayOfYear_bounds (shifted : Int) : 0 ≤ dayOfYear shifted ∧ dayOfYear shifted ≤ 365 := by
  rcases marchYear_parts shifted with ⟨_, _, _, _, ⟨bounds, _⟩, _⟩
  exact bounds

/-- Only a leap year, which ends with February 29, has so many days. -/
theorem isLeap_of_dayOfYear {shifted : Int} (isLast : dayOfYear shifted = 365) :
    isLeap (marchYear shifted + 1) = true := by
  rcases marchYear_parts shifted with ⟨c, q, y, ⟨century, quad, single⟩, ⟨_, leap⟩, isYear, _⟩
  rcases leap isLast with ⟨rfl, inCentury⟩
  have four : (marchYear shifted + 1) % 4 = 0 := by omega
  have hundred : (marchYear shifted + 1) % 100 ≠ 0 ∨ (marchYear shifted + 1) % 400 = 0 := by omega
  simpa [isLeap, four] using hundred

theorem lt_yearStart_succ (shifted : Int) : shifted < yearStart (marchYear shifted + 1) := by
  rcases marchYear_parts shifted with
    ⟨c, q, y, ⟨century, quad, single⟩, ⟨day, leap⟩, isYear, parts⟩
  have ends := lt_yearStart (shifted / 146097) century quad single day.2 leap
  rw [isYear]
  omega

theorem yearStart_le {left right : Int} (less : left ≤ right) : yearStart left ≤ yearStart right := by
  rw [yearStart, yearStart]
  omega

/-- A date counted from March. -/
theorem civilOfDays_eq (days : Int) :
    let year := marchYear (days + 719468)
    let month := (5 * dayOfYear (days + 719468) + 2) / 153
    civilOfDays days =
      { year := year + if month < 10 then 0 else 1
        month := if month < 10 then month + 3 else month - 9
        day := dayOfYear (days + 719468) - (153 * month + 2) / 5 + 1 } := by
  intro year month
  rcases marchYear_parts (days + 719468) with
    ⟨c, q, y, ⟨century, quad, single⟩, ⟨day, leap⟩, isYear, parts⟩
  have fours : (100 * c + 4 * q + y) / 4 = 25 * c + q := by omega
  have hundreds : (100 * c + 4 * q + y) / 100 = c := by omega
  have isDay : 36524 * c + 1461 * q + 365 * y + dayOfYear (days + 719468) -
      (365 * (100 * c + 4 * q + y) + (25 * c + q) - c) = dayOfYear (days + 719468) := by omega
  have isYearOfEra := yearOfEra_eq century quad single day leap
  dsimp only at isYearOfEra
  dsimp only [civilOfDays]
  rw [parts, isYearOfEra, fours, hundreds, isDay, ← isYear]
  by_cases early : month < 10
  · have late : ¬month + 3 ≤ 2 := by omega
    simp only [month, year] at early late ⊢
    rw [if_pos early, if_neg late, if_pos early]
  · have late : month - 9 ≤ 2 := by omega
    simp only [month, year] at early late ⊢
    rw [if_neg early, if_pos late, if_neg early]

theorem yearStart_of_era (year : Int) :
    year / 400 * 146097 + (year % 400 * 365 + year % 400 / 4 - year % 400 / 100) =
      yearStart year := by
  have fours : year / 4 = 100 * (year / 400) + year % 400 / 4 := by omega
  have hundreds : year / 100 = 4 * (year / 400) + year % 400 / 100 := by omega
  rw [yearStart, fours, hundreds]
  omega

theorem daysOfCivil_civilOfDays (days : Int) : daysOfCivil (civilOfDays days) = days := by
  have whole := yearStart_marchYear (days + 719468)
  have bounds := dayOfYear_bounds (days + 719468)
  have start := yearStart_of_era (marchYear (days + 719468))
  rw [civilOfDays_eq]
  dsimp only [daysOfCivil]
  generalize dayOfYear (days + 719468) = day at *
  generalize marchYear (days + 719468) = year at *
  by_cases early : (5 * day + 2) / 153 < 10
  · have late : ¬(5 * day + 2) / 153 + 3 ≤ 2 := by omega
    simp only [if_pos early, if_neg late, Int.add_zero, Int.add_sub_cancel]
    omega
  · have late : (5 * day + 2) / 153 - 9 ≤ 2 := by omega
    simp only [if_neg early, if_pos late, Int.add_sub_cancel, Int.sub_add_cancel]
    omega

/-- A month, counted from March, has at most as many days as the calendar says. -/
theorem day_le_daysIn {day year : Int} (bounds : 0 ≤ day ∧ day ≤ 365)
    (leap : day = 365 → isLeap (year + 1) = true) :
    let month := (5 * day + 2) / 153
    day - (153 * month + 2) / 5 + 1 ≤
      daysIn (if month < 10 then month + 3 else month - 9) (year + if month < 10 then 0 else 1) := by
  intro month
  have months : month = 0 ∨ month = 1 ∨ month = 2 ∨ month = 3 ∨ month = 4 ∨ month = 5 ∨
      month = 6 ∨ month = 7 ∨ month = 8 ∨ month = 9 ∨ month = 10 ∨ month = 11 := by omega
  have within : 153 * month ≤ 5 * day + 2 ∧ 5 * day + 2 < 153 * month + 153 := by omega
  clear_value month
  by_cases isFebruary : month = 11
  · subst isFebruary
    by_cases isLast : day = 365
    · simp [daysIn, leap isLast, isLast]
    · have short : day - (153 * 11 + 2) / 5 + 1 ≤ 28 := by omega
      have atLeast : 28 ≤ if isLeap (year + 1) = true then (29 : Int) else 28 := by
        split <;> decide
      simpa [daysIn] using short.trans atLeast
  · rcases months with rfl | rfl | rfl | rfl | rfl | rfl | rfl | rfl | rfl | rfl | rfl | rfl
    all_goals
      simp [daysIn]
      omega

/-- A date has a month and a day of that month. -/
theorem civilOfDays_valid (days : Int) :
    (1 ≤ (civilOfDays days).month ∧ (civilOfDays days).month ≤ 12) ∧
      1 ≤ (civilOfDays days).day ∧
      (civilOfDays days).day ≤ daysIn (civilOfDays days).month (civilOfDays days).year := by
  have bounds := dayOfYear_bounds (days + 719468)
  have most := day_le_daysIn bounds (@isLeap_of_dayOfYear (days + 719468))
  rw [civilOfDays_eq]
  dsimp only at most ⊢
  refine ⟨?_, by omega, most⟩
  split <;> omega

/-- Later days have later dates. -/
theorem civilOfDays_lt {days later : Int} (less : days < later) :
    (civilOfDays days).year < (civilOfDays later).year ∨
      (civilOfDays days).year = (civilOfDays later).year ∧
        ((civilOfDays days).month < (civilOfDays later).month ∨
          (civilOfDays days).month = (civilOfDays later).month ∧
            (civilOfDays days).day < (civilOfDays later).day) := by
  have first := dayOfYear_bounds (days + 719468)
  have second := dayOfYear_bounds (later + 719468)
  have inOrder : marchYear (days + 719468) < marchYear (later + 719468) ∨
      marchYear (days + 719468) = marchYear (later + 719468) ∧
        dayOfYear (days + 719468) < dayOfYear (later + 719468) := by
    have whole := yearStart_marchYear (days + 719468)
    have wholeLater := yearStart_marchYear (later + 719468)
    rcases lt_trichotomy (marchYear (days + 719468)) (marchYear (later + 719468)) with
      before | same | behind
    · exact .inl before
    · rw [same] at whole
      exact .inr ⟨same, by omega⟩
    · have := lt_yearStart_succ (later + 719468)
      have := yearStart_le (show marchYear (later + 719468) + 1 ≤ marchYear (days + 719468) by omega)
      omega
  rw [civilOfDays_eq, civilOfDays_eq]
  dsimp only
  generalize dayOfYear (days + 719468) = day at *
  generalize dayOfYear (later + 719468) = dayLater at *
  generalize marchYear (days + 719468) = year at *
  generalize marchYear (later + 719468) = yearLater at *
  by_cases early : (5 * day + 2) / 153 < 10
  · by_cases earlyLater : (5 * dayLater + 2) / 153 < 10
    · simp only [if_pos early, if_pos earlyLater]
      omega
    · simp only [if_pos early, if_neg earlyLater]
      omega
  · by_cases earlyLater : (5 * dayLater + 2) / 153 < 10
    · simp only [if_neg early, if_pos earlyLater]
      omega
    · simp only [if_neg early, if_neg earlyLater]
      omega

end Kiyomi.Go
