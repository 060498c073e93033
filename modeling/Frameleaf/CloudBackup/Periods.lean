import Frameleaf.Lib.UtcDate
import Mathlib

namespace Frameleaf.CloudBackup

open UtcDate

/-!
# The periods that retention counts by

A day, an ISO week and a month are compared by their printed labels.  For the
years that are printed with four digits the labels are faithful: two instants
share a label exactly when they share the day, the Monday-to-Sunday week or the
calendar month.
-/

/-- The label of a day, an ISO week or a month. -/
abbrev Period := List Char

/-- The day of an instant in UTC. -/
def dayOf (date : Date) : Period :=
  date.toISOString.take 10

/-- The month of an instant in UTC. -/
def monthOf (date : Date) : Period :=
  date.toISOString.take 7

/-- A whole number as the language prints it. -/
def printed (value : ℤ) : List Char :=
  value.repr.toList

/-- Pad a text on the left. -/
def padStart
    (text : List Char)
    (width : ℕ)
    (pad : Char) : List Char :=
  List.replicate (width - text.length) pad ++ text

/-- The Thursday of the ISO week of a day. -/
def thursdayOf (day : ℤ) : ℤ :=
  day + 4 - (if weekday day = 0 then 7 else weekday day)

/--
The ISO 8601 week of an instant in UTC.  Thursday decides which year a week
belongs to.  The week of every date has its Thursday in the language's range.
-/
def isoWeekOf (date : Date) : Period :=
  let day := thursdayOf (utcDay date.civil)
  let year := (civilOfDay day).year
  let yearStart := utcDay { year := year, month := 1, day := 1 }
  -- The quotient rounds up: `Math.ceil` of a whole number of sevenths.
  let week := -(-(day - yearStart + 1) / 7)
  printed year ++ ['-', 'W'] ++ padStart (printed week) 2 '0'

/-- A date whose year is printed with four digits. -/
def FourDigitYear (date : Date) : Prop :=
  0 ≤ date.civil.year ∧ date.civil.year ≤ 9999

variable {date first second : Date}

theorem monthOf_eq
    (fourDigits : FourDigitYear date) :
    monthOf date =
      digits 4 date.civil.year.toNat ++
        ('-' :: digits 2 date.civil.month.toNat) := by
  simp [monthOf, Date.toISOString, isoYear, fourDigits.1, fourDigits.2,
    List.take_append]

theorem dayOf_eq
    (fourDigits : FourDigitYear date) :
    dayOf date =
      monthOf date ++ ('-' :: digits 2 date.civil.day.toNat) := by
  rw [monthOf_eq fourDigits]
  simp [dayOf, Date.toISOString, isoYear, fourDigits.1, fourDigits.2,
    List.take_append]

/-- Instants share a month label exactly when they share year and month. -/
theorem monthOf_eq_iff
    (firstFour : FourDigitYear first)
    (secondFour : FourDigitYear second) :
    monthOf first = monthOf second ↔
      first.civil.year = second.civil.year ∧
        first.civil.month = second.civil.month := by
  have firstBounds := first.civil_bounds
  have secondBounds := second.civil_bounds
  rw [monthOf_eq firstFour, monthOf_eq secondFour]
  unfold FourDigitYear at firstFour secondFour
  constructor
  · intro sameLabel
    obtain ⟨sameYear, sameRest⟩ := List.append_inj sameLabel (by simp)
    have sameMonth := (List.cons.inj sameRest).2
    rw [digits_inj (by omega) (by omega)] at sameYear sameMonth
    omega
  · rintro ⟨sameYear, sameMonth⟩
    rw [sameYear, sameMonth]

/-- Instants share a day label exactly when they lie in one UTC day. -/
theorem dayOf_eq_iff
    (firstFour : FourDigitYear first)
    (secondFour : FourDigitYear second) :
    dayOf first = dayOf second ↔
      dayNumber first.time = dayNumber second.time := by
  have firstBounds := first.civil_bounds
  have secondBounds := second.civil_bounds
  rw [dayOf_eq firstFour, dayOf_eq secondFour]
  constructor
  · intro sameLabel
    obtain ⟨sameMonthLabel, sameRest⟩ :=
      List.append_inj sameLabel (by
        simp [monthOf_eq firstFour, monthOf_eq secondFour])
    obtain ⟨sameYear, sameMonth⟩ :=
      (monthOf_eq_iff firstFour secondFour).mp sameMonthLabel
    have sameDay := (List.cons.inj sameRest).2
    rw [digits_inj (by omega) (by omega)] at sameDay
    refine civilOfDay_inj.mp (Civil.ext sameYear sameMonth ?_)
    change first.civil.day = second.civil.day
    omega
  · intro sameDay
    have sameCivil : first.civil = second.civil :=
      congrArg civilOfDay sameDay
    rw [monthOf_eq firstFour, monthOf_eq secondFour, sameCivil]

theorem thursdayOf_eq
    (day : ℤ) :
    thursdayOf day = 7 * ((day + 3) / 7) := by
  unfold thursdayOf weekday
  split <;> omega

theorem utcDay_eq
    (date : Civil)
    (modern : 100 ≤ date.year) :
    utcDay date = dayOfCivil date := by
  have notShort : ¬(0 ≤ date.year ∧ date.year ≤ 99) := by omega
  simp [utcDay, notShort]

theorem thursday_year
    {day : ℤ}
    (modern : 101 ≤ (civilOfDay day).year) :
    100 ≤ (civilOfDay (thursdayOf day)).year := by
  have dayBounds := dayOfYear_bounds day
  have thursdayBounds := dayOfYear_bounds (thursdayOf day)
  have near : day - 3 ≤ thursdayOf day := by
    rw [thursdayOf_eq]
    omega
  generalize thursdayOf day = thursday at *
  rw [dayOfCivil_january] at dayBounds thursdayBounds
  unfold marchStart at dayBounds thursdayBounds
  omega

theorem week_bounds
    (day : ℤ) :
    let yearStart :=
      dayOfCivil { year := (civilOfDay day).year, month := 1, day := 1 }
    1 ≤ -(-(day - yearStart + 1) / 7) ∧ -(-(day - yearStart + 1) / 7) ≤ 53 := by
  have bounds := dayOfYear_bounds day
  simp only
  omega

theorem padStart_printed
    {week : ℤ}
    (bounds : 1 ≤ week ∧ week ≤ 53) :
    padStart (printed week) 2 '0' = digits 2 week.toNat := by
  have allWeeks :
      ∀ number : Fin 54,
        padStart (printed (number : ℕ)) 2 '0' = digits 2 (number : ℕ) := by
    decide +kernel
  have printedWeek := allWeeks ⟨week.toNat, by omega⟩
  rwa [Fin.val_mk, Int.toNat_of_nonneg (by omega)] at printedWeek

theorem isoWeekOf_eq
    (modern : 101 ≤ date.civil.year) :
    isoWeekOf date =
      let thursday := thursdayOf (dayNumber date.time)
      let yearStart :=
        dayOfCivil { year := (civilOfDay thursday).year, month := 1, day := 1 }
      printed (civilOfDay thursday).year ++
        ('-' :: 'W' :: digits 2 (-(-(thursday - yearStart + 1) / 7)).toNat) := by
  have sameDay : utcDay date.civil = dayNumber date.time := by
    rw [utcDay_eq _ (by omega)]
    exact dayOfCivil_civilOfDay _
  have thursdayModern := thursday_year modern
  unfold isoWeekOf
  simp only [sameDay]
  rw [utcDay_eq ⟨_, 1, 1⟩ thursdayModern,
    padStart_printed (week_bounds (thursdayOf (dayNumber date.time)))]
  simp

/--
Instants share a week label exactly when they lie in one week from Monday to
Sunday, wherever the year ends within that week.
-/
theorem isoWeekOf_eq_iff
    (firstModern : 101 ≤ first.civil.year)
    (secondModern : 101 ≤ second.civil.year) :
    isoWeekOf first = isoWeekOf second ↔
      (dayNumber first.time + 3) / 7 = (dayNumber second.time + 3) / 7 := by
  rw [isoWeekOf_eq firstModern, isoWeekOf_eq secondModern]
  have firstWeek := week_bounds (thursdayOf (dayNumber first.time))
  have secondWeek := week_bounds (thursdayOf (dayNumber second.time))
  constructor
  · intro sameLabel
    obtain ⟨sameYear, sameRest⟩ := List.append_inj' sameLabel (by simp)
    have yearEq :
        (civilOfDay (thursdayOf (dayNumber first.time))).year =
          (civilOfDay (thursdayOf (dayNumber second.time))).year :=
      Int.repr_inj.mp (String.toList_inj.mp sameYear)
    have sameWeek := (List.cons.inj (List.cons.inj sameRest).2).2
    rw [digits_inj (by omega) (by omega), yearEq] at sameWeek
    rw [yearEq] at firstWeek
    rw [thursdayOf_eq, thursdayOf_eq] at *
    omega
  · intro sameWeek
    simp only [thursdayOf_eq, sameWeek]

end Frameleaf.CloudBackup
