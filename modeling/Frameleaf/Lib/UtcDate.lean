import Mathlib.Algebra.Group.Nat.Defs
import Mathlib.Data.Int.Order.Basic
import Mathlib.Data.List.Basic
import Mathlib.Algebra.Order.Group.Unbundled.Int

namespace Frameleaf.UtcDate

/-!
# Instants of the JavaScript clock and their UTC calendar

A date is a whole number of milliseconds since the epoch, bounded as the
language bounds it.  Days are turned into calendar dates of the proleptic
Gregorian calendar through four-hundred-year eras that start in March, so that
the leap day is the last day of its year.
-/

/-- Milliseconds in one day. -/
def msPerDay : ℤ := 86400000

/-- The largest number of milliseconds that a date may hold. -/
def maxTime : ℤ := 8640000000000000

/-- An instant the language can represent. -/
structure Date where
  time : ℤ
  inRange : |time| ≤ maxTime
  deriving DecidableEq

/-- A calendar date. -/
@[ext] structure Civil where
  year : ℤ
  month : ℤ
  day : ℤ
  deriving Repr, DecidableEq


/-- The day number, counted from the epoch, of a number of milliseconds. -/
def dayNumber (time : ℤ) : ℤ :=
  time / msPerDay

/-- The weekday of a day number: zero for Sunday, as `getUTCDay` counts. -/
def weekday (day : ℤ) : ℤ :=
  (day + 4) % 7

/-- A year that starts in March, and the day within it, counted from zero. -/
structure MarchDay where
  year : ℤ
  day : ℤ

/--
Days counted from the first of March of the year zero.  The last century of an
era and the last year of four years are one day longer than the rest.
-/
def marchDay (day : ℤ) : MarchDay :=
  let era := day / 146097
  let dayOfEra := day % 146097
  let century := min (dayOfEra / 36524) 3
  let dayOfCentury := dayOfEra - 36524 * century
  let quad := dayOfCentury / 1461
  let dayOfQuad := dayOfCentury % 1461
  let yearOfQuad := min (dayOfQuad / 365) 3
  { year := 400 * era + 100 * century + 4 * quad + yearOfQuad
    day := dayOfQuad - 365 * yearOfQuad }

/-- The days before the first of March of a year. -/
def marchStart (year : ℤ) : ℤ :=
  365 * year + year / 4 - year / 100 + year / 400

/-- The calendar date of a day number. -/
def civilOfDay (day : ℤ) : Civil :=
  let march := marchDay (day + 719468)
  let monthOfYear := (5 * march.day + 2) / 153
  let month := if monthOfYear < 10 then monthOfYear + 3 else monthOfYear - 9
  { year := if month ≤ 2 then march.year + 1 else march.year
    month := month
    day := march.day - (153 * monthOfYear + 2) / 5 + 1 }

/-- The day number of a calendar date. -/
def dayOfCivil (date : Civil) : ℤ :=
  let year := if date.month ≤ 2 then date.year - 1 else date.year
  let monthOfYear :=
    if date.month ≤ 2 then date.month + 9 else date.month - 3
  marchStart year + (153 * monthOfYear + 2) / 5 + date.day - 1 - 719468

/-- The UTC calendar date of an instant. -/
def Date.civil (date : Date) : Civil :=
  civilOfDay (dayNumber date.time)

/--
The day number of `Date.UTC(year, month, day)` for whole arguments, the month
counted from one: the years zero to ninety-nine mean the twentieth century.
-/
def utcDay (date : Civil) : ℤ :=
  dayOfCivil
    { date with
      year :=
        if 0 ≤ date.year ∧ date.year ≤ 99 then 1900 + date.year
        else date.year }

/-- The last digits of a number, as many as asked for. -/
def digits : ℕ → ℕ → List Char
  | 0, _ => []
  | width + 1, value => digits width (value / 10) ++ [(value % 10).digitChar]

/-- The year as `toISOString` prints it: expanded outside of four digits. -/
def isoYear (year : ℤ) : List Char :=
  if 0 ≤ year ∧ year ≤ 9999 then
    digits 4 year.toNat
  else if year < 0 then
    '-' :: digits 6 year.natAbs
  else
    '+' :: digits 6 year.toNat

/-- The instant as `toISOString` prints it. -/
def Date.toISOString (date : Date) : List Char :=
  let civil := date.civil
  let timeOfDay := (date.time % msPerDay).toNat
  isoYear civil.year ++ ['-'] ++ digits 2 civil.month.toNat ++ ['-'] ++
    digits 2 civil.day.toNat ++ ['T'] ++
    digits 2 (timeOfDay / 3600000) ++ [':'] ++
    digits 2 (timeOfDay / 60000 % 60) ++ [':'] ++
    digits 2 (timeOfDay / 1000 % 60) ++ ['.'] ++
    digits 3 (timeOfDay % 1000) ++ ['Z']

theorem marchStart_split
    {era century quad yearOfQuad : ℤ}
    (centuryBounds : 0 ≤ century ∧ century ≤ 3)
    (quadBounds : 0 ≤ quad ∧ quad ≤ 24)
    (yearBounds : 0 ≤ yearOfQuad ∧ yearOfQuad ≤ 3) :
    marchStart (400 * era + 100 * century + 4 * quad + yearOfQuad) =
      146097 * era + 36524 * century + 1461 * quad + 365 * yearOfQuad := by
  unfold marchStart
  generalize yearEq : 400 * era + 100 * century + 4 * quad + yearOfQuad = year
  have quads : year / 4 = 100 * era + 25 * century + quad := by omega
  have centuries : year / 100 = 4 * era + century := by omega
  have eras : year / 400 = era := by omega
  rw [quads, centuries, eras]
  omega

theorem marchDay_spec
    (day : ℤ) :
    marchStart (marchDay day).year + (marchDay day).day = day ∧
      0 ≤ (marchDay day).day ∧ (marchDay day).day ≤ 365 := by
  simp only [marchDay]
  rw [marchStart_split (by omega) (by omega) (by omega)]
  omega

theorem civilOfDay_bounds
    (day : ℤ) :
    1 ≤ (civilOfDay day).month ∧ (civilOfDay day).month ≤ 12 ∧
      1 ≤ (civilOfDay day).day ∧ (civilOfDay day).day ≤ 31 := by
  have spec := marchDay_spec (day + 719468)
  simp only [civilOfDay]
  grind

theorem dayOfCivil_civilOfDay
    (day : ℤ) :
    dayOfCivil (civilOfDay day) = day := by
  have spec := marchDay_spec (day + 719468)
  simp only [civilOfDay, dayOfCivil]
  grind

theorem civilOfDay_inj
    {first second : ℤ} :
    civilOfDay first = civilOfDay second ↔ first = second := by
  constructor
  · intro sameDate
    rw [← dayOfCivil_civilOfDay first, sameDate, dayOfCivil_civilOfDay]
  · rintro rfl
    rfl

theorem Date.civil_bounds
    (date : Date) :
    1 ≤ date.civil.month ∧ date.civil.month ≤ 12 ∧
      1 ≤ date.civil.day ∧ date.civil.day ≤ 31 :=
  civilOfDay_bounds (dayNumber date.time)

theorem dayOfCivil_january
    (year : ℤ) :
    dayOfCivil { year := year, month := 1, day := 1 } =
      marchStart (year - 1) + 306 - 719468 := by
  simp [dayOfCivil]

theorem dayOfYear_bounds
    (day : ℤ) :
    dayOfCivil { year := (civilOfDay day).year, month := 1, day := 1 } ≤ day ∧
      day ≤
        dayOfCivil { year := (civilOfDay day).year, month := 1, day := 1 } +
          365 := by
  have spec := marchDay_spec (day + 719468)
  rw [dayOfCivil_january]
  simp only [civilOfDay, marchStart] at *
  grind

/-- A number printed with a width has that width. -/
@[simp] theorem length_digits
    (width value : ℕ) :
    (digits width value).length = width := by
  induction width generalizing value with
  | zero =>
      rfl
  | succ width inductionHypothesis =>
      simp [digits, inductionHypothesis]

/-- Cutting a printed number at its width or later leaves it whole. -/
@[simp] theorem take_digits
    {width limit value : ℕ}
    (fits : width ≤ limit) :
    (digits width value).take limit = digits width value :=
  List.take_of_length_le (by simpa using fits)

theorem digitChar_inj
    {first second : ℕ}
    (firstDigit : first < 10)
    (secondDigit : second < 10)
    (sameChar : first.digitChar = second.digitChar) :
    first = second := by
  have allDigits :
      ∀ left right : Fin 10,
        (left : ℕ).digitChar = (right : ℕ).digitChar → left = right := by
    decide
  have sameDigit :=
    allDigits ⟨first, firstDigit⟩ ⟨second, secondDigit⟩ sameChar
  exact congrArg Fin.val sameDigit

theorem digits_inj
    {width first second : ℕ}
    (firstFits : first < 10 ^ width)
    (secondFits : second < 10 ^ width) :
    digits width first = digits width second ↔ first = second := by
  constructor
  · intro samePrint
    induction width generalizing first second with
    | zero =>
        omega
    | succ width inductionHypothesis =>
        rw [Nat.pow_succ] at firstFits secondFits
        obtain ⟨sameFront, sameLast⟩ :=
          List.append_inj samePrint (by simp)
        have sameQuotient :=
          inductionHypothesis (by omega) (by omega) sameFront
        have sameDigit :=
          digitChar_inj (by omega) (by omega) (List.singleton_inj.mp sameLast)
        omega
  · rintro rfl
    rfl

end Frameleaf.UtcDate
