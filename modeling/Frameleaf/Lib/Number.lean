import Frameleaf.Lib.Binary64
import Mathlib.Order.WithBot

namespace Frameleaf

/-!
# Numbers that may be infinite or no number at all

A comparison with what is no number fails, and so does the greater of two
numbers of which one is no number.  On all others the order is the usual one.
-/

/-- A number, an infinity, or (`none`) what is no number. -/
abbrev Number :=
  Option (WithBot (WithTop ℚ))

namespace Number

/-- A finite number. -/
def finite
    (value : ℚ) : Number :=
  some ((value : WithTop ℚ) : WithBot (WithTop ℚ))

/-- The infinity above all numbers. -/
def infinity : Number :=
  some ((⊤ : WithTop ℚ) : WithBot (WithTop ℚ))

/-- One number is less than another. -/
def lt : Number → Number → Bool
  | some first, some second => decide (first < second)
  | _, _ => false

/-- One number is at most another. -/
def le : Number → Number → Bool
  | some first, some second => decide (first ≤ second)
  | _, _ => false

/-- The greater of two numbers. -/
def max : Number → Number → Number
  | some first, some second => some (Max.max first second)
  | _, _ => none

/-- The sum of two numbers, where both are finite. -/
def add : Number → Number → Number
  | some (some (some first)), some (some (some second)) =>
      finite (first + second)
  | _, _ => none

/-- The difference of two numbers, where both are finite. -/
def sub : Number → Number → Number
  | some (some (some first)), some (some (some second)) =>
      finite (first - second)
  | _, _ => none

/-- Neither an infinity nor no number. -/
def isFinite : Number → Bool
  | some (some (some _)) => true
  | _ => false

/-- An integer that no rounding can have hidden. -/
def isSafeInteger : Number → Bool
  | some (some (some value)) =>
      value.den = 1 && decide (Binary64.IsSafe value.num)
  | _ => false

/-- Some number, perhaps infinite. -/
def IsNumber
    (number : Number) : Prop :=
  number.isSome = true

theorem isNumber_finite
    (value : ℚ) :
    (finite value).IsNumber :=
  rfl

variable {number first second : Number}

theorem IsNumber.of_isFinite
    (isFinite : number.isFinite = true) :
    number.IsNumber := by
  cases number with
  | none => cases isFinite
  | some value => rfl

theorem IsNumber.of_isSafeInteger
    (isSafe : number.isSafeInteger = true) :
    number.IsNumber := by
  cases number with
  | none => cases isSafe
  | some value => rfl

theorem le_of_not_lt_max
    (isNumber : number.IsNumber)
    (firstNumber : first.IsNumber)
    (secondNumber : second.IsNumber)
    (notBelow : number.lt (first.max second) = false) :
    first.le number = true := by
  obtain ⟨value, rfl⟩ := Option.isSome_iff_exists.mp isNumber
  obtain ⟨left, rfl⟩ := Option.isSome_iff_exists.mp firstNumber
  obtain ⟨right, rfl⟩ := Option.isSome_iff_exists.mp secondNumber
  have above : Max.max left right ≤ value :=
    not_lt.mp (of_decide_eq_false notBelow)
  exact decide_eq_true ((le_max_left left right).trans above)

theorem not_lt_max_of_le
    (aboveFirst : first.le number = true)
    (aboveSecond : second.le number = true) :
    number.lt (first.max second) = false := by
  cases number with
  | none =>
      rfl
  | some value =>
      cases first with
      | none => cases aboveFirst
      | some left =>
          cases second with
          | none => cases aboveSecond
          | some right =>
              have above : Max.max left right ≤ value :=
                max_le (of_decide_eq_true aboveFirst)
                  (of_decide_eq_true aboveSecond)
              exact decide_eq_false (not_lt.mpr above)

theorem finite_le_of_le
    {low high : ℚ}
    (lower : low ≤ high)
    (above : (finite high).le number = true) :
    (finite low).le number = true := by
  cases number with
  | none =>
      cases above
  | some value =>
      have isAbove : ((high : WithTop ℚ) : WithBot (WithTop ℚ)) ≤ value :=
        of_decide_eq_true above
      refine decide_eq_true (le_trans ?_ isAbove)
      exact WithBot.coe_le_coe.mpr (WithTop.coe_le_coe.mpr lower)

/-- The number that a text of decimal digits denotes. -/
def ofDigits
    (text : String) : Number :=
  let digits := text.toList.foldl
    (fun total digit => total * 10 + (digit.toNat - '0'.toNat)) 0
  -- From here on the nearest double is the infinity.
  if 2 ^ 1024 - 2 ^ 970 ≤ digits then
    infinity
  else
    finite (Binary64.roundDouble digits)

theorem isNumber_ofDigits
    (text : String) :
    (ofDigits text).IsNumber := by
  unfold ofDigits
  dsimp only
  split
  · rfl
  · rfl

end Number

end Frameleaf
