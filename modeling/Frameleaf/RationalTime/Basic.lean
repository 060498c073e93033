import Frameleaf.Lib.Binary64
import Mathlib.Data.Int.GCD
import Mathlib.Data.Rat.Lemmas

namespace Frameleaf.RationalTime

open Binary64

/-!
# Exact rational time

Video time as reduced pairs of safe integers.  JavaScript numbers appear as
the integers they hold; every product and sum is rounded to binary64 before
anything reads it, and quotients go through `floorQuotient`.
`-0` and `0` are one value here: no operation of the module tells them apart.
-/

/-- Why an operation could not be carried out exactly. -/
inductive RationalError where
  | overflow (what : String) (value : ℤ)
  | needsSafeIntegers (num den : ℤ)
  | zeroDenominator
  | invertZero
  | divideByZero
  | invertedBounds
  deriving Repr, DecidableEq

/-- An exact rational number: reduced, with a positive denominator. -/
structure Rational where
  num : ℤ
  den : ℤ
  numSafe : IsSafe num
  denSafe : IsSafe den
  denPos : 0 < den
  reduced : Int.gcd num den = 1
  deriving DecidableEq

/-- A time base: the duration of one tick in seconds. -/
abbrev TimeBase := Rational

/-- How a non-integral rational is collapsed onto an integer. -/
inductive RationalRounding where
  | nearest
  | floor
  | ceil
  | trunc
  deriving Repr, DecidableEq

/-- Euclid's loop on magnitudes. -/
def gcdLoop (x y : ℕ) : ℕ :=
  if y = 0 then
    x
  else
    gcdLoop y (x % y)
termination_by y
decreasing_by exact Nat.mod_lt _ (by omega)

/-- The greatest common divisor of two signed integers. -/
def gcd (a b : ℤ) : ℤ :=
  gcdLoop a.natAbs b.natAbs

theorem gcdLoop_eq
    (x y : ℕ) :
    gcdLoop x y = Nat.gcd x y := by
  fun_induction gcdLoop x y with
  | case1 x =>
      simp
  | case2 x y nonzero inductionHypothesis =>
      rw [inductionHypothesis, Nat.gcd_comm x y, Nat.gcd_rec y x,
        Nat.gcd_comm]

/-- The signed loop computes `Int.gcd`. -/
@[simp] theorem gcd_eq
    (a b : ℤ) :
    gcd a b = Int.gcd a b := by
  simp [gcd, gcdLoop_eq, Int.gcd]

/-- Refuse a double that is not an integer of safe magnitude. -/
def checkSafe (value : ℤ) (what : String) : Except RationalError ℤ :=
  if IsSafe value then
    .ok value
  else
    .error (.overflow what value)

/-- A checked double product. -/
def product (a b : ℤ) (what : String) : Except RationalError ℤ :=
  checkSafe (roundInt (a * b)) what

theorem checkSafe_eq_ok_iff
    {n result : ℤ}
    {what : String} :
    checkSafe (roundInt n) what = .ok result ↔
      IsSafe n ∧ result = n := by
  simp only [checkSafe, isSafe_roundInt_iff]
  split_ifs with safe
  · simp [safe, roundInt_of_safe safe, eq_comm]
  · simp [safe]

theorem product_eq_ok_iff
    {a b result : ℤ}
    {what : String} :
    product a b what = .ok result ↔
      IsSafe (a * b) ∧ result = a * b :=
  checkSafe_eq_ok_iff

theorem reduce_parts
    {num den : ℤ}
    (numSafe : IsSafe num)
    (denSafe : IsSafe den)
    (denPos : 0 < den) :
    let divisor := gcd num den
    ∃ topPart bottomPart : ℤ,
      num = divisor * topPart ∧
        den = divisor * bottomPart ∧
        floorQuotient num divisor = topPart ∧
        floorQuotient den divisor = bottomPart ∧
        0 < bottomPart ∧
        0 < divisor ∧
        Int.gcd topPart bottomPart = 1 := by
  intro divisor
  have divisorPos : 0 < divisor := by
    simp only [divisor, gcd_eq]
    exact_mod_cast Int.gcd_pos_of_ne_zero_right num denPos.ne'
  obtain ⟨topPart, topShape⟩ : divisor ∣ num := by
    simpa [divisor] using Int.gcd_dvd_left (a := num) (b := den)
  obtain ⟨bottomPart, bottomShape⟩ : divisor ∣ den := by
    simpa [divisor] using Int.gcd_dvd_right (a := num) (b := den)
  refine ⟨topPart, bottomPart, topShape, bottomShape,
    floorQuotient_of_dvd numSafe divisorPos topShape,
    floorQuotient_of_dvd denSafe divisorPos bottomShape,
    ?_, divisorPos, ?_⟩
  · rw [bottomShape] at denPos
    exact (mul_pos_iff_of_pos_left divisorPos).mp denPos
  · have shape : (divisor : ℤ) = Int.gcd num den := gcd_eq num den
    have scaled :
        Int.gcd (divisor * topPart) (divisor * bottomPart) =
          divisor.natAbs * Int.gcd topPart bottomPart :=
      Int.gcd_mul_left divisor topPart bottomPart
    rw [← topShape, ← bottomShape] at scaled
    have natShape : divisor.natAbs = Int.gcd num den := by
      rw [shape, Int.natAbs_natCast]
    have natPos : 0 < divisor.natAbs := Int.natAbs_pos.mpr divisorPos.ne'
    rw [← natShape] at scaled
    nlinarith

/-- A signed pair with positive denominator divided by its gcd. -/
def reduce
    (num den : ℤ)
    (numSafe : IsSafe num)
    (denSafe : IsSafe den)
    (denPos : 0 < den) : Rational :=
  let divisor := gcd num den
  { num := floorQuotient num divisor
    den := floorQuotient den divisor
    numSafe := by
      obtain ⟨top, bottom, topShape, -, topEq, -, -, divisorPos, -⟩ :=
        reduce_parts numSafe denSafe denPos
      rw [topEq]
      refine numSafe.of_abs_le ?_
      rw [topShape, abs_mul, abs_of_pos divisorPos]
      nlinarith [abs_nonneg top]
    denSafe := by
      obtain ⟨top, bottom, -, bottomShape, -, bottomEq, -, divisorPos, -⟩ :=
        reduce_parts numSafe denSafe denPos
      rw [bottomEq]
      refine denSafe.of_abs_le ?_
      rw [bottomShape, abs_mul, abs_of_pos divisorPos]
      nlinarith [abs_nonneg bottom]
    denPos := by
      obtain ⟨top, bottom, -, -, -, bottomEq, bottomPos, -, -⟩ :=
        reduce_parts numSafe denSafe denPos
      rw [bottomEq]
      exact bottomPos
    reduced := by
      obtain ⟨top, bottom, -, -, topEq, bottomEq, -, -, coprime⟩ :=
        reduce_parts numSafe denSafe denPos
      rw [topEq, bottomEq]
      exact coprime }

/-- Build a reduced rational: the module's only constructor. -/
def rational (num : ℤ) (den : ℤ := 1) : Except RationalError Rational :=
  if safe : IsSafe num ∧ IsSafe den then
    if zero : den = 0 then
      .error .zeroDenominator
    else if negative : den < 0 then
      .ok (reduce (num * -1) (den * -1)
        (IsSafe.mul_sign safe.1 (.inr rfl))
        (IsSafe.mul_sign safe.2 (.inr rfl))
        (by omega))
    else
      .ok (reduce (num * 1) (den * 1)
        (IsSafe.mul_sign safe.1 (.inl rfl))
        (IsSafe.mul_sign safe.2 (.inl rfl))
        (by omega))
  else
    .error (.needsSafeIntegers num den)

/-- A whole number as a rational. -/
def fromInteger (value : ℤ) : Except RationalError Rational :=
  rational value 1

/-- -1, 0 or 1. -/
def sign (value : Rational) : ℤ :=
  if value.num = 0 then
    0
  else if value.num < 0 then
    -1
  else
    1

/-- The same magnitude with the opposite sign. -/
def negate (value : Rational) : Rational where
  num := -value.num
  den := value.den
  numSafe := by simpa [IsSafe] using value.numSafe
  denSafe := value.denSafe
  denPos := value.denPos
  reduced := by simpa using value.reduced

/-- The reciprocal. -/
def invert (value : Rational) : Except RationalError Rational :=
  if value.num = 0 then
    .error .invertZero
  else
    rational value.den value.num

/-- Exact addition over the least common denominator. -/
def add (a b : Rational) : Except RationalError Rational := do
  let divisor := gcd a.den b.den
  let bScale := floorQuotient b.den divisor
  let aScale := floorQuotient a.den divisor
  let den ← product a.den bScale "A common denominator"
  let left ← product a.num bScale "A sum term"
  let right ← product b.num aScale "A sum term"
  let num ← checkSafe (roundInt (left + right)) "A sum"
  rational num den

/-- Exact subtraction. -/
def subtract (a b : Rational) : Except RationalError Rational :=
  add a (negate b)

/-- Exact multiplication, cross-reduced before the products are formed. -/
def multiply (a b : Rational) : Except RationalError Rational := do
  let left := if gcd a.num b.den = 0 then 1 else gcd a.num b.den
  let right := if gcd b.num a.den = 0 then 1 else gcd b.num a.den
  let num ←
    product (floorQuotient a.num left) (floorQuotient b.num right)
      "A product"
  let den ←
    product (floorQuotient a.den right) (floorQuotient b.den left)
      "A product denominator"
  rational num den

/-- Exact division. -/
def divide (a b : Rational) : Except RationalError Rational :=
  if b.num = 0 then
    .error .divideByZero
  else do
    let inverse ← invert b
    multiply a inverse

/-- The sign of the exact difference. -/
def compare (a b : Rational) : Except RationalError ℤ := do
  let difference ← subtract a b
  return sign difference

/-- Structural equality of the reduced pairs. -/
def equals (a b : Rational) : Bool :=
  a.num = b.num && a.den = b.den

/-- The smaller of two rationals. -/
def min (a b : Rational) : Except RationalError Rational := do
  let order ← compare a b
  return if order ≤ 0 then a else b

/-- The larger of two rationals. -/
def max (a b : Rational) : Except RationalError Rational := do
  let order ← compare a b
  return if order ≥ 0 then a else b

/-- The value moved inside two bounds. -/
def clamp (value lower upper : Rational) : Except RationalError Rational := do
  let order ← compare lower upper
  if order > 0 then
    .error .invertedBounds
  else do
    let raised ← max value lower
    min raised upper

/-- Whether a rational is a whole number. -/
def isInteger (value : Rational) : Bool :=
  value.den = 1

end Frameleaf.RationalTime
