import Mathlib.Data.Int.Log
import Mathlib.Data.Rat.Floor
import Mathlib.Algebra.Order.Field.Power
import Mathlib.Tactic.FieldSimp
import Mathlib.Tactic.Linarith
import Mathlib.Tactic.NormNum
import Mathlib.Tactic.Positivity
import Mathlib.Tactic.Ring

namespace Frameleaf.Binary64

/-!
# Rounding to binary64

IEEE 754 round-to-nearest, ties-to-even, of an exact rational to 53 significant
bits.  The exponent range is left unbounded: subnormals, infinities and NaN
never arise from the integer arithmetic this library serves, whose values lie
between `2 ^ -53` and `2 ^ 106` in magnitude.

The facts proved are the ones integer code on doubles rests on: an integer
below `2 ^ 53` is exact, an integer from `2 ^ 53` on never rounds back below
it, and the floor of a rounded quotient is the quotient's own floor.
-/

/-- The largest integer `n` with both `n` and `n + 1` exact: `2 ^ 53 - 1`. -/
def maxSafeInteger : ℤ :=
  9007199254740991

/-- The integers a double holds without any neighbour rounding onto them. -/
def IsSafe (n : ℤ) : Prop :=
  |n| ≤ maxSafeInteger

instance (n : ℤ) : Decidable (IsSafe n) :=
  inferInstanceAs (Decidable (|n| ≤ maxSafeInteger))

/-- The nearest integer, ties going to the even one. -/
def roundHalfEven (value : ℚ) : ℤ :=
  let below := ⌊value⌋
  let rest := value - below
  if rest < 1 / 2 then
    below
  else if 1 / 2 < rest then
    below + 1
  else if below % 2 = 0 then
    below
  else
    below + 1

/-- The spacing of the doubles in the binade of `value`. -/
def ulp (value : ℚ) : ℚ :=
  2 ^ (Int.log 2 |value| - 52)

/-- The double nearest to an exact rational. -/
def roundDouble (value : ℚ) : ℚ :=
  if value = 0 then
    0
  else
    roundHalfEven (value / ulp value) * ulp value

/-- The double nearest to an integer, itself an integer. -/
def roundInt (n : ℤ) : ℤ :=
  ⌊roundDouble n⌋

/-- The double quotient of two integers, collapsed downwards onto an integer. -/
def floorQuotient (num den : ℤ) : ℤ :=
  ⌊roundDouble (num / den)⌋

theorem abs_roundHalfEven_sub_le
    (value : ℚ) :
    |(roundHalfEven value : ℚ) - value| ≤ 1 / 2 := by
  have lower := Int.floor_le value
  have upper := Int.lt_floor_add_one value
  dsimp only [roundHalfEven]
  split_ifs with small large even <;>
    rw [abs_le] <;> push_cast <;> constructor <;> linarith

variable {value : ℚ}

theorem le_roundHalfEven
    {bound : ℤ}
    (below : (bound : ℚ) ≤ value) :
    bound ≤ roundHalfEven value := by
  have floorBound : bound ≤ ⌊value⌋ := Int.le_floor.mpr below
  dsimp only [roundHalfEven]
  split_ifs <;> omega

theorem roundHalfEven_le
    {bound : ℤ}
    (above : value ≤ bound) :
    roundHalfEven value ≤ bound := by
  have lower := Int.floor_le value
  rcases above.eq_or_lt with same | strict
  · subst same
    simp [roundHalfEven]
  · have floorBound : ⌊value⌋ < bound := by
      exact_mod_cast lower.trans_lt strict
    dsimp only [roundHalfEven]
    split_ifs <;> omega

theorem ulp_pos
    (value : ℚ) :
    0 < ulp value := by
  unfold ulp
  positivity

theorem ulp_mul_le_abs
    (nonzero : value ≠ 0) :
    ulp value * 2 ^ 52 ≤ |value| := by
  have bound :=
    Int.zpow_log_le_self (b := 2) (by norm_num)
      (abs_pos.mpr nonzero)
  have unfolded :
      ulp value * 2 ^ 52 = (2 : ℚ) ^ Int.log 2 |value| := by
    rw [ulp, ← zpow_natCast (2 : ℚ) 52, ← zpow_add₀ (by norm_num)]
    norm_num
  rw [unfolded]
  exact_mod_cast bound

theorem abs_roundDouble_sub_le
    (value : ℚ) :
    |roundDouble value - value| ≤ ulp value / 2 := by
  have spacing := ulp_pos value
  unfold roundDouble
  split_ifs with zero
  · subst zero
    simpa using (half_pos spacing).le
  · have inner :=
      abs_roundHalfEven_sub_le (value / ulp value)
    have scaled :
        (roundHalfEven (value / ulp value) : ℚ) * ulp value - value =
          ((roundHalfEven (value / ulp value) : ℚ) -
            value / ulp value) * ulp value := by
      field_simp
    rw [scaled, abs_mul, abs_of_pos spacing]
    calc
      |(roundHalfEven (value / ulp value) : ℚ) -
            value / ulp value| * ulp value
          ≤ 1 / 2 * ulp value :=
        mul_le_mul_of_nonneg_right inner spacing.le
      _ = ulp value / 2 := by ring

theorem exists_int_mul_ulp
    (nonzero : value ≠ 0)
    (small : |value| < 2 ^ 53)
    (n : ℤ) :
    ∃ multiple : ℤ, (n : ℚ) = multiple * ulp value := by
  have logBound : Int.log 2 |value| ≤ 52 := by
    have bound :=
      Int.zpow_log_le_self (b := 2) (by norm_num)
        (abs_pos.mpr nonzero)
    have strict :
        (2 : ℚ) ^ Int.log 2 |value| < 2 ^ (53 : ℤ) := by
      calc
        (2 : ℚ) ^ Int.log 2 |value| ≤ |value| := by
          exact_mod_cast bound
        _ < 2 ^ (53 : ℤ) := by exact_mod_cast small
    have := (zpow_lt_zpow_iff_right₀ (by norm_num)).mp strict
    omega
  obtain ⟨shift, shiftShape⟩ :=
    Int.eq_ofNat_of_zero_le
      (show 0 ≤ 52 - Int.log 2 |value| by omega)
  refine ⟨n * 2 ^ shift, ?_⟩
  have exponent :
      Int.log 2 |value| - 52 = -(shift : ℤ) := by omega
  rw [ulp, exponent, zpow_neg, zpow_natCast]
  push_cast
  field_simp

variable {n num den : ℤ}

theorem intCast_le_roundDouble
    (small : |value| < 2 ^ 53)
    (below : (n : ℚ) ≤ value) :
    (n : ℚ) ≤ roundDouble value := by
  unfold roundDouble
  split_ifs with zero
  · simpa [zero] using below
  · obtain ⟨multiple, shape⟩ := exists_int_mul_ulp zero small n
    have spacing := ulp_pos value
    have scaled : (multiple : ℚ) ≤ value / ulp value := by
      rw [le_div_iff₀ spacing, ← shape]
      exact below
    rw [shape]
    exact mul_le_mul_of_nonneg_right
      (by exact_mod_cast le_roundHalfEven scaled) spacing.le

theorem roundDouble_le_intCast
    (small : |value| < 2 ^ 53)
    (above : value ≤ n) :
    roundDouble value ≤ n := by
  unfold roundDouble
  split_ifs with zero
  · simpa [zero] using above
  · obtain ⟨multiple, shape⟩ := exists_int_mul_ulp zero small n
    have spacing := ulp_pos value
    have scaled : value / ulp value ≤ (multiple : ℚ) := by
      rw [div_le_iff₀ spacing, ← shape]
      exact above
    rw [shape]
    exact mul_le_mul_of_nonneg_right
      (by exact_mod_cast roundHalfEven_le scaled) spacing.le

theorem IsSafe.abs_cast_lt
    (safe : IsSafe n) :
    |(n : ℚ)| < 2 ^ 53 := by
  have bound : |n| < 2 ^ 53 := by
    unfold IsSafe maxSafeInteger at safe
    omega
  exact_mod_cast bound

theorem IsSafe.of_abs_le
    {small large : ℤ}
    (safe : IsSafe large)
    (bound : |small| ≤ |large|) :
    IsSafe small :=
  bound.trans safe

theorem IsSafe.mul_sign
    {sign : ℤ}
    (safe : IsSafe n)
    (unit : sign = 1 ∨ sign = -1) :
    IsSafe (n * sign) := by
  rcases unit with rfl | rfl <;> simpa [IsSafe] using safe

theorem roundDouble_intCast
    (safe : IsSafe n) :
    roundDouble (n : ℚ) = n :=
  le_antisymm
    (roundDouble_le_intCast safe.abs_cast_lt le_rfl)
    (intCast_le_roundDouble safe.abs_cast_lt le_rfl)

/-- A value of magnitude `2 ^ 53` or more never rounds below that magnitude. -/
theorem two_pow_le_abs_roundDouble
    (large : 2 ^ 53 ≤ |value|) :
    2 ^ 53 ≤ |roundDouble value| := by
  have nonzero : value ≠ 0 := by
    rintro rfl
    norm_num at large
  have spacing := ulp_pos value
  have logBound : (53 : ℤ) ≤ Int.log 2 |value| := by
    rw [← Int.zpow_le_iff_le_log (by norm_num) (abs_pos.mpr nonzero)]
    exact_mod_cast large
  obtain ⟨shift, shiftShape⟩ :=
    Int.eq_ofNat_of_zero_le
      (show 0 ≤ Int.log 2 |value| - 53 by omega)
  have spacingShape : ulp value = 2 ^ (shift + 1) := by
    have exponent :
        Int.log 2 |value| - 52 = ((shift + 1 : ℕ) : ℤ) := by
      push_cast
      omega
    rw [ulp, exponent, zpow_natCast]
  have scaledLarge : (2 ^ 52 : ℚ) ≤ |value / ulp value| := by
    rw [abs_div, abs_of_pos spacing, le_div_iff₀ spacing, mul_comm]
    exact ulp_mul_le_abs nonzero
  have roundedLarge :
      (2 ^ 52 : ℚ) ≤ |(roundHalfEven (value / ulp value) : ℚ)| := by
    rcases le_abs.mp scaledLarge with positive | negative
    · have bound : (2 ^ 52 : ℤ) ≤ roundHalfEven (value / ulp value) :=
        le_roundHalfEven (by exact_mod_cast positive)
      exact le_abs.mpr (Or.inl (by exact_mod_cast bound))
    · have bound : roundHalfEven (value / ulp value) ≤ -2 ^ 52 :=
        roundHalfEven_le (by push_cast; linarith)
      have castBound :
          (roundHalfEven (value / ulp value) : ℚ) ≤ -2 ^ 52 := by
        exact_mod_cast bound
      exact le_abs.mpr (Or.inr (by linarith))
  have spacingLarge : (2 : ℚ) ≤ ulp value := by
    rw [spacingShape, pow_succ]
    have : (1 : ℚ) ≤ 2 ^ shift := one_le_pow₀ (by norm_num)
    linarith
  rw [roundDouble, if_neg nonzero, abs_mul, abs_of_pos spacing]
  calc
    (2 : ℚ) ^ 53 = 2 ^ 52 * 2 := by norm_num
    _ ≤ |(roundHalfEven (value / ulp value) : ℚ)| * ulp value :=
      mul_le_mul roundedLarge spacingLarge (by norm_num) (abs_nonneg _)

theorem roundInt_of_safe
    (safe : IsSafe n) :
    roundInt n = n := by
  rw [roundInt, roundDouble_intCast safe, Int.floor_intCast]

theorem isSafe_roundInt_iff :
    IsSafe (roundInt n) ↔ IsSafe n := by
  constructor
  · intro roundedSafe
    by_contra unsafeInput
    have large : (2 : ℚ) ^ 53 ≤ |(n : ℚ)| := by
      have bound : (2 : ℤ) ^ 53 ≤ |n| := by
        unfold IsSafe maxSafeInteger at unsafeInput
        omega
      exact_mod_cast bound
    have strict := roundedSafe.abs_cast_lt
    rw [abs_lt] at strict
    rcases le_abs.mp (two_pow_le_abs_roundDouble large) with
        positive | negative
    · have floorBound : (2 ^ 53 : ℤ) ≤ roundInt n :=
        Int.le_floor.mpr (by exact_mod_cast positive)
      have castBound : (2 ^ 53 : ℚ) ≤ roundInt n := by
        exact_mod_cast floorBound
      linarith
    · have floorBound := Int.floor_le (roundDouble (n : ℚ))
      have castBound : (roundInt n : ℚ) ≤ roundDouble n := floorBound
      linarith
  · intro safe
    rwa [roundInt_of_safe safe]

theorem roundHalfEven_add_half
    (n : ℤ) :
    roundHalfEven (n + 1 / 2) = if n % 2 = 0 then n else n + 1 := by
  have floorShape : ⌊(n : ℚ) + 1 / 2⌋ = n := by
    rw [Int.floor_intCast_add]
    norm_num
  simp only [roundHalfEven, floorShape, add_sub_cancel_left, lt_irrefl,
    ↓reduceIte]

/--
From `2 ^ 53` to `2 ^ 54` only the even integers are doubles, and an odd one
moves to the neighbour divisible by four.
-/
theorem roundInt_of_binade
    (lower : 2 ^ 53 ≤ |n|)
    (upper : |n| < 2 ^ 54) :
    roundInt n =
      if n % 2 = 0 then n else if n % 4 = 1 then n - 1 else n + 1 := by
  have positive : 0 < |(n : ℚ)| := by
    have : 0 < |n| := by omega
    exact_mod_cast this
  have nonzero : (n : ℚ) ≠ 0 := abs_pos.mp positive
  have logShape : Int.log 2 |(n : ℚ)| = 53 := by
    have low : (53 : ℤ) ≤ Int.log 2 |(n : ℚ)| := by
      rw [← Int.zpow_le_iff_le_log (by norm_num) positive]
      exact_mod_cast lower
    have high : Int.log 2 |(n : ℚ)| < 54 := by
      rw [← Int.lt_zpow_iff_log_lt (by norm_num) positive]
      exact_mod_cast upper
    omega
  have spacing : ulp (n : ℚ) = 2 := by
    rw [ulp, logShape]
    norm_num
  have rounded :
      roundInt n = roundHalfEven ((n : ℚ) / 2) * 2 := by
    rw [roundInt, roundDouble, if_neg nonzero, spacing]
    have cast :
        (roundHalfEven ((n : ℚ) / 2) : ℚ) * 2 =
          ((roundHalfEven ((n : ℚ) / 2) * 2 : ℤ) : ℚ) := by
      push_cast
      ring
    rw [cast, Int.floor_intCast]
  rw [rounded]
  split_ifs with even quarter
  · obtain ⟨half, halfShape⟩ := Int.dvd_of_emod_eq_zero even
    have value : (n : ℚ) / 2 = half := by
      rw [halfShape]
      push_cast
      ring
    have exact : roundHalfEven (half : ℚ) = half := by
      simp [roundHalfEven]
    rw [value, exact, halfShape, mul_comm]
  · obtain ⟨half, halfShape⟩ : ∃ half, n = 2 * half + 1 :=
      ⟨n / 2, by omega⟩
    have value : (n : ℚ) / 2 = half + 1 / 2 := by
      rw [halfShape]
      push_cast
      ring
    rw [value, roundHalfEven_add_half, if_pos (by omega)]
    omega
  · obtain ⟨half, halfShape⟩ : ∃ half, n = 2 * half + 1 :=
      ⟨n / 2, by omega⟩
    have value : (n : ℚ) / 2 = half + 1 / 2 := by
      rw [halfShape]
      push_cast
      ring
    rw [value, roundHalfEven_add_half, if_neg (by omega)]
    omega

/--
The floor of a double quotient of safe integers is the floor of the exact
quotient: rounding cannot reach the next integer, which is at least `1 / den`
away while half a spacing is less than `|num| / (den * 2 ^ 53)`.
-/
theorem floorQuotient_eq
    (numSafe : IsSafe num)
    (denPos : 0 < den) :
    floorQuotient num den = num / den := by
  have denCast : (0 : ℚ) < den := by exact_mod_cast denPos
  have denOne : (1 : ℚ) ≤ den := by exact_mod_cast denPos
  have small : |(num : ℚ) / den| < 2 ^ 53 := by
    rw [abs_div, abs_of_pos denCast, div_lt_iff₀ denCast]
    have := numSafe.abs_cast_lt
    nlinarith [abs_nonneg (num : ℚ)]
  have floorLe : ((num / den : ℤ) : ℚ) ≤ (num : ℚ) / den := by
    rw [le_div_iff₀ denCast]
    exact_mod_cast Int.ediv_mul_le num denPos.ne'
  have gap : num + 1 ≤ (num / den + 1) * den := by
    have := Int.lt_ediv_add_one_mul_self num denPos
    omega
  have gapCast :
      (num : ℚ) + 1 ≤ ((num / den : ℤ) + 1 : ℚ) * den := by
    exact_mod_cast gap
  have belowNext : (num : ℚ) / den ≤ ((num / den + 1 : ℤ) : ℚ) := by
    rw [div_le_iff₀ denCast]
    push_cast
    linarith
  unfold floorQuotient
  rw [Int.floor_eq_iff]
  refine ⟨intCast_le_roundDouble small floorLe, ?_⟩
  have roundLe := roundDouble_le_intCast small belowNext
  push_cast at roundLe
  refine lt_of_le_of_ne roundLe ?_
  intro reached
  by_cases zero : (num : ℚ) / den = 0
  · have roundZero : roundDouble ((num : ℚ) / den) = 0 := by
      simp [roundDouble, zero]
    rw [roundZero] at reached
    have numZero : num = 0 := by
      have := (div_eq_zero_iff.mp zero).resolve_right denCast.ne'
      exact_mod_cast this
    simp [numZero] at reached
  · have distance := abs_roundDouble_sub_le ((num : ℚ) / den)
    rw [reached] at distance
    have spacingBound := ulp_mul_le_abs zero
    have gapDiv :
        1 / (den : ℚ) ≤ ((num / den : ℤ) + 1 : ℚ) - num / den := by
      rw [le_sub_iff_add_le, ← add_div, div_le_iff₀ denCast]
      linarith
    have quotientAbs : |(num : ℚ) / den| = |(num : ℚ)| * (1 / den) := by
      rw [abs_div, abs_of_pos denCast, mul_one_div]
    have numBound : |(num : ℚ)| ≤ 2 ^ 53 - 1 := by
      have bound : |num| ≤ 2 ^ 53 - 1 := by
        unfold IsSafe maxSafeInteger at numSafe
        omega
      exact_mod_cast bound
    have unitPos : 0 < 1 / (den : ℚ) := by positivity
    -- one unit of the quotient is more than the distance rounding may cover
    have distanceUpper := (le_abs_self _).trans distance
    rw [quotientAbs] at spacingBound
    nlinarith

theorem floorQuotient_of_dvd
    {factor : ℤ}
    (numSafe : IsSafe num)
    (denPos : 0 < den)
    (factors : num = den * factor) :
    floorQuotient num den = factor := by
  rw [floorQuotient_eq numSafe denPos, factors,
    Int.mul_ediv_cancel_left factor denPos.ne']

end Frameleaf.Binary64
