import Mathlib.Algebra.Order.Round
import Mathlib.Data.Rat.Floor
import Mathlib.Tactic.Linarith
import Mathlib.Tactic.Positivity
import Mathlib.Tactic.FieldSimp
import Mathlib.Tactic.Ring

namespace Frameleaf.Rounding

/-!
# Rounding to the nearest number of a grid

Halves are rounded up.  A number that is on the grid already stays as it is, so
that bounds on the grid are kept and rounding again changes nothing.
-/

/-- The nearest integer, the upper one of two. -/
def nearest (value : ℚ) : ℤ :=
  ⌊value + 1 / 2⌋

/-- A value that is moved into a range. -/
def clamp
    (value low high : ℚ) : ℚ :=
  max low (min high value)

/-- The nearest fraction with a denominator. -/
def toGrid
    (denominator : ℕ)
    (value : ℚ) : ℚ :=
  nearest (value * denominator) / denominator

/-- A number is a fraction with a denominator. -/
def OnGrid
    (denominator : ℕ)
    (value : ℚ) : Prop :=
  ∃ numerator : ℤ, value * denominator = numerator

variable {denominator : ℕ} {value low high : ℚ}

/-- An integer is its own nearest one. -/
@[simp] theorem nearest_intCast
    (integer : ℤ) :
    nearest integer = integer := by
  have half : ⌊(1 / 2 : ℚ)⌋ = 0 := by
    norm_num
  rw [nearest, Int.floor_intCast_add, half, add_zero]

variable {first second : ℚ}

theorem nearest_mono
    (ordered : first ≤ second) :
    nearest first ≤ nearest second :=
  Int.floor_le_floor (by linarith)

variable {integer : ℤ}

theorem le_nearest
    (isBelow : (integer : ℚ) ≤ value) :
    integer ≤ nearest value := by
  rw [← nearest_intCast integer]
  exact nearest_mono isBelow

theorem nearest_le
    (isAbove : value ≤ integer) :
    nearest value ≤ integer := by
  rw [← nearest_intCast integer]
  exact nearest_mono isAbove

theorem nearest_lt_iff :
    nearest value < integer ↔ value < integer - 1 / 2 := by
  rw [nearest, Int.floor_lt]
  constructor
  · intro isBelow
    linarith
  · intro isBelow
    linarith

theorem low_le_clamp
    (value low high : ℚ) :
    low ≤ clamp value low high :=
  le_max_left _ _

theorem clamp_le_high
    (ordered : low ≤ high) :
    clamp value low high ≤ high :=
  max_le ordered (min_le_left _ _)

theorem clamp_of_mem
    (isAbove : low ≤ value)
    (isBelow : value ≤ high) :
    clamp value low high = value := by
  rw [clamp, min_eq_right isBelow, max_eq_right isAbove]

theorem onGrid_toGrid
    (positive : 0 < denominator)
    (value : ℚ) :
    OnGrid denominator (toGrid denominator value) := by
  refine ⟨nearest (value * denominator), ?_⟩
  have nonzero : (denominator : ℚ) ≠ 0 := by
    positivity
  rw [toGrid, div_mul_cancel₀ _ nonzero]

theorem toGrid_of_onGrid
    (positive : 0 < denominator)
    (onGrid : OnGrid denominator value) :
    toGrid denominator value = value := by
  obtain ⟨numerator, isFraction⟩ := onGrid
  have nonzero : (denominator : ℚ) ≠ 0 := by
    positivity
  rw [toGrid, isFraction, nearest_intCast, ← isFraction,
    mul_div_cancel_right₀ _ nonzero]

theorem toGrid_mono
    (ordered : first ≤ second) :
    toGrid denominator first ≤ toGrid denominator second := by
  have scaled : first * denominator ≤ second * denominator :=
    mul_le_mul_of_nonneg_right ordered (Nat.cast_nonneg _)
  have rounded : (nearest (first * denominator) : ℚ) ≤
      nearest (second * denominator) :=
    Int.cast_le.mpr (nearest_mono scaled)
  exact div_le_div_of_nonneg_right rounded (Nat.cast_nonneg _)

theorem le_toGrid
    (positive : 0 < denominator)
    (onGrid : OnGrid denominator low)
    (isAbove : low ≤ value) :
    low ≤ toGrid denominator value := by
  rw [← toGrid_of_onGrid positive onGrid]
  exact toGrid_mono isAbove

theorem toGrid_le
    (positive : 0 < denominator)
    (onGrid : OnGrid denominator high)
    (isBelow : value ≤ high) :
    toGrid denominator value ≤ high := by
  rw [← toGrid_of_onGrid positive onGrid]
  exact toGrid_mono isBelow

theorem OnGrid.sub
    (isFirst : OnGrid denominator first)
    (isSecond : OnGrid denominator second) :
    OnGrid denominator (first - second) := by
  obtain ⟨firstNumerator, firstFraction⟩ := isFirst
  obtain ⟨secondNumerator, secondFraction⟩ := isSecond
  refine ⟨firstNumerator - secondNumerator, ?_⟩
  rw [sub_mul, firstFraction, secondFraction, Int.cast_sub]

theorem onGrid_iff_den :
    OnGrid denominator value ↔ (value * denominator).den = 1 := by
  constructor
  · rintro ⟨numerator, isFraction⟩
    rw [isFraction]
    exact Rat.den_intCast numerator
  · intro isWhole
    exact ⟨_, (Rat.coe_int_num_of_den_eq_one isWhole).symm⟩

instance
    (denominator : ℕ)
    (value : ℚ) :
    Decidable (OnGrid denominator value) :=
  decidable_of_iff _ onGrid_iff_den.symm

theorem onGrid_intCast
    (denominator : ℕ)
    (integer : ℤ) :
    OnGrid denominator integer :=
  ⟨integer * denominator, by push_cast; ring⟩

end Frameleaf.Rounding
