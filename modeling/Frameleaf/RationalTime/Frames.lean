import Frameleaf.RationalTime.Exact
import Mathlib.Algebra.Order.Floor.Ring
import Mathlib.Tactic.Positivity

namespace Frameleaf.RationalTime

open Binary64 Outcome

/-!
# Frames, ticks and the grids they share

Rounding a rational onto an integer, converting ticks between time bases, and
placing times on a constant cadence.  Frame starts and tick boundaries describe
the same set of instants.  A frame index is the floor of time times cadence,
except where the unchecked product of `floorDivide` leaves the safe integers
and rounds far enough for its own correction loop to move the quotient.
-/

/--
Borrow a denominator while the remainder is negative.  The remainder stays
between `-2 ^ 53` and the denominator, so each step is exact on doubles.
-/
def borrow
    (den : ℤ)
    (denPos : 0 < den)
    (quotient remainder : ℤ) : ℤ × ℤ :=
  if remainder < 0 then
    borrow den denPos (quotient - 1) (remainder + den)
  else
    (quotient, remainder)
termination_by (-remainder).toNat

/--
Carry a denominator while the remainder is too large.  The remainder stays
between zero and `2 ^ 53`, so each step is exact on doubles.
-/
def carry
    (den : ℤ)
    (denPos : 0 < den)
    (quotient remainder : ℤ) : ℤ × ℤ :=
  if den ≤ remainder then
    carry den denPos (quotient + 1) (remainder - den)
  else
    (quotient, remainder)
termination_by remainder.toNat

/--
Floor division by a positive denominator, with its remainder.  The product is
a plain double product: nothing checks that it is safe.
-/
def floorDivide
    (num den : ℤ)
    (denPos : 0 < den) : ℤ × ℤ :=
  let quotient := floorQuotient num den
  let remainder := roundInt (num - roundInt (quotient * den))
  let borrowed := borrow den denPos quotient remainder
  carry den denPos borrowed.1 borrowed.2

/-- Collapse a rational onto an integer with a named rule. -/
def roundToInteger
    (value : Rational)
    (mode : RationalRounding := .nearest) : Except RationalError ℤ :=
  if value.den = 1 then
    .ok value.num
  else
    let divided := floorDivide value.num value.den value.denPos
    match mode with
    | .floor =>
        .ok divided.1
    | .ceil =>
        .ok (if divided.2 = 0 then divided.1 else divided.1 + 1)
    | .trunc =>
        .ok (if value.num < 0 then divided.1 + 1 else divided.1)
    | .nearest => do
        -- The magnitude decides, so that a tie moves away from zero.
        let whole := floorDivide |value.num| value.den value.denPos
        let doubled ← product whole.2 2 "A rounding comparison"
        let rounded :=
          if doubled ≥ value.den then whole.1 + 1 else whole.1
        return if value.num < 0 then -rounded else rounded

/-- Rounding towards negative infinity. -/
def floor (value : Rational) : Except RationalError ℤ :=
  roundToInteger value .floor

/-- Rounding towards positive infinity. -/
def ceil (value : Rational) : Except RationalError ℤ :=
  roundToInteger value .ceil

/-- Seconds for a whole number of ticks of a time base. -/
def ticksToSeconds
    (ticks : ℤ)
    (timeBase : TimeBase) : Except RationalError Rational := do
  multiply (← fromInteger ticks) timeBase

/-- A tick count on another grid, and whether the instant exists there. -/
structure Rescaled where
  ticks : ℤ
  exact : Bool
  deriving Repr, DecidableEq

/-- Convert a tick count from one time base to another. -/
def rescaleTicks
    (ticks : ℤ)
    (source target : TimeBase)
    (mode : RationalRounding := .nearest) :
    Except RationalError Rescaled := do
  let seconds ← ticksToSeconds ticks source
  let scaled ← divide seconds target
  let rounded ← roundToInteger scaled mode
  return { ticks := rounded, exact := isInteger scaled }

/-- The nominal duration of one frame. -/
def frameDuration (frameRate : Rational) : Except RationalError Rational :=
  invert frameRate

/-- The exact start time of a frame at a constant cadence. -/
def frameStartTime
    (index : ℤ)
    (frameRate : Rational) : Except RationalError Rational := do
  divide (← fromInteger index) frameRate

/-- The index of the frame being shown at a time. -/
def frameIndexAt
    (time frameRate : Rational) : Except RationalError ℤ := do
  roundToInteger (← multiply time frameRate) .floor

/-- Snap a time back to the start of the frame that contains it. -/
def snapToFrame
    (time frameRate : Rational) : Except RationalError Rational := do
  frameStartTime (← frameIndexAt time frameRate) frameRate

/-- The exact start of a timeline frame. -/
def timelineFrameTime
    (frame : ℤ)
    (cadence : Rational) : Except RationalError Rational :=
  frameStartTime frame cadence

/-- The output tick at which a timeline frame starts, when it is on the grid. -/
def timelineFrameTicks
    (frame : ℤ)
    (cadence : Rational)
    (timeBase : TimeBase) : Except RationalError (Option ℤ) := do
  let ticks ← divide (← timelineFrameTime frame cadence) timeBase
  return if isInteger ticks then some ticks.num else none

/-- Whether a tick is the start of a whole timeline frame. -/
def isFrameBoundary
    (ticks : ℤ)
    (cadence : Rational)
    (timeBase : TimeBase) : Except RationalError Bool := do
  let seconds ← multiply (← fromInteger ticks) timeBase
  return isInteger (← multiply seconds cadence)

variable {den n ticks index num : ℤ}

theorem carry_borrow_of_inRange
    {quotient remainder : ℤ}
    (denPos : 0 < den)
    (lower : 0 ≤ remainder)
    (upper : remainder < den) :
    carry den denPos (borrow den denPos quotient remainder).1
        (borrow den denPos quotient remainder).2 =
      (quotient, remainder) := by
  rw [borrow, if_neg (not_lt.mpr lower), carry,
    if_neg (not_le.mpr upper)]

theorem carry_borrow_of_eq
    (denPos : 0 < den)
    (quotient : ℤ) :
    carry den denPos (borrow den denPos quotient den).1
        (borrow den denPos quotient den).2 =
      (quotient + 1, 0) := by
  rw [borrow, if_neg (not_lt.mpr denPos.le), carry, if_pos le_rfl,
    carry, sub_self, if_neg (not_le.mpr denPos)]

/--
The values whose floor slips upwards: the numerator is one short of a multiple
of the denominator, and the next multiple down lies beyond `-2 ^ 53` where
doubles are even and rounds away from zero.
-/
def FloorSlips (value : ℚ) : Prop :=
  (value.den : ℤ) ∣ value.num + 1 ∧
    2 ^ 53 < value.den - 1 - value.num ∧
    (value.den - 1 - value.num) % 4 = 3

instance (value : ℚ) : Decidable (FloorSlips value) :=
  inferInstanceAs (Decidable (_ ∧ _ ∧ _))

theorem floorDivide_of_safe
    (numSafe : IsSafe num)
    (denSafe : IsSafe den)
    (denPos : 0 < den)
    (productSafe : IsSafe (num / den * den)) :
    floorDivide num den denPos = (num / den, num % den) := by
  have lower := Int.emod_nonneg num denPos.ne'
  have upper := Int.emod_lt_of_pos num denPos
  have remainderShape : num - num / den * den = num % den := by
    have := Int.emod_add_ediv_mul num den
    omega
  have remainderSafe : IsSafe (num % den) := by
    refine denSafe.of_abs_le ?_
    rw [abs_of_nonneg lower, abs_of_pos denPos]
    exact upper.le
  simp only [floorDivide, floorQuotient_eq numSafe denPos,
    roundInt_of_safe productSafe, remainderShape,
    roundInt_of_safe remainderSafe]
  exact carry_borrow_of_inRange denPos lower upper

/--
The quotient floor division returns: the floor, one more exactly when the
product rounds past the denominator.
-/
theorem floorDivide_fst
    (numSafe : IsSafe num)
    (denSafe : IsSafe den)
    (denPos : 0 < den) :
    (floorDivide num den denPos).1 =
      if den ∣ num + 1 ∧ 2 ^ 53 < den - 1 - num ∧
          (den - 1 - num) % 4 = 3 then
        num / den + 1
      else
        num / den := by
  have lower := Int.emod_nonneg num denPos.ne'
  have upper := Int.emod_lt_of_pos num denPos
  have split := Int.emod_add_ediv_mul num den
  have numBounds : -(2 ^ 53) < num ∧ num < 2 ^ 53 := by
    have := numSafe
    unfold IsSafe maxSafeInteger at this
    rw [abs_le] at this
    omega
  have denBound : den < 2 ^ 53 := by
    have := denSafe
    unfold IsSafe maxSafeInteger at this
    rw [abs_le] at this
    omega
  have dividesIff : den ∣ num + 1 ↔ num % den = den - 1 := by
    constructor
    · rintro ⟨factor, shape⟩
      have rewritten : num = den - 1 + den * (factor - 1) := by
        rw [mul_sub, mul_one]
        omega
      rw [rewritten, Int.add_mul_emod_self_left]
      exact Int.emod_eq_of_lt (by omega) (by omega)
    · intro top
      refine ⟨num / den + 1, ?_⟩
      rw [mul_add, mul_one, mul_comm den]
      omega
  simp only [dividesIff]
  by_cases productSafe : IsSafe (num / den * den)
  · rw [floorDivide_of_safe numSafe denSafe denPos productSafe,
      if_neg]
    rintro ⟨top, far, -⟩
    unfold IsSafe maxSafeInteger at productSafe
    rw [abs_le] at productSafe
    omega
  · -- The product is at most `-2 ^ 53` and above `-2 ^ 54`.
    have productBounds :
        -(2 ^ 54) < num / den * den ∧ num / den * den ≤ -(2 ^ 53) := by
      unfold IsSafe maxSafeInteger at productSafe
      rw [abs_le] at productSafe
      omega
    have rounded :=
      roundInt_of_binade (n := num / den * den)
        (by rw [abs_of_neg (by omega)]; omega)
        (by rw [abs_of_neg (by omega)]; omega)
    have remainderSafe :
        ∀ remainder, 0 ≤ remainder → remainder ≤ den →
          roundInt remainder = remainder := by
      intro remainder nonneg atMost
      refine roundInt_of_safe (denSafe.of_abs_le ?_)
      rwa [abs_of_nonneg nonneg, abs_of_pos denPos]
    simp only [floorDivide, floorQuotient_eq numSafe denPos, rounded]
    split_ifs with even slips quarter slips slips
    · omega
    · rw [remainderSafe _ (by omega) (by omega),
        carry_borrow_of_inRange denPos (by omega) (by omega)]
    · obtain ⟨top, -, -⟩ := slips
      have whole :
          num - (num / den * den - 1) = den := by omega
      rw [whole, remainderSafe den denPos.le le_rfl,
        carry_borrow_of_eq denPos]
    · have short : num - (num / den * den - 1) < den := by
        have : num % den ≠ den - 1 := by
          intro top
          exact slips ⟨top, by omega, by omega⟩
        omega
      rw [remainderSafe _ (by omega) short.le,
        carry_borrow_of_inRange denPos (by omega) short]
    · omega
    · rw [remainderSafe _ (by omega) (by omega),
        carry_borrow_of_inRange denPos (by omega) (by omega)]

/-- The integer that rounding a value down returns. -/
def flooredIndex (value : ℚ) : ℤ :=
  if FloorSlips value then
    ⌊value⌋ + 1
  else
    ⌊value⌋

theorem roundToInteger_floor
    (r : Rational) :
    roundToInteger r .floor = .ok (flooredIndex r.value) := by
  have floorShape : ⌊r.value⌋ = r.num / r.den := by
    rw [Rat.floor_def', r.value_num, r.value_den]
  simp only [flooredIndex, FloorSlips, r.value_num, r.value_den,
    floorShape]
  by_cases integral : r.den = 1
  · have inRange : ¬ 2 ^ 53 < r.den - 1 - r.num := by
      have := r.numSafe
      unfold IsSafe maxSafeInteger at this
      rw [abs_le] at this
      omega
    rw [if_neg (fun slips => inRange slips.2.1)]
    simp [roundToInteger, integral]
  · simp only [roundToInteger, integral, ↓reduceIte,
      floorDivide_fst r.numSafe r.denSafe r.denPos]

theorem isInteger_iff
    (r : Rational) :
    isInteger r = true ↔ r.value = r.num := by
  simp only [isInteger, decide_eq_true_eq]
  constructor
  · intro integral
    simp [Rational.value, integral]
  · intro whole
    rw [← r.value_den, whole]
    simp

variable {r time cadence snapped frameRate : Rational}

theorem num_eq_of_value_eq
    (whole : r.value = n) :
    isInteger r = true ∧ r.num = n := by
  have numShape : r.num = n := by
    rw [← r.value_num, whole, Rat.num_intCast]
  exact ⟨(isInteger_iff r).mpr (by rw [whole, numShape]), numShape⟩

theorem roundToInteger_of_isInteger
    (integral : isInteger r = true)
    (mode : RationalRounding) :
    roundToInteger r mode = .ok r.num := by
  simp only [isInteger, decide_eq_true_eq] at integral
  simp [roundToInteger, integral]

theorem fromInteger_eq_ok_iff :
    fromInteger n = .ok r ↔ r.value = n := by
  rw [fromInteger, rational_eq_ok_iff]
  constructor
  · rintro ⟨-, -, -, shape⟩
    simpa using shape
  · intro whole
    have safe : IsSafe n := by
      rw [← (num_eq_of_value_eq whole).2]
      exact r.numSafe
    exact ⟨safe, by decide, one_ne_zero, by simpa using whole⟩

theorem flooredIndex_of_value_eq
    (whole : r.value = n) :
    flooredIndex (n : ℚ) = n := by
  have safe : IsSafe n := by
    rw [← (num_eq_of_value_eq whole).2]
    exact r.numSafe
  have inRange : ¬ FloorSlips (n : ℚ) := by
    rintro ⟨-, far, -⟩
    rw [Rat.num_intCast, Rat.den_intCast] at far
    unfold IsSafe maxSafeInteger at safe
    rw [abs_le] at safe
    omega
  rw [flooredIndex, if_neg inRange, Int.floor_intCast]

theorem ticksToSeconds_eq_ok_iff
    {timeBase : TimeBase} :
    ticksToSeconds ticks timeBase = .ok r ↔
      (∃ whole, fromInteger ticks = .ok whole) ∧
        r.value = ticks * timeBase.value := by
  constructor
  · intro accepted
    obtain ⟨whole, wholeRun, accepted⟩ := bind_eq_ok.mp accepted
    refine ⟨⟨whole, wholeRun⟩, ?_⟩
    rw [multiply_eq_ok_iff.mp accepted, fromInteger_eq_ok_iff.mp wholeRun]
  · rintro ⟨⟨whole, wholeRun⟩, shape⟩
    refine bind_eq_ok.mpr ⟨whole, wholeRun, multiply_eq_ok_iff.mpr ?_⟩
    rw [shape, fromInteger_eq_ok_iff.mp wholeRun]

theorem frameStartTime_eq_ok_iff :
    frameStartTime index frameRate = .ok r ↔
      (∃ whole, fromInteger index = .ok whole) ∧
        frameRate.num ≠ 0 ∧
        r.value = index / frameRate.value := by
  constructor
  · intro accepted
    obtain ⟨whole, wholeRun, accepted⟩ := bind_eq_ok.mp accepted
    obtain ⟨nonzero, shape⟩ := divide_eq_ok_iff.mp accepted
    refine ⟨⟨whole, wholeRun⟩, nonzero, ?_⟩
    rw [shape, fromInteger_eq_ok_iff.mp wholeRun]
  · rintro ⟨⟨whole, wholeRun⟩, nonzero, shape⟩
    refine bind_eq_ok.mpr
      ⟨whole, wholeRun, divide_eq_ok_iff.mpr ⟨nonzero, ?_⟩⟩
    rw [shape, fromInteger_eq_ok_iff.mp wholeRun]

theorem frameIndexAt_eq_ok_iff :
    frameIndexAt time frameRate = .ok index ↔
      (∃ frames, multiply time frameRate = .ok frames) ∧
        index = flooredIndex (time.value * frameRate.value) := by
  constructor
  · intro accepted
    obtain ⟨frames, multiplied, rounded⟩ := bind_eq_ok.mp accepted
    rw [roundToInteger_floor, multiply_eq_ok_iff.mp multiplied] at rounded
    exact ⟨⟨frames, multiplied⟩, (Except.ok.inj rounded).symm⟩
  · rintro ⟨⟨frames, multiplied⟩, rfl⟩
    refine bind_eq_ok.mpr ⟨frames, multiplied, ?_⟩
    rw [roundToInteger_floor, multiply_eq_ok_iff.mp multiplied]

theorem frameIndexAt_frameStartTime
    {start : Rational}
    (started : frameStartTime index cadence = .ok start) :
    frameIndexAt start cadence = .ok index := by
  obtain ⟨⟨whole, wholeRun⟩, nonzero, shape⟩ :=
    frameStartTime_eq_ok_iff.mp started
  have rateNonzero : cadence.value ≠ 0 :=
    (cadence.value_eq_zero_iff.not).mpr nonzero
  have restored : start.value * cadence.value = index := by
    rw [shape, div_mul_cancel₀ _ rateNonzero]
  have wholeShape := fromInteger_eq_ok_iff.mp wholeRun
  rw [frameIndexAt_eq_ok_iff, restored,
    flooredIndex_of_value_eq wholeShape]
  refine ⟨⟨whole, multiply_eq_ok_iff.mpr ?_⟩, rfl⟩
  rw [restored, wholeShape]

theorem snapToFrame_idempotent
    (accepted : snapToFrame time cadence = .ok snapped) :
    snapToFrame snapped cadence = .ok snapped := by
  obtain ⟨index, -, started⟩ := bind_eq_ok.mp accepted
  exact bind_eq_ok.mpr
    ⟨index, frameIndexAt_frameStartTime started, started⟩

theorem lt_snapToFrame_add_frameDuration
    (positive : 0 < cadence.num)
    (accepted : snapToFrame time cadence = .ok snapped) :
    ∃ duration,
      frameDuration cadence = .ok duration ∧
        time.value < snapped.value + duration.value := by
  obtain ⟨index, indexed, started⟩ := bind_eq_ok.mp accepted
  obtain ⟨-, rfl⟩ := frameIndexAt_eq_ok_iff.mp indexed
  obtain ⟨-, -, shape⟩ := frameStartTime_eq_ok_iff.mp started
  have ratePos : 0 < cadence.value := cadence.value_pos_iff.mpr positive
  obtain ⟨duration, inverted⟩ := exists_invert positive.ne'
  refine ⟨duration, inverted, ?_⟩
  rw [shape, (invert_eq_ok_iff.mp inverted).2, inv_eq_one_div,
    ← add_div, lt_div_iff₀ ratePos]
  have upper := Int.lt_floor_add_one (time.value * cadence.value)
  unfold flooredIndex
  split_ifs with slips
  · push_cast
    linarith
  · exact upper

theorem snapToFrame_le_iff
    (positive : 0 < cadence.num)
    (accepted : snapToFrame time cadence = .ok snapped) :
    snapped.value ≤ time.value ↔
      ¬ FloorSlips (time.value * cadence.value) := by
  obtain ⟨index, indexed, started⟩ := bind_eq_ok.mp accepted
  obtain ⟨-, rfl⟩ := frameIndexAt_eq_ok_iff.mp indexed
  obtain ⟨-, -, shape⟩ := frameStartTime_eq_ok_iff.mp started
  have ratePos : 0 < cadence.value := cadence.value_pos_iff.mpr positive
  rw [shape, div_le_iff₀ ratePos]
  have lower := Int.floor_le (time.value * cadence.value)
  have upper := Int.lt_floor_add_one (time.value * cadence.value)
  unfold flooredIndex
  split_ifs with slips
  · simp only [slips, not_true_eq_false, iff_false, not_le]
    push_cast
    exact upper
  · simpa only [slips, not_false_eq_true, iff_true] using lower

theorem rescaleTicks_exact_roundTrip
    {rescaled : ℤ}
    {source target : TimeBase}
    {mode : RationalRounding}
    (sourcePos : 0 < source.num)
    (targetPos : 0 < target.num)
    (accepted :
      rescaleTicks ticks source target mode =
        .ok { ticks := rescaled, exact := true })
    (back : RationalRounding) :
    rescaleTicks rescaled target source back =
      .ok { ticks := ticks, exact := true } := by
  have sourceValue : source.value ≠ 0 :=
    (source.value_pos_iff.mpr sourcePos).ne'
  have targetValue : target.value ≠ 0 :=
    (target.value_pos_iff.mpr targetPos).ne'
  obtain ⟨seconds, secondsRun, accepted⟩ := bind_eq_ok.mp accepted
  obtain ⟨scaled, scaledRun, accepted⟩ := bind_eq_ok.mp accepted
  obtain ⟨rounded, roundedRun, accepted⟩ := bind_eq_ok.mp accepted
  obtain ⟨rfl, integral⟩ : rounded = rescaled ∧ isInteger scaled = true := by
    simpa using accepted
  rw [roundToInteger_of_isInteger integral] at roundedRun
  obtain rfl := Except.ok.inj roundedRun
  obtain ⟨⟨whole, wholeRun⟩, secondsShape⟩ :=
    ticksToSeconds_eq_ok_iff.mp secondsRun
  have scaledShape := (divide_eq_ok_iff.mp scaledRun).2
  have wholeShape := fromInteger_eq_ok_iff.mp wholeRun
  have scaledWhole := (isInteger_iff scaled).mp integral
  have secondsBack : ticksToSeconds scaled.num target = .ok seconds := by
    refine ticksToSeconds_eq_ok_iff.mpr
      ⟨⟨scaled, fromInteger_eq_ok_iff.mpr scaledWhole⟩, ?_⟩
    rw [← scaledWhole, scaledShape, div_mul_cancel₀ _ targetValue]
  have scaledBack : divide seconds source = .ok whole := by
    refine divide_eq_ok_iff.mpr ⟨sourcePos.ne', ?_⟩
    rw [wholeShape, secondsShape, mul_div_cancel_right₀ _ sourceValue]
  obtain ⟨wholeIntegral, wholeNum⟩ := num_eq_of_value_eq wholeShape
  simp only [rescaleTicks, secondsBack, scaledBack, ok_bind,
    roundToInteger_of_isInteger wholeIntegral, pure_eq_ok, wholeNum,
    wholeIntegral]

/--
A tick is a frame boundary exactly when some frame starts on it.  Neither side
asks for room the other has not got: each intermediate of one computation is
an intermediate of the other.
-/
theorem isFrameBoundary_iff
    {timeBase : TimeBase}
    (cadencePos : 0 < cadence.num)
    (timeBasePos : 0 < timeBase.num) :
    isFrameBoundary ticks cadence timeBase = .ok true ↔
      ∃ frame, timelineFrameTicks frame cadence timeBase = .ok (some ticks) := by
  have cadenceValue : cadence.value ≠ 0 :=
    (cadence.value_pos_iff.mpr cadencePos).ne'
  have timeBaseValue : timeBase.value ≠ 0 :=
    (timeBase.value_pos_iff.mpr timeBasePos).ne'
  constructor
  · intro boundary
    obtain ⟨whole, wholeRun, boundary⟩ := bind_eq_ok.mp boundary
    obtain ⟨seconds, secondsRun, boundary⟩ := bind_eq_ok.mp boundary
    obtain ⟨frames, framesRun, boundary⟩ := bind_eq_ok.mp boundary
    have framesWhole := (isInteger_iff frames).mp (pure_eq_ok.mp boundary)
    have wholeShape := fromInteger_eq_ok_iff.mp wholeRun
    have secondsShape := multiply_eq_ok_iff.mp secondsRun
    have framesShape := multiply_eq_ok_iff.mp framesRun
    have started : timelineFrameTime frames.num cadence = .ok seconds := by
      refine frameStartTime_eq_ok_iff.mpr
        ⟨⟨frames, fromInteger_eq_ok_iff.mpr framesWhole⟩,
          cadencePos.ne', ?_⟩
      rw [← framesWhole, framesShape, mul_div_cancel_right₀ _ cadenceValue]
    have divided : divide seconds timeBase = .ok whole := by
      refine divide_eq_ok_iff.mpr ⟨timeBasePos.ne', ?_⟩
      rw [secondsShape, mul_div_cancel_right₀ _ timeBaseValue]
    obtain ⟨integral, wholeNum⟩ := num_eq_of_value_eq wholeShape
    refine ⟨frames.num, ?_⟩
    simp [timelineFrameTicks, started, divided, integral, wholeNum]
  · rintro ⟨frame, placed⟩
    obtain ⟨seconds, started, placed⟩ := bind_eq_ok.mp placed
    obtain ⟨whole, divided, placed⟩ := bind_eq_ok.mp placed
    obtain ⟨integral, wholeNum⟩ :
        isInteger whole = true ∧ whole.num = ticks := by
      simpa using placed
    obtain ⟨⟨frames, framesRun⟩, -, secondsShape⟩ :=
      frameStartTime_eq_ok_iff.mp started
    have wholeShape := (divide_eq_ok_iff.mp divided).2
    have framesShape := fromInteger_eq_ok_iff.mp framesRun
    have wholeRun : fromInteger ticks = .ok whole := by
      rw [fromInteger_eq_ok_iff, ← wholeNum]
      exact (isInteger_iff whole).mp integral
    have secondsRun : multiply whole timeBase = .ok seconds := by
      rw [multiply_eq_ok_iff, wholeShape, div_mul_cancel₀ _ timeBaseValue]
    have multiplied : multiply seconds cadence = .ok frames := by
      rw [multiply_eq_ok_iff, secondsShape, framesShape,
        div_mul_cancel₀ _ cadenceValue]
    have framesIntegral := (num_eq_of_value_eq framesShape).1
    simp [isFrameBoundary, wholeRun, secondsRun, multiplied,
      framesIntegral]

/--
The laws of one grid at one snapped time: a frame's start shows that frame,
snapping is idempotent and lands less than one frame back, exact rescalings
are undone, and frame boundaries are the ticks frames start on.
-/
def GridLaws
    (cadence : Rational)
    (timeBase : TimeBase)
    (time snapped : Rational) : Prop :=
  (∀ (index : ℤ) (start : Rational),
      frameStartTime index cadence = .ok start →
      frameIndexAt start cadence = .ok index) ∧
    (snapToFrame snapped cadence = .ok snapped ∧
      snapped.value ≤ time.value ∧
      ∃ duration,
        frameDuration cadence = .ok duration ∧
          time.value < snapped.value + duration.value) ∧
    (∀ (ticks rescaled : ℤ) (target : TimeBase)
        (mode back : RationalRounding),
      0 < target.num →
      rescaleTicks ticks timeBase target mode =
        .ok { ticks := rescaled, exact := true } →
      rescaleTicks rescaled target timeBase back =
        .ok { ticks := ticks, exact := true }) ∧
    (∀ ticks : ℤ,
      isFrameBoundary ticks cadence timeBase = .ok true ↔
        ∃ frame,
          timelineFrameTicks frame cadence timeBase = .ok (some ticks))

/--
On every grid of positive cadence and time base, and wherever no operation
overflows, the grid laws hold exactly when the floor of time times cadence
does not slip.
-/
theorem gridLaws_iff
    {cadence : Rational}
    {timeBase : TimeBase}
    (cadencePos : 0 < cadence.num)
    (timeBasePos : 0 < timeBase.num)
    {time snapped : Rational}
    (accepted : snapToFrame time cadence = .ok snapped) :
    GridLaws cadence timeBase time snapped ↔
      ¬ FloorSlips (time.value * cadence.value) := by
  rw [← snapToFrame_le_iff cadencePos accepted]
  constructor
  · exact fun laws => laws.2.1.2.1
  · intro notAfter
    exact
      ⟨fun _ _ started => frameIndexAt_frameStartTime started,
        ⟨snapToFrame_idempotent accepted, notAfter,
          lt_snapToFrame_add_frameDuration cadencePos accepted⟩,
        fun _ _ _ _ back targetPos rescaled =>
          rescaleTicks_exact_roundTrip timeBasePos targetPos rescaled
            back,
        fun _ => isFrameBoundary_iff cadencePos timeBasePos⟩

/-- Minus one NTSC frame snaps to itself and obeys every law of the grid. -/
theorem gridLaws_ntsc :
    GridLaws FRAME_RATE_NTSC_30 ninetyKilohertz
      ⟨-1001, 30000, by decide, by decide, by decide, by decide⟩
      ⟨-1001, 30000, by decide, by decide, by decide, by decide⟩ :=
  (gridLaws_iff (by decide) (by decide) (by decide +kernel)).mpr
    (by decide +kernel)

/-- One frame a second. -/
def oneHertz : Rational :=
  ⟨1, 1, isSafe_one, isSafe_one, by decide, by decide⟩

/-- A representable time whose whole second is one fifth away. -/
def slippingTime : Rational :=
  ⟨-9007199254740991, 5, by decide, by decide, by decide, by decide⟩

/--
The laws fail without any overflow error: at one frame a second the time
`-9007199254740991/5` snaps to `-1801439850948198`, which is after it.
-/
theorem gridLaws_fail_at_slippingTime :
    ¬ ∀ (cadence : Rational) (timeBase : TimeBase)
        (time snapped : Rational),
      0 < cadence.num → 0 < timeBase.num →
      snapToFrame time cadence = .ok snapped →
      GridLaws cadence timeBase time snapped := by
  intro always
  have laws :=
    always oneHertz ninetyKilohertz slippingTime
      ⟨-1801439850948198, 1, by decide, by decide, by decide, by decide⟩
      (by decide) (by decide) (by decide +kernel)
  have notAfter := laws.2.1.2.1
  norm_num [Rational.value, slippingTime] at notAfter

end Frameleaf.RationalTime
