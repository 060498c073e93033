import Frameleaf.Lib.Rounding
import Frameleaf.RationalTime.Frames
import Mathlib.Order.Bounds.Basic

namespace Frameleaf.RationalTime

open Binary64

/-!
# The source instants that a clip shows

Each timeline frame shows an instant of the clip's source, and the picture of
that instant is the last one whose tick is not after it.
-/

/-- Why a timing could not be found. -/
inductive TimingError where
  | rational (error : RationalError)
  | studioTiming (message : String)
  deriving DecidableEq

/-- An operation on rationals as part of a timing. -/
def timed
    {Result : Type}
    (operation : Except RationalError Result) : Except TimingError Result :=
  operation.mapError .rational

/-- Characters that are trimmed. -/
def isTrimmed (letter : Char) : Bool :=
  letter.toNat ∈ [0x9, 0xA, 0xB, 0xC, 0xD, 0x20, 0xA0, 0x1680, 0x2028, 0x2029,
    0x202F, 0x205F, 0x3000, 0xFEFF] ||
      (0x2000 ≤ letter.toNat && letter.toNat ≤ 0x200A)

/-- A text without the space around it. -/
def trimText (text : List Char) : List Char :=
  ((text.dropWhile isTrimmed).reverse.dropWhile isTrimmed).reverse

/-- The number that digits spell. -/
def digitsValue (digits : List Char) : ℕ :=
  digits.foldl (fun value digit => value * 10 + (digit.toNat - '0'.toNat)) 0

/-- A signed number of at least one digit, as a double. -/
def parseInteger (text : List Char) : Option ℤ :=
  let unsigned :=
    match text with
    | '+' :: digits =>
        digits
    | '-' :: digits =>
        digits
    | digits =>
        digits
  if unsigned ≠ [] ∧ unsigned.all Char.isDigit then
    some (if text.head? = some '-' then -roundInt (digitsValue unsigned)
      else roundInt (digitsValue unsigned))
  else
    none

/-- The rational that a text spells, if it spells one. -/
def tryParseRational (value : List Char) : Option Rational :=
  let text := trimText value
  let parts :=
    match text.span (· ≠ '/') with
    | (num, []) =>
        (parseInteger num).map fun num => (num, 1)
    | (num, _ :: den) =>
        (parseInteger num).bind fun num =>
          (parseInteger den).map fun den => (num, den)
  parts.bind fun parts =>
    if IsSafe parts.1 ∧ IsSafe parts.2 ∧ parts.2 ≠ 0 then
      (rational parts.1 parts.2).toOption
    else
      none

/-- A playback speed as an exact rational. -/
def speedOf (speed : Option ℚ) : Except RationalError Rational :=
  match speed with
  | some speed =>
      if speed ≤ 0 then
        rational 1 1
      else
        rational (Rounding.nearest (roundDouble (speed * 10000))) 10000
  | none =>
      rational 1 1

/-- A clip in the units that an edit stores. -/
structure StudioClipTiming where
  startFrame : ℤ
  sourceStart : Option ℤ
  sourceEnd : Option ℤ
  sourceCadence : Rational
  speed : Option ℚ
  reversed : Bool

/-- The ticks of a source. -/
structure StudioSourceTiming where
  timeBase : List Char
  originTicks : ℤ

/-- The source instant that a timeline frame of a clip shows. -/
def clipSourceTime
    (clip : StudioClipTiming)
    (frame : ℤ)
    (projectCadence : Rational) : Except TimingError Rational := do
  let speed ← timed (speedOf clip.speed)
  let time ← timed (timelineFrameTime (roundInt (frame - clip.startFrame))
    projectCadence)
  let localTime ← timed (multiply time speed)
  let start ← timed (frameStartTime (clip.sourceStart.getD 0) clip.sourceCadence)
  if !clip.reversed then
    timed (add start localTime)
  else
    match clip.sourceEnd with
    | none =>
        .error (.studioTiming "A reversed clip needs its source end.")
    | some sourceEnd => do
        let last ← timed (frameStartTime sourceEnd clip.sourceCadence)
        let duration ← timed (frameDuration projectCadence)
        let shown ← timed (multiply duration speed)
        let walked ← timed (add localTime shown)
        let back ← timed (subtract last walked)
        timed (max start back)

/-- The time base of a source, if it is positive. -/
def sourceTimeBase
    (source : StudioSourceTiming) : Except TimingError TimeBase :=
  match tryParseRational source.timeBase with
  | some timeBase =>
      if timeBase.num ≤ 0 then
        .error (.studioTiming ("Source time base '" ++
          String.ofList source.timeBase ++ "' is not usable."))
      else
        .ok timeBase
  | none =>
      .error (.studioTiming ("Source time base '" ++
        String.ofList source.timeBase ++ "' is not usable."))

/-- The tick of the picture that a source shows at an instant. -/
def sourcePresentationTicks
    (source : StudioSourceTiming)
    (time : Rational) : Except TimingError ℤ := do
  let timeBase ← sourceTimeBase source
  let ticks ← timed (divide time timeBase)
  let whole ← timed (floor ticks)
  return roundInt (source.originTicks + whole)

open Binary64 Outcome

/-!
## The ticks that a clip shows

Every instant of a clip is exact, so that its ticks follow the frames.  Only the
sum with the origin is not checked: beyond the safe integers it is rounded.
-/

/-- A clip whose speed can be stored, and which ends after it starts. -/
structure Clip extends StudioClipTiming where
  fastEnough : ∀ value ∈ speed, 1 / 10000 ≤ value
  ordered : ∀ last ∈ sourceEnd, sourceStart.getD 0 ≤ last
  sourcePositive : 0 < sourceCadence.num

/-- A project's cadence. -/
structure Cadence where
  rate : Rational
  positive : 0 < rate.num

/-- A source whose time base can be used. -/
structure Source extends StudioSourceTiming where
  base : TimeBase
  usable : sourceTimeBase toStudioSourceTiming = .ok base

/-- The speed of a clip. -/
def speedValue (speed : Option ℚ) : ℚ :=
  match speed with
  | some speed =>
      if speed ≤ 0 then
        1
      else
        Rounding.nearest (roundDouble (speed * 10000)) / 10000
  | none =>
      1

/-- The instant of a clip's source start. -/
def Clip.startInstant (clip : Clip) : ℚ :=
  clip.sourceStart.getD 0 / clip.sourceCadence.value

/-- The instant of a clip's source end. -/
def Clip.endInstant (clip : Clip) : ℚ :=
  clip.sourceEnd.getD 0 / clip.sourceCadence.value

/-- The time from a clip's first frame to another, at the clip's speed. -/
def Clip.localInstant
    (clip : Clip)
    (cadence : Cadence)
    (frame : ℤ) : ℚ :=
  (frame - clip.startFrame : ℤ) / cadence.rate.value * speedValue clip.speed

/-- The instant that a frame of a clip shows. -/
def Clip.instant
    (clip : Clip)
    (cadence : Cadence)
    (frame : ℤ) : ℚ :=
  if clip.reversed then
    Max.max clip.startInstant (clip.endInstant -
      (clip.localInstant cadence frame +
        cadence.rate.value⁻¹ * speedValue clip.speed))
  else
    clip.startInstant + clip.localInstant cadence frame

/-- The double sum of an origin and of ticks that are rounded down is the exact
one. -/
def SumIsExact
    (originTicks : ℤ)
    (ticks : ℚ) : Prop :=
  roundInt (originTicks + if FloorSlips ticks then ⌊ticks⌋ + 1 else ⌊ticks⌋) =
    originTicks + ⌊ticks⌋

theorem timed_eq_ok_iff
    {Result : Type}
    {operation : Except RationalError Result}
    {result : Result} :
    timed operation = .ok result ↔ operation = .ok result := by
  cases operation with
  | error error =>
      exact ⟨(nomatch ·), (nomatch ·)⟩
  | ok value =>
      exact ⟨fun same => congrArg Except.ok (Except.ok.inj same),
        fun same => congrArg Except.ok (Except.ok.inj same)⟩

theorem speedOf_value
    {speed : Option ℚ}
    {result : Rational}
    (isSpeed : speedOf speed = .ok result) :
    result.value = speedValue speed := by
  have unit : rational 1 1 = .ok result → result.value = 1 := by
    intro isOne
    rw [(rational_eq_ok_iff.mp isOne).2.2.2]
    norm_num
  unfold speedOf at isSpeed
  unfold speedValue
  split at isSpeed
  · split at isSpeed
    · rename_i isNegative
      rw [if_pos isNegative, unit isSpeed]
    · rename_i isPositive
      rw [if_neg isPositive, (rational_eq_ok_iff.mp isSpeed).2.2.2]
      norm_num
  · exact unit isSpeed

theorem one_le_roundDouble
    {value : ℚ}
    (isLarge : 1 ≤ value) :
    1 ≤ roundDouble value := by
  by_cases small : |value| < 2 ^ 53
  · have below : ((1 : ℤ) : ℚ) ≤ value := by
      rw [Int.cast_one]
      exact isLarge
    have bound := intCast_le_roundDouble small below
    rwa [Int.cast_one] at bound
  · have nonzero : value ≠ 0 := by
      linarith
    have huge : 2 ^ 53 ≤ value := by
      rw [abs_of_pos (by linarith)] at small
      exact not_lt.mp small
    have near := abs_le.mp (abs_roundDouble_sub_le value)
    have spacing := ulp_mul_le_abs nonzero
    rw [abs_of_pos (by linarith)] at spacing
    have half : ulp value / 2 ≤ value / 2 := by
      have := ulp_pos value
      linarith
    linarith

theorem Clip.speed_pos (clip : Clip) : 0 < speedValue clip.speed := by
  unfold speedValue
  split
  · rename_i speed isSpeed
    have isFast := clip.fastEnough speed isSpeed
    rw [if_neg (by linarith)]
    have isLarge : 1 ≤ roundDouble (speed * 10000) :=
      one_le_roundDouble (by linarith)
    have isWhole : 1 ≤ Rounding.nearest (roundDouble (speed * 10000)) := by
      refine Rounding.le_nearest ?_
      rw [Int.cast_one]
      exact isLarge
    have positive : (0 : ℚ) <
        (Rounding.nearest (roundDouble (speed * 10000)) : ℤ) := by
      exact_mod_cast isWhole
    positivity
  · exact one_pos

theorem frameStartTime_value
    {index : ℤ}
    {frameRate start : Rational}
    (isStart : frameStartTime (roundInt index) frameRate = .ok start) :
    start.value = index / frameRate.value := by
  obtain ⟨⟨whole, isWhole⟩, -, isQuotient⟩ := frameStartTime_eq_ok_iff.mp isStart
  have safe : IsSafe (roundInt index) := by
    have value := fromInteger_eq_ok_iff.mp isWhole
    rw [← (num_eq_of_value_eq value).2]
    exact whole.numSafe
  rw [isQuotient, roundInt_of_safe (isSafe_roundInt_iff.mp safe)]

theorem frameStartTime_stored
    {index : ℤ}
    {frameRate start : Rational}
    (isStart : frameStartTime index frameRate = .ok start) :
    start.value = index / frameRate.value :=
  (frameStartTime_eq_ok_iff.mp isStart).2.2

/-- The instant that a frame shows is exact. -/
theorem clipSourceTime_value
    {clip : Clip}
    {cadence : Cadence}
    {frame : ℤ}
    {instant : Rational}
    (isInstant : clipSourceTime clip.toStudioClipTiming frame cadence.rate =
      .ok instant) :
    instant.value = clip.instant cadence frame := by
  obtain ⟨speed, isSpeed, isInstant⟩ := bind_eq_ok.mp isInstant
  obtain ⟨time, isTime, isInstant⟩ := bind_eq_ok.mp isInstant
  obtain ⟨localTime, isLocal, isInstant⟩ := bind_eq_ok.mp isInstant
  obtain ⟨start, isStart, isInstant⟩ := bind_eq_ok.mp isInstant
  have speedExact := speedOf_value (timed_eq_ok_iff.mp isSpeed)
  have timeExact := frameStartTime_value (timed_eq_ok_iff.mp isTime)
  have localExact : localTime.value = clip.localInstant cadence frame := by
    rw [multiply_eq_ok_iff.mp (timed_eq_ok_iff.mp isLocal), timeExact,
      speedExact, Clip.localInstant]
  have startExact : start.value = clip.startInstant :=
    frameStartTime_stored (timed_eq_ok_iff.mp isStart)
  unfold Clip.instant
  cases isReversed : clip.reversed with
  | false =>
      rw [isReversed, Bool.not_false, if_pos rfl] at isInstant
      rw [add_value (timed_eq_ok_iff.mp isInstant), startExact, localExact]
      rfl
  | true =>
      rw [isReversed, Bool.not_true, if_neg Bool.false_ne_true] at isInstant
      cases isEnd : clip.sourceEnd with
      | none =>
          rw [isEnd] at isInstant
          exact nomatch isInstant
      | some sourceEnd =>
          rw [isEnd] at isInstant
          obtain ⟨last, isLast, isInstant⟩ := bind_eq_ok.mp isInstant
          obtain ⟨duration, isDuration, isInstant⟩ := bind_eq_ok.mp isInstant
          obtain ⟨shown, isShown, isInstant⟩ := bind_eq_ok.mp isInstant
          obtain ⟨walked, isWalked, isInstant⟩ := bind_eq_ok.mp isInstant
          obtain ⟨back, isBack, isInstant⟩ := bind_eq_ok.mp isInstant
          have lastExact : last.value = clip.endInstant := by
            rw [frameStartTime_stored (timed_eq_ok_iff.mp isLast),
              Clip.endInstant, isEnd]
            rfl
          have durationExact :=
            (invert_eq_ok_iff.mp (timed_eq_ok_iff.mp isDuration)).2
          rw [max_value (timed_eq_ok_iff.mp isInstant), startExact,
            subtract_value (timed_eq_ok_iff.mp isBack), lastExact,
            add_value (timed_eq_ok_iff.mp isWalked), localExact,
            multiply_eq_ok_iff.mp (timed_eq_ok_iff.mp isShown), durationExact,
            speedExact]
          rfl

variable {timeBase : TimeBase}

theorem sourcePresentationTicks_eq
    {source : StudioSourceTiming}
    (isTimeBase : sourceTimeBase source = .ok timeBase)
    {time : Rational}
    {tick : ℤ}
    (isTick : sourcePresentationTicks source time = .ok tick) :
    tick = roundInt (source.originTicks +
      flooredIndex (time.value / timeBase.value)) := by
  obtain ⟨base, isBase, isTick⟩ := bind_eq_ok.mp isTick
  obtain rfl := Except.ok.inj (isTimeBase.symm.trans isBase)
  obtain ⟨ticks, isTicks, isTick⟩ := bind_eq_ok.mp isTick
  obtain ⟨whole, isWhole, isTick⟩ := bind_eq_ok.mp isTick
  have ticksExact := (divide_eq_ok_iff.mp (timed_eq_ok_iff.mp isTicks)).2
  have wholeExact := timed_eq_ok_iff.mp isWhole
  rw [floor, roundToInteger_floor, ticksExact] at wholeExact
  rw [Except.ok.inj wholeExact]
  exact (pure_eq_ok.mp isTick).symm

theorem sourceTimeBase_pos
    {source : StudioSourceTiming}
    (isTimeBase : sourceTimeBase source = .ok timeBase) :
    0 < timeBase.value := by
  unfold sourceTimeBase at isTimeBase
  split at isTimeBase
  · split at isTimeBase
    · exact nomatch isTimeBase
    · rename_i positive
      rw [← Except.ok.inj isTimeBase]
      exact (Rational.value_pos_iff _).mpr (not_le.mp positive)
  · exact nomatch isTimeBase

/-- A frame of a clip shows an instant and a tick of its source. -/
structure Shows
    (clip : Clip)
    (source : Source)
    (cadence : Cadence)
    (frame : ℤ)
    (instant : Rational)
    (tick : ℤ) : Prop where
  fromStart : clip.startFrame ≤ frame
  isInstant : clipSourceTime clip.toStudioClipTiming frame cadence.rate =
    .ok instant
  isTick : sourcePresentationTicks source.toStudioSourceTiming instant = .ok tick

/-- What the ticks of a clip promise. -/
structure TickLaws
    (clip : Clip)
    (source : Source)
    (cadence : Cadence) : Prop where
  /-- Played forward, ticks never decrease. -/
  forward : clip.reversed = false →
    ∀ first second one other tick later,
      Shows clip source cadence first one tick →
        Shows clip source cadence second other later →
          first ≤ second → tick ≤ later
  /-- Played in reverse, ticks never increase. -/
  backward : clip.reversed = true →
    ∀ first second one other tick later,
      Shows clip source cadence first one tick →
        Shows clip source cadence second other later →
          first ≤ second → later ≤ tick
  /-- No tick is before that of the source start. -/
  afterStart : ∀ frame instant tick,
    Shows clip source cadence frame instant tick →
      source.originTicks + ⌊clip.startInstant / source.base.value⌋ ≤ tick
  /-- Played in reverse, ticks are before the source end, unless the source
  start is shown. -/
  beforeEnd : clip.reversed = true → ∀ frame instant tick,
    Shows clip source cadence frame instant tick →
      ((tick - source.originTicks : ℤ) : ℚ) * source.base.value <
          clip.endInstant ∨
        instant.value = clip.startInstant
  /-- A tick is the last one that is not after the instant. -/
  greatest : ∀ frame instant tick,
    Shows clip source cadence frame instant tick →
      IsGreatest {other : ℤ | ((other - source.originTicks : ℤ) : ℚ) *
        source.base.value ≤ instant.value} tick
  /-- Instants that are a tick apart have different ticks. -/
  apart : ∀ first second one other tick later,
    Shows clip source cadence first one tick →
      Shows clip source cadence second other later →
        source.base.value ≤ |other.value - one.value| → tick ≠ later

/-- The ticks of all frames that a clip shows are exact sums. -/
def SumsAreExact
    (clip : Clip)
    (source : Source)
    (cadence : Cadence) : Prop :=
  ∀ frame instant tick, Shows clip source cadence frame instant tick →
    SumIsExact source.originTicks (clip.instant cadence frame / source.base.value)

variable {clip : Clip} {source : Source} {cadence : Cadence}
variable {frame : ℤ} {instant : Rational} {tick : ℤ}

theorem Shows.sumIsExact_iff
    (shows_ : Shows clip source cadence frame instant tick) :
    SumIsExact source.originTicks
        (clip.instant cadence frame / source.base.value) ↔
      tick = source.originTicks + ⌊instant.value / source.base.value⌋ := by
  rw [← clipSourceTime_value shows_.isInstant, SumIsExact,
    sourcePresentationTicks_eq source.usable shows_.isTick, flooredIndex]

theorem isGreatest_iff
    (positive : 0 < timeBase.value)
    (originTicks : ℤ) :
    IsGreatest {other : ℤ | ((other - originTicks : ℤ) : ℚ) *
        timeBase.value ≤ instant.value} tick ↔
      tick = originTicks + ⌊instant.value / timeBase.value⌋ := by
  have mem_iff : ∀ other : ℤ,
      other ∈ {other : ℤ | ((other - originTicks : ℤ) : ℚ) *
        timeBase.value ≤ instant.value} ↔
          other ≤ originTicks + ⌊instant.value / timeBase.value⌋ := by
    intro other
    change ((other - originTicks : ℤ) : ℚ) * timeBase.value ≤ instant.value ↔ _
    rw [← le_div_iff₀ positive, ← Int.le_floor]
    constructor <;> intro _ <;> omega
  have greatest : IsGreatest {other : ℤ | ((other - originTicks : ℤ) : ℚ) *
      timeBase.value ≤ instant.value}
        (originTicks + ⌊instant.value / timeBase.value⌋) :=
    ⟨(mem_iff _).mpr le_rfl, fun other member => (mem_iff other).mp member⟩
  constructor
  · exact fun isTick => isTick.unique greatest
  · rintro rfl
    exact greatest

theorem Clip.localInstant_mono
    (clip : Clip)
    (cadence : Cadence)
    {first second : ℤ}
    (ordered : first ≤ second) :
    clip.localInstant cadence first ≤ clip.localInstant cadence second := by
  have ratePositive : 0 < cadence.rate.value :=
    (Rational.value_pos_iff _).mpr cadence.positive
  have frames : ((first - clip.startFrame : ℤ) : ℚ) ≤
      (second - clip.startFrame : ℤ) := by
    exact_mod_cast sub_le_sub_right ordered clip.startFrame
  exact mul_le_mul_of_nonneg_right
    (div_le_div_of_nonneg_right frames ratePositive.le) clip.speed_pos.le

theorem Clip.localInstant_nonneg
    (clip : Clip)
    (cadence : Cadence)
    (fromStart : clip.startFrame ≤ frame) :
    0 ≤ clip.localInstant cadence frame := by
  have first : clip.localInstant cadence clip.startFrame = 0 := by
    rw [Clip.localInstant, sub_self, Int.cast_zero, zero_div, zero_mul]
  rw [← first]
  exact clip.localInstant_mono cadence fromStart

theorem Clip.startInstant_le
    (clip : Clip)
    (cadence : Cadence)
    (fromStart : clip.startFrame ≤ frame) :
    clip.startInstant ≤ clip.instant cadence frame := by
  unfold Clip.instant
  split
  · exact le_max_left _ _
  · have := clip.localInstant_nonneg cadence fromStart
    linarith

/-- A clip that shows its source frame by frame. -/
def plainClip : Clip where
  startFrame := 0
  sourceStart := none
  sourceEnd := none
  sourceCadence := oneHertz
  speed := none
  reversed := false
  fastEnough _ isSpeed := nomatch isSpeed
  ordered _ isEnd := nomatch isEnd
  sourcePositive := by decide

/-- One frame a second. -/
def oneFrameASecond : Cadence where
  rate := oneHertz
  positive := by decide

/-- A source whose first tick is the last safe integer. -/
def lateSource : Source where
  timeBase := ['1', '/', '1']
  originTicks := 9007199254740991
  base := oneHertz
  usable := by decide +kernel

end Frameleaf.RationalTime
