import Frameleaf.Lib.FixedPoint
import Frameleaf.RationalTime.Frames

namespace Frameleaf.RationalTime

open Binary64 Outcome Radix FixedPoint

/-!
# Decimal texts of rational time

A long division writes the places of a magnitude, one comparison decides
whether the last place is rounded up, and a carry runs through nines.  The text
is that of the value rounded half away from zero.
-/

/-- Why there is no text. -/
inductive DecimalError where
  | places (decimals : ℤ)
  | rational (error : RationalError)
  deriving Repr, DecidableEq

/-- An operation on the integers of a rational. -/
def arithmetic
    {α : Type}
    (result : Except RationalError α) : Except DecimalError α :=
  result.mapError .rational

/-- The digits of the places, and what is left. -/
def expand
    (den : ℤ) : ℕ → ℤ → Except RationalError (List ℕ × ℤ)
  | 0, rest =>
      .ok ([], rest)
  | places + 1, rest => do
      let scaled ← product rest 10 "A decimal expansion"
      let digit := floorQuotient scaled den
      let later ← expand den places (roundInt (scaled - roundInt (digit * den)))
      return (digit.toNat :: later.1, later.2)

/-- The carry loop from the last place on: what is left of the carry, and the
digits. -/
def carryDigits : List ℕ → ℕ × List ℕ
  | [] =>
      (1, [])
  | digit :: digits =>
      let later := carryDigits digits
      if 0 < later.1 then
        let next := digit + later.1
        (if 10 ≤ next then 1 else 0, next % 10 :: later.2)
      else
        (later.1, digit :: later.2)

/-- A fixed-point decimal text with a number of places. -/
def toDecimalString
    (value : Rational)
    (decimals : ℤ) : Except DecimalError (List Char) :=
  if decimals < 0 ∨ 15 < decimals then
    .error (.places decimals)
  else do
    let divided := floorDivide |value.num| value.den value.denPos
    let expanded ← arithmetic (expand value.den decimals.toNat divided.2)
    let doubled ← arithmetic (product expanded.2 2 "A rounding comparison")
    let (whole, digits) :=
      if doubled ≥ value.den then
        let carried := carryDigits expanded.1
        (roundInt (divided.1 + carried.1), carried.2)
      else
        (divided.1, expanded.1)
    let fraction :=
      if 0 < decimals then
        '.' :: digits.flatMap (Nat.toDigits 10)
      else
        []
    let text := Nat.toDigits 10 whole.toNat ++ fraction
    return if value.num < 0 ∧ (whole ≠ 0 ∨ digits.any (· ≠ 0)) then
      '-' :: text
    else
      text

/-- The text without zeros at its end, and without a point there. -/
def trimZeros (text : List Char) : List Char :=
  let trimmed := text.rdropWhile (· = '0')
  if trimmed.getLast? = some '.' then
    trimmed.dropLast
  else
    trimmed

/-- Seconds for display. -/
def toDisplaySeconds
    (value : Rational)
    (decimals : ℤ := 4) : Except DecimalError (List Char) := do
  let text ← toDecimalString value decimals
  return if '.' ∉ text then
    text
  else if trimZeros text = ['-', '0'] then
    ['0']
  else
    trimZeros text

/-! ## The long division -/

variable {places : ℕ} {digits : List ℕ}

/-- What the long division gives. -/
theorem expand_eq_ok
    {den rest last : ℤ}
    (denSafe : IsSafe den)
    (denPos : 0 < den)
    (lower : 0 ≤ rest)
    (upper : rest < den)
    (expanded : expand den places rest = .ok (digits, last)) :
    digits.length = places ∧ (∀ digit ∈ digits, digit < 10) ∧
      0 ≤ last ∧ last < den ∧
      rest * 10 ^ places = value 10 digits * den + last := by
  induction places generalizing rest digits with
  | zero =>
      obtain ⟨rfl, rfl⟩ := Prod.mk.inj (Except.ok.inj expanded)
      refine ⟨rfl, by simp, lower, upper, ?_⟩
      rw [pow_zero, value_nil]
      ring
  | succ places inductionHypothesis =>
      rw [expand] at expanded
      obtain ⟨scaled, isScaled, expanded⟩ := bind_eq_ok.mp expanded
      obtain ⟨⟨later, end'⟩, isLater, result⟩ := bind_eq_ok.mp expanded
      obtain ⟨rfl, rfl⟩ := Prod.mk.inj (pure_eq_ok.mp result)
      obtain ⟨scaledSafe, rfl⟩ := product_eq_ok_iff.mp isScaled
      have digitShape := floorQuotient_eq scaledSafe denPos
      have digitLower : 0 ≤ rest * 10 / den :=
        Int.ediv_nonneg (by omega) denPos.le
      have digitUpper : rest * 10 / den < 10 :=
        Int.ediv_lt_of_lt_mul denPos (by omega)
      have lastLower := Int.emod_nonneg (rest * 10) denPos.ne'
      have lastUpper := Int.emod_lt_of_pos (rest * 10) denPos
      have division := Int.emod_add_ediv_mul (rest * 10) den
      have partSafe : IsSafe (rest * 10 / den * den) := by
        apply scaledSafe.of_abs_le
        rw [abs_of_nonneg (by positivity), abs_of_nonneg (by omega)]
        omega
      have restShape : roundInt (rest * 10 -
          roundInt (floorQuotient (rest * 10) den * den)) =
          rest * 10 % den := by
        have lastSafe : IsSafe (rest * 10 % den) := by
          apply denSafe.of_abs_le
          rw [abs_of_nonneg lastLower, abs_of_pos denPos]
          exact lastUpper.le
        rw [digitShape, roundInt_of_safe partSafe, ← roundInt_of_safe lastSafe]
        congr 1
        omega
      rw [restShape] at isLater
      obtain ⟨length, areDigits, endLower, endUpper, split⟩ :=
        inductionHypothesis lastLower lastUpper isLater
      have digitCast : ((floorQuotient (rest * 10) den).toNat : ℤ) =
          rest * 10 / den := by
        rw [digitShape, Int.toNat_of_nonneg digitLower]
      refine ⟨by simp [length], ?_, endLower, endUpper, ?_⟩
      · refine List.forall_mem_cons.mpr ⟨?_, areDigits⟩
        rw [digitShape]
        omega
      · rw [value_cons, length]
        push_cast
        rw [digitCast]
        calc
          rest * 10 ^ (places + 1) =
              (rest * 10 % den + rest * 10 / den * den) * 10 ^ places := by
            rw [division]
            ring
          _ = (rest * 10 / den * 10 ^ places + value 10 later) * den + end' := by
            rw [add_mul, split]
            ring

/-- What the carry loop gives: one more in the last place. -/
theorem carryDigits_spec
    (areDigits : ∀ digit ∈ digits, digit < 10) :
    (carryDigits digits).2.length = digits.length ∧
      (∀ digit ∈ (carryDigits digits).2, digit < 10) ∧
      (carryDigits digits).1 ≤ 1 ∧
      (carryDigits digits).1 * 10 ^ digits.length +
        value 10 (carryDigits digits).2 = value 10 digits + 1 := by
  induction digits with
  | nil =>
      refine ⟨rfl, by simp [carryDigits], le_rfl, rfl⟩
  | cons digit digits inductionHypothesis =>
      obtain ⟨isDigit, later⟩ := List.forall_mem_cons.mp areDigits
      obtain ⟨length, laterDigits, carry, total⟩ := inductionHypothesis later
      rw [carryDigits]
      dsimp only
      split
      case isTrue carries =>
        have one : (carryDigits digits).1 = 1 := by omega
        rw [one, Nat.one_mul] at total
        rw [one]
        refine ⟨?_, ?_, ?_, ?_⟩
        · rw [List.length_cons, List.length_cons, length]
        · exact List.forall_mem_cons.mpr
            ⟨Nat.mod_lt _ (by decide), laterDigits⟩
        · dsimp only
          split <;> decide
        · rw [value_cons, value_cons, length, List.length_cons, pow_succ]
          dsimp only
          split
          case isTrue full =>
            have nine : digit = 9 := by omega
            rw [nine]
            omega
          case isFalse notFull =>
            rw [Nat.mod_eq_of_lt (by omega), add_mul]
            omega
      case isFalse stops =>
        have zero : (carryDigits digits).1 = 0 := by omega
        rw [zero, Nat.zero_mul, Nat.zero_add] at total
        rw [zero]
        refine ⟨?_, ?_, by decide, ?_⟩
        · rw [List.length_cons, List.length_cons, length]
        · exact List.forall_mem_cons.mpr ⟨isDigit, laterDigits⟩
        · rw [value_cons, value_cons, length]
          omega

theorem floorDivide_abs
    (value : Rational) :
    floorDivide |value.num| value.den value.denPos =
      (|value.num| / value.den, |value.num| % value.den) := by
  have magnitude : IsSafe |value.num| :=
    value.numSafe.of_abs_le (abs_abs value.num).le
  have lower : 0 ≤ |value.num| / value.den :=
    Int.ediv_nonneg (abs_nonneg _) value.denPos.le
  apply floorDivide_of_safe magnitude value.denSafe
  apply magnitude.of_abs_le
  rw [abs_of_nonneg (mul_nonneg lower value.denPos.le), abs_abs]
  exact Int.ediv_mul_le _ value.denPos.ne'

/-- The whole part and the digits after rounding. -/
def roundedParts
    (den whole last : ℤ)
    (digits : List ℕ) : ℤ × List ℕ :=
  if last * 2 ≥ den then
    (roundInt (whole + (carryDigits digits).1), (carryDigits digits).2)
  else
    (whole, digits)

/-- The rounded parts are those of the nearest number of decimal units. -/
theorem roundedParts_spec
    {value : Rational}
    {last : ℤ}
    (expanded : expand value.den places (|value.num| % value.den) =
      .ok (digits, last)) :
    let parts := roundedParts value.den (|value.num| / value.den) last digits
    0 ≤ parts.1 ∧ parts.2.length = places ∧ (∀ digit ∈ parts.2, digit < 10) ∧
      parts.1 * 10 ^ places + Radix.value 10 parts.2 =
        round (|value.value| * 10 ^ places) := by
  intro parts
  have denPos := value.denPos
  have division := Int.emod_add_ediv_mul |value.num| value.den
  have wholeLower : 0 ≤ |value.num| / value.den :=
    Int.ediv_nonneg (abs_nonneg _) denPos.le
  obtain ⟨length, areDigits, lower, upper, split⟩ :=
    expand_eq_ok value.denSafe denPos (Int.emod_nonneg _ denPos.ne')
      (Int.emod_lt_of_pos _ denPos) expanded
  -- Before rounding, the parts are the quotient of the scaled magnitude.
  have scaled : |value.num| * 10 ^ places =
      (|value.num| / value.den * 10 ^ places + Radix.value 10 digits) *
        value.den + last := by
    rw [add_mul, add_assoc, ← split, mul_right_comm, ← add_mul]
    rw [add_comm, division]
  have units : |value.value| * 10 ^ places =
      (((|value.num| / value.den * 10 ^ places + Radix.value 10 digits) *
        value.den + last : ℤ) : ℚ) / value.den := by
    rw [← scaled, Rational.value, abs_div, abs_of_pos value.den_cast_pos]
    push_cast
    ring
  rw [units, round_of_remainder denPos lower upper]
  by_cases up : value.den ≤ last * 2
  · obtain ⟨carriedLength, carriedDigits, few, total⟩ :=
      carryDigits_spec areDigits
    rw [length] at carriedLength total
    have numBound := value.numSafe
    unfold IsSafe maxSafeInteger at numBound
    have safe : IsSafe (|value.num| / value.den + (carryDigits digits).1) := by
      have half : |value.num| / value.den * 2 ≤ |value.num| := by
        have := Int.emod_nonneg |value.num| denPos.ne'
        nlinarith
      unfold IsSafe maxSafeInteger
      rw [abs_of_nonneg (by positivity)]
      omega
    have isParts : parts =
        (|value.num| / value.den + (carryDigits digits).1,
          (carryDigits digits).2) := by
      rw [← roundInt_of_safe safe]
      exact if_pos up
    rw [isParts, if_pos up]
    refine ⟨by positivity, carriedLength, carriedDigits, ?_⟩
    have totalCast : ((carryDigits digits).1 : ℤ) * 10 ^ places +
        Radix.value 10 (carryDigits digits).2 =
          Radix.value 10 digits + 1 := by
      exact_mod_cast total
    dsimp only
    rw [add_mul, add_assoc, totalCast, add_assoc]
  · have isParts : parts = (|value.num| / value.den, digits) := if_neg up
    rw [isParts, if_neg up]
    exact ⟨wholeLower, length, areDigits, rfl⟩

theorem flatMap_toDigits
    (areDigits : ∀ digit ∈ digits, digit < 10) :
    digits.flatMap (Nat.toDigits 10) = digits.map Nat.digitChar := by
  induction digits with
  | nil =>
      rfl
  | cons digit digits inductionHypothesis =>
      obtain ⟨isDigit, later⟩ := List.forall_mem_cons.mp areDigits
      rw [List.flatMap_cons, Nat.toDigits_of_lt_base isDigit,
        inductionHypothesis later]
      rfl

theorem unsignedText_of_parts
    {whole : ℕ}
    (length : digits.length = places)
    (areDigits : ∀ digit ∈ digits, digit < 10) :
    unsignedText places (whole * 10 ^ places + Radix.value 10 digits) =
      Nat.toDigits 10 whole ++
        if places = 0 then [] else '.' :: digits.map Nat.digitChar := by
  have small : Radix.value 10 digits < 10 ^ places := by
    rw [← length]
    exact value_lt areDigits
  have isWhole : (whole * 10 ^ places + Radix.value 10 digits) / 10 ^ places =
      whole := by
    rw [mul_comm, Nat.mul_add_div (Nat.pow_pos (by decide)),
      Nat.div_eq_of_lt small, Nat.add_zero]
  have areLast : digits =
      placeDigits places (whole * 10 ^ places + Radix.value 10 digits) := by
    subst length
    apply eq_placeDigits areDigits
    rw [Nat.mul_add_mod_of_lt small]
  unfold unsignedText
  rw [isWhole, ← areLast]

theorem arithmetic_eq_ok_iff
    {α : Type}
    {computed : Except RationalError α}
    {result : α} :
    arithmetic computed = .ok result ↔ computed = .ok result := by
  cases computed with
  | error failure =>
      simp [arithmetic, Except.mapError]
  | ok middle =>
      simp [arithmetic, Except.mapError]

theorem roundAway_mul
    {number scale : ℚ}
    (positive : 0 < scale) :
    roundAway (number * scale) =
      if number < 0 then -round (|number| * scale)
      else round (|number| * scale) := by
  unfold roundAway
  by_cases negative : number < 0
  · rw [if_pos (mul_neg_of_neg_of_pos negative positive), if_pos negative,
      abs_of_neg negative, neg_mul]
  · have nonneg := not_lt.mp negative
    rw [if_neg (not_lt.mpr (mul_nonneg nonneg positive.le)), if_neg negative,
      abs_of_nonneg nonneg]

theorem fixedText_of_magnitude
    (value : Rational)
    {whole : ℕ}
    (total : (whole : ℤ) * 10 ^ places + Radix.value 10 digits =
      round (|value.value| * 10 ^ places)) :
    (if value.num < 0 ∧ ((whole : ℤ) ≠ 0 ∨ digits.any (· ≠ 0)) then
      '-' :: unsignedText places (whole * 10 ^ places + Radix.value 10 digits)
    else
      unsignedText places (whole * 10 ^ places + Radix.value 10 digits)) =
      fixedText places (roundAway (value.value * 10 ^ places)) := by
  have units : round (|value.value| * 10 ^ places) =
      ((whole * 10 ^ places + Radix.value 10 digits : ℕ) : ℤ) := by
    rw [← total]
    push_cast
    rfl
  have something : ((whole : ℤ) ≠ 0 ∨ digits.any (· ≠ 0)) ↔
      whole * 10 ^ places + Radix.value 10 digits ≠ 0 := by
    rw [← not_iff_not, not_or, not_not, not_not, Nat.add_eq_zero_iff,
      value_eq_zero_iff (by decide), Nat.mul_eq_zero, Int.natCast_eq_zero]
    simp
  rw [roundAway_mul (by positivity), units]
  generalize whole * 10 ^ places + Radix.value 10 digits = magnitude at *
  unfold fixedText
  by_cases negative : value.num < 0
  · rw [if_pos (value.value_neg_iff.mpr negative)]
    by_cases isZero : magnitude = 0
    · rw [if_neg fun signed => something.mp signed.2 isZero, isZero]
      rfl
    · rw [if_pos ⟨negative, something.mpr isZero⟩, if_pos (by omega),
        Int.natAbs_neg, Int.natAbs_natCast]
  · rw [if_neg fun signed => negative signed.1,
      if_neg (mt value.value_neg_iff.mp negative), if_neg (by omega),
      Int.natAbs_natCast]

/-- Everything that `toDecimalString` returns. -/
theorem toDecimalString_eq_ok
    {value : Rational}
    {decimals : ℤ}
    {text : List Char}
    (returned : toDecimalString value decimals = .ok text) :
    0 ≤ decimals ∧ decimals ≤ 15 ∧
      text = fixedText decimals.toNat
        (roundAway (value.value * 10 ^ decimals.toNat)) := by
  unfold toDecimalString at returned
  split at returned
  · cases returned
  case isFalse inRange =>
    obtain ⟨lower, upper⟩ := not_or.mp inRange
    refine ⟨not_lt.mp lower, not_lt.mp upper, ?_⟩
    rw [floorDivide_abs] at returned
    obtain ⟨⟨digits, last⟩, isExpanded, returned⟩ := bind_eq_ok.mp returned
    obtain ⟨doubled, isDoubled, returned⟩ := bind_eq_ok.mp returned
    obtain ⟨-, rfl⟩ := product_eq_ok_iff.mp (arithmetic_eq_ok_iff.mp isDoubled)
    have laws := roundedParts_spec (arithmetic_eq_ok_iff.mp isExpanded)
    have isParts : (if last * 2 ≥ value.den then
        (roundInt (|value.num| / value.den + (carryDigits digits).1),
          (carryDigits digits).2)
      else (|value.num| / value.den, digits)) =
        roundedParts value.den (|value.num| / value.den) last digits := rfl
    dsimp only at returned laws
    rw [isParts] at returned
    generalize roundedParts value.den (|value.num| / value.den) last digits =
      parts at returned laws
    obtain ⟨whole, rounded⟩ := parts
    obtain ⟨wholeLower, length, areDigits, total⟩ := laws
    dsimp only at returned wholeLower length areDigits total
    obtain ⟨whole, rfl⟩ := Int.eq_ofNat_of_zero_le wholeLower
    have isText := pure_eq_ok.mp returned
    rw [Int.toNat_natCast, flatMap_toDigits areDigits] at isText
    have isBody : (Nat.toDigits 10 whole ++ if 0 < decimals then
        '.' :: rounded.map Nat.digitChar else []) =
          unsignedText decimals.toNat
            (whole * 10 ^ decimals.toNat + Radix.value 10 rounded) := by
      rw [unsignedText_of_parts length areDigits]
      by_cases places : 0 < decimals
      · rw [if_pos places, if_neg (by omega)]
      · rw [if_neg places, if_pos (by omega)]
    rw [isBody] at isText
    rw [← isText]
    exact fixedText_of_magnitude value total

/-! ## Display -/

/-- A whole part with a fraction that has no zeros at its end, or without
one. -/
def trimmedText
    (whole fraction : List Char) : List Char :=
  if fraction.rdropWhile (· = '0') = [] then
    whole
  else
    whole ++ '.' :: fraction.rdropWhile (· = '0')

variable {whole fraction : List Char}

theorem trimZeros_point
    (noPoint : '.' ∉ fraction) :
    trimZeros (whole ++ '.' :: fraction) = trimmedText whole fraction := by
  have kept : '.' ∉ fraction.rdropWhile (· = '0') := by
    intro member
    have isPrefix := List.rdropWhile_prefix (· = '0') fraction
    exact noPoint (isPrefix.subset member)
  unfold trimZeros trimmedText
  rw [rdropWhile_point]
  generalize fraction.rdropWhile (· = '0') = shown at kept ⊢
  cases shown using List.reverseRecOn with
  | nil =>
      dsimp only
      rw [List.getLast?_concat, if_pos rfl, if_pos rfl, List.dropLast_concat]
  | append_singleton shown last =>
      have otherLast : some last ≠ some '.' := by
        intro isPoint
        exact kept (Option.some_inj.mp isPoint ▸ List.mem_concat_self)
      dsimp only
      rw [← List.cons_append, ← List.append_assoc, List.getLast?_concat,
        if_neg otherLast, if_neg (by simp), List.append_assoc,
        List.cons_append]

theorem trimmedText_append
    (before whole fraction : List Char) :
    trimmedText (before ++ whole) fraction =
      before ++ trimmedText whole fraction := by
  unfold trimmedText
  split
  · rfl
  · exact List.append_assoc _ _ _

theorem mem_trimmedText
    {character : Char}
    (member : character ∈ trimmedText whole fraction) :
    character ∈ whole ∨ character = '.' ∨ character ∈ fraction := by
  unfold trimmedText at member
  split at member
  · exact .inl member
  · have isPrefix := List.rdropWhile_prefix (· = '0') fraction
    obtain before | later := List.mem_append.mp member
    · exact .inl before
    · obtain point | digit := List.mem_cons.mp later
      · exact .inr (.inl point)
      · exact .inr (.inr (isPrefix.subset digit))

theorem unsignedValue_trimmedText
    (noPoint : '.' ∉ whole)
    (fraction : List Char) :
    unsignedValue (trimmedText whole fraction) =
      unsignedValue (whole ++ '.' :: fraction) := by
  obtain ⟨count, isFraction⟩ := rdropWhile_append_zeros fraction
  have dropped : unsignedValue (whole ++ '.' :: fraction) =
      unsignedValue (whole ++ '.' :: fraction.rdropWhile (· = '0')) := by
    conv_lhs => rw [isFraction]
    exact unsignedValue_zeros noPoint _ count
  rw [dropped]
  unfold trimmedText
  split
  case isTrue nothing =>
    rw [nothing, unsignedValue_noFraction noPoint]
  case isFalse =>
    rfl

theorem getLast?_trimmedText
    (noPoint : '.' ∉ whole)
    (digits : '.' ∉ fraction)
    (point : '.' ∈ trimmedText whole fraction) :
    (trimmedText whole fraction).getLast? ≠ some '0' ∧
      (trimmedText whole fraction).getLast? ≠ some '.' := by
  unfold trimmedText at point ⊢
  split at point
  · exact absurd point noPoint
  case isFalse something =>
    have isPrefix := List.rdropWhile_prefix (· = '0') fraction
    have notZero := List.rdropWhile_last_not (· = '0') fraction something
    rw [if_neg something, List.getLast?_append, List.getLast?_cons,
      List.getLast?_eq_some_getLast something]
    constructor
    · intro isZero
      exact notZero (decide_eq_true (Option.some_inj.mp isZero))
    · intro isPoint
      apply digits
      rw [← Option.some_inj.mp isPoint]
      exact isPrefix.subset (List.getLast_mem something)

theorem exists_parts
    (some : 0 < places)
    (units : ℤ) :
    ∃ whole fraction : List Char,
      '.' ∉ whole ∧ '-' ∉ whole ∧ fraction.length = places ∧
        (∀ digit ∈ fraction, digit.isDigit) ∧
        fixedText places units =
          (if units < 0 then ['-'] else []) ++ whole ++ '.' :: fraction := by
  refine ⟨Nat.toDigits 10 (units.natAbs / 10 ^ places),
    (placeDigits places units.natAbs).map Nat.digitChar,
    not_mem_toDigits (by decide) _, not_mem_toDigits (by decide) _,
    by rw [List.length_map, length_placeDigits], ?_, ?_⟩
  · intro character member
    obtain ⟨digit, isDigit, rfl⟩ := List.mem_map.mp member
    rw [Nat.isDigit_digitChar]
    exact decide_eq_true (placeDigits_lt isDigit)
  · unfold fixedText unsignedText
    rw [if_neg some.ne']
    split
    · rfl
    · rfl

/-- A text for display: the same number without zeros at its end. -/
structure Displays
    (shown text : List Char) : Prop where
  denotes : denoted shown = denoted text
  trimmed : '.' ∈ shown →
    shown.getLast? ≠ some '0' ∧ shown.getLast? ≠ some '.'
  sign : shown.head? = some '-' ↔ denoted shown < 0

theorem head?_fixedText
    (places : ℕ)
    (units : ℤ) :
    (fixedText places units).head? = some '-' ↔ units < 0 := by
  unfold fixedText
  split
  case isTrue negative =>
    exact iff_of_true rfl negative
  case isFalse notNegative =>
    refine iff_of_false ?_ notNegative
    intro isSign
    have member := List.mem_of_mem_head? isSign
    obtain digit | point := mem_unsignedText member
    · exact absurd digit (by decide)
    · exact absurd point (by decide)

theorem denoted_fixedText_neg_iff
    (places : ℕ)
    (units : ℤ) :
    denoted (fixedText places units) < 0 ↔ units < 0 := by
  have power : (0 : ℚ) < 10 ^ places := by positivity
  rw [denoted_fixedText, div_lt_iff₀ power, zero_mul, Int.cast_lt_zero]

theorem not_mem_fixedText_zero
    (units : ℤ) :
    '.' ∉ fixedText 0 units := by
  have noPoint := not_mem_toDigits (by decide : '.'.isDigit = false)
    (units.natAbs / 10 ^ 0)
  have unsigned : '.' ∉ unsignedText 0 units.natAbs := by
    rwa [unsignedText, if_pos rfl, List.append_nil]
  unfold fixedText
  split
  · exact List.not_mem_cons_of_ne_of_not_mem (by decide) unsigned
  · exact unsigned

/-- The text without zeros denotes the same number and has the same sign. -/
theorem trimZeros_fixedText
    (some : 0 < places)
    (units : ℤ) :
    let trimmed := trimZeros (fixedText places units)
    denoted trimmed = denoted (fixedText places units) ∧
      (trimmed.head? = .some '-' ↔ units < 0) ∧
      ('.' ∈ trimmed →
        trimmed.getLast? ≠ .some '0' ∧ trimmed.getLast? ≠ .some '.') := by
  intro trimmed
  obtain ⟨whole, fraction, noPoint, noSign, -, areDigits, parts⟩ :=
    exists_parts some units
  have digits : '.' ∉ fraction := fun member =>
    absurd (areDigits '.' member) (by decide)
  have noLaterSign : '-' ∉ fraction := fun member =>
    absurd (areDigits '-' member) (by decide)
  have number := unsignedValue_trimmedText noPoint fraction
  have isTrimmed : trimmed =
      (if units < 0 then ['-'] else []) ++ trimmedText whole fraction := by
    rw [← trimmedText_append, ← trimZeros_point digits, ← parts]
  rw [parts, isTrimmed]
  by_cases negative : units < 0
  · rw [if_pos negative]
    refine ⟨congrArg Neg.neg number, iff_of_true rfl negative, ?_⟩
    intro point
    have later : '.' ∈ trimmedText whole fraction :=
      (List.mem_cons.mp point).resolve_left (by decide)
    rw [List.getLast?_append_of_ne_nil _ (List.ne_nil_of_mem later)]
    exact getLast?_trimmedText noPoint digits later
  · rw [if_neg negative, List.nil_append, List.nil_append]
    have unsigned : '-' ∉ trimmedText whole fraction := by
      intro member
      obtain before | point | later := mem_trimmedText member
      · exact noSign before
      · exact absurd point (by decide)
      · exact noLaterSign later
    have unsignedBefore : '-' ∉ whole ++ '.' :: fraction := by
      simp [noSign, noLaterSign]
    refine ⟨?_, ?_, getLast?_trimmedText noPoint digits⟩
    · rw [denoted_unsigned unsigned, denoted_unsigned unsignedBefore, number]
    · refine iff_of_false ?_ negative
      intro isSign
      exact unsigned (List.mem_of_mem_head? isSign)

theorem displays_fixedText
    (places : ℕ)
    (units : ℤ) :
    let text := fixedText places units
    Displays
      (if '.' ∉ text then
        text
      else if trimZeros text = ['-', '0'] then
        ['0']
      else
        trimZeros text)
      text := by
  intro text
  obtain rfl | some := Nat.eq_zero_or_pos places
  · have noPoint := not_mem_fixedText_zero units
    rw [if_pos noPoint]
    exact ⟨rfl, fun point => absurd point noPoint,
      (head?_fixedText 0 units).trans (denoted_fixedText_neg_iff 0 units).symm⟩
  · obtain ⟨number, sign, last⟩ := trimZeros_fixedText some units
    have belowZero := denoted_fixedText_neg_iff places units
    obtain ⟨whole, fraction, -, -, -, -, parts⟩ := exists_parts some units
    have point : '.' ∈ text := by
      simp [text, parts]
    rw [if_neg (not_not.mpr point)]
    split
    case isTrue isMinusZero =>
      -- The number would be zero, which has no sign.
      have zero : denoted ['0'] = denoted text := by
        rw [← number, isMinusZero]
        decide +kernel
      exact ⟨zero, fun point => absurd point (by decide),
        iff_of_false (by decide) (by decide +kernel)⟩
    case isFalse =>
      exact ⟨number, last, sign.trans (belowZero.symm.trans (by rw [number]))⟩

/-- What holds of the decimal texts of rational time. -/
structure DecimalLaws : Prop where
  /-- The text is that of the value in units of the last place, rounded half
  away from zero: a carry runs through any nines into the whole part. -/
  rounds : ∀ (value : Rational) (decimals : ℤ) (text : List Char),
    toDecimalString value decimals = .ok text →
    text = fixedText decimals.toNat
      (roundAway (value.value * 10 ^ decimals.toNat))
  /-- It denotes this number. -/
  denotes : ∀ (value : Rational) (decimals : ℤ) (text : List Char),
    toDecimalString value decimals = .ok text →
    denoted text =
      roundAway (value.value * 10 ^ decimals.toNat) / 10 ^ decimals.toNat
  /-- A text has exactly as many places as asked for. -/
  places : ∀ (value : Rational) (decimals : ℤ) (text : List Char),
    toDecimalString value decimals = .ok text →
    if decimals = 0 then
      '.' ∉ text
    else
      ∃ whole fraction : List Char,
        text = whole ++ '.' :: fraction ∧ fraction.length = decimals ∧
          ∀ digit ∈ fraction, digit.isDigit
  /-- Only a number below zero has a sign, so zero never has one. -/
  sign : ∀ (value : Rational) (decimals : ℤ) (text : List Char),
    toDecimalString value decimals = .ok text →
    (text.head? = some '-' ↔ denoted text < 0)
  /-- Seconds for display denote the same number, without zeros at the end. -/
  displays : ∀ (value : Rational) (decimals : ℤ) (shown : List Char),
    toDisplaySeconds value decimals = .ok shown →
    ∃ text, toDecimalString value decimals = .ok text ∧ Displays shown text

/-- Decimal texts are exact. -/
theorem decimalLaws : DecimalLaws where
  rounds _ _ _ returned :=
    (toDecimalString_eq_ok returned).2.2
  denotes _ _ _ returned := by
    rw [(toDecimalString_eq_ok returned).2.2, denoted_fixedText]
  places value decimals text returned := by
    obtain ⟨lower, -, rfl⟩ := toDecimalString_eq_ok returned
    split
    case isTrue noPlaces =>
      rw [noPlaces]
      exact not_mem_fixedText_zero _
    case isFalse places =>
      obtain ⟨whole, fraction, -, -, length, areDigits, parts⟩ :=
        exists_parts (by omega : 0 < decimals.toNat)
          (roundAway (value.value * 10 ^ decimals.toNat))
      refine ⟨_, fraction, parts, ?_, areDigits⟩
      rw [length, Int.toNat_of_nonneg lower]
  sign _ _ _ returned := by
    rw [(toDecimalString_eq_ok returned).2.2]
    exact (head?_fixedText _ _).trans (denoted_fixedText_neg_iff _ _).symm
  displays value decimals shown returned := by
    obtain ⟨text, isText, isShown⟩ := bind_eq_ok.mp returned
    refine ⟨text, isText, ?_⟩
    rw [← pure_eq_ok.mp isShown, (toDecimalString_eq_ok isText).2.2]
    exact displays_fixedText _ _

/-- A tie moves away from zero. -/
example :
    (do toDecimalString (← arithmetic (rational (-1) 8)) 2) =
      .ok "-0.13".toList := by
  decide +kernel

end Frameleaf.RationalTime
