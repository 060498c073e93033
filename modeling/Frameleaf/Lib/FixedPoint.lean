import Frameleaf.Lib.Radix
import Mathlib.Algebra.Order.Round
import Mathlib.Data.List.DropRight
import Mathlib.Data.List.TakeWhile
import Mathlib.Data.Rat.Floor
import Mathlib.Tactic.FieldSimp
import Mathlib.Tactic.Positivity

namespace Frameleaf.FixedPoint

open Radix

/-!
# Decimal texts with a fixed number of places

The text of a whole number of decimal units, and the number that such a text
denotes.
-/

/-- The last decimal digits of a number. -/
def placeDigits : ℕ → ℕ → List ℕ
  | 0, _ =>
      []
  | places + 1, number =>
      placeDigits places (number / 10) ++ [number % 10]

/-- The text of decimal units without a sign. -/
def unsignedText
    (places units : ℕ) : List Char :=
  Nat.toDigits 10 (units / 10 ^ places) ++
    if places = 0 then
      []
    else
      '.' :: (placeDigits places units).map Nat.digitChar

/-- The text of decimal units. -/
def fixedText
    (places : ℕ)
    (units : ℤ) : List Char :=
  if units < 0 then
    '-' :: unsignedText places units.natAbs
  else
    unsignedText places units.natAbs

/-- The nearest integer, halves away from zero. -/
def roundAway (number : ℚ) : ℤ :=
  if number < 0 then
    -round (-number)
  else
    round number

/-- The number that a text without a sign denotes. -/
def unsignedValue (text : List Char) : ℚ :=
  let whole := text.takeWhile (· ≠ '.')
  let fraction := (text.dropWhile (· ≠ '.')).drop 1
  Nat.ofDigitChars 10 (whole ++ fraction) 0 / 10 ^ fraction.length

/-- The number that a text denotes. -/
def denoted : List Char → ℚ
  | '-' :: text =>
      -unsignedValue text
  | text =>
      unsignedValue text

/-! ## Digits -/

/-- There are as many digits as places. -/
@[simp] theorem length_placeDigits
    (places number : ℕ) :
    (placeDigits places number).length = places := by
  induction places generalizing number with
  | zero =>
      rfl
  | succ places inductionHypothesis =>
      rw [placeDigits, List.length_append, inductionHypothesis,
        List.length_singleton]

theorem placeDigits_lt
    {places number digit : ℕ}
    (member : digit ∈ placeDigits places number) :
    digit < 10 := by
  induction places generalizing number with
  | zero =>
      cases member
  | succ places inductionHypothesis =>
      obtain before | last := List.mem_append.mp member
      · exact inductionHypothesis before
      · rw [List.mem_singleton.mp last]
        exact Nat.mod_lt _ (by decide)

/-- They denote what is left of the number below its whole part. -/
@[simp] theorem value_placeDigits
    (places number : ℕ) :
    value 10 (placeDigits places number) = number % 10 ^ places := by
  induction places generalizing number with
  | zero =>
      rw [placeDigits, value_nil, pow_zero, Nat.mod_one]
  | succ places inductionHypothesis =>
      rw [placeDigits, value_concat, inductionHypothesis, pow_succ',
        Nat.mod_mul]
      ring

theorem eq_placeDigits
    {digits : List ℕ}
    {number : ℕ}
    (areDigits : ∀ digit ∈ digits, digit < 10)
    (same : value 10 digits = number % 10 ^ digits.length) :
    digits = placeDigits digits.length number := by
  apply value_injective (by decide) _ areDigits
    (fun _ => placeDigits_lt)
  · rw [same, value_placeDigits]
  · rw [length_placeDigits]

theorem ofDigitChars_map
    {digits : List ℕ}
    (areDigits : ∀ digit ∈ digits, digit < 10)
    (start : ℕ) :
    Nat.ofDigitChars 10 (digits.map Nat.digitChar) start =
      start * 10 ^ digits.length + value 10 digits := by
  induction digits generalizing start with
  | nil =>
      simp
  | cons digit digits inductionHypothesis =>
      obtain ⟨isDigit, later⟩ := List.forall_mem_cons.mp areDigits
      rw [List.map_cons, Nat.ofDigitChars_cons_digitChar_of_lt_ten isDigit,
        inductionHypothesis later, value_cons, List.length_cons, pow_succ]
      ring

/-! ## Numbers of texts -/

theorem not_mem_toDigits
    {character : Char}
    (noDigit : character.isDigit = false)
    (number : ℕ) :
    character ∉ Nat.toDigits 10 number := by
  intro member
  have isDigit := Nat.isDigit_of_mem_toDigits (by decide) (by decide) member
  rw [noDigit] at isDigit
  cases isDigit

variable {whole : List Char}

theorem unsignedValue_whole
    (noPoint : '.' ∉ whole) :
    unsignedValue whole = Nat.ofDigitChars 10 whole 0 := by
  have all : ∀ character ∈ whole, decide (character ≠ '.') = true := by
    intro character member
    exact decide_eq_true fun isPoint => noPoint (isPoint ▸ member)
  unfold unsignedValue
  dsimp only
  rw [List.takeWhile_eq_self_iff.mpr all, List.dropWhile_eq_nil_iff.mpr all]
  simp

theorem unsignedValue_point
    (noPoint : '.' ∉ whole)
    (fraction : List Char) :
    unsignedValue (whole ++ '.' :: fraction) =
      Nat.ofDigitChars 10 (whole ++ fraction) 0 / 10 ^ fraction.length := by
  have all : ∀ character ∈ whole, decide (character ≠ '.') = true := by
    intro character member
    exact decide_eq_true fun isPoint => noPoint (isPoint ▸ member)
  unfold unsignedValue
  dsimp only
  rw [List.takeWhile_append_of_pos all, List.dropWhile_append_of_pos all,
    List.takeWhile_cons_of_neg (by decide),
    List.dropWhile_cons_of_neg (by decide), List.append_nil, List.drop_one,
    List.tail_cons]

theorem unsignedValue_zeros
    (noPoint : '.' ∉ whole)
    (fraction : List Char)
    (count : ℕ) :
    unsignedValue (whole ++ '.' :: (fraction ++ List.replicate count '0')) =
      unsignedValue (whole ++ '.' :: fraction) := by
  rw [unsignedValue_point noPoint, unsignedValue_point noPoint,
    ← List.append_assoc, Nat.ofDigitChars_append,
    Nat.ofDigitChars_replicate_zero, List.length_append, List.length_replicate,
    pow_add]
  push_cast
  field_simp

theorem unsignedValue_noFraction
    (noPoint : '.' ∉ whole) :
    unsignedValue (whole ++ ['.']) = unsignedValue whole := by
  rw [unsignedValue_point noPoint, unsignedValue_whole noPoint]
  simp

theorem mem_unsignedText
    {places units : ℕ}
    {character : Char}
    (member : character ∈ unsignedText places units) :
    character.isDigit = true ∨ character = '.' := by
  unfold unsignedText at member
  obtain whole | fraction := List.mem_append.mp member
  · exact .inl (Nat.isDigit_of_mem_toDigits (by decide) (by decide) whole)
  · split at fraction
    · cases fraction
    · obtain rfl | digit := List.mem_cons.mp fraction
      · exact .inr rfl
      · obtain ⟨place, isPlace, rfl⟩ := List.mem_map.mp digit
        have small := placeDigits_lt isPlace
        rw [Nat.isDigit_digitChar]
        exact .inl (decide_eq_true small)

theorem unsignedValue_unsignedText
    (places units : ℕ) :
    unsignedValue (unsignedText places units) = units / 10 ^ places := by
  have noPoint := not_mem_toDigits (by decide : '.'.isDigit = false)
    (units / 10 ^ places)
  unfold unsignedText
  split
  case isTrue noPlaces =>
    rw [noPlaces, pow_zero, Nat.div_one, List.append_nil,
      unsignedValue_whole (by simpa [noPlaces] using noPoint)]
    simp
  case isFalse somePlaces =>
    have joined : units / 10 ^ places * 10 ^ places + units % 10 ^ places =
        units := Nat.div_add_mod' units (10 ^ places)
    rw [unsignedValue_point noPoint, Nat.ofDigitChars_append,
      Nat.ofDigitChars_ten_toDigits, ofDigitChars_map fun _ => placeDigits_lt,
      value_placeDigits, length_placeDigits, joined, List.length_map,
      length_placeDigits]

theorem denoted_unsigned
    {text : List Char}
    (noSign : '-' ∉ text) :
    denoted text = unsignedValue text := by
  unfold denoted
  split
  · exact absurd List.mem_cons_self noSign
  · rfl

theorem denoted_fixedText
    (places : ℕ)
    (units : ℤ) :
    denoted (fixedText places units) = units / 10 ^ places := by
  unfold fixedText
  split
  case isTrue negative =>
    have magnitude : ((units.natAbs : ℕ) : ℚ) = -units := by
      rw [Nat.cast_natAbs, abs_of_neg negative, Int.cast_neg]
    rw [denoted, unsignedValue_unsignedText, magnitude, neg_div, neg_neg]
  case isFalse notNegative =>
    have magnitude : ((units.natAbs : ℕ) : ℚ) = units := by
      rw [Nat.cast_natAbs, abs_of_nonneg (not_lt.mp notNegative)]
    have noSign : '-' ∉ unsignedText places units.natAbs := by
      intro member
      obtain digit | point := mem_unsignedText member
      · exact absurd digit (by decide)
      · exact absurd point (by decide)
    rw [denoted_unsigned noSign, unsignedValue_unsignedText, magnitude]

theorem rdropWhile_point
    (before fraction : List Char) :
    (before ++ '.' :: fraction).rdropWhile (· = '0') =
      before ++ '.' :: fraction.rdropWhile (· = '0') := by
  induction fraction using List.reverseRecOn with
  | nil =>
      exact List.rdropWhile_concat_neg _ _ _ (by decide)
  | append_singleton fraction last inductionHypothesis =>
      rw [← List.cons_append, ← List.append_assoc, List.rdropWhile_concat,
        List.rdropWhile_concat, inductionHypothesis]
      split
      · rfl
      · rw [List.append_assoc, List.cons_append]

theorem rdropWhile_append_zeros
    (fraction : List Char) :
    ∃ count : ℕ,
      fraction =
        fraction.rdropWhile (· = '0') ++ List.replicate count '0' := by
  refine ⟨(fraction.rtakeWhile (· = '0')).length, ?_⟩
  have zeros : fraction.rtakeWhile (· = '0') =
      List.replicate (fraction.rtakeWhile (· = '0')).length '0' := by
    apply List.eq_replicate_length.mpr
    intro character member
    have isZero := List.mem_rtakeWhile_imp member
    exact of_decide_eq_true isZero
  rw [← zeros, List.rdropWhile_append_rtakeWhile]

/-! ## Rounding -/

/-- A remainder of at least one half is rounded up. -/
theorem round_of_remainder
    {count last den : ℤ}
    (denPos : 0 < den)
    (lower : 0 ≤ last)
    (upper : last < den) :
    round (((count * den + last : ℤ) : ℚ) / den) =
      if den ≤ last * 2 then count + 1 else count := by
  have denCast : (0 : ℚ) < den := by exact_mod_cast denPos
  have lowerCast : (0 : ℚ) ≤ last := by exact_mod_cast lower
  have upperCast : (last : ℚ) < den := by exact_mod_cast upper
  have split : ((count * den + last : ℤ) : ℚ) / den = count + last / den := by
    push_cast
    field_simp
  rw [split, round_intCast_add, round_eq]
  by_cases up : den ≤ last * 2
  · have half : (den : ℚ) ≤ last * 2 := by exact_mod_cast up
    have one : ⌊(last : ℚ) / den + 1 / 2⌋ = 1 := by
      rw [Int.floor_eq_iff]
      push_cast
      constructor
      · rw [div_add_div _ _ denCast.ne' two_ne_zero, le_div_iff₀ (by positivity)]
        linarith
      · rw [div_add_div _ _ denCast.ne' two_ne_zero, div_lt_iff₀ (by positivity)]
        linarith
    rw [if_pos up, one]
  · have half : (last : ℚ) * 2 < den := by exact_mod_cast not_le.mp up
    have zero : ⌊(last : ℚ) / den + 1 / 2⌋ = 0 := by
      rw [Int.floor_eq_iff]
      push_cast
      constructor
      · positivity
      · rw [div_add_div _ _ denCast.ne' two_ne_zero, div_lt_iff₀ (by positivity)]
        linarith
    rw [if_neg up, zero, add_zero]

end Frameleaf.FixedPoint
