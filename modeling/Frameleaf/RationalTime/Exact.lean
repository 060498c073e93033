import Frameleaf.Lib.Outcome
import Frameleaf.RationalTime.Basic
import Mathlib.RingTheory.Coprime.Lemmas
import Mathlib.RingTheory.Int.Basic
import Mathlib.Tactic.FieldSimp

namespace Frameleaf.RationalTime

open Binary64 Outcome

/-!
# Exactness of rational arithmetic

A `Rational` stands for one element of `ℚ`, and distinct representations stand
for distinct elements.  Every operation either fails or returns the
representation of the exact result; multiplication and division moreover
succeed whenever that exact result has a representation at all.
-/

namespace Rational

/-- The mathematical value of a represented rational. -/
def value (r : Rational) : ℚ :=
  r.num / r.den

theorem den_cast_pos
    (r : Rational) :
    (0 : ℚ) < r.den := by
  exact_mod_cast r.denPos

theorem value_num
    (r : Rational) :
    r.value.num = r.num :=
  Rat.num_div_eq_of_coprime r.denPos r.reduced

theorem value_den
    (r : Rational) :
    (r.value.den : ℤ) = r.den :=
  Rat.den_div_eq_of_coprime r.denPos r.reduced

theorem value_injective
    {a b : Rational}
    (same : a.value = b.value) :
    a = b := by
  have sameNum : a.num = b.num := by
    rw [← value_num, ← value_num, same]
  have sameDen : a.den = b.den := by
    rw [← value_den, ← value_den, same]
  cases a
  cases b
  simp_all

theorem value_eq_zero_iff
    (r : Rational) :
    r.value = 0 ↔ r.num = 0 := by
  rw [← r.value_num, Rat.num_eq_zero]

theorem value_neg_iff
    (r : Rational) :
    r.value < 0 ↔ r.num < 0 := by
  rw [← r.value_num, Rat.num_neg]

theorem value_pos_iff
    (r : Rational) :
    0 < r.value ↔ 0 < r.num := by
  rw [← r.value_num, Rat.num_pos]

end Rational

theorem reduce_value
    {num den : ℤ}
    (numSafe : IsSafe num)
    (denSafe : IsSafe den)
    (denPos : 0 < den) :
    (reduce num den numSafe denSafe denPos).value = num / den := by
  obtain ⟨top, bottom, topShape, bottomShape, topEq, bottomEq,
      bottomPos, divisorPos, -⟩ :=
    reduce_parts numSafe denSafe denPos
  have divisorCast : ((gcd num den : ℤ) : ℚ) ≠ 0 := by
    exact_mod_cast divisorPos.ne'
  have topCast : (num : ℚ) = gcd num den * top := by
    exact_mod_cast topShape
  have bottomCast : (den : ℚ) = gcd num den * bottom := by
    exact_mod_cast bottomShape
  simp only [Rational.value, reduce, topEq, bottomEq]
  rw [topCast, bottomCast, mul_div_mul_left _ _ divisorCast]

variable {r a b : Rational}

theorem rational_eq_ok_iff
    {num den : ℤ} :
    rational num den = .ok r ↔
      IsSafe num ∧ IsSafe den ∧ den ≠ 0 ∧ r.value = num / den := by
  unfold rational
  split_ifs with safe zero negative
  · simp [zero]
  · have flipped :=
      reduce_value (IsSafe.mul_sign safe.1 (.inr rfl))
        (IsSafe.mul_sign safe.2 (.inr rfl))
        (show 0 < den * -1 by omega)
    have quotient :
        ((num * -1 : ℤ) : ℚ) / ((den * -1 : ℤ) : ℚ) = num / den := by
      push_cast
      rw [mul_neg_one, mul_neg_one, neg_div_neg_eq]
    rw [quotient] at flipped
    simp only [Except.ok.injEq, safe.1, safe.2, zero, ne_eq,
      not_false_eq_true, true_and]
    constructor
    · rintro rfl
      exact flipped
    · intro same
      exact Rational.value_injective (flipped.trans same.symm)
  · have kept :=
      reduce_value (IsSafe.mul_sign safe.1 (.inl rfl))
        (IsSafe.mul_sign safe.2 (.inl rfl))
        (show 0 < den * 1 by omega)
    have quotient :
        ((num * 1 : ℤ) : ℚ) / ((den * 1 : ℤ) : ℚ) = num / den := by
      push_cast
      rw [mul_one, mul_one]
    rw [quotient] at kept
    simp only [Except.ok.injEq, safe.1, safe.2, zero, ne_eq,
      not_false_eq_true, true_and]
    constructor
    · rintro rfl
      exact kept
    · intro same
      exact Rational.value_injective (kept.trans same.symm)
  · simp only [false_iff]
    exact fun accepted => safe ⟨accepted.1, accepted.2.1⟩

/-- Negation is exact. -/
@[simp] theorem negate_value
    (a : Rational) :
    (negate a).value = -a.value := by
  simp [negate, Rational.value, neg_div]

theorem add_value
    (accepted : add a b = .ok r) :
    r.value = a.value + b.value := by
  obtain ⟨aScale, bScale, aShape, bShape, aEq, bEq,
      bScalePos, divisorPos, -⟩ :=
    reduce_parts a.denSafe b.denSafe b.denPos
  simp only [add, bEq, aEq] at accepted
  obtain ⟨den, denCheck, accepted⟩ := bind_eq_ok.mp accepted
  obtain ⟨left, leftCheck, accepted⟩ := bind_eq_ok.mp accepted
  obtain ⟨right, rightCheck, accepted⟩ := bind_eq_ok.mp accepted
  obtain ⟨num, numCheck, accepted⟩ := bind_eq_ok.mp accepted
  obtain ⟨-, rfl⟩ := product_eq_ok_iff.mp denCheck
  obtain ⟨-, rfl⟩ := product_eq_ok_iff.mp leftCheck
  obtain ⟨-, rfl⟩ := product_eq_ok_iff.mp rightCheck
  obtain ⟨-, rfl⟩ := checkSafe_eq_ok_iff.mp numCheck
  obtain ⟨-, -, -, shape⟩ := rational_eq_ok_iff.mp accepted
  have divisorCast : ((gcd a.den b.den : ℤ) : ℚ) ≠ 0 := by
    exact_mod_cast divisorPos.ne'
  have aCast : (a.den : ℚ) = gcd a.den b.den * aScale := by
    exact_mod_cast aShape
  have bCast : (b.den : ℚ) = gcd a.den b.den * bScale := by
    exact_mod_cast bShape
  have aDen := a.den_cast_pos.ne'
  have bDen := b.den_cast_pos.ne'
  have bScaleCast : (bScale : ℚ) ≠ 0 := by
    exact_mod_cast bScalePos.ne'
  have aScaleCast : (aScale : ℚ) ≠ 0 := by
    intro zero
    rw [aCast, zero, mul_zero] at aDen
    exact aDen rfl
  rw [shape, Rational.value, Rational.value]
  push_cast
  rw [aCast, bCast]
  field_simp

theorem subtract_value
    (accepted : subtract a b = .ok r) :
    r.value = a.value - b.value := by
  rw [add_value accepted, negate_value, sub_eq_add_neg]

/--
The cross-reduced numerator and denominator of a product: they are coprime,
and their quotient is the exact product.
-/
theorem multiply_parts
    (a b : Rational) :
    ∃ aTop bTop aBottom bBottom : ℤ,
      multiply a b = (do
        let num ← product aTop bTop "A product"
        let den ← product aBottom bBottom "A product denominator"
        rational num den) ∧
      0 < aBottom * bBottom ∧
      Int.gcd (aTop * bTop) (aBottom * bBottom) = 1 ∧
      ((aTop * bTop : ℤ) : ℚ) / ((aBottom * bBottom : ℤ) : ℚ) =
        a.value * b.value := by
  obtain ⟨aTop, bBottom, aTopShape, bBottomShape, aTopEq, bBottomEq,
      bBottomPos, leftPos, leftCoprime⟩ :=
    reduce_parts a.numSafe b.denSafe b.denPos
  obtain ⟨bTop, aBottom, bTopShape, aBottomShape, bTopEq, aBottomEq,
      aBottomPos, rightPos, rightCoprime⟩ :=
    reduce_parts b.numSafe a.denSafe a.denPos
  refine ⟨aTop, bTop, aBottom, bBottom, ?_,
    mul_pos aBottomPos bBottomPos, ?_, ?_⟩
  · simp only [multiply, leftPos.ne', rightPos.ne', ↓reduceIte,
      aTopEq, bTopEq, aBottomEq, bBottomEq]
  · have aOwn : IsCoprime aTop aBottom := by
      have whole := Int.isCoprime_iff_gcd_eq_one.mpr a.reduced
      rw [aTopShape, aBottomShape] at whole
      exact whole.of_mul_left_right.of_mul_right_right
    have bOwn : IsCoprime bTop bBottom := by
      have whole := Int.isCoprime_iff_gcd_eq_one.mpr b.reduced
      rw [bTopShape, bBottomShape] at whole
      exact whole.of_mul_left_right.of_mul_right_right
    have aCross := Int.isCoprime_iff_gcd_eq_one.mpr leftCoprime
    have bCross := Int.isCoprime_iff_gcd_eq_one.mpr rightCoprime
    rw [← Int.isCoprime_iff_gcd_eq_one]
    exact (aOwn.mul_left bCross).mul_right (aCross.mul_left bOwn)
  · have leftCast : ((gcd a.num b.den : ℤ) : ℚ) ≠ 0 := by
      exact_mod_cast leftPos.ne'
    have rightCast : ((gcd b.num a.den : ℤ) : ℚ) ≠ 0 := by
      exact_mod_cast rightPos.ne'
    have aBottomCast : (aBottom : ℚ) ≠ 0 := by
      exact_mod_cast aBottomPos.ne'
    have bBottomCast : (bBottom : ℚ) ≠ 0 := by
      exact_mod_cast bBottomPos.ne'
    have aNum : (a.num : ℚ) = gcd a.num b.den * aTop := by
      exact_mod_cast aTopShape
    have bDen : (b.den : ℚ) = gcd a.num b.den * bBottom := by
      exact_mod_cast bBottomShape
    have bNum : (b.num : ℚ) = gcd b.num a.den * bTop := by
      exact_mod_cast bTopShape
    have aDen : (a.den : ℚ) = gcd b.num a.den * aBottom := by
      exact_mod_cast aBottomShape
    rw [Rational.value, Rational.value, aNum, bDen, bNum, aDen]
    push_cast
    field_simp

theorem multiply_eq_ok_iff :
    multiply a b = .ok r ↔ r.value = a.value * b.value := by
  obtain ⟨aTop, bTop, aBottom, bBottom, shape, bottomPos, coprime,
      exact⟩ :=
    multiply_parts a b
  rw [shape]
  constructor
  · intro accepted
    obtain ⟨num, numCheck, accepted⟩ := bind_eq_ok.mp accepted
    obtain ⟨den, denCheck, accepted⟩ := bind_eq_ok.mp accepted
    obtain ⟨-, rfl⟩ := product_eq_ok_iff.mp numCheck
    obtain ⟨-, rfl⟩ := product_eq_ok_iff.mp denCheck
    obtain ⟨-, -, -, same⟩ := rational_eq_ok_iff.mp accepted
    rw [same, exact]
  · intro represented
    rw [← exact] at represented
    have numSame : aTop * bTop = r.num := by
      rw [← r.value_num, represented]
      exact (Rat.num_div_eq_of_coprime bottomPos coprime).symm
    have denSame : aBottom * bBottom = r.den := by
      rw [← r.value_den, represented]
      exact (Rat.den_div_eq_of_coprime bottomPos coprime).symm
    have numCheck :
        product aTop bTop "A product" = .ok r.num :=
      product_eq_ok_iff.mpr ⟨numSame ▸ r.numSafe, numSame.symm⟩
    have denCheck :
        product aBottom bBottom "A product denominator" = .ok r.den :=
      product_eq_ok_iff.mpr ⟨denSame ▸ r.denSafe, denSame.symm⟩
    rw [numCheck, denCheck, ok_bind, ok_bind, rational_eq_ok_iff]
    exact ⟨r.numSafe, r.denSafe, r.denPos.ne', rfl⟩

theorem invert_eq_ok_iff :
    invert a = .ok r ↔ a.num ≠ 0 ∧ r.value = a.value⁻¹ := by
  unfold invert
  split_ifs with zero
  · simp [zero]
  · rw [rational_eq_ok_iff]
    simp [a.numSafe, a.denSafe, zero, Rational.value, inv_div]

theorem exists_invert
    (nonzero : a.num ≠ 0) :
    ∃ r, invert a = .ok r := by
  rcases lt_or_gt_of_ne nonzero with negative | positive
  · refine ⟨reduce (a.den * -1) (a.num * -1)
      (IsSafe.mul_sign a.denSafe (.inr rfl))
      (IsSafe.mul_sign a.numSafe (.inr rfl)) (by omega), ?_⟩
    simp [invert, nonzero, rational, a.denSafe, a.numSafe, negative]
  · refine ⟨reduce (a.den * 1) (a.num * 1)
      (IsSafe.mul_sign a.denSafe (.inl rfl))
      (IsSafe.mul_sign a.numSafe (.inl rfl)) (by omega), ?_⟩
    simp [invert, nonzero, rational, a.denSafe, a.numSafe,
      not_lt.mpr positive.le]

theorem divide_eq_ok_iff :
    divide a b = .ok r ↔ b.num ≠ 0 ∧ r.value = a.value / b.value := by
  unfold divide
  split_ifs with zero
  · simp [zero]
  · obtain ⟨inverse, inverted⟩ := exists_invert zero
    have inverseValue := (invert_eq_ok_iff.mp inverted).2
    rw [inverted, ok_bind, multiply_eq_ok_iff, inverseValue,
      div_eq_mul_inv]
    simp [zero]

theorem sign_cases
    (a : Rational) :
    (sign a = -1 ∧ a.value < 0) ∨
      (sign a = 0 ∧ a.value = 0) ∨
      (sign a = 1 ∧ 0 < a.value) := by
  rw [a.value_neg_iff, a.value_eq_zero_iff, a.value_pos_iff]
  unfold sign
  split_ifs with zero negative
  · exact Or.inr (Or.inl ⟨rfl, zero⟩)
  · exact Or.inl ⟨rfl, negative⟩
  · exact Or.inr (Or.inr ⟨rfl, by omega⟩)

theorem compare_cases
    {order : ℤ}
    (accepted : compare a b = .ok order) :
    (order = -1 ∧ a.value < b.value) ∨
      (order = 0 ∧ a.value = b.value) ∨
      (order = 1 ∧ b.value < a.value) := by
  obtain ⟨difference, subtracted, returned⟩ := bind_eq_ok.mp accepted
  obtain rfl := pure_eq_ok.mp returned
  have shape := subtract_value subtracted
  rcases sign_cases difference with
      ⟨signed, bound⟩ | ⟨signed, bound⟩ | ⟨signed, bound⟩ <;>
    rw [shape] at bound
  · exact Or.inl ⟨signed, sub_neg.mp bound⟩
  · exact Or.inr (Or.inl ⟨signed, sub_eq_zero.mp bound⟩)
  · exact Or.inr (Or.inr ⟨signed, sub_pos.mp bound⟩)

theorem min_value
    (accepted : min a b = .ok r) :
    r.value = Min.min a.value b.value := by
  obtain ⟨order, compared, returned⟩ := bind_eq_ok.mp accepted
  obtain rfl := pure_eq_ok.mp returned
  rcases compare_cases compared with
      ⟨rfl, bound⟩ | ⟨rfl, bound⟩ | ⟨rfl, bound⟩
  · simpa using (min_eq_left bound.le).symm
  · simpa using (min_eq_left bound.le).symm
  · simpa using (min_eq_right bound.le).symm

theorem max_value
    (accepted : max a b = .ok r) :
    r.value = Max.max a.value b.value := by
  obtain ⟨order, compared, returned⟩ := bind_eq_ok.mp accepted
  obtain rfl := pure_eq_ok.mp returned
  rcases compare_cases compared with
      ⟨rfl, bound⟩ | ⟨rfl, bound⟩ | ⟨rfl, bound⟩
  · simpa using (max_eq_right bound.le).symm
  · simpa using (max_eq_left bound.ge).symm
  · simpa using (max_eq_left bound.le).symm

theorem clamp_value
    {lower upper : Rational}
    (accepted : clamp a lower upper = .ok r) :
    r.value = Min.min (Max.max a.value lower.value) upper.value := by
  obtain ⟨order, -, accepted⟩ := bind_eq_ok.mp accepted
  split_ifs at accepted
  obtain ⟨raised, maximised, accepted⟩ := bind_eq_ok.mp accepted
  rw [min_value accepted, max_value maximised]

theorem equals_iff
    (a b : Rational) :
    equals a b = true ↔ a.value = b.value := by
  constructor
  · intro same
    simp only [equals, Bool.and_eq_true, decide_eq_true_eq] at same
    rw [Rational.value, Rational.value, same.1, same.2]
  · intro same
    simp [equals, Rational.value_injective same]

/-- An arithmetic program over the module's operations. -/
inductive Term where
  | literal (r : Rational)
  | add (left right : Term)
  | subtract (left right : Term)
  | multiply (left right : Term)
  | divide (left right : Term)
  | invert (operand : Term)
  | min (left right : Term)
  | max (left right : Term)
  | clamp (operand lower upper : Term)

namespace Term

/-- Run a program with the module's operations. -/
def eval : Term → Except RationalError Rational
  | .literal r =>
      .ok r
  | .add left right => do
      RationalTime.add (← left.eval) (← right.eval)
  | .subtract left right => do
      RationalTime.subtract (← left.eval) (← right.eval)
  | .multiply left right => do
      RationalTime.multiply (← left.eval) (← right.eval)
  | .divide left right => do
      RationalTime.divide (← left.eval) (← right.eval)
  | .invert operand => do
      RationalTime.invert (← operand.eval)
  | .min left right => do
      RationalTime.min (← left.eval) (← right.eval)
  | .max left right => do
      RationalTime.max (← left.eval) (← right.eval)
  | .clamp operand lower upper => do
      RationalTime.clamp (← operand.eval) (← lower.eval) (← upper.eval)

/-- The exact rational a program denotes. -/
def exact : Term → ℚ
  | .literal r =>
      r.value
  | .add left right =>
      left.exact + right.exact
  | .subtract left right =>
      left.exact - right.exact
  | .multiply left right =>
      left.exact * right.exact
  | .divide left right =>
      left.exact / right.exact
  | .invert operand =>
      operand.exact⁻¹
  | .min left right =>
      Min.min left.exact right.exact
  | .max left right =>
      Max.max left.exact right.exact
  | .clamp operand lower upper =>
      Min.min (Max.max operand.exact lower.exact) upper.exact

/-- A program that runs to completion returns the exact rational. -/
theorem eval_exact
    {term : Term}
    {r : Rational}
    (accepted : term.eval = .ok r) :
    r.value = term.exact := by
  induction term generalizing r with
  | literal own =>
      obtain rfl := Except.ok.inj accepted
      rfl
  | add left right leftHypothesis rightHypothesis =>
      obtain ⟨x, leftRun, accepted⟩ := bind_eq_ok.mp accepted
      obtain ⟨y, rightRun, accepted⟩ := bind_eq_ok.mp accepted
      rw [add_value accepted, leftHypothesis leftRun,
        rightHypothesis rightRun, exact]
  | subtract left right leftHypothesis rightHypothesis =>
      obtain ⟨x, leftRun, accepted⟩ := bind_eq_ok.mp accepted
      obtain ⟨y, rightRun, accepted⟩ := bind_eq_ok.mp accepted
      rw [subtract_value accepted, leftHypothesis leftRun,
        rightHypothesis rightRun, exact]
  | multiply left right leftHypothesis rightHypothesis =>
      obtain ⟨x, leftRun, accepted⟩ := bind_eq_ok.mp accepted
      obtain ⟨y, rightRun, accepted⟩ := bind_eq_ok.mp accepted
      rw [multiply_eq_ok_iff.mp accepted, leftHypothesis leftRun,
        rightHypothesis rightRun, exact]
  | divide left right leftHypothesis rightHypothesis =>
      obtain ⟨x, leftRun, accepted⟩ := bind_eq_ok.mp accepted
      obtain ⟨y, rightRun, accepted⟩ := bind_eq_ok.mp accepted
      rw [(divide_eq_ok_iff.mp accepted).2, leftHypothesis leftRun,
        rightHypothesis rightRun, exact]
  | invert operand inductionHypothesis =>
      obtain ⟨x, run, accepted⟩ := bind_eq_ok.mp accepted
      rw [(invert_eq_ok_iff.mp accepted).2, inductionHypothesis run,
        exact]
  | min left right leftHypothesis rightHypothesis =>
      obtain ⟨x, leftRun, accepted⟩ := bind_eq_ok.mp accepted
      obtain ⟨y, rightRun, accepted⟩ := bind_eq_ok.mp accepted
      rw [min_value accepted, leftHypothesis leftRun,
        rightHypothesis rightRun, exact]
  | max left right leftHypothesis rightHypothesis =>
      obtain ⟨x, leftRun, accepted⟩ := bind_eq_ok.mp accepted
      obtain ⟨y, rightRun, accepted⟩ := bind_eq_ok.mp accepted
      rw [max_value accepted, leftHypothesis leftRun,
        rightHypothesis rightRun, exact]
  | clamp operand lower upper operandHypothesis lowerHypothesis
      upperHypothesis =>
      obtain ⟨x, operandRun, accepted⟩ := bind_eq_ok.mp accepted
      obtain ⟨y, lowerRun, accepted⟩ := bind_eq_ok.mp accepted
      obtain ⟨z, upperRun, accepted⟩ := bind_eq_ok.mp accepted
      rw [clamp_value accepted, operandHypothesis operandRun,
        lowerHypothesis lowerRun, upperHypothesis upperRun, exact]

end Term

/--
Arithmetic is exact or refused.  A program that runs to completion returns the
reduced, safe representation of the exact rational it denotes; a comparison
that succeeds has the sign of the exact order; and structural equality is
mathematical equality.
-/
theorem arithmetic_exact_or_refused :
    (∀ (term : Term) (r : Rational),
        term.eval = .ok r →
        IsSafe r.num ∧ IsSafe r.den ∧ 0 < r.den ∧
          Int.gcd r.num r.den = 1 ∧ r.value = term.exact) ∧
      (∀ (a b : Rational) (order : ℤ),
        compare a b = .ok order →
        (order = -1 ∧ a.value < b.value) ∨
          (order = 0 ∧ a.value = b.value) ∨
          (order = 1 ∧ b.value < a.value)) ∧
      (∀ a b : Rational, equals a b = true ↔ a.value = b.value) :=
  ⟨fun _ r accepted =>
      ⟨r.numSafe, r.denSafe, r.denPos, r.reduced,
        Term.eval_exact accepted⟩,
    fun _ _ _ accepted => compare_cases accepted,
    equals_iff⟩

/-- The cadence 30000/1001, spelled exactly. -/
def FRAME_RATE_NTSC_30 : Rational :=
  ⟨30000, 1001, by decide, by decide, by decide, by decide⟩

theorem isSafe_one : IsSafe 1 := by
  decide

/-- One tick of a 1/90000 clock. -/
def ninetyKilohertz : TimeBase :=
  ⟨1, 90000, isSafe_one, by decide, by decide, by decide⟩

/-- One NTSC frame lasts 3003 ticks of a 1/90000 clock, and is longer than one. -/
theorem arithmetic_exact_ntsc :
    (3003 : ℚ) =
        (Term.divide (.invert (.literal FRAME_RATE_NTSC_30))
          (.literal ninetyKilohertz)).exact ∧
      ninetyKilohertz.value < FRAME_RATE_NTSC_30.value := by
  have ticks :=
    (arithmetic_exact_or_refused.1
      (.divide (.invert (.literal FRAME_RATE_NTSC_30))
        (.literal ninetyKilohertz))
      ⟨3003, 1, by decide, by decide, by decide, by decide⟩
      (by decide +kernel)).2.2.2.2
  have order :=
    arithmetic_exact_or_refused.2.1
      ninetyKilohertz FRAME_RATE_NTSC_30 (-1) (by decide +kernel)
  refine ⟨?_, ?_⟩
  · rw [← ticks]
    norm_num [Rational.value]
  · simpa using order

end Frameleaf.RationalTime
