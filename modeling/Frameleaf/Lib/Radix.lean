import Mathlib.Data.Nat.Digits.Lemmas
import Mathlib.Tactic.Ring

namespace Frameleaf.Radix

/-!
# Digits of a number, the most significant one first

A list of digits denotes a number, and digits of one length are determined by
it.  Digits of one width are turned into digits of another one by an
accumulator: what was taken out of it and what is left denote what went in.
-/

/-- The number that digits denote. -/
def value
    (base : ℕ)
    (digits : List ℕ) : ℕ :=
  digits.foldl (fun number digit => number * base + digit) 0

/-- Without digits the number is zero. -/
@[simp] theorem value_nil
    (base : ℕ) :
    value base [] = 0 :=
  rfl

/-- A last digit is added to a shifted number. -/
@[simp] theorem value_concat
    (base : ℕ)
    (digits : List ℕ)
    (digit : ℕ) :
    value base (digits ++ [digit]) = value base digits * base + digit := by
  unfold value
  rw [List.foldl_append]
  rfl

theorem value_cons
    (base digit : ℕ)
    (digits : List ℕ) :
    value base (digit :: digits) =
      digit * base ^ digits.length + value base digits := by
  induction digits using List.reverseRecOn with
  | nil =>
      unfold value
      simp
  | append_singleton digits last inductionHypothesis =>
      rw [← List.cons_append, value_concat, value_concat, inductionHypothesis,
        List.length_append, List.length_singleton]
      ring

variable {base width left number bits : ℕ}

theorem value_eq_zero_iff
    (isBase : 0 < base)
    {digits : List ℕ} :
    value base digits = 0 ↔ ∀ digit ∈ digits, digit = 0 := by
  induction digits with
  | nil =>
      simp
  | cons digit digits inductionHypothesis =>
      have positive := Nat.pow_pos isBase (n := digits.length)
      rw [value_cons, Nat.add_eq_zero_iff, inductionHypothesis,
        Nat.mul_eq_zero, List.forall_mem_cons]
      simp only [positive.ne', or_false]

theorem value_lt
    {digits : List ℕ}
    (areDigits : ∀ digit ∈ digits, digit < base) :
    value base digits < base ^ digits.length := by
  induction digits using List.reverseRecOn with
  | nil =>
      exact Nat.one_pos
  | append_singleton digits last inductionHypothesis =>
      have before := inductionHypothesis fun digit member =>
        areDigits digit (List.mem_append_left _ member)
      have isDigit : last < base := areDigits last (by simp)
      rw [value_concat, List.length_append, List.length_singleton, pow_succ]
      nlinarith

theorem value_eq_ofDigits
    (base : ℕ)
    (digits : List ℕ) :
    value base digits = Nat.ofDigits base digits.reverse := by
  induction digits using List.reverseRecOn with
  | nil =>
      rfl
  | append_singleton digits digit inductionHypothesis =>
      rw [value_concat, inductionHypothesis, List.reverse_append,
        List.reverse_singleton, List.singleton_append, Nat.ofDigits_cons]
      ring

theorem value_injective
    (isBase : 1 < base)
    {first second : List ℕ}
    (sameLength : first.length = second.length)
    (firstDigits : ∀ digit ∈ first, digit < base)
    (secondDigits : ∀ digit ∈ second, digit < base)
    (same : value base first = value base second) :
    first = second := by
  rw [value_eq_ofDigits, value_eq_ofDigits] at same
  apply List.reverse_injective
  apply Nat.ofDigits_inj_of_len_eq isBase _ _ _ same
  · rw [List.length_reverse, List.length_reverse, sameLength]
  · intro digit member
    exact firstDigits digit (List.mem_reverse.mp member)
  · intro digit member
    exact secondDigits digit (List.mem_reverse.mp member)

/-- The digits that were taken out and the lowest bits that are left denote a
number. -/
def Regroups
    (width : ℕ)
    (taken : List ℕ)
    (left bits number : ℕ) : Prop :=
  value (2 ^ width) taken * 2 ^ bits + left % 2 ^ bits = number

theorem Regroups.start
    (width : ℕ) :
    Regroups width [] 0 0 0 := by
  unfold Regroups
  rw [value_nil, Nat.zero_mul, Nat.zero_mod]

variable {taken : List ℕ}

theorem Regroups.push
    (regroups : Regroups width taken left bits number)
    {next added digit : ℕ}
    (isNext : next % 2 ^ (bits + added) = left % 2 ^ bits * 2 ^ added + digit) :
    Regroups width taken next (bits + added) (number * 2 ^ added + digit) := by
  unfold Regroups at regroups ⊢
  rw [isNext, ← regroups, pow_add]
  ring

theorem Regroups.take
    (regroups : Regroups width taken left bits number)
    (enough : width ≤ bits) :
    Regroups width (taken ++ [left / 2 ^ (bits - width) % 2 ^ width]) left
      (bits - width) number := by
  unfold Regroups at regroups ⊢
  have split : 2 ^ bits = 2 ^ (bits - width) * 2 ^ width := by
    rw [← pow_add, Nat.sub_add_cancel enough]
  have parts : left % 2 ^ bits = left % 2 ^ (bits - width) +
      2 ^ (bits - width) * (left / 2 ^ (bits - width) % 2 ^ width) := by
    rw [split]
    exact Nat.mod_mul
  rw [value_concat, ← regroups, parts, split]
  ring

theorem Regroups.finish
    (regroups : Regroups width taken left 0 number) :
    value (2 ^ width) taken = number := by
  unfold Regroups at regroups
  rw [pow_zero, Nat.mod_one, Nat.mul_one, Nat.add_zero] at regroups
  exact regroups

end Frameleaf.Radix
