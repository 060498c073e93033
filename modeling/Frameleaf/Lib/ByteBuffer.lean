import Frameleaf.Lib.Outcome
import Mathlib.Algebra.GroupWithZero.Nat
import Mathlib.Data.List.TakeDrop

namespace Frameleaf.ByteBuffer

open Outcome

/-!
# Reading from a byte buffer

A buffer is read by accessors that fail outside of it.  A failure is either a
refusal of the reader's own, a failure of the source, or an access out of
range; a reader is in bounds when the last one never happens.
-/

universe u v

variable {Refusal : Type u} {α β : Type v}

/-- A sequence of bytes. -/
abbrev Bytes := List UInt8

/-- Why reading failed. -/
inductive Failure (Refusal : Type u) where
  | refused (refusal : Refusal)
  | unreadable
  | outOfRange
deriving DecidableEq, Repr

/-- The value of bytes with the least significant one first. -/
def littleEndian
    (bytes : Bytes) : ℕ :=
  bytes.foldr (fun byte rest => byte.toNat + 256 * rest) 0

/-- The value of bytes with the most significant one first. -/
def bigEndian
    (bytes : Bytes) : ℕ :=
  bytes.foldl (fun value byte => value * 256 + byte.toNat) 0

/-- The bytes of an unsigned integer, with the most significant one first. -/
def writeUIntBE : (width value : ℕ) → Bytes
  | 0, _ =>
      []
  | width + 1, value =>
      writeUIntBE width (value / 256) ++ [UInt8.ofNat (value % 256)]

/-- Read an unsigned integer of some width. -/
def readUIntLE
    (width : ℕ)
    (bytes : Bytes)
    (offset : ℕ) : Except (Failure Refusal) ℕ :=
  if offset + width ≤ bytes.length then
    .ok (littleEndian ((bytes.drop offset).take width))
  else
    .error .outOfRange

/-- Read an unsigned integer of two bytes. -/
def readUInt16LE
    (bytes : Bytes)
    (offset : ℕ) : Except (Failure Refusal) ℕ :=
  readUIntLE 2 bytes offset

/-- Read an unsigned integer of four bytes. -/
def readUInt32LE
    (bytes : Bytes)
    (offset : ℕ) : Except (Failure Refusal) ℕ :=
  readUIntLE 4 bytes offset

/-- Read an unsigned integer of eight bytes. -/
def readBigUInt64LE
    (bytes : Bytes)
    (offset : ℕ) : Except (Failure Refusal) ℕ :=
  readUIntLE 8 bytes offset

/-- The bytes between two offsets, as far as there are any. -/
def subarray
    (bytes : Bytes)
    (start stop : ℕ) : Bytes :=
  (bytes.take stop).drop start

/-- Refuse what was read. -/
def refuse
    (refusal : Refusal) : Except (Failure Refusal) α :=
  .error (.refused refusal)

/-- Refuse what was read when a condition holds. -/
def refuseIf
    (condition : Bool)
    (refusal : Refusal) : Except (Failure Refusal) PUnit :=
  if condition then refuse refusal else .ok ⟨⟩

/-- No accessor was used out of range. -/
def InBounds
    (result : Except (Failure Refusal) α) : Prop :=
  result ≠ .error .outOfRange

theorem InBounds.ok
    (value : α) :
    InBounds (.ok value : Except (Failure Refusal) α) := by
  simp [InBounds]

theorem InBounds.refuse
    (refusal : Refusal) :
    InBounds (ByteBuffer.refuse refusal : Except (Failure Refusal) α) := by
  simp [InBounds, ByteBuffer.refuse]

theorem InBounds.refuseIf
    (condition : Bool)
    (refusal : Refusal) :
    InBounds (ByteBuffer.refuseIf condition refusal :
      Except (Failure Refusal) PUnit) := by
  cases condition with
  | false =>
      exact .ok _
  | true =>
      exact .refuse _

theorem InBounds.bind
    {first : Except (Failure Refusal) α}
    {next : α → Except (Failure Refusal) β}
    (firstInBounds : InBounds first)
    (nextInBounds : ∀ value, first = .ok value → InBounds (next value)) :
    InBounds (first >>= next) := by
  cases first with
  | error failure =>
      intro outside
      apply firstInBounds
      rw [error_bind, Except.error.injEq] at outside
      rw [outside]
  | ok value =>
      exact nextInBounds value rfl

variable {width offset value length : ℕ} {bytes : Bytes}

theorem InBounds.readUIntLE
    (within : offset + width ≤ bytes.length) :
    InBounds (ByteBuffer.readUIntLE width bytes offset :
      Except (Failure Refusal) ℕ) := by
  rw [ByteBuffer.readUIntLE, if_pos within]
  exact .ok _

/-- The condition of a refusal does not hold once it is passed. -/
@[simp] theorem refuseIf_eq_ok
    {condition : Bool}
    {refusal : Refusal}
    {done : PUnit} :
    (refuseIf condition refusal : Except (Failure Refusal) PUnit) =
        .ok done ↔
      condition = false := by
  cases condition <;> simp [refuseIf, refuse]

/-- Nothing is read by a refusal. -/
@[simp] theorem refuse_ne_ok
    {refusal : Refusal}
    {value : α} :
    (refuse refusal : Except (Failure Refusal) α) ≠ .ok value := by
  simp [refuse]

theorem length_subarray
    {start stop : ℕ}
    (within : stop ≤ bytes.length) :
    (subarray bytes start stop).length = stop - start := by
  rw [subarray, List.length_drop, List.length_take, Nat.min_eq_left within]

theorem drop_take_subarray
    {start : ℕ}
    (within : offset + width ≤ length) :
    ((subarray bytes start (start + length)).drop offset).take width =
      (bytes.drop (start + offset)).take width := by
  rw [subarray, List.drop_take, Nat.add_sub_cancel_left, List.drop_take,
    List.drop_drop, List.take_take, Nat.min_eq_left (by omega)]

theorem readUIntLE_subarray
    {Refusal : Type*}
    {start : ℕ}
    (within : start + length ≤ bytes.length)
    (isRead : (readUIntLE width (subarray bytes start (start + length))
      offset : Except (Failure Refusal) ℕ) = .ok value) :
    (readUIntLE width bytes (start + offset) :
      Except (Failure Refusal) ℕ) = .ok value := by
  have isLength := @length_subarray bytes start _ within
  rw [readUIntLE] at isRead
  split at isRead
  · rename_i fits
    rw [isLength, Nat.add_sub_cancel_left] at fits
    rw [drop_take_subarray fits] at isRead
    rw [readUIntLE, if_pos (by omega)]
    exact isRead
  · simp at isRead

/-- A written integer has its width. -/
@[simp] theorem length_writeUIntBE
    (width value : ℕ) :
    (writeUIntBE width value).length = width := by
  induction width generalizing value with
  | zero =>
      rfl
  | succ width inductionHypothesis =>
      rw [writeUIntBE, List.length_append, inductionHypothesis]
      rfl

theorem bigEndian_writeUIntBE
    (fits : value < 256 ^ width) :
    bigEndian (writeUIntBE width value) = value := by
  induction width generalizing value with
  | zero =>
      rw [Nat.pow_zero] at fits
      rw [writeUIntBE, Nat.lt_one_iff.mp fits]
      rfl
  | succ width inductionHypothesis =>
      have prefixFits : value / 256 < 256 ^ width := by
        apply Nat.div_lt_of_lt_mul
        rwa [Nat.pow_succ, Nat.mul_comm] at fits
      have value' := inductionHypothesis prefixFits
      rw [bigEndian] at value'
      rw [writeUIntBE, bigEndian, List.foldl_append, value', List.foldl_cons,
        List.foldl_nil]
      have lastByte : (UInt8.ofNat (value % 256)).toNat = value % 256 := by
        rw [UInt8.toNat_ofNat']
        omega
      omega

end Frameleaf.ByteBuffer
