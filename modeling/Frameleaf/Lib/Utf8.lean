import Mathlib.Data.List.Basic
import Mathlib.Tactic.Common

namespace Frameleaf.Utf8

/-!
# UTF-8 that may be damaged

Encoding is the standard library's.  Decoding never fails: the longest start of
a character that is not completed, and every byte that cannot start one, reads
as one replacement character.  What was encoded reads as it was.
-/

/-- Characters of a text. -/
abbrev Text := List Char

/-- The bytes of a text. -/
def encode
    (text : Text) : List UInt8 :=
  text.flatMap String.utf8EncodeChar

/-- What damaged bytes read as. -/
def replacement : Char := Char.ofNat 0xFFFD

/-- A character that is not complete yet. -/
structure Pending where
  needed : ℕ
  lower : ℕ
  upper : ℕ
  point : ℕ

/-- What a byte starts. -/
inductive Lead where
  | character (point : ℕ)
  | sequence (pending : Pending)
  | invalid

/-- What a byte starts where no character is pending. -/
def lead (byte : ℕ) : Lead :=
  if byte < 0x80 then
    .character byte
  else if byte < 0xC2 then
    .invalid
  else if byte < 0xE0 then
    .sequence ⟨1, 0x80, 0xBF, byte - 0xC0⟩
  else if byte < 0xF0 then
    .sequence ⟨2, if byte = 0xE0 then 0xA0 else 0x80,
      if byte = 0xED then 0x9F else 0xBF, byte - 0xE0⟩
  else if byte < 0xF5 then
    .sequence ⟨3, if byte = 0xF0 then 0x90 else 0x80,
      if byte = 0xF4 then 0x8F else 0xBF, byte - 0xF0⟩
  else
    .invalid

/-- Read one byte where no character is pending, then the rest. -/
def begin
    (byte : UInt8)
    (goOn : Option Pending → Text) : Text :=
  match lead byte.toNat with
  | .character point => Char.ofNat point :: goOn none
  | .sequence pending => goOn (some pending)
  | .invalid => replacement :: goOn none

/-- Read bytes after the pending part of a character. -/
def decodeFrom : Option Pending → List UInt8 → Text
  | none, [] => []
  | some _, [] => [replacement]
  | none, byte :: rest => begin byte fun pending => decodeFrom pending rest
  | some pending, byte :: rest =>
      if pending.lower ≤ byte.toNat ∧ byte.toNat ≤ pending.upper then
        let point := pending.point * 64 + (byte.toNat - 0x80)
        if pending.needed ≤ 1 then
          Char.ofNat point :: decodeFrom none rest
        else
          decodeFrom (some ⟨pending.needed - 1, 0x80, 0xBF, point⟩) rest
      else
        replacement :: begin byte fun pending => decodeFrom pending rest

/-- Read bytes as a text. -/
def decode
    (bytes : List UInt8) : Text :=
  decodeFrom none bytes

theorem toNat_ofNat
    {value : ℕ}
    (small : value < 256) :
    (UInt8.ofNat value).toNat = value := by
  simp [UInt8.toNat_ofNat', Nat.mod_eq_of_lt small]

theorem ofNat_point
    (character : Char) :
    Char.ofNat character.val.toNat = character :=
  Char.ofNat_toNat character

theorem point_valid
    (character : Char) :
    character.val.toNat < 0xD800 ∨
      0xDFFF < character.val.toNat ∧ character.val.toNat < 0x110000 :=
  character.valid

section Bytes

variable {value : ℕ} {rest : List UInt8}

theorem decodeFrom_within
    {pending : Pending}
    (small : value < 256)
    (aboveLower : pending.lower ≤ value)
    (underUpper : value ≤ pending.upper) :
    decodeFrom (some pending) (UInt8.ofNat value :: rest) =
      if pending.needed ≤ 1 then
        Char.ofNat (pending.point * 64 + (value - 0x80)) ::
          decodeFrom none rest
      else
        decodeFrom
          (some ⟨pending.needed - 1, 0x80, 0xBF,
            pending.point * 64 + (value - 0x80)⟩) rest := by
  simp only [decodeFrom, toNat_ofNat small, aboveLower, underUpper,
    and_self, if_true]

theorem decodeFrom_sequence
    {pending : Pending}
    (small : value < 256)
    (starts : lead value = .sequence pending) :
    decodeFrom none (UInt8.ofNat value :: rest) =
      decodeFrom (some pending) rest := by
  simp only [decodeFrom, begin, toNat_ofNat small, starts]

end Bytes

variable {bits : ℕ}

theorem lead_two
    (atLeast : 2 ≤ bits)
    (small : bits < 32) :
    lead (bits + 0xC0) = .sequence ⟨1, 0x80, 0xBF, bits⟩ := by
  rw [lead, if_neg (by omega), if_neg (by omega), if_pos (by omega),
    Nat.add_sub_cancel]

theorem lead_three
    (small : bits < 16) :
    lead (bits + 0xE0) =
      .sequence ⟨2, if bits = 0 then 0xA0 else 0x80,
        if bits = 13 then 0x9F else 0xBF, bits⟩ := by
  rw [lead, if_neg (by omega), if_neg (by omega), if_neg (by omega),
    if_pos (by omega), Nat.add_sub_cancel]
  have first : (bits + 0xE0 = 0xE0) = (bits = 0) := by
    apply propext
    omega
  have surrogates : (bits + 0xE0 = 0xED) = (bits = 13) := by
    apply propext
    omega
  simp only [first, surrogates]

theorem lead_four
    (small : bits < 5) :
    lead (bits + 0xF0) =
      .sequence ⟨3, if bits = 0 then 0x90 else 0x80,
        if bits = 4 then 0x8F else 0xBF, bits⟩ := by
  rw [lead, if_neg (by omega), if_neg (by omega), if_neg (by omega),
    if_neg (by omega), if_pos (by omega), Nat.add_sub_cancel]
  have first : (bits + 0xF0 = 0xF0) = (bits = 0) := by
    apply propext
    omega
  have last : (bits + 0xF0 = 0xF4) = (bits = 4) := by
    apply propext
    omega
  simp only [first, last]

theorem decodeFrom_continue
    {pending : Pending}
    {rest : List UInt8}
    (small : bits < 64)
    (aboveLower : pending.lower ≤ bits + 0x80)
    (underUpper : bits + 0x80 ≤ pending.upper) :
    decodeFrom (some pending) (UInt8.ofNat (bits + 0x80) :: rest) =
      if pending.needed ≤ 1 then
        Char.ofNat (pending.point * 64 + bits) :: decodeFrom none rest
      else
        decodeFrom
          (some ⟨pending.needed - 1, 0x80, 0xBF, pending.point * 64 + bits⟩)
          rest := by
  rw [decodeFrom_within (by omega) aboveLower underUpper,
    Nat.add_sub_cancel]

/-- An encoded character reads as itself. -/
theorem decodeFrom_encodeChar
    (character : Char)
    (rest : List UInt8) :
    decodeFrom none (String.utf8EncodeChar character ++ rest) =
      character :: decodeFrom none rest := by
  have valid := point_valid character
  have same := ofNat_point character
  simp only [String.utf8EncodeChar]
  generalize character.val.toNat = point at valid same
  have lastBits : point % 0x40 < 64 := Nat.mod_lt _ (by omega)
  have middleBits : point / 64 % 0x40 < 64 := Nat.mod_lt _ (by omega)
  have upperBits : point / 4096 % 0x40 < 64 := Nat.mod_lt _ (by omega)
  split
  · next oneByte =>
      have starts : lead point = .character point := by
        rw [lead, if_pos (by omega)]
      simp only [List.singleton_append, decodeFrom, begin,
        toNat_ofNat (show point < 256 by omega), starts, same]
  · split
    · next notOne twoBytes =>
        have starts := @lead_two (point / 64 % 0x20) (by omega)
          (by omega)
        have value : point / 64 % 0x20 * 64 + point % 0x40 = point := by
          omega
        rw [List.cons_append, decodeFrom_sequence (by omega) starts,
          List.cons_append, decodeFrom_continue lastBits (by simp)
            (by simp; omega), value, same]
        rfl
    · split
      · next notOne notTwo threeBytes =>
          have starts := @lead_three (point / 4096 % 0x10) (by omega)
          have value :
              (point / 4096 % 0x10 * 64 + point / 64 % 0x40) * 64 +
                point % 0x40 = point := by
            omega
          rw [List.cons_append, decodeFrom_sequence (by omega) starts,
            List.cons_append, decodeFrom_continue middleBits
              (by simp only; split <;> omega) (by simp only; split <;> omega),
            List.cons_append]
          simp only [show ¬2 ≤ 1 by omega, if_false]
          rw [decodeFrom_continue lastBits (by simp) (by simp; omega), value,
            same]
          rfl
      · next notOne notTwo notThree =>
          have starts := @lead_four (point / 262144 % 0x08) (by omega)
          have value :
              ((point / 262144 % 0x08 * 64 + point / 4096 % 0x40) * 64 +
                point / 64 % 0x40) * 64 + point % 0x40 = point := by
            omega
          rw [List.cons_append, decodeFrom_sequence (by omega) starts,
            List.cons_append, decodeFrom_continue upperBits
              (by simp only; split <;> omega) (by simp only; split <;> omega),
            List.cons_append]
          simp only [show ¬3 ≤ 1 by omega, if_false]
          rw [decodeFrom_continue middleBits (by simp) (by simp; omega),
            List.cons_append]
          simp only [show ¬3 - 1 ≤ 1 by omega, if_false]
          rw [decodeFrom_continue lastBits (by simp) (by simp; omega), value,
            same]
          rfl

/-- What was encoded reads as it was. -/
@[simp] theorem decode_encode
    (text : Text) : decode (encode text) = text := by
  rw [decode, encode]
  induction text with
  | nil =>
      rfl
  | cons character rest inductionHypothesis =>
      rw [List.flatMap_cons, decodeFrom_encodeChar, inductionHypothesis]

end Frameleaf.Utf8
