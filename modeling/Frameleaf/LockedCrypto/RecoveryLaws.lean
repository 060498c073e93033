import Frameleaf.Lib.Radix
import Mathlib.Data.Char

namespace Frameleaf.LockedCrypto

open Radix

/-!
# The text of a recovery key

The bytes of a recovery key are written with five bits to a character, through
an accumulator of 32 bits, and read through one of 16.
-/

/-- The characters of a key, for the digits from zero on. -/
def ALPHABET : List Char :=
  "ABCDEFGHIJKLMNOPQRSTUVWXYZ234567".toList

/-- The characters that may stand before a key. -/
def PREFIX : List Char :=
  "FLRK".toList

/-- How many bytes a key has. -/
def RAW_LENGTH : ℕ := 20

/-- How many characters a key has. -/
def ENCODED_LENGTH : ℕ := RAW_LENGTH * 8 / 5

/-- `ALPHABET[digit]` -/
def letter
    (digit : Fin 32) : Char :=
  ALPHABET.get (digit.cast rfl)

/-- `(value >>> bits) & 31` -/
def encodedDigit
    (value : BitVec 32)
    (bits : ℕ) : Fin 32 where
  val := ((value >>> bits) &&& 31#32).toNat
  isLt := by
    rw [BitVec.toNat_and]
    exact Nat.and_lt_two_pow _ (by decide : 31 < 2 ^ 5)

/-- The inner loop of `encode`. -/
def drain
    (value : BitVec 32)
    (bits : ℕ)
    (out : List (Fin 32)) : ℕ × List (Fin 32) :=
  if 5 ≤ bits then
    drain value (bits - 5) (out ++ [encodedDigit value (bits - 5)])
  else
    (bits, out)
termination_by bits

/-- The variables of `encode`. -/
structure Encoder where
  bits : ℕ
  value : BitVec 32
  out : List (Fin 32)

/-- One byte of the outer loop of `encode`. -/
def Encoder.push
    (encoder : Encoder)
    (byte : UInt8) : Encoder :=
  let value := (encoder.value <<< 8) ||| BitVec.ofNat 32 byte.toNat
  let (bits, out) := drain value (encoder.bits + 8) encoder.out
  { bits, value, out }

/-- The digits that `encode` writes. -/
def encodeDigits
    (bytes : List UInt8) : List (Fin 32) :=
  (bytes.foldl Encoder.push { bits := 0, value := 0, out := [] }).out

/-- `encode` -/
def encode
    (bytes : List UInt8) : List Char :=
  (encodeDigits bytes).map letter

/-- `match(/.{4}/g)` -/
def groups : List Char → List (List Char)
  | first :: second :: third :: fourth :: rest =>
      [first, second, third, fourth] :: groups rest
  | _ =>
      []

/-- `generateRecoveryKey`, for the random bytes. -/
def recoveryKey
    (bytes : List UInt8) : List Char :=
  ['-'].intercalate (PREFIX :: groups (encode bytes))

/-! ## Reading -/

/-- `\s` in a regular expression. -/
def isBlank
    (character : Char) : Bool :=
  let point := character.toNat
  (9 ≤ point && point ≤ 13) || point == 0x20 || point == 0xA0 ||
    point == 0x1680 || (0x2000 ≤ point && point ≤ 0x200A) ||
    point == 0x2028 || point == 0x2029 || point == 0x202F ||
    point == 0x205F || point == 0x3000 || point == 0xFEFF

/-- How the platform writes characters in capitals: blanks stay, and in ASCII
only the letters change. -/
structure CapitalLetters where
  upper : Char → List Char
  ascii : ∀ character : Char, character.toNat < 128 →
    upper character = [character.toUpper]
  blank : ∀ character, isBlank character = true →
    upper character = [character]

/-- Capital letters of ASCII only. -/
instance : Inhabited CapitalLetters where
  default := {
    upper character := [character.toUpper]
    ascii _ _ := rfl
    blank character blank := by
      have noLetter :
          ¬ ('a'.val ≤ character.val ∧ character.val ≤ 'z'.val) := by
        rw [UInt32.le_iff_toNat_le, UInt32.le_iff_toNat_le]
        simp only [isBlank, Char.toNat, Bool.or_eq_true, Bool.and_eq_true,
          decide_eq_true_eq, beq_iff_eq] at blank
        have first : ('a'.val).toNat = 97 := rfl
        have last : ('z'.val).toNat = 122 := rfl
        omega
      exact congrArg ([·]) (dif_neg noLetter)
  }

/-- Why a text is no recovery key. -/
inductive RecoveryError where
  | length
  | alphabet
deriving DecidableEq

/-- `length` of a text, in units of 16 bits. -/
def textLength
    (text : List Char) : ℕ :=
  (text.map fun character => if character.toNat < 0x10000 then 1 else 2).sum

/-- `text.toUpperCase().replaceAll(/[\s-]/g, '')` -/
def compactText
    (capitals : CapitalLetters)
    (text : List Char) : List Char :=
  (text.flatMap capitals.upper).filter fun character =>
    !(isBlank character || character = '-')

/-- The characters of a key, without its prefix. -/
def keyCharacters
    (capitals : CapitalLetters)
    (text : List Char) : List Char :=
  let compact := compactText capitals text
  if textLength compact = PREFIX.length + ENCODED_LENGTH &&
      PREFIX.isPrefixOf compact then
    compact.drop PREFIX.length
  else
    compact

/-- `ALPHABET.indexOf(char)` -/
def indexOf
    (character : Char) : Option (Fin 32) :=
  (ALPHABET.finIdxOf? character).map (Fin.cast rfl)

/-- The variables of `parseRecoveryKey`. -/
structure Decoder where
  bits : ℕ
  value : BitVec 32
  out : List UInt8

/-- One digit of the loop of `parseRecoveryKey`. -/
def Decoder.push
    (decoder : Decoder)
    (digit : Fin 32) : Decoder :=
  let value := ((decoder.value <<< 5) ||| BitVec.ofNat 32 digit) &&& 0xffff#32
  let bits := decoder.bits + 5
  if 8 ≤ bits then
    { bits := bits - 8
      value
      out := decoder.out ++
        [UInt8.ofNat ((value >>> (bits - 8)) &&& 0xff#32).toNat] }
  else
    { decoder with bits, value }

/-- `parseRecoveryKey` -/
def parseRecoveryKey
    (capitals : CapitalLetters)
    (text : List Char) : Except RecoveryError (List UInt8) :=
  let compact := keyCharacters capitals text
  if textLength compact ≠ ENCODED_LENGTH then
    .error .length
  else
    match compact.mapM indexOf with
    | none =>
        .error .alphabet
    | some digits =>
        .ok (digits.foldl Decoder.push { bits := 0, value := 0, out := [] }).out

open Radix

/-!
## The bytes and the text of a recovery key agree

Both accumulators regroup bits: what they give out and what they keep denotes
what was put in.  So 20 bytes and their 32 characters denote the same number.
-/

variable {bits : ℕ}

theorem toNat_shift_or
    (value : BitVec 32)
    {width digit : ℕ}
    (isDigit : digit < 2 ^ width)
    (fits : bits + width ≤ 32) :
    ((value <<< width) ||| BitVec.ofNat 32 digit).toNat % 2 ^ (bits + width) =
      value.toNat % 2 ^ bits * 2 ^ width + digit := by
  have digitFits : digit < 2 ^ (bits + width) :=
    Nat.lt_of_lt_of_le isDigit
      (Nat.pow_le_pow_right (by decide) (Nat.le_add_left _ _))
  have wholeWord : 2 ^ (bits + width) ∣ 2 ^ 32 := Nat.pow_dvd_pow 2 fits
  have shifted : (value.toNat <<< width) % 2 ^ (bits + width) =
      (value.toNat % 2 ^ bits) <<< width := by
    rw [Nat.shiftLeft_eq, Nat.shiftLeft_eq, pow_add, Nat.mul_mod_mul_right]
  rw [BitVec.toNat_or, BitVec.toNat_shiftLeft, BitVec.toNat_ofNat,
    Nat.or_mod_two_pow, Nat.mod_mod_of_dvd _ wholeWord,
    Nat.mod_mod_of_dvd _ wholeWord, shifted, Nat.mod_eq_of_lt digitFits,
    ← Nat.shiftLeft_add_eq_or_of_lt isDigit, Nat.shiftLeft_eq]

theorem toNat_and_mask
    (value : BitVec 32)
    (fits : bits ≤ 32) :
    (value &&& BitVec.ofNat 32 (2 ^ bits - 1)).toNat =
      value.toNat % 2 ^ bits := by
  have isWord : 2 ^ bits - 1 < 2 ^ 32 := by
    have atMost := Nat.pow_le_pow_right (by decide : 0 < 2) fits
    have positive := Nat.two_pow_pos bits
    omega
  rw [BitVec.toNat_and, BitVec.toNat_ofNat, Nat.mod_eq_of_lt isWord,
    Nat.and_two_pow_sub_one_eq_mod]

theorem val_encodedDigit
    (value : BitVec 32)
    (bits : ℕ) :
    (encodedDigit value bits : ℕ) = value.toNat / 2 ^ bits % 2 ^ 5 := by
  have masked := toNat_and_mask (value >>> bits) (by decide : 5 ≤ 32)
  rw [BitVec.toNat_ushiftRight, Nat.shiftRight_eq_div_pow] at masked
  exact masked

/-! ## Writing -/

/-- The number that bytes denote. -/
def bytesValue
    (bytes : List UInt8) : ℕ :=
  value (2 ^ 8) (bytes.map UInt8.toNat)

/-- The number that digits of a key denote. -/
def digitsValue
    (digits : List (Fin 32)) : ℕ :=
  value (2 ^ 5) (digits.map Fin.val)

/-- The encoder has written all but a few bits of some bytes. -/
structure Encoder.Holds
    (encoder : Encoder)
    (bytes : List UInt8) : Prop where
  regroups : Regroups 5 (encoder.out.map Fin.val) encoder.value.toNat
    encoder.bits (bytesValue bytes)
  few : encoder.bits < 5
  length : encoder.out.length * 5 + encoder.bits = bytes.length * 8

theorem drain_regroups
    {left : BitVec 32}
    {number : ℕ}
    {out : List (Fin 32)}
    (regroups : Regroups 5 (out.map Fin.val) left.toNat bits number) :
    Regroups 5 ((drain left bits out).2.map Fin.val) left.toNat
        (drain left bits out).1 number ∧
      (drain left bits out).1 < 5 ∧
      (drain left bits out).2.length * 5 + (drain left bits out).1 =
        out.length * 5 + bits := by
  fun_induction drain left bits out with
  | case1 bits out enough inductionHypothesis =>
      have taken := regroups.take enough
      rw [← val_encodedDigit, ← List.map_singleton, ← List.map_append] at taken
      obtain ⟨later, few, length⟩ := inductionHypothesis taken
      refine ⟨later, few, ?_⟩
      rw [length, List.length_append, List.length_singleton]
      omega
  | case2 bits out few =>
      exact ⟨regroups, by omega, rfl⟩

variable {bytes : List UInt8}

theorem Encoder.Holds.push
    {encoder : Encoder}
    (holds : encoder.Holds bytes)
    (byte : UInt8) :
    (encoder.push byte).Holds (bytes ++ [byte]) := by
  have few := holds.few
  have fits : encoder.bits + 8 ≤ 32 := by omega
  have pushed := holds.regroups.push
    (toNat_shift_or encoder.value byte.toNat_lt fits)
  obtain ⟨regroups, isFew, length⟩ := drain_regroups pushed
  refine ⟨?_, isFew, ?_⟩
  · unfold bytesValue
    rw [List.map_append, List.map_singleton, value_concat]
    exact regroups
  · have before := holds.length
    rw [List.length_append, List.length_singleton]
    unfold Encoder.push
    dsimp only
    omega

theorem Encoder.holds_foldl
    (bytes : List UInt8) :
    (bytes.foldl Encoder.push { bits := 0, value := 0, out := [] }).Holds
      bytes := by
  induction bytes using List.reverseRecOn with
  | nil =>
      exact ⟨Regroups.start 5, by decide, rfl⟩
  | append_singleton bytes byte inductionHypothesis =>
      rw [List.foldl_append]
      exact inductionHypothesis.push byte

theorem length_encodeDigits
    (length : bytes.length = RAW_LENGTH) :
    (encodeDigits bytes).length = ENCODED_LENGTH := by
  have holds := Encoder.holds_foldl bytes
  have written := holds.length
  have few := holds.few
  unfold RAW_LENGTH at length
  unfold ENCODED_LENGTH RAW_LENGTH encodeDigits
  omega

theorem digitsValue_encodeDigits
    (length : bytes.length = RAW_LENGTH) :
    digitsValue (encodeDigits bytes) = bytesValue bytes := by
  have holds := Encoder.holds_foldl bytes
  have written := holds.length
  have few := holds.few
  unfold RAW_LENGTH at length
  have regroups := holds.regroups
  rw [show (bytes.foldl Encoder.push ⟨0, 0, []⟩).bits = 0 by omega] at regroups
  exact regroups.finish

/-! ## Reading -/

/-- What `parseRecoveryKey` reads from digits. -/
def decodeDigits
    (digits : List (Fin 32)) : List UInt8 :=
  (digits.foldl Decoder.push { bits := 0, value := 0, out := [] }).out

/-- The decoder has read all but a few bits of some digits. -/
structure Decoder.Holds
    (decoder : Decoder)
    (digits : List (Fin 32)) : Prop where
  regroups : Regroups 8 (decoder.out.map UInt8.toNat) decoder.value.toNat
    decoder.bits (digitsValue digits)
  few : decoder.bits < 8
  length : decoder.out.length * 8 + decoder.bits = digits.length * 5

theorem toNat_byte
    (value : BitVec 32)
    (bits : ℕ) :
    (UInt8.ofNat ((value >>> bits) &&& 0xff#32).toNat).toNat =
      value.toNat / 2 ^ bits % 2 ^ 8 := by
  have masked := toNat_and_mask (value >>> bits) (by decide : 8 ≤ 32)
  rw [BitVec.toNat_ushiftRight, Nat.shiftRight_eq_div_pow] at masked
  rw [UInt8.toNat_ofNat', show (0xff#32) = BitVec.ofNat 32 (2 ^ 8 - 1) from rfl,
    masked, Nat.mod_mod]

theorem toNat_masked
    (value : BitVec 32)
    (digit : Fin 32)
    (few : bits < 8) :
    (((value <<< 5) ||| BitVec.ofNat 32 digit) &&& 0xffff#32).toNat %
        2 ^ (bits + 5) =
      value.toNat % 2 ^ bits * 2 ^ 5 + digit := by
  have kept : 2 ^ (bits + 5) ∣ 2 ^ 16 := Nat.pow_dvd_pow 2 (by omega)
  have fits : bits + 5 ≤ 32 := by omega
  have masked := toNat_and_mask ((value <<< 5) ||| BitVec.ofNat 32 digit)
    (by decide : 16 ≤ 32)
  rw [show (0xffff#32) = BitVec.ofNat 32 (2 ^ 16 - 1) from rfl, masked,
    Nat.mod_mod_of_dvd _ kept]
  exact toNat_shift_or value digit.isLt fits

variable {digits : List (Fin 32)}

theorem Decoder.Holds.push
    {decoder : Decoder}
    (holds : decoder.Holds digits)
    (digit : Fin 32) :
    (decoder.push digit).Holds (digits ++ [digit]) := by
  have few := holds.few
  have before := holds.length
  have pushed := holds.regroups.push (toNat_masked decoder.value digit few)
  have number : digitsValue (digits ++ [digit]) =
      digitsValue digits * 2 ^ 5 + digit := by
    unfold digitsValue
    rw [List.map_append, List.map_singleton, value_concat]
  unfold Decoder.push
  dsimp only
  split
  case isTrue enough =>
    have taken := pushed.take enough
    rw [← toNat_byte, ← List.map_singleton, ← List.map_append] at taken
    refine ⟨?_, ?_, ?_⟩
    · rw [number]
      exact taken
    · dsimp only
      omega
    · dsimp only
      rw [List.length_append, List.length_append, List.length_singleton,
        List.length_singleton]
      omega
  case isFalse notEnough =>
    refine ⟨?_, ?_, ?_⟩
    · rw [number]
      exact pushed
    · dsimp only
      omega
    · dsimp only
      rw [List.length_append, List.length_singleton]
      omega

theorem Decoder.holds_foldl
    (digits : List (Fin 32)) :
    (digits.foldl Decoder.push { bits := 0, value := 0, out := [] }).Holds
      digits := by
  induction digits using List.reverseRecOn with
  | nil =>
      exact ⟨Regroups.start 8, by decide, rfl⟩
  | append_singleton digits digit inductionHypothesis =>
      rw [List.foldl_append]
      exact inductionHypothesis.push digit

theorem length_decodeDigits
    (length : digits.length = ENCODED_LENGTH) :
    (decodeDigits digits).length = RAW_LENGTH := by
  have holds := Decoder.holds_foldl digits
  have read := holds.length
  have few := holds.few
  unfold ENCODED_LENGTH RAW_LENGTH at length
  unfold RAW_LENGTH decodeDigits
  omega

theorem bytesValue_decodeDigits
    (length : digits.length = ENCODED_LENGTH) :
    bytesValue (decodeDigits digits) = digitsValue digits := by
  have holds := Decoder.holds_foldl digits
  have read := holds.length
  have few := holds.few
  unfold ENCODED_LENGTH RAW_LENGTH at length
  have regroups := holds.regroups
  rw [show (digits.foldl Decoder.push ⟨0, 0, []⟩).bits = 0 by omega]
    at regroups
  exact regroups.finish

/-! ## Both ways -/

theorem bytesValue_injective
    {first second : List UInt8}
    (sameLength : first.length = second.length)
    (same : bytesValue first = bytesValue second) :
    first = second := by
  have areBytes : ∀ bytes : List UInt8,
      ∀ digit ∈ bytes.map UInt8.toNat, digit < 2 ^ 8 := by
    intro bytes digit member
    obtain ⟨byte, -, rfl⟩ := List.mem_map.mp member
    exact byte.toNat_lt
  have mapped := value_injective (by decide) (by simpa using sameLength)
    (areBytes first) (areBytes second) same
  exact (List.map_inj_right fun _ _ => UInt8.toNat_inj.mp).mp mapped

theorem digitsValue_injective
    {first second : List (Fin 32)}
    (sameLength : first.length = second.length)
    (same : digitsValue first = digitsValue second) :
    first = second := by
  have areDigits : ∀ digits : List (Fin 32),
      ∀ digit ∈ digits.map Fin.val, digit < 2 ^ 5 := by
    intro digits digit member
    obtain ⟨digit, -, rfl⟩ := List.mem_map.mp member
    exact digit.isLt
  have mapped := value_injective (by decide) (by simpa using sameLength)
    (areDigits first) (areDigits second) same
  exact (List.map_inj_right fun _ _ => Fin.ext).mp mapped

theorem decodeDigits_encodeDigits
    (length : bytes.length = RAW_LENGTH) :
    decodeDigits (encodeDigits bytes) = bytes := by
  have written := length_encodeDigits length
  apply bytesValue_injective
  · rw [length_decodeDigits written, length]
  · rw [bytesValue_decodeDigits written, digitsValue_encodeDigits length]

theorem encodeDigits_decodeDigits
    (length : digits.length = ENCODED_LENGTH) :
    encodeDigits (decodeDigits digits) = digits := by
  have read := length_decodeDigits length
  apply digitsValue_injective
  · rw [length_encodeDigits read, length]
  · rw [digitsValue_encodeDigits read, bytesValue_decodeDigits length]

end Frameleaf.LockedCrypto
