import Frameleaf.Lib.ByteBuffer
import Frameleaf.Lib.Utf8

namespace Frameleaf.Zip

open ByteBuffer Utf8

/-!
# What the archive readers share

The signatures and sizes of the records of a ZIP archive, the fixed part of a
central directory entry and the search for its ZIP64 field.
-/

universe u

variable {Refusal : Type u}

/-- A text of the source language as its UTF-16 units. -/
abbrev Units := List ℕ

/-- The UTF-16 units of a character. -/
def unitsOf
    (character : Char) : Units :=
  let point := character.toNat
  if point < 0x10000 then
    [point]
  else
    [0xD800 + (point - 0x10000) / 0x400, 0xDC00 + (point - 0x10000) % 0x400]

/-- The UTF-16 units of a text. -/
def units
    (text : Text) : Units :=
  text.flatMap unitsOf

/-- The UTF-16 units of a literal. -/
def literal
    (text : String) : Units :=
  units text.toList

/-- The front of a name that a message quotes. -/
def excerpt
    (name : Text) : Units :=
  (units name).take 80

def EOCD_SIGNATURE : ℕ := 0x06054b50
def EOCD_MIN : ℕ := 22
def ZIP64_LOCATOR_SIGNATURE : ℕ := 0x07064b50
def ZIP64_LOCATOR_SIZE : ℕ := 20
def ZIP64_EOCD_SIGNATURE : ℕ := 0x06064b50
def ZIP64_EOCD_MIN : ℕ := 56
def CENTRAL_SIGNATURE : ℕ := 0x02014b50
def CENTRAL_MIN : ℕ := 46
def LOCAL_SIGNATURE : ℕ := 0x04034b50
def LOCAL_MIN : ℕ := 30
def MARKER_16 : ℕ := 0xffff
def MARKER_32 : ℕ := 0xffffffff
def ZIP64_EXTRA : ℕ := 0x0001
def FLAG_ENCRYPTED : ℕ := 0x1
def FLAG_STRONG_ENCRYPTION : ℕ := 0x40
def METHOD_STORE : ℕ := 0
def METHOD_DEFLATE : ℕ := 8
def MAX_SAFE_INTEGER : ℕ := 9007199254740991

/-- How the bytes of an entry are kept. -/
inductive ZipCompression where
  | store
  | deflate
deriving DecidableEq, Repr

/-- The bytes of an archive, read at a position. -/
structure ZipByteSource where
  size : ℕ
  read : ℕ → ℕ → Option Bytes

/-- The source that holds a byte string. -/
def sourceOf
    (bytes : Bytes) : ZipByteSource where
  size := bytes.length
  read := fun position length =>
    some (subarray bytes position (position + length))

/-- Read bytes from the source. -/
def ZipByteSource.readAt
    (source : ZipByteSource)
    (position length : ℕ) : Except (Failure Refusal) Bytes :=
  match source.read position length with
  | some bytes =>
      .ok bytes
  | none =>
      .error .unreadable

/-- The fields of the fixed part of a central directory entry. -/
structure CentralHeader where
  madeBy : ℕ
  flags : ℕ
  method : ℕ
  time : ℕ
  date : ℕ
  crc32 : ℕ
  compressedSize : ℕ
  uncompressedSize : ℕ
  nameLength : ℕ
  extraLength : ℕ
  commentLength : ℕ
  diskStart : ℕ
  externalAttributes : ℕ
  localHeaderOffset : ℕ
deriving DecidableEq, Repr

/-- Read the fixed part of the central directory entry at a cursor. -/
def readCentralHeader
    (directory : Bytes)
    (cursor : ℕ) : Except (Failure Refusal) CentralHeader := do
  let madeBy ← readUInt16LE directory (cursor + 4)
  let flags ← readUInt16LE directory (cursor + 8)
  let method ← readUInt16LE directory (cursor + 10)
  let time ← readUInt16LE directory (cursor + 12)
  let date ← readUInt16LE directory (cursor + 14)
  let crc32 ← readUInt32LE directory (cursor + 16)
  let compressedSize ← readUInt32LE directory (cursor + 20)
  let uncompressedSize ← readUInt32LE directory (cursor + 24)
  let nameLength ← readUInt16LE directory (cursor + 28)
  let extraLength ← readUInt16LE directory (cursor + 30)
  let commentLength ← readUInt16LE directory (cursor + 32)
  let diskStart ← readUInt16LE directory (cursor + 34)
  let externalAttributes ← readUInt32LE directory (cursor + 38)
  let localHeaderOffset ← readUInt32LE directory (cursor + 42)
  return {
    madeBy, flags, method, time, date, crc32, compressedSize,
    uncompressedSize, nameLength, extraLength, commentLength, diskStart,
    externalAttributes, localHeaderOffset }

/-- The part of a central directory entry at a cursor has its signature. -/
def isCentralEntry
    (directory : Bytes)
    (cursor : ℕ) : Except (Failure Refusal) Bool :=
  if cursor + CENTRAL_MIN ≤ directory.length then do
    let signature ← readUInt32LE directory cursor
    return signature == CENTRAL_SIGNATURE
  else
    .ok false

/--
Search the extra fields for the ZIP64 one.

Every field takes at least four bytes, so there are fewer steps than bytes.
-/
def findZip64From
    (extra : Bytes) : ℕ → ℕ → Except (Failure Refusal) (Option (ℕ × ℕ))
  | 0, _ =>
      .ok none
  | steps + 1, cursor =>
      if cursor + 4 ≤ extra.length then do
        let id ← readUInt16LE extra cursor
        let size ← readUInt16LE extra (cursor + 2)
        let start := cursor + 4
        if extra.length < start + size then
          .ok none
        else if id = ZIP64_EXTRA then
          .ok (some (start, start + size))
        else
          findZip64From extra steps (start + size)
      else
        .ok none

/-- The decimal digits of a number in a message. -/
def decimal
    (value : ℕ) : Units :=
  units (Nat.toDigits 10 value)

/-- Where the ZIP64 field starts and ends, when there is one. -/
def findZip64
    (extra : Bytes) : Except (Failure Refusal) (Option (ℕ × ℕ)) :=
  findZip64From extra extra.length 0

variable {bytes directory : Bytes} {offset cursor : ℕ}

theorem inBounds_readUInt16LE
    (within : offset + 2 ≤ bytes.length) :
    InBounds (readUInt16LE bytes offset : Except (Failure Refusal) ℕ) :=
  .readUIntLE within

theorem inBounds_readUInt32LE
    (within : offset + 4 ≤ bytes.length) :
    InBounds (readUInt32LE bytes offset : Except (Failure Refusal) ℕ) :=
  .readUIntLE within

theorem inBounds_readBigUInt64LE
    (within : offset + 8 ≤ bytes.length) :
    InBounds (readBigUInt64LE bytes offset : Except (Failure Refusal) ℕ) :=
  .readUIntLE within

theorem inBounds_readAt
    (source : ZipByteSource)
    (position length : ℕ) :
    InBounds (source.readAt position length :
      Except (Failure Refusal) Bytes) := by
  rw [ZipByteSource.readAt]
  split
  · exact .ok _
  · simp [InBounds]

theorem inBounds_readCentralHeader
    (within : cursor + CENTRAL_MIN ≤ directory.length) :
    InBounds (readCentralHeader directory cursor :
      Except (Failure Refusal) CentralHeader) := by
  rw [CENTRAL_MIN] at within
  rw [readCentralHeader]
  iterate 5
    apply InBounds.bind (inBounds_readUInt16LE (by omega))
    intro _ _
  iterate 3
    apply InBounds.bind (inBounds_readUInt32LE (by omega))
    intro _ _
  iterate 4
    apply InBounds.bind (inBounds_readUInt16LE (by omega))
    intro _ _
  iterate 2
    apply InBounds.bind (inBounds_readUInt32LE (by omega))
    intro _ _
  exact .ok _

theorem inBounds_isCentralEntry
    (directory : Bytes)
    (cursor : ℕ) :
    InBounds (isCentralEntry directory cursor :
      Except (Failure Refusal) Bool) := by
  rw [isCentralEntry]
  split
  · rename_i within
    rw [CENTRAL_MIN] at within
    apply InBounds.bind (inBounds_readUInt32LE (by omega))
    intro signature _
    exact .ok _
  · exact .ok _

theorem within_of_isCentralEntry
    (isEntry : (isCentralEntry directory cursor :
      Except (Failure Refusal) Bool) = .ok true) :
    cursor + CENTRAL_MIN ≤ directory.length := by
  rw [isCentralEntry] at isEntry
  split at isEntry
  · assumption
  · simp at isEntry

theorem inBounds_findZip64From
    (extra : Bytes)
    (steps cursor : ℕ) :
    InBounds (findZip64From extra steps cursor :
      Except (Failure Refusal) (Option (ℕ × ℕ))) := by
  induction steps generalizing cursor with
  | zero =>
      exact .ok _
  | succ steps inductionHypothesis =>
      rw [findZip64From]
      split
      · apply InBounds.bind (inBounds_readUInt16LE (by omega))
        intro id _
        apply InBounds.bind (inBounds_readUInt16LE (by omega))
        intro size _
        dsimp only
        split
        · exact .ok _
        · split
          · exact .ok _
          · exact inductionHypothesis _
      · exact .ok _

theorem within_of_findZip64From
    {extra : Bytes}
    {steps start stop : ℕ}
    (isFound : (findZip64From extra steps cursor :
      Except (Failure Refusal) (Option (ℕ × ℕ))) = .ok (some (start, stop))) :
    stop ≤ extra.length := by
  induction steps generalizing cursor with
  | zero =>
      simp [findZip64From] at isFound
  | succ steps inductionHypothesis =>
      rw [findZip64From] at isFound
      split at isFound
      · obtain ⟨id, -, isFound⟩ := Outcome.bind_eq_ok.mp isFound
        obtain ⟨size, -, isFound⟩ := Outcome.bind_eq_ok.mp isFound
        dsimp only at isFound
        split at isFound
        · simp at isFound
        · split at isFound
          · simp only [Except.ok.injEq, Option.some.injEq,
              Prod.mk.injEq] at isFound
            omega
          · exact inductionHypothesis isFound
      · simp at isFound

end Frameleaf.Zip
