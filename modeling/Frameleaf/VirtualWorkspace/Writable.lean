import Mathlib.Data.List.Basic
import Mathlib.Data.List.TakeDrop

namespace Frameleaf.VirtualWorkspace

/-!
# Writing to a file

A writable keeps the bytes that it will put into its file, and a position.  Next
to it stands what the File System Access standard says of a stream; the two
differ in one place, the method that truncates.
-/

/-- The bytes and the position of a writable. -/
structure Buffer where
  bytes : List UInt8
  position : ℕ
deriving DecidableEq

/-- The first bytes, with zeros after them up to some size. -/
def grow
    (bytes : List UInt8)
    (size : ℕ) : List UInt8 :=
  bytes ++ List.replicate (size - bytes.length) 0

/-- `bytes.set(chunk, at)`, where the chunk is in range. -/
def setBytes
    (bytes chunk : List UInt8)
    (position : ℕ) : List UInt8 :=
  bytes.take position ++ chunk ++ bytes.drop (position + chunk.length)

/-- `writeAt` -/
def Buffer.writeAt
    (buffer : Buffer)
    (chunk : List UInt8)
    (position : ℕ) : Buffer :=
  let past := position + chunk.length
  let bytes :=
    if past > buffer.bytes.length then grow buffer.bytes past
    else buffer.bytes
  { bytes := setBytes bytes chunk position, position := past }

/-- `seek` -/
def Buffer.seek
    (buffer : Buffer)
    (position : ℕ) : Buffer :=
  { buffer with position }

/-- `write({ type: 'truncate', size })` -/
def Buffer.writeTruncate
    (buffer : Buffer)
    (size : ℕ) : Buffer :=
  let kept := buffer.bytes.take size
  let bytes := if kept.length < size then grow kept size else kept
  { bytes, position := min buffer.position size }

/-- `truncate(size)` -/
def Buffer.truncate
    (buffer : Buffer)
    (size : ℕ) : Buffer :=
  { buffer with bytes := buffer.bytes.take size }

/-! ## What the standard says -/

/-- `[[buffer]]` and `[[seekOffset]]` of a stream. -/
structure Stream where
  buffer : List UInt8
  seekOffset : ℕ
deriving DecidableEq

/-- Write data at a position, or where the stream is. -/
def Stream.write
    (stream : Stream)
    (data : List UInt8)
    (position : Option ℕ) : Stream :=
  let writePosition := position.getD stream.seekOffset
  let oldSize := stream.buffer.length
  let padded :=
    if writePosition > oldSize then
      stream.buffer ++ List.replicate (writePosition - oldSize) 0
    else
      stream.buffer
  let head := padded.take writePosition
  let tail := padded.drop (writePosition + data.length)
  { buffer := head ++ data ++ tail
    seekOffset := writePosition + data.length }

/-- Move to a position. -/
def Stream.seek
    (stream : Stream)
    (position : ℕ) : Stream :=
  { stream with seekOffset := position }

/-- Cut the data, or pad it with zeros; the position is not left past it. -/
def Stream.truncate
    (stream : Stream)
    (newSize : ℕ) : Stream :=
  let oldSize := stream.buffer.length
  let buffer :=
    if newSize > oldSize then
      stream.buffer ++ List.replicate (newSize - oldSize) 0
    else if newSize < oldSize then
      stream.buffer.take newSize
    else
      stream.buffer
  { buffer
    seekOffset :=
      if stream.seekOffset > newSize then newSize else stream.seekOffset }

/-- The stream that a buffer stands for. -/
def Buffer.stream
    (buffer : Buffer) : Stream where
  buffer := buffer.bytes
  seekOffset := buffer.position

theorem take_grow
    (bytes : List UInt8)
    {position size : ℕ}
    (inside : position ≤ size) :
    (grow bytes size).take position =
      (bytes ++ List.replicate (position - bytes.length) 0).take position := by
  unfold grow
  rw [List.take_append, List.take_append, List.take_replicate,
    List.take_replicate]
  congr 2
  omega

theorem Buffer.bytes_writeAt
    (buffer : Buffer)
    (chunk : List UInt8)
    (position : ℕ) :
    (buffer.writeAt chunk position).bytes =
      (buffer.bytes ++
          List.replicate (position - buffer.bytes.length) 0).take position ++
        chunk ++ buffer.bytes.drop (position + chunk.length) := by
  unfold Buffer.writeAt setBytes
  dsimp only
  split
  · rename_i isLonger
    have behind : (grow buffer.bytes (position + chunk.length)).drop
        (position + chunk.length) = [] := by
      apply List.drop_eq_nil_of_le
      unfold grow
      rw [List.length_append, List.length_replicate]
      omega
    have nothing : buffer.bytes.drop (position + chunk.length) = [] :=
      List.drop_eq_nil_of_le (Nat.le_of_lt isLonger)
    rw [take_grow _ (Nat.le_add_right _ _), behind, nothing]
  · rename_i isShorter
    have noZeros : position - buffer.bytes.length = 0 := by omega
    rw [noZeros, List.replicate_zero, List.append_nil]

theorem Buffer.stream_writeAt
    (buffer : Buffer)
    (chunk : List UInt8)
    (position : Option ℕ) :
    (buffer.writeAt chunk (position.getD buffer.position)).stream =
      buffer.stream.write chunk position := by
  unfold Stream.write Buffer.stream
  dsimp only
  generalize position.getD buffer.position = start
  rw [Buffer.bytes_writeAt]
  congr 1
  split
  · rename_i isPast
    have nothing : buffer.bytes.drop (start + chunk.length) = [] :=
      List.drop_eq_nil_of_le (by omega)
    have behind : (buffer.bytes ++
        List.replicate (start - buffer.bytes.length) 0).drop
          (start + chunk.length) = [] := by
      apply List.drop_eq_nil_of_le
      rw [List.length_append, List.length_replicate]
      omega
    rw [nothing, behind]
  · rename_i isInside
    have noZeros : start - buffer.bytes.length = 0 := by omega
    rw [noZeros, List.replicate_zero, List.append_nil]

theorem offset_truncate
    (position size : ℕ) :
    (if position > size then size else position) = min position size := by
  split
  · rename_i isPast
    exact (Nat.min_eq_right (Nat.le_of_lt isPast)).symm
  · rename_i isInside
    exact (Nat.min_eq_left (Nat.le_of_not_lt isInside)).symm

theorem Buffer.stream_writeTruncate
    (buffer : Buffer)
    (size : ℕ) :
    (buffer.writeTruncate size).stream = buffer.stream.truncate size := by
  unfold Buffer.writeTruncate Stream.truncate Buffer.stream grow
  dsimp only
  rw [offset_truncate]
  congr 1
  rcases Nat.lt_trichotomy size buffer.bytes.length with isLess | same | isMore
  · rw [if_neg (by rw [List.length_take]; omega), if_neg (by omega),
      if_pos isLess]
  · rw [if_neg (by rw [List.length_take]; omega), if_neg (by omega),
      if_neg (by omega), List.take_of_length_le (by omega)]
  · rw [List.take_of_length_le (Nat.le_of_lt isMore), if_pos isMore,
      if_pos isMore]

theorem Buffer.stream_truncate_iff
    (buffer : Buffer)
    (size : ℕ) :
    (buffer.truncate size).stream = buffer.stream.truncate size ↔
      buffer.position ≤ size ∧ size ≤ buffer.bytes.length := by
  rw [← Buffer.stream_writeTruncate]
  unfold Buffer.truncate Buffer.writeTruncate Buffer.stream grow
  dsimp only
  rw [Stream.mk.injEq]
  constructor
  · rintro ⟨sameBytes, samePosition⟩
    refine ⟨by omega, ?_⟩
    by_contra isLonger
    have sameLength := congrArg List.length sameBytes
    rw [List.take_of_length_le (by omega), if_pos (by omega),
      List.length_append, List.length_replicate] at sameLength
    omega
  · rintro ⟨isInside, isShorter⟩
    rw [if_neg (by rw [List.length_take]; omega)]
    exact ⟨rfl, (Nat.min_eq_left isInside).symm⟩

end Frameleaf.VirtualWorkspace
