import Frameleaf.Lib.ByteBuffer

namespace Frameleaf.JpegRepair

open ByteBuffer

/-!
# Rebuilding the header of a picture

A walk over the segments of a file, from its start to its first scan.  What the
walk cannot read is left out, and it resumes at the next real marker.  A
position in the file is the rest of its bytes from there.
-/

/-- The start of an image. -/
def SOI : Bytes :=
  [0xff, 0xd8]

/-- The end of an image. -/
def EOI : Bytes :=
  [0xff, 0xd9]

/-- A Huffman table with its class, its counts and its values. -/
def table
    (classAndId : UInt8)
    (bits values : Bytes) : Bytes :=
  classAndId :: (bits ++ values)

/-- The first bytes in order. -/
def range (length : ℕ) : Bytes :=
  (List.range length).map UInt8.ofNat

/-- The standard tables for luminance (0) and chrominance (1). -/
def STANDARD_HUFFMAN_TABLES : List Bytes :=
  [table 0x00 [0, 1, 5, 1, 1, 1, 1, 1, 1, 0, 0, 0, 0, 0, 0, 0] (range 12),
    table 0x10 [0, 2, 1, 3, 3, 2, 4, 3, 5, 5, 4, 4, 0, 0, 1, 0x7d]
      [0x01, 0x02, 0x03, 0x00, 0x04, 0x11, 0x05, 0x12,
        0x21, 0x31, 0x41, 0x06, 0x13, 0x51, 0x61, 0x07,
        0x22, 0x71, 0x14, 0x32, 0x81, 0x91, 0xa1, 0x08,
        0x23, 0x42, 0xb1, 0xc1, 0x15, 0x52, 0xd1, 0xf0,
        0x24, 0x33, 0x62, 0x72, 0x82, 0x09, 0x0a, 0x16,
        0x17, 0x18, 0x19, 0x1a, 0x25, 0x26, 0x27, 0x28,
        0x29, 0x2a, 0x34, 0x35, 0x36, 0x37, 0x38, 0x39,
        0x3a, 0x43, 0x44, 0x45, 0x46, 0x47, 0x48, 0x49,
        0x4a, 0x53, 0x54, 0x55, 0x56, 0x57, 0x58, 0x59,
        0x5a, 0x63, 0x64, 0x65, 0x66, 0x67, 0x68, 0x69,
        0x6a, 0x73, 0x74, 0x75, 0x76, 0x77, 0x78, 0x79,
        0x7a, 0x83, 0x84, 0x85, 0x86, 0x87, 0x88, 0x89,
        0x8a, 0x92, 0x93, 0x94, 0x95, 0x96, 0x97, 0x98,
        0x99, 0x9a, 0xa2, 0xa3, 0xa4, 0xa5, 0xa6, 0xa7,
        0xa8, 0xa9, 0xaa, 0xb2, 0xb3, 0xb4, 0xb5, 0xb6,
        0xb7, 0xb8, 0xb9, 0xba, 0xc2, 0xc3, 0xc4, 0xc5,
        0xc6, 0xc7, 0xc8, 0xc9, 0xca, 0xd2, 0xd3, 0xd4,
        0xd5, 0xd6, 0xd7, 0xd8, 0xd9, 0xda, 0xe1, 0xe2,
        0xe3, 0xe4, 0xe5, 0xe6, 0xe7, 0xe8, 0xe9, 0xea,
        0xf1, 0xf2, 0xf3, 0xf4, 0xf5, 0xf6, 0xf7, 0xf8,
        0xf9, 0xfa],
    table 0x01 [0, 3, 1, 1, 1, 1, 1, 1, 1, 1, 1, 0, 0, 0, 0, 0] (range 12),
    table 0x11 [0, 2, 1, 2, 4, 4, 3, 4, 7, 5, 4, 4, 0, 1, 2, 0x77]
      [0x00, 0x01, 0x02, 0x03, 0x11, 0x04, 0x05, 0x21,
        0x31, 0x06, 0x12, 0x41, 0x51, 0x07, 0x61, 0x71,
        0x13, 0x22, 0x32, 0x81, 0x08, 0x14, 0x42, 0x91,
        0xa1, 0xb1, 0xc1, 0x09, 0x23, 0x33, 0x52, 0xf0,
        0x15, 0x62, 0x72, 0xd1, 0x0a, 0x16, 0x24, 0x34,
        0xe1, 0x25, 0xf1, 0x17, 0x18, 0x19, 0x1a, 0x26,
        0x27, 0x28, 0x29, 0x2a, 0x35, 0x36, 0x37, 0x38,
        0x39, 0x3a, 0x43, 0x44, 0x45, 0x46, 0x47, 0x48,
        0x49, 0x4a, 0x53, 0x54, 0x55, 0x56, 0x57, 0x58,
        0x59, 0x5a, 0x63, 0x64, 0x65, 0x66, 0x67, 0x68,
        0x69, 0x6a, 0x73, 0x74, 0x75, 0x76, 0x77, 0x78,
        0x79, 0x7a, 0x82, 0x83, 0x84, 0x85, 0x86, 0x87,
        0x88, 0x89, 0x8a, 0x92, 0x93, 0x94, 0x95, 0x96,
        0x97, 0x98, 0x99, 0x9a, 0xa2, 0xa3, 0xa4, 0xa5,
        0xa6, 0xa7, 0xa8, 0xa9, 0xaa, 0xb2, 0xb3, 0xb4,
        0xb5, 0xb6, 0xb7, 0xb8, 0xb9, 0xba, 0xc2, 0xc3,
        0xc4, 0xc5, 0xc6, 0xc7, 0xc8, 0xc9, 0xca, 0xd2,
        0xd3, 0xd4, 0xd5, 0xd6, 0xd7, 0xd8, 0xd9, 0xda,
        0xe2, 0xe3, 0xe4, 0xe5, 0xe6, 0xe7, 0xe8, 0xe9,
        0xea, 0xf2, 0xf3, 0xf4, 0xf5, 0xf6, 0xf7, 0xf8,
        0xf9, 0xfa]]

/-- The content of the segment with the standard tables. -/
def DHT_BODY : Bytes :=
  STANDARD_HUFFMAN_TABLES.flatten

/-- The segment with the standard tables. -/
def STANDARD_DHT : Bytes :=
  0xff :: 0xc4 :: UInt8.ofNat ((DHT_BODY.length + 2) / 256) ::
    UInt8.ofNat ((DHT_BODY.length + 2) % 256) :: DHT_BODY

/-- Markers of an application's own segments. -/
def isApp (marker : UInt8) : Bool :=
  0xe0 ≤ marker && marker ≤ 0xef

/-- Markers of frames. -/
def isFrame (marker : UInt8) : Bool :=
  0xc0 ≤ marker && marker ≤ 0xcf && !([0xc4, 0xc8, 0xcc].contains marker)

/-- Markers of frames that are coded with Huffman tables. -/
def isHuffmanFrame (marker : UInt8) : Bool :=
  isFrame marker && marker < 0xc8

/-- Markers that a lost walk may resume at. -/
def isResyncMarker (marker : UInt8) : Bool :=
  isFrame marker || [0xc4, 0xcc, 0xdb, 0xdd, 0xda, 0xfe].contains marker ||
    isApp marker

/-- Segments that are needed to show the picture right. -/
def isPictureApp (marker : UInt8) : Bool :=
  [0xe0, 0xe2, 0xee].contains marker

/-- The rest from the next marker that a lost walk may resume at. -/
def nextMarker : Bytes → Option Bytes
  | first :: marker :: rest =>
      if first = 0xff ∧ isResyncMarker marker then
        some (first :: marker :: rest)
      else
        nextMarker (marker :: rest)
  | _ =>
      none

/-- Two bytes of a file as a number. -/
def readUInt16BE
    (bytes : Bytes)
    (offset : ℕ) : ℕ :=
  bigEndian ((bytes.drop offset).take 2)

/-- What a header was found to be. -/
structure JpegHeader where
  rebuilt : Option Bytes
  scan : Bool
  width : Option ℕ
  height : Option ℕ
  deriving DecidableEq

/-- What a walk has gathered. -/
structure Walk where
  parts : List Bytes
  changed : Bool
  hasTables : Bool
  huffman : Bool
  width : Option ℕ
  height : Option ℕ

/-- A walk that starts. -/
def Walk.start : Walk :=
  ⟨[SOI], false, false, false, none, none⟩

/-- A walk that leaves something out. -/
def Walk.skip (walk : Walk) : Walk :=
  { walk with changed := true }

/-- A walk that ends without a scan. -/
def Walk.unscanned (walk : Walk) : JpegHeader :=
  ⟨none, false, walk.width, walk.height⟩

/-- A walk that has reached its scan. -/
def Walk.scanned
    (walk : Walk)
    (scan : Bytes) : JpegHeader :=
  let missing := walk.huffman && !walk.hasTables
  let parts := walk.parts ++ (if missing then [STANDARD_DHT] else []) ++ [scan]
  ⟨if walk.changed || missing then some parts.flatten else none, true,
    walk.width, walk.height⟩

/-- Whether a segment with metadata is left out. -/
def isStripped
    (stripMetadata : Bool)
    (marker : UInt8) : Bool :=
  stripMetadata && ((isApp marker && !isPictureApp marker) || marker == 0xfe)

/-- What a segment says about tables, and about the first frame. -/
def Walk.note
    (walk : Walk)
    (marker : UInt8)
    (segment : Bytes) : Walk :=
  let walk := if marker = 0xc4 then { walk with hasTables := true } else walk
  if isFrame marker ∧ walk.width = none ∧ 7 ≤ readUInt16BE segment 2 then
    { walk with
      huffman := isHuffmanFrame marker
      height := some (readUInt16BE segment 5)
      width := some (readUInt16BE segment 7) }
  else
    walk

/-- A walk over a whole segment. -/
def Walk.take
    (stripMetadata : Bool)
    (marker : UInt8)
    (segment : Bytes)
    (walk : Walk) : Walk :=
  let walk := walk.note marker segment
  if isStripped stripMetadata marker then
    walk.skip
  else
    { walk with parts := walk.parts ++ [segment] }

variable {next rest : Bytes}

theorem length_nextMarker
    {bytes : Bytes}
    (found : nextMarker bytes = some next) :
    next.length ≤ bytes.length := by
  fun_induction nextMarker bytes with
  | case1 first marker rest resumes =>
      cases found
      exact Nat.le_refl _
  | case2 first marker rest differs inductionHypothesis =>
      exact Nat.le_trans (inductionHypothesis found) (Nat.le_succ _)
  | case3 =>
      exact nomatch found

theorem length_nextMarker_of_ne
    {first : UInt8}
    (lost : first ≠ 0xff)
    (found : nextMarker (first :: rest) = some next) :
    next.length ≤ rest.length := by
  cases rest with
  | nil =>
      exact nomatch found
  | cons marker rest =>
      rw [nextMarker, if_neg fun resumes => lost resumes.1] at found
      exact length_nextMarker found

/-- A walk over a header from a position to its first scan. -/
def rebuildFrom
    (stripMetadata : Bool)
    (walk : Walk) : Bytes → JpegHeader
  | first :: marker :: after =>
      if _isLost : first ≠ 0xff then
        -- lost: pick up at the next real marker
        match _resumes : nextMarker (first :: marker :: after) with
        | some next =>
            rebuildFrom stripMetadata walk.skip next
        | none =>
            walk.unscanned
      else if marker = 0xff then
        -- a fill byte
        rebuildFrom stripMetadata walk (marker :: after)
      else if marker = 0xda then
        walk.scanned (first :: marker :: after)
      else if marker = 0xd9 ∨ marker = 0xd8 then
        walk.unscanned
      else if marker = 0x01 ∨ (0xd0 ≤ marker ∧ marker ≤ 0xd7) then
        rebuildFrom stripMetadata walk after
      else
        let length := if 2 ≤ after.length then readUInt16BE after 0 else 0
        let segment := (first :: marker :: after).take (2 + length)
        let rest := (first :: marker :: after).drop (2 + length)
        if length < 2 ∨ rest.length < 2 ∨ rest.head? ≠ some 0xff then
          -- a broken segment: drop it and pick up at the next real marker
          match _resumes : nextMarker after with
          | some next =>
              rebuildFrom stripMetadata walk.skip next
          | none =>
              walk.unscanned
        else
          rebuildFrom stripMetadata (walk.take stripMetadata marker segment)
            rest
  | _ =>
      walk.unscanned
termination_by rest => rest.length
decreasing_by
  · have := length_nextMarker_of_ne _isLost _resumes
    simp only [List.length_cons] at *
    omega
  · simp only [List.length_cons]
    omega
  · simp only [List.length_cons]
    omega
  · have := length_nextMarker _resumes
    simp only [List.length_cons]
    omega
  · simp only [List.length_drop, List.length_cons]
    omega

/-- Walk a header from its start to its first scan, rebuilding what is
broken. -/
def rebuildHeader
    (stripMetadata : Bool)
    (body : Bytes) : JpegHeader :=
  rebuildFrom stripMetadata .start (body.drop 2)

open ByteBuffer

/-!
## The pieces of a header

A header is read as pieces: fill bytes, markers that stand alone, whole
segments, and what is broken.  The first scan ends it.  Whole segments are all
that a walk keeps, and reading these again finds nothing broken.
-/

/-- Markers that stand alone. -/
def IsStandalone (marker : UInt8) : Prop :=
  marker = 0x01 ∨ (0xd0 ≤ marker ∧ marker ≤ 0xd7)

/-- Markers that a length follows. -/
def HasLength (marker : UInt8) : Prop :=
  marker ≠ 0xff ∧ marker ≠ 0xda ∧ ¬(marker = 0xd9 ∨ marker = 0xd8) ∧
    ¬IsStandalone marker

/-- A whole segment. -/
structure Segment where
  marker : UInt8
  content : Bytes
  hasLength : HasLength marker
  whole : 2 ≤ content.length
  measured : readUInt16BE content 0 = content.length

/-- The bytes of a segment. -/
def Segment.bytes (segment : Segment) : Bytes :=
  0xff :: segment.marker :: segment.content

/-- A piece of a header. -/
inductive Piece where
  | fill
  | standalone (marker : UInt8)
  | segment (segment : Segment)
  | broken (bytes : Bytes)

/-- The segment that a piece is. -/
def Piece.segment? : Piece → Option Segment
  | .segment read =>
      some read
  | _ =>
      none

/-- A header is read as its pieces, up to its first scan: outside of whole
segments, no scan starts before. -/
inductive Reads : Bytes → List Piece → Bytes → Prop where
  | scan
      (rest : Bytes) :
      Reads (0xff :: 0xda :: rest) [] (0xff :: 0xda :: rest)
  | fill
      {rest scan : Bytes}
      {pieces : List Piece}
      (reads : Reads (0xff :: rest) pieces scan) :
      Reads (0xff :: 0xff :: rest) (.fill :: pieces) scan
  | standalone
      {marker : UInt8}
      {rest scan : Bytes}
      {pieces : List Piece}
      (isStandalone : IsStandalone marker)
      (reads : Reads rest pieces scan) :
      Reads (0xff :: marker :: rest) (.standalone marker :: pieces) scan
  | segment
      {rest scan : Bytes}
      {pieces : List Piece}
      (segment : Segment)
      (reads : Reads rest pieces scan) :
      Reads (segment.bytes ++ rest) (.segment segment :: pieces) scan
  | broken
      {bytes rest scan : Bytes}
      {pieces : List Piece}
      (noScan : ∀ before after,
        bytes ++ rest = before ++ 0xff :: 0xda :: after →
          bytes.length ≤ before.length)
      (reads : Reads rest pieces scan) :
      Reads (bytes ++ rest) (.broken bytes :: pieces) scan

/-- The segments among the pieces of a header that are kept. -/
def keptSegments
    (stripMetadata : Bool)
    (pieces : List Piece) : List Segment :=
  (pieces.filterMap Piece.segment?).filter fun segment =>
    !isStripped stripMetadata segment.marker

/-- A walk over a whole segment. -/
def Walk.takeSegment
    (stripMetadata : Bool)
    (walk : Walk)
    (segment : Segment) : Walk :=
  walk.take stripMetadata segment.marker segment.bytes

/-- A walk over a piece. -/
def Walk.over
    (stripMetadata : Bool)
    (walk : Walk) : Piece → Walk
  | .fill =>
      walk
  | .standalone _ =>
      walk
  | .segment segment =>
      walk.takeSegment stripMetadata segment
  | .broken _ =>
      walk.skip

theorem Reads.scan_eq
    {bytes scan : Bytes}
    {pieces : List Piece}
    (reads : Reads bytes pieces scan) :
    ∃ rest, scan = 0xff :: 0xda :: rest := by
  induction reads with
  | scan rest =>
      exact ⟨rest, rfl⟩
  | fill _ isScan | standalone _ _ isScan | segment _ _ isScan
  | broken _ _ isScan =>
      exact isScan

theorem nextMarker_eq_some
    {bytes : Bytes}
    (found : nextMarker bytes = some next) :
    ∃ skipped, bytes = skipped ++ next ∧
      ∀ before after, bytes = before ++ 0xff :: 0xda :: after →
        skipped.length ≤ before.length := by
  fun_induction nextMarker bytes with
  | case1 first marker rest resumes =>
      cases found
      exact ⟨[], rfl, fun before after _ => Nat.zero_le _⟩
  | case2 first marker rest differs inductionHypothesis =>
      obtain ⟨skipped, asAppend, noScan⟩ := inductionHypothesis found
      refine ⟨first :: skipped, by rw [asAppend]; rfl, ?_⟩
      intro before after isScan
      cases before with
      | nil =>
          obtain ⟨rfl, isRest⟩ := List.cons.inj isScan
          obtain ⟨rfl, -⟩ := List.cons.inj isRest
          exact absurd ⟨rfl, by decide⟩ differs
      | cons byte before =>
          have inRest := noScan before after (List.cons.inj isScan).2
          exact Nat.succ_le_succ inRest
  | case3 =>
      exact nomatch found

/-- A walk over a segment that is not broken. -/
theorem rebuildFrom_segment
    (stripMetadata : Bool)
    (walk : Walk)
    (segment : Segment)
    (isLong : 2 ≤ rest.length)
    (isMarker : rest.head? = some 0xff) :
    rebuildFrom stripMetadata walk (segment.bytes ++ rest) =
      rebuildFrom stripMetadata (walk.takeSegment stripMetadata segment)
        rest := by
  obtain ⟨notFill, notScan, notEnd, hasLength⟩ := segment.hasLength
  have notAlone : ¬(segment.marker = 0x01 ∨
      (0xd0 ≤ segment.marker ∧ segment.marker ≤ 0xd7)) := hasLength
  have whole := segment.whole
  have isLength : (if 2 ≤ (segment.content ++ rest).length then
      readUInt16BE (segment.content ++ rest) 0 else 0) =
        segment.content.length := by
    rw [if_pos (by rw [List.length_append]; omega), ← segment.measured,
      readUInt16BE, readUInt16BE, List.drop_zero, List.drop_zero,
      List.take_append_of_le_length whole]
  have isWhole : segment.bytes.length = 2 + segment.content.length := by
    rw [Segment.bytes, List.length_cons, List.length_cons]
    omega
  have split : 0xff :: segment.marker :: (segment.content ++ rest) =
      segment.bytes ++ rest := rfl
  have isSegment : (segment.bytes ++ rest).take
      (2 + segment.content.length) = segment.bytes :=
    List.take_left' isWhole
  have isRest : (segment.bytes ++ rest).drop
      (2 + segment.content.length) = rest :=
    List.drop_left' isWhole
  have sound : ¬(segment.content.length < 2 ∨ rest.length < 2 ∨
      rest.head? ≠ some 0xff) := by
    rintro (short | short | noMarker)
    · omega
    · omega
    · exact noMarker isMarker
  conv_lhs => rw [← split, rebuildFrom]
  rw [dif_neg (not_not.mpr rfl), if_neg notFill, if_neg notScan,
    if_neg notEnd, if_neg notAlone]
  simp only [isLength, split, isSegment, isRest]
  rw [if_neg sound]
  rfl

theorem rebuildFrom_segments
    (stripMetadata : Bool)
    (segments : List Segment)
    (walk : Walk)
    (isLong : 2 ≤ rest.length)
    (isMarker : rest.head? = some 0xff) :
    rebuildFrom stripMetadata walk (segments.flatMap Segment.bytes ++ rest) =
      rebuildFrom stripMetadata
        (segments.foldl (Walk.takeSegment stripMetadata) walk) rest := by
  induction segments generalizing walk with
  | nil =>
      rfl
  | cons segment segments inductionHypothesis =>
      rw [List.flatMap_cons, List.append_assoc, rebuildFrom_segment,
        inductionHypothesis, List.foldl_cons]
      · rw [List.length_append]
        omega
      · cases segments with
        | nil =>
            exact isMarker
        | cons next segments =>
            rfl

theorem rebuildFrom_scan
    (stripMetadata : Bool)
    (walk : Walk)
    (rest : Bytes) :
    rebuildFrom stripMetadata walk (0xff :: 0xda :: rest) =
      walk.scanned (0xff :: 0xda :: rest) := by
  rw [rebuildFrom, dif_neg (not_not.mpr rfl), if_neg (by decide), if_pos rfl]

theorem noScan_of_broken
    {marker : UInt8}
    {skipped : Bytes}
    (notFill : marker ≠ 0xff)
    (notScan : marker ≠ 0xda)
    (noScan : ∀ before after,
      skipped ++ next = before ++ 0xff :: 0xda :: after →
        skipped.length ≤ before.length)
    (before after : Bytes)
    (isScan : (0xff :: marker :: skipped) ++ next =
      before ++ 0xff :: 0xda :: after) :
    (0xff :: marker :: skipped).length ≤ before.length := by
  cases before with
  | nil =>
      exact absurd (List.cons.inj (List.cons.inj isScan).2).1 notScan
  | cons first before =>
      have inRest := (List.cons.inj isScan).2
      cases before with
      | nil =>
          exact absurd (List.cons.inj inRest).1 notFill
      | cons second before =>
          exact Nat.succ_le_succ (Nat.succ_le_succ
            (noScan before after (List.cons.inj inRest).2))

theorem exists_segment
    {marker : UInt8}
    {after : Bytes}
    (hasLength : HasLength marker) :
    let length := if 2 ≤ after.length then readUInt16BE after 0 else 0
    let segment := (0xff :: marker :: after).take (2 + length)
    let rest := (0xff :: marker :: after).drop (2 + length)
    ¬(length < 2 ∨ rest.length < 2 ∨ rest.head? ≠ some 0xff) →
      ∃ found : Segment, found.marker = marker ∧ found.bytes = segment ∧
        found.bytes ++ rest = 0xff :: marker :: after := by
  intro length segment rest isWhole
  obtain ⟨notShort, follows⟩ := not_or.mp isWhole
  obtain ⟨isLong, -⟩ := not_or.mp follows
  have isSegment : segment = 0xff :: marker :: after.take length := by
    dsimp only [segment]
    rw [Nat.add_comm, List.take_succ_cons, List.take_succ_cons]
  have restLength : rest.length = after.length - length := by
    dsimp only [rest]
    rw [Nat.add_comm, List.drop_succ_cons, List.drop_succ_cons,
      List.length_drop]
  have contentLength : (after.take length).length = length := by
    rw [List.length_take]
    omega
  have isLength : readUInt16BE after 0 = length := by
    dsimp only [length]
    rw [if_pos (by omega)]
  refine ⟨⟨marker, after.take length, hasLength, by omega, ?_⟩, rfl,
    isSegment.symm, ?_⟩
  · rw [contentLength, readUInt16BE, List.drop_zero, List.take_take,
      Nat.min_eq_left (Nat.not_lt.mp notShort)]
    exact isLength
  · rw [Segment.bytes, ← isSegment]
    exact List.take_append_drop _ _

/-- A walk that reaches a scan has read the pieces up to it. -/
theorem rebuildFrom_reads
    (stripMetadata : Bool)
    (walk : Walk)
    (bytes : Bytes)
    (hasScan : (rebuildFrom stripMetadata walk bytes).scan = true) :
    ∃ pieces scan, Reads bytes pieces scan ∧
      rebuildFrom stripMetadata walk bytes =
        (pieces.foldl (Walk.over stripMetadata) walk).scanned scan := by
  fun_induction rebuildFrom stripMetadata walk bytes with
  | case1 walk first marker after isLost next resumes inductionHypothesis =>
      obtain ⟨pieces, scan, reads, result⟩ := inductionHypothesis hasScan
      obtain ⟨skipped, asAppend, noScan⟩ := nextMarker_eq_some resumes
      rw [asAppend] at noScan ⊢
      exact ⟨.broken skipped :: pieces, scan, .broken noScan reads, result⟩
  | case2 walk first marker after isLost ends =>
      exact nomatch hasScan
  | case3 walk first after isMarker inductionHypothesis =>
      obtain rfl := not_not.mp isMarker
      obtain ⟨pieces, scan, reads, result⟩ := inductionHypothesis hasScan
      exact ⟨.fill :: pieces, scan, .fill reads, result⟩
  | case4 walk first after isMarker notFill =>
      obtain rfl := not_not.mp isMarker
      exact ⟨[], _, .scan after, rfl⟩
  | case5 walk first marker after isMarker notFill notScan isEnd =>
      exact nomatch hasScan
  | case6 walk first marker after isMarker notFill notScan notEnd isStandalone
      inductionHypothesis =>
      obtain rfl := not_not.mp isMarker
      obtain ⟨pieces, scan, reads, result⟩ := inductionHypothesis hasScan
      exact ⟨.standalone marker :: pieces, scan, .standalone isStandalone reads,
        result⟩
  | case7 walk first marker after isMarker notFill notScan notEnd notAlone
      length rest isBroken next resumes inductionHypothesis =>
      obtain rfl := not_not.mp isMarker
      obtain ⟨pieces, scan, reads, result⟩ := inductionHypothesis hasScan
      obtain ⟨skipped, asAppend, noScan⟩ := nextMarker_eq_some resumes
      refine ⟨.broken (0xff :: marker :: skipped) :: pieces, scan, ?_, result⟩
      rw [asAppend] at noScan ⊢
      exact .broken (noScan_of_broken notFill notScan noScan) reads
  | case8 walk first marker after isMarker notFill notScan notEnd notAlone
      length rest isBroken ends =>
      exact nomatch hasScan
  | case9 walk first marker after isMarker notFill notScan notEnd notAlone
      length segment rest isWhole inductionHypothesis =>
      obtain rfl := not_not.mp isMarker
      obtain ⟨pieces, scan, reads, result⟩ := inductionHypothesis hasScan
      obtain ⟨found, isMarker, isSegment, isRest⟩ := exists_segment
        ⟨notFill, notScan, notEnd, notAlone⟩ isWhole
      refine ⟨.segment found :: pieces, scan, ?_, ?_⟩
      · rw [← isRest]
        exact .segment found reads
      · rw [result, List.foldl_cons, Walk.over, Walk.takeSegment, isMarker,
          isSegment]
        rfl
  | case10 walk rest isShort =>
      exact nomatch hasScan

end Frameleaf.JpegRepair
