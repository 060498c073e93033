import Frameleaf.JpegRepair.HeaderLaws
import Frameleaf.Lib.PatternSearch
import Mathlib.Data.List.DropRight

namespace Frameleaf.JpegRepair

open ByteBuffer PatternSearch

/-!
# Candidates for a repair

A picture may start at each start-of-image marker, or at a header that has lost
its own.  Each start gives the file from there, and what its header is rebuilt
to.
-/

/-- The most starts that are tried. -/
def MAX_JPEG_REPAIR_STARTS : ℕ :=
  8

/-- The most candidates. -/
def MAX_CANDIDATES : ℕ :=
  24

/-- Where a header without its start is looked for. -/
def HEADER_SEARCH_BYTES : ℕ :=
  64 * 1024

/-- How hard it is looked for. -/
def HEADER_SEARCH_TRIES : ℕ :=
  200

/-- How much of it is walked over. -/
def HEADER_WINDOW_BYTES : ℕ :=
  1024 * 1024

/-- A run this long at the end of a cut-off file is padding. -/
def PADDING_RUN : ℕ :=
  64

/-- Groups of metadata. -/
inductive JpegMetadataGroup where
  | EXIF
  | XMP
  | IPTC
  deriving DecidableEq

/-- The bytes of a text in plain letters. -/
def ascii (text : String) : Bytes :=
  text.toList.map fun letter => UInt8.ofNat letter.toNat

/-- How the segment of each group announces itself. -/
def METADATA_SIGNATURES : List (JpegMetadataGroup × Bytes) :=
  [(.EXIF, ascii "Exif" ++ [0, 0]),
    (.XMP, ascii "http://ns.adobe.com/xap/1.0/" ++ [0]),
    (.IPTC, ascii "Photoshop 3.0" ++ [0])]

/-- Trim padding after a cut, and close the file. -/
def closeFile (body : Bytes) : Bytes :=
  if 4 ≤ body.length ∧ EOI <:+ body then
    body
  else
    let trimmed :=
      match body.getLast? with
      | some pad =>
          if pad = 0x00 ∨ pad = 0xff then
            body.take 2 ++ (body.drop 2).rdropWhile (· == pad)
          else
            body
      | none =>
          body
    (if body.length - trimmed.length < PADDING_RUN then body else trimmed) ++
      EOI

/-- Whether a header may start with a marker. -/
def startsHeader (marker : UInt8) : Bool :=
  isApp marker || marker == 0xdb || marker == 0xc4 || isFrame marker

/-- The first spot where a sound header starts that has lost its own start. -/
def headerStart
    (before : ℕ) : (rest : Bytes) → (position tries : ℕ) → Option Bytes
  | [], _, _ =>
      none
  | first :: rest, position, tries =>
      if first ≠ 0xff then
        headerStart before rest (position + 1) tries
      else if before ≤ position ∨ HEADER_SEARCH_TRIES ≤ tries then
        none
      else if !(rest.head?.any startsHeader) then
        headerStart before rest (position + 1) tries
      else
        let header := rebuildHeader false
          (SOI ++ (first :: rest).take HEADER_WINDOW_BYTES)
        if header.scan ∧ header.rebuilt = none ∧ header.width.getD 0 ≠ 0 then
          some (SOI ++ first :: rest)
        else
          headerStart before rest (position + 1) (tries + 1)

/-- The last one of repeated starts. -/
def lastRepeated : List UInt8 → List UInt8
  | first :: second :: rest =>
      if rest.take 2 = SOI then
        lastRepeated rest
      else
        first :: second :: rest
  | bytes =>
      bytes

theorem length_lastRepeated
    (bytes : Bytes) :
    (lastRepeated bytes).length ≤ bytes.length := by
  fun_induction lastRepeated bytes with
  | case1 first second rest repeats inductionHypothesis =>
      simp only [List.length_cons]
      omega
  | case2 | case3 =>
      exact Nat.le_refl _

theorem length_fromFirst
    {bytes offset : Bytes}
    (isFound : fromFirst SOI bytes = some offset) :
    2 ≤ offset.length ∧ offset.length ≤ bytes.length :=
  ⟨(prefix_fromFirst isFound).length_le, (fromFirst_suffix isFound).length_le⟩

/-- Starts of pictures at their markers, as many as there is room for. -/
def soiStarts
    (room : ℕ)
    (bytes : Bytes) : List Bytes :=
  match _isFound : fromFirst SOI bytes with
  | some offset =>
      if room = 0 then
        []
      else
        let start := lastRepeated offset
        if start[2]? = some 0xff then
          start :: soiStarts (room - 1) (start.drop 2)
        else
          soiStarts room (start.drop 2)
  | none =>
      []
termination_by bytes.length
decreasing_by
  all_goals
    have := length_fromFirst _isFound
    have := length_lastRepeated offset
    rw [List.length_drop]
    omega

/-- Where pictures may start: at each marker, and at a header with none before
it. -/
def pictureStarts (bytes : Bytes) : List Bytes :=
  let before := min
    (bytes.length - ((fromFirst SOI bytes).elim 0 List.length))
    HEADER_SEARCH_BYTES
  let starts := (headerStart before bytes 0 0).toList
  starts ++ soiStarts (MAX_JPEG_REPAIR_STARTS - starts.length) bytes

/-- What a file may be repaired to. -/
structure JpegRepairCandidates where
  candidates : List Bytes
  width : Option ℕ
  height : Option ℕ
  metadata : List JpegMetadataGroup

/-- A candidate is added if it is new and there is room. -/
def add
    (candidates : List Bytes) : Option Bytes → List Bytes
  | some candidate =>
      if candidates.length < MAX_CANDIDATES ∧ candidate ∉ candidates then
        candidates ++ [candidate]
      else
        candidates
  | none =>
      candidates

/-- The candidates of a start are added. -/
def addStart
    (found : JpegRepairCandidates)
    (start : Bytes) : JpegRepairCandidates :=
  let body := closeFile start
  let header := rebuildHeader false body
  let found :=
    if found.width = none then
      { found with width := header.width, height := header.height }
    else
      found
  { found with
    candidates := add (add (add found.candidates (some body)) header.rebuilt)
      (rebuildHeader true body).rebuilt }

/-- What a file may be repaired to, from each of its starts. -/
def jpegRepairCandidates (bytes : Bytes) : JpegRepairCandidates :=
  let metadata := METADATA_SIGNATURES.filterMap fun signature =>
    if (fromFirst signature.2 bytes).isSome then some signature.1 else none
  (pictureStarts bytes).foldl addStart ⟨[], none, none, metadata⟩

open ByteBuffer PatternSearch

/-!
## A picture behind other bytes is a candidate

Bytes before a picture hold no start of an image, so that the first start is the
picture's own.  At most one header without a start is tried before it.
-/

/-- A picture from its start to its end. -/
structure SoundJpeg where
  bytes : Bytes
  starts : ∃ marker rest, bytes = SOI ++ 0xff :: marker :: rest ∧
    marker ≠ 0xd8
  ends : EOI <:+ bytes

theorem SoundJpeg.closeFile_eq
    (jpeg : SoundJpeg) :
    closeFile jpeg.bytes = jpeg.bytes := by
  obtain ⟨marker, rest, asBytes, -⟩ := jpeg.starts
  have isLong : 4 ≤ jpeg.bytes.length := by
    rw [asBytes, SOI]
    simp only [List.length_append, List.length_cons]
    omega
  rw [closeFile, if_pos ⟨isLong, jpeg.ends⟩]

theorem SoundJpeg.lastRepeated_eq
    (jpeg : SoundJpeg) :
    lastRepeated jpeg.bytes = jpeg.bytes := by
  obtain ⟨marker, rest, asBytes, notStart⟩ := jpeg.starts
  have noRepeat : ¬(0xff :: marker :: rest).take 2 = SOI := by
    intro same
    exact notStart (List.cons.inj (List.cons.inj same).2).1
  rw [asBytes]
  exact if_neg noRepeat

variable {before : Bytes}

theorem SoundJpeg.fromFirst_eq
    (jpeg : SoundJpeg)
    (absent : ¬SOI <:+: before) :
    fromFirst SOI (before ++ jpeg.bytes) = some jpeg.bytes := by
  obtain ⟨marker, rest, asBytes, -⟩ := jpeg.starts
  have stands : SOI <+: jpeg.bytes := by
    rw [asBytes]
    exact List.prefix_append _ _
  have follows : jpeg.bytes.head? = some 0xff := by
    rw [asBytes]
    rfl
  exact fromFirst_append stands (nowhere_of_pair (by decide) absent follows)

theorem SoundJpeg.mem_soiStarts
    (jpeg : SoundJpeg)
    (absent : ¬SOI <:+: before)
    {room : ℕ}
    (hasRoom : room ≠ 0) :
    ∃ later, soiStarts room (before ++ jpeg.bytes) = jpeg.bytes :: later := by
  obtain ⟨marker, rest, asBytes, -⟩ := jpeg.starts
  have isMarker : jpeg.bytes[2]? = some 0xff := by
    rw [asBytes]
    rfl
  rw [soiStarts]
  split
  · rename_i offset isFound
    obtain rfl := Option.some.inj
      ((jpeg.fromFirst_eq absent).symm.trans isFound)
    rw [if_neg hasRoom]
    dsimp only
    rw [jpeg.lastRepeated_eq, if_pos isMarker]
    exact ⟨_, rfl⟩
  · rename_i isMissing
    exact nomatch (jpeg.fromFirst_eq absent).symm.trans isMissing

theorem subset_add
    (candidates : List Bytes)
    (candidate : Option Bytes) :
    candidates ⊆ add candidates candidate := by
  cases candidate with
  | none =>
      exact List.Subset.refl _
  | some candidate =>
      rw [add]
      split
      · exact List.subset_append_left _ _
      · exact List.Subset.refl _

theorem length_add_le
    (candidates : List Bytes)
    (candidate : Option Bytes) :
    (add candidates candidate).length ≤ candidates.length + 1 := by
  cases candidate with
  | none =>
      exact Nat.le_succ _
  | some candidate =>
      rw [add]
      split
      · rw [List.length_append, List.length_singleton]
      · exact Nat.le_succ _

theorem mem_add
    {candidates : List Bytes}
    (hasRoom : candidates.length < MAX_CANDIDATES)
    (candidate : Bytes) :
    candidate ∈ add candidates (some candidate) := by
  rw [add]
  by_cases isNew : candidate ∈ candidates
  · rw [if_neg fun added => added.2 isNew]
    exact isNew
  · rw [if_pos ⟨hasRoom, isNew⟩]
    exact List.mem_append_right _ List.mem_cons_self

theorem candidates_addStart
    (found : JpegRepairCandidates)
    (start : Bytes) :
    (addStart found start).candidates =
      add (add (add found.candidates (some (closeFile start)))
        (rebuildHeader false (closeFile start)).rebuilt)
          (rebuildHeader true (closeFile start)).rebuilt := by
  unfold addStart
  dsimp only
  split <;> rfl

theorem subset_foldl_addStart
    (starts : List Bytes)
    (found : JpegRepairCandidates) :
    found.candidates ⊆ (starts.foldl addStart found).candidates := by
  induction starts generalizing found with
  | nil =>
      exact List.Subset.refl _
  | cons start starts inductionHypothesis =>
      have kept : found.candidates ⊆ (addStart found start).candidates := by
        rw [candidates_addStart]
        exact List.Subset.trans
          (List.Subset.trans (subset_add _ _) (subset_add _ _))
          (subset_add _ _)
      exact List.Subset.trans kept (inductionHypothesis _)

theorem length_addStart_le
    (found : JpegRepairCandidates)
    (start : Bytes) :
    (addStart found start).candidates.length ≤
      found.candidates.length + 3 := by
  rw [candidates_addStart]
  have first := length_add_le found.candidates (some (closeFile start))
  have second := length_add_le (add found.candidates (some (closeFile start)))
    (rebuildHeader false (closeFile start)).rebuilt
  have third := length_add_le
    (add (add found.candidates (some (closeFile start)))
      (rebuildHeader false (closeFile start)).rebuilt)
    (rebuildHeader true (closeFile start)).rebuilt
  omega

theorem mem_addStart
    {found : JpegRepairCandidates}
    (hasRoom : found.candidates.length < MAX_CANDIDATES)
    (start : Bytes) :
    closeFile start ∈ (addStart found start).candidates := by
  rw [candidates_addStart]
  exact subset_add _ _ (subset_add _ _ (mem_add hasRoom _))

theorem SoundJpeg.mem_candidates
    (jpeg : SoundJpeg)
    (absent : ¬SOI <:+: before) :
    jpeg.bytes ∈ (jpegRepairCandidates (before ++ jpeg.bytes)).candidates := by
  unfold jpegRepairCandidates
  dsimp only
  generalize METADATA_SIGNATURES.filterMap _ = metadata
  unfold pictureStarts
  dsimp only
  generalize headerStart _ (before ++ jpeg.bytes) 0 0 = first
  cases first with
  | none =>
      have hasRoom : MAX_JPEG_REPAIR_STARTS ≠ 0 := by decide
      obtain ⟨later, isFirst⟩ := jpeg.mem_soiStarts absent hasRoom
      change jpeg.bytes ∈ (List.foldl addStart _ (soiStarts
        MAX_JPEG_REPAIR_STARTS (before ++ jpeg.bytes))).candidates
      rw [isFirst, List.foldl_cons]
      have few : (⟨[], none, none, metadata⟩ :
          JpegRepairCandidates).candidates.length < MAX_CANDIDATES :=
        show 0 < MAX_CANDIDATES by decide
      have isThere := mem_addStart few jpeg.bytes
      rw [jpeg.closeFile_eq] at isThere
      exact subset_foldl_addStart _ _ isThere
  | some start =>
      have hasRoom : MAX_JPEG_REPAIR_STARTS - 1 ≠ 0 := by decide
      obtain ⟨later, isSecond⟩ := jpeg.mem_soiStarts absent hasRoom
      change jpeg.bytes ∈ (List.foldl addStart _ (start :: soiStarts
        (MAX_JPEG_REPAIR_STARTS - 1) (before ++ jpeg.bytes))).candidates
      rw [isSecond, List.foldl_cons, List.foldl_cons]
      have few : (addStart ⟨[], none, none, metadata⟩ start).candidates.length <
          MAX_CANDIDATES :=
        Nat.lt_of_le_of_lt (length_addStart_le _ _)
          (show 0 + 3 < MAX_CANDIDATES by decide)
      have isThere := mem_addStart few jpeg.bytes
      rw [jpeg.closeFile_eq] at isThere
      exact subset_foldl_addStart _ _ isThere

/-- What holds of repairs of pictures. -/
structure RepairLaws : Prop where
  /-- A rebuilt header keeps the file from its first scan on and whole segments
  in their order, and is sound. -/
  header :
    ∀ (stripMetadata : Bool) (body : Bytes), HeaderLaws stripMetadata body
  /-- A picture behind bytes that hold no start of an image is a candidate. -/
  candidate :
    ∀ (before : Bytes) (jpeg : SoundJpeg), ¬SOI <:+: before →
      jpeg.bytes ∈ (jpegRepairCandidates (before ++ jpeg.bytes)).candidates

/-- Rebuilt headers are sound, and pictures behind other bytes are found. -/
theorem repairLaws : RepairLaws where
  header := headerLaws
  candidate _ jpeg absent := jpeg.mem_candidates absent

end Frameleaf.JpegRepair
