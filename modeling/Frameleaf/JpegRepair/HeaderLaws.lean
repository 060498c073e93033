import Frameleaf.JpegRepair.RebuildHeader

namespace Frameleaf.JpegRepair

open ByteBuffer

/-!
# What a rebuilt header keeps

A rebuilt file is the start of an image, the segments that are kept, the
standard tables where none were found, and the file from its first scan on.
Rebuilding it again finds nothing to change.
-/

variable (stripMetadata : Bool)

/-- A walk that has, or has not, left something out. -/
def Walk.marked
    (walk : Walk)
    (changed : Bool) : Walk :=
  { walk with changed := changed }

theorem Walk.note_marked
    (walk : Walk)
    (changed : Bool)
    (marker : UInt8)
    (segment : Bytes) :
    (walk.marked changed).note marker segment =
      (walk.note marker segment).marked changed := by
  unfold Walk.note
  split
  · dsimp only [Walk.marked]
    split <;> rfl
  · dsimp only [Walk.marked]
    split <;> rfl

theorem Walk.note_parts
    (walk : Walk)
    (marker : UInt8)
    (segment : Bytes) :
    (walk.note marker segment).parts = walk.parts := by
  unfold Walk.note
  dsimp only
  split
  · split <;> rfl
  · split <;> rfl

theorem Walk.note_changed
    (walk : Walk)
    (marker : UInt8)
    (segment : Bytes) :
    (walk.note marker segment).changed = walk.changed := by
  unfold Walk.note
  dsimp only
  split
  · split <;> rfl
  · split <;> rfl

variable {segment : Segment}

theorem Walk.takeSegment_marked
    (isKept : isStripped stripMetadata segment.marker = false)
    (walk : Walk)
    (changed : Bool) :
    (walk.marked changed).takeSegment stripMetadata segment =
      (walk.takeSegment stripMetadata segment).marked changed := by
  unfold Walk.takeSegment Walk.take
  rw [isKept, Walk.note_marked]
  rfl

theorem Walk.note_of_stripped
    {marker : UInt8}
    (stripped : isStripped stripMetadata marker = true)
    (walk : Walk)
    (segment : Bytes) :
    walk.note marker segment = walk := by
  have isHigh : 0xe0 ≤ marker.toNat := by
    unfold isStripped isApp at stripped
    simp only [Bool.and_eq_true, Bool.or_eq_true, decide_eq_true_eq,
      beq_iff_eq] at stripped
    rcases stripped.2 with ⟨isApp, -⟩ | rfl
    · exact UInt8.le_iff_toNat_le.mp isApp.1
    · decide
  have noTables : marker ≠ 0xc4 := by
    rintro rfl
    exact absurd isHigh (by decide)
  have noFrame : isFrame marker = false := by
    unfold isFrame
    rw [Bool.and_eq_false_iff, Bool.and_eq_false_iff]
    refine Or.inl (Or.inr (decide_eq_false fun isLow => ?_))
    have : marker.toNat ≤ 0xcf := UInt8.le_iff_toNat_le.mp isLow
    omega
  unfold Walk.note
  rw [if_neg noTables, noFrame]
  exact if_neg fun isFirst => nomatch isFirst.1

theorem Walk.takeSegment_of_stripped
    (stripped : isStripped stripMetadata segment.marker = true)
    (walk : Walk) :
    walk.takeSegment stripMetadata segment = walk.marked true := by
  unfold Walk.takeSegment Walk.take
  rw [Walk.note_of_stripped stripMetadata stripped, stripped]
  rfl

theorem not_stripped_of_kept
    {pieces : List Piece}
    (member : segment ∈ keptSegments stripMetadata pieces) :
    isStripped stripMetadata segment.marker = false := by
  have isKept := (List.mem_filter.mp member).2
  rwa [Bool.not_eq_true'] at isKept

variable {segments : List Segment}

theorem foldl_takeSegment_marked
    (kept : ∀ segment ∈ segments,
      isStripped stripMetadata segment.marker = false)
    (walk : Walk)
    (changed : Bool) :
    segments.foldl (Walk.takeSegment stripMetadata) (walk.marked changed) =
      (segments.foldl (Walk.takeSegment stripMetadata) walk).marked
        changed := by
  induction segments generalizing walk with
  | nil =>
      rfl
  | cons segment segments inductionHypothesis =>
      rw [List.foldl_cons, List.foldl_cons,
        Walk.takeSegment_marked stripMetadata (kept _ List.mem_cons_self)]
      exact inductionHypothesis
        (fun other member => kept other (List.mem_cons_of_mem _ member)) _

theorem foldl_takeSegment_parts
    (kept : ∀ segment ∈ segments,
      isStripped stripMetadata segment.marker = false)
    (walk : Walk) :
    let after := segments.foldl (Walk.takeSegment stripMetadata) walk
    after.parts = walk.parts ++ segments.map Segment.bytes ∧
      after.changed = walk.changed := by
  induction segments generalizing walk with
  | nil =>
      exact ⟨(List.append_nil _).symm, rfl⟩
  | cons segment segments inductionHypothesis =>
      obtain ⟨parts, changed⟩ := inductionHypothesis
        (fun other member => kept other (List.mem_cons_of_mem _ member))
        (walk.takeSegment stripMetadata segment)
      have first : (walk.takeSegment stripMetadata segment).parts =
          walk.parts ++ [segment.bytes] ∧
            (walk.takeSegment stripMetadata segment).changed =
              walk.changed := by
        unfold Walk.takeSegment Walk.take
        rw [kept _ List.mem_cons_self]
        exact ⟨congrArg (· ++ [segment.bytes]) (walk.note_parts _ _),
          walk.note_changed _ _⟩
      dsimp only at parts changed ⊢
      rw [List.foldl_cons, parts, changed, first.1, first.2, List.map_cons,
        List.append_assoc]
      exact ⟨rfl, rfl⟩

theorem keptSegments_cons_segment
    (segment : Segment)
    (pieces : List Piece) :
    keptSegments stripMetadata (.segment segment :: pieces) =
      if isStripped stripMetadata segment.marker then
        keptSegments stripMetadata pieces
      else
        segment :: keptSegments stripMetadata pieces := by
  unfold keptSegments
  rw [List.filterMap_cons, Piece.segment?]
  dsimp only
  rw [List.filter_cons]
  cases isStripped stripMetadata segment.marker with
  | false | true =>
      rfl

theorem foldl_over
    (pieces : List Piece)
    (walk : Walk) :
    ∃ changed, pieces.foldl (Walk.over stripMetadata) walk =
      ((keptSegments stripMetadata pieces).foldl
        (Walk.takeSegment stripMetadata) walk).marked changed := by
  induction pieces generalizing walk with
  | nil =>
      exact ⟨walk.changed, rfl⟩
  | cons piece pieces inductionHypothesis =>
      have kept : ∀ segment ∈ keptSegments stripMetadata pieces,
          isStripped stripMetadata segment.marker = false :=
        fun _ => not_stripped_of_kept stripMetadata
      have marks := foldl_takeSegment_marked stripMetadata kept
      rw [List.foldl_cons]
      cases piece with
      | fill | standalone =>
          exact inductionHypothesis walk
      | segment segment =>
          rw [keptSegments_cons_segment]
          cases isKept : isStripped stripMetadata segment.marker with
          | false =>
              exact inductionHypothesis _
          | true =>
              obtain ⟨changed, result⟩ := inductionHypothesis (walk.marked true)
              refine ⟨changed, ?_⟩
              rw [Walk.over, Walk.takeSegment_of_stripped stripMetadata isKept,
                result, marks]
              rfl
      | broken bytes =>
          obtain ⟨changed, result⟩ := inductionHypothesis (walk.marked true)
          have sameKept : keptSegments stripMetadata (.broken bytes :: pieces) =
              keptSegments stripMetadata pieces := rfl
          rw [marks] at result
          exact ⟨changed, sameKept ▸ result⟩

/-- The segment with the standard tables is whole. -/
def dhtSegment : Segment where
  marker := 0xc4
  content := STANDARD_DHT.drop 2
  hasLength := by
    unfold HasLength IsStandalone
    decide
  whole := by
    decide +kernel
  measured := by
    decide +kernel

theorem Walk.takeSegment_dht
    (walk : Walk) :
    walk.takeSegment stripMetadata dhtSegment =
      { walk with
        hasTables := true
        parts := walk.parts ++ [dhtSegment.bytes] } := by
  have isKept : isStripped stripMetadata dhtSegment.marker = false :=
    Bool.and_false stripMetadata
  have noFrame : isFrame dhtSegment.marker = false := by
    decide
  unfold Walk.takeSegment Walk.take
  rw [isKept]
  unfold Walk.note
  rw [if_pos (show dhtSegment.marker = 0xc4 from rfl), noFrame]
  dsimp only
  rw [if_neg nofun]
  rfl

theorem rebuildFrom_kept
    (kept : ∀ segment ∈ segments,
      isStripped stripMetadata segment.marker = false)
    (rest : Bytes) :
    let walk := segments.foldl (Walk.takeSegment stripMetadata) .start
    let tables := if walk.huffman && !walk.hasTables then STANDARD_DHT else []
    rebuildFrom stripMetadata .start
        (segments.flatMap Segment.bytes ++ (tables ++ 0xff :: 0xda :: rest)) =
      ⟨none, true, walk.width, walk.height⟩ := by
  intro walk tables
  have sound : walk.changed = false :=
    (foldl_takeSegment_parts stripMetadata kept .start).2
  dsimp only [tables]
  cases missing : walk.huffman && !walk.hasTables with
  | false =>
      rw [if_neg (by nofun), List.nil_append,
        rebuildFrom_segments _ _ _ (by simp) rfl, rebuildFrom_scan]
      change walk.scanned _ = _
      simp only [Walk.scanned, missing, sound, Bool.or_self, Bool.false_eq_true,
        if_false]
  | true =>
      have isTables : STANDARD_DHT = dhtSegment.bytes := rfl
      rw [if_pos rfl, isTables, rebuildFrom_segments _ _ _ (by simp; omega) rfl,
        rebuildFrom_segment _ _ _ (by simp) rfl, rebuildFrom_scan,
        Walk.takeSegment_dht]
      change Walk.scanned { walk with
        hasTables := true
        parts := walk.parts ++ [dhtSegment.bytes] } _ = _
      simp only [Walk.scanned, sound, Bool.not_true, Bool.and_false,
        Bool.or_self, Bool.false_eq_true, if_false]

theorem Walk.rebuilt_scanned
    {walk : Walk}
    {scan rebuilt : Bytes}
    (isRebuilt : (walk.scanned scan).rebuilt = some rebuilt) :
    rebuilt = (walk.parts ++
      (if walk.huffman && !walk.hasTables then [STANDARD_DHT] else []) ++
        [scan]).flatten := by
  unfold Walk.scanned at isRebuilt
  dsimp only at isRebuilt
  split at isRebuilt
  · exact (Option.some.inj isRebuilt).symm
  · exact nomatch isRebuilt

theorem rebuildHeader_eq
    {body : Bytes}
    (hasScan : (rebuildHeader stripMetadata body).scan = true) :
    ∃ pieces rest, Reads (body.drop 2) pieces (0xff :: 0xda :: rest) ∧
      let walk := (keptSegments stripMetadata pieces).foldl
        (Walk.takeSegment stripMetadata) .start
      let tables := if walk.huffman && !walk.hasTables then STANDARD_DHT else []
      (rebuildHeader stripMetadata body).width = walk.width ∧
      (rebuildHeader stripMetadata body).height = walk.height ∧
      ∀ rebuilt, (rebuildHeader stripMetadata body).rebuilt = some rebuilt →
        rebuilt = SOI ++ ((keptSegments stripMetadata pieces).flatMap
          Segment.bytes ++ (tables ++ 0xff :: 0xda :: rest)) := by
  obtain ⟨pieces, scan, reads, result⟩ :=
    rebuildFrom_reads stripMetadata _ _ hasScan
  obtain ⟨rest, rfl⟩ := reads.scan_eq
  obtain ⟨changed, isWalk⟩ := foldl_over stripMetadata pieces .start
  have kept : ∀ segment ∈ keptSegments stripMetadata pieces,
      isStripped stripMetadata segment.marker = false :=
    fun _ => not_stripped_of_kept stripMetadata
  obtain ⟨parts, -⟩ := foldl_takeSegment_parts stripMetadata kept .start
  rw [isWalk] at result
  refine ⟨pieces, rest, reads, congrArg JpegHeader.width result,
    congrArg JpegHeader.height result, fun rebuilt isRebuilt => ?_⟩
  rw [rebuildHeader, result] at isRebuilt
  have isParts := Walk.rebuilt_scanned isRebuilt
  simp only [Walk.marked, parts] at isParts
  rw [isParts]
  cases (Walk.huffman _ && !Walk.hasTables _) with
  | false | true =>
      simp [Walk.start, List.flatMap, SOI]

/-- What a rebuilt header keeps. -/
structure HeaderLaws
    (stripMetadata : Bool)
    (body : Bytes) : Prop where
  /-- A file is rebuilt only when its walk reaches a scan. -/
  scans :
    ∀ rebuilt, (rebuildHeader stripMetadata body).rebuilt = some rebuilt →
      (rebuildHeader stripMetadata body).scan = true
  /-- The header up to its first scan is read as pieces, and what is rebuilt is
  the segments among them that are kept, in their order, the standard tables or
  nothing, and the file from this scan on. -/
  kept :
    (rebuildHeader stripMetadata body).scan = true →
      ∃ pieces rest, Reads (body.drop 2) pieces (0xff :: 0xda :: rest) ∧
        ∀ rebuilt, (rebuildHeader stripMetadata body).rebuilt = some rebuilt →
          ∃ tables, (tables = [] ∨ tables = STANDARD_DHT) ∧
            rebuilt = SOI ++ ((keptSegments stripMetadata pieces).flatMap
              Segment.bytes ++ (tables ++ 0xff :: 0xda :: rest))
  /-- Rebuilding what was rebuilt finds nothing to change, and the same
  size. -/
  again :
    ∀ rebuilt, (rebuildHeader stripMetadata body).rebuilt = some rebuilt →
      rebuildHeader stripMetadata rebuilt =
        { rebuildHeader stripMetadata body with rebuilt := none }

theorem scan_of_rebuilt
    (walk : Walk)
    (bytes : Bytes)
    {rebuilt : Bytes}
    (isRebuilt : (rebuildFrom stripMetadata walk bytes).rebuilt =
      some rebuilt) :
    (rebuildFrom stripMetadata walk bytes).scan = true := by
  fun_induction rebuildFrom stripMetadata walk bytes with
  | case1 walk first marker after isLost next resumes inductionHypothesis =>
      exact inductionHypothesis isRebuilt
  | case2 | case5 | case8 | case10 =>
      cases isRebuilt
  | case3 walk first after isMarker inductionHypothesis =>
      exact inductionHypothesis isRebuilt
  | case4 =>
      rfl
  | case6 walk first marker after isMarker notFill notScan notEnd isStandalone
      inductionHypothesis =>
      exact inductionHypothesis isRebuilt
  | case7 walk first marker after isMarker notFill notScan notEnd notAlone
      length rest isBroken next resumes inductionHypothesis =>
      exact inductionHypothesis isRebuilt
  | case9 walk first marker after isMarker notFill notScan notEnd notAlone
      length segment rest isWhole inductionHypothesis =>
      exact inductionHypothesis isRebuilt

theorem headerLaws
    (body : Bytes) :
    HeaderLaws stripMetadata body where
  scans := by
    intro rebuilt isRebuilt
    exact scan_of_rebuilt stripMetadata _ _ isRebuilt
  kept := by
    intro hasScan
    obtain ⟨pieces, rest, reads, -, -, isKept⟩ :=
      rebuildHeader_eq stripMetadata hasScan
    refine ⟨pieces, rest, reads, fun rebuilt isRebuilt =>
      ⟨_, ?_, isKept rebuilt isRebuilt⟩⟩
    split
    · exact Or.inr rfl
    · exact Or.inl rfl
  again := by
    intro rebuilt isRebuilt
    have hasScan := scan_of_rebuilt stripMetadata _ _ isRebuilt
    obtain ⟨pieces, rest, -, width, height, isKept⟩ :=
      rebuildHeader_eq stripMetadata hasScan
    have isScan : (rebuildHeader stripMetadata body).scan = true := hasScan
    dsimp only
    rw [width, height, isKept rebuilt isRebuilt, isScan]
    exact rebuildFrom_kept stripMetadata
      (fun _ => not_stripped_of_kept stripMetadata) rest

end Frameleaf.JpegRepair
