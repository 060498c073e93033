import Frameleaf.JustifiedRows.Blocks

namespace Frameleaf.JustifiedRows

open Rounding

/-!
# What holds of a flow

The rows of a flow have every item once, in order, and a flow can be continued.
A row fills its container exactly when the whole widths of its tiles leave the
last one a pixel.
-/

section Breaks

variable {frame : Frame}

theorem Breaks.add_before
    (earlier blocks : List Block)
    (row : List ℚ)
    (aspect : ℚ) :
    Breaks.add frame { blocks := earlier ++ blocks, row := row } aspect =
      { blocks :=
          earlier ++
            (Breaks.add frame { blocks := blocks, row := row } aspect).blocks
        row :=
          (Breaks.add frame { blocks := blocks, row := row } aspect).row } := by
  unfold Breaks.add Breaks.fill
  dsimp only
  split <;> split <;> simp only [List.append_assoc]

theorem Breaks.foldl_before
    (earlier : List Block)
    (breaks : Breaks)
    (list : List ℚ) :
    list.foldl (Breaks.add frame)
        { breaks with blocks := earlier ++ breaks.blocks } =
      { blocks := earlier ++ (list.foldl (Breaks.add frame) breaks).blocks
        row := (list.foldl (Breaks.add frame) breaks).row } := by
  induction list generalizing breaks with
  | nil =>
      rfl
  | cons aspect list inductionHypothesis =>
      rw [List.foldl_cons, List.foldl_cons, Breaks.add_before]
      exact inductionHypothesis _

variable {breaks : Breaks}

theorem Breaks.add_of_open
    {aspect : ℚ}
    (notBefore :
      frame.closesBefore breaks.row.length breaks.row.sum aspect = false)
    (notAfter :
      frame.closesAfter (breaks.row ++ [aspect]).length
        (breaks.row ++ [aspect]).sum = false) :
    breaks.add frame aspect =
      { breaks with row := breaks.row ++ [aspect] } := by
  unfold Breaks.add
  rw [notBefore]
  dsimp only
  rw [if_neg Bool.false_ne_true, notAfter, if_neg Bool.false_ne_true]

theorem breaksOf_row
    (list : List ℚ) :
    breaksOf frame (breaksOf frame list).row =
      { blocks := [], row := (breaksOf frame list).row } := by
  -- Backwards over the list: the open row grows at its end or starts again.
  induction list using List.reverseRecOn with
  | nil =>
      rfl
  | append_singleton list aspect inductionHypothesis =>
      have isAdd : breaksOf frame (list ++ [aspect]) =
          (breaksOf frame list).add frame aspect :=
        List.foldl_concat ..
      rw [isAdd]
      generalize breaksOf frame list = breaks at inductionHypothesis
      unfold Breaks.add
      dsimp only
      cases before : frame.closesBefore breaks.row.length breaks.row.sum aspect
      · rw [if_neg Bool.false_ne_true]
        cases after : frame.closesAfter (breaks.row ++ [aspect]).length
            (breaks.row ++ [aspect]).sum
        · rw [if_neg Bool.false_ne_true]
          dsimp only
          have again : breaksOf frame (breaks.row ++ [aspect]) =
              (breaksOf frame breaks.row).add frame aspect :=
            List.foldl_concat ..
          rw [again, inductionHypothesis]
          exact Breaks.add_of_open before after
        · rfl
      · rw [if_pos rfl]
        cases after : frame.closesAfter ((breaks.fill frame).row ++
            [aspect]).length ((breaks.fill frame).row ++ [aspect]).sum
        · rw [if_neg Bool.false_ne_true]
          exact @Breaks.add_of_open frame {} aspect rfl after
        · rfl

theorem breaksOf_append
    (first second : List ℚ) :
    breaksOf frame (first ++ second) =
      { blocks :=
          (breaksOf frame first).blocks ++
            (breaksOf frame ((breaksOf frame first).row ++ second)).blocks
        row :=
          (breaksOf frame ((breaksOf frame first).row ++ second)).row } := by
  have again : breaksOf frame ((breaksOf frame first).row ++ second) =
      second.foldl (Breaks.add frame)
        { blocks := [], row := (breaksOf frame first).row } := by
    rw [breaksOf, List.foldl_append]
    exact congrArg (second.foldl (Breaks.add frame)) (breaksOf_row first)
  have later := @Breaks.foldl_before frame (breaksOf frame first).blocks
    { blocks := [], row := (breaksOf frame first).row } second
  dsimp only at later
  rw [List.append_nil] at later
  rw [again, ← later, breaksOf, List.foldl_append]
  rfl

/-- A block has items, and does not get higher by filling its row. -/
structure Block.IsSound
    (frame : Frame)
    (block : Block) : Prop where
  hasItems : block.aspects ≠ []
  bounded : block.height ≤ frame.maxRowHeight

/-- The blocks of breaks are sound and fill their rows. -/
def Breaks.AreSound
    (frame : Frame)
    (breaks : Breaks) : Prop :=
  ∀ block ∈ breaks.blocks, block.IsSound frame ∧ block.stretch = true

theorem Breaks.AreSound.fill
    (sound : breaks.AreSound frame)
    (hasItems : breaks.row ≠ [])
    (bounded : frame.fillHeight breaks.row.sum breaks.row.length ≤
      frame.maxRowHeight) :
    (breaks.fill frame).AreSound frame := by
  intro block member
  rcases List.mem_append.mp member with isEarlier | isNew
  · exact sound block isEarlier
  · cases List.mem_singleton.mp isNew
    exact ⟨⟨hasItems, bounded⟩, rfl⟩

theorem Breaks.AreSound.add
    (ordered : frame.targetRowHeight ≤ frame.maxRowHeight)
    (sound : breaks.AreSound frame)
    (aspect : ℚ) :
    (breaks.add frame aspect).AreSound frame := by
  have closed : Breaks.AreSound frame
      (if frame.closesBefore breaks.row.length breaks.row.sum aspect then
        breaks.fill frame
      else
        breaks) := by
    split
    · rename_i closes
      simp only [Frame.closesBefore, Bool.and_eq_true,
        decide_eq_true_eq] at closes
      exact sound.fill (List.ne_nil_of_length_pos closes.1.1.1) closes.1.2
    · exact sound
  unfold Breaks.add
  dsimp only
  generalize (if frame.closesBefore breaks.row.length breaks.row.sum aspect
    then breaks.fill frame else breaks) = later at closed ⊢
  have extended : Breaks.AreSound frame
      { later with row := later.row ++ [aspect] } := closed
  split
  · rename_i closes
    exact extended.fill (by simp)
      ((of_decide_eq_true closes).trans ordered)
  · exact extended

theorem breaksOf_sound
    (ordered : frame.targetRowHeight ≤ frame.maxRowHeight)
    (list : List ℚ) :
    (breaksOf frame list).AreSound frame := by
  have run : ∀ breaks : Breaks, breaks.AreSound frame →
      (list.foldl (Breaks.add frame) breaks).AreSound frame := by
    intro breaks sound
    induction list generalizing breaks with
    | nil =>
        exact sound
    | cons aspect list inductionHypothesis =>
        exact inductionHypothesis _ (sound.add ordered aspect)
  exact run {} (List.forall_mem_nil _)

theorem Breaks.closing_sound
    (ordered : frame.targetRowHeight ≤ frame.maxRowHeight)
    (breaks : Breaks) :
    ∀ block ∈ breaks.closing frame, block.IsSound frame := by
  intro block member
  unfold Breaks.closing at member
  dsimp only at member
  split at member
  · exact nomatch member
  · rename_i hasItems
    split at member
    · rename_i fits
      cases List.mem_singleton.mp member
      exact ⟨hasItems, fits⟩
    · cases List.mem_singleton.mp member
      exact ⟨hasItems, (min_le_left _ _).trans ordered⟩

theorem Breaks.itemCount_closing
    (breaks : Breaks) :
    itemCount (breaks.closing frame) = breaks.row.length := by
  unfold Breaks.closing
  dsimp only
  split
  · rename_i isEmpty
    rw [isEmpty]
    rfl
  · split <;> exact Nat.add_zero _

theorem breaksOf_list
    (frame : Frame)
    (list : List ℚ) :
    list = (breaksOf frame list).blocks.flatMap Block.aspects ++
      (breaksOf frame list).row := by
  have holds := (holds_breaksOf frame list).list
  rwa [List.append_nil] at holds

end Breaks

/-- What a row is moved by: to later items, and down. -/
def JustifiedRow.moved
    (index : ℕ)
    (distance : ℚ)
    (row : JustifiedRow) : JustifiedRow :=
  { row with
    top := row.top + distance
    tiles := row.tiles.map fun tile =>
      { tile with index := tile.index + index } }

/-- How high some rows are, with a gap below each. -/
def flowHeight
    (gap : ℚ)
    (rows : List JustifiedRow) : ℚ :=
  (rows.map fun row => (row.height : ℚ) + gap).sum

section Rows

variable {frame : Frame}

theorem tilesFrom_moved
    (index moved : ℕ)
    (rounded : ℤ)
    (aspects : List ℚ) :
    tilesFrom (index + moved) rounded aspects =
      (tilesFrom index rounded aspects).map fun tile =>
        { tile with index := tile.index + moved } := by
  unfold tilesFrom
  induction aspects generalizing index with
  | nil =>
      rfl
  | cons aspect aspects inductionHypothesis =>
      have later := inductionHypothesis (index + 1)
      rw [Nat.add_right_comm] at later
      rw [List.zipIdx_cons, List.zipIdx_cons, List.map_cons, List.map_cons,
        List.map_cons, later]

theorem usedWidth_moved
    (gap : ℚ)
    (moved : ℕ)
    (tiles : List JustifiedTile) :
    usedWidth gap (tiles.map fun tile =>
      { tile with index := tile.index + moved }) = usedWidth gap tiles := by
  rw [usedWidth, List.map_map, List.length_map]
  rfl

theorem stretchLast_moved
    (gap containerWidth : ℚ)
    (moved : ℕ)
    (tiles : List JustifiedTile) :
    stretchLast gap containerWidth (tiles.map fun tile =>
      { tile with index := tile.index + moved }) =
      (stretchLast gap containerWidth tiles).map fun tile =>
        { tile with index := tile.index + moved } := by
  unfold stretchLast
  rw [List.getLast?_map, usedWidth_moved]
  cases tiles.getLast? with
  | none =>
      rfl
  | some last =>
      rw [Option.map_some]
      dsimp only
      rw [List.map_append, List.map_dropLast]
      rfl

theorem Block.row_moved
    (block : Block)
    (index moved : ℕ)
    (top distance : ℚ) :
    block.row frame (index + moved) (top + distance) =
      (block.row frame index top).moved moved distance := by
  unfold Block.row JustifiedRow.moved
  dsimp only
  rw [tilesFrom_moved]
  cases block.stretch with
  | false =>
      rw [if_neg Bool.false_ne_true, if_neg Bool.false_ne_true,
        usedWidth_moved]
  | true =>
      rw [if_pos rfl, if_pos rfl, stretchLast_moved, usedWidth_moved]

theorem rowsFrom_moved
    (blocks : List Block)
    (index moved : ℕ)
    (top distance : ℚ) :
    rowsFrom frame (index + moved) (top + distance) blocks =
      (rowsFrom frame index top blocks).map
        (JustifiedRow.moved moved distance) := by
  induction blocks generalizing index top with
  | nil =>
      rfl
  | cons block blocks inductionHypothesis =>
      have later := inductionHypothesis (index + block.aspects.length)
        (top + (roundedHeight block.height + frame.gap))
      rw [Nat.add_right_comm, add_right_comm top] at later
      rw [rowsFrom, rowsFrom, List.map_cons, Block.row_moved, later]

theorem flowHeight_rowsFrom
    (blocks : List Block)
    (index : ℕ)
    (top : ℚ) :
    flowHeight frame.gap (rowsFrom frame index top blocks) =
      totalHeight frame blocks := by
  induction blocks generalizing index top with
  | nil =>
      rfl
  | cons block blocks inductionHypothesis =>
      have later := inductionHypothesis (index + block.aspects.length)
        (top + (roundedHeight block.height + frame.gap))
      rw [flowHeight] at later
      rw [rowsFrom, flowHeight, List.map_cons, List.sum_cons, later]
      rfl

theorem stretchLast_indexes
    (gap containerWidth : ℚ)
    (tiles : List JustifiedTile) :
    (stretchLast gap containerWidth tiles).map JustifiedTile.index =
      tiles.map JustifiedTile.index := by
  unfold stretchLast
  cases isLast : tiles.getLast? with
  | none =>
      rfl
  | some last =>
      obtain ⟨others, rfl⟩ := List.getLast?_eq_some_iff.mp isLast
      rw [List.dropLast_concat, List.map_append, List.map_append]
      rfl

theorem Block.row_indexes
    (block : Block)
    (index : ℕ)
    (top : ℚ) :
    (block.row frame index top).tiles.map JustifiedTile.index =
      List.range' index block.aspects.length := by
  have indexes : (tilesFrom index (roundedHeight block.height)
      block.aspects).map JustifiedTile.index =
        List.range' index block.aspects.length := by
    rw [tilesFrom, List.map_map, ← List.zipIdx_map_snd]
    rfl
  unfold Block.row
  dsimp only
  split
  · rw [stretchLast_indexes, indexes]
  · exact indexes

theorem rowsFrom_indexes
    (blocks : List Block)
    (index : ℕ)
    (top : ℚ) :
    (rowsFrom frame index top blocks).flatMap
        (fun row => row.tiles.map JustifiedTile.index) =
      List.range' index (itemCount blocks) := by
  induction blocks generalizing index top with
  | nil =>
      rfl
  | cons block blocks inductionHypothesis =>
      rw [rowsFrom, List.flatMap_cons, Block.row_indexes, inductionHypothesis,
        itemCount, itemCount, List.map_cons, List.sum_cons,
        List.range'_append_1]

theorem forall_rowsFrom
    {holds : JustifiedRow → Prop}
    {blocks : List Block}
    (each : ∀ block ∈ blocks, ∀ index top, holds (block.row frame index top))
    (index : ℕ)
    (top : ℚ) :
    ∀ row ∈ rowsFrom frame index top blocks, holds row := by
  induction blocks generalizing index top with
  | nil =>
      exact List.forall_mem_nil _
  | cons block blocks inductionHypothesis =>
      refine List.forall_mem_cons.mpr
        ⟨each block List.mem_cons_self index top, ?_⟩
      exact inductionHypothesis
        (fun other member => each other (List.mem_cons_of_mem _ member)) _ _

theorem exists_row
    {blocks : List Block}
    {block : Block}
    (member : block ∈ blocks)
    (index : ℕ)
    (top : ℚ) :
    ∃ place height, block.row frame place height ∈
      rowsFrom frame index top blocks := by
  induction blocks generalizing index top with
  | nil =>
      exact nomatch member
  | cons first blocks inductionHypothesis =>
      rcases List.mem_cons.mp member with rfl | isLater
      · exact ⟨index, top, List.mem_cons_self⟩
      · obtain ⟨place, height, isRow⟩ := inductionHypothesis isLater
          (index + first.aspects.length)
          (top + (roundedHeight first.height + frame.gap))
        exact ⟨place, height, List.mem_cons_of_mem _ isRow⟩

end Rows

/-- A layout in whole pixels, with room for a row and gaps that are narrow. -/
structure Layout where
  containerWidth : ℤ
  targetRowHeight : ℤ
  maxRowHeight : ℤ
  gap : ℤ
  ordered : targetRowHeight ≤ maxRowHeight
  wide : targetRowHeight ≤ containerWidth
  noOverlap : 0 ≤ gap
  narrow : 4 * (gap + 1) ≤ targetRowHeight

namespace Layout

variable (layout : Layout)

/-- The options of a layout. -/
def options : JustifiedRowsOptions where
  containerWidth := some layout.containerWidth
  targetRowHeight := some layout.targetRowHeight
  gap := some layout.gap
  maxRowHeight := some layout.maxRowHeight

/-- The numbers of a layout. -/
def frame : Frame where
  containerWidth := layout.containerWidth
  targetRowHeight := layout.targetRowHeight
  gap := layout.gap
  maxRowHeight := layout.maxRowHeight

/-- The breaks of the rows of some ratios. -/
def breaks (ratios : List (Option ℚ)) : Breaks :=
  breaksOf layout.frame (ratios.map clampAspectRatio)

/-- A row is as wide as its container, and no higher than the maximum. -/
structure IsFull (row : JustifiedRow) : Prop where
  hasTiles : row.tiles ≠ []
  sums : row.width = usedWidth layout.gap row.tiles
  fills : row.width = layout.containerWidth
  positive : ∀ tile ∈ row.tiles, 0 < tile.width
  level : ∀ tile ∈ row.tiles, tile.height = row.height
  bounded : row.height ≤ layout.maxRowHeight

/-- The whole widths of all tiles of a block but its last one leave a pixel. -/
def LeavesPixel (block : Block) : Prop :=
  (block.aspects.dropLast.map (tileWidth (roundedHeight block.height))).sum +
    layout.gap * ((block.aspects.length : ℤ) - 1) < layout.containerWidth

/-- Every row that is stretched leaves its last tile a pixel. -/
def LeavesPixels (ratios : List (Option ℚ)) : Prop :=
  ∀ block ∈ (layout.breaks ratios).blocks ++
      (layout.breaks ratios).closing layout.frame,
    block.stretch = true → layout.LeavesPixel block

/-- What is to hold of the flow of some ratios. -/
structure FlowLaws (ratios : List (Option ℚ)) : Prop where
  /-- The rows have every item once, in order. -/
  complete :
    (justifiedFlow ratios layout.options true).rows.flatMap
        (fun row => row.tiles.map JustifiedTile.index) =
      List.range ratios.length
  /-- A flow that is left open has the items before its unfinished row. -/
  begun :
    (justifiedFlow ratios layout.options false).rows.flatMap
        (fun row => row.tiles.map JustifiedTile.index) =
      List.range (justifiedFlow ratios layout.options false).tailStart
  /-- Every row that is not the unfinished one is full. -/
  full :
    ∀ row ∈ (justifiedFlow ratios layout.options false).rows,
      layout.IsFull row
  /-- The unfinished row is one more row, and full unless filling the width
  would push it past the maximum. -/
  last :
    let begun := justifiedFlow ratios layout.options false
    let tail := (ratios.map clampAspectRatio).drop begun.tailStart
    ∃ rows,
      (justifiedFlow ratios layout.options true).rows = begun.rows ++ rows ∧
      rows.length = (if tail = [] then 0 else 1) ∧
      (layout.frame.fillHeight tail.sum tail.length ≤ layout.maxRowHeight →
        ∀ row ∈ rows, layout.IsFull row)
  /-- A flow goes on with the items of its unfinished row. -/
  continues :
    ∀ first second, first ++ second = ratios → ∀ closeTail,
      let begun := justifiedFlow first layout.options false
      (justifiedFlow ratios layout.options closeTail).rows =
        begun.rows ++
          (justifiedFlow (first.drop begun.tailStart ++ second) layout.options
              closeTail).rows.map
            (JustifiedRow.moved begun.tailStart
              (flowHeight layout.gap begun.rows))

variable {layout}

theorem target_pos : 0 < layout.targetRowHeight := by
  have narrow := layout.narrow
  have noOverlap := layout.noOverlap
  omega

theorem options_frame :
    layout.options.frame layout.containerWidth = layout.frame := by
  have target : (0 : ℚ) < layout.targetRowHeight :=
    Int.cast_pos.mpr layout.target_pos
  have ordered : (layout.targetRowHeight : ℚ) ≤ layout.maxRowHeight :=
    Int.cast_le.mpr layout.ordered
  have maximum : (0 : ℚ) < layout.maxRowHeight := target.trans_le ordered
  have noOverlap : (0 : ℚ) ≤ layout.gap := Int.cast_nonneg layout.noOverlap
  simp [JustifiedRowsOptions.frame, options, frame, positive, nonNegative,
    target, maximum, noOverlap, ordered]

theorem flow_eq
    (ratios : List (Option ℚ))
    (closeTail : Bool) :
    justifiedFlow ratios layout.options closeTail =
      { rows :=
          rowsFrom layout.frame 0 0
            ((layout.breaks ratios).blocks ++
              if closeTail then (layout.breaks ratios).closing layout.frame
              else [])
        tailStart := itemCount (layout.breaks ratios).blocks } := by
  have isPositive : (0 : ℚ) < layout.containerWidth :=
    Int.cast_pos.mpr (layout.target_pos.trans_le layout.wide)
  have flow := @justifiedFlow_eq ratios layout.options layout.containerWidth
    rfl isPositive closeTail
  dsimp only at flow
  rw [options_frame] at flow
  exact flow

theorem one_le_tileWidth
    (rounded : ℤ)
    (ratio : ℚ) :
    1 ≤ tileWidth rounded ratio :=
  le_max_left _ _

theorem roundedHeight_le
    {height : ℚ}
    (bounded : height ≤ layout.maxRowHeight) :
    roundedHeight height ≤ layout.maxRowHeight :=
  max_le (layout.target_pos.trans_le layout.ordered) (nearest_le bounded)

theorem widths_tilesFrom
    (index : ℕ)
    (rounded : ℤ)
    (aspects : List ℚ) :
    (tilesFrom index rounded aspects).map JustifiedTile.width =
      aspects.map (tileWidth rounded) := by
  have plain : (aspects.zipIdx index).map Prod.fst = aspects :=
    List.zipIdx_map_fst ..
  conv_rhs => rw [← plain, List.map_map]
  rw [tilesFrom, List.map_map]
  rfl

theorem height_tilesFrom
    {index : ℕ}
    {rounded : ℤ}
    {aspects : List ℚ}
    {tile : JustifiedTile}
    (member : tile ∈ tilesFrom index rounded aspects) :
    tile.height = rounded ∧ 0 < tile.width := by
  obtain ⟨entry, -, rfl⟩ := List.mem_map.mp member
  exact ⟨rfl, one_le_tileWidth _ _⟩

theorem tilesFrom_concat
    (index : ℕ)
    (rounded : ℤ)
    (others : List ℚ)
    (last : ℚ) :
    tilesFrom index rounded (others ++ [last]) =
      tilesFrom index rounded others ++
        [{ index := index + others.length
           width := tileWidth rounded last
           height := rounded }] := by
  rw [tilesFrom, List.zipIdx_append, List.map_append]
  rfl

theorem usedWidth_concat
    (tiles : List JustifiedTile)
    (last : JustifiedTile) :
    usedWidth layout.gap (tiles ++ [last]) =
      ((tiles.map JustifiedTile.width).sum + last.width +
        layout.gap * tiles.length : ℤ) := by
  rw [usedWidth, List.map_append, List.sum_append, List.map_singleton,
    List.sum_singleton, List.length_append, List.length_singleton]
  push_cast
  ring

theorem stretchLast_concat
    (tiles : List JustifiedTile)
    (last : JustifiedTile) :
    stretchLast layout.gap layout.containerWidth (tiles ++ [last]) =
      tiles ++ [{ last with
        width :=
          max 1 (layout.containerWidth -
            ((tiles.map JustifiedTile.width).sum +
              layout.gap * tiles.length)) }] := by
  have slack : nearest ((layout.containerWidth : ℚ) -
      usedWidth layout.gap (tiles ++ [last])) =
        layout.containerWidth - ((tiles.map JustifiedTile.width).sum +
          last.width + layout.gap * tiles.length) := by
    rw [usedWidth_concat, ← Int.cast_sub, nearest_intCast]
  unfold stretchLast
  rw [List.getLast?_concat]
  dsimp only
  rw [slack, List.dropLast_concat]
  congr 4
  ring

/-- A row that is stretched is full exactly when its last tile has a pixel. -/
theorem isFull_row_iff
    {block : Block}
    (sound : block.IsSound layout.frame)
    (stretched : block.stretch = true)
    (index : ℕ)
    (top : ℚ) :
    layout.IsFull (block.row layout.frame index top) ↔
      layout.LeavesPixel block := by
  obtain ⟨others, last, isAspects⟩ :=
    (List.eq_nil_or_concat' block.aspects).resolve_left sound.hasItems
  obtain ⟨aspects, height, stretch⟩ := block
  dsimp only at isAspects stretched
  subst isAspects stretched
  generalize isUsed : (others.map (tileWidth (roundedHeight height))).sum +
    layout.gap * others.length = used
  have widths := widths_tilesFrom index (roundedHeight height) others
  have count : (tilesFrom index (roundedHeight height) others).length =
      others.length := by
    rw [tilesFrom, List.length_map, List.length_zipIdx]
  have tiles : (Block.row layout.frame index top
      ⟨others ++ [last], height, true⟩).tiles =
        tilesFrom index (roundedHeight height) others ++
          [{ index := index + others.length
             width := max 1 (layout.containerWidth - used)
             height := roundedHeight height }] := by
    change stretchLast layout.gap layout.containerWidth
      (tilesFrom index (roundedHeight height) (others ++ [last])) = _
    rw [tilesFrom_concat, stretchLast_concat, widths, count, isUsed]
  have width : (Block.row layout.frame index top
      ⟨others ++ [last], height, true⟩).width =
        (used + max 1 (layout.containerWidth - used) : ℤ) := by
    change usedWidth layout.gap (Block.row layout.frame index top
      ⟨others ++ [last], height, true⟩).tiles = _
    rw [tiles, usedWidth_concat, widths, count, ← isUsed]
    congr 1
    ring
  have leaves : layout.LeavesPixel ⟨others ++ [last], height, true⟩ ↔
      used < layout.containerWidth := by
    rw [LeavesPixel, List.dropLast_concat, List.length_append,
      List.length_singleton, Nat.cast_add, Nat.cast_one, add_sub_cancel_right,
      isUsed]
  rw [leaves]
  constructor
  · intro full
    have fills := full.fills
    rw [width, Int.cast_inj] at fills
    have pixel := le_max_left 1 (layout.containerWidth - used)
    omega
  · intro hasPixel
    have member : ∀ tile ∈ (Block.row layout.frame index top
        ⟨others ++ [last], height, true⟩).tiles,
          tile.height = roundedHeight height ∧ 0 < tile.width := by
      rw [tiles]
      intro tile isTile
      rcases List.mem_append.mp isTile with isOther | isLast
      · exact height_tilesFrom isOther
      · cases List.mem_singleton.mp isLast
        exact ⟨rfl, lt_max_of_lt_left Int.one_pos⟩
    refine ⟨?_, rfl, ?_, fun tile isTile => (member tile isTile).2,
      fun tile isTile => (member tile isTile).1,
      roundedHeight_le sound.bounded⟩
    · rw [tiles]
      exact List.append_ne_nil_of_right_ne_nil _ (List.cons_ne_nil _ _)
    · rw [width, Int.cast_inj]
      omega

variable (layout) (ratios : List (Option ℚ))

theorem list_eq :
    ratios.map clampAspectRatio =
      (layout.breaks ratios).blocks.flatMap Block.aspects ++
        (layout.breaks ratios).row :=
  breaksOf_list _ _

theorem drop_eq_row :
    (ratios.map clampAspectRatio).drop
        (itemCount (layout.breaks ratios).blocks) =
      (layout.breaks ratios).row := by
  conv_lhs => rw [layout.list_eq ratios, ← length_flatMap_aspects]
  exact List.drop_left

theorem blocks_sound :
    (layout.breaks ratios).AreSound layout.frame :=
  breaksOf_sound (Int.cast_le.mpr layout.ordered) _

theorem flow_complete :
    (justifiedFlow ratios layout.options true).rows.flatMap
        (fun row => row.tiles.map JustifiedTile.index) =
      List.range ratios.length := by
  have count : itemCount (layout.breaks ratios).blocks +
      (layout.breaks ratios).row.length = ratios.length := by
    rw [← length_flatMap_aspects, ← List.length_append, ← layout.list_eq,
      List.length_map]
  rw [flow_eq, rowsFrom_indexes, itemCount_append, if_pos rfl,
    Breaks.itemCount_closing, count, List.range_eq_range']

theorem flow_begun :
    (justifiedFlow ratios layout.options false).rows.flatMap
        (fun row => row.tiles.map JustifiedTile.index) =
      List.range (justifiedFlow ratios layout.options false).tailStart := by
  rw [flow_eq, rowsFrom_indexes, if_neg Bool.false_ne_true, List.append_nil,
    List.range_eq_range']

theorem breaks_append
    (first second : List (Option ℚ)) :
    layout.breaks (first ++ second) =
      { blocks :=
          (layout.breaks first).blocks ++
            (layout.breaks (first.drop
              (itemCount (layout.breaks first).blocks) ++ second)).blocks
        row :=
          (layout.breaks (first.drop
            (itemCount (layout.breaks first).blocks) ++ second)).row } := by
  have tail : (first.drop (itemCount (layout.breaks first).blocks) ++
      second).map clampAspectRatio =
        (layout.breaks first).row ++ second.map clampAspectRatio := by
    rw [List.map_append, List.map_drop, drop_eq_row]
  have whole := @breaksOf_append layout.frame (first.map clampAspectRatio)
    (second.map clampAspectRatio)
  rw [← List.map_append] at whole
  rw [breaks, whole]
  unfold breaks at tail ⊢
  rw [tail]

theorem flow_continues
    (first second : List (Option ℚ))
    (closeTail : Bool) :
    let begun := justifiedFlow first layout.options false
    (justifiedFlow (first ++ second) layout.options closeTail).rows =
      begun.rows ++
        (justifiedFlow (first.drop begun.tailStart ++ second) layout.options
            closeTail).rows.map
          (JustifiedRow.moved begun.tailStart
            (flowHeight layout.gap begun.rows)) := by
  intro begun
  have isBegun : begun =
      { rows := rowsFrom layout.frame 0 0 (layout.breaks first).blocks
        tailStart := itemCount (layout.breaks first).blocks } := by
    change justifiedFlow first layout.options false = _
    rw [flow_eq, if_neg Bool.false_ne_true, List.append_nil]
  have height : flowHeight layout.gap begun.rows =
      totalHeight layout.frame (layout.breaks first).blocks := by
    rw [isBegun]
    exact @flowHeight_rowsFrom layout.frame _ 0 0
  rw [height, isBegun, flow_eq, flow_eq, layout.breaks_append,
    List.append_assoc, rowsFrom_append, ← rowsFrom_moved]
  rfl

variable {layout ratios}

theorem LeavesPixels.isFull
    (leaves : layout.LeavesPixels ratios)
    {blocks : List Block}
    (among : ∀ block ∈ blocks, block ∈ (layout.breaks ratios).blocks ++
      (layout.breaks ratios).closing layout.frame)
    (stretched : ∀ block ∈ blocks, block.stretch = true)
    (index : ℕ)
    (top : ℚ) :
    ∀ row ∈ rowsFrom layout.frame index top blocks, layout.IsFull row := by
  refine forall_rowsFrom (fun block member index top => ?_) index top
  have sound : block.IsSound layout.frame := by
    rcases List.mem_append.mp (among block member) with isBlock | isLast
    · exact (layout.blocks_sound ratios block isBlock).1
    · exact Breaks.closing_sound (Int.cast_le.mpr layout.ordered) _ block isLast
  exact (isFull_row_iff sound (stretched block member) index top).mpr
    (leaves block (among block member) (stretched block member))

theorem closing_stretched
    {breaks : Breaks}
    (fits : layout.frame.fillHeight breaks.row.sum breaks.row.length ≤
      layout.frame.maxRowHeight) :
    ∀ block ∈ breaks.closing layout.frame, block.stretch = true := by
  intro block member
  unfold Breaks.closing at member
  dsimp only at member
  rw [if_pos fits] at member
  split at member
  · exact nomatch member
  · cases List.mem_singleton.mp member
    rfl

theorem fits_of_closing
    {breaks : Breaks}
    {block : Block}
    (member : block ∈ breaks.closing layout.frame)
    (stretched : block.stretch = true) :
    layout.frame.fillHeight breaks.row.sum breaks.row.length ≤
      layout.frame.maxRowHeight := by
  unfold Breaks.closing at member
  dsimp only at member
  split at member
  · exact nomatch member
  · split at member
    · assumption
    · cases List.mem_singleton.mp member
      exact absurd stretched Bool.false_ne_true

theorem length_closing
    (breaks : Breaks)
    (index : ℕ)
    (top : ℚ) :
    (rowsFrom layout.frame index top (breaks.closing layout.frame)).length =
      if breaks.row = [] then 0 else 1 := by
  unfold Breaks.closing
  dsimp only
  split
  · rfl
  · split <;> rfl

/-- The laws of a flow hold exactly where stretched rows leave a pixel. -/
theorem flowLaws_iff
    (layout : Layout)
    (ratios : List (Option ℚ)) :
    layout.FlowLaws ratios ↔ layout.LeavesPixels ratios := by
  constructor
  · intro laws block member stretched
    rcases List.mem_append.mp member with isBlock | isLast
    · obtain ⟨index, top, isRow⟩ := exists_row isBlock 0 0
      have full := laws.full
      rw [flow_eq, if_neg Bool.false_ne_true, List.append_nil] at full
      exact (isFull_row_iff (layout.blocks_sound ratios block isBlock).1
        stretched index top).mp (full _ isRow)
    · obtain ⟨rows, isRows, -, full⟩ := laws.last
      rw [flow_eq, flow_eq, if_pos rfl, if_neg Bool.false_ne_true,
        List.append_nil, rowsFrom_append] at isRows
      rw [flow_eq, layout.drop_eq_row] at full
      rw [← List.append_cancel_left isRows] at full
      obtain ⟨index, top, isRow⟩ := exists_row isLast
        (0 + itemCount (layout.breaks ratios).blocks)
        (0 + totalHeight layout.frame (layout.breaks ratios).blocks)
      exact (isFull_row_iff
        (Breaks.closing_sound (Int.cast_le.mpr layout.ordered) _ block isLast)
        stretched index top).mp
          (full (fits_of_closing isLast stretched) _ isRow)
  · intro leaves
    refine ⟨layout.flow_complete ratios, layout.flow_begun ratios, ?_, ?_, ?_⟩
    · rw [flow_eq, if_neg Bool.false_ne_true, List.append_nil]
      exact leaves.isFull (fun _ => List.mem_append_left _)
        (fun block isBlock => (layout.blocks_sound ratios block isBlock).2) 0 0
    · dsimp only
      rw [flow_eq, flow_eq, if_pos rfl, if_neg Bool.false_ne_true,
        List.append_nil, layout.drop_eq_row, rowsFrom_append]
      refine ⟨_, rfl, length_closing _ _ _, fun fits => ?_⟩
      exact leaves.isFull (fun _ => List.mem_append_right _)
        (closing_stretched fits) _ _
    · rintro first second rfl closeTail
      exact layout.flow_continues first second closeTail

/-- Sixty narrow pictures in a row of 1530 pixels. -/
def narrowLayout : Layout where
  containerWidth := 1530
  targetRowHeight := 102
  maxRowHeight := 102
  gap := 0
  ordered := by decide
  wide := by decide
  noOverlap := by decide
  narrow := by decide

/-- The roundings of narrow tiles make their row wider than its container. -/
theorem narrow_row_overflows :
    ¬∀ (layout : Layout) (ratios : List (Option ℚ)),
        layout.FlowLaws ratios := by
  intro always
  have full := (always narrowLayout (List.replicate 60 (some (1 / 4)))).full
  have wider : ∃ row ∈ (justifiedFlow (List.replicate 60 (some (1 / 4)))
      narrowLayout.options false).rows, row.width = 1535 := by
    decide +kernel
  obtain ⟨row, member, isWider⟩ := wider
  have fills := (full row member).fills
  rw [isWider] at fills
  exact absurd fills (by decide +kernel)

end Layout

end Frameleaf.JustifiedRows
