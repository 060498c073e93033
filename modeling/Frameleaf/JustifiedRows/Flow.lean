import Frameleaf.Lib.Rounding

namespace Frameleaf.JustifiedRows

open Rounding

/-!
# Justified rows

A greedy loop fills rows with pictures of given aspect ratios.  Breaks are
decided by exact heights; a row that is closed gets a whole height, and each of
its tiles a whole width.
-/

/-- The ratio of a picture without one. -/
def DEFAULT_ASPECT : ℚ :=
  3 / 2

/-- The smallest ratio of a tile. -/
def MIN_ASPECT : ℚ :=
  1 / 4

/-- The largest ratio of a tile. -/
def MAX_ASPECT : ℚ :=
  6

/-- A positive number, or a fallback for what is none. -/
def positive
    (value : Option ℚ)
    (fallback : ℚ) : ℚ :=
  match value with
  | some number =>
      if 0 < number then number else fallback
  | none =>
      fallback

/-- A number that is not negative, or a fallback for what is none. -/
def nonNegative
    (value : Option ℚ)
    (fallback : ℚ) : ℚ :=
  match value with
  | some number =>
      if 0 ≤ number then number else fallback
  | none =>
      fallback

/-- Width by height of an item; none stands for what is no finite number. -/
def clampAspectRatio (value : Option ℚ) : ℚ :=
  match value with
  | some ratio =>
      if ratio ≤ 0 then DEFAULT_ASPECT
      else min (max ratio MIN_ASPECT) MAX_ASPECT
  | none =>
      DEFAULT_ASPECT

/-- A tile of a row. -/
structure JustifiedTile where
  index : ℕ
  width : ℤ
  height : ℤ
  deriving Repr, DecidableEq

/-- A row of tiles. -/
structure JustifiedRow where
  top : ℚ
  height : ℤ
  width : ℚ
  tiles : List JustifiedTile
  deriving Repr, DecidableEq

/-- The options of a layout; none stands for what is no finite number. -/
structure JustifiedRowsOptions where
  containerWidth : Option ℚ
  targetRowHeight : Option ℚ := none
  gap : Option ℚ := none
  maxRowHeight : Option ℚ := none
  deriving Repr, DecidableEq

/-- The whole height of a row. -/
def roundedHeight (height : ℚ) : ℤ :=
  max 1 (nearest height)

/-- The whole width of a tile. -/
def tileWidth
    (rounded : ℤ)
    (ratio : ℚ) : ℤ :=
  max 1 (nearest (ratio * rounded))

/-- The width of tiles with gaps between them. -/
def usedWidth
    (gap : ℚ)
    (tiles : List JustifiedTile) : ℚ :=
  ((tiles.map JustifiedTile.width).sum : ℤ) + gap * (tiles.length - 1)

/-- Tiles whose last one takes the slack of its row. -/
def stretchLast
    (gap containerWidth : ℚ)
    (tiles : List JustifiedTile) : List JustifiedTile :=
  match tiles.getLast? with
  | some last =>
      tiles.dropLast ++
        [{ last with
            width :=
              max 1 (last.width +
                nearest (containerWidth - usedWidth gap tiles)) }]
  | none =>
      tiles

/-- The row of some items at a height. -/
def layoutRow
    (indexes : List ℕ)
    (ratios : List ℚ)
    (height gap containerWidth : ℚ)
    (stretch : Bool)
    (top : ℚ) : JustifiedRow :=
  let rounded := roundedHeight height
  let tiles := indexes.map fun index =>
    { index := index
      width := tileWidth rounded (ratios.getD index 0)
      height := rounded : JustifiedTile }
  let tiles := if stretch then stretchLast gap containerWidth tiles else tiles
  { top := top
    height := rounded
    width := usedWidth gap tiles
    tiles := tiles }

/-- The numbers of a layout as they are read from its options. -/
structure Frame where
  containerWidth : ℚ
  targetRowHeight : ℚ
  gap : ℚ
  maxRowHeight : ℚ
  deriving Repr, DecidableEq

/-- The numbers of options with a width. -/
def JustifiedRowsOptions.frame
    (options : JustifiedRowsOptions)
    (containerWidth : ℚ) : Frame :=
  let targetRowHeight := positive options.targetRowHeight 200
  { containerWidth := containerWidth
    targetRowHeight := targetRowHeight
    gap := nonNegative options.gap 4
    maxRowHeight :=
      max targetRowHeight
        (positive options.maxRowHeight (targetRowHeight * (3 / 2))) }

namespace Frame

variable (frame : Frame)

/-- The height at which some tiles fill the width. -/
def fillHeight
    (aspectSum : ℚ)
    (count : ℕ) : ℚ :=
  max 1 (frame.containerWidth - frame.gap * ((count : ℚ) - 1)) / aspectSum

/-- Whether a row is closed before an item. -/
def closesBefore
    (count : ℕ)
    (aspectSum aspect : ℚ) : Bool :=
  let withItem := frame.fillHeight (aspectSum + aspect) (count + 1)
  let without := frame.fillHeight aspectSum count
  decide (0 < count) && decide (withItem < frame.targetRowHeight) &&
    decide (without ≤ frame.maxRowHeight) &&
      decide (|without - frame.targetRowHeight| <
        |withItem - frame.targetRowHeight|)

/-- Whether a row is closed behind its last item. -/
def closesAfter
    (count : ℕ)
    (aspectSum : ℚ) : Bool :=
  decide (frame.fillHeight aspectSum count ≤ frame.targetRowHeight)

end Frame

/-- What the loop over the items keeps. -/
structure Filling where
  rows : List JustifiedRow := []
  row : List ℕ := []
  aspectSum : ℚ := 0
  top : ℚ := 0
  deriving Repr, DecidableEq

namespace Filling

variable (frame : Frame) (list : List ℚ)

/-- Lay the open row out and begin another. -/
def push
    (height : ℚ)
    (stretch : Bool)
    (filling : Filling) : Filling :=
  let laid := layoutRow filling.row list height frame.gap frame.containerWidth
    stretch filling.top
  { rows := filling.rows ++ [laid]
    top := filling.top + (laid.height + frame.gap) }

/-- Push the open row at the height that fills the width. -/
def fill (filling : Filling) : Filling :=
  filling.push frame list
    (frame.fillHeight filling.aspectSum filling.row.length) true

/-- Add an item to the open row, which may be closed before or behind it. -/
def add
    (filling : Filling)
    (entry : ℚ × ℕ) : Filling :=
  let filling :=
    if frame.closesBefore filling.row.length filling.aspectSum entry.1 then
      filling.fill frame list
    else
      filling
  let filling :=
    { filling with
      row := filling.row ++ [entry.2]
      aspectSum := filling.aspectSum + entry.1 }
  if frame.closesAfter filling.row.length filling.aspectSum then
    filling.fill frame list
  else
    filling

/-- Lay the open row out as the last one. -/
def close (filling : Filling) : Filling :=
  let fill := frame.fillHeight filling.aspectSum filling.row.length
  let stretch := decide (fill ≤ frame.maxRowHeight)
  filling.push frame list
    (if stretch then fill else min frame.targetRowHeight frame.maxRowHeight)
    stretch

end Filling

/-- The rows of a flow, and the first item of its unfinished row. -/
structure JustifiedFlow where
  rows : List JustifiedRow
  tailStart : ℕ
  deriving Repr, DecidableEq

/-- Fill rows greedily, and lay the unfinished row out if it is to be closed. -/
def justifiedFlow
    (ratios : List (Option ℚ))
    (options : JustifiedRowsOptions)
    (closeTail : Bool) : JustifiedFlow :=
  let list := ratios.map clampAspectRatio
  match options.containerWidth with
  | none =>
      { rows := [], tailStart := list.length }
  | some containerWidth =>
      if list.length = 0 ∨ containerWidth ≤ 0 then
        { rows := [], tailStart := list.length }
      else
        let frame := options.frame containerWidth
        let filling := list.zipIdx.foldl (Filling.add frame list) {}
        { rows :=
            if closeTail && !filling.row.isEmpty then
              (filling.close frame list).rows
            else
              filling.rows
          tailStart := filling.row.headD list.length }

end Frameleaf.JustifiedRows
