import Mathlib.Algebra.BigOperators.Group.List.Basic
import Mathlib.Algebra.Order.Field.Rat
import Mathlib.Tactic.Linarith
import Mathlib.Tactic.Positivity
import Mathlib.Tactic.Ring

namespace Frameleaf.JustifiedLayout

/-!
# The justified layout of boxes

Boxes of given aspect ratios are laid out in rows in one pass.  A row is closed
when the next box would leave it farther from the target width, and its boxes
are then scaled to fill the width, up to a maximum height.
-/

/-- The options that a layout is asked for. -/
structure LayoutOptions where
  rowHeight : ℚ
  rowWidth : ℚ
  spacing : ℚ
  tolerance : ℚ
  deriving Repr, DecidableEq

namespace LayoutOptions

variable (options : LayoutOptions)

/-- The smallest height that a row is to have. -/
def minRowHeight : ℚ :=
  max (options.rowHeight * (1 - options.tolerance)) 0

/-- The largest height of a row that fills the width. -/
def maxRowHeight : ℚ :=
  options.rowHeight * (1 + options.tolerance)

/-- The ratio of a row at the target height. -/
def targetRowAspectRatio : ℚ :=
  options.rowWidth / options.rowHeight

/-- The ratio of the space between two boxes at the target height. -/
def spacingAspectRatio : ℚ :=
  options.spacing / options.rowHeight

/-- A ratio is more than that of a row at the smallest height; where that
height is zero there is no such ratio. -/
def exceedsMax (ratio : ℚ) : Bool :=
  decide (0 < options.minRowHeight) &&
    decide (options.rowWidth / options.minRowHeight < ratio)

/-- The pixels between a number of boxes: the number is narrowed to 16 bits
before one is taken from it. -/
def spacingPixels (count : ℕ) : ℚ :=
  options.spacing * ((UInt16.ofNat count - 1).toNat : ℚ)

end LayoutOptions

/-- Where a box is. -/
structure Position where
  top : ℚ
  left : ℚ
  width : ℚ
  height : ℚ
  deriving Repr, DecidableEq

/-- Place boxes in a row, from a left edge on. -/
def place
    (top height spacing : ℚ) :
    ℚ → List ℚ → List Position
  | _, [] =>
      []
  | left, ratio :: ratios =>
      { top := top
        left := left
        width := ratio * height
        height := height } ::
          place top height spacing (left + (ratio * height + spacing)) ratios

/-- What the pass keeps: the boxes that are placed, and the ratios from the
start of the row on. -/
structure Pass where
  positions : List Position := []
  row : List ℚ := []
  top : ℚ := 0
  maxActualRowWidth : ℚ := 0
  curAspectRatio : ℚ := 0
  rowAspectRatio : ℚ := 0
  rowDiff : ℚ
  deriving Repr, DecidableEq

namespace Pass

variable (options : LayoutOptions)

/-- The ratio of the row's boxes without the spaces. -/
def totalAspectRatio (pass : Pass) : ℚ :=
  pass.rowAspectRatio - options.spacingAspectRatio * pass.row.length

/-- The width of the row at a height. -/
def actualRowWidth
    (height : ℚ)
    (pass : Pass) : ℚ :=
  options.spacingPixels pass.row.length +
    (pass.row.map (· * height)).sum

/-- The height at which the row fills the width. -/
def baseRowHeight (pass : Pass) : ℚ :=
  (options.rowWidth - options.spacingPixels pass.row.length) /
    pass.totalAspectRatio options

/-- Scale the row to fill the width and begin another below it. -/
def closeRow (pass : Pass) : Pass :=
  let scaledRowHeight := min (pass.baseRowHeight options) options.maxRowHeight
  { pass with
    positions :=
      pass.positions ++
        place pass.top scaledRowHeight options.spacing 0 pass.row
    row := []
    top := pass.top + (scaledRowHeight + options.spacing)
    maxActualRowWidth :=
      max (pass.actualRowWidth options scaledRowHeight)
        pass.maxActualRowWidth }

/-- Add a box, behind the row or as the first of the next one. -/
def add
    (pass : Pass)
    (entry : ℚ × ℕ) : Pass :=
  let aspectRatio := entry.1
  let curAspectRatio := pass.curAspectRatio + aspectRatio
  let curDiff := |curAspectRatio - options.targetRowAspectRatio|
  let closes :=
    (options.exceedsMax curAspectRatio || decide (pass.rowDiff < curDiff)) &&
      decide (0 < entry.2)
  let pass :=
    if closes then
      { pass.closeRow options with
        curAspectRatio := aspectRatio
        rowDiff := |aspectRatio - options.targetRowAspectRatio| }
    else
      { pass with
        curAspectRatio := curAspectRatio
        rowDiff := curDiff }
  let curAspectRatio := pass.curAspectRatio + options.spacingAspectRatio
  { pass with
    row := pass.row ++ [aspectRatio]
    curAspectRatio := curAspectRatio
    rowAspectRatio := curAspectRatio }

/-- The height of the last row: that of the row before it, or the target, where
filling the width would make it too high. -/
def lastRowHeight (pass : Pass) : ℚ :=
  if options.maxRowHeight < pass.baseRowHeight options then
    match pass.positions.getLast? with
    | some position =>
        position.height
    | none =>
        options.rowHeight
  else
    pass.baseRowHeight options

end Pass

/-- The boxes of a layout and the container that is to hold them. -/
structure JustifiedLayout where
  containerWidth : ℚ
  containerHeight : ℚ
  positions : List Position
  deriving Repr, DecidableEq

/-- Lay boxes out in rows. -/
def getJustifiedLayout
    (aspectRatios : List ℚ)
    (options : LayoutOptions) : JustifiedLayout :=
  if aspectRatios = [] then
    { containerWidth := 0, containerHeight := 0, positions := [] }
  else
    let pass := aspectRatios.zipIdx.foldl (Pass.add options)
      { rowDiff := options.targetRowAspectRatio }
    let scaledRowHeight := pass.lastRowHeight options
    { containerWidth :=
        max (pass.actualRowWidth options scaledRowHeight)
          pass.maxActualRowWidth
      containerHeight := pass.top + scaledRowHeight
      positions :=
        pass.positions ++
          place pass.top scaledRowHeight options.spacing 0 pass.row }

end Frameleaf.JustifiedLayout
