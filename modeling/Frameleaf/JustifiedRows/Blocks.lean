import Frameleaf.JustifiedRows.Flow
import Mathlib.Algebra.BigOperators.Group.List.Basic
import Mathlib.Data.List.GetD

namespace Frameleaf.JustifiedRows

open Rounding

/-!
# Where rows break

The breaks depend on the ratios alone, and every row starts afresh.  The rows of
a flow are its blocks of ratios, each laid out below the one before it.
-/

/-- Items of a row, and the height and the width that they are laid out in. -/
structure Block where
  aspects : List ℚ
  height : ℚ
  stretch : Bool
  deriving Repr, DecidableEq

/-- Closed blocks, and the ratios of the open row. -/
structure Breaks where
  blocks : List Block := []
  row : List ℚ := []
  deriving Repr, DecidableEq

namespace Breaks

variable (frame : Frame)

/-- Close the open row at the height that fills the width. -/
def fill (breaks : Breaks) : Breaks where
  blocks :=
    breaks.blocks ++
      [{ aspects := breaks.row
         height := frame.fillHeight breaks.row.sum breaks.row.length
         stretch := true }]

/-- Add a ratio to the open row, which may be closed before or behind it. -/
def add
    (breaks : Breaks)
    (aspect : ℚ) : Breaks :=
  let breaks :=
    if frame.closesBefore breaks.row.length breaks.row.sum aspect then
      breaks.fill frame
    else
      breaks
  let breaks := { breaks with row := breaks.row ++ [aspect] }
  if frame.closesAfter breaks.row.length breaks.row.sum then
    breaks.fill frame
  else
    breaks

/-- The block of the unfinished row, if there is one. -/
def closing (breaks : Breaks) : List Block :=
  let fill := frame.fillHeight breaks.row.sum breaks.row.length
  if breaks.row = [] then
    []
  else if fill ≤ frame.maxRowHeight then
    [{ aspects := breaks.row, height := fill, stretch := true }]
  else
    [{ aspects := breaks.row
       height := min frame.targetRowHeight frame.maxRowHeight
       stretch := false }]

end Breaks

/-- Where the rows of some ratios break. -/
def breaksOf
    (frame : Frame)
    (list : List ℚ) : Breaks :=
  list.foldl (Breaks.add frame) {}

/-- The tiles of some ratios at a height, from an index on. -/
def tilesFrom
    (index : ℕ)
    (rounded : ℤ)
    (aspects : List ℚ) : List JustifiedTile :=
  (aspects.zipIdx index).map fun entry =>
    { index := entry.2
      width := tileWidth rounded entry.1
      height := rounded }

/-- A block as a row. -/
def Block.row
    (frame : Frame)
    (index : ℕ)
    (top : ℚ)
    (block : Block) : JustifiedRow :=
  let rounded := roundedHeight block.height
  let tiles := tilesFrom index rounded block.aspects
  let tiles :=
    if block.stretch then stretchLast frame.gap frame.containerWidth tiles
    else tiles
  { top := top
    height := rounded
    width := usedWidth frame.gap tiles
    tiles := tiles }

/-- Blocks as rows, one below the other. -/
def rowsFrom
    (frame : Frame) :
    ℕ → ℚ → List Block → List JustifiedRow
  | _, _, [] =>
      []
  | index, top, block :: blocks =>
      block.row frame index top ::
        rowsFrom frame (index + block.aspects.length)
          (top + (roundedHeight block.height + frame.gap)) blocks

/-- How many items blocks have. -/
def itemCount (blocks : List Block) : ℕ :=
  (blocks.map fun block => block.aspects.length).sum

/-- How high blocks are, with a gap below each. -/
def totalHeight
    (frame : Frame)
    (blocks : List Block) : ℚ :=
  (blocks.map fun block =>
    (roundedHeight block.height : ℚ) + frame.gap).sum

variable {frame : Frame}

theorem rowsFrom_append
    (first second : List Block)
    (index : ℕ)
    (top : ℚ) :
    rowsFrom frame index top (first ++ second) =
      rowsFrom frame index top first ++
        rowsFrom frame (index + itemCount first)
          (top + totalHeight frame first) second := by
  induction first generalizing index top with
  | nil =>
      simp [rowsFrom, itemCount, totalHeight]
  | cons block first inductionHypothesis =>
      rw [List.cons_append, rowsFrom, inductionHypothesis, rowsFrom,
        List.cons_append]
      simp only [itemCount, totalHeight, List.map_cons, List.sum_cons,
        add_assoc]

theorem itemCount_append
    (first second : List Block) :
    itemCount (first ++ second) = itemCount first + itemCount second := by
  simp only [itemCount, List.map_append, List.sum_append]

theorem totalHeight_append
    (first second : List Block) :
    totalHeight frame (first ++ second) =
      totalHeight frame first + totalHeight frame second := by
  simp only [totalHeight, List.map_append, List.sum_append]

theorem map_getD_range'
    {before aspects after : List ℚ}
    {Result : Type}
    (make : ℕ → ℚ → Result) :
    (List.range' before.length aspects.length).map
        (fun index =>
          make index ((before ++ aspects ++ after).getD index 0)) =
      (aspects.zipIdx before.length).map fun entry =>
        make entry.2 entry.1 := by
  induction aspects generalizing before with
  | nil =>
      rfl
  | cons aspect aspects inductionHypothesis =>
      have later := @inductionHypothesis (before ++ [aspect])
      rw [List.length_append, List.length_singleton,
        List.append_assoc before, List.singleton_append] at later
      rw [List.length_cons, List.range'_succ, List.map_cons, List.zipIdx_cons,
        List.map_cons, later, List.append_assoc, List.cons_append,
        List.getD_append_right _ _ _ _ (Nat.le_refl _), Nat.sub_self]
      rfl

theorem layoutRow_eq
    {before aspects after : List ℚ}
    (height : ℚ)
    (stretch : Bool)
    (top : ℚ) :
    layoutRow (List.range' before.length aspects.length)
        (before ++ aspects ++ after) height frame.gap frame.containerWidth
        stretch top =
      Block.row frame before.length top
        { aspects := aspects, height := height, stretch := stretch } := by
  unfold layoutRow Block.row tilesFrom
  dsimp only
  rw [map_getD_range' fun index ratio =>
    { index := index
      width := tileWidth (roundedHeight height) ratio
      height := roundedHeight height : JustifiedTile }]

/-- A filling holds the rows of breaks, for the ratios before the others. -/
structure Holds
    (frame : Frame)
    (list : List ℚ)
    (breaks : Breaks)
    (rest : List ℚ)
    (filling : Filling) : Prop where
  list :
    list = (breaks.blocks.flatMap Block.aspects ++ breaks.row) ++ rest
  rows : filling.rows = rowsFrom frame 0 0 breaks.blocks
  row :
    filling.row = List.range' (itemCount breaks.blocks) breaks.row.length
  aspectSum : filling.aspectSum = breaks.row.sum
  top : filling.top = totalHeight frame breaks.blocks

variable {list rest : List ℚ} {breaks : Breaks} {filling : Filling}

theorem length_flatMap_aspects
    (blocks : List Block) :
    (blocks.flatMap Block.aspects).length = itemCount blocks := by
  rw [List.length_flatMap, itemCount]

theorem Holds.rowLength
    (holds : Holds frame list breaks rest filling) :
    filling.row.length = breaks.row.length := by
  rw [holds.row, List.length_range']

theorem Holds.push
    (holds : Holds frame list breaks rest filling)
    (height : ℚ)
    (stretch : Bool) :
    Holds frame list
      { blocks :=
          breaks.blocks ++
            [{ aspects := breaks.row, height := height, stretch := stretch }] }
      rest (filling.push frame list height stretch) := by
  have laid : layoutRow filling.row list height frame.gap frame.containerWidth
      stretch filling.top = Block.row frame (itemCount breaks.blocks)
        (totalHeight frame breaks.blocks)
        { aspects := breaks.row, height := height, stretch := stretch } := by
    rw [holds.row, holds.top, holds.list,
      ← length_flatMap_aspects, layoutRow_eq]
  unfold Filling.push
  rw [laid]
  constructor
  · rw [List.flatMap_append, List.flatMap_singleton, List.append_nil]
    exact holds.list
  · rw [rowsFrom_append, holds.rows, Nat.zero_add, zero_add]
    rfl
  · rfl
  · rfl
  · rw [totalHeight_append, holds.top]
    simp only [totalHeight, List.map_singleton, List.sum_singleton]
    rfl

theorem Holds.fill
    (holds : Holds frame list breaks rest filling) :
    Holds frame list (breaks.fill frame) rest (filling.fill frame list) := by
  rw [Filling.fill, holds.aspectSum, holds.rowLength]
  exact holds.push _ true

theorem Holds.extend
    {aspect : ℚ}
    (holds : Holds frame list breaks (aspect :: rest) filling) :
    Holds frame list { breaks with row := breaks.row ++ [aspect] } rest
      { filling with
        row :=
          filling.row ++ [itemCount breaks.blocks + breaks.row.length]
        aspectSum := filling.aspectSum + aspect } where
  list := by
    rw [holds.list]
    simp only [List.append_assoc, List.singleton_append]
  rows := holds.rows
  row := by
    dsimp only
    rw [holds.row, List.length_append, List.length_singleton,
      List.range'_concat, Nat.one_mul]
  aspectSum := by
    dsimp only
    rw [holds.aspectSum, List.sum_append, List.sum_singleton]
  top := holds.top

/-- How many ratios a filling has taken. -/
def Breaks.taken (breaks : Breaks) : ℕ :=
  itemCount breaks.blocks + breaks.row.length

theorem Breaks.taken_fill
    (breaks : Breaks) :
    (breaks.fill frame).taken = breaks.taken := by
  simp [Breaks.taken, Breaks.fill, itemCount]

theorem Breaks.taken_add
    (breaks : Breaks)
    (aspect : ℚ) :
    (breaks.add frame aspect).taken = breaks.taken + 1 := by
  have extended : ∀ breaks : Breaks,
      ({ breaks with row := breaks.row ++ [aspect] } : Breaks).taken =
        breaks.taken + 1 := by
    intro breaks
    rw [Breaks.taken, List.length_append, List.length_singleton]
    rfl
  unfold Breaks.add
  dsimp only
  split <;> split <;> simp only [Breaks.taken_fill, extended]

/-- Adding the next item to a filling adds its ratio to the breaks. -/
theorem Holds.add
    {aspect : ℚ}
    (holds : Holds frame list breaks (aspect :: rest) filling) :
    Holds frame list (breaks.add frame aspect) rest
      (filling.add frame list (aspect, breaks.taken)) := by
  have closed : Holds frame list
      (if frame.closesBefore breaks.row.length breaks.row.sum aspect then
        breaks.fill frame
      else
        breaks)
      (aspect :: rest)
      (if frame.closesBefore filling.row.length filling.aspectSum aspect then
        filling.fill frame list
      else
        filling) := by
    rw [holds.rowLength, holds.aspectSum]
    split
    · exact holds.fill
    · exact holds
  have sameTaken : breaks.taken =
      (if frame.closesBefore breaks.row.length breaks.row.sum aspect then
        breaks.fill frame
      else
        breaks).taken := by
    split
    · exact breaks.taken_fill.symm
    · rfl
  unfold Breaks.add Filling.add
  dsimp only
  rw [sameTaken]
  generalize (if frame.closesBefore breaks.row.length breaks.row.sum aspect
    then breaks.fill frame else breaks) = later at closed ⊢
  generalize (if frame.closesBefore filling.row.length filling.aspectSum aspect
    then filling.fill frame list else filling) = laterFilling at closed ⊢
  have extended := closed.extend
  have sameLength := extended.rowLength
  have sameSum := extended.aspectSum
  dsimp only at sameLength sameSum
  have isClosed : frame.closesAfter
      (laterFilling.row ++ [itemCount later.blocks + later.row.length]).length
        (laterFilling.aspectSum + aspect) =
      frame.closesAfter (later.row ++ [aspect]).length
        (later.row ++ [aspect]).sum := by
    rw [sameLength, sameSum]
  rw [Breaks.taken, isClosed]
  split
  · exact extended.fill
  · exact extended

theorem Holds.foldl
    (holds : Holds frame list breaks rest filling) :
    Holds frame list (rest.foldl (Breaks.add frame) breaks) []
      ((rest.zipIdx breaks.taken).foldl (Filling.add frame list) filling) := by
  induction rest generalizing breaks filling with
  | nil =>
      exact holds
  | cons aspect rest inductionHypothesis =>
      rw [List.zipIdx_cons, List.foldl_cons, List.foldl_cons]
      have later := inductionHypothesis holds.add
      rwa [Breaks.taken_add] at later

theorem holds_breaksOf
    (frame : Frame)
    (list : List ℚ) :
    Holds frame list (breaksOf frame list) []
      (list.zipIdx.foldl (Filling.add frame list) {}) := by
  have start : Holds frame list {} list {} :=
    { list := rfl, rows := rfl, row := rfl, aspectSum := rfl, top := rfl }
  exact start.foldl

theorem Holds.close
    (holds : Holds frame list breaks rest filling)
    (isOpen : breaks.row ≠ []) :
    (filling.close frame list).rows =
      rowsFrom frame 0 0 (breaks.blocks ++ breaks.closing frame) := by
  unfold Filling.close Breaks.closing
  dsimp only
  rw [holds.aspectSum, holds.rowLength, if_neg isOpen]
  by_cases fits :
      frame.fillHeight breaks.row.sum breaks.row.length ≤ frame.maxRowHeight
  · rw [decide_eq_true fits, if_pos rfl, if_pos fits]
    exact (holds.push _ true).rows
  · rw [decide_eq_false fits, if_neg fits]
    exact (holds.push _ false).rows

theorem Holds.closedRows
    (holds : Holds frame list breaks rest filling)
    (closeTail : Bool) :
    (if closeTail && !filling.row.isEmpty then
        (filling.close frame list).rows
      else
        filling.rows) =
      rowsFrom frame 0 0
        (breaks.blocks ++ if closeTail then breaks.closing frame else []) := by
  cases closeTail with
  | false =>
      rw [if_neg Bool.false_ne_true, List.append_nil]
      exact holds.rows
  | true =>
      cases isRow : breaks.row with
      | nil =>
          have noRow : filling.row = [] := by
            rw [holds.row, isRow]
            rfl
          have noClosing : breaks.closing frame = [] := if_pos isRow
          rw [noRow, noClosing, if_pos rfl, List.append_nil]
          exact holds.rows
      | cons aspect row =>
          have isOpen : breaks.row ≠ [] := by
            rw [isRow]
            exact List.cons_ne_nil _ _
          have hasRow : filling.row.isEmpty = false := by
            rw [holds.row, isRow]
            rfl
          rw [hasRow]
          exact holds.close isOpen

theorem Holds.headD
    (holds : Holds frame list breaks [] filling) :
    filling.row.headD list.length = itemCount breaks.blocks := by
  rw [holds.row]
  cases isRow : breaks.row with
  | nil =>
      rw [holds.list, isRow, List.append_nil, List.append_nil,
        length_flatMap_aspects]
      rfl
  | cons aspect row =>
      rfl

theorem justifiedFlow_eq
    {ratios : List (Option ℚ)}
    {options : JustifiedRowsOptions}
    {containerWidth : ℚ}
    (isWidth : options.containerWidth = some containerWidth)
    (positiveWidth : 0 < containerWidth)
    (closeTail : Bool) :
    let frame := options.frame containerWidth
    let breaks := breaksOf frame (ratios.map clampAspectRatio)
    justifiedFlow ratios options closeTail =
      { rows :=
          rowsFrom frame 0 0
            (breaks.blocks ++
              if closeTail then breaks.closing frame else [])
        tailStart := itemCount breaks.blocks } := by
  intro frame breaks
  have holds := holds_breaksOf frame (ratios.map clampAspectRatio)
  unfold justifiedFlow
  rw [isWidth]
  dsimp only
  split
  · rename_i degenerate
    have isEmpty : ratios.map clampAspectRatio = [] :=
      List.length_eq_zero_iff.mp
        (degenerate.resolve_right (not_le.mpr positiveWidth))
    have noBreaks : breaks = {} := by
      change breaksOf frame (ratios.map clampAspectRatio) = _
      rw [isEmpty]
      rfl
    rw [isEmpty, noBreaks]
    cases closeTail <;> rfl
  · rw [holds.headD, holds.closedRows]

end Frameleaf.JustifiedRows
