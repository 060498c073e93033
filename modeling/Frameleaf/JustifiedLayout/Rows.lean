import Frameleaf.JustifiedLayout.Layout

namespace Frameleaf.JustifiedLayout

/-!
# The rows of a layout

Where rows break depends on the ratios and the options alone.  The boxes of a
layout are those of its rows, one row below the other.
-/

/-- The ratios of closed rows, those of the open row, and what decides whether
it takes another box. -/
structure Breaks where
  closed : List (List ℚ) := []
  row : List ℚ := []
  rowDiff : ℚ
  deriving Repr, DecidableEq

/-- The ratio of a row and of the spaces behind its boxes. -/
def LayoutOptions.spacedAspectRatio
    (options : LayoutOptions)
    (row : List ℚ) : ℚ :=
  row.sum + options.spacingAspectRatio * row.length

/-- Add a box, behind the open row or as the first of the next one. -/
def Breaks.add
    (options : LayoutOptions)
    (breaks : Breaks)
    (aspectRatio : ℚ) : Breaks :=
  let cur := options.spacedAspectRatio breaks.row + aspectRatio
  let diff := |cur - options.targetRowAspectRatio|
  if (options.exceedsMax cur || decide (breaks.rowDiff < diff)) &&
      decide (breaks.row ≠ []) then
    { closed := breaks.closed ++ [breaks.row]
      row := [aspectRatio]
      rowDiff := |aspectRatio - options.targetRowAspectRatio| }
  else
    { closed := breaks.closed
      row := breaks.row ++ [aspectRatio]
      rowDiff := diff }

/-- Where the rows of some boxes break. -/
def breaksOf
    (options : LayoutOptions)
    (aspectRatios : List ℚ) : Breaks :=
  aspectRatios.foldl (Breaks.add options)
    { rowDiff := options.targetRowAspectRatio }

/-- The ratios of the rows of some boxes. -/
def rowRatios
    (options : LayoutOptions)
    (aspectRatios : List ℚ) : List (List ℚ) :=
  let breaks := breaksOf options aspectRatios
  if breaks.row = [] then breaks.closed else breaks.closed ++ [breaks.row]

/-- A row: its boxes with their common top and height. -/
structure Row where
  ratios : List ℚ
  top : ℚ
  height : ℚ
  deriving Repr, DecidableEq

/-- The boxes of a row. -/
def Row.positions
    (options : LayoutOptions)
    (row : Row) : List Position :=
  place row.top row.height options.spacing 0 row.ratios

/-- The width of a row. -/
def Row.width
    (options : LayoutOptions)
    (row : Row) : ℚ :=
  options.spacingPixels row.ratios.length +
    (row.ratios.map (· * row.height)).sum

/-- The height at which boxes fill the width. -/
def LayoutOptions.fillHeight
    (options : LayoutOptions)
    (ratios : List ℚ) : ℚ :=
  (options.rowWidth - options.spacingPixels ratios.length) / ratios.sum

/-- Rows that are closed, from a top on. -/
def stack
    (options : LayoutOptions) :
    ℚ → List (List ℚ) → List Row
  | _, [] =>
      []
  | top, ratios :: rest =>
      let height := min (options.fillHeight ratios) options.maxRowHeight
      { ratios := ratios, top := top, height := height } ::
        stack options (top + (height + options.spacing)) rest

/-- The top below rows that are closed. -/
def bottom
    (options : LayoutOptions)
    (rows : List Row) : ℚ :=
  (rows.map fun row => row.height + options.spacing).sum

/-- The last row, below rows that are closed. -/
def lastRow
    (options : LayoutOptions)
    (rows : List Row)
    (ratios : List ℚ) : Row where
  ratios := ratios
  top := bottom options rows
  height :=
    if options.maxRowHeight < options.fillHeight ratios then
      (rows.getLast?.map Row.height).getD options.rowHeight
    else
      options.fillHeight ratios

/-- The rows of some boxes. -/
def rowsOf
    (options : LayoutOptions)
    (aspectRatios : List ℚ) : List Row :=
  let breaks := breaksOf options aspectRatios
  let rows := stack options 0 breaks.closed
  if breaks.row = [] then rows else rows ++ [lastRow options rows breaks.row]

variable {options : LayoutOptions}

/-- A pass has the rows of breaks. -/
structure Holds
    (options : LayoutOptions)
    (breaks : Breaks)
    (pass : Pass) : Prop where
  row : pass.row = breaks.row
  curAspectRatio :
    pass.curAspectRatio = options.spacedAspectRatio breaks.row
  rowAspectRatio :
    pass.rowAspectRatio = options.spacedAspectRatio breaks.row
  rowDiff : pass.rowDiff = breaks.rowDiff
  positions :
    pass.positions =
      (stack options 0 breaks.closed).flatMap (Row.positions options)
  top : pass.top = bottom options (stack options 0 breaks.closed)
  maxActualRowWidth :
    pass.maxActualRowWidth =
      ((stack options 0 breaks.closed).map (Row.width options)).foldl max 0
  noneEmpty : ∀ ratios ∈ breaks.closed, ratios ≠ []

theorem stack_append
    (first second : List (List ℚ))
    (top : ℚ) :
    stack options top (first ++ second) =
      stack options top first ++
        stack options (top + bottom options (stack options top first))
          second := by
  induction first generalizing top with
  | nil =>
      rw [List.nil_append, stack, List.nil_append, bottom, List.map_nil,
        List.sum_nil, add_zero]
  | cons ratios first inductionHypothesis =>
      rw [List.cons_append, stack, inductionHypothesis, stack,
        List.cons_append]
      simp only [bottom, List.map_cons, List.sum_cons, add_assoc]

theorem bottom_concat
    (rows : List Row)
    (row : Row) :
    bottom options (rows ++ [row]) =
      bottom options rows + (row.height + options.spacing) := by
  rw [bottom, List.map_append, List.sum_append, List.map_singleton,
    List.sum_singleton]
  rfl

variable {breaks : Breaks} {pass : Pass}

theorem Holds.totalAspectRatio
    (holds : Holds options breaks pass) :
    pass.totalAspectRatio options = breaks.row.sum := by
  rw [Pass.totalAspectRatio, holds.rowAspectRatio, holds.row,
    LayoutOptions.spacedAspectRatio, add_sub_cancel_right]

theorem Holds.baseRowHeight
    (holds : Holds options breaks pass) :
    pass.baseRowHeight options = options.fillHeight breaks.row := by
  rw [Pass.baseRowHeight, holds.totalAspectRatio, holds.row]
  rfl

/-- Closing the row of a pass closes that of its breaks. -/
theorem Holds.closeRow
    (holds : Holds options breaks pass)
    (hasBoxes : breaks.row ≠ [])
    (aspectRatio rowDiff : ℚ) :
    Holds options
      { closed := breaks.closed ++ [breaks.row]
        row := [aspectRatio]
        rowDiff := rowDiff }
      { pass.closeRow options with
        row := [aspectRatio]
        curAspectRatio := aspectRatio + options.spacingAspectRatio
        rowAspectRatio := aspectRatio + options.spacingAspectRatio
        rowDiff := rowDiff } := by
  have height := holds.baseRowHeight
  have stacked : stack options 0 (breaks.closed ++ [breaks.row]) =
      stack options 0 breaks.closed ++
        [{ ratios := breaks.row
           top := bottom options (stack options 0 breaks.closed)
           height :=
            min (options.fillHeight breaks.row) options.maxRowHeight }] := by
    rw [stack_append, zero_add]
    rfl
  have spaced : aspectRatio + options.spacingAspectRatio =
      options.spacedAspectRatio [aspectRatio] := by
    rw [LayoutOptions.spacedAspectRatio, List.sum_singleton,
      List.length_singleton, Nat.cast_one, mul_one]
  constructor
  · rfl
  · exact spaced
  · exact spaced
  · rfl
  · rw [stacked, List.flatMap_append, List.flatMap_singleton, ← holds.positions,
      Row.positions]
    unfold Pass.closeRow
    rw [height, holds.top, holds.row]
  · rw [stacked, bottom_concat, ← holds.top]
    unfold Pass.closeRow
    rw [height]
  · rw [stacked, List.map_append, List.foldl_append, ← holds.maxActualRowWidth,
      List.map_singleton, List.foldl_cons, List.foldl_nil, Row.width]
    unfold Pass.closeRow Pass.actualRowWidth
    rw [height, holds.row, max_comm]
  · intro ratios member
    rcases List.mem_append.mp member with isEarlier | isNew
    · exact holds.noneEmpty ratios isEarlier
    · cases List.mem_singleton.mp isNew
      exact hasBoxes

theorem Holds.add
    (holds : Holds options breaks pass)
    (aspectRatio : ℚ)
    {index : ℕ}
    (isFirst : index = 0 ↔ breaks.row = []) :
    Holds options (breaks.add options aspectRatio)
      (pass.add options (aspectRatio, index)) := by
  have isLater : decide (0 < index) = decide (breaks.row ≠ []) :=
    decide_eq_decide.mpr (Nat.pos_iff_ne_zero.trans (not_congr isFirst))
  unfold Breaks.add Pass.add
  dsimp only
  rw [holds.curAspectRatio, holds.rowDiff, isLater]
  split
  · rename_i closes
    have hasBoxes : breaks.row ≠ [] :=
      of_decide_eq_true (Bool.and_eq_true_iff.mp closes).2
    exact holds.closeRow hasBoxes aspectRatio _
  · have spaced : options.spacedAspectRatio breaks.row + aspectRatio +
        options.spacingAspectRatio =
          options.spacedAspectRatio (breaks.row ++ [aspectRatio]) := by
      rw [LayoutOptions.spacedAspectRatio, LayoutOptions.spacedAspectRatio,
        List.sum_append, List.sum_singleton, List.length_append,
        List.length_singleton, Nat.cast_add, Nat.cast_one]
      ring
    exact
      { row := congrArg (· ++ [aspectRatio]) holds.row
        curAspectRatio := spaced
        rowAspectRatio := spaced
        rowDiff := rfl
        positions := holds.positions
        top := holds.top
        maxActualRowWidth := holds.maxActualRowWidth
        noneEmpty := holds.noneEmpty }

theorem Breaks.row_add_ne_nil
    (breaks : Breaks)
    (aspectRatio : ℚ) :
    (breaks.add options aspectRatio).row ≠ [] := by
  unfold Breaks.add
  dsimp only
  split
  · exact List.cons_ne_nil _ _
  · exact List.append_ne_nil_of_right_ne_nil _ (List.cons_ne_nil _ _)

theorem Holds.foldl
    (holds : Holds options breaks pass)
    {index : ℕ}
    (isFirst : index = 0 ↔ breaks.row = [])
    (aspectRatios : List ℚ) :
    Holds options (aspectRatios.foldl (Breaks.add options) breaks)
      ((aspectRatios.zipIdx index).foldl (Pass.add options) pass) := by
  induction aspectRatios generalizing breaks pass index with
  | nil =>
      exact holds
  | cons aspectRatio aspectRatios inductionHypothesis =>
      rw [List.zipIdx_cons, List.foldl_cons, List.foldl_cons]
      refine inductionHypothesis (holds.add aspectRatio isFirst) ?_
      exact ⟨(nomatch ·),
        fun isEmpty => absurd isEmpty (breaks.row_add_ne_nil aspectRatio)⟩

theorem holds_breaksOf
    (options : LayoutOptions)
    (aspectRatios : List ℚ) :
    Holds options (breaksOf options aspectRatios)
      (aspectRatios.zipIdx.foldl (Pass.add options)
        { rowDiff := options.targetRowAspectRatio }) := by
  have start : Holds options { rowDiff := options.targetRowAspectRatio }
      { rowDiff := options.targetRowAspectRatio } := by
    have empty : options.spacedAspectRatio [] = 0 := by
      simp [LayoutOptions.spacedAspectRatio]
    exact
      { row := rfl
        curAspectRatio := empty.symm
        rowAspectRatio := empty.symm
        rowDiff := rfl
        positions := rfl
        top := rfl
        maxActualRowWidth := rfl
        noneEmpty := List.forall_mem_nil _ }
  exact start.foldl ⟨fun _ => rfl, fun _ => rfl⟩ aspectRatios

/-- The boxes of breaks, in order. -/
def Breaks.boxes (breaks : Breaks) : List ℚ :=
  breaks.closed.flatten ++ breaks.row

theorem Breaks.boxes_add
    (breaks : Breaks)
    (aspectRatio : ℚ) :
    (breaks.add options aspectRatio).boxes = breaks.boxes ++ [aspectRatio] := by
  unfold Breaks.add Breaks.boxes
  dsimp only
  split <;> simp

theorem boxes_breaksOf
    (options : LayoutOptions)
    (aspectRatios : List ℚ) :
    (breaksOf options aspectRatios).boxes = aspectRatios := by
  have run : ∀ breaks : Breaks,
      (aspectRatios.foldl (Breaks.add options) breaks).boxes =
        breaks.boxes ++ aspectRatios := by
    intro breaks
    induction aspectRatios generalizing breaks with
    | nil =>
        exact (List.append_nil _).symm
    | cons aspectRatio aspectRatios inductionHypothesis =>
        rw [List.foldl_cons, inductionHypothesis, Breaks.boxes_add,
          List.append_assoc, List.singleton_append]
  exact run _

theorem row_breaksOf
    (options : LayoutOptions)
    (aspectRatios : List ℚ) :
    (breaksOf options aspectRatios).row = [] ↔ aspectRatios = [] := by
  cases aspectRatios using List.reverseRecOn with
  | nil =>
      exact ⟨fun _ => rfl, fun _ => rfl⟩
  | append_singleton aspectRatios aspectRatio =>
      have isAdd : breaksOf options (aspectRatios ++ [aspectRatio]) =
          (breaksOf options aspectRatios).add options aspectRatio :=
        List.foldl_concat ..
      rw [isAdd]
      exact ⟨fun isEmpty =>
          absurd isEmpty (Breaks.row_add_ne_nil _ aspectRatio),
        fun isEmpty => absurd isEmpty
          (List.append_ne_nil_of_right_ne_nil _ (List.cons_ne_nil _ _))⟩

theorem getLast?_positions
    {rows : List Row}
    (noneEmpty : ∀ row ∈ rows, row.ratios ≠ []) :
    (rows.flatMap (Row.positions options)).getLast?.map Position.height =
      rows.getLast?.map Row.height := by
  have ofPlace : ∀ (top height left : ℚ) (ratios : List ℚ), ratios ≠ [] →
      ∃ others last, place top height options.spacing left ratios =
        others ++ [last] ∧ last.height = height := by
    intro top height left ratios hasBoxes
    induction ratios generalizing left with
    | nil =>
        exact absurd rfl hasBoxes
    | cons ratio ratios inductionHypothesis =>
        cases ratios with
        | nil =>
            exact ⟨[], _, rfl, rfl⟩
        | cons second ratios =>
            obtain ⟨others, last, isPlace, isHeight⟩ := inductionHypothesis
              (left + (ratio * height + options.spacing))
              (List.cons_ne_nil _ _)
            rw [place, isPlace]
            exact ⟨_ :: others, last, rfl, isHeight⟩
  cases rows using List.reverseRecOn with
  | nil =>
      rfl
  | append_singleton rows row =>
      obtain ⟨others, last, isPlace, isHeight⟩ := ofPlace row.top row.height 0
        row.ratios (noneEmpty row (by simp))
      rw [List.flatMap_append, List.flatMap_singleton, Row.positions, isPlace,
        ← List.append_assoc, List.getLast?_concat, List.getLast?_concat,
        Option.map_some, Option.map_some, isHeight]

theorem map_ratios_stack
    (closed : List (List ℚ))
    (top : ℚ) :
    (stack options top closed).map Row.ratios = closed := by
  induction closed generalizing top with
  | nil =>
      rfl
  | cons ratios closed inductionHypothesis =>
      rw [stack, List.map_cons, inductionHypothesis]

theorem Holds.lastRowHeight
    (holds : Holds options breaks pass) :
    pass.lastRowHeight options =
      (lastRow options (stack options 0 breaks.closed) breaks.row).height := by
  have noneEmpty : ∀ row ∈ stack options 0 breaks.closed,
      row.ratios ≠ [] := by
    intro row member
    have isRatios := List.mem_map_of_mem (f := Row.ratios) member
    rw [map_ratios_stack] at isRatios
    exact holds.noneEmpty _ isRatios
  have sameHeight := @getLast?_positions options _ noneEmpty
  rw [← holds.positions] at sameHeight
  unfold Pass.lastRowHeight lastRow
  dsimp only
  rw [holds.baseRowHeight, ← sameHeight]
  split
  · cases pass.positions.getLast? <;> rfl
  · rfl

/-- A layout has the boxes of its rows, in a container that holds them. -/
structure HasRows
    (options : LayoutOptions)
    (layout : JustifiedLayout)
    (rows : List Row) : Prop where
  positions : layout.positions = rows.flatMap (Row.positions options)
  width :
    layout.containerWidth = (rows.map (Row.width options)).foldl max 0
  height :
    ∀ row ∈ rows.getLast?, layout.containerHeight = row.top + row.height

theorem hasRows
    (options : LayoutOptions)
    (aspectRatios : List ℚ) :
    HasRows options (getJustifiedLayout aspectRatios options)
      (rowsOf options aspectRatios) := by
  have holds := holds_breaksOf options aspectRatios
  have isEmpty := row_breaksOf options aspectRatios
  unfold getJustifiedLayout rowsOf
  dsimp only
  by_cases noBoxes : aspectRatios = []
  · rw [if_pos noBoxes, if_pos (isEmpty.mpr noBoxes), noBoxes]
    exact ⟨rfl, rfl, by simp [breaksOf, stack]⟩
  · rw [if_neg noBoxes, if_neg (isEmpty.not.mpr noBoxes)]
    generalize aspectRatios.zipIdx.foldl (Pass.add options)
      { rowDiff := options.targetRowAspectRatio } = pass at holds ⊢
    have height := holds.lastRowHeight
    refine ⟨?_, ?_, ?_⟩
    · dsimp only
      rw [List.flatMap_append, List.flatMap_singleton, ← holds.positions,
        height, holds.top, holds.row]
      rfl
    · dsimp only
      rw [List.map_append, List.foldl_append, ← holds.maxActualRowWidth,
        List.map_singleton, List.foldl_cons, List.foldl_nil, max_comm, height,
        Pass.actualRowWidth, holds.row]
      rfl
    · intro row isLast
      rw [List.getLast?_concat] at isLast
      cases isLast
      dsimp only
      rw [height, holds.top]
      rfl

end Frameleaf.JustifiedLayout
