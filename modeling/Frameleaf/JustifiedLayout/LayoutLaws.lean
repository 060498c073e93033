import Frameleaf.JustifiedLayout.Rows
import Mathlib.Algebra.BigOperators.Ring.List

namespace Frameleaf.JustifiedLayout

/-!
# What holds of a layout

Rows of boxes are laid out as they should be exactly where the spaces between
the boxes of a row leave some of its width, and no row has more boxes than are
counted in 16 bits.
-/

/-- Options that a layout may be asked for. -/
structure AdmittedOptions extends LayoutOptions where
  hasHeight : 0 < rowHeight
  hasWidth : 0 < rowWidth
  noOverlap : 0 ≤ spacing
  mayDiffer : 0 ≤ tolerance

/-- The ratio of a box. -/
abbrev AspectRatio := { ratio : ℚ // 0 < ratio }

/-- One box is left of another or above it. -/
def Position.Apart (first second : Position) : Prop :=
  first.left + first.width ≤ second.left ∨
    first.top + first.height ≤ second.top

/-- Boxes are laid out in rows. -/
structure IsLaidOut
    (options : LayoutOptions)
    (aspectRatios : List ℚ)
    (layout : JustifiedLayout)
    (rows : List Row) : Prop where
  /-- The rows have the boxes in order. -/
  inOrder : rows.flatMap Row.ratios = aspectRatios
  /-- Every row has a box. -/
  noneEmpty : ∀ row ∈ rows, row.ratios ≠ []
  /-- The boxes of the layout are those of its rows. -/
  boxes : layout.positions = rows.flatMap (Row.positions options)
  /-- The boxes of a row share its top and its height, and keep their ratios. -/
  level :
    ∀ row ∈ rows, List.Forall₂
      (fun ratio position => position.top = row.top ∧
        position.height = row.height ∧ position.width = ratio * row.height)
      row.ratios (row.positions options)
  /-- Boxes never overlap. -/
  apart : layout.positions.Pairwise Position.Apart
  /-- Boxes have positive size. -/
  positive :
    ∀ position ∈ layout.positions, 0 < position.width ∧ 0 < position.height
  /-- Every row but the last fills the width or has the maximum height. -/
  filled :
    ∀ row ∈ rows.dropLast,
      options.spacing * ((row.ratios.length : ℚ) - 1) +
          (row.ratios.map (· * row.height)).sum = options.rowWidth ∨
        row.height = options.maxRowHeight
  /-- The container bounds every box. -/
  bounded :
    ∀ position ∈ layout.positions, 0 ≤ position.left ∧ 0 ≤ position.top ∧
      position.left + position.width ≤ layout.containerWidth ∧
      position.top + position.height ≤ layout.containerHeight
  /-- No number of boxes is changed when it is narrowed. -/
  narrowed :
    ∀ row ∈ rows,
      (UInt16.ofNat row.ratios.length).toNat = row.ratios.length

/-- What is to hold of the layout of some boxes. -/
def LayoutLaws
    (options : AdmittedOptions)
    (boxes : List AspectRatio) : Prop :=
  IsLaidOut options.toLayoutOptions (boxes.map Subtype.val)
    (getJustifiedLayout (boxes.map Subtype.val) options.toLayoutOptions)
    (rowsOf options.toLayoutOptions (boxes.map Subtype.val))

/-- Every row has few enough boxes, and the spaces between them leave some of
its width. -/
def LeavesWidth
    (options : AdmittedOptions)
    (boxes : List AspectRatio) : Prop :=
  ∀ ratios ∈ rowRatios options.toLayoutOptions (boxes.map Subtype.val),
    ratios.length < UInt16.size ∧
      options.spacing * ((ratios.length : ℚ) - 1) < options.rowWidth

/-! ## The boxes of one row -/

section Place

variable {top height spacing : ℚ}

theorem place_level
    (left : ℚ)
    (ratios : List ℚ) :
    List.Forall₂
      (fun ratio (position : Position) => position.top = top ∧
        position.height = height ∧ position.width = ratio * height)
      ratios (place top height spacing left ratios) := by
  induction ratios generalizing left with
  | nil =>
      exact .nil
  | cons ratio ratios inductionHypothesis =>
      exact .cons ⟨rfl, rfl, rfl⟩ (inductionHypothesis _)

/-- Where a box of a row is. -/
structure Position.IsIn
    (top height left right : ℚ)
    (position : Position) : Prop where
  top_eq : position.top = top
  height_eq : position.height = height
  wide : 0 < position.width
  left_le : left ≤ position.left
  right_le : position.left + position.width ≤ right

theorem isIn_of_mem_place
    (hasHeight : 0 < height)
    (noOverlap : 0 ≤ spacing)
    {ratios : List ℚ}
    (positive : ∀ ratio ∈ ratios, 0 < ratio)
    {left : ℚ}
    {position : Position}
    (member : position ∈ place top height spacing left ratios) :
    position.IsIn top height left
      (left + (spacing * ((ratios.length : ℚ) - 1) +
        (ratios.map (· * height)).sum)) := by
  induction ratios generalizing left with
  | nil =>
      exact nomatch member
  | cons ratio ratios inductionHypothesis =>
      obtain ⟨hasWidth, restPositive⟩ := List.forall_mem_cons.mp positive
      have width : 0 < ratio * height := mul_pos hasWidth hasHeight
      have rest : 0 ≤ (ratios.map (· * height)).sum :=
        List.sum_nonneg fun value isValue => by
          obtain ⟨other, isOther, rfl⟩ := List.mem_map.mp isValue
          exact (mul_pos (restPositive other isOther) hasHeight).le
      have spaces : 0 ≤ spacing * (ratios.length : ℚ) :=
        mul_nonneg noOverlap (Nat.cast_nonneg _)
      rw [List.length_cons, List.map_cons, List.sum_cons, Nat.cast_succ,
        add_sub_cancel_right]
      rcases List.mem_cons.mp member with rfl | isLater
      · refine ⟨rfl, rfl, width, le_refl _, ?_⟩
        dsimp only
        linarith
      · obtain ⟨top_eq, height_eq, wide, left_le, right_le⟩ :=
          inductionHypothesis restPositive isLater
        refine ⟨top_eq, height_eq, wide, by linarith, ?_⟩
        linarith

theorem pairwise_place
    (hasHeight : 0 < height)
    (noOverlap : 0 ≤ spacing)
    {ratios : List ℚ}
    (positive : ∀ ratio ∈ ratios, 0 < ratio)
    (left : ℚ) :
    (place top height spacing left ratios).Pairwise Position.Apart := by
  induction ratios generalizing left with
  | nil =>
      exact .nil
  | cons ratio ratios inductionHypothesis =>
      obtain ⟨-, restPositive⟩ := List.forall_mem_cons.mp positive
      refine List.pairwise_cons.mpr
        ⟨fun later isLater => Or.inl ?_, inductionHypothesis restPositive _⟩
      have isIn := isIn_of_mem_place hasHeight noOverlap restPositive isLater
      have behind := isIn.left_le
      dsimp only
      linarith

end Place

/-! ## Rows below each other -/

/-- Rows are below each other, with spaces between them. -/
def StackedFrom
    (options : LayoutOptions) :
    ℚ → List Row → Prop
  | _, [] =>
      True
  | top, row :: rows =>
      row.top = top ∧
        StackedFrom options (top + (row.height + options.spacing)) rows

section Stacked

variable {options : LayoutOptions}

theorem stackedFrom_stack
    (closed : List (List ℚ))
    (top : ℚ) :
    StackedFrom options top (stack options top closed) := by
  induction closed generalizing top with
  | nil =>
      trivial
  | cons ratios closed inductionHypothesis =>
      exact ⟨rfl, inductionHypothesis _⟩

theorem StackedFrom.concat
    {rows : List Row}
    {row : Row}
    {top : ℚ}
    (stacked : StackedFrom options top rows)
    (isBelow : row.top = top + bottom options rows) :
    StackedFrom options top (rows ++ [row]) := by
  induction rows generalizing top with
  | nil =>
      refine ⟨isBelow.trans ?_, trivial⟩
      rw [bottom, List.map_nil, List.sum_nil, add_zero]
  | cons first rows inductionHypothesis =>
      refine ⟨stacked.1, inductionHypothesis stacked.2 ?_⟩
      rw [isBelow, bottom, List.map_cons, List.sum_cons]
      exact (add_assoc _ _ _).symm

theorem stackedFrom_rowsOf
    (aspectRatios : List ℚ) :
    StackedFrom options 0 (rowsOf options aspectRatios) := by
  unfold rowsOf
  dsimp only
  split
  · exact stackedFrom_stack _ _
  · exact (stackedFrom_stack _ _).concat (zero_add _).symm

variable {rows : List Row} {top : ℚ}

theorem StackedFrom.le_top
    (noOverlap : 0 ≤ options.spacing)
    (positive : ∀ row ∈ rows, 0 < row.height)
    (stacked : StackedFrom options top rows) :
    ∀ row ∈ rows, top ≤ row.top := by
  induction rows generalizing top with
  | nil =>
      exact List.forall_mem_nil _
  | cons first rows inductionHypothesis =>
      obtain ⟨firstPositive, restPositive⟩ := List.forall_mem_cons.mp positive
      refine List.forall_mem_cons.mpr ⟨stacked.1.ge, fun row member => ?_⟩
      have below := inductionHypothesis restPositive stacked.2 row member
      linarith

theorem StackedFrom.pairwise
    (noOverlap : 0 ≤ options.spacing)
    (positive : ∀ row ∈ rows, 0 < row.height)
    (stacked : StackedFrom options top rows) :
    rows.Pairwise fun first second =>
      first.top + first.height ≤ second.top := by
  induction rows generalizing top with
  | nil =>
      exact .nil
  | cons first rows inductionHypothesis =>
      obtain ⟨-, restPositive⟩ := List.forall_mem_cons.mp positive
      refine List.pairwise_cons.mpr
        ⟨fun row member => ?_, inductionHypothesis restPositive stacked.2⟩
      have below := stacked.2.le_top noOverlap restPositive row member
      rw [stacked.1]
      linarith

theorem StackedFrom.le_last
    (noOverlap : 0 ≤ options.spacing)
    (positive : ∀ row ∈ rows, 0 < row.height)
    (stacked : StackedFrom options top rows)
    {last : Row}
    (isLast : last ∈ rows.getLast?) :
    ∀ row ∈ rows, row.top + row.height ≤ last.top + last.height := by
  obtain ⟨others, rfl⟩ := List.getLast?_eq_some_iff.mp isLast
  have apart := List.pairwise_append.mp (stacked.pairwise noOverlap positive)
  intro row member
  rcases List.mem_append.mp member with isOther | isSame
  · have above := apart.2.2 row isOther last List.mem_cons_self
    have tall := positive last
      (List.mem_append_right _ List.mem_cons_self)
    linarith
  · cases List.mem_singleton.mp isSame
    exact le_refl _

end Stacked

/-! ## The heights of rows -/

section Heights

variable {options : AdmittedOptions} {ratios : List ℚ}

theorem maxRowHeight_pos (options : AdmittedOptions) :
    0 < options.maxRowHeight :=
  mul_pos options.hasHeight (by linarith [options.mayDiffer])

theorem sum_pos_of_ne_nil
    (positive : ∀ ratio ∈ ratios, 0 < ratio)
    (hasBoxes : ratios ≠ []) :
    0 < ratios.sum :=
  List.sum_pos _ positive hasBoxes

theorem spacingPixels_eq
    (hasBoxes : ratios ≠ [])
    (few : ratios.length < UInt16.size) :
    options.spacingPixels ratios.length =
      options.spacing * ((ratios.length : ℚ) - 1) := by
  have count : 0 < ratios.length := List.length_pos_of_ne_nil hasBoxes
  have narrowed : (UInt16.ofNat ratios.length - 1).toNat =
      ratios.length - 1 := by
    rw [UInt16.toNat_sub_of_le, UInt16.toNat_ofNat_of_lt' few]
    · rfl
    · rw [UInt16.le_iff_toNat_le, UInt16.toNat_ofNat_of_lt' few]
      exact count
  rw [LayoutOptions.spacingPixels, narrowed, Nat.cast_sub count, Nat.cast_one]

theorem fillHeight_pos_iff
    (positive : ∀ ratio ∈ ratios, 0 < ratio)
    (hasBoxes : ratios ≠ [])
    (few : ratios.length < UInt16.size) :
    0 < options.fillHeight ratios ↔
      options.spacing * ((ratios.length : ℚ) - 1) < options.rowWidth := by
  have sum := sum_pos_of_ne_nil positive hasBoxes
  rw [LayoutOptions.fillHeight, spacingPixels_eq hasBoxes few,
    div_pos_iff_of_pos_right sum, sub_pos]

theorem fillHeight_fills
    (positive : ∀ ratio ∈ ratios, 0 < ratio)
    (hasBoxes : ratios ≠ [])
    (few : ratios.length < UInt16.size) :
    options.spacing * ((ratios.length : ℚ) - 1) +
        (ratios.map (· * options.fillHeight ratios)).sum =
      options.rowWidth := by
  have sum := sum_pos_of_ne_nil positive hasBoxes
  rw [List.sum_map_mul_right, List.map_id', LayoutOptions.fillHeight,
    spacingPixels_eq hasBoxes few, mul_div_cancel₀ _ sum.ne']
  ring

theorem height_of_mem_stack
    {closed : List (List ℚ)}
    {top : ℚ}
    {row : Row}
    (member : row ∈ stack options.toLayoutOptions top closed) :
    row.height = min (options.fillHeight row.ratios) options.maxRowHeight := by
  induction closed generalizing top with
  | nil =>
      exact nomatch member
  | cons ratios closed inductionHypothesis =>
      rcases List.mem_cons.mp member with rfl | isLater
      · rfl
      · exact inductionHypothesis isLater

theorem lastRow_height
    (options : AdmittedOptions)
    (rows : List Row)
    (ratios : List ℚ) :
    (lastRow options.toLayoutOptions rows ratios).height =
        options.fillHeight ratios ∨
      (options.maxRowHeight < options.fillHeight ratios ∧
        (lastRow options.toLayoutOptions rows ratios).height =
          (rows.getLast?.map Row.height).getD options.rowHeight) := by
  unfold lastRow
  dsimp only
  split
  · rename_i tooHigh
    exact Or.inr ⟨tooHigh, rfl⟩
  · exact Or.inl rfl

end Heights

theorem map_ratios_rowsOf
    (options : LayoutOptions)
    (aspectRatios : List ℚ) :
    (rowsOf options aspectRatios).map Row.ratios =
      rowRatios options aspectRatios := by
  unfold rowsOf rowRatios
  dsimp only
  split
  · exact map_ratios_stack _ _
  · rw [List.map_append, map_ratios_stack]
    rfl

theorem flatten_rowRatios
    (options : LayoutOptions)
    (aspectRatios : List ℚ) :
    (rowRatios options aspectRatios).flatten = aspectRatios := by
  have boxes := boxes_breaksOf options aspectRatios
  unfold Breaks.boxes at boxes
  unfold rowRatios
  dsimp only
  split
  · rename_i noRow
    rwa [noRow, List.append_nil] at boxes
  · rwa [List.flatten_append, List.flatten_singleton]

theorem ne_nil_of_mem_rowRatios
    {options : LayoutOptions}
    {aspectRatios ratios : List ℚ}
    (member : ratios ∈ rowRatios options aspectRatios) :
    ratios ≠ [] := by
  have noneEmpty := (holds_breaksOf options aspectRatios).noneEmpty
  unfold rowRatios at member
  dsimp only at member
  split at member
  · exact noneEmpty ratios member
  · rename_i hasRow
    rcases List.mem_append.mp member with isClosed | isLast
    · exact noneEmpty ratios isClosed
    · cases List.mem_singleton.mp isLast
      exact hasRow

variable {options : AdmittedOptions}

theorem fillHeight_pos_of_height_pos
    {aspectRatios : List ℚ}
    {row : Row}
    (member : row ∈ rowsOf options.toLayoutOptions aspectRatios)
    (hasHeight : 0 < row.height) :
    0 < options.fillHeight row.ratios := by
  have closed : ∀ top rows, row ∈ stack options.toLayoutOptions top rows →
      0 < options.fillHeight row.ratios := by
    intro top rows isClosed
    rw [height_of_mem_stack isClosed] at hasHeight
    exact (lt_min_iff.mp hasHeight).1
  unfold rowsOf at member
  dsimp only at member
  split at member
  · exact closed _ _ member
  · rcases List.mem_append.mp member with isClosed | isLast
    · exact closed _ _ isClosed
    · cases List.mem_singleton.mp isLast
      rcases lastRow_height options _ _ with isFill | ⟨tooHigh, -⟩
      · rw [isFill] at hasHeight
        exact hasHeight
      · exact (maxRowHeight_pos options).trans tooHigh

theorem lastRow_height_pos
    {rows : List Row}
    {ratios : List ℚ}
    (positive : ∀ row ∈ rows, 0 < row.height)
    (fills : 0 < options.fillHeight ratios) :
    0 < (lastRow options.toLayoutOptions rows ratios).height := by
  rcases lastRow_height options rows ratios with isFill | ⟨-, isEarlier⟩
  · rw [isFill]
    exact fills
  · rw [isEarlier]
    cases isLast : rows.getLast? with
    | none =>
        exact options.hasHeight
    | some last =>
        exact positive last (List.mem_of_getLast? isLast)

theorem height_pos_of_fillHeight_pos
    {aspectRatios : List ℚ}
    (fills : ∀ ratios ∈ rowRatios options.toLayoutOptions aspectRatios,
      0 < options.fillHeight ratios) :
    ∀ row ∈ rowsOf options.toLayoutOptions aspectRatios, 0 < row.height := by
  have closed : ∀ top rows, (∀ ratios ∈ rows, 0 < options.fillHeight ratios) →
      ∀ row ∈ stack options.toLayoutOptions top rows, 0 < row.height := by
    intro top rows each row member
    have isRatios : row.ratios ∈ rows := by
      rw [← map_ratios_stack rows top]
      exact List.mem_map_of_mem member
    rw [height_of_mem_stack member]
    exact lt_min (each _ isRatios) (maxRowHeight_pos options)
  unfold rowRatios at fills
  unfold rowsOf
  dsimp only at fills ⊢
  split
  · rename_i noRow
    rw [if_pos noRow] at fills
    exact closed _ _ fills
  · rename_i hasRow
    rw [if_neg hasRow] at fills
    have earlier := closed 0 _ fun ratios member =>
      fills ratios (List.mem_append_left _ member)
    intro row member
    rcases List.mem_append.mp member with isClosed | isLast
    · exact earlier row isClosed
    · cases List.mem_singleton.mp isLast
      exact lastRow_height_pos earlier
        (fills _ (List.mem_append_right _ List.mem_cons_self))

theorem exists_position
    {options : LayoutOptions}
    {row : Row}
    (hasBoxes : row.ratios ≠ []) :
    ∃ position ∈ row.positions options, position.height = row.height := by
  obtain ⟨ratios, top, height⟩ := row
  cases ratios with
  | nil =>
      exact absurd rfl hasBoxes
  | cons ratio ratios =>
      exact ⟨_, List.mem_cons_self, rfl⟩

section Laws

variable (options : AdmittedOptions) (boxes : List AspectRatio)

theorem ratios_pos :
    ∀ ratio ∈ boxes.map Subtype.val, 0 < ratio := by
  intro ratio member
  obtain ⟨box, -, rfl⟩ := List.mem_map.mp member
  exact box.property

theorem rowRatios_pos :
    ∀ ratios ∈ rowRatios options.toLayoutOptions (boxes.map Subtype.val),
      ∀ ratio ∈ ratios, 0 < ratio := by
  intro ratios member ratio isRatio
  refine ratios_pos boxes ratio ?_
  rw [← flatten_rowRatios options.toLayoutOptions (boxes.map Subtype.val)]
  exact List.mem_flatten.mpr ⟨ratios, member, isRatio⟩

variable {options boxes}

theorem mem_rowRatios
    {row : Row}
    (member : row ∈ rowsOf options.toLayoutOptions
      (boxes.map Subtype.val)) :
    row.ratios ∈
      rowRatios options.toLayoutOptions (boxes.map Subtype.val) := by
  rw [← map_ratios_rowsOf]
  exact List.mem_map_of_mem member

theorem leavesWidth_of_laws
    (laws : LayoutLaws options boxes) :
    LeavesWidth options boxes := by
  intro ratios member
  have few : ratios.length < UInt16.size := by
    rw [← map_ratios_rowsOf] at member
    obtain ⟨row, isRow, rfl⟩ := List.mem_map.mp member
    rw [← laws.narrowed row isRow]
    exact UInt16.toNat_lt_size _
  have positive := rowRatios_pos options boxes ratios member
  have hasBoxes := ne_nil_of_mem_rowRatios member
  refine ⟨few, (fillHeight_pos_iff positive hasBoxes few).mp ?_⟩
  rw [← map_ratios_rowsOf] at member
  obtain ⟨row, isRow, rfl⟩ := List.mem_map.mp member
  refine fillHeight_pos_of_height_pos isRow ?_
  obtain ⟨position, isPosition, isHeight⟩ := exists_position hasBoxes
  rw [← isHeight]
  refine (laws.positive position ?_).2
  rw [laws.boxes]
  exact List.mem_flatMap.mpr ⟨row, isRow, isPosition⟩

theorem pairwise_flatMap_positions
    {rows : List Row}
    {top : ℚ}
    (ratiosPositive : ∀ row ∈ rows, ∀ ratio ∈ row.ratios, 0 < ratio)
    (positive : ∀ row ∈ rows, 0 < row.height)
    (stacked : StackedFrom options.toLayoutOptions top rows) :
    (rows.flatMap (Row.positions options.toLayoutOptions)).Pairwise
      Position.Apart := by
  refine List.pairwise_flatMap.mpr ⟨fun row member => ?_, ?_⟩
  · exact pairwise_place (positive row member) options.noOverlap
      (ratiosPositive row member) 0
  · refine (List.Pairwise.and_mem.mp
      (stacked.pairwise options.noOverlap positive)).imp ?_
    rintro first second ⟨isFirst, isSecond, above⟩ box isBox other isOther
    have firstIn := isIn_of_mem_place (positive first isFirst)
      options.noOverlap (ratiosPositive first isFirst) isBox
    have secondIn := isIn_of_mem_place (positive second isSecond)
      options.noOverlap (ratiosPositive second isSecond) isOther
    refine Or.inr ?_
    rw [firstIn.top_eq, firstIn.height_eq, secondIn.top_eq]
    exact above

theorem le_foldl_max
    {numbers : List ℚ}
    {number : ℚ}
    (start : ℚ)
    (among : number ≤ start ∨ number ∈ numbers) :
    number ≤ numbers.foldl max start := by
  induction numbers generalizing start with
  | nil =>
      exact among.resolve_right (nomatch ·)
  | cons first numbers inductionHypothesis =>
      rw [List.foldl_cons]
      rcases among with isBelow | member
      · exact inductionHypothesis _
          (Or.inl (isBelow.trans (le_max_left start first)))
      · rcases List.mem_cons.mp member with rfl | isLater
        · exact inductionHypothesis _ (Or.inl (le_max_right start number))
        · exact inductionHypothesis _ (Or.inr isLater)

theorem mem_stack_of_mem_dropLast
    {aspectRatios : List ℚ}
    {row : Row}
    (member : row ∈ (rowsOf options.toLayoutOptions aspectRatios).dropLast) :
    ∃ top closed, row ∈ stack options.toLayoutOptions top closed := by
  unfold rowsOf at member
  dsimp only at member
  split at member
  · exact ⟨_, _, List.dropLast_subset _ member⟩
  · rw [List.dropLast_concat] at member
    exact ⟨_, _, member⟩

/-- Boxes are laid out where the spaces of their rows leave some width. -/
theorem laws_of_leavesWidth
    (leaves : LeavesWidth options boxes) :
    LayoutLaws options boxes := by
  have has := hasRows options.toLayoutOptions (boxes.map Subtype.val)
  have inOrder := flatten_rowRatios options.toLayoutOptions
    (boxes.map Subtype.val)
  have noneEmpty : ∀ row ∈ rowsOf options.toLayoutOptions
      (boxes.map Subtype.val), row.ratios ≠ [] :=
    fun row member => ne_nil_of_mem_rowRatios (mem_rowRatios member)
  have few : ∀ row ∈ rowsOf options.toLayoutOptions (boxes.map Subtype.val),
      row.ratios.length < UInt16.size :=
    fun row member => (leaves _ (mem_rowRatios member)).1
  have ratiosPositive : ∀ row ∈ rowsOf options.toLayoutOptions
      (boxes.map Subtype.val), ∀ ratio ∈ row.ratios, 0 < ratio :=
    fun row member => rowRatios_pos options boxes _ (mem_rowRatios member)
  have positive := @height_pos_of_fillHeight_pos options
    (boxes.map Subtype.val) fun ratios member =>
      (fillHeight_pos_iff (rowRatios_pos options boxes ratios member)
        (ne_nil_of_mem_rowRatios member) (leaves ratios member).1).mpr
          (leaves ratios member).2
  have stacked := @stackedFrom_rowsOf options.toLayoutOptions
    (boxes.map Subtype.val)
  have closed := @mem_stack_of_mem_dropLast options (boxes.map Subtype.val)
  rw [← map_ratios_rowsOf] at inOrder
  unfold LayoutLaws
  generalize rowsOf options.toLayoutOptions (boxes.map Subtype.val) = rows at *
  have isIn : ∀ row ∈ rows, ∀ position ∈ row.positions options.toLayoutOptions,
      position.IsIn row.top row.height 0
        (row.width options.toLayoutOptions) := by
    intro row member position isPosition
    have between := isIn_of_mem_place (positive row member) options.noOverlap
      (ratiosPositive row member) isPosition
    rwa [zero_add, ← spacingPixels_eq (noneEmpty row member) (few row member)]
      at between
  refine
    { inOrder := by rwa [List.flatMap_def]
      noneEmpty := noneEmpty
      boxes := has.positions
      level := fun row _ => place_level 0 row.ratios
      apart := ?_
      positive := ?_
      filled := ?_
      bounded := ?_
      narrowed := fun row member => UInt16.toNat_ofNat_of_lt' (few row member) }
  · rw [has.positions]
    exact pairwise_flatMap_positions ratiosPositive positive stacked
  · intro position member
    rw [has.positions] at member
    obtain ⟨row, isRow, isPosition⟩ := List.mem_flatMap.mp member
    have between := isIn row isRow position isPosition
    refine ⟨between.wide, ?_⟩
    rw [between.height_eq]
    exact positive row isRow
  · intro row member
    have isRow := List.dropLast_subset _ member
    obtain ⟨top, others, isClosed⟩ := closed member
    have height := height_of_mem_stack isClosed
    rcases min_choice (options.fillHeight row.ratios)
      options.maxRowHeight with isFill | isMax
    · refine Or.inl ?_
      rw [height, isFill]
      exact fillHeight_fills (ratiosPositive row isRow) (noneEmpty row isRow)
        (few row isRow)
    · exact Or.inr (height.trans isMax)
  · intro position member
    rw [has.positions] at member
    obtain ⟨row, isRow, isPosition⟩ := List.mem_flatMap.mp member
    have between := isIn row isRow position isPosition
    refine ⟨between.left_le, ?_, between.right_le.trans ?_, ?_⟩
    · rw [between.top_eq]
      exact stacked.le_top options.noOverlap positive row isRow
    · rw [has.width]
      exact le_foldl_max 0 (Or.inr (List.mem_map_of_mem isRow))
    · have isLast := List.getLast?_eq_some_getLast (List.ne_nil_of_mem isRow)
      generalize rows.getLast (List.ne_nil_of_mem isRow) = last at isLast
      rw [between.top_eq, between.height_eq, has.height last isLast]
      exact stacked.le_last options.noOverlap positive isLast row isRow

/-- Boxes are laid out as they should be exactly where their rows have few
enough boxes, with spaces that leave some of the width. -/
theorem layoutLaws_iff
    (options : AdmittedOptions)
    (boxes : List AspectRatio) :
    LayoutLaws options boxes ↔ LeavesWidth options boxes :=
  ⟨leavesWidth_of_laws, laws_of_leavesWidth⟩

/-- A row of two pixels with spaces of two. -/
def narrowOptions : AdmittedOptions where
  rowHeight := 100
  rowWidth := 2
  spacing := 2
  tolerance := 1 / 2
  hasHeight := by norm_num
  hasWidth := by norm_num
  noOverlap := by norm_num
  mayDiffer := by norm_num

/-- A picture that is a thousand times as high as it is wide. -/
def thinBox : AspectRatio :=
  ⟨1 / 1000, by norm_num⟩

/-- Thin boxes can leave no width to their row. -/
theorem thin_boxes_vanish :
    ¬∀ (options : AdmittedOptions) (boxes : List AspectRatio),
        LayoutLaws options boxes := by
  intro always
  have positive := (always narrowOptions [thinBox, thinBox]).positive
  have vanishes : ∃ position ∈ (getJustifiedLayout
      ([thinBox, thinBox].map Subtype.val)
      narrowOptions.toLayoutOptions).positions, position.height = 0 := by
    decide +kernel
  obtain ⟨position, member, isFlat⟩ := vanishes
  exact absurd isFlat (positive position member).2.ne'

end Laws

end Frameleaf.JustifiedLayout
