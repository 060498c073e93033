import Frameleaf.Develop.RecipeLaws
import Mathlib.Tactic.FinCases

namespace Frameleaf.Develop

open Rounding

/-!
# The geometry of a recipe

A frame is turned, flipped and cut in whole pixels.  Points of the oriented frame
are taken back to the original, and areas of the original are scaled into a
window.
-/

/-- The size of a picture in pixels. -/
structure Size where
  width : ℤ
  height : ℤ
  deriving DecidableEq

/-- A point of a picture. -/
structure Point where
  x : ℚ
  y : ℚ
  deriving DecidableEq

/-- A rectangle of pixels. -/
structure Rectangle where
  left : ℤ
  top : ℤ
  width : ℤ
  height : ℤ
  deriving DecidableEq

/-- What is done to the pixels of a frame. -/
structure DevelopGeometryPlan where
  rotation : ℤ
  flipHorizontal : Bool
  flipVertical : Bool
  perspective : Option (List (String × ℚ))
  oriented : Size
  straighten : ℚ
  extract : Rectangle
  output : Size
  deriving DecidableEq

/-- Whether a rotation swaps the sides of a frame. -/
def isSwapped (rotation : ℤ) : Bool :=
  rotation = 90 ∨ rotation = 270

/-- The size of a frame after a rotation. -/
def turnedSize
    (rotation : ℤ)
    (size : Size) : Size :=
  { width := if isSwapped rotation then size.height else size.width
    height := if isSwapped rotation then size.width else size.height }

/-- The geometry of a recipe in the pixels of a frame. -/
def planDevelopGeometry
    (recipe : AssetDevelopRecipe)
    (size : Size) : DevelopGeometryPlan :=
  let oriented := turnedSize recipe.rotation size
  let crop := normalizeCrop (some (.object [("x", .number recipe.crop.x),
    ("y", .number recipe.crop.y), ("w", .number recipe.crop.w),
    ("h", .number recipe.crop.h)]))
  let perspective := normalizePerspective (recipe.perspective.map fun sides =>
    .object (sides.map fun side => (side.1, .number side.2)))
  let left := nearest (crop.x * oriented.width)
  let top := nearest (crop.y * oriented.height)
  let extractWidth := max 1 (min (oriented.width - left)
    (nearest (crop.w * oriented.width)))
  let extractHeight := max 1 (min (oriented.height - top)
    (nearest (crop.h * oriented.height)))
  { rotation := recipe.rotation
    flipHorizontal := recipe.flipHorizontal
    flipVertical := recipe.flipVertical
    perspective := perspective
    oriented := oriented
    straighten := toGrid 100 (clamp recipe.straighten (-45) 45)
    extract := ⟨left, top, extractWidth, extractHeight⟩
    output := ⟨extractWidth, extractHeight⟩ }

/-- How a frame is oriented. -/
structure Mapping where
  oriented : Size
  rotation : ℤ
  flipHorizontal : Bool
  flipVertical : Bool

/-- A point of the oriented frame in the original, and the size of the
original. -/
def orientedToOriginal
    (point : Point)
    (mapping : Mapping) : Point × Size :=
  let x := if mapping.flipHorizontal then mapping.oriented.width - point.x
    else point.x
  let y := if mapping.flipVertical then mapping.oriented.height - point.y
    else point.y
  let original := turnedSize mapping.rotation mapping.oriented
  if mapping.rotation = 90 then
    (⟨y, original.height - x⟩, original)
  else if mapping.rotation = 180 then
    (⟨original.width - x, original.height - y⟩, original)
  else if mapping.rotation = 270 then
    (⟨original.width - y, x⟩, original)
  else
    (⟨x, y⟩, original)

/-- A box of a picture. -/
structure Box where
  left : ℚ
  top : ℚ
  right : ℚ
  bottom : ℚ
  deriving DecidableEq

/-- Where the pixels that fill an area are computed. -/
structure FillWindow where
  window : Box
  scale : ℚ
  width : ℤ
  height : ℤ
  area : Rectangle
  deriving DecidableEq

/-- A whole number that is moved into a range. -/
def clampWhole (value low high : ℤ) : ℤ :=
  max low (min high value)

/-- An area with as much context around it, scaled to at most a length. -/
def developFillWindow
    (box : Box)
    (original : Size)
    (maxSide : ℕ) : FillWindow :=
  let margin := ⌈max (box.right - box.left) (box.bottom - box.top) / 2⌉
  let window : Box :=
    { left := clamp (box.left - margin) 0 original.width
      top := clamp (box.top - margin) 0 original.height
      right := clamp (box.right + margin) 0 original.width
      bottom := clamp (box.bottom + margin) 0 original.height }
  let scale := min 1 (maxSide /
    max 1 (max (window.right - window.left) (window.bottom - window.top)))
  let width := max 1 (nearest ((window.right - window.left) * scale))
  let height := max 1 (nearest ((window.bottom - window.top) * scale))
  let left := clampWhole (nearest ((box.left - window.left) * scale)) 0
    (width - 1)
  let top := clampWhole (nearest ((box.top - window.top) * scale)) 0
    (height - 1)
  { window := window
    scale := scale
    width := width
    height := height
    area :=
      { left := left
        top := top
        width := clampWhole (nearest ((box.right - box.left) * scale)) 1
          (width - left)
        height := clampWhole (nearest ((box.bottom - box.top) * scale)) 1
          (height - top) } }

open Rounding

/-!
## Rectangles that stay inside

The rectangle that is cut out of a frame is inside it, unless an offset is
rounded to the far edge.  Turning and flipping a point is undone, and a window
for an area is inside the original and contains the area.
-/

/-- A frame that has pixels. -/
structure Frame where
  size : Size
  wide : 1 ≤ size.width
  high : 1 ≤ size.height

/-- A rectangle that has pixels is inside a picture. -/
structure Rectangle.IsInside
    (rectangle : Rectangle)
    (size : Size) : Prop where
  left : 0 ≤ rectangle.left
  top : 0 ≤ rectangle.top
  wide : 0 < rectangle.width
  high : 0 < rectangle.height
  right : rectangle.left + rectangle.width ≤ size.width
  bottom : rectangle.top + rectangle.height ≤ size.height

/-- A picture with one of its points. -/
abbrev Placed := Size × Point

/-- A picture turned clockwise by a quarter. -/
def quarterTurn (placed : Placed) : Placed :=
  (⟨placed.1.height, placed.1.width⟩,
    ⟨placed.1.height - placed.2.y, placed.2.x⟩)

/-- A picture that is flipped. -/
def flipped
    (horizontal vertical : Bool)
    (placed : Placed) : Placed :=
  (placed.1,
    { x := if horizontal then placed.1.width - placed.2.x else placed.2.x
      y := if vertical then placed.1.height - placed.2.y else placed.2.y })

/-- A picture that is turned by quarters and then flipped. -/
def orient
    (quarters : Fin 4)
    (horizontal vertical : Bool)
    (placed : Placed) : Placed :=
  flipped horizontal vertical (quarterTurn^[quarters] placed)

/-- The mapping that takes an oriented picture back. -/
def mappingOf
    (quarters : Fin 4)
    (horizontal vertical : Bool)
    (oriented : Size) : Mapping where
  oriented := oriented
  rotation := quarters.val * 90
  flipHorizontal := horizontal
  flipVertical := vertical

/-- A box of positive size is inside a picture. -/
structure Box.IsInside
    (box : Box)
    (size : Size) : Prop where
  left : 0 ≤ box.left
  top : 0 ≤ box.top
  wide : box.left < box.right
  high : box.top < box.bottom
  right : box.right ≤ size.width
  bottom : box.bottom ≤ size.height

/-- A box is within another. -/
structure Box.IsWithin (box outer : Box) : Prop where
  left : outer.left ≤ box.left
  top : outer.top ≤ box.top
  right : box.right ≤ outer.right
  bottom : box.bottom ≤ outer.bottom

/-- The window for an area contains it, is inside the original and no larger
than is allowed, and has the area in it. -/
structure FillWindow.IsSound
    (fill : FillWindow)
    (box : Box)
    (original : Size)
    (maxSide : ℕ) : Prop where
  contains : box.IsWithin fill.window
  inside : fill.window.IsInside original
  width : 1 ≤ fill.width ∧ fill.width ≤ maxSide
  height : 1 ≤ fill.height ∧ fill.height ≤ maxSide
  area : fill.area.IsInside ⟨fill.width, fill.height⟩

/-- The offsets of a crop are rounded to pixels of the oriented frame. -/
structure StartsInside
    (recipe : AssetDevelopRecipe)
    (size : Size) : Prop where
  left : recipe.crop.x * (turnedSize recipe.rotation size).width <
    (turnedSize recipe.rotation size).width - 1 / 2
  top : recipe.crop.y * (turnedSize recipe.rotation size).height <
    (turnedSize recipe.rotation size).height - 1 / 2

theorem orientedToOriginal_flipped
    (quarters : Fin 4)
    (horizontal vertical : Bool)
    (placed : Placed) :
    orientedToOriginal (flipped horizontal vertical placed).2
        (mappingOf quarters horizontal vertical placed.1) =
      orientedToOriginal placed.2 (mappingOf quarters false false placed.1) := by
  cases horizontal <;> cases vertical <;>
    simp [orientedToOriginal, flipped, mappingOf]

theorem orientedToOriginal_turned
    (quarters : Fin 4)
    (placed : Placed) :
    orientedToOriginal (quarterTurn^[quarters] placed).2
        (mappingOf quarters false false (quarterTurn^[quarters] placed).1) =
      (placed.2, placed.1) := by
  fin_cases quarters <;>
    simp [orientedToOriginal, mappingOf, quarterTurn, turnedSize, isSwapped]

theorem orientedToOriginal_orient
    (quarters : Fin 4)
    (horizontal vertical : Bool)
    (placed : Placed) :
    orientedToOriginal (orient quarters horizontal vertical placed).2
        (mappingOf quarters horizontal vertical
          (orient quarters horizontal vertical placed).1) =
      (placed.2, placed.1) :=
  (orientedToOriginal_flipped quarters horizontal vertical _).trans
    (orientedToOriginal_turned quarters placed)

variable {box : Box} {original : Size} {maxSide : ℕ}

theorem clampWhole_mem
    {low high : ℤ}
    (ordered : low ≤ high)
    (value : ℤ) :
    low ≤ clampWhole value low high ∧ clampWhole value low high ≤ high :=
  ⟨le_max_left _ _, max_le ordered (min_le_left _ _)⟩

theorem margin_nonneg
    (inside : box.IsInside original) :
    (0 : ℚ) ≤ (⌈max (box.right - box.left) (box.bottom - box.top) / 2⌉ : ℤ) := by
  have wide := inside.wide
  have positive : 0 ≤ max (box.right - box.left) (box.bottom - box.top) :=
    le_max_of_le_left (by linarith)
  exact Int.cast_nonneg (Int.ceil_nonneg (by linarith))

theorem scaled_mem
    (someSide : 1 ≤ maxSide)
    {side longest : ℚ}
    (isSide : side ≤ longest) :
    1 ≤ max 1 (nearest (side * min 1 (maxSide / max 1 longest))) ∧
      max 1 (nearest (side * min 1 (maxSide / max 1 longest))) ≤ (maxSide : ℤ) := by
  refine ⟨le_max_left _ _, max_le (by exact_mod_cast someSide) ?_⟩
  refine nearest_le ?_
  have positive : (0 : ℚ) < max 1 longest :=
    lt_max_of_lt_left one_pos
  have scaleNonneg : (0 : ℚ) ≤ min 1 (maxSide / max 1 longest) := by
    positivity
  calc side * min 1 (maxSide / max 1 longest)
      ≤ max 1 longest * min 1 (maxSide / max 1 longest) :=
        mul_le_mul_of_nonneg_right (isSide.trans (le_max_right _ _))
          scaleNonneg
    _ ≤ max 1 longest * (maxSide / max 1 longest) :=
        mul_le_mul_of_nonneg_left (min_le_right _ _) positive.le
    _ = ((maxSide : ℤ) : ℚ) := by
        rw [mul_div_cancel₀ _ positive.ne']
        norm_cast

theorem area_isInside
    (size : Size)
    (offsetX offsetY sideX sideY : ℤ)
    (wide : 1 ≤ size.width)
    (high : 1 ≤ size.height) :
    Rectangle.IsInside
      { left := clampWhole offsetX 0 (size.width - 1)
        top := clampWhole offsetY 0 (size.height - 1)
        width := clampWhole sideX 1
          (size.width - clampWhole offsetX 0 (size.width - 1))
        height := clampWhole sideY 1
          (size.height - clampWhole offsetY 0 (size.height - 1)) } size := by
  have left := clampWhole_mem (sub_nonneg.mpr wide) offsetX
  have top := clampWhole_mem (sub_nonneg.mpr high) offsetY
  have width : 1 ≤ size.width - clampWhole offsetX 0 (size.width - 1) := by
    omega
  have height : 1 ≤ size.height - clampWhole offsetY 0 (size.height - 1) := by
    omega
  have isWide := clampWhole_mem width sideX
  have isHigh := clampWhole_mem height sideY
  constructor
  · exact left.1
  · exact top.1
  · exact isWide.1
  · exact isHigh.1
  · dsimp only
    omega
  · dsimp only
    omega

/-- Every window is sound. -/
theorem developFillWindow_sound
    (inside : box.IsInside original)
    (someSide : 1 ≤ maxSide) :
    (developFillWindow box original maxSide).IsSound box original maxSide := by
  have margin := margin_nonneg inside
  obtain ⟨left, top, wide, high, right, bottom⟩ := inside
  have windowLeft : 0 ≤ (developFillWindow box original maxSide).window.left ∧
      (developFillWindow box original maxSide).window.left ≤ box.left :=
    ⟨low_le_clamp _ _ _, max_le left ((min_le_right _ _).trans (by linarith))⟩
  have windowTop : 0 ≤ (developFillWindow box original maxSide).window.top ∧
      (developFillWindow box original maxSide).window.top ≤ box.top :=
    ⟨low_le_clamp _ _ _, max_le top ((min_le_right _ _).trans (by linarith))⟩
  have windowRight :
      box.right ≤ (developFillWindow box original maxSide).window.right ∧
        (developFillWindow box original maxSide).window.right ≤
          original.width :=
    ⟨le_max_of_le_right (le_min right (by linarith)),
      clamp_le_high (by linarith)⟩
  have windowBottom :
      box.bottom ≤ (developFillWindow box original maxSide).window.bottom ∧
        (developFillWindow box original maxSide).window.bottom ≤
          original.height :=
    ⟨le_max_of_le_right (le_min bottom (by linarith)),
      clamp_le_high (by linarith)⟩
  have width := scaled_mem someSide (le_max_left
    ((developFillWindow box original maxSide).window.right -
      (developFillWindow box original maxSide).window.left)
    ((developFillWindow box original maxSide).window.bottom -
      (developFillWindow box original maxSide).window.top))
  have height := scaled_mem someSide (le_max_right
    ((developFillWindow box original maxSide).window.right -
      (developFillWindow box original maxSide).window.left)
    ((developFillWindow box original maxSide).window.bottom -
      (developFillWindow box original maxSide).window.top))
  constructor
  · exact ⟨windowLeft.2, windowTop.2, windowRight.1, windowBottom.1⟩
  · exact ⟨windowLeft.1, windowTop.1, by linarith, by linarith, windowRight.2,
      windowBottom.2⟩
  · exact width
  · exact height
  · exact area_isInside
      ⟨(developFillWindow box original maxSide).width,
        (developFillWindow box original maxSide).height⟩ _ _ _ _ width.1 height.1

theorem extract_side_iff
    {offset side length : ℤ} :
    offset + max 1 (min (length - offset) side) ≤ length ↔ offset < length := by
  omega

theorem extract_eq
    (candidate : Option Value)
    (size : Size) :
    (planDevelopGeometry (normalizeDevelopRecipe candidate) size).extract =
      let crop := (normalizeDevelopRecipe candidate).crop
      let oriented := turnedSize (normalizeDevelopRecipe candidate).rotation size
      { left := nearest (crop.x * oriented.width)
        top := nearest (crop.y * oriented.height)
        width := max 1 (min (oriented.width - nearest (crop.x * oriented.width))
          (nearest (crop.w * oriented.width)))
        height := max 1 (min
          (oriented.height - nearest (crop.y * oriented.height))
          (nearest (crop.h * oriented.height))) } := by
  have isCrop : normalizeCrop
      (some (normalizeDevelopRecipe candidate).crop.value) =
        (normalizeDevelopRecipe candidate).crop :=
    normalizeCrop_again _
  conv_rhs => rw [← isCrop]
  rfl

/-- The rectangle that is cut out of a frame is inside it exactly when its
offsets are rounded to pixels of the frame. -/
theorem extract_isInside_iff
    (candidate : Option Value)
    (frame : Frame) :
    (planDevelopGeometry (normalizeDevelopRecipe candidate)
        frame.size).extract.IsInside
      (planDevelopGeometry (normalizeDevelopRecipe candidate)
        frame.size).oriented ↔
      StartsInside (normalizeDevelopRecipe candidate) frame.size := by
  have crop := (normalizeDevelopRecipe_inRange candidate).crop
  have isOriented : (planDevelopGeometry (normalizeDevelopRecipe candidate)
      frame.size).oriented =
        turnedSize (normalizeDevelopRecipe candidate).rotation frame.size :=
    rfl
  have sides : 0 ≤
        (turnedSize (normalizeDevelopRecipe candidate).rotation
          frame.size).width ∧
      0 ≤ (turnedSize (normalizeDevelopRecipe candidate).rotation
        frame.size).height := by
    have wide := frame.wide
    have high := frame.high
    unfold turnedSize
    dsimp only
    constructor <;> split <;> omega
  have offset : ∀ {fraction : ℚ} {side : ℤ}, 0 ≤ fraction → 0 ≤ side →
      0 ≤ nearest (fraction * side) := by
    intro fraction side isFraction isSide
    refine le_nearest ?_
    rw [Int.cast_zero]
    exact mul_nonneg isFraction (Int.cast_nonneg isSide)
  rw [extract_eq, isOriented]
  constructor
  · intro inside
    have right := inside.right
    have bottom := inside.bottom
    exact ⟨nearest_lt_iff.mp (extract_side_iff.mp right),
      nearest_lt_iff.mp (extract_side_iff.mp bottom)⟩
  · intro starts
    exact
      { left := offset crop.left.1 sides.1
        top := offset crop.top.1 sides.2
        wide := lt_max_of_lt_left one_pos
        high := lt_max_of_lt_left one_pos
        right := extract_side_iff.mpr (nearest_lt_iff.mpr starts.left)
        bottom := extract_side_iff.mpr (nearest_lt_iff.mpr starts.top) }

/-- What the geometry of a recipe promises for a frame. -/
structure GeometryLaws
    (candidate : Option Value)
    (frame : Frame) : Prop where
  /-- The rectangle that is cut out has pixels and is inside the oriented
  frame. -/
  extract : (planDevelopGeometry (normalizeDevelopRecipe candidate)
      frame.size).extract.IsInside
    (planDevelopGeometry (normalizeDevelopRecipe candidate)
      frame.size).oriented
  /-- Turns and flips of a point are undone, and the size is the original's. -/
  undone : ∀ (quarters : Fin 4) (horizontal vertical : Bool) (point : Point),
    orientedToOriginal
        (orient quarters horizontal vertical (frame.size, point)).2
        (mappingOf quarters horizontal vertical
          (orient quarters horizontal vertical (frame.size, point)).1) =
      (point, frame.size)
  /-- The window for an area contains it and is inside the original. -/
  window : ∀ (box : Box) (maxSide : ℕ), box.IsInside frame.size →
    1 ≤ maxSide →
      (developFillWindow box frame.size maxSide).IsSound box frame.size maxSide

/-- The geometry keeps its promise exactly when the offsets of the crop are
rounded to pixels of the frame. -/
theorem geometryLaws_iff
    (candidate : Option Value)
    (frame : Frame) :
    GeometryLaws candidate frame ↔
      StartsInside (normalizeDevelopRecipe candidate) frame.size := by
  rw [← extract_isInside_iff]
  constructor
  · exact GeometryLaws.extract
  · intro extract
    exact ⟨extract,
      fun quarters horizontal vertical point =>
        orientedToOriginal_orient quarters horizontal vertical
          (frame.size, point),
      fun box maxSide inside someSide =>
        developFillWindow_sound inside someSide⟩

/-- A frame of one pixel. -/
def onePixel : Frame where
  size := ⟨1, 1⟩
  wide := Int.le_refl 1
  high := Int.le_refl 1

/-- A recipe that keeps the right half of a picture. -/
def rightHalf : Value :=
  .object [("crop", .object [("x", .number (1 / 2)), ("w", .number (1 / 2))])]

/-- The right half of one pixel is outside of it. -/
theorem right_half_outside :
    ¬∀ candidate frame, GeometryLaws candidate frame := by
  intro laws
  have right := (laws (some rightHalf) onePixel).extract.right
  exact absurd right (by decide +kernel)

end Frameleaf.Develop
