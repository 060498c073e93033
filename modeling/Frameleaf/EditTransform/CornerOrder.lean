import Frameleaf.EditTransform.TransformLaws
import Mathlib.Algebra.Order.Field.Basic

namespace Frameleaf.EditTransform

open Plane

/-!
# Corners keep their order

The corners of a box come in the order top-left, top-right, bottom-right,
bottom-left.  After quarter turns they have this order again when they are
reordered by the net rotation.
-/

variable
  {K : Type}
  [Field K] [LinearOrder K] [IsStrictOrderedRing K]

/-- A comparison of numbers that depends on their distance only. -/
structure OfDistance
    (below : K → K → Prop) : Prop where
  add : ∀ x y shift, below (x + shift) (y + shift) ↔ below x y
  neg : ∀ x y, below (-x) (-y) ↔ below y x
  mul : ∀ x y factor, 0 < factor → (below (x * factor) (y * factor) ↔ below x y)

theorem OfDistance.div
    {below : K → K → Prop}
    (ofDistance : OfDistance below)
    (x y : K)
    {factor : K}
    (positive : 0 < factor) :
    below (x / factor) (y / factor) ↔ below x y := by
  rw [div_eq_mul_inv, div_eq_mul_inv]
  exact ofDistance.mul x y _ (inv_pos.mpr positive)

theorem OfDistance.lt : OfDistance (K := K) (· < ·) where
  add := fun _ _ _ => add_lt_add_iff_right _
  neg := fun _ _ => neg_lt_neg_iff
  mul := fun _ _ _ positive => mul_lt_mul_iff_left₀ positive

theorem OfDistance.le : OfDistance (K := K) (· ≤ ·) where
  add := fun _ _ _ => add_le_add_iff_right _
  neg := fun _ _ => neg_le_neg_iff
  mul := fun _ _ _ positive => mul_le_mul_iff_left₀ positive

variable {Content : Type}

/-- The corners are top-left, top-right, bottom-right and bottom-left: the left
ones are left of the right ones, and the top ones are above the bottom ones. -/
structure AssetOcr.InOrder
    (before : K → K → Prop)
    (box : AssetOcr Content K) : Prop where
  top : before box.p1.x box.p2.x
  bottom : before box.p4.x box.p3.x
  left : before box.p1.y box.p4.y
  right : before box.p2.y box.p3.y

omit [Field K] [LinearOrder K] [IsStrictOrderedRing K] in
theorem AssetOcr.inOrder_iff
    (before : K → K → Prop)
    (box : AssetOcr Content K) :
    box.InOrder before ↔
      before box.p1.x box.p2.x ∧ before box.p4.x box.p3.x ∧
        before box.p1.y box.p4.y ∧ before box.p2.y box.p3.y := by
  refine ⟨?_, ?_⟩
  · rintro ⟨top, bottom, left, right⟩
    exact ⟨top, bottom, left, right⟩
  · rintro ⟨top, bottom, left, right⟩
    exact ⟨top, bottom, left, right⟩

/-- Dimensions of an image that has points. -/
structure ImageDimensions.Positive
    (dimensions : ImageDimensions K) : Prop where
  width : 0 < dimensions.width
  height : 0 < dimensions.height

/-- An edit that cuts to an image that has points, if it cuts. -/
def AssetEditActionItem.CutsPositive : AssetEditActionItem K → Prop
  | .crop parameters =>
      0 < parameters.width ∧ 0 < parameters.height
  | _ =>
      True

omit [Field K] [LinearOrder K] [IsStrictOrderedRing K] in
theorem mem_of_firstCrop
    {edits : List (AssetEditActionItem K)}
    {crop : CropParameters K}
    (found : firstCrop edits = some crop) :
    AssetEditActionItem.crop crop ∈ edits := by
  induction edits with
  | nil =>
      exact nomatch found
  | cons edit rest inductionHypothesis =>
      cases edit with
      | crop parameters =>
          cases found
          exact List.mem_cons_self
      | rotate angle | mirror axis | other action =>
          exact List.mem_cons_of_mem _ (inductionHypothesis found)

omit [IsStrictOrderedRing K] in
theorem ImageDimensions.Positive.swapSides
    {dimensions : ImageDimensions K}
    (positive : dimensions.Positive)
    (edit : AssetEditActionItem K) :
    (EditTransform.swapSides dimensions edit).Positive := by
  cases edit with
  | rotate angle =>
      unfold EditTransform.swapSides
      dsimp only
      split
      · exact ⟨positive.height, positive.width⟩
      · exact positive
  | crop parameters | mirror axis | other action =>
      exact positive

omit [IsStrictOrderedRing K] in
theorem ImageDimensions.Positive.getOutputDimensions
    {dimensions : ImageDimensions K}
    (positive : dimensions.Positive)
    {edits : List (AssetEditActionItem K)}
    (cuts : ∀ edit ∈ edits, edit.CutsPositive) :
    (EditTransform.getOutputDimensions edits dimensions).Positive := by
  have swapped : ∀ (some : List (AssetEditActionItem K))
      (start : ImageDimensions K), start.Positive →
      (some.foldl EditTransform.swapSides start).Positive := by
    intro some
    induction some with
    | nil =>
        exact fun _ startPositive => startPositive
    | cons edit rest inductionHypothesis =>
        exact fun start startPositive =>
          inductionHypothesis _ (startPositive.swapSides edit)
  unfold EditTransform.getOutputDimensions
  refine swapped edits _ ?_
  cases found : firstCrop edits with
  | none =>
      exact positive
  | some crop =>
      obtain ⟨width, height⟩ := cuts _ (mem_of_firstCrop found)
      exact ⟨width, height⟩

/-- Corners of an image that were turned have the order of before when they
are reordered by the turn and counted by positive sides. -/
theorem reordered_inOrder
    {before : K → K → Prop}
    (ofDistance : OfDistance before)
    {quarters : ℤ}
    {motion : Point K → Point K}
    (turns : Turns quarters motion)
    {image output : ImageDimensions K}
    (imagePositive : image.Positive)
    (outputPositive : output.Positive)
    (box : AssetOcr Content K) :
    let scale (corner : Point K) : Point K :=
      ⟨corner.x * image.width, corner.y * image.height⟩
    let relative (point : Point K) : Point K :=
      ⟨point.x / output.width, point.y / output.height⟩
    let turned := reorderQuadPointsForRotation
      (motion (scale box.p1), motion (scale box.p2), motion (scale box.p3),
        motion (scale box.p4)) (90 * (quarters % 4))
    (AssetOcr.mk box.content (relative turned.1) (relative turned.2.1)
        (relative turned.2.2.1) (relative turned.2.2.2)).InOrder before ↔
      box.InOrder before := by
  intro scale relative turned
  obtain ⟨x, y, moved⟩ := turns
  have overWidth := fun first second =>
    ofDistance.div first second outputPositive.width
  have overHeight := fun first second =>
    ofDistance.div first second outputPositive.height
  have byWidth := fun first second =>
    ofDistance.mul first second image.width imagePositive.width
  have byHeight := fun first second =>
    ofDistance.mul first second image.height imagePositive.height
  have motionEq : ∀ point, motion point =
      ⟨quarterCos quarters * point.x - quarterSin quarters * point.y + x,
        quarterSin quarters * point.x + quarterCos quarters * point.y + y⟩ := by
    intro point
    rw [moved, PlaneMap.apply_shift, PlaneMap.quarterTurn,
      PlaneMap.apply_turn]
  rw [AssetOcr.inOrder_iff, AssetOcr.inOrder_iff]
  -- In each quarter another corner comes first.
  rcases quarter_values (K := K) quarters with
    ⟨last, cos, sin⟩ | ⟨last, cos, sin⟩ | ⟨last, cos, sin⟩ | ⟨last, cos, sin⟩
  · simp only [cos, sin, one_mul, zero_mul, sub_zero, zero_add] at motionEq
    have reordered : turned = (motion (scale box.p1), motion (scale box.p2),
        motion (scale box.p3), motion (scale box.p4)) := by
      simp only [turned, last]
      rfl
    simp only [reordered, relative, overWidth, overHeight, motionEq,
      ofDistance.add, scale, byWidth, byHeight]
  · simp only [cos, sin, one_mul, zero_mul, zero_sub, add_zero] at motionEq
    have reordered : turned = (motion (scale box.p4), motion (scale box.p1),
        motion (scale box.p2), motion (scale box.p3)) := by
      simp only [turned, last]
      rfl
    simp only [reordered, relative, overWidth, overHeight, motionEq,
      ofDistance.add, ofDistance.neg, scale, byWidth, byHeight]
    tauto
  · simp only [cos, sin, neg_mul, one_mul, zero_mul, sub_zero, zero_add]
      at motionEq
    have reordered : turned = (motion (scale box.p3), motion (scale box.p4),
        motion (scale box.p1), motion (scale box.p2)) := by
      simp only [turned, last]
      rfl
    simp only [reordered, relative, overWidth, overHeight, motionEq,
      ofDistance.add, ofDistance.neg, scale, byWidth, byHeight]
    tauto
  · simp only [cos, sin, neg_mul, one_mul, zero_mul, sub_neg_eq_add, zero_add,
      add_zero] at motionEq
    have reordered : turned = (motion (scale box.p2), motion (scale box.p3),
        motion (scale box.p4), motion (scale box.p1)) := by
      simp only [turned, last]
      rfl
    simp only [reordered, relative, overWidth, overHeight, motionEq,
      ofDistance.add, ofDistance.neg, scale, byWidth, byHeight]
    tauto

/-- Edits of an image with their corners and angles as they are checked. -/
structure Edits (K : Type) [Field K] [LinearOrder K] where
  list : List (AssetEditActionItem K)
  byQuarters : ∀ edit ∈ list, edit.ByQuarters
  cuts : ∀ edit ∈ list, edit.CutsPositive

/-- An image that has points. -/
structure Image (K : Type) [Field K] [LinearOrder K] where
  dimensions : ImageDimensions K
  positive : dimensions.Positive

theorem transformOcrBoundingBox_inOrder
    (matrices : MatrixLibrary K)
    {before : K → K → Prop}
    (ofDistance : OfDistance before)
    (box : AssetOcr Content K)
    (edits : Edits K)
    (unmirrored : ∀ edit ∈ edits.list, edit.Unmirrored)
    (image : Image K) :
    (transformOcrBoundingBox matrices box edits.list
        image.dimensions).InOrder before ↔
      box.InOrder before := by
  unfold transformOcrBoundingBox
  split
  · rfl
  obtain ⟨motion, turns, moved⟩ := transformPoints_turns matrices
    [⟨box.p1.x * image.dimensions.width, box.p1.y * image.dimensions.height⟩,
      ⟨box.p2.x * image.dimensions.width, box.p2.y * image.dimensions.height⟩,
      ⟨box.p3.x * image.dimensions.width, box.p3.y * image.dimensions.height⟩,
      ⟨box.p4.x * image.dimensions.width, box.p4.y * image.dimensions.height⟩]
    edits.byQuarters unmirrored image.dimensions
  have output := image.positive.getOutputDimensions edits.cuts
  rw [← dimensions_transformPoints matrices
    [⟨box.p1.x * image.dimensions.width, box.p1.y * image.dimensions.height⟩,
      ⟨box.p2.x * image.dimensions.width, box.p2.y * image.dimensions.height⟩,
      ⟨box.p3.x * image.dimensions.width, box.p3.y * image.dimensions.height⟩,
      ⟨box.p4.x * image.dimensions.width, box.p4.y * image.dimensions.height⟩]]
    at output
  rw [netRotation_eq edits.byQuarters]
  dsimp only
  rw [moved]
  exact reordered_inOrder ofDistance turns image.positive output box

/-- What is promised of points and corners. -/
structure TransformLaws
    (matrices : MatrixLibrary K) : Prop where
  /-- Points that go forward and back with the output dimensions come back. -/
  inverse : ∀ edits : List (AssetEditActionItem K),
    (∀ edit ∈ edits, edit.ByQuarters) →
      ∀ (dimensions : ImageDimensions K) (points : List (Point K)),
        let forward := transformPoints matrices points edits dimensions false
        (transformPoints matrices forward.points edits
          ⟨forward.currentWidth, forward.currentHeight⟩ true).points = points
  /-- The transformation ends at the output dimensions. -/
  dimensions : ∀ (edits : List (AssetEditActionItem K))
    (dimensions : ImageDimensions K) (points : List (Point K)),
    let forward := transformPoints matrices points edits dimensions false
    getOutputDimensions edits dimensions =
      ⟨forward.currentWidth, forward.currentHeight⟩
  /-- Without mirrorings, a text has its corners in order after the edits
  exactly when it had them in order before. -/
  corners : ∀ (Content : Type) (edits : Edits K),
    (∀ edit ∈ edits.list, edit.Unmirrored) →
      ∀ (image : Image K) (box : AssetOcr Content K),
        (transformOcrBoundingBox matrices box edits.list
            image.dimensions).InOrder (· < ·) ↔
          box.InOrder (· < ·)
  /-- The same holds where corners may be on one line. -/
  cornersOnLine : ∀ (Content : Type) (edits : Edits K),
    (∀ edit ∈ edits.list, edit.Unmirrored) →
      ∀ (image : Image K) (box : AssetOcr Content K),
        (transformOcrBoundingBox matrices box edits.list
            image.dimensions).InOrder (· ≤ ·) ↔
          box.InOrder (· ≤ ·)

/-- The laws hold for every library that is as documented. -/
theorem transformLaws
    (matrices : MatrixLibrary K) : TransformLaws matrices where
  inverse := fun _ byQuarters dimensions points =>
    transformPoints_inverse matrices points byQuarters dimensions
  dimensions := fun edits dimensions points =>
    (dimensions_transformPoints matrices points edits dimensions).symm
  corners := fun _ edits unmirrored image box =>
    transformOcrBoundingBox_inOrder matrices .lt box edits unmirrored image
  cornersOnLine := fun _ edits unmirrored image box =>
    transformOcrBoundingBox_inOrder matrices .le box edits unmirrored image

/-- They hold for exact fractions and for real numbers. -/
theorem transformLaws_exact :
    TransformLaws rationalMatrices ∧ TransformLaws realMatrices :=
  ⟨transformLaws rationalMatrices, transformLaws realMatrices⟩

end Frameleaf.EditTransform
