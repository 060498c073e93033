import Frameleaf.Lib.PlaneMap

namespace Frameleaf.EditTransform

open Plane

/-!
# Points of an edited image

Points are taken through the crop, the rotations and the mirrorings of an
image, or back.  The matrices come from a library and all numbers are exact.
-/

/-- A rectangle that an image is cut to. -/
structure CropParameters (K : Type) where
  x : K
  y : K
  width : K
  height : K

/-- What an image is mirrored along. -/
inductive MirrorAxis where
  | horizontal
  | vertical
  deriving DecidableEq

/-- An edit; only three actions move points. -/
inductive AssetEditActionItem (K : Type) where
  | crop (parameters : CropParameters K)
  | rotate (angle : ℤ)
  | mirror (axis : MirrorAxis)
  | other (action : String)

/-- The size of an image. -/
structure ImageDimensions (K : Type) where
  width : K
  height : K

/-- Points, and the size of the image that they are in. -/
structure TransformState (K : Type) where
  points : List (Point K)
  currentWidth : K
  currentHeight : K

/-- Points on their way through edits. -/
structure Transforming (K : Type) extends TransformState K where
  ownsPoints : Bool

/-- A library of matrices as it is documented.  An angle is given in
degrees, and stands for the same angle in radians. -/
structure MatrixLibrary (K : Type) [Field K] where
  compose : List (PlaneMap K) → PlaneMap K
  translate : K → K → PlaneMap K
  rotate : ℤ → PlaneMap K
  flipX : PlaneMap K
  flipY : PlaneMap K
  applyToPoint : PlaneMap K → Point K → Point K
  /-- The last matrix is applied first. -/
  composed : ∀ matrices,
    compose matrices = matrices.foldr PlaneMap.comp PlaneMap.identity
  translated : ∀ x y, translate x y = .shift x y
  /-- Quarter turns are exact. -/
  rotated : ∀ quarters, rotate (90 * quarters) = .quarterTurn quarters
  flippedX : flipX = .stretch 1 (-1)
  flippedY : flipY = .stretch (-1) 1
  applied : ∀ matrix point, applyToPoint matrix point = matrix.apply point

/-- A library for exact fractions that knows quarter turns only. -/
def rationalMatrices : MatrixLibrary ℚ where
  compose := List.foldr PlaneMap.comp PlaneMap.identity
  translate := .shift
  rotate := fun angle => .quarterTurn (angle / 90)
  flipX := .stretch 1 (-1)
  flipY := .stretch (-1) 1
  applyToPoint := PlaneMap.apply
  composed := fun _ => rfl
  translated := fun _ _ => rfl
  rotated := by
    intro quarters
    rw [Int.mul_ediv_cancel_left quarters (by decide)]
  flippedX := rfl
  flippedY := rfl
  applied := fun _ _ => rfl

/-- The library for real numbers. -/
noncomputable def realMatrices : MatrixLibrary ℝ where
  compose := List.foldr PlaneMap.comp PlaneMap.identity
  translate := .shift
  rotate := fun angle =>
    .turn (Real.cos (angle * Real.pi / 180)) (Real.sin (angle * Real.pi / 180))
  flipX := .stretch 1 (-1)
  flipY := .stretch (-1) 1
  applyToPoint := PlaneMap.apply
  composed := fun _ => rfl
  translated := fun _ _ => rfl
  rotated := by
    intro quarters
    have radians : ((90 * quarters : ℤ) : ℝ) * Real.pi / 180 =
        quarters * (Real.pi / 2) := by
      push_cast
      ring
    rw [quarterTurn_real, radians]
  flippedX := rfl
  flippedY := rfl
  applied := fun _ _ => rfl

variable {K : Type} [Field K]

/-- The rectangle that the first crop cuts to. -/
def firstCrop : List (AssetEditActionItem K) → Option (CropParameters K)
  | [] =>
      none
  | .crop parameters :: _ =>
      some parameters
  | _ :: rest =>
      firstCrop rest

/-- Exchange the sides for a rotation to the side. -/
def swapSides
    (dimensions : ImageDimensions K) :
    AssetEditActionItem K → ImageDimensions K
  | .rotate angle =>
      if angle = 90 ∨ angle = 270 then
        ⟨dimensions.height, dimensions.width⟩
      else
        dimensions
  | _ =>
      dimensions

/-- The size of an image after edits. -/
def getOutputDimensions
    (edits : List (AssetEditActionItem K))
    (startingDimensions : ImageDimensions K) : ImageDimensions K :=
  let dimensions :=
    match firstCrop edits with
    | some crop =>
        ⟨crop.width, crop.height⟩
    | none =>
        startingDimensions
  edits.foldl swapSides dimensions

/-- Move points by a matrix, in place when they are copies already. -/
def Transforming.move
    (matrices : MatrixLibrary K)
    (matrix : PlaneMap K)
    (state : Transforming K) : Transforming K :=
  if ¬ state.ownsPoints then
    { state with
      points := state.points.map (matrices.applyToPoint matrix)
      ownsPoints := true }
  else
    { state with
      points := state.points.map fun point =>
        { x := matrix.a * point.x + matrix.c * point.y + matrix.e
          y := matrix.b * point.x + matrix.d * point.y + matrix.f } }

/-- Take points through one edit, or back. -/
def transformEdit
    (matrices : MatrixLibrary K)
    (inverse : Bool)
    (state : Transforming K) : AssetEditActionItem K → Transforming K
  | .rotate angle =>
      let sideways := angle = 90 ∨ angle = 270
      let newWidth :=
        if sideways then state.currentHeight else state.currentWidth
      let newHeight :=
        if sideways then state.currentWidth else state.currentHeight
      let matrix := matrices.compose
        [matrices.translate (newWidth / 2) (newHeight / 2),
          matrices.rotate (if inverse then -angle else angle),
          matrices.translate (-state.currentWidth / 2)
            (-state.currentHeight / 2)]
      { state.move matrices matrix with
        currentWidth := newWidth
        currentHeight := newHeight }
  | .mirror axis =>
      let matrix := matrices.compose
        [matrices.translate (state.currentWidth / 2)
            (state.currentHeight / 2),
          if axis = .horizontal then matrices.flipY else matrices.flipX,
          matrices.translate (-state.currentWidth / 2)
            (-state.currentHeight / 2)]
      state.move matrices matrix
  | .crop _ | .other _ =>
      state

/-- The map about the middle of an image, onto the middle of another. -/
def centred
    (before after : ImageDimensions K)
    (map : PlaneMap K) : PlaneMap K :=
  (PlaneMap.shift (after.width / 2) (after.height / 2)).comp
    (map.comp ((PlaneMap.shift (-before.width / 2) (-before.height / 2)).comp
      .identity))

/-- Cut points to the first crop. -/
def cropPoints
    (edits : List (AssetEditActionItem K))
    (state : Transforming K) : Transforming K :=
  match firstCrop edits with
  | none =>
      state
  | some crop =>
      { points := state.points.map fun point =>
          ⟨point.x - crop.x, point.y - crop.y⟩
        currentWidth := crop.width
        currentHeight := crop.height
        ownsPoints := true }

/-- Take points back from the first crop. -/
def uncropPoints
    (edits : List (AssetEditActionItem K))
    (state : Transforming K) : Transforming K :=
  match firstCrop edits with
  | none =>
      state
  | some crop =>
      { state with
        points := state.points.map fun point =>
          ⟨point.x + crop.x, point.y + crop.y⟩ }

/-- Take points through edits, or back. -/
def transformPoints
    (matrices : MatrixLibrary K)
    (points : List (Point K))
    (edits : List (AssetEditActionItem K))
    (startingDimensions : ImageDimensions K)
    (inverse : Bool) : TransformState K :=
  let start : Transforming K :=
    { points
      currentWidth := startingDimensions.width
      currentHeight := startingDimensions.height
      ownsPoints := false }
  if inverse then
    (uncropPoints edits
      (edits.reverse.foldl (transformEdit matrices true)
        start)).toTransformState
  else
    (edits.foldl (transformEdit matrices false)
      (cropPoints edits start)).toTransformState

/-- A text that was found in an image, with the corners of its box. -/
structure AssetOcr (Content K : Type) where
  content : Content
  p1 : Point K
  p2 : Point K
  p3 : Point K
  p4 : Point K

/-- Corners in their order after a rotation. -/
def reorderQuadPointsForRotation
    (points : Point K × Point K × Point K × Point K)
    (rotationDegrees : ℤ) : Point K × Point K × Point K × Point K :=
  let (p1, p2, p3, p4) := points
  if rotationDegrees = 90 then
    (p4, p1, p2, p3)
  else if rotationDegrees = 180 then
    (p3, p4, p1, p2)
  else if rotationDegrees = 270 then
    (p2, p3, p4, p1)
  else
    points

/-- Add the angle of a rotation. -/
def addRotation
    (total : ℤ) : AssetEditActionItem K → ℤ
  | .rotate angle =>
      total + angle
  | _ =>
      total

/-- The rotation that edits make together. -/
def netRotation
    (edits : List (AssetEditActionItem K)) : ℤ :=
  let totalRotation := edits.foldl addRotation 0
  ((totalRotation.tmod 360) + 360).tmod 360

/-- Take a text through edits. -/
def transformOcrBoundingBox
    {Content : Type}
    (matrices : MatrixLibrary K)
    (box : AssetOcr Content K)
    (edits : List (AssetEditActionItem K))
    (imageDimensions : ImageDimensions K) : AssetOcr Content K :=
  if edits.length = 0 then
    box
  else
    let scale (corner : Point K) : Point K :=
      ⟨corner.x * imageDimensions.width, corner.y * imageDimensions.height⟩
    let transformed := transformPoints matrices
      [scale box.p1, scale box.p2, scale box.p3, scale box.p4] edits
      imageDimensions false
    match transformed.points with
    | [t1, t2, t3, t4] =>
        let (p1, p2, p3, p4) := reorderQuadPointsForRotation (t1, t2, t3, t4)
          (netRotation edits)
        let relative (point : Point K) : Point K :=
          ⟨point.x / transformed.currentWidth,
            point.y / transformed.currentHeight⟩
        { content := box.content
          p1 := relative p1
          p2 := relative p2
          p3 := relative p3
          p4 := relative p4 }
    | _ =>
        box

end Frameleaf.EditTransform
