import Frameleaf.EditTransform.Transform

namespace Frameleaf.EditTransform

open Plane

/-!
# Points come back, and corners keep their order

Every edit moves points by an affine map of the plane.  The way back undoes the
edits one by one from the last, in the dimensions that they ended at.  Without
mirrorings, all edits together turn by quarters and shift.
-/

variable {K : Type} [Field K]

theorem Transforming.move_points
    (matrices : MatrixLibrary K)
    (matrix : PlaneMap K)
    (state : Transforming K) :
    (state.move matrices matrix).points = state.points.map matrix.apply := by
  unfold move
  split
  · exact List.map_congr_left fun point _ => matrices.applied matrix point
  · rfl

/-- Moving points keeps the width. -/
@[simp] theorem Transforming.move_currentWidth
    (matrices : MatrixLibrary K)
    (matrix : PlaneMap K)
    (state : Transforming K) :
    (state.move matrices matrix).currentWidth = state.currentWidth := by
  unfold move
  split <;> rfl

/-- Moving points keeps the height. -/
@[simp] theorem Transforming.move_currentHeight
    (matrices : MatrixLibrary K)
    (matrix : PlaneMap K)
    (state : Transforming K) :
    (state.move matrices matrix).currentHeight = state.currentHeight := by
  unfold move
  split <;> rfl

/-- The size of the image that points are in. -/
def TransformState.dimensions
    (state : TransformState K) : ImageDimensions K :=
  ⟨state.currentWidth, state.currentHeight⟩

theorem apply_centred
    (before after : ImageDimensions K)
    (map : PlaneMap K)
    (point : Point K) :
    (centred before after map).apply point =
      let moved := map.apply
        ⟨point.x + -before.width / 2, point.y + -before.height / 2⟩
      ⟨moved.x + after.width / 2, moved.y + after.height / 2⟩ := by
  simp [centred]

theorem centred_undo
    {before after : ImageDimensions K}
    {map inverse : PlaneMap K}
    (undo : ∀ point, inverse.apply (map.apply point) = point)
    (point : Point K) :
    (centred after before inverse).apply
        ((centred before after map).apply point) = point := by
  rw [apply_centred, apply_centred]
  dsimp only
  have back : ∀ moved : Point K,
      (⟨moved.x + after.width / 2 + -after.width / 2,
        moved.y + after.height / 2 + -after.height / 2⟩ : Point K) =
        moved := by
    intro moved
    ext
    · simp only
      ring
    · simp only
      ring
  rw [back, undo]
  ext
  · simp only
    ring
  · simp only
    ring

/-- The map of an edit about the middle, or of its way back. -/
def editTurn
    (inverse : Bool) : AssetEditActionItem K → PlaneMap K
  | .rotate angle =>
      .quarterTurn (if inverse then -(angle / 90) else angle / 90)
  | .mirror .horizontal =>
      .stretch (-1) 1
  | .mirror .vertical =>
      .stretch 1 (-1)
  | .crop _ | .other _ =>
      .identity

/-- An edit that rotates by quarters, if it rotates. -/
def AssetEditActionItem.ByQuarters : AssetEditActionItem K → Prop
  | .rotate angle =>
      90 ∣ angle
  | _ =>
      True

theorem apply_centred_identity
    (dimensions : ImageDimensions K)
    (point : Point K) :
    (centred dimensions dimensions .identity).apply point = point := by
  rw [apply_centred, PlaneMap.apply_identity]
  ext
  · simp only
    ring
  · simp only
    ring

theorem transformEdit_dimensions
    (matrices : MatrixLibrary K)
    (inverse : Bool)
    (state : Transforming K)
    (edit : AssetEditActionItem K) :
    (transformEdit matrices inverse state edit).dimensions =
      swapSides state.dimensions edit := by
  cases edit with
  | rotate angle =>
      simp only [transformEdit, TransformState.dimensions, swapSides]
      split <;> rfl
  | mirror axis =>
      simp [transformEdit, TransformState.dimensions, swapSides]
  | crop parameters | other action =>
      rfl

variable {edit : AssetEditActionItem K}

/-- What an edit does to points. -/
theorem transformEdit_points
    (matrices : MatrixLibrary K)
    (inverse : Bool)
    (state : Transforming K)
    (byQuarters : edit.ByQuarters) :
    (transformEdit matrices inverse state edit).points =
      state.points.map
        (centred state.dimensions (swapSides state.dimensions edit)
          (editTurn inverse edit)).apply := by
  rw [← transformEdit_dimensions matrices inverse]
  cases edit with
  | rotate angle =>
      obtain ⟨quarters, rfl⟩ := byQuarters
      have exact : 90 * quarters / 90 = quarters :=
        Int.mul_ediv_cancel_left quarters (by decide)
      have turned : matrices.rotate
          (if inverse then -(90 * quarters) else 90 * quarters) =
          editTurn inverse (.rotate (90 * quarters)) := by
        rw [editTurn, exact]
        cases inverse with
        | false =>
            exact matrices.rotated quarters
        | true =>
            rw [if_pos rfl, if_pos rfl, ← mul_neg]
            exact matrices.rotated (-quarters)
      simp only [transformEdit, Transforming.move_points, matrices.composed,
        matrices.translated, List.foldr_cons, List.foldr_nil, turned]
      rfl
  | mirror axis =>
      cases axis with
      | horizontal =>
          simp only [transformEdit, Transforming.move_points,
            matrices.composed, matrices.translated, List.foldr_cons,
            List.foldr_nil, matrices.flippedY, if_true,
            TransformState.dimensions, Transforming.move_currentWidth,
            Transforming.move_currentHeight]
          rfl
      | vertical =>
          simp only [transformEdit, Transforming.move_points,
            matrices.composed, matrices.translated, List.foldr_cons,
            List.foldr_nil, matrices.flippedX, reduceCtorEq, if_false,
            TransformState.dimensions, Transforming.move_currentWidth,
            Transforming.move_currentHeight]
          rfl
  | crop parameters | other action =>
      have left : (centred state.dimensions state.dimensions
          .identity).apply = id := funext (apply_centred_identity _)
      change state.points = state.points.map
        (centred state.dimensions state.dimensions .identity).apply
      rw [left, List.map_id]

theorem editTurn_undo
    (edit : AssetEditActionItem K)
    (point : Point K) :
    (editTurn true edit).apply ((editTurn false edit).apply point) =
      point := by
  cases edit with
  | rotate angle =>
      exact PlaneMap.quarterTurn_neg (angle / 90) point
  | mirror axis =>
      cases axis with
      | horizontal | vertical =>
          simp [editTurn]
  | crop parameters | other action =>
      simp [editTurn]

omit [Field K] in
theorem swapSides_swapSides
    (dimensions : ImageDimensions K)
    (edit : AssetEditActionItem K) :
    swapSides (swapSides dimensions edit) edit = dimensions := by
  cases edit with
  | rotate angle =>
      unfold swapSides
      dsimp only
      split
      · rfl
      · rfl
  | crop parameters | mirror axis | other action =>
      rfl

/-- Points and dimensions are alike, whoever owns the points. -/
structure SameFrame
    (first second : TransformState K) : Prop where
  points : first.points = second.points
  dimensions : first.dimensions = second.dimensions

variable {before after : Transforming K}

theorem SameFrame.undo
    {matrices : MatrixLibrary K}
    (byQuarters : edit.ByQuarters)
    (same : SameFrame after.toTransformState
      (transformEdit matrices false before edit).toTransformState) :
    SameFrame (transformEdit matrices true after edit).toTransformState
      before.toTransformState := by
  have afterSize : after.dimensions = swapSides before.dimensions edit :=
    same.dimensions.trans (transformEdit_dimensions matrices false before edit)
  have beforeSize : swapSides after.dimensions edit = before.dimensions := by
    rw [afterSize, swapSides_swapSides]
  refine ⟨?_, (transformEdit_dimensions ..).trans beforeSize⟩
  rw [transformEdit_points matrices true after byQuarters, beforeSize,
    same.points, transformEdit_points matrices false before byQuarters,
    List.map_map, afterSize]
  refine (List.map_congr_left fun point _ => ?_).trans (List.map_id _)
  exact centred_undo (editTurn_undo edit) point

variable {edits : List (AssetEditActionItem K)}

theorem SameFrame.undo_all
    {matrices : MatrixLibrary K}
    (byQuarters : ∀ edit ∈ edits, edit.ByQuarters)
    (same : SameFrame after.toTransformState
      (edits.foldl (transformEdit matrices false) before).toTransformState) :
    SameFrame
      (edits.reverse.foldl (transformEdit matrices true)
        after).toTransformState
      before.toTransformState := by
  induction edits generalizing before with
  | nil =>
      exact same
  | cons edit rest inductionHypothesis =>
      rw [List.reverse_cons, List.foldl_append]
      have restSame := inductionHypothesis
        (fun other member => byQuarters other (List.mem_cons_of_mem _ member))
        same
      exact restSame.undo (byQuarters edit List.mem_cons_self)

theorem foldl_dimensions
    (matrices : MatrixLibrary K)
    (inverse : Bool)
    (edits : List (AssetEditActionItem K))
    (state : Transforming K) :
    (edits.foldl (transformEdit matrices inverse) state).dimensions =
      edits.foldl swapSides state.dimensions := by
  induction edits generalizing state with
  | nil =>
      rfl
  | cons edit rest inductionHypothesis =>
      rw [List.foldl_cons, inductionHypothesis, transformEdit_dimensions]
      rfl

theorem dimensions_transformPoints
    (matrices : MatrixLibrary K)
    (points : List (Point K))
    (edits : List (AssetEditActionItem K))
    (startingDimensions : ImageDimensions K) :
    (transformPoints matrices points edits startingDimensions
        false).dimensions =
      getOutputDimensions edits startingDimensions := by
  change (edits.foldl (transformEdit matrices false) _).dimensions = _
  rw [foldl_dimensions]
  unfold getOutputDimensions cropPoints
  cases firstCrop edits with
  | none =>
      rfl
  | some crop =>
      rfl

theorem SameFrame.uncrop
    (same : SameFrame after.toTransformState
      (cropPoints edits before).toTransformState) :
    (uncropPoints edits after).points = before.points := by
  have points := same.points
  unfold cropPoints at points
  unfold uncropPoints
  cases found : firstCrop edits with
  | none =>
      rw [found] at points
      exact points
  | some crop =>
      rw [found] at points
      dsimp only at points ⊢
      rw [points, List.map_map]
      refine (List.map_congr_left fun point _ => ?_).trans (List.map_id _)
      ext
      · exact sub_add_cancel point.x crop.x
      · exact sub_add_cancel point.y crop.y

theorem transformPoints_inverse
    (matrices : MatrixLibrary K)
    (points : List (Point K))
    (byQuarters : ∀ edit ∈ edits, edit.ByQuarters)
    (startingDimensions : ImageDimensions K) :
    let forward :=
      transformPoints matrices points edits startingDimensions false
    (transformPoints matrices forward.points edits forward.dimensions
      true).points = points := by
  intro forward
  have back : SameFrame
      (edits.reverse.foldl (transformEdit matrices true)
        ({ forward with ownsPoints := false } :
          Transforming K)).toTransformState
      (cropPoints edits
        { points
          currentWidth := startingDimensions.width
          currentHeight := startingDimensions.height
          ownsPoints := false }).toTransformState :=
    SameFrame.undo_all byQuarters ⟨rfl, rfl⟩
  exact back.uncrop

/-- An edit that does not mirror. -/
def AssetEditActionItem.Unmirrored : AssetEditActionItem K → Prop
  | .mirror _ =>
      False
  | _ =>
      True

/-- The quarters that an edit turns by. -/
def AssetEditActionItem.quarters : AssetEditActionItem K → ℤ
  | .rotate angle =>
      angle / 90
  | .crop _ | .mirror _ | .other _ =>
      0

theorem editTurn_turns
    (unmirrored : edit.Unmirrored) :
    Turns edit.quarters (editTurn false edit).apply := by
  cases edit with
  | rotate angle =>
      exact Turns.quarterTurn (angle / 90)
  | mirror axis =>
      exact unmirrored.elim
  | crop parameters | other action =>
      have left : (editTurn false (.other "") : PlaneMap K).apply =
          fun point => point := funext PlaneMap.apply_identity
      exact left ▸ Turns.id

theorem centred_turns
    (before after : ImageDimensions K)
    {map : PlaneMap K}
    {quarters : ℤ}
    (turns : Turns quarters map.apply) :
    Turns quarters (centred before after map).apply := by
  have moved := (Turns.shift (after.width / 2) (after.height / 2)).comp
    (turns.comp (Turns.shift (-before.width / 2) (-before.height / 2)))
  rw [zero_add, add_zero] at moved
  have same : (centred before after map).apply = fun point =>
      (PlaneMap.shift (after.width / 2) (after.height / 2)).apply
        (map.apply ((PlaneMap.shift (-before.width / 2)
          (-before.height / 2)).apply point)) := by
    funext point
    simp only [centred, PlaneMap.apply_comp, PlaneMap.apply_identity]
  rw [same]
  exact moved

theorem foldl_turns
    (matrices : MatrixLibrary K)
    (byQuarters : ∀ edit ∈ edits, edit.ByQuarters)
    (unmirrored : ∀ edit ∈ edits, edit.Unmirrored)
    (state : Transforming K) :
    ∃ motion,
      Turns (edits.map AssetEditActionItem.quarters).sum motion ∧
        (edits.foldl (transformEdit matrices false) state).points =
          state.points.map motion := by
  induction edits generalizing state with
  | nil =>
      exact ⟨_, Turns.id, (List.map_id _).symm⟩
  | cons edit rest inductionHypothesis =>
      obtain ⟨motion, turns, moved⟩ := inductionHypothesis
        (fun other member => byQuarters other (List.mem_cons_of_mem _ member))
        (fun other member => unmirrored other (List.mem_cons_of_mem _ member))
        (transformEdit matrices false state edit)
      have first := centred_turns state.dimensions
        (swapSides state.dimensions edit)
        (editTurn_turns (unmirrored edit List.mem_cons_self))
      have both := turns.comp first
      rw [add_comm] at both
      refine ⟨_, both, ?_⟩
      rw [List.foldl_cons, moved, transformEdit_points matrices false state
        (byQuarters edit List.mem_cons_self), List.map_map]
      rfl

theorem transformPoints_turns
    (matrices : MatrixLibrary K)
    (points : List (Point K))
    (byQuarters : ∀ edit ∈ edits, edit.ByQuarters)
    (unmirrored : ∀ edit ∈ edits, edit.Unmirrored)
    (dimensions : ImageDimensions K) :
    ∃ motion,
      Turns (edits.map AssetEditActionItem.quarters).sum motion ∧
        (transformPoints matrices points edits dimensions false).points =
          points.map motion := by
  obtain ⟨motion, turns, moved⟩ := foldl_turns matrices byQuarters unmirrored
    (cropPoints edits
      { points
        currentWidth := dimensions.width
        currentHeight := dimensions.height
        ownsPoints := false })
  change (edits.foldl (transformEdit matrices false) _).points = _ at moved
  cases found : firstCrop edits with
  | none =>
      rw [cropPoints, found] at moved
      refine ⟨motion, turns, ?_⟩
      change (edits.foldl (transformEdit matrices false) _).points = _
      rw [cropPoints, found]
      exact moved
  | some crop =>
      rw [cropPoints, found] at moved
      have cut := turns.comp (Turns.shift (-crop.x) (-crop.y))
      rw [add_zero] at cut
      refine ⟨_, cut, ?_⟩
      change (edits.foldl (transformEdit matrices false) _).points = _
      rw [cropPoints, found]
      refine moved.trans ?_
      dsimp only
      rw [List.map_map]
      refine List.map_congr_left fun point _ => ?_
      simp only [Function.comp_apply, PlaneMap.apply_shift, sub_eq_add_neg]

omit [Field K] in
theorem netRotation_eq
    (byQuarters : ∀ edit ∈ edits, edit.ByQuarters) :
    netRotation edits =
      90 * ((edits.map AssetEditActionItem.quarters).sum % 4) := by
  have total : ∀ start, edits.foldl addRotation start =
      start + 90 * (edits.map AssetEditActionItem.quarters).sum := by
    induction edits with
    | nil =>
        intro start
        simp
    | cons edit rest inductionHypothesis =>
        intro start
        rw [List.foldl_cons, inductionHypothesis
          (fun other member => byQuarters other
            (List.mem_cons_of_mem _ member)), List.map_cons, List.sum_cons]
        have byEdit := byQuarters edit List.mem_cons_self
        cases edit with
        | rotate angle =>
            obtain ⟨quarters, rfl⟩ := byEdit
            simp only [addRotation, AssetEditActionItem.quarters]
            omega
        | crop parameters | mirror axis | other action =>
            simp only [addRotation, AssetEditActionItem.quarters, zero_add]
  unfold netRotation
  rw [total, zero_add]
  dsimp only
  generalize (edits.map AssetEditActionItem.quarters).sum = quarters
  have small : (90 * quarters).tmod 360 < 360 :=
    Int.tmod_lt_of_pos _ (by decide)
  have large : -360 < (90 * quarters).tmod 360 :=
    Int.lt_tmod_of_pos _ (by decide)
  have whole := Int.tmod_def (90 * quarters) 360
  rw [Int.tmod_eq_emod_of_nonneg (by omega)]
  omega

end Frameleaf.EditTransform
