import Frameleaf.Develop.Contract

namespace Frameleaf.Develop

/-!
# The values that are kept

The values that masks and operations are read from, before a budget of points
is applied.  Their texts decide whether a recipe that was read is read as it
is.
-/

/-- The identifier that a value has. -/
def identifierOf (value : Value) : Text :=
  cutText 40 (value.get? "id")

/-- A reader together with what it reads. -/
def readWith
    {Item : Type}
    (read : Value → Option Item)
    (value : Value) : Option (Value × Item) :=
  (read value).map (Prod.mk value)

/-- The values of a list that masks are read from, and the masks. -/
def selectedMasks (candidate : Option Value) : List (Value × AssetDevelopMask) :=
  selectItems ASSET_DEVELOP_MAX_MASKS (readWith normalizeMask)
    (AssetDevelopMask.id ∘ Prod.snd) [] (valuesOf candidate)

/-- The values of a list that operations are read from, and the operations. -/
def selectedCleanup
    (candidate : Option Value) : List (Value × AssetDevelopCleanup) :=
  selectItems ASSET_DEVELOP_MAX_CLEANUP (readWith normalizeCleanup)
    (AssetDevelopCleanup.id ∘ Prod.snd) [] (valuesOf candidate)

/-- The values whose operations have a region, or strokes before which points
are left. -/
def valuesWithArea
    (left : ℕ) : List (Value × AssetDevelopCleanup) → List Value
  | [] =>
      []
  | (value, operation) :: rest =>
      match operation.strokes with
      | some own =>
          if left = 0 then
            valuesWithArea left rest
          else
            value :: valuesWithArea (left - pointCount own) rest
      | none =>
          value :: valuesWithArea left rest

/-- The values of a recipe whose masks are kept. -/
def keptMasks (candidate : Option Value) : List Value :=
  (selectedMasks (property candidate "masks")).map Prod.fst

/-- The points that the masks of a recipe leave. -/
def pointsLeft (candidate : Option Value) : ℕ :=
  ASSET_DEVELOP_MAX_RECIPE_POINTS - itemCount AssetDevelopMask.strokes
    ((selectedMasks (property candidate "masks")).map Prod.snd)

/-- The values of a recipe whose operations are kept. -/
def keptCleanup (candidate : Option Value) : List Value :=
  valuesWithArea (pointsLeft candidate)
    (selectedCleanup (property candidate "cleanup"))

variable {Item : Type}

theorem map_selectItems_readWith
    (limit : ℕ)
    (read : Value → Option Item)
    (id : Item → Text)
    (values : List Value) :
    (selectItems limit (readWith read) (id ∘ Prod.snd) [] values).map Prod.snd =
      selectItems limit read id [] values := by
  have sameRead : ∀ value, (readWith read value).map Prod.snd = read value := by
    intro value
    rw [readWith, Option.map_map]
    exact Option.map_id'
  exact map_selectItems limit sameRead [] values

theorem read_of_selectItems_readWith
    {limit : ℕ}
    {read : Value → Option Item}
    {id : Value × Item → Text}
    {values : List Value}
    {pair : Value × Item}
    (member : pair ∈ selectItems limit (readWith read) id [] values) :
    read pair.1 = some pair.2 := by
  rcases mem_selectItems member with isNone | ⟨value, -, isRead⟩
  · exact nomatch isNone
  · obtain ⟨item, isItem, rfl⟩ := Option.map_eq_some_iff.mp isRead
    exact isItem

variable (candidate : Option Value)

theorem snd_selectedMasks :
    (selectedMasks candidate).map Prod.snd = normalizeDevelopMasks candidate := by
  rw [normalizeDevelopMasks_eq]
  exact map_selectItems_readWith _ _ _ _

theorem snd_selectedCleanup :
    (selectedCleanup candidate).map Prod.snd =
      normalizeDevelopCleanup candidate := by
  rw [normalizeDevelopCleanup_eq]
  exact map_selectItems_readWith _ _ _ _

theorem texts_of_normalizeMask
    {value : Value}
    {mask : AssetDevelopMask}
    (isMask : normalizeMask value = some mask) :
    mask.id = identifierOf value ∧
      mask.name.getD [] = cutText 60 (value.get? "name") := by
  unfold normalizeMask at isMask
  dsimp only at isMask
  split at isMask
  · split at isMask
    · exact nomatch isMask
    · rw [← Option.some.inj isMask]
      refine ⟨rfl, ?_⟩
      dsimp only
      split
      · rename_i isEmpty
        exact isEmpty.symm
      · rfl
  · exact nomatch isMask

theorem id_of_normalizeCleanup
    {value : Value}
    {operation : AssetDevelopCleanup}
    (isOperation : normalizeCleanup value = some operation) :
    operation.id = identifierOf value := by
  unfold normalizeCleanup at isOperation
  dsimp only at isOperation
  split at isOperation
  · split at isOperation
    · exact nomatch isOperation
    · split at isOperation
      · exact nomatch isOperation
      · rw [← Option.some.inj isOperation]
        rfl
  · exact nomatch isOperation

theorem snd_strokesWithin
    (budget : ℕ)
    (strokes : List DevelopStroke) :
    (strokesWithin budget strokes).2 = budget - pointCount strokes := by
  induction strokes generalizing budget with
  | nil =>
      rfl
  | cons stroke rest inductionHypothesis =>
      by_cases left : budget = 0
      · rw [left, strokesWithin_zero, Nat.zero_sub]
      · rw [strokesWithin_cons left, pointCount_cons]
        dsimp only
        rw [inductionHypothesis, List.length_take]
        omega

theorem snd_within
    (strokes : Item → Option (List DevelopStroke))
    (withStrokes : Item → List DevelopStroke → Item)
    (budget : ℕ)
    (items : List Item) :
    (within strokes withStrokes budget items).2 =
      budget - itemCount strokes items := by
  induction items generalizing budget with
  | nil =>
      rfl
  | cons item rest inductionHypothesis =>
      have split : itemCount strokes (item :: rest) =
          (strokes item).elim 0 pointCount + itemCount strokes rest := by
        unfold itemCount
        rw [List.map_cons, List.sum_cons]
      rw [within, split]
      cases strokes item with
      | none =>
          dsimp only
          rw [inductionHypothesis, Option.elim_none, Nat.zero_add]
      | some own =>
          dsimp only
          rw [inductionHypothesis, snd_strokesWithin, Option.elim_some,
            Nat.sub_sub]

theorem pointsLeft_eq :
    (within AssetDevelopMask.strokes AssetDevelopMask.withStrokes
      ASSET_DEVELOP_MAX_RECIPE_POINTS
      (normalizeDevelopMasks (property candidate "masks"))).2 =
        pointsLeft candidate := by
  rw [snd_within, pointsLeft, snd_selectedMasks]

theorem strokesWithin_eq_nil_iff
    {budget : ℕ}
    {strokes : List DevelopStroke}
    (nonempty : strokes ≠ []) :
    (strokesWithin budget strokes).1 = [] ↔ budget = 0 := by
  cases strokes with
  | nil =>
      exact absurd rfl nonempty
  | cons stroke rest =>
      by_cases left : budget = 0
      · rw [left, strokesWithin_zero]
        exact Iff.intro (fun _ => rfl) (fun _ => rfl)
      · rw [strokesWithin_cons left]
        exact Iff.intro (nomatch ·) (fun none => absurd none left)

/-- Operations that have an area within a budget have the identifiers of the
values with an area. -/
theorem ids_within
    {left : ℕ}
    {pairs : List (Value × AssetDevelopCleanup)}
    (areRead : ∀ pair ∈ pairs, normalizeCleanup pair.1 = some pair.2) :
    ((within AssetDevelopCleanup.strokes AssetDevelopCleanup.withStrokes left
      (pairs.map Prod.snd)).1.filter AssetDevelopCleanup.hasArea).map
        AssetDevelopCleanup.id = (valuesWithArea left pairs).map identifierOf := by
  induction pairs generalizing left with
  | nil =>
      rfl
  | cons pair rest inductionHypothesis =>
      obtain ⟨value, operation⟩ := pair
      have isRead : normalizeCleanup value = some operation :=
        areRead (value, operation) List.mem_cons_self
      have restRead : ∀ pair ∈ rest, normalizeCleanup pair.1 = some pair.2 :=
        fun pair member => areRead pair (List.mem_cons_of_mem _ member)
      rw [List.map_cons, within, valuesWithArea]
      cases isStrokes : operation.strokes with
      | none =>
          have hasArea : operation.hasArea = true := by
            rw [AssetDevelopCleanup.hasArea, isStrokes]
            rfl
          dsimp only
          rw [List.filter_cons_of_pos hasArea, List.map_cons, List.map_cons,
            inductionHypothesis restRead, id_of_normalizeCleanup isRead]
      | some own =>
          have nonempty := ((normalizeCleanup_normal isRead).strokes own
            isStrokes).1
          dsimp only
          rw [snd_strokesWithin]
          by_cases isSpent : left = 0
          · have noArea :
                ¬(operation.withStrokes (strokesWithin left own).1).hasArea =
                  true := by
              rw [(strokesWithin_eq_nil_iff nonempty).mpr isSpent]
              exact Bool.false_ne_true
            rw [List.filter_cons_of_neg noArea, if_pos isSpent,
              inductionHypothesis restRead, isSpent, Nat.zero_sub]
          · have hasArea :
                (operation.withStrokes (strokesWithin left own).1).hasArea =
                  true := by
              refine decide_eq_true fun isEmpty => isSpent ?_
              exact (strokesWithin_eq_nil_iff nonempty).mp
                (Option.some.inj isEmpty)
            rw [List.filter_cons_of_pos hasArea, if_neg isSpent, List.map_cons,
              List.map_cons, inductionHypothesis restRead,
              ← id_of_normalizeCleanup isRead]
            rfl

theorem ids_cleanup :
    (normalizeDevelopRecipe candidate).cleanup.map AssetDevelopCleanup.id =
      (keptCleanup candidate).map identifierOf := by
  have areRead : ∀ pair ∈ selectedCleanup (property candidate "cleanup"),
      normalizeCleanup pair.1 = some pair.2 :=
    fun pair member => read_of_selectItems_readWith member
  rw [keptCleanup, ← ids_within areRead, snd_selectedCleanup, ← pointsLeft_eq]
  rfl

theorem texts_masks :
    ((normalizeDevelopRecipe candidate).masks.map fun mask =>
        (mask.id, mask.name.getD [])) =
      (keptMasks candidate).map fun value =>
        (identifierOf value, cutText 60 (value.get? "name")) := by
  have kept : ∀ (mask : AssetDevelopMask) (own : List DevelopStroke),
      ((mask.withStrokes own).id, (mask.withStrokes own).name.getD []) =
        (mask.id, mask.name.getD []) := fun mask own => rfl
  have same : ((normalizeDevelopRecipe candidate).masks.map fun mask =>
        (mask.id, mask.name.getD [])) =
      (normalizeDevelopMasks (property candidate "masks")).map fun mask =>
        (mask.id, mask.name.getD []) :=
    map_within kept _ _
  rw [same, ← snd_selectedMasks, keptMasks, List.map_map, List.map_map]
  refine List.map_congr_left fun pair member => ?_
  obtain ⟨id, name⟩ := texts_of_normalizeMask
    (read_of_selectItems_readWith member)
  exact congrArg₂ Prod.mk id name

open Rounding

/-!
## Ranges of a recipe

Every number of a recipe that was read is in its range.
-/

variable (candidate : Option Value)

/-- A number of a setting is in its range. -/
def Setting.Holds
    (setting : Setting)
    (number : ℚ) : Prop :=
  setting.low ≤ number ∧ number ≤ setting.high

/-- The numbers of settings are in their ranges. -/
def Settings.Hold
    (settings : Settings)
    (numbers : List (String × ℚ)) : Prop :=
  List.Forall₂ (fun entry number =>
    number.1 = entry.1 ∧ entry.2.Holds number.2) settings numbers

/-- The numbers of strokes are in their ranges. -/
structure DevelopStroke.InRange (stroke : DevelopStroke) : Prop where
  points : ∀ point ∈ stroke.points,
    coordinateSetting.Holds point.1 ∧ coordinateSetting.Holds point.2
  radius : radiusSetting.Holds stroke.radius

/-- The numbers of a mask are in their ranges. -/
structure AssetDevelopMask.InRange (mask : AssetDevelopMask) : Prop where
  shape : shapeSettings.Hold mask.shape
  adjustments : maskSettings.Hold mask.adjustments
  strokes : ∀ strokes, mask.strokes = some strokes →
    ∀ stroke ∈ strokes, stroke.InRange

/-- The numbers of an operation are in their ranges. -/
structure AssetDevelopCleanup.InRange
    (operation : AssetDevelopCleanup) : Prop where
  numbers : cleanupSettings.Hold operation.numbers
  region : ∀ region, operation.region = some region →
    region.IsWithin regionSide
  source : ∀ source, operation.source = some source →
    sourceSettings.Hold source
  strokes : ∀ strokes, operation.strokes = some strokes →
    ∀ stroke ∈ strokes, stroke.InRange

/-- The numbers of a recipe are in their ranges. -/
structure AssetDevelopRecipe.InRange (recipe : AssetDevelopRecipe) : Prop where
  sliders : stillSettings.Hold recipe.sliders
  crop : recipe.crop.IsWithin cropSide
  straighten : straightenSetting.Holds recipe.straighten
  rotation : recipe.rotation ∈ ([0, 90, 180, 270] : List ℤ)
  perspective : ∀ perspective, recipe.perspective = some perspective →
    perspectiveSettings.Hold perspective
  keyFrame : ∀ time, recipe.keyFrame = some time → keyFrameSetting.Holds time
  presetStrength : presetStrengthSetting.Holds recipe.presetStrength
  masks : ∀ mask ∈ recipe.masks, mask.InRange
  cleanup : ∀ operation ∈ recipe.cleanup, operation.InRange

theorem AreNormal.inRange
    {erasable : Bool}
    {strokes : List DevelopStroke}
    (normal : AreNormal erasable strokes)
    {stroke : DevelopStroke}
    (member : stroke ∈ strokes) :
    stroke.InRange := by
  have own := normal.each stroke member
  have range : ∀ {setting : Setting} {number : ℚ}, setting.IsSound →
      setting.IsRead number → setting.Holds number := by
    rintro setting number sound ⟨value, rfl⟩
    exact sound.mem_range value
  constructor
  · intro point isPoint
    obtain ⟨first, second⟩ := own.coordinates point isPoint
    exact ⟨range coordinateSetting_sound first,
      range coordinateSetting_sound second⟩
  · exact range radiusSetting_sound own.radius

theorem AssetDevelopMask.IsNormal.inRange
    {mask : AssetDevelopMask}
    (normal : mask.IsNormal) :
    mask.InRange := by
  obtain ⟨shapeValue, isShape⟩ := normal.shape
  obtain ⟨adjustmentsValue, isAdjustments⟩ := normal.adjustments
  refine ⟨?_, ?_, ?_⟩
  · rw [← isShape]
    exact shapeSettings_sound.mem_range shapeValue
  · rw [← isAdjustments]
    exact maskSettings_sound.mem_range adjustmentsValue
  · intro strokes isStrokes stroke member
    exact (normal.strokesNormal strokes isStrokes).inRange member

theorem AssetDevelopCleanup.IsNormal.inRange
    {operation : AssetDevelopCleanup}
    (normal : operation.IsNormal) :
    operation.InRange := by
  obtain ⟨numbersValue, isNumbers⟩ := normal.numbers
  refine ⟨?_, ?_, ?_, ?_⟩
  · rw [← isNumbers]
    exact cleanupSettings_sound.mem_range numbersValue
  · intro region isRegion
    obtain ⟨value, rfl⟩ := normal.region region isRegion
    exact readRectangle_within regionSide_sound rfl value
  · intro source isSource
    obtain ⟨value, rfl⟩ := normal.source source isSource
    exact sourceSettings_sound.mem_range value
  · intro strokes isStrokes stroke member
    exact (normal.strokes strokes isStrokes).2.inRange member

theorem normalizeRotation_mem
    (value : Option Value) :
    normalizeRotation value ∈ ([0, 90, 180, 270] : List ℤ) := by
  unfold normalizeRotation
  dsimp only
  generalize nearest (finite value 0 / 90) = turns
  have isAbove := Int.lt_tmod_of_pos (turns * 90) (show (0 : ℤ) < 360 by decide)
  have isBelow := Int.tmod_lt_of_pos (turns * 90) (show (0 : ℤ) < 360 by decide)
  have whole := Int.mul_tdiv_add_tmod (turns * 90) 360
  have isRest : ((turns * 90).tmod 360 + 360).tmod 360 =
      ((turns * 90).tmod 360 + 360) % 360 :=
    Int.tmod_eq_emod_of_nonneg (by omega)
  rw [isRest]
  simp only [List.mem_cons, List.not_mem_nil, or_false]
  omega

theorem normalizePerspective_eq_some
    {value : Option Value}
    {perspective : List (String × ℚ)}
    (isSome : normalizePerspective value = some perspective) :
    perspective = perspectiveSettings.read value := by
  unfold normalizePerspective at isSome
  split at isSome
  · split at isSome
    · exact nomatch isSome
    · exact (Option.some.inj isSome).symm
  · exact nomatch isSome

theorem normalizeDevelopRecipe_inRange :
    (normalizeDevelopRecipe candidate).InRange where
  sliders := stillSettings_sound.mem_range candidate
  crop := readRectangle_within cropSide_sound rfl _
  straighten := straightenSetting_sound.mem_range _
  rotation := normalizeRotation_mem _
  perspective := by
    intro perspective isSome
    rw [normalizePerspective_eq_some isSome]
    exact perspectiveSettings_sound.mem_range _
  keyFrame := by
    intro time isTime
    have isRead : normalizeKeyFrame (property candidate "keyFrame") =
        some time := isTime
    unfold normalizeKeyFrame at isRead
    split at isRead
    · rw [← Option.some.inj isRead]
      exact keyFrameSetting_sound.mem_range _
    · exact nomatch isRead
  presetStrength := presetStrengthSetting_sound.mem_range _
  masks := fun mask member => (masks_normal candidate member).inRange
  cleanup := fun operation member => (cleanup_normal candidate member).inRange

end Frameleaf.Develop
