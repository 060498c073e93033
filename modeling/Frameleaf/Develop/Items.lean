import Frameleaf.Develop.Stored

namespace Frameleaf.Develop

open Rounding

/-!
# Strokes that are read again, and their budget of points

Strokes are cut to a budget of points.  Strokes within the budget stay as they
are, and what is left of it is what they do not use.
-/

/-- A number that was read with a setting. -/
def Setting.IsRead
    (setting : Setting)
    (number : ℚ) : Prop :=
  ∃ value, setting.read value = number

theorem Setting.IsSound.read_again
    {setting : Setting}
    (sound : setting.IsSound)
    {number : ℚ}
    (isRead : setting.IsRead number) :
    setting.read (some (.number number)) = number := by
  obtain ⟨value, rfl⟩ := isRead
  exact sound.read_read value

/-- A stroke within its contract. -/
structure DevelopStroke.IsNormal
    (erasable : Bool)
    (stroke : DevelopStroke) : Prop where
  nonempty : stroke.points ≠ []
  few : stroke.points.length ≤ ASSET_DEVELOP_MAX_STROKE_POINTS
  coordinates : ∀ point ∈ stroke.points,
    coordinateSetting.IsRead point.1 ∧ coordinateSetting.IsRead point.2
  radius : radiusSetting.IsRead stroke.radius
  erases : stroke.erase = true → erasable = true

/-- Strokes within their contract. -/
structure AreNormal
    (erasable : Bool)
    (strokes : List DevelopStroke) : Prop where
  few : strokes.length ≤ ASSET_DEVELOP_MAX_STROKES
  each : ∀ stroke ∈ strokes, stroke.IsNormal erasable

theorem normalizePoint_eq_some
    {value : Value}
    {point : ℚ × ℚ}
    (isPoint : normalizePoint value = some point) :
    coordinateSetting.IsRead point.1 ∧ coordinateSetting.IsRead point.2 := by
  unfold normalizePoint at isPoint
  split at isPoint
  · rw [← Option.some.inj isPoint]
    exact ⟨⟨_, rfl⟩, ⟨_, rfl⟩⟩
  · exact nomatch isPoint

theorem normalizePoint_again
    {point : ℚ × ℚ}
    (isRead : coordinateSetting.IsRead point.1 ∧
      coordinateSetting.IsRead point.2) :
    normalizePoint (pointValue point) = some point := by
  rw [pointValue, normalizePoint, coordinateSetting_sound.read_again isRead.1,
    coordinateSetting_sound.read_again isRead.2]

variable {erasable : Bool} {item : Value}

theorem normalizeStroke_normal
    {stroke : DevelopStroke}
    (isStroke : normalizeStroke erasable item = some stroke) :
    stroke.IsNormal erasable := by
  unfold normalizeStroke at isStroke
  split at isStroke
  · rename_i candidates found
    dsimp only at isStroke
    split at isStroke
    · exact nomatch isStroke
    · rename_i nonempty
      rw [← Option.some.inj isStroke]
      refine ⟨nonempty, ?_, ?_, ⟨_, rfl⟩, ?_⟩
      · exact (List.length_filterMap_le _ _).trans
          (List.length_take_le _ _)
      · intro point member
        obtain ⟨value, -, isPoint⟩ := List.mem_filterMap.mp member
        exact normalizePoint_eq_some isPoint
      · intro erases
        exact (Bool.and_eq_true_iff.mp erases).1
  · exact nomatch isStroke

theorem filterMap_again
    {Item : Type}
    {read : Value → Option Item}
    {value : Item → Value}
    {items : List Item}
    (again : ∀ item ∈ items, read (value item) = some item) :
    (items.map value).filterMap read = items := by
  rw [List.filterMap_map]
  refine (List.filterMap_congr fun item member => ?_).trans List.filterMap_some
  exact again item member

theorem DevelopStroke.IsNormal.again
    {stroke : DevelopStroke}
    (normal : stroke.IsNormal erasable) :
    normalizeStroke erasable stroke.value = some stroke := by
  have distinct : (([("points", some (.array (stroke.points.map pointValue))),
      ("erase", some (.bool stroke.erase))] :
        List (String × Option Value)).map Prod.fst).Nodup := by
    simp
  have points : stroke.value.get? "points" =
      some (.array (stroke.points.map pointValue)) :=
    (get?_of_field (by simp) distinct).trans (by simp [fieldNamed])
  have erase : stroke.value.get? "erase" = some (.bool stroke.erase) :=
    (get?_of_field (by simp) distinct).trans (by simp [fieldNamed])
  have radius : stroke.value.get? "radius" = some (.number stroke.radius) :=
    get?_of_number (by simp) (List.mem_singleton_self ("radius", stroke.radius))
      _
  have allPoints : ((stroke.points.map pointValue).take
      ASSET_DEVELOP_MAX_STROKE_POINTS).filterMap normalizePoint =
        stroke.points := by
    rw [List.take_of_length_le (by rw [List.length_map]; exact normal.few)]
    exact filterMap_again fun point member =>
      normalizePoint_again (normal.coordinates point member)
  have erases : (erasable && isBool true (some (.bool stroke.erase))) =
      stroke.erase := by
    cases isErase : stroke.erase with
    | false =>
        exact Bool.and_false _
    | true =>
        rw [normal.erases isErase]
        rfl
  rw [normalizeStroke, points]
  dsimp only
  rw [allPoints, if_neg normal.nonempty, radius, erase, erases,
    radiusSetting_sound.read_again normal.radius]

theorem normalizeStrokes_normal
    (candidate : Option Value)
    (erasable : Bool) :
    AreNormal erasable (normalizeStrokes candidate erasable) := by
  unfold normalizeStrokes
  split
  · constructor
    · exact (List.length_filterMap_le _ _).trans (List.length_take_le _ _)
    · intro stroke member
      obtain ⟨value, -, isStroke⟩ := List.mem_filterMap.mp member
      exact normalizeStroke_normal isStroke
  · exact ⟨Nat.zero_le _, fun stroke member => nomatch member⟩

variable {strokes : List DevelopStroke}

theorem AreNormal.again
    (normal : AreNormal erasable strokes) :
    normalizeStrokes (some (strokesValue strokes)) erasable = strokes := by
  rw [strokesValue, normalizeStrokes,
    List.take_of_length_le (by rw [List.length_map]; exact normal.few)]
  exact filterMap_again fun stroke member => (normal.each stroke member).again

/-- The points of strokes. -/
def pointCount (strokes : List DevelopStroke) : ℕ :=
  (strokes.map fun stroke => stroke.points.length).sum

theorem pointCount_cons
    (stroke : DevelopStroke)
    (rest : List DevelopStroke) :
    pointCount (stroke :: rest) = stroke.points.length + pointCount rest :=
  rfl

theorem strokesWithin_cons
    {budget : ℕ}
    (left : budget ≠ 0)
    (stroke : DevelopStroke)
    (rest : List DevelopStroke) :
    strokesWithin budget (stroke :: rest) =
      ({ stroke with points := stroke.points.take budget } ::
        (strokesWithin (budget - (stroke.points.take budget).length) rest).1,
          (strokesWithin (budget - (stroke.points.take budget).length)
            rest).2) := by
  rw [strokesWithin, if_neg left]

theorem strokesWithin_zero
    (strokes : List DevelopStroke) :
    strokesWithin 0 strokes = ([], 0) := by
  cases strokes with
  | nil =>
      rfl
  | cons stroke rest =>
      rw [strokesWithin, if_pos rfl]

theorem length_strokesWithin_le
    (budget : ℕ)
    (strokes : List DevelopStroke) :
    (strokesWithin budget strokes).1.length ≤ strokes.length := by
  induction strokes generalizing budget with
  | nil =>
      exact Nat.le_refl _
  | cons stroke rest inductionHypothesis =>
      by_cases left : budget = 0
      · rw [left, strokesWithin_zero]
        exact Nat.zero_le _
      · rw [strokesWithin_cons left]
        exact Nat.succ_le_succ (inductionHypothesis _)

theorem pointCount_strokesWithin
    (budget : ℕ)
    (strokes : List DevelopStroke) :
    pointCount (strokesWithin budget strokes).1 +
      (strokesWithin budget strokes).2 = budget := by
  induction strokes generalizing budget with
  | nil =>
      exact Nat.zero_add _
  | cons stroke rest inductionHypothesis =>
      by_cases left : budget = 0
      · rw [left, strokesWithin_zero]
        rfl
      · have later := inductionHypothesis
          (budget - (stroke.points.take budget).length)
        have few : (stroke.points.take budget).length ≤ budget :=
          List.length_take_le _ _
        rw [strokesWithin_cons left, pointCount_cons]
        dsimp only
        omega

theorem strokesWithin_eq_self
    {budget : ℕ}
    (nonempty : ∀ stroke ∈ strokes, stroke.points ≠ [])
    (few : pointCount strokes ≤ budget) :
    strokesWithin budget strokes = (strokes, budget - pointCount strokes) := by
  induction strokes generalizing budget with
  | nil =>
      rfl
  | cons stroke rest inductionHypothesis =>
      have some : 0 < stroke.points.length :=
        List.length_pos_iff.mpr (nonempty stroke List.mem_cons_self)
      rw [pointCount_cons] at few
      have all : stroke.points.take budget = stroke.points :=
        List.take_of_length_le (by omega)
      have later : strokesWithin (budget - stroke.points.length) rest =
          (rest, budget - stroke.points.length - pointCount rest) :=
        inductionHypothesis (fun other member =>
          nonempty other (List.mem_cons_of_mem _ member)) (by omega)
      rw [strokesWithin_cons (by omega), all, later, pointCount_cons,
        Nat.sub_sub]

theorem AreNormal.within
    (normal : AreNormal erasable strokes)
    (budget : ℕ) :
    AreNormal erasable (strokesWithin budget strokes).1 := by
  refine ⟨(length_strokesWithin_le _ _).trans normal.few, ?_⟩
  have each := normal.each
  clear normal
  induction strokes generalizing budget with
  | nil =>
      exact fun stroke member => nomatch member
  | cons stroke rest inductionHypothesis =>
      by_cases left : budget = 0
      · rw [left, strokesWithin_zero]
        exact fun other member => nomatch member
      · have own := each stroke List.mem_cons_self
        rw [strokesWithin_cons left]
        intro other member
        rcases List.mem_cons.mp member with rfl | inRest
        · refine ⟨?_, ?_, ?_, own.radius, own.erases⟩
          · intro isEmpty
            rcases List.take_eq_nil_iff.mp isEmpty with isZero | isNil
            · exact left isZero
            · exact own.nonempty isNil
          · exact (List.length_take_le' _ _).trans own.few
          · intro point member
            exact own.coordinates point (List.mem_of_mem_take member)
        · exact inductionHypothesis _
            (fun other member => each other (List.mem_cons_of_mem _ member))
            other inRest

open Rounding

/-!
## Masks and operations that are read again

A mask or an operation that was read once is read as it is, if its texts have
no space at their ends.
-/

/-- A text has no space around it. -/
def IsTrimmed (text : Text) : Prop :=
  trim text = text

instance (text : Text) : Decidable (IsTrimmed text) :=
  inferInstanceAs (Decidable (_ = _))

theorem cutText_again
    {length : ℕ}
    {text : Text}
    (trimmed : IsTrimmed text)
    (short : text.length ≤ length) :
    cutText length (some (.string text)) = text := by
  unfold IsTrimmed at trimmed
  rw [cutText, textIn]
  dsimp only
  rw [trimmed, List.take_of_length_le short]

theorem length_cutText_le
    (length : ℕ)
    (value : Option Value) :
    (cutText length value).length ≤ length := by
  unfold cutText
  split
  · exact List.length_take_le _ _
  · exact Nat.zero_le _

theorem kind_again
    (kind : AssetDevelopMaskKind) :
    memberNamed AssetDevelopMaskKind.name AssetDevelopMaskKind.values
      (some (.string (textOf kind.name))) = some kind := by
  cases kind <;> decide +kernel

theorem method_again
    (method : AssetDevelopCleanupMethod) :
    memberNamed AssetDevelopCleanupMethod.name AssetDevelopCleanupMethod.values
      (some (.string (textOf method.name))) = some method := by
  cases method <;> decide +kernel

theorem preset_again
    (preset : AssetDevelopPreset) :
    memberNamed AssetDevelopPreset.name AssetDevelopPreset.values
      (some (.string (textOf preset.name))) = some preset := by
  cases preset <;> decide +kernel

theorem artifactIn_again
    {artifact : Option Text}
    (isArtifact : ∀ text, artifact = some text → isArtifactId text = true) :
    artifactIn (some (orNull artifact)) = artifact := by
  cases artifact with
  | none =>
      rfl
  | some text =>
      exact Option.filter_eq_some_iff.mpr ⟨rfl, isArtifact text rfl⟩

theorem isArtifactId_of_artifactIn
    {value : Option Value}
    {text : Text}
    (isRead : artifactIn value = some text) :
    isArtifactId text = true :=
  (Option.filter_eq_some_iff.mp isRead).2

/-- A mask within its contract. -/
structure AssetDevelopMask.IsNormal (mask : AssetDevelopMask) : Prop where
  id : mask.id ≠ [] ∧ mask.id.length ≤ 40
  name : ∀ name, mask.name = some name → name ≠ [] ∧ name.length ≤ 60
  shape : ∃ value, shapeSettings.read value = mask.shape
  adjustments : ∃ value, maskSettings.read value = mask.adjustments
  strokes : mask.strokes.isSome ↔ mask.kind = .brush
  strokesNormal : ∀ strokes, mask.strokes = some strokes →
    AreNormal true strokes
  artifact : mask.artifact.isSome ↔
    mask.kind ∈ ASSET_DEVELOP_BITMAP_MASK_KINDS
  artifactNormal : ∀ artifact text, mask.artifact = some artifact →
    artifact = some text → isArtifactId text = true

/-- The texts of a mask have no space around them. -/
structure AssetDevelopMask.IsTrimmed (mask : AssetDevelopMask) : Prop where
  id : Develop.IsTrimmed mask.id
  name : ∀ name, mask.name = some name → Develop.IsTrimmed name

variable {mask : AssetDevelopMask}

/-- A mask that was normalized is within its contract. -/
theorem normalizeMask_normal
    (isMask : normalizeMask item = some mask) :
    mask.IsNormal := by
  unfold normalizeMask at isMask
  dsimp only at isMask
  split at isMask
  · rename_i kind isKind
    split at isMask
    · exact nomatch isMask
    · rename_i hasId
      rw [← Option.some.inj isMask]
      refine ⟨⟨hasId, length_cutText_le _ _⟩, ?_, ⟨_, rfl⟩, ⟨_, rfl⟩, ?_, ?_, ?_,
        ?_⟩
      · intro name isName
        dsimp only at isName
        split at isName
        · exact nomatch isName
        · rename_i hasName
          rw [← Option.some.inj isName]
          exact ⟨hasName, length_cutText_le _ _⟩
      · dsimp only
        split
        · rename_i isBrush
          simp [isBrush]
        · rename_i noBrush
          simp [noBrush]
      · intro strokes isStrokes
        dsimp only at isStrokes
        split at isStrokes
        · rw [← Option.some.inj isStrokes]
          exact normalizeStrokes_normal _ _
        · exact nomatch isStrokes
      · dsimp only
        split
        · rename_i isBitmap
          simp [isBitmap]
        · rename_i noBitmap
          simp [noBitmap]
      · intro artifact text isSome isArtifact
        dsimp only at isSome
        split at isSome
        · rw [← Option.some.inj isSome] at isArtifact
          exact isArtifactId_of_artifactIn isArtifact
        · exact nomatch isSome
  · exact nomatch isMask

theorem AssetDevelopMask.IsNormal.get?
    (normal : mask.IsNormal)
    {name : String}
    (noNumber : name ∉ shapeSettings.map Prod.fst) :
    mask.value.get? name = fieldNamed name mask.fields := by
  obtain ⟨value, isShape⟩ := normal.shape
  refine get?_of_field ?_ ?_
  · rw [← isShape, shapeSettings.names_read]
    exact noNumber
  · have names : mask.fields.map Prod.fst = ["id", "name", "kind", "enabled",
        "invert", "adjustments", "strokes", "artifact"] := rfl
    rw [names]
    decide

/-- A mask within its contract is read as it is, if its texts are trimmed. -/
theorem AssetDevelopMask.IsNormal.again
    (normal : mask.IsNormal)
    (trimmed : mask.IsTrimmed) :
    normalizeMask mask.value = some mask := by
  have id : mask.value.get? "id" = some (.string mask.id) :=
    normal.get? (by decide)
  have name : mask.value.get? "name" = some (orNull mask.name) :=
    normal.get? (by decide)
  have kind : mask.value.get? "kind" =
      some (.string (textOf mask.kind.name)) :=
    normal.get? (by decide)
  have enabled : mask.value.get? "enabled" = some (.bool mask.enabled) :=
    normal.get? (by decide)
  have invert : mask.value.get? "invert" = some (.bool mask.invert) :=
    normal.get? (by decide)
  have adjustments : mask.value.get? "adjustments" =
      some (.of mask.adjustments []) :=
    normal.get? (by decide)
  have strokes : mask.value.get? "strokes" = mask.strokes.map strokesValue :=
    normal.get? (by decide)
  have artifact : mask.value.get? "artifact" = mask.artifact.map orNull :=
    normal.get? (by decide)
  have sameId : cutText 40 (some (.string mask.id)) = mask.id :=
    cutText_again trimmed.id normal.id.2
  have sameName : (if cutText 60 (some (orNull mask.name)) = [] then none
      else some (cutText 60 (some (orNull mask.name)))) = mask.name := by
    cases isName : mask.name with
    | none =>
        rfl
    | some text =>
        rw [orNull, cutText_again (trimmed.name text isName)
          (normal.name text isName).2, if_neg (normal.name text isName).1]
  have sameShape : shapeSettings.read mask.value = mask.shape := by
    obtain ⟨value, isShape⟩ := normal.shape
    rw [AssetDevelopMask.value, ← isShape]
    exact shapeSettings_sound.read_read value mask.fields
  have sameAdjustments : maskSettings.read (some (.of mask.adjustments [])) =
      mask.adjustments := by
    obtain ⟨value, isAdjustments⟩ := normal.adjustments
    rw [← isAdjustments]
    exact maskSettings_sound.read_read value []
  have sameStrokes : (if mask.kind = .brush then
      some (normalizeStrokes (mask.strokes.map strokesValue) true) else none) =
        mask.strokes := by
    have isBrush := normal.strokes
    cases isStrokes : mask.strokes with
    | none =>
        rw [isStrokes] at isBrush
        rw [if_neg fun brush => nomatch isBrush.mpr brush]
    | some own =>
        rw [isStrokes] at isBrush
        rw [if_pos (isBrush.mp rfl), Option.map_some,
          (normal.strokesNormal own isStrokes).again]
  have sameArtifact : (if mask.kind ∈ ASSET_DEVELOP_BITMAP_MASK_KINDS then
      some (artifactIn (mask.artifact.map orNull)) else none) =
        mask.artifact := by
    have isBitmap := normal.artifact
    cases isArtifact : mask.artifact with
    | none =>
        rw [isArtifact] at isBitmap
        rw [if_neg fun bitmap => nomatch isBitmap.mpr bitmap]
    | some own =>
        rw [isArtifact] at isBitmap
        rw [if_pos (isBitmap.mp rfl), Option.map_some,
          artifactIn_again fun text => normal.artifactNormal own text isArtifact]
  have sameEnabled : (!isBool false (some (.bool mask.enabled))) =
      mask.enabled := by
    cases mask.enabled <;> rfl
  have sameInvert : isBool true (some (.bool mask.invert)) = mask.invert := by
    cases mask.invert <;> rfl
  rw [normalizeMask, id, name, kind, enabled, invert, adjustments, strokes,
    artifact, kind_again]
  dsimp only
  rw [sameId, if_neg normal.id.1, sameName, sameShape, sameAdjustments,
    sameStrokes, sameArtifact, sameEnabled, sameInvert]

/-- An operation within its contract. -/
structure AssetDevelopCleanup.IsNormal
    (operation : AssetDevelopCleanup) : Prop where
  id : operation.id ≠ [] ∧ operation.id.length ≤ 40
  area : operation.strokes.isSome ↔ operation.region = none
  region : ∀ region, operation.region = some region →
    ∃ value, readRectangle regionSide value = region
  strokes : ∀ strokes, operation.strokes = some strokes →
    strokes ≠ [] ∧ AreNormal false strokes
  source : ∀ source, operation.source = some source →
    ∃ value, sourceSettings.read value = source
  fill : ∀ fill, operation.fill = some fill → isArtifactId fill = true
  numbers : ∃ value, cleanupSettings.read value = operation.numbers

variable {operation : AssetDevelopCleanup}

theorem normalizeCleanup_normal
    (isOperation : normalizeCleanup item = some operation) :
    operation.IsNormal := by
  unfold normalizeCleanup at isOperation
  dsimp only at isOperation
  split at isOperation
  · rename_i method isMethod
    split at isOperation
    · exact nomatch isOperation
    · rename_i hasId
      split at isOperation
      · exact nomatch isOperation
      · rename_i oneArea
        rw [← Option.some.inj isOperation]
        refine ⟨⟨hasId, length_cutText_le _ _⟩, ?_, ?_, ?_, ?_, ?_, ⟨_, rfl⟩⟩
        · dsimp only
          cases ((item.get? "region").filter Value.isObject) with
          | none | some region =>
              simp
        · intro region isRegion
          obtain ⟨value, -, rfl⟩ := Option.map_eq_some_iff.mp isRegion
          exact ⟨_, rfl⟩
        · intro strokes isStrokes
          dsimp only at isStrokes
          split at isStrokes
          · exact nomatch isStrokes
          · rename_i noRegion
            obtain rfl := Option.some.inj isStrokes
            refine ⟨fun isEmpty => oneArea ?_, normalizeStrokes_normal _ _⟩
            rw [isEmpty, Bool.eq_false_iff.mpr noRegion]
            rfl
        · intro source isSource
          obtain ⟨value, -, rfl⟩ := Option.map_eq_some_iff.mp isSource
          exact ⟨_, rfl⟩
        · intro fill isFill
          exact isArtifactId_of_artifactIn isFill
  · exact nomatch isOperation

theorem AssetDevelopCleanup.IsNormal.get?
    (normal : operation.IsNormal)
    {name : String}
    (noNumber : name ∉ cleanupSettings.map Prod.fst) :
    operation.value.get? name = fieldNamed name operation.fields := by
  obtain ⟨value, isNumbers⟩ := normal.numbers
  refine get?_of_field ?_ ?_
  · rw [← isNumbers, cleanupSettings.names_read]
    exact noNumber
  · have names : operation.fields.map Prod.fst = ["id", "method", "enabled",
        "region", "strokes", "source", "fill"] := rfl
    rw [names]
    decide

/-- An operation within its contract is read as it is, if its identifier is
trimmed. -/
theorem AssetDevelopCleanup.IsNormal.again
    (normal : operation.IsNormal)
    (trimmed : IsTrimmed operation.id) :
    normalizeCleanup operation.value = some operation := by
  have id : operation.value.get? "id" = some (.string operation.id) :=
    normal.get? (by decide)
  have method : operation.value.get? "method" =
      some (.string (textOf operation.method.name)) :=
    normal.get? (by decide)
  have enabled : operation.value.get? "enabled" =
      some (.bool operation.enabled) :=
    normal.get? (by decide)
  have region : operation.value.get? "region" =
      operation.region.map AssetDevelopCrop.value :=
    normal.get? (by decide)
  have strokes : operation.value.get? "strokes" =
      operation.strokes.map strokesValue :=
    normal.get? (by decide)
  have source : operation.value.get? "source" =
      operation.source.map (Value.of · []) :=
    normal.get? (by decide)
  have fill : operation.value.get? "fill" = operation.fill.map .string :=
    normal.get? (by decide)
  have sameId : cutText 40 (some (.string operation.id)) = operation.id :=
    cutText_again trimmed normal.id.2
  have sameRegion : (((operation.region.map AssetDevelopCrop.value).filter
      Value.isObject).map fun region => readRectangle regionSide (some region)) =
        operation.region := by
    cases isRegion : operation.region with
    | none =>
        rfl
    | some own =>
        obtain ⟨value, rfl⟩ := normal.region own isRegion
        exact congrArg some (readRectangle_again regionSide_sound rfl value)
  have sameStrokes : normalizeStrokes (operation.strokes.map strokesValue)
      false = operation.strokes.getD [] := by
    cases isStrokes : operation.strokes with
    | none =>
        rfl
    | some own =>
        exact (normal.strokes own isStrokes).2.again
  have sameSource : (((operation.source.map (Value.of · [])).filter
      Value.isTruthy).map fun source => sourceSettings.read (some source)) =
        operation.source := by
    cases isSource : operation.source with
    | none =>
        rfl
    | some own =>
        obtain ⟨value, rfl⟩ := normal.source own isSource
        exact congrArg some (sourceSettings_sound.read_read value [])
  have sameFill : artifactIn (operation.fill.map .string) = operation.fill := by
    cases isFill : operation.fill with
    | none =>
        rfl
    | some own =>
        have same : artifactIn (some (orNull (some own))) = some own :=
          artifactIn_again fun text isText =>
            normal.fill text (isFill.trans isText)
        exact same
  have sameNumbers : cleanupSettings.read operation.value =
      operation.numbers := by
    obtain ⟨value, isNumbers⟩ := normal.numbers
    rw [AssetDevelopCleanup.value, ← isNumbers]
    exact cleanupSettings_sound.read_read value operation.fields
  have sameEnabled : (!isBool false (some (.bool operation.enabled))) =
      operation.enabled := by
    cases operation.enabled <;> rfl
  rw [normalizeCleanup, id, method, enabled, region, strokes, source, fill,
    method_again]
  dsimp only
  rw [sameId, if_neg normal.id.1, sameRegion, sameStrokes, sameSource, sameFill,
    sameNumbers, sameEnabled]
  have area := normal.area
  cases isRegion : operation.region with
  | none =>
      obtain ⟨own, isStrokes⟩ := Option.isSome_iff_exists.mp (area.mpr isRegion)
      have nonempty := (normal.strokes own isStrokes).1
      have isList : own.isEmpty = false :=
        List.isEmpty_eq_false_iff.mpr nonempty
      rw [isStrokes, Option.getD_some, isList, if_neg (by nofun)]
      refine congrArg some ?_
      cases operation
      dsimp only at isRegion isStrokes ⊢
      rw [isRegion, isStrokes]
      rfl
  | some own =>
      have noStrokes : operation.strokes = none := by
        refine Option.not_isSome_iff_eq_none.mp fun hasStrokes => ?_
        exact nomatch (area.mp hasStrokes).symm.trans isRegion
      rw [noStrokes, Option.getD_none, if_neg (by nofun)]
      refine congrArg some ?_
      cases operation
      dsimp only at isRegion noStrokes ⊢
      rw [isRegion, noStrokes]
      rfl

end Frameleaf.Develop
