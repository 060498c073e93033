import Frameleaf.Develop.Kept

namespace Frameleaf.Develop

open Rounding

/-!
# Recipes that are read again

A recipe that was read once is read as it is, unless a text was cut at a space
or a perspective was rounded away.
-/

/-- A text that is trimmed and cut to a length does not end in space. -/
def CutsClean
    (length : ℕ)
    (value : Option Value) : Prop :=
  ∀ last ∈ (cutText length value).getLast?, isSpace last = false

/-- A perspective that corrects something, but nothing after rounding. -/
structure RoundsAway (value : Value) : Prop where
  isObject : value.isObject = true
  corrects : isIdentityPerspective value = false
  rounded : ∀ side ∈ perspectiveSettings.read value, side.2 = 0

/-- A recipe whose texts are not cut at a space and whose perspective is not
rounded away. -/
structure StaysNormal (candidate : Option Value) : Prop where
  masks : ∀ value ∈ keptMasks candidate,
    CutsClean 40 (value.get? "id") ∧ CutsClean 60 (value.get? "name")
  cleanup : ∀ value ∈ keptCleanup candidate, CutsClean 40 (value.get? "id")
  perspective : ∀ value ∈ property candidate "perspective", ¬RoundsAway value

theorem isTrimmed_cutText_iff
    (length : ℕ)
    (value : Option Value) :
    IsTrimmed (cutText length value) ↔ CutsClean length value := by
  have noSpaceFirst : (cutText length value).dropWhile isSpace =
      cutText length value := by
    unfold cutText
    split
    · rename_i text isText
      have word := dropWhile_trim text
      cases whole : trim text with
      | nil =>
          rw [List.take_nil]
          rfl
      | cons first rest =>
          cases length with
          | zero =>
              rfl
          | succ length =>
              rw [whole] at word
              rw [List.take_succ_cons]
              refine List.dropWhile_cons_of_neg fun isFirst => ?_
              have := congrArg List.length word
              rw [List.dropWhile_cons_of_pos isFirst, List.length_cons] at this
              have := (List.dropWhile_suffix isSpace (l := rest)).length_le
              omega
    · rfl
  rw [IsTrimmed, trim, noSpaceFirst, List.rdropWhile_eq_self_iff, CutsClean]
  constructor
  · intro noSpace last isLast
    obtain ⟨nonempty, rfl⟩ := List.mem_getLast?_eq_getLast isLast
    exact Bool.eq_false_iff.mpr (noSpace nonempty)
  · intro noSpace nonempty isLast
    rw [noSpace _ (List.getLast?_eq_some_getLast nonempty)] at isLast
    cases isLast

theorem normalizeRotation_again
    {rotation : ℤ}
    (member : rotation ∈ ([0, 90, 180, 270] : List ℤ)) :
    normalizeRotation (some (.number rotation)) = rotation := by
  simp only [List.mem_cons, List.not_mem_nil, or_false] at member
  rcases member with rfl | rfl | rfl | rfl
  · decide +kernel
  · decide +kernel
  · decide +kernel
  · decide +kernel

variable (candidate : Option Value)

theorem normalizeKeyFrame_again
    {time : Option ℚ}
    {value : Option Value}
    (isTime : normalizeKeyFrame value = time) :
    normalizeKeyFrame (time.map fun time => .of [("timeMs", time)] []) =
      time := by
  cases time with
  | none =>
      rfl
  | some time =>
      have found : property (some (.of [("timeMs", time)] [])) "timeMs" =
          some (.number time) :=
        get?_of_number (by simp) (List.mem_singleton_self ("timeMs", time)) []
      rw [Option.map_some, normalizeKeyFrame, found]
      dsimp only
      unfold normalizeKeyFrame at isTime
      split at isTime
      · rw [← Option.some.inj isTime, keyFrameSetting_sound.read_read]
      · exact nomatch isTime

theorem clampUnit_eq_zero_iff
    {number : ℚ}
    (isAbove : -100 ≤ number)
    (isBelow : number ≤ 100) :
    clampUnit (some (.number number)) = 0 ↔ number = 0 := by
  rw [clampUnit, min_eq_right isBelow, max_eq_right isAbove]
  constructor
  · intro isZero
    linarith
  · rintro rfl
    exact zero_div _

theorem isIdentityPerspective_read
    (value : Option Value) :
    isIdentityPerspective (.of (perspectiveSettings.read value) []) = true ↔
      ∀ side ∈ perspectiveSettings.read value, side.2 = 0 := by
  have zeroOf : ∀ side ∈ perspectiveSettings.read value,
      clampUnit ((Value.of (perspectiveSettings.read value) []).get? side.1) =
        0 ↔ side.2 = 0 := by
    intro side member
    have distinct : ((perspectiveSettings.read value).map Prod.fst).Nodup := by
      rw [perspectiveSettings.names_read]
      exact perspectiveSettings_sound.distinct
    have range : -100 ≤ side.2 ∧ side.2 ≤ 100 := by
      obtain ⟨entry, isEntry, rfl⟩ := List.mem_map.mp member
      have sound := perspectiveSettings_sound.each entry isEntry
      rcases List.mem_cons.mp isEntry with rfl | isSecond
      · exact sound.mem_range _
      · obtain rfl := List.mem_singleton.mp isSecond
        exact sound.mem_range _
    rw [get?_of_number distinct member []]
    exact clampUnit_eq_zero_iff range.1 range.2
  rw [isIdentityPerspective, decide_eq_true_iff]
  constructor
  · rintro ⟨vertical, horizontal⟩ side member
    refine (zeroOf side member).mp ?_
    rcases List.mem_cons.mp member with rfl | isSecond
    · exact vertical
    · obtain rfl := List.mem_singleton.mp isSecond
      exact horizontal
  · intro isZero
    exact ⟨(zeroOf _ List.mem_cons_self).mpr (isZero _ List.mem_cons_self),
      (zeroOf _ (List.mem_cons_of_mem _ List.mem_cons_self)).mpr
        (isZero _ (List.mem_cons_of_mem _ List.mem_cons_self))⟩

theorem normalizePerspective_again_iff
    (value : Option Value) :
    normalizePerspective ((normalizePerspective value).map (Value.of · [])) =
        normalizePerspective value ↔
      ∀ held ∈ value, ¬RoundsAway held := by
  cases value with
  | none =>
      exact Iff.intro (fun _ held isHeld => nomatch isHeld) (fun _ => rfl)
  | some held =>
      by_cases keeps : (!held.isObject || isIdentityPerspective held) = true
      · have isNone : normalizePerspective (some held) = none := by
          rw [normalizePerspective, if_pos keeps]
        rw [isNone]
        refine Iff.intro (fun _ other isHeld roundsAway => ?_) (fun _ => rfl)
        obtain rfl := Option.some.inj isHeld
        rw [roundsAway.isObject, roundsAway.corrects] at keeps
        exact nomatch keeps
      · have isSome : normalizePerspective (some held) =
            some (perspectiveSettings.read held) := by
          rw [normalizePerspective, if_neg keeps]
        have readAgain := perspectiveSettings_sound.read_read held []
        have isIdentity := isIdentityPerspective_read held
        rw [isSome, Option.map_some, normalizePerspective, readAgain]
        have isObject : (Value.of (perspectiveSettings.read held) []).isObject =
            true :=
          rfl
        rw [isObject, Bool.not_true, Bool.false_or]
        constructor
        · intro again other isHeld roundsAway
          obtain rfl := Option.some.inj isHeld
          rw [if_pos (isIdentity.mpr roundsAway.rounded)] at again
          exact nomatch again
        · intro noRounding
          refine if_neg fun isZero => noRounding held rfl ?_
          rw [Bool.not_eq_true, Bool.or_eq_false_iff, Bool.not_eq_false'] at keeps
          exact ⟨keeps.1, keeps.2, isIdentity.mp isZero⟩

theorem property_recipe
    {name : String}
    (noNumber : name ∉ stillSettings.map Prod.fst) :
    property (some (normalizeDevelopRecipe candidate).value) name =
      fieldNamed name (normalizeDevelopRecipe candidate).fields := by
  refine get?_of_field ?_ ?_
  · have names : (normalizeDevelopRecipe candidate).sliders.map Prod.fst =
        stillSettings.map Prod.fst :=
      stillSettings.names_read candidate
    rw [names]
    exact noNumber
  · have names : (normalizeDevelopRecipe candidate).fields.map Prod.fst =
        ["version", "crop", "straighten", "rotation", "flipHorizontal",
          "flipVertical", "perspective", "keyFrame", "preset",
          "presetStrength", "masks", "cleanup"] := rfl
    rw [names]
    decide

theorem property_masks :
    property (some (normalizeDevelopRecipe candidate).value) "masks" =
      some (.array ((normalizeDevelopRecipe candidate).masks.map
        AssetDevelopMask.value)) :=
  property_recipe candidate (by decide)

theorem property_cleanup :
    property (some (normalizeDevelopRecipe candidate).value) "cleanup" =
      some (.array ((normalizeDevelopRecipe candidate).cleanup.map
        AssetDevelopCleanup.value)) :=
  property_recipe candidate (by decide)

theorem AssetDevelopMask.IsNormal.texts
    {mask : AssetDevelopMask}
    (normal : mask.IsNormal) :
    Develop.IsTrimmed (identifierOf mask.value) ∧
      Develop.IsTrimmed (cutText 60 (mask.value.get? "name")) := by
  have id : mask.value.get? "id" = some (.string mask.id) :=
    normal.get? (by decide)
  have name : mask.value.get? "name" = some (orNull mask.name) :=
    normal.get? (by decide)
  rw [identifierOf, id, name]
  refine ⟨isTrimmed_cutText normal.id.2, ?_⟩
  cases isName : mask.name with
  | none =>
      rfl
  | some text =>
      exact isTrimmed_cutText (normal.name text isName).2

theorem AssetDevelopCleanup.IsNormal.identifier
    {operation : AssetDevelopCleanup}
    (normal : operation.IsNormal) :
    IsTrimmed (identifierOf operation.value) := by
  have id : operation.value.get? "id" = some (.string operation.id) :=
    normal.get? (by decide)
  rw [identifierOf, id]
  exact isTrimmed_cutText normal.id.2

theorem mem_of_mem_valuesWithArea
    {left : ℕ}
    {pairs : List (Value × AssetDevelopCleanup)}
    {value : Value}
    (member : value ∈ valuesWithArea left pairs) :
    value ∈ pairs.map Prod.fst := by
  induction pairs generalizing left with
  | nil =>
      exact nomatch member
  | cons pair rest inductionHypothesis =>
      obtain ⟨first, operation⟩ := pair
      rw [valuesWithArea] at member
      rw [List.map_cons]
      split at member
      · split at member
        · exact List.mem_cons_of_mem _ (inductionHypothesis member)
        · rcases List.mem_cons.mp member with rfl | inRest
          · exact List.mem_cons_self
          · exact List.mem_cons_of_mem _ (inductionHypothesis inRest)
      · rcases List.mem_cons.mp member with rfl | inRest
        · exact List.mem_cons_self
        · exact List.mem_cons_of_mem _ (inductionHypothesis inRest)

theorem mem_of_mem_selected
    {Item : Type}
    {limit : ℕ}
    {read : Value → Option Item}
    {id : Value × Item → Text}
    {values : List Value}
    {value : Value}
    (member : value ∈
      (selectItems limit (readWith read) id [] values).map Prod.fst) :
    value ∈ values := by
  obtain ⟨pair, isPair, rfl⟩ := List.mem_map.mp member
  rcases mem_selectItems isPair with isNone | ⟨source, isSource, isRead⟩
  · exact nomatch isNone
  · obtain ⟨item, -, rfl⟩ := Option.map_eq_some_iff.mp isRead
    exact isSource

theorem cutsClean_of_again
    (again : normalizeDevelopRecipe
      (some (normalizeDevelopRecipe candidate).value) =
        normalizeDevelopRecipe candidate) :
    (∀ value ∈ keptMasks candidate,
      CutsClean 40 (value.get? "id") ∧ CutsClean 60 (value.get? "name")) ∧
    ∀ value ∈ keptCleanup candidate, CutsClean 40 (value.get? "id") := by
  constructor
  · intro value member
    have texts := texts_masks
      (some (normalizeDevelopRecipe candidate).value)
    rw [again, texts_masks] at texts
    have isText : (identifierOf value, cutText 60 (value.get? "name")) ∈
        (keptMasks candidate).map fun value =>
          (identifierOf value, cutText 60 (value.get? "name")) :=
      List.mem_map_of_mem member
    rw [texts] at isText
    obtain ⟨other, isOther, same⟩ := List.mem_map.mp isText
    obtain ⟨sameId, sameName⟩ := Prod.mk.inj same
    have isValue := mem_of_mem_selected isOther
    rw [property_masks] at isValue
    obtain ⟨mask, isMask, rfl⟩ := List.mem_map.mp isValue
    obtain ⟨id, name⟩ := (masks_normal candidate isMask).texts
    rw [← isTrimmed_cutText_iff, ← isTrimmed_cutText_iff, ← sameName]
    rw [sameId] at id
    exact ⟨id, name⟩
  · intro value member
    have ids := ids_cleanup (some (normalizeDevelopRecipe candidate).value)
    rw [again, ids_cleanup] at ids
    have isId : identifierOf value ∈ (keptCleanup candidate).map identifierOf :=
      List.mem_map_of_mem member
    rw [ids] at isId
    obtain ⟨other, isOther, sameId⟩ := List.mem_map.mp isId
    have isValue := mem_of_mem_selected (mem_of_mem_valuesWithArea isOther)
    rw [property_cleanup] at isValue
    obtain ⟨operation, isOperation, rfl⟩ := List.mem_map.mp isValue
    have id := (cleanup_normal candidate isOperation).identifier
    rw [sameId] at id
    exact (isTrimmed_cutText_iff _ _).mp id

theorem masks_trimmed
    (clean : ∀ value ∈ keptMasks candidate,
      CutsClean 40 (value.get? "id") ∧ CutsClean 60 (value.get? "name"))
    {mask : AssetDevelopMask}
    (member : mask ∈ (normalizeDevelopRecipe candidate).masks) :
    mask.IsTrimmed := by
  have isText : (mask.id, mask.name.getD []) ∈
      (normalizeDevelopRecipe candidate).masks.map fun mask =>
        (mask.id, mask.name.getD []) :=
    List.mem_map_of_mem member
  rw [texts_masks] at isText
  obtain ⟨value, isKept, same⟩ := List.mem_map.mp isText
  obtain ⟨sameId, sameName⟩ := Prod.mk.inj same
  obtain ⟨id, name⟩ := clean value isKept
  constructor
  · rw [← sameId]
    exact (isTrimmed_cutText_iff _ _).mpr id
  · intro text isName
    rw [isName, Option.getD_some] at sameName
    rw [← sameName]
    exact (isTrimmed_cutText_iff _ _).mpr name

theorem cleanup_trimmed
    (clean : ∀ value ∈ keptCleanup candidate, CutsClean 40 (value.get? "id"))
    {operation : AssetDevelopCleanup}
    (member : operation ∈ (normalizeDevelopRecipe candidate).cleanup) :
    IsTrimmed operation.id := by
  have isId : operation.id ∈
      (normalizeDevelopRecipe candidate).cleanup.map AssetDevelopCleanup.id :=
    List.mem_map_of_mem member
  rw [ids_cleanup] at isId
  obtain ⟨value, isKept, sameId⟩ := List.mem_map.mp isId
  rw [← sameId]
  exact (isTrimmed_cutText_iff _ _).mpr (clean value isKept)

theorem normalizeDevelopMasks_again
    (trimmed : ∀ mask ∈ (normalizeDevelopRecipe candidate).masks,
      mask.IsTrimmed) :
    normalizeDevelopMasks (property
      (some (normalizeDevelopRecipe candidate).value) "masks") =
        (normalizeDevelopRecipe candidate).masks := by
  rw [property_masks]
  exact selectItems_again
    (fun mask member =>
      (masks_normal candidate member).again (trimmed mask member))
    (masks_distinct candidate) (length_masks_le candidate)

theorem normalizeDevelopCleanup_again
    (trimmed : ∀ operation ∈ (normalizeDevelopRecipe candidate).cleanup,
      IsTrimmed operation.id) :
    normalizeDevelopCleanup (property
      (some (normalizeDevelopRecipe candidate).value) "cleanup") =
        (normalizeDevelopRecipe candidate).cleanup := by
  rw [property_cleanup]
  exact selectItems_again
    (fun operation member =>
      (cleanup_normal candidate member).again (trimmed operation member))
    (cleanup_distinct candidate) (length_cleanup_le candidate)

theorem within_masks_again :
    within AssetDevelopMask.strokes AssetDevelopMask.withStrokes
        ASSET_DEVELOP_MAX_RECIPE_POINTS
        (normalizeDevelopRecipe candidate).masks =
      ((normalizeDevelopRecipe candidate).masks,
        ASSET_DEVELOP_MAX_RECIPE_POINTS - itemCount AssetDevelopMask.strokes
          (normalizeDevelopRecipe candidate).masks) := by
  refine within_eq_self maskReplaces ?_ ?_
  · intro mask member own isStrokes stroke isStroke
    exact (((masks_normal candidate member).strokesNormal own isStrokes).each
      stroke isStroke).nonempty
  · exact (Nat.le_add_right _ _).trans (pointCount_le candidate)

theorem within_cleanup_again :
    (within AssetDevelopCleanup.strokes AssetDevelopCleanup.withStrokes
        (ASSET_DEVELOP_MAX_RECIPE_POINTS - itemCount AssetDevelopMask.strokes
          (normalizeDevelopRecipe candidate).masks)
        (normalizeDevelopRecipe candidate).cleanup).1.filter
          AssetDevelopCleanup.hasArea =
      (normalizeDevelopRecipe candidate).cleanup := by
  have nonempty : ∀ operation ∈ (normalizeDevelopRecipe candidate).cleanup,
      ∀ own, operation.strokes = some own → ∀ stroke ∈ own,
        stroke.points ≠ [] := by
    intro operation member own isStrokes stroke isStroke
    exact (((cleanup_normal candidate member).strokes own isStrokes).2.each
      stroke isStroke).nonempty
  have few : itemCount AssetDevelopCleanup.strokes
        (normalizeDevelopRecipe candidate).cleanup ≤
      ASSET_DEVELOP_MAX_RECIPE_POINTS - itemCount AssetDevelopMask.strokes
        (normalizeDevelopRecipe candidate).masks := by
    have all := pointCount_le candidate
    unfold AssetDevelopRecipe.pointCount at all
    omega
  rw [within_eq_self cleanupReplaces nonempty few]
  refine List.filter_eq_self.mpr fun operation member => ?_
  exact (List.mem_filter.mp member).2

/-- A recipe that stays normal is read as it is. -/
theorem normalizeDevelopRecipe_again
    (stays : StaysNormal candidate) :
    normalizeDevelopRecipe (some (normalizeDevelopRecipe candidate).value) =
      normalizeDevelopRecipe candidate := by
  have masks := normalizeDevelopMasks_again candidate
    fun mask member => masks_trimmed candidate stays.masks member
  have cleanup := normalizeDevelopCleanup_again candidate
    fun operation member => cleanup_trimmed candidate stays.cleanup member
  have sliders : stillSettings.read
      (some (normalizeDevelopRecipe candidate).value) =
        (normalizeDevelopRecipe candidate).sliders :=
    stillSettings_sound.read_read candidate _
  have crop : property (some (normalizeDevelopRecipe candidate).value) "crop" =
      some (normalizeDevelopRecipe candidate).crop.value :=
    property_recipe candidate (by decide)
  have straighten :
      property (some (normalizeDevelopRecipe candidate).value) "straighten" =
        some (.number (normalizeDevelopRecipe candidate).straighten) :=
    property_recipe candidate (by decide)
  have rotation :
      property (some (normalizeDevelopRecipe candidate).value) "rotation" =
        some (.number (normalizeDevelopRecipe candidate).rotation) :=
    property_recipe candidate (by decide)
  have flipHorizontal :
      property (some (normalizeDevelopRecipe candidate).value) "flipHorizontal" =
        some (.bool (normalizeDevelopRecipe candidate).flipHorizontal) :=
    property_recipe candidate (by decide)
  have flipVertical :
      property (some (normalizeDevelopRecipe candidate).value) "flipVertical" =
        some (.bool (normalizeDevelopRecipe candidate).flipVertical) :=
    property_recipe candidate (by decide)
  have perspective :
      property (some (normalizeDevelopRecipe candidate).value) "perspective" =
        (normalizeDevelopRecipe candidate).perspective.map (Value.of · []) :=
    property_recipe candidate (by decide)
  have keyFrame :
      property (some (normalizeDevelopRecipe candidate).value) "keyFrame" =
        (normalizeDevelopRecipe candidate).keyFrame.map
          fun time => .of [("timeMs", time)] [] :=
    property_recipe candidate (by decide)
  have preset :
      property (some (normalizeDevelopRecipe candidate).value) "preset" =
        some (.string (textOf (normalizeDevelopRecipe candidate).preset.name)) :=
    property_recipe candidate (by decide)
  have presetStrength :
      property (some (normalizeDevelopRecipe candidate).value) "presetStrength" =
        some (.number (normalizeDevelopRecipe candidate).presetStrength) :=
    property_recipe candidate (by decide)
  have sameBool : ∀ value, isBool true (some (.bool value)) = value := by
    intro value
    cases value <;> rfl
  rw [normalizeDevelopRecipe, masks, cleanup, sliders, crop, straighten,
    rotation, flipHorizontal, flipVertical, perspective, keyFrame, preset,
    presetStrength, preset_again, within_masks_again]
  dsimp only
  rw [within_cleanup_again, sameBool, sameBool,
    normalizeRotation_again (normalizeDevelopRecipe_inRange candidate).rotation]
  have sameCrop : normalizeCrop
      (some (normalizeDevelopRecipe candidate).crop.value) =
        (normalizeDevelopRecipe candidate).crop :=
    normalizeCrop_again _
  have sameStraighten : straightenSetting.read
      (some (.number (normalizeDevelopRecipe candidate).straighten)) =
        (normalizeDevelopRecipe candidate).straighten :=
    straightenSetting_sound.read_read _
  have samePerspective : normalizePerspective
      ((normalizeDevelopRecipe candidate).perspective.map (Value.of · [])) =
        (normalizeDevelopRecipe candidate).perspective :=
    (normalizePerspective_again_iff _).mpr stays.perspective
  have sameKeyFrame : normalizeKeyFrame
      ((normalizeDevelopRecipe candidate).keyFrame.map
        fun time => .of [("timeMs", time)] []) =
          (normalizeDevelopRecipe candidate).keyFrame :=
    normalizeKeyFrame_again rfl
  have sameStrength : presetStrengthSetting.read
      (some (.number (normalizeDevelopRecipe candidate).presetStrength)) =
        (normalizeDevelopRecipe candidate).presetStrength :=
    presetStrengthSetting_sound.read_read _
  rw [sameCrop, sameStraighten, samePerspective, sameKeyFrame, sameStrength]
  rfl

theorem perspective_of_again
    (again : normalizeDevelopRecipe
      (some (normalizeDevelopRecipe candidate).value) =
        normalizeDevelopRecipe candidate) :
    ∀ value ∈ property candidate "perspective", ¬RoundsAway value := by
  refine (normalizePerspective_again_iff _).mp ?_
  have stored :
      property (some (normalizeDevelopRecipe candidate).value) "perspective" =
        (normalizeDevelopRecipe candidate).perspective.map (Value.of · []) :=
    property_recipe candidate (by decide)
  have same := congrArg AssetDevelopRecipe.perspective again
  have read : (normalizeDevelopRecipe
      (some (normalizeDevelopRecipe candidate).value)).perspective =
        normalizePerspective (property
          (some (normalizeDevelopRecipe candidate).value) "perspective") :=
    rfl
  rw [read, stored] at same
  exact same

/-- What a recipe that was read promises. -/
structure RecipeLaws (candidate : Option Value) : Prop where
  /-- Reading it again gives the same recipe. -/
  again : normalizeDevelopRecipe
    (some (normalizeDevelopRecipe candidate).value) =
      normalizeDevelopRecipe candidate
  /-- Every number is in its range. -/
  inRange : (normalizeDevelopRecipe candidate).InRange
  /-- Masks have distinct identifiers. -/
  masks : ((normalizeDevelopRecipe candidate).masks.map
    AssetDevelopMask.id).Nodup
  /-- Operations have distinct identifiers. -/
  cleanup : ((normalizeDevelopRecipe candidate).cleanup.map
    AssetDevelopCleanup.id).Nodup
  /-- It has no more points than are allowed. -/
  points : (normalizeDevelopRecipe candidate).pointCount ≤
    ASSET_DEVELOP_MAX_RECIPE_POINTS

/-- A recipe that was read keeps its promise exactly when no text is cut at a
space and no perspective is rounded away. -/
theorem recipeLaws_iff :
    RecipeLaws candidate ↔ StaysNormal candidate := by
  constructor
  · intro laws
    obtain ⟨masks, cleanup⟩ := cutsClean_of_again candidate laws.again
    exact ⟨masks, cleanup, perspective_of_again candidate laws.again⟩
  · intro stays
    exact ⟨normalizeDevelopRecipe_again candidate stays,
      normalizeDevelopRecipe_inRange candidate, masks_distinct candidate,
      cleanup_distinct candidate, pointCount_le candidate⟩

/-- A perspective of which nothing is left after rounding. -/
def slightPerspective : Value :=
  .object [("perspective", .object [("vertical", .number (1 / 100000))])]

/-- A slight perspective is kept by the first reading and left out by the
second. -/
theorem slight_perspective_left_out :
    ¬∀ candidate, RecipeLaws candidate := by
  intro laws
  refine perspective_of_again (some slightPerspective) (laws _).again _ rfl
    ⟨rfl, ?_, ?_⟩
  · decide +kernel
  · decide +kernel

end Frameleaf.Develop
