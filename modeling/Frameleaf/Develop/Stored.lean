import Frameleaf.Develop.Recipe

namespace Frameleaf.Develop

open Rounding

/-!
# Recipes as they are stored

A recipe is stored as a value and read from it again.  Every number that was
read once is read as it is.
-/

/-- A value of numbers and of other properties, some of which may be missing. -/
def Value.of
    (numbers : List (String × ℚ))
    (fields : List (String × Option Value)) : Value :=
  .object ((numbers.map fun entry => (entry.1, .number entry.2)) ++
    fields.filterMap fun field => field.2.map (Prod.mk field.1))

/-- A rectangle as it is stored. -/
def AssetDevelopCrop.value (crop : AssetDevelopCrop) : Value :=
  .of [("x", crop.x), ("y", crop.y), ("w", crop.w), ("h", crop.h)] []

/-- A point as it is stored. -/
def pointValue (point : ℚ × ℚ) : Value :=
  .array [.number point.1, .number point.2]

/-- A stroke as it is stored. -/
def DevelopStroke.value (stroke : DevelopStroke) : Value :=
  .of [("radius", stroke.radius)]
    [("points", some (.array (stroke.points.map pointValue))),
      ("erase", some (.bool stroke.erase))]

/-- Strokes as they are stored. -/
def strokesValue (strokes : List DevelopStroke) : Value :=
  .array (strokes.map DevelopStroke.value)

/-- A text, or nothing, as it is stored. -/
def orNull : Option Text → Value
  | some text =>
      .string text
  | none =>
      .null

/-- The properties of a mask that are no numbers of a table. -/
def AssetDevelopMask.fields
    (mask : AssetDevelopMask) : List (String × Option Value) :=
  [("id", some (.string mask.id)), ("name", some (orNull mask.name)),
    ("kind", some (.string (textOf mask.kind.name))),
    ("enabled", some (.bool mask.enabled)),
    ("invert", some (.bool mask.invert)),
    ("adjustments", some (.of mask.adjustments [])),
    ("strokes", mask.strokes.map strokesValue),
    ("artifact", mask.artifact.map orNull)]

/-- A mask as it is stored. -/
def AssetDevelopMask.value (mask : AssetDevelopMask) : Value :=
  .of mask.shape mask.fields

/-- The properties of an operation that are no numbers of a table. -/
def AssetDevelopCleanup.fields
    (operation : AssetDevelopCleanup) : List (String × Option Value) :=
  [("id", some (.string operation.id)),
    ("method", some (.string (textOf operation.method.name))),
    ("enabled", some (.bool operation.enabled)),
    ("region", operation.region.map AssetDevelopCrop.value),
    ("strokes", operation.strokes.map strokesValue),
    ("source", operation.source.map (Value.of · [])),
    ("fill", operation.fill.map .string)]

/-- An operation as it is stored. -/
def AssetDevelopCleanup.value (operation : AssetDevelopCleanup) : Value :=
  .of operation.numbers operation.fields

/-- The properties of a recipe that are no numbers of a table. -/
def AssetDevelopRecipe.fields
    (recipe : AssetDevelopRecipe) : List (String × Option Value) :=
  [("version", some (.number 1)), ("crop", some recipe.crop.value),
    ("straighten", some (.number recipe.straighten)),
    ("rotation", some (.number recipe.rotation)),
    ("flipHorizontal", some (.bool recipe.flipHorizontal)),
    ("flipVertical", some (.bool recipe.flipVertical)),
    ("perspective", recipe.perspective.map (Value.of · [])),
    ("keyFrame", recipe.keyFrame.map fun time => .of [("timeMs", time)] []),
    ("preset", some (.string (textOf recipe.preset.name))),
    ("presetStrength", some (.number recipe.presetStrength)),
    ("masks", some (.array (recipe.masks.map AssetDevelopMask.value))),
    ("cleanup",
      some (.array (recipe.cleanup.map AssetDevelopCleanup.value)))]

/-- A recipe as it is stored. -/
def AssetDevelopRecipe.value (recipe : AssetDevelopRecipe) : Value :=
  .of recipe.sliders recipe.fields

theorem get?_of_number
    {numbers : List (String × ℚ)}
    (distinct : (numbers.map Prod.fst).Nodup)
    {entry : String × ℚ}
    (member : entry ∈ numbers)
    (fields : List (String × Option Value)) :
    (Value.of numbers fields).get? entry.1 = some (.number entry.2) := by
  unfold Value.of Value.get?
  dsimp only
  rw [List.find?_append]
  induction numbers with
  | nil =>
      exact nomatch member
  | cons first rest inductionHypothesis =>
      obtain ⟨fresh, restDistinct⟩ := List.nodup_cons.mp distinct
      rw [List.map_cons, List.find?_cons]
      rcases List.mem_cons.mp member with rfl | inRest
      · rw [decide_eq_true rfl]
        rfl
      · have differs : first.1 ≠ entry.1 := by
          intro same
          exact fresh (List.mem_map.mpr ⟨entry, inRest, same.symm⟩)
        rw [decide_eq_false differs]
        exact inductionHypothesis restDistinct inRest

/-- The property of a name among some that may be missing. -/
def fieldNamed
    (name : String) : List (String × Option Value) → Option Value
  | [] =>
      none
  | field :: rest =>
      if field.1 = name then field.2 else fieldNamed name rest

/-- A property of a value is found by its name. -/
theorem get?_of_field
    {numbers : List (String × ℚ)}
    {name : String}
    (noNumber : name ∉ numbers.map Prod.fst)
    {fields : List (String × Option Value)}
    (distinct : (fields.map Prod.fst).Nodup) :
    (Value.of numbers fields).get? name = fieldNamed name fields := by
  have notFirst : (numbers.map fun entry =>
      ((entry.1, .number entry.2) : String × Value)).find?
        (fun field => field.1 = name) = none := by
    refine List.find?_eq_none.mpr fun field member isNamed => noNumber ?_
    obtain ⟨entry, inNumbers, rfl⟩ := List.mem_map.mp member
    exact List.mem_map.mpr ⟨entry, inNumbers, of_decide_eq_true isNamed⟩
  unfold Value.of Value.get?
  dsimp only
  rw [List.find?_append, notFirst, Option.none_or]
  induction fields with
  | nil =>
      rfl
  | cons first rest inductionHypothesis =>
      obtain ⟨fresh, restDistinct⟩ := List.nodup_cons.mp distinct
      obtain ⟨other, value⟩ := first
      rw [fieldNamed, List.filterMap_cons]
      by_cases same : other = name
      · subst same
        cases value with
        | some value =>
            rw [if_pos rfl]
            dsimp only [Option.map_some]
            rw [List.find?_cons, decide_eq_true rfl]
            rfl
        | none =>
            rw [if_pos rfl]
            have missing : (rest.filterMap fun field =>
                field.2.map (Prod.mk field.1)).find?
                  (fun field => field.1 = other) = none := by
              refine List.find?_eq_none.mpr fun field member isNamed => ?_
              obtain ⟨source, inRest, isField⟩ := List.mem_filterMap.mp member
              obtain ⟨held, -, rfl⟩ := Option.map_eq_some_iff.mp isField
              exact fresh (List.mem_map.mpr
                ⟨source, inRest, of_decide_eq_true isNamed⟩)
            dsimp only [Option.map_none]
            rw [missing]
            rfl
      · rw [if_neg same]
        cases value with
        | some value =>
            dsimp only [Option.map_some]
            rw [List.find?_cons, decide_eq_false same]
            exact inductionHypothesis restDistinct
        | none =>
            exact inductionHypothesis restDistinct

/-- A setting whose range is not empty and starts and ends on its grid. -/
structure Setting.IsSound (setting : Setting) : Prop where
  positive : 0 < setting.grid
  ordered : setting.low ≤ setting.high
  lowOnGrid : OnGrid setting.grid setting.low
  highOnGrid : OnGrid setting.grid setting.high

variable {setting side : Setting}

theorem Setting.IsSound.mem_range
    (sound : setting.IsSound)
    (value : Option Value) :
    setting.low ≤ setting.read value ∧ setting.read value ≤ setting.high :=
  ⟨le_toGrid sound.positive sound.lowOnGrid (low_le_clamp _ _ _),
    toGrid_le sound.positive sound.highOnGrid (clamp_le_high sound.ordered)⟩

theorem Setting.IsSound.onGrid
    (sound : setting.IsSound)
    (value : Option Value) :
    OnGrid setting.grid (setting.read value) :=
  onGrid_toGrid sound.positive _

theorem Setting.IsSound.read_number
    (sound : setting.IsSound)
    {number : ℚ}
    (isAbove : setting.low ≤ number)
    (isBelow : number ≤ setting.high)
    (onGrid : OnGrid setting.grid number) :
    setting.read (some (.number number)) = number := by
  unfold Setting.read finite
  rw [clamp_of_mem isAbove isBelow, toGrid_of_onGrid sound.positive onGrid]

theorem Setting.IsSound.read_read
    (sound : setting.IsSound)
    (value : Option Value) :
    setting.read (some (.number (setting.read value))) = setting.read value :=
  have range := sound.mem_range value
  sound.read_number range.1 range.2 (sound.onGrid value)

/-- Settings that are sound and have distinct names. -/
structure Settings.AreSound (settings : Settings) : Prop where
  each : ∀ entry ∈ settings, entry.2.IsSound
  distinct : (settings.map Prod.fst).Nodup

theorem Settings.names_read
    (settings : Settings)
    (value : Option Value) :
    (settings.read value).map Prod.fst = settings.map Prod.fst := by
  rw [Settings.read, List.map_map]
  rfl

theorem Settings.AreSound.read_read
    {settings : Settings}
    (sound : settings.AreSound)
    (value : Option Value)
    (fields : List (String × Option Value)) :
    settings.read (some (.of (settings.read value) fields)) =
      settings.read value := by
  refine List.map_congr_left fun entry member => ?_
  have isNumber : (entry.1, entry.2.read (property value entry.1)) ∈
      settings.read value :=
    List.mem_map_of_mem member
  have distinct : ((settings.read value).map Prod.fst).Nodup := by
    rw [settings.names_read]
    exact sound.distinct
  have found := get?_of_number distinct isNumber fields
  rw [property, Option.bind_some, found, (sound.each entry member).read_read]

theorem Settings.AreSound.mem_range
    {settings : Settings}
    (sound : settings.AreSound)
    (value : Option Value) :
    List.Forall₂ (fun (entry : String × Setting) (number : String × ℚ) =>
      number.1 = entry.1 ∧ entry.2.low ≤ number.2 ∧ number.2 ≤ entry.2.high)
        settings (settings.read value) := by
  rw [Settings.read, List.forall₂_map_right_iff, List.forall₂_same]
  intro entry member
  exact ⟨rfl, (sound.each entry member).mem_range _⟩

open Rounding

/-!
## Parts of a recipe that are read again

Every part that was read once is read as it is, unless cutting a text has left
space at its end.
-/

instance (setting : Setting) : Decidable setting.IsSound :=
  decidable_of_iff
    (0 < setting.grid ∧ setting.low ≤ setting.high ∧
      OnGrid setting.grid setting.low ∧ OnGrid setting.grid setting.high)
    ⟨fun sound => ⟨sound.1, sound.2.1, sound.2.2.1, sound.2.2.2⟩,
      fun sound => ⟨sound.positive, sound.ordered, sound.lowOnGrid,
        sound.highOnGrid⟩⟩

instance (settings : Settings) : Decidable settings.AreSound :=
  decidable_of_iff
    ((∀ entry ∈ settings, entry.2.IsSound) ∧ (settings.map Prod.fst).Nodup)
    ⟨fun sound => ⟨sound.1, sound.2⟩, fun sound => ⟨sound.each, sound.distinct⟩⟩

theorem tables_sound :
    ∀ settings ∈ [stillSettings, maskSettings, shapeSettings, cleanupSettings,
      sourceSettings, perspectiveSettings], settings.AreSound := by
  decide +kernel

theorem settings_sound :
    ∀ setting ∈ [straightenSetting, presetStrengthSetting, keyFrameSetting,
      coordinateSetting, radiusSetting, cropSide, regionSide],
        setting.IsSound := by
  decide +kernel

theorem stillSettings_sound : stillSettings.AreSound :=
  tables_sound stillSettings (by simp)

theorem maskSettings_sound : maskSettings.AreSound :=
  tables_sound maskSettings (by simp)

theorem shapeSettings_sound : shapeSettings.AreSound :=
  tables_sound shapeSettings (by simp)

theorem cleanupSettings_sound : cleanupSettings.AreSound :=
  tables_sound cleanupSettings (by simp)

theorem sourceSettings_sound : sourceSettings.AreSound :=
  tables_sound sourceSettings (by simp)

theorem perspectiveSettings_sound : perspectiveSettings.AreSound :=
  tables_sound perspectiveSettings (by simp)

theorem straightenSetting_sound : straightenSetting.IsSound :=
  settings_sound straightenSetting (by simp)

theorem presetStrengthSetting_sound : presetStrengthSetting.IsSound :=
  settings_sound presetStrengthSetting (by simp)

theorem keyFrameSetting_sound : keyFrameSetting.IsSound :=
  settings_sound keyFrameSetting (by simp)

theorem coordinateSetting_sound : coordinateSetting.IsSound :=
  settings_sound coordinateSetting (by simp)

theorem radiusSetting_sound : radiusSetting.IsSound :=
  settings_sound radiusSetting (by simp)

theorem cropSide_sound : cropSide.IsSound :=
  settings_sound cropSide (by simp)

theorem regionSide_sound : regionSide.IsSound :=
  settings_sound regionSide (by simp)

theorem startSetting_sound
    (sound : side.IsSound)
    (isOne : side.high = 1)
    (value : Option Value) :
    Setting.IsSound ⟨0, 0, 1 - side.read value, side.grid⟩ where
  positive := sound.positive
  ordered := by
    have := (sound.mem_range value).2
    rw [isOne] at this
    exact sub_nonneg.mpr this
  lowOnGrid := onGrid_intCast _ 0
  highOnGrid := (onGrid_intCast _ 1).sub (sound.onGrid value)

theorem readRectangle_again
    (sound : side.IsSound)
    (isOne : side.high = 1)
    (value : Option Value) :
    readRectangle side (some (readRectangle side value).value) =
      readRectangle side value := by
  have distinct : ([("x", (readRectangle side value).x),
      ("y", (readRectangle side value).y), ("w", (readRectangle side value).w),
      ("h", (readRectangle side value).h)].map Prod.fst).Nodup := by
    simp
  have found : ∀ entry ∈ [("x", (readRectangle side value).x),
      ("y", (readRectangle side value).y), ("w", (readRectangle side value).w),
      ("h", (readRectangle side value).h)],
        property (some (readRectangle side value).value) entry.1 =
          some (.number entry.2) :=
    fun entry member => get?_of_number distinct member []
  have w := found ("w", (readRectangle side value).w) (by simp)
  have h := found ("h", (readRectangle side value).h) (by simp)
  have x := found ("x", (readRectangle side value).x) (by simp)
  have y := found ("y", (readRectangle side value).y) (by simp)
  dsimp only at w h x y
  conv_lhs => rw [readRectangle, w, h, x, y]
  dsimp only [readRectangle]
  rw [sound.read_read, sound.read_read,
    (startSetting_sound sound isOne _).read_read,
    (startSetting_sound sound isOne _).read_read]

/-- A rectangle that was read is within its picture. -/
structure AssetDevelopCrop.IsWithin
    (side : Setting)
    (crop : AssetDevelopCrop) : Prop where
  width : side.low ≤ crop.w ∧ crop.w ≤ 1
  height : side.low ≤ crop.h ∧ crop.h ≤ 1
  left : 0 ≤ crop.x ∧ crop.x + crop.w ≤ 1
  top : 0 ≤ crop.y ∧ crop.y + crop.h ≤ 1

theorem readRectangle_within
    (sound : side.IsSound)
    (isOne : side.high = 1)
    (value : Option Value) :
    (readRectangle side value).IsWithin side := by
  have w := sound.mem_range (property value "w")
  have h := sound.mem_range (property value "h")
  have x := (startSetting_sound sound isOne (property value "w")).mem_range
    (property value "x")
  have y := (startSetting_sound sound isOne (property value "h")).mem_range
    (property value "y")
  rw [isOne] at w h
  exact ⟨w, h, ⟨x.1, le_sub_iff_add_le.mp x.2⟩,
    ⟨y.1, le_sub_iff_add_le.mp y.2⟩⟩

theorem normalizeCrop_again
    (candidate : Option Value) :
    normalizeCrop (some (normalizeCrop candidate).value) =
      normalizeCrop candidate :=
  readRectangle_again cropSide_sound rfl candidate

end Frameleaf.Develop
