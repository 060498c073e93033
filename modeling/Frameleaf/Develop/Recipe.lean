import Frameleaf.Lib.Rounding
import Mathlib.Data.List.DropRight

namespace Frameleaf.Develop

open Rounding

/-!
# Values that a recipe is read from

Any value may stand for a recipe or a part of it.  What is missing, or of
another kind, reads as a default.  Numbers are exact.
-/

/-- A text in its code units. -/
abbrev Text := List UInt16

/-- A value as it is stored. -/
inductive Value where
  | null
  | bool (value : Bool)
  | number (value : ℚ)
  | string (text : Text)
  | array (items : List Value)
  | object (fields : List (String × Value))

/-- The code units of a plain text. -/
def textOf (plain : String) : Text :=
  plain.toList.map fun letter => UInt16.ofNat letter.toNat

/-- A property of a value, if it has one. -/
def Value.get?
    (value : Value)
    (name : String) : Option Value :=
  match value with
  | .object fields =>
      (fields.find? fun field => field.1 = name).map Prod.snd
  | _ =>
      none

/-- A property of what may be missing. -/
def property
    (value : Option Value)
    (name : String) : Option Value :=
  value.bind (·.get? name)

/-- Whether a value is an object or an array. -/
def Value.isObject : Value → Bool
  | .array _ =>
      true
  | .object _ =>
      true
  | _ =>
      false

/-- Whether a value counts as true. -/
def Value.isTruthy : Value → Bool
  | .null =>
      false
  | .bool value =>
      value
  | .number value =>
      value ≠ 0
  | .string text =>
      text ≠ []
  | .array _ =>
      true
  | .object _ =>
      true

/-- The text of a value, if it is one. -/
def textIn : Option Value → Option Text
  | some (.string text) =>
      some text
  | _ =>
      none

/-- Whether a value is this truth value. -/
def isBool
    (expected : Bool) : Option Value → Bool
  | some (.bool value) =>
      value == expected
  | _ =>
      false

/-- Units that are trimmed. -/
def isSpace (unit : UInt16) : Bool :=
  (9 ≤ unit && unit ≤ 13) || unit == 0x20 || unit == 0xA0 || unit == 0x1680 ||
    (0x2000 ≤ unit && unit ≤ 0x200A) || unit == 0x2028 || unit == 0x2029 ||
      unit == 0x202F || unit == 0x205F || unit == 0x3000 || unit == 0xFEFF

/-- A text without the space around it. -/
def trim (text : Text) : Text :=
  (text.dropWhile isSpace).rdropWhile isSpace

/-- A number, or what stands for one that is missing or no number. -/
def finite
    (value : Option Value)
    (fallback : ℚ) : ℚ :=
  match value with
  | some (.number value) =>
      value
  | _ =>
      fallback

/-- How a number of a recipe is read: what stands for it, its range, and the
grid that it is rounded to. -/
structure Setting where
  fallback : ℚ
  low : ℚ
  high : ℚ
  grid : ℕ

/-- The number of a setting, in its range and rounded. -/
def Setting.read
    (setting : Setting)
    (value : Option Value) : ℚ :=
  toGrid setting.grid
    (clamp (finite value setting.fallback) setting.low setting.high)

/-- The controls of a still picture. -/
inductive DevelopSliderKey where
  | exposure
  | contrast
  | highlights
  | shadows
  | whites
  | blacks
  | temperature
  | tint
  | vibrance
  | saturation
  | clarity
  | dehaze
  | vignette
  | grain
  | sharpen
  | noiseReduction
  | brilliance
  deriving DecidableEq

/-- The name of a control. -/
def DevelopSliderKey.name : DevelopSliderKey → String
  | .exposure => "exposure"
  | .contrast => "contrast"
  | .highlights => "highlights"
  | .shadows => "shadows"
  | .whites => "whites"
  | .blacks => "blacks"
  | .temperature => "temperature"
  | .tint => "tint"
  | .vibrance => "vibrance"
  | .saturation => "saturation"
  | .clarity => "clarity"
  | .dehaze => "dehaze"
  | .vignette => "vignette"
  | .grain => "grain"
  | .sharpen => "sharpen"
  | .noiseReduction => "noiseReduction"
  | .brilliance => "brilliance"

/-- The controls of a recipe. -/
def STILL_SLIDER_KEYS : List DevelopSliderKey :=
  [.exposure, .contrast, .highlights, .shadows, .whites, .blacks, .temperature,
    .tint, .vibrance, .saturation, .clarity, .dehaze, .vignette, .grain,
    .sharpen, .noiseReduction, .brilliance]

/-- The controls of a mask. -/
def DEVELOP_MASK_KEYS : List DevelopSliderKey :=
  [.exposure, .contrast, .highlights, .shadows, .whites, .blacks, .temperature,
    .tint, .vibrance, .saturation, .dehaze]

/-- How a control is read. -/
def SLIDER_RANGE : DevelopSliderKey → Setting
  | .exposure =>
      ⟨0, -2, 2, 10000⟩
  | .grain =>
      ⟨0, 0, 100, 10000⟩
  | .sharpen =>
      ⟨0, 0, 100, 10000⟩
  | .noiseReduction =>
      ⟨0, 0, 100, 10000⟩
  | _ =>
      ⟨0, -100, 100, 10000⟩

/-- The kinds of masks. -/
inductive AssetDevelopMaskKind where
  | radial
  | linear
  | brush
  | subject
  | sky
  | background
  deriving DecidableEq

/-- The kinds of masks in their order. -/
def AssetDevelopMaskKind.values : List AssetDevelopMaskKind :=
  [.radial, .linear, .brush, .subject, .sky, .background]

/-- The name of a kind. -/
def AssetDevelopMaskKind.name : AssetDevelopMaskKind → String
  | .radial => "radial"
  | .linear => "linear"
  | .brush => "brush"
  | .subject => "subject"
  | .sky => "sky"
  | .background => "background"

/-- The kinds of masks that are bitmaps. -/
def ASSET_DEVELOP_BITMAP_MASK_KINDS : List AssetDevelopMaskKind :=
  [.subject, .sky, .background]

/-- How an area is cleaned up. -/
inductive AssetDevelopCleanupMethod where
  | heal
  | clone
  | remove
  | pixelate
  deriving DecidableEq

/-- The methods in their order. -/
def AssetDevelopCleanupMethod.values : List AssetDevelopCleanupMethod :=
  [.heal, .clone, .remove, .pixelate]

/-- The name of a method. -/
def AssetDevelopCleanupMethod.name : AssetDevelopCleanupMethod → String
  | .heal => "heal"
  | .clone => "clone"
  | .remove => "remove"
  | .pixelate => "pixelate"

/-- Looks. -/
inductive AssetDevelopPreset where
  | Original
  | Vivid
  | Natural
  | Warm
  | Cool
  | Mono
  | Silvertone
  | Noir
  | Fade
  deriving DecidableEq

/-- The looks in their order. -/
def AssetDevelopPreset.values : List AssetDevelopPreset :=
  [.Original, .Vivid, .Natural, .Warm, .Cool, .Mono, .Silvertone, .Noir, .Fade]

/-- The name of a look. -/
def AssetDevelopPreset.name : AssetDevelopPreset → String
  | .Original => "Original"
  | .Vivid => "Vivid"
  | .Natural => "Natural"
  | .Warm => "Warm"
  | .Cool => "Cool"
  | .Mono => "Mono"
  | .Silvertone => "Silvertone"
  | .Noir => "Noir"
  | .Fade => "Fade"

/-- The member of an enumeration that a value names. -/
def memberNamed
    {Member : Type}
    (name : Member → String)
    (members : List Member)
    (value : Option Value) : Option Member :=
  match textIn value with
  | some text =>
      members.find? fun member => textOf (name member) = text
  | none =>
      none

/-- The most masks of a recipe. -/
def ASSET_DEVELOP_MAX_MASKS : ℕ :=
  8

/-- The most strokes of a mask or an operation. -/
def ASSET_DEVELOP_MAX_STROKES : ℕ :=
  64

/-- The most points of a stroke. -/
def ASSET_DEVELOP_MAX_STROKE_POINTS : ℕ :=
  512

/-- The most operations of a recipe. -/
def ASSET_DEVELOP_MAX_CLEANUP : ℕ :=
  32

/-- The most points of a recipe. -/
def ASSET_DEVELOP_MAX_RECIPE_POINTS : ℕ :=
  4096

/-- The last time of a key frame. -/
def ASSET_DEVELOP_KEY_FRAME_MAX_MS : ℚ :=
  600000

/-- Whether a text names a stored artifact. -/
def isArtifactId (text : Text) : Bool :=
  text.length = 64 &&
    text.all fun unit => (48 ≤ unit && unit ≤ 57) || (97 ≤ unit && unit ≤ 102)

open Rounding

/-!
## Recipes that are within their contract

Every number is moved into its range and rounded, texts are trimmed and cut, and
what is malformed or too much is left out.
-/

/-- How several numbers are read, by their names. -/
abbrev Settings := List (String × Setting)

/-- The numbers of a value, by their names. -/
def Settings.read
    (settings : Settings)
    (value : Option Value) : List (String × ℚ) :=
  settings.map fun entry => (entry.1, entry.2.read (property value entry.1))

/-- The controls of a recipe, as they are read. -/
def stillSettings : Settings :=
  STILL_SLIDER_KEYS.map fun key => (key.name, SLIDER_RANGE key)

/-- The controls of a mask, as they are read. -/
def maskSettings : Settings :=
  DEVELOP_MASK_KEYS.map fun key => (key.name, SLIDER_RANGE key)

/-- The place and the strength of a mask, as they are read. -/
def shapeSettings : Settings :=
  [("x", ⟨1 / 2, 0, 1, 10000⟩), ("y", ⟨1 / 2, 0, 1, 10000⟩),
    ("radiusX", ⟨1 / 4, 1 / 100, 1, 10000⟩),
    ("radiusY", ⟨1 / 4, 1 / 100, 1, 10000⟩),
    ("endX", ⟨1 / 2, 0, 1, 10000⟩), ("endY", ⟨1, 0, 1, 10000⟩),
    ("feather", ⟨50, 0, 100, 1⟩), ("amount", ⟨100, 0, 100, 1⟩)]

/-- The feather and the blocks of an operation, as they are read. -/
def cleanupSettings : Settings :=
  [("feather", ⟨0, 0, 100, 1⟩), ("blockSize", ⟨1 / 50, 1 / 500, 1 / 5, 100000⟩)]

/-- Where an operation copies from, as it is read. -/
def sourceSettings : Settings :=
  [("dx", ⟨0, -1, 1, 100000⟩), ("dy", ⟨0, -1, 1, 100000⟩)]

/-- The two sides of a perspective, as they are read. -/
def perspectiveSettings : Settings :=
  [("vertical", ⟨0, -100, 100, 10000⟩), ("horizontal", ⟨0, -100, 100, 10000⟩)]

/-- The straightening of a recipe. -/
def straightenSetting : Setting :=
  ⟨0, -45, 45, 10000⟩

/-- The strength of a look. -/
def presetStrengthSetting : Setting :=
  ⟨100, 0, 100, 1⟩

/-- The time of a key frame. -/
def keyFrameSetting : Setting :=
  ⟨0, 0, ASSET_DEVELOP_KEY_FRAME_MAX_MS, 1⟩

/-- A coordinate of a point. -/
def coordinateSetting : Setting :=
  ⟨0, 0, 1, 100000⟩

/-- The radius of a stroke. -/
def radiusSetting : Setting :=
  ⟨1 / 50, 1 / 1000, 1 / 2, 100000⟩

/-- A rectangle in fractions of a picture. -/
structure AssetDevelopCrop where
  x : ℚ
  y : ℚ
  w : ℚ
  h : ℚ
  deriving DecidableEq

/-- A rectangle whose sides are read first, and then where it starts, so that it
is within the picture. -/
def readRectangle
    (side : Setting)
    (value : Option Value) : AssetDevelopCrop :=
  let w := side.read (property value "w")
  let h := side.read (property value "h")
  { x := Setting.read ⟨0, 0, 1 - w, side.grid⟩ (property value "x")
    y := Setting.read ⟨0, 0, 1 - h, side.grid⟩ (property value "y")
    w := w
    h := h }

/-- A side of a crop. -/
def cropSide : Setting :=
  ⟨1, 1 / 20, 1, 10000⟩

/-- A side of a region. -/
def regionSide : Setting :=
  ⟨1 / 10, 1 / 1000, 1, 100000⟩

/-- A crop that is within the frame. -/
def normalizeCrop (candidate : Option Value) : AssetDevelopCrop :=
  readRectangle cropSide candidate

/-- A number of a perspective from minus one to one. -/
def clampUnit (value : Option Value) : ℚ :=
  match value with
  | some (.number value) =>
      max (-100) (min 100 value) / 100
  | _ =>
      0

/-- Whether a perspective corrects nothing. -/
def isIdentityPerspective (perspective : Value) : Bool :=
  clampUnit (perspective.get? "vertical") = 0 ∧
    clampUnit (perspective.get? "horizontal") = 0

/-- A perspective, unless it corrects nothing. -/
def normalizePerspective
    (candidate : Option Value) : Option (List (String × ℚ)) :=
  match candidate with
  | some value =>
      if !value.isObject || isIdentityPerspective value then
        none
      else
        some (perspectiveSettings.read value)
  | none =>
      none

/-- A stroke of a brush. -/
structure DevelopStroke where
  points : List (ℚ × ℚ)
  radius : ℚ
  erase : Bool
  deriving DecidableEq

/-- A point of a stroke. -/
def normalizePoint : Value → Option (ℚ × ℚ)
  | .array [x, y] =>
      some (coordinateSetting.read x, coordinateSetting.read y)
  | _ =>
      none

/-- A stroke, unless it is malformed. -/
def normalizeStroke
    (erasable : Bool)
    (item : Value) : Option DevelopStroke :=
  match item.get? "points" with
  | some (.array candidates) =>
      let points := (candidates.take ASSET_DEVELOP_MAX_STROKE_POINTS).filterMap
        normalizePoint
      if points = [] then
        none
      else
        some
          { points := points
            radius := radiusSetting.read (item.get? "radius")
            erase := erasable && isBool true (item.get? "erase") }
  | _ =>
      none

/-- Strokes; malformed ones are left out. -/
def normalizeStrokes
    (candidate : Option Value)
    (erasable : Bool) : List DevelopStroke :=
  match candidate with
  | some (.array items) =>
      (items.take ASSET_DEVELOP_MAX_STROKES).filterMap
        (normalizeStroke erasable)
  | _ =>
      []

/-- A text that is trimmed, and cut to a length. -/
def cutText
    (length : ℕ)
    (value : Option Value) : Text :=
  match textIn value with
  | some text =>
      (trim text).take length
  | none =>
      []

/-- An artifact that a value names. -/
def artifactIn (value : Option Value) : Option Text :=
  (textIn value).filter isArtifactId

/-- A selective adjustment. -/
structure AssetDevelopMask where
  id : Text
  name : Option Text
  kind : AssetDevelopMaskKind
  enabled : Bool
  invert : Bool
  shape : List (String × ℚ)
  adjustments : List (String × ℚ)
  strokes : Option (List DevelopStroke)
  artifact : Option (Option Text)
  deriving DecidableEq

/-- A mask, unless it has no identifier or no known kind. -/
def normalizeMask (item : Value) : Option AssetDevelopMask :=
  let id := cutText 40 (item.get? "id")
  match memberNamed AssetDevelopMaskKind.name AssetDevelopMaskKind.values
    (item.get? "kind") with
  | some kind =>
      if id = [] then
        none
      else
        let name := cutText 60 (item.get? "name")
        some
          { id := id
            name := if name = [] then none else some name
            kind := kind
            enabled := !isBool false (item.get? "enabled")
            invert := isBool true (item.get? "invert")
            shape := shapeSettings.read item
            adjustments := maskSettings.read (item.get? "adjustments")
            strokes :=
              if kind = .brush then
                some (normalizeStrokes (item.get? "strokes") true)
              else
                none
            artifact :=
              if kind ∈ ASSET_DEVELOP_BITMAP_MASK_KINDS then
                some (artifactIn (item.get? "artifact"))
              else
                none }
  | none =>
      none

/-- Items that are well formed and of new identifiers, as many as are
allowed. -/
def selectItems
    {Item : Type}
    (limit : ℕ)
    (read : Value → Option Item)
    (id : Item → Text)
    (selected : List Item) : List Value → List Item
  | [] =>
      selected
  | value :: rest =>
      if limit ≤ selected.length then
        selectItems limit read id selected rest
      else
        match read value with
        | some item =>
            if id item ∈ selected.map id then
              selectItems limit read id selected rest
            else
              selectItems limit read id (selected ++ [item]) rest
        | none =>
            selectItems limit read id selected rest

/-- Masks; malformed and duplicate ones are left out. -/
def normalizeDevelopMasks
    (candidate : Option Value) : List AssetDevelopMask :=
  match candidate with
  | some (.array items) =>
      selectItems ASSET_DEVELOP_MAX_MASKS normalizeMask AssetDevelopMask.id []
        items
  | _ =>
      []

/-- An operation that cleans up an area. -/
structure AssetDevelopCleanup where
  id : Text
  method : AssetDevelopCleanupMethod
  enabled : Bool
  region : Option AssetDevelopCrop
  strokes : Option (List DevelopStroke)
  source : Option (List (String × ℚ))
  fill : Option Text
  numbers : List (String × ℚ)
  deriving DecidableEq

/-- An operation, unless it has no identifier, no known method, or not exactly
one of a region and strokes. -/
def normalizeCleanup (item : Value) : Option AssetDevelopCleanup :=
  let id := cutText 40 (item.get? "id")
  match memberNamed AssetDevelopCleanupMethod.name
    AssetDevelopCleanupMethod.values (item.get? "method") with
  | some method =>
      if id = [] then
        none
      else
        let strokes := normalizeStrokes (item.get? "strokes") false
        let region := ((item.get? "region").filter Value.isObject).map
          fun region => readRectangle regionSide (some region)
        if region.isSome = !strokes.isEmpty then
          none
        else
          some
            { id := id
              method := method
              enabled := !isBool false (item.get? "enabled")
              region := region
              strokes := if region.isSome then none else some strokes
              source := ((item.get? "source").filter Value.isTruthy).map
                fun source => sourceSettings.read (some source)
              fill := artifactIn (item.get? "fill")
              numbers := cleanupSettings.read item }
  | none =>
      none

/-- Operations; malformed and duplicate ones are left out. -/
def normalizeDevelopCleanup
    (candidate : Option Value) : List AssetDevelopCleanup :=
  match candidate with
  | some (.array items) =>
      selectItems ASSET_DEVELOP_MAX_CLEANUP normalizeCleanup
        AssetDevelopCleanup.id [] items
  | _ =>
      []

/-- The strokes for which a budget of points is left, and what is left after
them. -/
def strokesWithin
    (budget : ℕ) : List DevelopStroke → List DevelopStroke × ℕ
  | [] =>
      ([], budget)
  | stroke :: rest =>
      if budget = 0 then
        ([], budget)
      else
        let points := stroke.points.take budget
        let later := strokesWithin (budget - points.length) rest
        ({ stroke with points := points } :: later.1, later.2)

/-- Items whose strokes are within a budget of points, and what is left after
them. -/
def within
    {Item : Type}
    (strokes : Item → Option (List DevelopStroke))
    (withStrokes : Item → List DevelopStroke → Item)
    (budget : ℕ) : List Item → List Item × ℕ
  | [] =>
      ([], budget)
  | item :: rest =>
      match strokes item with
      | some own =>
          let kept := strokesWithin budget own
          let later := within strokes withStrokes kept.2 rest
          (withStrokes item kept.1 :: later.1, later.2)
      | none =>
          let later := within strokes withStrokes budget rest
          (item :: later.1, later.2)

/-- A mask with other strokes. -/
def AssetDevelopMask.withStrokes
    (mask : AssetDevelopMask)
    (strokes : List DevelopStroke) : AssetDevelopMask :=
  { mask with strokes := some strokes }

/-- An operation with other strokes. -/
def AssetDevelopCleanup.withStrokes
    (operation : AssetDevelopCleanup)
    (strokes : List DevelopStroke) : AssetDevelopCleanup :=
  { operation with strokes := some strokes }

/-- Whether an operation has an area. -/
def AssetDevelopCleanup.hasArea (operation : AssetDevelopCleanup) : Bool :=
  operation.strokes ≠ some []

/-- How a picture is developed. -/
structure AssetDevelopRecipe where
  sliders : List (String × ℚ)
  crop : AssetDevelopCrop
  straighten : ℚ
  rotation : ℤ
  flipHorizontal : Bool
  flipVertical : Bool
  perspective : Option (List (String × ℚ))
  keyFrame : Option ℚ
  preset : AssetDevelopPreset
  presetStrength : ℚ
  masks : List AssetDevelopMask
  cleanup : List AssetDevelopCleanup
  deriving DecidableEq

/-- The quarter turns that a number of degrees is nearest to. -/
def normalizeRotation (value : Option Value) : ℤ :=
  let rotation := nearest (finite value 0 / 90) * 90
  (rotation.tmod 360 + 360).tmod 360

/-- The time of a key frame, if it has one. -/
def normalizeKeyFrame (value : Option Value) : Option ℚ :=
  match property value "timeMs" with
  | some (.number time) =>
      some (keyFrameSetting.read (some (.number time)))
  | _ =>
      none

/-- A recipe within its contract. -/
def normalizeDevelopRecipe (candidate : Option Value) : AssetDevelopRecipe :=
  let masks := within AssetDevelopMask.strokes AssetDevelopMask.withStrokes
    ASSET_DEVELOP_MAX_RECIPE_POINTS
    (normalizeDevelopMasks (property candidate "masks"))
  let cleanup := within AssetDevelopCleanup.strokes
    AssetDevelopCleanup.withStrokes masks.2
    (normalizeDevelopCleanup (property candidate "cleanup"))
  { sliders := stillSettings.read candidate
    crop := normalizeCrop (property candidate "crop")
    straighten := straightenSetting.read (property candidate "straighten")
    rotation := normalizeRotation (property candidate "rotation")
    flipHorizontal := isBool true (property candidate "flipHorizontal")
    flipVertical := isBool true (property candidate "flipVertical")
    perspective := normalizePerspective (property candidate "perspective")
    keyFrame := normalizeKeyFrame (property candidate "keyFrame")
    preset := (memberNamed AssetDevelopPreset.name AssetDevelopPreset.values
      (property candidate "preset")).getD .Original
    presetStrength :=
      presetStrengthSetting.read (property candidate "presetStrength")
    masks := masks.1
    cleanup := cleanup.1.filter AssetDevelopCleanup.hasArea }

end Frameleaf.Develop
