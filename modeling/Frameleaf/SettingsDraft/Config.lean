import Frameleaf.Lib.Json
import Frameleaf.Lib.PathTree

namespace Frameleaf.SettingsDraft

open Json PathTrees

/-!
# System settings and their drafts

A configuration is a tree of plain objects whose leaves are scalars, `null` and
arrays.  A draft is a full copy of the saved configuration; a change of it is a
leaf with its value before and after.  A key that is missing and a key whose
value is `undefined` are the same.

Paths are lists of keys here and joined by dots in the source.  The keys are the
plain names for which the two agree: a name with a bracket is taken apart, a
name that is an index creates an array, and the name of a property that every
object has is found without being set.
-/

/-- The names of properties that every object has. -/
def objectProperties : List String :=
  ["__proto__", "constructor", "prototype", "hasOwnProperty", "isPrototypeOf",
    "propertyIsEnumerable", "toLocaleString", "toString", "valueOf",
    "__defineGetter__", "__defineSetter__", "__lookupGetter__",
    "__lookupSetter__"]

/-- A name that stands for itself in a path. -/
def isPlainName
    (name : String) : Bool :=
  name ≠ "" && !name.toList.any (fun letter => letter ∈ ['.', '[', ']']) &&
    !name.toList.all Char.isDigit && name ∉ objectProperties

/-- A key of a configuration. -/
structure ConfigKey where
  text : String
  plain : isPlainName text = true
deriving DecidableEq

/-- A path of a configuration. -/
abbrev ConfigPath := List ConfigKey

/-- The path as the source writes it. -/
def pathText
    (path : ConfigPath) : String :=
  ".".intercalate (path.map ConfigKey.text)

/-- A leaf of a configuration. -/
inductive Leaf where
  | undefined
  | null
  | boolean (value : Bool)
  | number (text : String)
  | string (value : String)
  | array (items : List Json)

/-- A part of a configuration. -/
abbrev Config := PathTree ConfigKey Leaf

/-- No value. -/
abbrev undefined : Config := .leaf .undefined

/-- An array keeps what is set below it to itself. -/
def Leaf.isArray : Leaf → Bool
  | .array _ => true
  | _ => false

mutual

/-- `isEqual` of two JSON values: the order of fields does not matter. -/
def isEqualJson : Json → Json → Bool
  | .null, .null =>
      true
  | .bool first, .bool second =>
      first == second
  | .number first, .number second =>
      first == second
  | .string first, .string second =>
      first == second
  | .array first, .array second =>
      isEqualItems first second
  | .object first, .object second =>
      first.length == second.length && isEqualFields first second
  | _, _ =>
      false

/-- The items of two arrays are equal. -/
def isEqualItems : List Json → List Json → Bool
  | [], [] =>
      true
  | first :: firsts, second :: seconds =>
      isEqualJson first second && isEqualItems firsts seconds
  | _, _ =>
      false

/-- The fields of an object are in another one. -/
def isEqualFields : Fields → Fields → Bool
  | [], _ =>
      true
  | (name, value) :: fields, others =>
      others.any (fun other => name == other.1 && isEqualJson value other.2) &&
        isEqualFields fields others

end

/-- `isEqual` of two leaves. -/
def Leaf.isEqual : Leaf → Leaf → Bool
  | .undefined, .undefined =>
      true
  | .null, .null =>
      true
  | .boolean first, .boolean second =>
      first == second
  | .number first, .number second =>
      first == second
  | .string first, .string second =>
      first == second
  | .array first, .array second =>
      isEqualItems first second
  | _, _ =>
      false

mutual

/-- `isEqual` of two parts of a configuration. -/
def isEqual : Config → Config → Bool
  | .leaf first, .leaf second =>
      first.isEqual second
  | .node first, .node second =>
      first.length == second.length && isEqualEntries first second
  | .leaf _, .node _ | .node _, .leaf _ =>
      false

/-- The entries of an object are in another one. -/
def isEqualEntries :
    Entries ConfigKey Leaf → Entries ConfigKey Leaf → Bool
  | [], _ =>
      true
  | (key, value) :: entries, others =>
      others.any (fun other => key == other.1 && isEqual value other.2) &&
        isEqualEntries entries others

end

/-- What is found at a path. -/
inductive Found where
  | value (value : Config)
  | function

/-- The properties that JavaScript gives to strings, arrays and the like. -/
abbrev BuiltIns := Leaf → ConfigPath → Found

/-- `get` -/
def get
    (builtIns : BuiltIns) : Config → ConfigPath → Found
  | config, [] =>
      .value config
  | .leaf .undefined, _ :: _ | .leaf .null, _ :: _ =>
      .value undefined
  | .leaf content, key :: path =>
      builtIns content (key :: path)
  | .node entries, key :: path =>
      match entries.lookup key with
      | none =>
          .value undefined
      | some child =>
          get builtIns child path

/-- `set` -/
def set
    (config : Config)
    (path : ConfigPath)
    (value : Config) : Config :=
  PathTree.set Leaf.isArray config path value

/-- `isEqual` of what is found and a leaf. -/
def Found.isEqual : Found → Config → Bool
  | .value first, second => SettingsDraft.isEqual first second
  | .function, _ => false

/-- The values that the server keeps on its own. -/
def SERVER_MANAGED_CONFIG_PATHS : List String :=
  ["machineLearning.imageDescription.pendingRequeueAt",
    "machineLearning.imageDescription.lastConfigChangeAt",
    "notifications.smtp.transport.passwordConfigured",
    "oauth.clientSecretConfigured"]

/-- The server keeps the value at a path on its own. -/
def isServerManagedConfigPath
    (path : ConfigPath) : Bool :=
  SERVER_MANAGED_CONFIG_PATHS.contains (pathText path)

/-- Every leaf of a configuration with its path. -/
def configLeaves
    (config : Config) : List (ConfigPath × Config) :=
  config.leaves.filter fun leaf => leaf.1 ≠ []

/-- The value of a leaf, if there is one. -/
def leafValue
    (leaves : List (ConfigPath × Config))
    (path : ConfigPath) : Config :=
  (leaves.lookup path).getD undefined

/-- A change of a leaf. -/
structure ConfigChange where
  path : ConfigPath
  before : Config
  after : Config

/-- A setting that was changed to something else since. -/
structure ConfigConflict where
  path : ConfigPath
  before : Config
  mine : Config
  theirs : Found

/-- The paths in order, once each, that the server does not keep. -/
def freshPaths
    (seen : List ConfigPath) : List ConfigPath → List ConfigPath
  | [] =>
      []
  | path :: paths =>
      if path ∈ seen ∨ isServerManagedConfigPath path then
        freshPaths seen paths
      else
        path :: freshPaths (path :: seen) paths

/-- The change of a leaf, if it is one. -/
def changeOf
    (before after : List (ConfigPath × Config))
    (path : ConfigPath) : Option ConfigChange :=
  let previous := leafValue before path
  let next := leafValue after path
  if isEqual previous next then
    none
  else
    some { path, before := previous, after := next }

/-- What a save of a draft would change. -/
def diffConfig
    (baseline draft : Config) : List ConfigChange :=
  let before := configLeaves baseline
  let after := configLeaves draft
  (freshPaths [] (after.map Prod.fst ++ before.map Prod.fst)).filterMap
    (changeOf before after)

/-- Apply changes one after the other. -/
def applyChanges
    (target : Config)
    (changes : List ConfigChange) : Config :=
  changes.foldl (fun next change => set next change.path change.after) target

/-- The saved value moved to something other than was and is wanted. -/
def isConflict
    (builtIns : BuiltIns)
    (latest : Config)
    (change : ConfigChange) : Bool :=
  let theirs := get builtIns latest change.path
  !theirs.isEqual change.before && !theirs.isEqual change.after

/-- A draft on newer settings, and the settings that conflict. -/
structure Rebased where
  draft : Config
  conflicts : List ConfigConflict

/-- Carry a draft onto newer saved settings. -/
def rebaseDraft
    (builtIns : BuiltIns)
    (baseline draft latest : Config)
    (force : Bool) : Rebased where
  draft :=
    applyChanges latest ((diffConfig baseline draft).filter fun change =>
      !isConflict builtIns latest change || force)
  conflicts :=
    ((diffConfig baseline draft).filter (isConflict builtIns latest)).map
      fun change => {
        path := change.path
        before := change.before
        mine := change.after
        theirs := get builtIns latest change.path }

end Frameleaf.SettingsDraft
