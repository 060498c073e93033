import Frameleaf.Lib.JsonRoundTrip
import Frameleaf.SettingsDraft.Export
import Mathlib.Algebra.GroupWithZero.Nat

namespace Frameleaf.SettingsDraft

open Json PathTrees

/-!
# The reload journal

An unsaved draft is kept in the tab as a list of changes without secrets and
credentials, and is taken up again after a reload.
-/

/-- `SYSTEM_CONFIG_JOURNAL_LIMITS.characters` -/
def JOURNAL_CHARACTERS : ℕ := 1024 * 1024

/-- `SYSTEM_CONFIG_JOURNAL_LIMITS.changes` -/
def JOURNAL_CHANGES : ℕ := 2000

/-- A change as it is kept: `none` is `undefined`. -/
structure JournalChange where
  path : String
  before : Option Json
  after : Option Json
deriving DecidableEq

/-- The changes that are kept of a draft. -/
structure SystemConfigJournal where
  revision : String
  changes : List JournalChange

mutual

/-- A part of a configuration as a value. -/
def valueOf : Config → Option Json
  | .leaf .undefined => none
  | .leaf .null => some .null
  | .leaf (.boolean value) => some (.bool value)
  | .leaf (.number text) => some (.number text)
  | .leaf (.string value) => some (.string value)
  | .leaf (.array items) => some (.array items)
  | .node entries => some (.object (fieldsOf entries))

/-- The entries of an object as fields; what is `undefined` is not written. -/
def fieldsOf : Entries ConfigKey Leaf → Fields
  | [] => []
  | (key, child) :: entries =>
      match valueOf child with
      | none => fieldsOf entries
      | some value => (key.text, value) :: fieldsOf entries

end

mutual

/-- A value as a part of a configuration. -/
def partOf : Json → Config
  | .null => .leaf .null
  | .bool value => .leaf (.boolean value)
  | .number text => .leaf (.number text)
  | .string value => .leaf (.string value)
  | .array items => .leaf (.array items)
  | .object fields => .node (entriesOf fields)

/-- The fields of an object whose names are plain. -/
def entriesOf : Fields → Entries ConfigKey Leaf
  | [] => []
  | (name, value) :: fields =>
      if plain : isPlainName name = true then
        (⟨name, plain⟩, partOf value) :: entriesOf fields
      else
        entriesOf fields

end

/-- A kept value as a part of a configuration. -/
def configOf : Option Json → Config
  | none => undefined
  | some value => partOf value

/-- A change as it is kept. -/
def ConfigChange.journaled
    (change : ConfigChange) : JournalChange where
  path := pathText change.path
  before := valueOf change.before
  after := valueOf change.after

variable (urls : UrlLibrary)

/-- `isJournalSafe` -/
def isJournalSafe
    (change : JournalChange) : Bool :=
  !isSecretConfigPath change.path &&
    !SERVER_MANAGED_CONFIG_PATHS.contains change.path &&
    !change.before.any (containsCredentials urls) &&
    !change.after.any (containsCredentials urls)

/-- `createJournal`: the journal, and how many changes are not in it. -/
def createJournal
    (revision : String)
    (changes : List JournalChange) : SystemConfigJournal × ℕ :=
  let safe := changes.filter (isJournalSafe urls)
  let kept := safe.take JOURNAL_CHANGES
  ({ revision, changes := kept }, changes.length - kept.length)

/-- A field that is written unless it is `undefined`. -/
def fieldOf
    (name : String) : Option Json → Fields
  | none => []
  | some value => [(name, value)]

/-- A change in JSON. -/
def changeJson
    (change : JournalChange) : Json :=
  .object (("path", .string change.path) ::
    (fieldOf "before" change.before ++ fieldOf "after" change.after))

/-- A journal in JSON. -/
def journalJson
    (journal : SystemConfigJournal) : Json :=
  .object [("version", .number "1"), ("revision", .string journal.revision),
    ("changes", .array (journal.changes.map changeJson))]

/-- `raw.length`, in UTF-16 units. -/
def unitLength
    (raw : Utf8.Text) : ℕ :=
  (raw.map fun letter => if letter.toNat < 0x10000 then 1 else 2).sum

/-- `[\w-]` -/
def isWordLetter
    (letter : Char) : Bool :=
  letter.isAlphanum || letter ∈ ['_', '-']

/-- `CONFIG_PATH.test(path) && !UNSAFE_PATH_SEGMENT.test(path)` -/
def isConfigPath
    (path : String) : Bool :=
  (path.toList.splitOn '.').all fun segment =>
    segment ≠ [] && segment.all isWordLetter &&
      String.ofList segment ∉ ["__proto__", "prototype", "constructor"]

/-- Read one change; what is malformed or unsafe is dropped. -/
def parseChange : Json → Option JournalChange
  | .object fields =>
      match Fields.get? fields "path" with
      | some (.string path) =>
          let change := {
            path
            before := Fields.get? fields "before"
            after := Fields.get? fields "after" }
          if isConfigPath path && isJournalSafe urls change then
            some change
          else
            none
      | _ =>
          none
  | _ =>
      none

/-- `parseJournal` -/
def parseJournal
    (raw : Option Utf8.Text) : Option SystemConfigJournal := do
  let raw ← raw
  if raw = [] ∨ JOURNAL_CHARACTERS < unitLength raw then
    none
  else
    match ← parse raw with
    | .object fields =>
        match Fields.get? fields "version", Fields.get? fields "revision",
          Fields.get? fields "changes" with
        | some (.number "1"), some (.string revision), some (.array items) =>
            some {
              revision
              changes := (items.take JOURNAL_CHANGES).filterMap
                (parseChange urls) }
        | _, _, _ =>
            none
    | _ =>
        none

/-- `sameKind`; which numbers are finite is known of their texts. -/
def sameKind
    (isFinite : String → Bool) : Config → Option Json → Bool
  | .leaf .undefined, incoming | .leaf .null, incoming =>
      match incoming with
      | some .null | some (.string _) => true
      | _ => false
  | .leaf (.array _), some (.array _) => true
  | .node _, some (.object _) => true
  | .leaf (.number _), some (.number text) => isFinite text
  | .leaf (.boolean _), some (.bool _) => true
  | .leaf (.string _), some (.string _) => true
  | _, _ => false

/-- A setting of the journal that was changed to something else since. -/
structure RecoveryConflict where
  path : String
  before : Option Json
  mine : Option Json
  theirs : Config

/-- What a journal makes of saved settings. -/
structure Recovery where
  draft : Config
  recovered : ℕ
  conflicts : List RecoveryConflict
  dropped : ℕ

/-- The leaf that a path names, with its path. -/
def knownLeaf
    (baseline : Config)
    (path : String) : Option (ConfigPath × Config) :=
  (configLeaves baseline).find? fun entry => pathText entry.1 = path

/-- Apply one change of a journal. -/
def recoverChange
    (isFinite : String → Bool)
    (baseline : Config)
    (recovery : Recovery)
    (change : JournalChange) : Recovery :=
  match knownLeaf baseline change.path with
  | none =>
      { recovery with dropped := recovery.dropped + 1 }
  | some (path, saved) =>
      if !sameKind isFinite saved change.after then
        { recovery with dropped := recovery.dropped + 1 }
      else if isEqual saved (configOf change.after) then
        recovery
      else
        { recovery with
          draft := set recovery.draft path (configOf change.after)
          recovered := recovery.recovered + 1
          conflicts :=
            if isEqual saved (configOf change.before) then
              recovery.conflicts
            else
              recovery.conflicts ++ [{
                path := change.path
                before := change.before
                mine := change.after
                theirs := saved }] }

/-- `recoverJournal` -/
def recoverJournal
    (isFinite : String → Bool)
    (baseline : Config)
    (journal : SystemConfigJournal) : Recovery :=
  journal.changes.foldl (recoverChange isFinite baseline) {
    draft := baseline
    recovered := 0
    conflicts := []
    dropped := 0 }

open Json PathTrees

/-!
## A journal is read back as it was written

Only the changes at paths that are not written as configuration paths are
dropped.
-/

variable {urls : UrlLibrary}

theorem configOf_valueOf
    {value : Config}
    (terminal : value.isTerminal = true) :
    configOf (valueOf value) = value := by
  cases value with
  | leaf content =>
      cases content with
      | undefined => rfl
      | null => rfl
      | boolean value => rfl
      | number text => rfl
      | string value => rfl
      | array items => rfl
  | node entries =>
      cases entries with
      | nil => rfl
      | cons entry entries => cases terminal

theorem ConfigKey.noDot
    (key : ConfigKey) :
    '.' ∉ key.text.toList := by
  intro isThere
  have plain := key.plain
  unfold isPlainName at plain
  simp only [Bool.and_eq_true, Bool.not_eq_true'] at plain
  have noLetter := plain.1.1.2
  rw [List.any_eq_false] at noLetter
  exact noLetter '.' isThere (by decide)

theorem splitOn_pathText
    {path : ConfigPath}
    (notRoot : path ≠ []) :
    (pathText path).toList.splitOn '.' =
      path.map fun key => key.text.toList := by
  unfold pathText
  rw [String.toList_intercalate, List.map_map]
  apply List.splitOn_intercalate
  · intro segment member
    obtain ⟨key, _, rfl⟩ := List.mem_map.mp member
    exact key.noDot
  · simpa using notRoot

theorem pathText_injective
    {first second : ConfigPath}
    (firstRoot : first ≠ [])
    (secondRoot : second ≠ [])
    (same : pathText first = pathText second) :
    first = second := by
  have segments := splitOn_pathText firstRoot
  rw [same, splitOn_pathText secondRoot] at segments
  apply (List.map_injective_iff.mpr _ segments).symm
  intro one other isSame
  obtain ⟨text, plain⟩ := one
  obtain ⟨otherText, otherPlain⟩ := other
  have isText : text = otherText := String.toList_inj.mp isSame
  subst isText
  rfl

theorem isWritable_changeJson
    {change : JournalChange}
    (before : ∀ value, change.before = some value → value.isWritable = true)
    (after : ∀ value, change.after = some value → value.isWritable = true) :
    (changeJson change).isWritable = true := by
  obtain ⟨path, previous, next⟩ := change
  unfold changeJson
  cases previous with
  | none =>
      cases next with
      | none => rfl
      | some next =>
          simpa [fieldOf, Json.isWritable, isWritableFields] using after next rfl
  | some previous =>
      cases next with
      | none =>
          simpa [fieldOf, Json.isWritable, isWritableFields]
            using before previous rfl
      | some next =>
          simpa [fieldOf, Json.isWritable, isWritableFields]
            using ⟨before previous rfl, after next rfl⟩

theorem isWritableItems_of_forall
    {items : List Json}
    (written : ∀ item ∈ items, item.isWritable = true) :
    isWritableItems items = true := by
  induction items with
  | nil => rfl
  | cons item items inductionHypothesis =>
      rw [isWritableItems, written item List.mem_cons_self,
        inductionHypothesis fun other member =>
          written other (List.mem_cons_of_mem _ member)]
      rfl

/-- The values of a change can be written. -/
def JournalChange.Writable
    (change : JournalChange) : Prop :=
  (∀ value, change.before = some value → value.isWritable = true) ∧
    ∀ value, change.after = some value → value.isWritable = true

theorem isWritable_journalJson
    {journal : SystemConfigJournal}
    (written : ∀ change ∈ journal.changes, change.Writable) :
    (journalJson journal).isWritable = true := by
  have items : isWritableItems (journal.changes.map changeJson) = true := by
    apply isWritableItems_of_forall
    intro item member
    obtain ⟨change, isChange, rfl⟩ := List.mem_map.mp member
    exact isWritable_changeJson (written change isChange).1
      (written change isChange).2
  simp [journalJson, Json.isWritable, isWritableFields, items,
    show isNumber ['1'] = true by decide]

theorem parseChange_changeJson
    {change : JournalChange}
    (safe : isJournalSafe urls change = true) :
    parseChange urls (changeJson change) =
      if isConfigPath change.path then some change else none := by
  obtain ⟨path, previous, next⟩ := change
  have fields : Fields.get? (("path", Json.string path) ::
      (fieldOf "before" previous ++ fieldOf "after" next)) "path" =
        some (.string path) ∧
      Fields.get? (("path", Json.string path) ::
        (fieldOf "before" previous ++ fieldOf "after" next)) "before" =
          previous ∧
      Fields.get? (("path", Json.string path) ::
        (fieldOf "before" previous ++ fieldOf "after" next)) "after" =
          next := by
    cases previous with
    | none =>
        cases next with
        | none => exact ⟨rfl, rfl, rfl⟩
        | some next => exact ⟨rfl, rfl, rfl⟩
    | some previous =>
        cases next with
        | none => exact ⟨rfl, rfl, rfl⟩
        | some next => exact ⟨rfl, rfl, rfl⟩
  unfold changeJson parseChange
  dsimp only
  rw [fields.1]
  dsimp only
  rw [fields.2.1, fields.2.2, safe, Bool.and_true]

theorem stringify_ne_nil
    (journal : SystemConfigJournal) :
    stringify (journalJson journal) ≠ [] := by
  intro isEmpty
  unfold journalJson stringify at isEmpty
  cases isEmpty

/-- A journal within the limits is read back but for other paths. -/
theorem parseJournal_stringify
    {journal : SystemConfigJournal}
    (written : ∀ change ∈ journal.changes, change.Writable)
    (safe : ∀ change ∈ journal.changes, isJournalSafe urls change = true)
    (fewChanges : journal.changes.length ≤ JOURNAL_CHANGES)
    (fewCharacters : unitLength (stringify (journalJson journal)) ≤
      JOURNAL_CHARACTERS) :
    parseJournal urls (some (stringify (journalJson journal))) = some {
      revision := journal.revision
      changes := journal.changes.filter fun change =>
        isConfigPath change.path } := by
  have reads := parse_stringify (isWritable_journalJson written)
  have short : ¬(stringify (journalJson journal) = [] ∨
      JOURNAL_CHARACTERS < unitLength (stringify (journalJson journal))) := by
    rintro (isEmpty | isLong)
    · exact stringify_ne_nil journal isEmpty
    · exact absurd fewCharacters (Nat.not_le.mpr isLong)
  have items : ∀ changes : List JournalChange,
      (∀ change ∈ changes, isJournalSafe urls change = true) →
        (changes.map changeJson).filterMap (parseChange urls) =
          changes.filter fun change => isConfigPath change.path := by
    intro changes areSafe
    induction changes with
    | nil => rfl
    | cons change changes inductionHypothesis =>
        have first := parseChange_changeJson
          (areSafe change List.mem_cons_self)
        have rest := inductionHypothesis fun other member =>
          areSafe other (List.mem_cons_of_mem _ member)
        rw [List.map_cons, List.filterMap_cons, first, rest, List.filter_cons]
        cases isConfigPath change.path with
        | true => rfl
        | false => rfl
  have all : (journal.changes.map changeJson).take JOURNAL_CHANGES =
      journal.changes.map changeJson := by
    apply List.take_of_length_le
    rw [List.length_map]
    exact fewChanges
  have changes : Fields.get? [("version", .number "1"),
      ("revision", .string journal.revision),
      ("changes", .array (journal.changes.map changeJson))] "changes" =
        some (.array (journal.changes.map changeJson)) := rfl
  have version : Fields.get? [("version", .number "1"),
      ("revision", .string journal.revision),
      ("changes", .array (journal.changes.map changeJson))] "version" =
        some (.number "1") := rfl
  have revision : Fields.get? [("version", .number "1"),
      ("revision", .string journal.revision),
      ("changes", .array (journal.changes.map changeJson))] "revision" =
        some (.string journal.revision) := rfl
  unfold parseJournal
  rw [Option.bind_eq_bind, Option.bind_some, if_neg short, reads]
  unfold journalJson
  rw [Option.bind_eq_bind, Option.bind_some]
  dsimp only
  rw [version, revision, changes]
  change some (SystemConfigJournal.mk journal.revision
    (((journal.changes.map changeJson).take JOURNAL_CHANGES).filterMap
      (parseChange urls))) = _
  rw [all, items _ safe]

end Frameleaf.SettingsDraft
