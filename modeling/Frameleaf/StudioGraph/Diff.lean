import Frameleaf.Lib.JsonSame
import Mathlib.Algebra.Group.Nat.Defs

namespace Frameleaf.StudioGraph

open Json JsonGraph JsonMerge JsonSame Utf8

/-!
# Comparing graphs

The server writes a graph with the keys of its objects in the order of their
code units, the web host with those keys in a language's order, and a history
is summarised by walking two graphs side by side.  Texts are without lone
surrogates, and numbers are the texts that they are written as.
-/

/-- Texts with commas between them. -/
def joined : List Text → Text
  | [] =>
      []
  | text :: rest =>
      text ++
        match rest with
        | [] => []
        | _ :: _ => ',' :: joined rest

/-- Order entries by the code units of their keys. -/
def sortEntries
    (entries : List (String × Text)) : List (String × Text) :=
  entries.mergeSort fun first second => unitsLe first.1 second.1

mutual

/-- Write a value with the keys of its objects sorted. -/
def canonicalJson : Json → Text
  | .array items =>
      '[' :: joined (canonicalItems items) ++ [']']
  | .object fields =>
      '{' :: joined ((sortEntries (canonicalEntries fields)).map
        fun (key, entry) => stringifyText key.toList ++ ':' :: entry) ++ ['}']
  | .null =>
      stringify .null
  | .bool value =>
      stringify (.bool value)
  | .number text =>
      stringify (.number text)
  | .string value =>
      stringify (.string value)

/-- Write the items of an array. -/
def canonicalItems : List Json → List Text
  | [] =>
      []
  | item :: rest =>
      canonicalJson item :: canonicalItems rest

/-- Write the entries of an object, each of which is the same wherever it is
sorted to. -/
def canonicalEntries : Fields → List (String × Text)
  | [] =>
      []
  | (key, entry) :: rest =>
      (key, canonicalJson entry) :: canonicalEntries rest

end

/-- The index that a key of an object is, if it is one. -/
def arrayIndex (key : String) : Option ℕ :=
  match key.toNat? with
  | some index =>
      if index.repr = key ∧ index < 2 ^ 32 - 1 then some index else none
  | none =>
      none

/-- The properties of a new object: indexes first, in ascending order. -/
def ownProperties (fields : Fields) : Fields :=
  (fields.filter fun field => (arrayIndex field.1).isSome).mergeSort
      (fun first second =>
        decide ((arrayIndex first.1).getD 0 ≤ (arrayIndex second.1).getD 0)) ++
    fields.filter fun field => !(arrayIndex field.1).isSome

/-- How a language compares texts: two different texts may compare equal. -/
structure Collation where
  /-- A text does not compare behind another. -/
  notBehind : String → String → Bool
  trans :
    ∀ first second third, notBehind first second = true →
      notBehind second third = true → notBehind first third = true
  total :
    ∀ first second, (notBehind first second || notBehind second first) = true

/-- Write a value with the keys of its objects in a language's order. -/
def jsonContent
    (localeCompare : Collation)
    (value : Json) : Text :=
  stringify (arranged
    (fun fields => ownProperties (sortFields localeCompare.notBehind fields))
    value)

/-! ## The differences of two graphs -/

/-- The depth below which a graph is compared as a whole. -/
def STUDIO_DIFF_MAX_DEPTH : ℕ := 4

/-- How many paths are kept. -/
def STUDIO_DIFF_MAX_PATHS : ℕ := 200

/-- Whether a value has no members. -/
def isLeaf : Json → Bool
  | .array _ | .object _ =>
      false
  | _ =>
      true

/-- Whether a value is an array. -/
def isArray : Json → Bool
  | .array _ =>
      true
  | _ =>
      false

/-- The members of an array or an object, by key. -/
def members : Json → Fields
  | .array items =>
      items.zipIdx.map fun entry => (entry.2.repr, entry.1)
  | .object fields =>
      fields
  | _ =>
      []

/-- How a path of two graphs differs. -/
inductive Kind where
  | added
  | removed
  | changed
  deriving Repr, DecidableEq

/-- A path at which two graphs differ. -/
abbrev Difference := Kind × String

/-- The keys of two values: those of the first one, then the others. -/
def keysOf (left right : Fields) : List String :=
  left.map Prod.fst ++
    (right.map Prod.fst).filter fun key => key ∉ left.map Prod.fst

/-- The path of a change. -/
def changedPath (path : String) : String :=
  if path = "" then "/" else path

/-- Walk two values side by side, down to a remaining depth.  Two references to
one object are not told from equal objects, whose walk finds nothing either. -/
def walk :
    ℕ → Json → Json → String → List Difference
  | remaining, before, after, path =>
      if isLeaf before && decide (before = after) then
        []
      else if isLeaf before || isLeaf after ||
          isArray before != isArray after then
        [(.changed, changedPath path)]
      else
        match remaining with
        | 0 =>
            if canonicalJson before ≠ canonicalJson after then
              [(.changed, changedPath path)]
            else
              []
        | remaining + 1 =>
            (keysOf (members before) (members after)).flatMap fun key =>
              let next := path ++ "/" ++ key
              match (members before).get? key, (members after).get? key with
              | some _, none =>
                  [(.removed, next)]
              | none, some _ =>
                  [(.added, next)]
              | some left, some right =>
                  walk remaining left right next
              | none, none =>
                  []

/-- What changed between two graphs. -/
structure StudioGraphDiff where
  added : ℕ := 0
  removed : ℕ := 0
  changed : ℕ := 0
  paths : List String := []
  truncated : Bool := false
  deriving Repr, DecidableEq

namespace StudioGraphDiff

/-- Keep a path, as long as there is room. -/
def record
    (path : String)
    (diff : StudioGraphDiff) : StudioGraphDiff :=
  if diff.paths.length < STUDIO_DIFF_MAX_PATHS then
    if path ∈ diff.paths then diff
    else { diff with paths := diff.paths ++ [path] }
  else if path ∈ diff.paths then
    diff
  else
    { diff with truncated := true }

/-- Count a difference and keep its path. -/
def note
    (diff : StudioGraphDiff)
    (difference : Difference) : StudioGraphDiff :=
  match difference.1 with
  | .added =>
      { diff with added := diff.added + 1 }.record difference.2
  | .removed =>
      { diff with removed := diff.removed + 1 }.record difference.2
  | .changed =>
      { diff with changed := diff.changed + 1 }.record difference.2

end StudioGraphDiff

/-- What changed between two graphs, as counts and sorted paths. -/
def diffStudioGraphs (before after : Json) : StudioGraphDiff :=
  let diff := (walk STUDIO_DIFF_MAX_DEPTH before after "").foldl
    StudioGraphDiff.note {}
  { diff with paths := diff.paths.mergeSort unitsLe }

open Json JsonGraph JsonMerge JsonSame Utf8

/-!
# Comparisons that agree

Texts with sorted keys, the web host's texts and the walk of a history tell
values apart exactly when they are not the same up to the order of keys.
-/

/-! ## Texts with sorted keys -/

theorem stringifyItems_eq
    (items : List Json) :
    stringifyItems items = joined (items.map stringify) := by
  induction items with
  | nil =>
      rfl
  | cons item rest inductionHypothesis =>
      cases rest with
      | nil =>
          rw [stringifyItems, List.map_singleton, joined]
      | cons next rest =>
          rw [stringifyItems, inductionHypothesis]
          rfl

theorem stringifyFields_eq
    (fields : Fields) :
    stringifyFields fields =
      joined (fields.map fun field =>
        stringifyText field.1.toList ++ ':' :: stringify field.2) := by
  induction fields with
  | nil =>
      rfl
  | cons field rest inductionHypothesis =>
      cases rest with
      | nil =>
          rw [stringifyFields, List.map_singleton, joined]
      | cons next rest =>
          rw [stringifyFields, inductionHypothesis]
          rfl

theorem canonicalItems_eq_map
    (items : List Json) :
    canonicalItems items = items.map canonicalJson := by
  induction items with
  | nil =>
      rw [canonicalItems, List.map_nil]
  | cons item rest inductionHypothesis =>
      rw [canonicalItems, inductionHypothesis, List.map_cons]

theorem canonicalEntries_eq_map
    (fields : Fields) :
    canonicalEntries fields =
      fields.map fun field => (field.1, canonicalJson field.2) := by
  induction fields with
  | nil =>
      rw [canonicalEntries, List.map_nil]
  | cons field rest inductionHypothesis =>
      rw [canonicalEntries, inductionHypothesis, List.map_cons]

/-- A value with the keys of its objects sorted by code units. -/
abbrev canonical : Json → Json :=
  arranged (sortFields unitsLe)

theorem canonicalJson_eq
    (value : Json) :
    canonicalJson value = stringify (canonical value) := by
  induction value using valueInduction with
  | null | bool _ | number _ | string _ =>
      rfl
  | array items inductionHypothesis =>
      rw [canonicalJson, canonical, arranged, arrangedItems_eq_map, stringify,
        stringifyItems_eq, canonicalItems_eq_map, List.map_map,
        List.map_congr_left inductionHypothesis]
      rfl
  | object fields inductionHypothesis =>
      have entries : fields.map (fun field => (field.1, canonicalJson field.2)) =
          (fields.map (arrangedField (sortFields unitsLe))).map fun field =>
            (field.1, stringify field.2) := by
        rw [List.map_map]
        refine List.map_congr_left fun field member => ?_
        rw [inductionHypothesis field member]
        rfl
      have sorted : sortEntries (fields.map fun field =>
          (field.1, canonicalJson field.2)) =
            (sortFields unitsLe (fields.map
              (arrangedField (sortFields unitsLe)))).map fun field =>
                (field.1, stringify field.2) := by
        rw [entries, sortEntries, sortFields]
        exact (List.map_mergeSort
          (r := fun first second : String × Json => unitsLe first.1 second.1)
          (s := fun first second : String × Text => unitsLe first.1 second.1)
          fun _ _ _ _ => rfl).symm
      rw [canonicalJson, canonical, arranged, arrangedFields_eq_map, stringify,
        stringifyFields_eq, canonicalEntries_eq_map, sorted, List.map_map]
      rfl

variable {value other : Json}

theorem canonicalJson_eq_iff
    (writable : value.isWritable = true)
    (otherWritable : other.isWritable = true) :
    canonicalJson value = canonicalJson other ↔ Same value other := by
  have permutes := sortFields_perm unitsLe
  have distinct := distinct_of_isWritable writable
  have otherDistinct := distinct_of_isWritable otherWritable
  rw [canonicalJson_eq, canonicalJson_eq]
  constructor
  · intro alike
    exact same_of_arranged_eq permutes distinct otherDistinct
      (stringify_injOn (isWritable_arranged permutes writable)
        (isWritable_arranged permutes otherWritable) alike)
  · intro same
    refine congrArg stringify (arranged_eq_of_same ?_ same distinct
      otherDistinct distinct)
    exact fun fields others here _ permuted => sortFields_eq_of_perm
      unitsLe_trans unitsLe_total (untied_unitsLe _) here permuted

/-! ## Texts with keys in a language's order -/

theorem ownProperties_perm
    (fields : Fields) :
    (ownProperties fields).Perm fields :=
  ((List.mergeSort_perm _ _).append_right _).trans
    (List.filter_append_perm _ fields)

theorem content_perm
    (localeCompare : Collation)
    (fields : Fields) :
    (ownProperties (sortFields localeCompare.notBehind fields)).Perm fields :=
  (ownProperties_perm _).trans (sortFields_perm _ _)

theorem same_of_jsonContent_eq
    {localeCompare : Collation}
    (writable : value.isWritable = true)
    (otherWritable : other.isWritable = true)
    (alike : jsonContent localeCompare value =
      jsonContent localeCompare other) :
    Same value other := by
  have permutes := content_perm localeCompare
  exact same_of_arranged_eq permutes (distinct_of_isWritable writable)
    (distinct_of_isWritable otherWritable)
    (stringify_injOn (isWritable_arranged permutes writable)
      (isWritable_arranged permutes otherWritable) alike)

theorem jsonContent_eq_of_same
    {localeCompare : Collation}
    (same : Same value other)
    (distinct : Distinct value)
    (otherDistinct : Distinct other)
    (untied : AllNames (Untied localeCompare.notBehind) value) :
    jsonContent localeCompare value = jsonContent localeCompare other := by
  refine congrArg stringify
    (arranged_eq_of_same ?_ same distinct otherDistinct untied)
  exact fun fields others here distinctHere permuted =>
    congrArg ownProperties (sortFields_eq_of_perm localeCompare.trans
      localeCompare.total here distinctHere permuted)

/-! ## Members of two values -/

theorem get?_indexed
    (items : List Json)
    (start index : ℕ) :
    Fields.get? ((items.zipIdx start).map fun entry =>
      (entry.2.repr, entry.1)) (start + index).repr = items[index]? := by
  have injective : ∀ {first second : ℕ}, first.repr = second.repr →
      first = second :=
    fun alike => ofNat_injective (congrArg Json.number alike)
  induction items generalizing start index with
  | nil =>
      rfl
  | cons item items inductionHypothesis =>
      rw [List.zipIdx_cons, List.map_cons, get?_cons]
      cases index with
      | zero =>
          rw [Nat.add_zero, if_pos rfl]
          rfl
      | succ index =>
          have later := inductionHypothesis (start + 1) index
          rw [Nat.add_right_comm, Nat.add_assoc] at later
          rw [if_neg fun alike => by have := injective alike; omega, later]
          rfl

theorem map_fst_indexed
    (items : List Json)
    (start : ℕ) :
    (((items.zipIdx start).map fun entry => (entry.2.repr, entry.1)).map
      Prod.fst : List String) = (List.range' start items.length).map Nat.repr := by
  induction items generalizing start with
  | nil =>
      rfl
  | cons item items inductionHypothesis =>
      rw [List.zipIdx_cons, List.map_cons, List.map_cons, inductionHypothesis,
        List.length_cons, List.range'_succ, List.map_cons]

theorem repr_injective :
    Function.Injective Nat.repr :=
  fun _ _ alike => ofNat_injective (congrArg Json.number alike)

theorem nodup_members
    (writable : value.isWritable = true) :
    ((members value).map Prod.fst).Nodup := by
  cases value with
  | null | bool _ | number _ | string _ =>
      exact List.nodup_nil
  | array items =>
      have indexes : (List.range' 0 items.length).Nodup := List.nodup_range'
      rw [members, map_fst_indexed]
      exact indexes.map repr_injective
  | object fields =>
      cases distinct_of_isWritable writable with
      | object here _ => exact here

theorem isWritable_member
    {entry : Json}
    {key : String}
    (writable : value.isWritable = true)
    (found : Fields.get? (members value) key = some entry) :
    entry.isWritable = true := by
  have member := mem_of_get? found
  cases value with
  | null | bool _ | number _ | string _ =>
      exact nomatch member
  | array items =>
      rw [Json.isWritable, isWritableItems_iff] at writable
      obtain ⟨⟨item, index⟩, isItem, alike⟩ := List.mem_map.mp member
      cases alike
      exact writable item (List.mem_zipIdx' isItem |>.2 ▸ List.getElem_mem _)
  | object fields =>
      rw [Json.isWritable, Bool.and_eq_true, isWritableFields_iff] at writable
      exact writable.2 _ member

theorem get?_members_array
    (items : List Json)
    (index : ℕ) :
    Fields.get? (members (.array items)) index.repr = items[index]? := by
  have found := get?_indexed items 0 index
  rwa [Nat.zero_add] at found

theorem get?_members_of_not_index
    {items : List Json}
    {key : String}
    (noIndex : ¬ ∃ index, Nat.repr index = key) :
    Fields.get? (members (.array items)) key = none := by
  refine get?_eq_none fun member => noIndex ?_
  rw [members, map_fst_indexed] at member
  obtain ⟨index, -, isIndex⟩ := List.mem_map.mp member
  exact ⟨index, isIndex⟩

/-- Whether two values are walked by their members. -/
def Branches (before after : Json) : Prop :=
  isLeaf before = false ∧ isLeaf after = false ∧
    isArray before = isArray after

theorem same_iff_members
    {before after : Json}
    (branches : Branches before after)
    (writable : before.isWritable = true)
    (afterWritable : after.isWritable = true) :
    Same before after ↔ ∀ key, Option.Rel Same
      (Fields.get? (members before) key) (Fields.get? (members after) key) := by
  obtain ⟨hasMembers, afterHasMembers, sameKind⟩ := branches
  have distinct := nodup_members writable
  have afterDistinct := nodup_members afterWritable
  cases before with
  | null | bool _ | number _ | string _ =>
      exact nomatch hasMembers
  | array items =>
      cases after with
      | null | bool _ | number _ | string _ =>
          exact nomatch afterHasMembers
      | object fields =>
          exact nomatch sameKind
      | array others =>
          rw [same_array_iff_rel]
          refine ⟨fun each key => ?_, fun each index => ?_⟩
          · by_cases isIndex : ∃ index, Nat.repr index = key
            · obtain ⟨index, rfl⟩ := isIndex
              rw [get?_members_array, get?_members_array]
              exact each index
            · rw [get?_members_of_not_index isIndex,
                get?_members_of_not_index isIndex]
              exact .none
          · have here := each index.repr
            rwa [get?_members_array, get?_members_array] at here
  | object fields =>
      cases after with
      | null | bool _ | number _ | string _ =>
          exact nomatch afterHasMembers
      | array others =>
          exact nomatch sameKind
      | object others =>
          exact same_object_iff_rel distinct afterDistinct

end Frameleaf.StudioGraph
