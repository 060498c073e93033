import Frameleaf.Lib.Json
import Mathlib.Data.List.Basic
import Mathlib.Data.List.Nodup
import Mathlib.Data.List.Perm.Basic

namespace Frameleaf.JsonGraph

open Json

/-!
# Values in which arrays are found by names

A path goes through the fields of objects and through elements of arrays that
have an identity.  Entries are put into the arrays at their paths, and two
values are the same up to the order of array entries.
-/

/-- One step on the way to an array. -/
inductive Step where
  | key (name : String)
  | id (name : String)
deriving DecidableEq

/-- The way from a value to an array in it. -/
abbrev Path := List Step

/-- An entry and the array in which it belongs. -/
abbrev PlacedEntry := Path × Json

/-- Whether a value is an object. -/
def isObject : Json → Bool
  | .object _ =>
      true
  | _ =>
      false

/-- The identity of a value: the text in its field `id`. -/
def idOf : Json → Option String
  | .object fields =>
      match Fields.get? fields "id" with
      | some (.string name) =>
          some name
      | _ =>
          none
  | _ =>
      none

/-- The array at a path. -/
def arrayAt : Path → Json → Option (List Json)
  | [], .array items =>
      some items
  | .key name :: path, .object fields =>
      (Fields.get? fields name).bind (arrayAt path)
  | .id name :: path, .array items =>
      (items.find? fun item => idOf item == some name).bind (arrayAt path)
  | _, _ =>
      none

/-- A list with a change to its first element that has a property. -/
def modifyFirst
    {α : Type}
    (property : α → Bool)
    (change : α → α) : List α → List α
  | [] =>
      []
  | element :: rest =>
      if property element then
        change element :: rest
      else
        element :: modifyFirst property change rest

/-- A value with an entry at the end of the array at a path. -/
def pushAt
    (entry : Json) : Path → Json → Json
  | [], .array items =>
      .array (items ++ [entry])
  | .key name :: path, .object fields =>
      .object (modifyFirst (fun field => field.1 == name)
        (fun field => (field.1, pushAt entry path field.2)) fields)
  | .id name :: path, .array items =>
      .array (modifyFirst (fun item => idOf item == some name)
        (pushAt entry path) items)
  | _, value =>
      value

/-- One array has one more entry at its end, and all else is the same. -/
inductive AppendedAt
    (entry : Json) : Path → Json → Json → Prop where
  | here
      (items : List Json) :
      AppendedAt entry [] (.array items) (.array (items ++ [entry]))
  | field
      {name : String}
      {path : Path}
      {value changed : Json}
      {before after : Fields}
      (isFirst : ∀ field ∈ before, field.1 ≠ name)
      (inside : AppendedAt entry path value changed) :
      AppendedAt entry (.key name :: path)
        (.object (before ++ (name, value) :: after))
        (.object (before ++ (name, changed) :: after))
  | element
      {name : String}
      {path : Path}
      {item changed : Json}
      {before after : List Json}
      (isFirst : ∀ item ∈ before, idOf item ≠ some name)
      (isElement : idOf item = some name)
      (inside : AppendedAt entry path item changed) :
      AppendedAt entry (.id name :: path)
        (.array (before ++ item :: after))
        (.array (before ++ changed :: after))

/-- Identities are distinct in each array, and names in each object. -/
inductive Proper : Json → Prop where
  | null : Proper .null
  | bool (value : Bool) : Proper (.bool value)
  | number (text : String) : Proper (.number text)
  | string (text : String) : Proper (.string text)
  | array
      {items : List Json}
      (distinct : (items.filterMap idOf).Nodup)
      (each : ∀ item ∈ items, Proper item) :
      Proper (.array items)
  | object
      {fields : Fields}
      (distinct : (fields.map Prod.fst).Nodup)
      (each : ∀ field ∈ fields, Proper field.2) :
      Proper (.object fields)

/-- Two values are the same up to the order of array entries. -/
inductive Reordered : Json → Json → Prop where
  | refl (value : Json) : Reordered value value
  | trans
      {first second third : Json}
      (before : Reordered first second)
      (after : Reordered second third) :
      Reordered first third
  | perm
      {items others : List Json}
      (same : items.Perm others) :
      Reordered (.array items) (.array others)
  | item
      {item other : Json}
      (before after : List Json)
      (inside : Reordered item other) :
      Reordered (.array (before ++ item :: after))
        (.array (before ++ other :: after))
  | field
      {value other : Json}
      (name : String)
      (before after : Fields)
      (inside : Reordered value other) :
      Reordered (.object (before ++ (name, value) :: after))
        (.object (before ++ (name, other) :: after))

/-- The entries that belong in the array at a path, in their order. -/
def entriesAt
    (path : Path)
    (held : List PlacedEntry) : List Json :=
  held.filterMap fun placed => if placed.1 = path then some placed.2 else none

mutual

/-- A value at a path with all entries that belong in its arrays. -/
def fill
    (held : List PlacedEntry) : Path → Json → Json
  | path, .array items =>
      .array (fillItems held path items ++ entriesAt path held)
  | path, .object fields =>
      .object (fillFields held path fields)
  | _, .null =>
      .null
  | _, .bool value =>
      .bool value
  | _, .number text =>
      .number text
  | _, .string text =>
      .string text

/-- The elements of an array with all entries that belong in them. -/
def fillItems
    (held : List PlacedEntry) : Path → List Json → List Json
  | _, [] =>
      []
  | path, item :: items =>
      (match idOf item with
        | some name =>
            fill held (path ++ [.id name]) item
        | none =>
            item) :: fillItems held path items

/-- The fields of an object with all entries that belong in them. -/
def fillFields
    (held : List PlacedEntry) : Path → Fields → Fields
  | _, [] =>
      []
  | path, (name, value) :: fields =>
      (name, fill held (path ++ [.key name]) value) ::
        fillFields held path fields

end

/-! ## Looking up -/

theorem get?_append
    (before after : Fields)
    (name : String) :
    Fields.get? (before ++ after) name =
      (Fields.get? before name).or (Fields.get? after name) := by
  unfold Fields.get?
  rw [List.find?_append]
  cases before.find? fun field => field.1 == name with
  | none =>
      rfl
  | some field =>
      rfl

theorem get?_cons
    (field : String × Json)
    (fields : Fields)
    (name : String) :
    Fields.get? (field :: fields) name =
      if field.1 = name then some field.2 else Fields.get? fields name := by
  unfold Fields.get?
  rw [List.find?_cons]
  by_cases isName : field.1 = name
  · rw [if_pos isName, beq_iff_eq.mpr isName]
    rfl
  · rw [if_neg isName, beq_eq_false_iff_ne.mpr isName]

variable {name : String} {value item entry changed : Json}

theorem exists_of_get?
    {fields : Fields}
    (found : Fields.get? fields name = some value) :
    ∃ before after : Fields,
      fields = before ++ (name, value) :: after ∧
        ∀ field ∈ before, field.1 ≠ name := by
  obtain ⟨⟨other, held⟩, isFirst, rfl⟩ := Option.map_eq_some_iff.mp found
  obtain ⟨isName, before, after, rfl, others⟩ :=
    List.find?_eq_some_iff_append.mp isFirst
  obtain rfl : other = name := by simpa using isName
  refine ⟨before, after, rfl, ?_⟩
  intro field member
  simpa using others field member

theorem exists_of_find?
    {items : List Json}
    (found : items.find? (fun item => idOf item == some name) = some item) :
    ∃ before after : List Json,
      items = before ++ item :: after ∧ idOf item = some name ∧
        ∀ item ∈ before, idOf item ≠ some name := by
  obtain ⟨isName, before, after, rfl, others⟩ :=
    List.find?_eq_some_iff_append.mp found
  refine ⟨before, after, rfl, by simpa using isName, ?_⟩
  intro item member
  simpa using others item member

theorem find?_of_first
    {before after : List Json}
    (isFirst : ∀ item ∈ before, idOf item ≠ some name)
    (isElement : idOf item = some name) :
    (before ++ item :: after).find? (fun item => idOf item == some name) =
      some item := by
  apply List.find?_eq_some_iff_append.mpr
  refine ⟨by simp [isElement], before, after, rfl, ?_⟩
  intro other member
  simpa using isFirst other member

theorem modifyFirst_of_first
    {α : Type}
    {property : α → Bool}
    {before after : List α}
    {element : α}
    (isFirst : ∀ other ∈ before, property other = false)
    (isElement : property element = true)
    (change : α → α) :
    modifyFirst property change (before ++ element :: after) =
      before ++ change element :: after := by
  induction before with
  | nil =>
      rw [List.nil_append, modifyFirst, if_pos isElement, List.nil_append]
  | cons other before inductionHypothesis =>
      obtain ⟨here, later⟩ := List.forall_mem_cons.mp isFirst
      rw [List.cons_append, modifyFirst, if_neg (Bool.eq_false_iff.mp here),
        inductionHypothesis later, List.cons_append]

theorem idOf_of_field
    {other : Json}
    (sameText : ∀ text, value = .string text ↔ other = .string text)
    (name : String)
    (before after : Fields) :
    idOf (.object (before ++ (name, value) :: after)) =
      idOf (.object (before ++ (name, other) :: after)) := by
  unfold idOf
  dsimp only
  rw [get?_append, get?_append, get?_cons, get?_cons]
  cases Fields.get? before "id" with
  | some found =>
      rfl
  | none =>
      by_cases isId : name = "id"
      · rw [if_pos isId, if_pos isId, Option.none_or, Option.none_or]
        cases value with
        | string text =>
            rw [(sameText text).mp rfl]
        | null | bool | number | array | object =>
            cases other with
            | string text =>
                cases (sameText text).mpr rfl
            | null | bool | number | array | object =>
                rfl
      · rw [if_neg isId, if_neg isId]

/-! ## Appending -/

variable {path : Path}

theorem AppendedAt.same
    (appended : AppendedAt entry path value changed) :
    idOf value = idOf changed ∧
      ∀ text, value = .string text ↔ changed = .string text := by
  induction appended with
  | here items =>
      exact ⟨rfl, by simp⟩
  | field isFirst inside inductionHypothesis =>
      exact ⟨idOf_of_field inductionHypothesis.2 _ _ _,
        by simp⟩
  | element isFirst isElement inside inductionHypothesis =>
      exact ⟨rfl, by simp⟩

/-- An entry is put at the end of the array at its path. -/
theorem appendedAt_pushAt
    (entry : Json)
    {items : List Json}
    (found : arrayAt path value = some items) :
    AppendedAt entry path value (pushAt entry path value) := by
  induction path generalizing value with
  | nil =>
      cases value with
      | array others =>
          exact .here others
      | null | bool | number | string | object =>
          cases found
  | cons step path inductionHypothesis =>
      cases step with
      | key name =>
          cases value with
          | object fields =>
              obtain ⟨inner, isInner, inside⟩ := Option.bind_eq_some_iff.mp found
              obtain ⟨before, after, rfl, isFirst⟩ := exists_of_get? isInner
              have others : ∀ field ∈ before, (field.1 == name) = false := by
                intro field member
                simpa using isFirst field member
              rw [pushAt, modifyFirst_of_first others (by simp)]
              exact .field isFirst (inductionHypothesis inside)
          | null | bool | number | string | array =>
              cases found
      | id name =>
          cases value with
          | array others =>
              obtain ⟨inner, isInner, inside⟩ := Option.bind_eq_some_iff.mp found
              obtain ⟨before, after, rfl, isElement, isFirst⟩ :=
                exists_of_find? isInner
              have others : ∀ item ∈ before,
                  (idOf item == some name) = false := by
                intro item member
                simpa using isFirst item member
              rw [pushAt, modifyFirst_of_first others (by simp [isElement])]
              exact .element isFirst isElement (inductionHypothesis inside)
          | null | bool | number | string | object =>
              cases found

/-- No array is lost, and none loses an entry's identity. -/
theorem AppendedAt.arrayAt_isSome
    {other : Path}
    (appended : AppendedAt entry path value changed)
    (isThere : (arrayAt other value).isSome = true) :
    (arrayAt other changed).isSome = true := by
  induction appended generalizing other with
  | here items =>
      cases other with
      | nil =>
          rfl
      | cons step other =>
          cases step with
          | key name =>
              cases isThere
          | id name =>
              rw [arrayAt] at isThere ⊢
              rw [List.find?_append]
              cases found : items.find? fun item => idOf item == some name with
              | none =>
                  rw [found] at isThere
                  cases isThere
              | some item =>
                  rw [found] at isThere
                  exact isThere
  | @field name path value changed before after isFirst inside
      inductionHypothesis =>
      cases other with
      | nil =>
          cases isThere
      | cons step other =>
          cases step with
          | id name =>
              cases isThere
          | key wanted =>
              rw [arrayAt, get?_append, get?_cons] at isThere ⊢
              cases found : Fields.get? before wanted with
              | some inner =>
                  rw [found] at isThere
                  exact isThere
              | none =>
                  rw [found] at isThere
                  by_cases isName : name = wanted
                  · rw [if_pos isName] at isThere ⊢
                    exact inductionHypothesis isThere
                  · rw [if_neg isName] at isThere ⊢
                    exact isThere
  | @element name path item changed before after isFirst isElement inside
      inductionHypothesis =>
      cases other with
      | nil =>
          rfl
      | cons step other =>
          cases step with
          | key wanted =>
              cases isThere
          | id wanted =>
              rw [arrayAt, List.find?_append, List.find?_cons] at isThere ⊢
              rw [← inside.same.1]
              cases found : before.find? fun item =>
                idOf item == some wanted with
              | some inner =>
                  rw [found] at isThere
                  exact isThere
              | none =>
                  rw [found] at isThere
                  by_cases isName : (idOf item == some wanted) = true
                  · rw [isName] at isThere ⊢
                    exact inductionHypothesis isThere
                  · rw [Bool.eq_false_iff.mpr isName] at isThere ⊢
                    exact isThere

end Frameleaf.JsonGraph
