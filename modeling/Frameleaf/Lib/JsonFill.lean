import Frameleaf.Lib.JsonGraph

namespace Frameleaf.JsonGraph

open Json

/-!
# Filling arrays with the entries that belong in them

Filling puts all entries of a list into their arrays at once.  It is what
putting one entry after the other comes to, and entries may be put in two parts
as long as none of them belongs in an entry that is put later.
-/

/-- What holds of a value when it holds of everything in it. -/
@[elab_as_elim] theorem valueInduction
    {motive : Json → Prop}
    (null : motive .null)
    (bool : ∀ value, motive (.bool value))
    (number : ∀ text, motive (.number text))
    (string : ∀ text, motive (.string text))
    (array : ∀ items, (∀ item ∈ items, motive item) → motive (.array items))
    (object : ∀ fields : Fields, (∀ field ∈ fields, motive field.2) →
      motive (.object fields)) :
    ∀ value, motive value
  | .null =>
      null
  | .bool value =>
      bool value
  | .number text =>
      number text
  | .string text =>
      string text
  | .array items =>
      array items fun item _ =>
        valueInduction null bool number string array object item
  | .object fields =>
      object fields fun field _ =>
        valueInduction null bool number string array object field.2
termination_by value => sizeOf value
decreasing_by
  · rename_i member
    have smaller := List.sizeOf_lt_of_mem member
    simp only [Json.array.sizeOf_spec]
    omega
  · rename_i member
    have smaller := List.sizeOf_lt_of_mem member
    cases field with
    | mk name value =>
        simp only [Json.object.sizeOf_spec, Prod.mk.sizeOf_spec] at smaller ⊢
        omega

/-! ## Elements and fields -/

/-- An element of the array at a path, with the entries that belong in it. -/
def fillItem
    (held : List PlacedEntry)
    (path : Path)
    (item : Json) : Json :=
  match idOf item with
  | some name =>
      fill held (path ++ [.id name]) item
  | none =>
      item

theorem fillItems_eq_map
    (held : List PlacedEntry)
    (path : Path)
    (items : List Json) :
    fillItems held path items = items.map (fillItem held path) := by
  induction items with
  | nil =>
      rw [fillItems, List.map_nil]
  | cons item items inductionHypothesis =>
      rw [fillItems, inductionHypothesis, List.map_cons]
      rfl

theorem fillFields_eq_map
    (held : List PlacedEntry)
    (path : Path)
    (fields : Fields) :
    fillFields held path fields =
      fields.map fun field =>
        (field.1, fill held (path ++ [.key field.1]) field.2) := by
  induction fields with
  | nil =>
      rw [fillFields, List.map_nil]
  | cons field fields inductionHypothesis =>
      rw [fillFields, inductionHypothesis, List.map_cons]

theorem fill_array
    (held : List PlacedEntry)
    (path : Path)
    (items : List Json) :
    fill held path (.array items) =
      .array (items.map (fillItem held path) ++ entriesAt path held) := by
  rw [fill, fillItems_eq_map]

theorem fill_object
    (held : List PlacedEntry)
    (path : Path)
    (fields : Fields) :
    fill held path (.object fields) =
      .object (fields.map fun field =>
        (field.1, fill held (path ++ [.key field.1]) field.2)) := by
  rw [fill, fillFields_eq_map]

/-- Entries of two parts. -/
@[simp] theorem entriesAt_append
    (path : Path)
    (first second : List PlacedEntry) :
    entriesAt path (first ++ second) =
      entriesAt path first ++ entriesAt path second :=
  List.filterMap_append

theorem get?_map_fill
    (held : List PlacedEntry)
    (path : Path)
    (fields : Fields)
    (name : String) :
    Fields.get? (fields.map fun field =>
        (field.1, fill held (path ++ [.key field.1]) field.2)) name =
      (Fields.get? fields name).map (fill held (path ++ [.key name])) := by
  induction fields with
  | nil =>
      rfl
  | cons field fields inductionHypothesis =>
      rw [List.map_cons, get?_cons, get?_cons, inductionHypothesis]
      by_cases isName : field.1 = name
      · rw [if_pos isName, if_pos isName, isName]
        rfl
      · rw [if_neg isName, if_neg isName]

/-- Filling keeps identities. -/
@[simp] theorem idOf_fill
    (held : List PlacedEntry)
    (path : Path)
    (value : Json) :
    idOf (fill held path value) = idOf value := by
  cases value with
  | null | bool | number | string =>
      rw [fill]
  | array items =>
      rw [fill]
      rfl
  | object fields =>
      rw [fill_object]
      unfold idOf
      dsimp only
      rw [get?_map_fill]
      cases Fields.get? fields "id" with
      | none =>
          rfl
      | some value =>
          cases value with
          | null | bool | number | string | array | object =>
              rw [Option.map_some, fill]

/-- Filling keeps identities of elements. -/
@[simp] theorem idOf_fillItem
    (held : List PlacedEntry)
    (path : Path)
    (item : Json) :
    idOf (fillItem held path item) = idOf item := by
  unfold fillItem
  cases found : idOf item with
  | none =>
      exact found
  | some name =>
      dsimp only
      rw [idOf_fill, found]

variable {held : List PlacedEntry} {path rest : Path} {value item other : Json}

/-- Only the entries behind a path are used there. -/
theorem fill_congr
    {others : List PlacedEntry}
    (same : ∀ later, path <+: later →
      entriesAt later held = entriesAt later others) :
    fill held path value = fill others path value := by
  induction value using valueInduction generalizing path with
  | null | bool | number | string =>
      rw [fill, fill]
  | array items inductionHypothesis =>
      rw [fill_array, fill_array, same path List.prefix_rfl]
      congr 2
      apply List.map_congr_left
      intro item member
      unfold fillItem
      cases idOf item with
      | none =>
          rfl
      | some name =>
          apply inductionHypothesis item member
          intro later isLater
          exact same later ((List.prefix_append _ _).trans isLater)
  | object fields inductionHypothesis =>
      rw [fill_object, fill_object]
      congr 1
      apply List.map_congr_left
      intro field member
      rw [inductionHypothesis field member]
      intro later isLater
      exact same later ((List.prefix_append _ _).trans isLater)

theorem fill_nil
    (path : Path)
    (value : Json) :
    fill [] path value = value := by
  induction value using valueInduction generalizing path with
  | null | bool | number | string =>
      rw [fill]
  | array items inductionHypothesis =>
      have kept : items.map (fillItem [] path) = items.map id := by
        apply List.map_congr_left
        intro item member
        unfold fillItem
        cases idOf item with
        | none =>
            rfl
        | some name =>
            exact inductionHypothesis item member _
      rw [fill_array, kept, List.map_id]
      exact congrArg Json.array (List.append_nil _)
  | object fields inductionHypothesis =>
      have kept : (fields.map fun field =>
          (field.1, fill [] (path ++ [.key field.1]) field.2)) =
          fields.map id := by
        apply List.map_congr_left
        intro field member
        rw [inductionHypothesis field member]
        rfl
      rw [fill_object, kept, List.map_id]

theorem fill_of_none
    (none : ∀ later, path <+: later → entriesAt later held = [])
    (value : Json) :
    fill held path value = value := by
  have same : ∀ later, path <+: later →
      entriesAt later held = entriesAt later [] := none
  rw [fill_congr same, fill_nil]

/-! ## One entry after the other -/

theorem entriesAt_singleton
    (path other : Path)
    (entry : Json) :
    entriesAt path [(other, entry)] = if other = path then [entry] else [] := by
  unfold entriesAt
  by_cases same : other = path
  · simp [same]
  · simp [same]

theorem entriesAt_concat_of_ne
    {other : Path}
    (apart : other ≠ path)
    (held : List PlacedEntry)
    (entry : Json) :
    entriesAt path (held ++ [(other, entry)]) = entriesAt path held := by
  rw [entriesAt_append, entriesAt_singleton, if_neg apart, List.append_nil]

theorem entriesAt_concat
    (path : Path)
    (held : List PlacedEntry)
    (entry : Json) :
    entriesAt path (held ++ [(path, entry)]) =
      entriesAt path held ++ [entry] := by
  rw [entriesAt_append, entriesAt_singleton, if_pos rfl]

theorem fill_concat_apart
    {other : Path}
    (apart : ¬ path <+: other)
    (held : List PlacedEntry)
    (entry value : Json) :
    fill (held ++ [(other, entry)]) path value = fill held path value := by
  apply fill_congr
  intro later isLater
  apply entriesAt_concat_of_ne
  rintro rfl
  exact apart isLater

theorem not_prefix_of_ne
    {step other : Step}
    (apart : step ≠ other)
    (path rest : Path) :
    ¬ path ++ [step] <+: path ++ other :: rest := by
  rw [List.prefix_append_right_inj, List.cons_prefix_cons]
  exact fun both => apart both.1

variable {name : String} {fields : Fields}

theorem map_fields_concat
    (others : ∀ field ∈ fields, field.1 ≠ name)
    (entry : Json) :
    (fields.map fun field => (field.1,
        fill (held ++ [(path ++ .key name :: rest, entry)])
          (path ++ [.key field.1]) field.2)) =
      fields.map fun field =>
        (field.1, fill held (path ++ [.key field.1]) field.2) := by
  apply List.map_congr_left
  intro field member
  have apart : Step.key field.1 ≠ .key name := fun same =>
    others field member (Step.key.inj same)
  rw [fill_concat_apart (not_prefix_of_ne apart _ _)]

variable {items : List Json}

theorem map_items_concat
    {step : Step}
    (others : ∀ item ∈ items, ∀ name, idOf item = some name →
      Step.id name ≠ step)
    (entry : Json) :
    items.map (fillItem (held ++ [(path ++ step :: rest, entry)]) path) =
      items.map (fillItem held path) := by
  apply List.map_congr_left
  intro item member
  unfold fillItem
  cases found : idOf item with
  | none =>
      rfl
  | some name =>
      have apart := others item member name found
      exact fill_concat_apart (not_prefix_of_ne apart _ _) _ _ _

theorem fillItem_of_idOf
    (isElement : idOf item = some name) :
    fillItem held path item = fill held (path ++ [.id name]) item := by
  unfold fillItem
  rw [isElement]

theorem forall_ne_of_distinct
    {before after : Fields}
    (distinct : ((before ++ (name, value) :: after).map Prod.fst).Nodup) :
    ∀ field ∈ after, field.1 ≠ name := by
  rw [List.map_append, List.map_cons] at distinct
  obtain ⟨-, later, -⟩ := List.nodup_append.mp distinct
  intro field member same
  apply (List.nodup_cons.mp later).1
  exact List.mem_map.mpr ⟨field, member, same⟩

theorem forall_idOf_ne_of_distinct
    {before after : List Json}
    (isElement : idOf item = some name)
    (distinct : ((before ++ item :: after).filterMap idOf).Nodup) :
    ∀ other ∈ after, idOf other ≠ some name := by
  rw [List.filterMap_append, List.filterMap_cons_some isElement] at distinct
  obtain ⟨-, later, -⟩ := List.nodup_append.mp distinct
  intro other member same
  apply (List.nodup_cons.mp later).1
  exact List.mem_filterMap.mpr ⟨other, member, same⟩

/-- Filling with one more entry puts it at the end of its array. -/
theorem fill_concat
    (proper : Proper value)
    (isThere : (arrayAt rest value).isSome = true)
    (entry : Json) :
    fill (held ++ [(path ++ rest, entry)]) path value =
      pushAt entry rest (fill held path value) := by
  induction rest generalizing path value with
  | nil =>
      cases value with
      | null | bool | number | string | object =>
          cases isThere
      | array items =>
          have kept : items.map
              (fillItem (held ++ [(path ++ [], entry)]) path) =
              items.map (fillItem held path) := by
            apply List.map_congr_left
            intro item member
            unfold fillItem
            cases idOf item with
            | none =>
                rfl
            | some name =>
                apply fill_concat_apart
                intro isPrefix
                have length := isPrefix.length_le
                rw [List.length_append, List.length_append] at length
                exact absurd length (by simp)
          rw [fill_array, fill_array, kept, List.append_nil, entriesAt_concat,
            pushAt, List.append_assoc]
  | cons step rest inductionHypothesis =>
      obtain ⟨found, isFound⟩ := Option.isSome_iff_exists.mp isThere
      cases step with
      | key name =>
          cases value with
          | null | bool | number | string | array =>
              cases isThere
          | object fields =>
              obtain ⟨value, isValue, inside⟩ :=
                Option.bind_eq_some_iff.mp isFound
              obtain ⟨before, after, rfl, isFirst⟩ := exists_of_get? isValue
              cases proper with
              | object distinct each =>
              have isLast := forall_ne_of_distinct distinct
              have valueProper : Proper value := each (name, value) (by simp)
              have here := @inductionHypothesis (path ++ [.key name]) value
                valueProper (Option.isSome_of_mem inside)
              rw [List.append_assoc, List.singleton_append] at here
              have firstFilled : ∀ field ∈ before.map (fun field =>
                  (field.1, fill held (path ++ [.key field.1]) field.2)),
                  (field.1 == name) = false := by
                intro field member
                obtain ⟨other, isOther, rfl⟩ := List.mem_map.mp member
                simpa using isFirst other isOther
              rw [fill_object, fill_object, List.map_append, List.map_append,
                List.map_cons, List.map_cons, map_fields_concat isFirst,
                map_fields_concat isLast, here, pushAt,
                modifyFirst_of_first firstFilled (by simp)]
      | id name =>
          cases value with
          | null | bool | number | string | object =>
              cases isThere
          | array items =>
              obtain ⟨item, isItem, inside⟩ :=
                Option.bind_eq_some_iff.mp isFound
              obtain ⟨before, after, rfl, isElement, isFirst⟩ :=
                exists_of_find? isItem
              cases proper with
              | array distinct each =>
              have isLast := forall_idOf_ne_of_distinct isElement distinct
              have here := @inductionHypothesis (path ++ [.id name]) item
                (each item (by simp)) (Option.isSome_of_mem inside)
              rw [List.append_assoc, List.singleton_append,
                ← fillItem_of_idOf isElement, ← fillItem_of_idOf isElement]
                at here
              have apart (others : List Json)
                  (other : ∀ item ∈ others, idOf item ≠ some name) :
                  ∀ item ∈ others, ∀ wanted, idOf item = some wanted →
                    Step.id wanted ≠ .id name := by
                intro item member wanted found same
                rw [Step.id.inj same] at found
                exact other item member found
              have firstFilled : ∀ item ∈ before.map (fillItem held path),
                  (idOf item == some name) = false := by
                intro item member
                obtain ⟨other, isOther, rfl⟩ := List.mem_map.mp member
                rw [idOf_fillItem]
                simpa using isFirst other isOther
              rw [fill_array, fill_array, List.map_append, List.map_append,
                List.map_cons, List.map_cons,
                map_items_concat (apart before isFirst),
                map_items_concat (apart after isLast), here,
                entriesAt_concat_of_ne (by simp), List.append_assoc,
                List.append_assoc, List.cons_append, List.cons_append, pushAt,
                modifyFirst_of_first firstFilled (by simp [isElement])]

/-- A filled array has its elements and the entries that belong in it. -/
theorem arrayAt_fill
    (held : List PlacedEntry)
    (path : Path)
    (found : arrayAt rest value = some items) :
    ∃ filled : List Json,
      arrayAt rest (fill held path value) =
          some (filled ++ entriesAt (path ++ rest) held) ∧
        filled.map idOf = items.map idOf := by
  induction rest generalizing path value with
  | nil =>
      cases value with
      | null | bool | number | string | object =>
          cases found
      | array others =>
          obtain rfl : others = items := Option.some_inj.mp found
          refine ⟨others.map (fillItem held path), ?_, ?_⟩
          · rw [fill_array, List.append_nil]
            rfl
          · rw [List.map_map]
            exact List.map_congr_left fun item _ => idOf_fillItem held path item
  | cons step rest inductionHypothesis =>
      cases step with
      | key name =>
          cases value with
          | null | bool | number | string | array =>
              cases found
          | object fields =>
              obtain ⟨value, isValue, inside⟩ := Option.bind_eq_some_iff.mp found
              obtain ⟨filled, isFilled, same⟩ :=
                inductionHypothesis (path ++ [.key name]) inside
              refine ⟨filled, ?_, same⟩
              rw [List.append_assoc, List.singleton_append] at isFilled
              rw [fill_object, arrayAt, get?_map_fill, isValue]
              exact isFilled
      | id name =>
          cases value with
          | null | bool | number | string | object =>
              cases found
          | array others =>
              obtain ⟨item, isItem, inside⟩ := Option.bind_eq_some_iff.mp found
              obtain ⟨before, after, rfl, isElement, isFirst⟩ :=
                exists_of_find? isItem
              obtain ⟨filled, isFilled, same⟩ :=
                inductionHypothesis (path ++ [.id name]) inside
              refine ⟨filled, ?_, same⟩
              rw [List.append_assoc, List.singleton_append] at isFilled
              have firstFilled : ∀ item ∈ before.map (fillItem held path),
                  idOf item ≠ some name := by
                intro other member
                obtain ⟨other, isOther, rfl⟩ := List.mem_map.mp member
                rw [idOf_fillItem]
                exact isFirst other isOther
              have isFilledElement : idOf (fillItem held path item) =
                  some name := by
                rw [idOf_fillItem, isElement]
              rw [fill_array, List.map_append, List.map_cons, List.append_assoc,
                List.cons_append, arrayAt,
                find?_of_first firstFilled isFilledElement,
                fillItem_of_idOf isElement]
              exact isFilled

/-! ## Up to the order of array entries -/

theorem Reordered.same
    (reordered : Reordered value other) :
    idOf value = idOf other ∧
      ∀ text, value = .string text ↔ other = .string text := by
  induction reordered with
  | refl value =>
      exact ⟨rfl, fun text => Iff.rfl⟩
  | trans before after firstHypothesis secondHypothesis =>
      exact ⟨firstHypothesis.1.trans secondHypothesis.1,
        fun text => (firstHypothesis.2 text).trans (secondHypothesis.2 text)⟩
  | perm same =>
      exact ⟨rfl, by simp⟩
  | item before after inside inductionHypothesis =>
      exact ⟨rfl, by simp⟩
  | field name before after inside inductionHypothesis =>
      exact ⟨idOf_of_field inductionHypothesis.2 name before after,
        by simp⟩

theorem proper_array_iff :
    Proper (.array items) ↔
      (items.filterMap idOf).Nodup ∧ ∀ item ∈ items, Proper item := by
  constructor
  · intro proper
    cases proper with
    | array distinct each =>
        exact ⟨distinct, each⟩
  · rintro ⟨distinct, each⟩
    exact .array distinct each

theorem proper_object_iff :
    Proper (.object fields) ↔
      (fields.map Prod.fst).Nodup ∧ ∀ field ∈ fields, Proper field.2 := by
  constructor
  · intro proper
    cases proper with
    | object distinct each =>
        exact ⟨distinct, each⟩
  · rintro ⟨distinct, each⟩
    exact .object distinct each

/-- Another order is as proper. -/
theorem Reordered.proper_iff
    (reordered : Reordered value other) :
    Proper value ↔ Proper other := by
  induction reordered with
  | refl value =>
      exact Iff.rfl
  | trans before after firstHypothesis secondHypothesis =>
      exact firstHypothesis.trans secondHypothesis
  | perm same =>
      rw [proper_array_iff, proper_array_iff, (same.filterMap idOf).nodup_iff]
      simp only [same.mem_iff]
  | item before after inside inductionHypothesis =>
      have identities (item : Json) :
          (before ++ item :: after).filterMap idOf =
            before.filterMap idOf ++
              ((idOf item).toList ++ after.filterMap idOf) := by
        rw [List.filterMap_append, List.filterMap_cons]
        cases idOf item with
        | none =>
            rfl
        | some name =>
            rfl
      rw [proper_array_iff, proper_array_iff, identities, identities,
        inside.same.1]
      simp only [List.forall_mem_append, List.forall_mem_cons,
        inductionHypothesis]
  | field name before after inside inductionHypothesis =>
      rw [proper_object_iff, proper_object_iff]
      simp only [List.map_append, List.map_cons, List.forall_mem_append,
        List.forall_mem_cons, inductionHypothesis]

theorem Reordered.exists_array
    (reordered : Reordered value other)
    (isArray : value = .array items) :
    ∃ others, other = .array others ∧
      ∀ first, Reordered (.array (first :: items)) (.array (first :: others)) := by
  induction reordered generalizing items with
  | refl value =>
      exact ⟨items, isArray, fun first => .refl _⟩
  | trans before after firstHypothesis secondHypothesis =>
      obtain ⟨middle, isMiddle, firstSame⟩ := firstHypothesis isArray
      obtain ⟨others, isOther, secondSame⟩ := secondHypothesis isMiddle
      exact ⟨others, isOther,
        fun first => (firstSame first).trans (secondSame first)⟩
  | @perm items others same =>
      cases isArray
      exact ⟨others, rfl, fun first => .perm (same.cons first)⟩
  | @item item other before after inside inductionHypothesis =>
      cases isArray
      exact ⟨_, rfl, fun first => .item (first :: before) after inside⟩
  | field name before after inside inductionHypothesis =>
      cases isArray

theorem Reordered.exists_object
    (reordered : Reordered value other)
    (isObject : value = .object fields) :
    ∃ others, other = .object others ∧
      ∀ first, Reordered (.object (first :: fields))
        (.object (first :: others)) := by
  induction reordered generalizing fields with
  | refl value =>
      exact ⟨fields, isObject, fun first => .refl _⟩
  | trans before after firstHypothesis secondHypothesis =>
      obtain ⟨middle, isMiddle, firstSame⟩ := firstHypothesis isObject
      obtain ⟨others, isOther, secondSame⟩ := secondHypothesis isMiddle
      exact ⟨others, isOther,
        fun first => (firstSame first).trans (secondSame first)⟩
  | perm same =>
      cases isObject
  | item before after inside inductionHypothesis =>
      cases isObject
  | @field value other name before after inside inductionHypothesis =>
      cases isObject
      exact ⟨_, rfl, fun first => .field name (first :: before) after inside⟩

theorem Reordered.cons
    {others : List Json}
    (first : Reordered item other)
    (rest : Reordered (.array items) (.array others)) :
    Reordered (.array (item :: items)) (.array (other :: others)) := by
  obtain ⟨same, isSame, inFront⟩ := rest.exists_array rfl
  cases isSame
  exact (Reordered.item [] items first).trans (inFront other)

theorem Reordered.consField
    {others : Fields}
    (first : Reordered value other)
    (rest : Reordered (.object fields) (.object others)) :
    Reordered (.object ((name, value) :: fields))
      (.object ((name, other) :: others)) := by
  obtain ⟨same, isSame, inFront⟩ := rest.exists_object rfl
  cases isSame
  exact (Reordered.field name [] fields first).trans (inFront (name, other))

theorem Reordered.map
    {rest : List Json}
    {change other : Json → Json}
    (each : ∀ item ∈ items, Reordered (change item) (other item)) :
    Reordered (.array (items.map change ++ rest))
      (.array (items.map other ++ rest)) := by
  induction items with
  | nil =>
      exact .refl _
  | cons item items inductionHypothesis =>
      obtain ⟨here, later⟩ := List.forall_mem_cons.mp each
      exact here.cons (inductionHypothesis later)

theorem Reordered.mapField
    {change other : String × Json → Json}
    (each : ∀ field ∈ fields, Reordered (change field) (other field)) :
    Reordered (.object (fields.map fun field => (field.1, change field)))
      (.object (fields.map fun field => (field.1, other field))) := by
  induction fields with
  | nil =>
      exact .refl _
  | cons field fields inductionHypothesis =>
      obtain ⟨here, later⟩ := List.forall_mem_cons.mp each
      exact here.consField (inductionHypothesis later)

/-- The same entries fill values that are the same up to order. -/
theorem Reordered.fill
    (reordered : Reordered value other)
    (held : List PlacedEntry)
    (path : Path) :
    Reordered (fill held path value) (JsonGraph.fill held path other) := by
  induction reordered generalizing path with
  | refl value =>
      exact .refl _
  | trans before after firstHypothesis secondHypothesis =>
      exact (firstHypothesis path).trans (secondHypothesis path)
  | perm same =>
      rw [fill_array, fill_array]
      exact .perm ((same.map _).append_right _)
  | @item item other before after inside inductionHypothesis =>
      have here : Reordered (fillItem held path item)
          (fillItem held path other) := by
        unfold fillItem
        rw [inside.same.1]
        cases idOf other with
        | none =>
            exact inside
        | some name =>
            exact inductionHypothesis _
      rw [fill_array, fill_array, List.map_append, List.map_append,
        List.map_cons, List.map_cons, List.append_assoc, List.append_assoc,
        List.cons_append, List.cons_append]
      exact .item _ _ here
  | field name before after inside inductionHypothesis =>
      rw [fill_object, fill_object, List.map_append, List.map_append,
        List.map_cons, List.map_cons]
      exact .field name _ _ (inductionHypothesis _)

/-- No entry of a list belongs in an entry of another one. -/
def NotInside
    (held others : List PlacedEntry) : Prop :=
  ∀ placed ∈ others, ∀ name, idOf placed.2 = some name →
    ∀ inner ∈ held, ¬ placed.1 ++ [.id name] <+: inner.1

theorem mem_entriesAt
    {entry : Json} :
    entry ∈ entriesAt path held ↔ (path, entry) ∈ held := by
  unfold entriesAt
  rw [List.mem_filterMap]
  constructor
  · rintro ⟨⟨other, inner⟩, member, found⟩
    split at found
    case isTrue same =>
      cases found
      cases same
      exact member
    case isFalse =>
      cases found
  · intro member
    exact ⟨(path, entry), member, if_pos rfl⟩

/-- Entries are put in at once or in two parts, when none of the first part
belongs in an entry of the second one. -/
theorem fill_append
    {first second : List PlacedEntry}
    (apart : NotInside first second)
    (path : Path)
    (value : Json) :
    Reordered (fill (first ++ second) path value)
      (fill first path (fill second path value)) := by
  induction value using valueInduction generalizing path with
  | null | bool | number | string =>
      rw [fill, fill, fill]
      exact .refl _
  | array items inductionHypothesis =>
      have untouched : (entriesAt path second).map (fillItem first path) =
          (entriesAt path second).map id := by
        apply List.map_congr_left
        intro entry member
        unfold fillItem
        cases isEntry : idOf entry with
        | none =>
            rfl
        | some name =>
            apply fill_of_none
            intro later isLater
            apply List.eq_nil_iff_forall_not_mem.mpr
            intro inner isInner
            exact apart (path, entry) (mem_entriesAt.mp member) name isEntry
              (later, inner) (mem_entriesAt.mp isInner) isLater
      have each : ∀ item ∈ items,
          Reordered (fillItem (first ++ second) path item)
            (fillItem first path (fillItem second path item)) := by
        intro item member
        cases isElement : idOf item with
        | none =>
            unfold fillItem
            rw [isElement]
            dsimp only
            rw [isElement]
            exact .refl _
        | some name =>
            have isFilled : idOf (fillItem second path item) = some name := by
              rw [idOf_fillItem, isElement]
            rw [fillItem_of_idOf isElement, fillItem_of_idOf isFilled,
              fillItem_of_idOf isElement]
            exact inductionHypothesis item member _
      rw [fill_array, fill_array, fill_array, List.map_append, untouched,
        List.map_id, List.map_map, entriesAt_append, List.append_assoc]
      refine (Reordered.map each).trans (.perm ?_)
      exact List.perm_append_comm.append_left _
  | object fields inductionHypothesis =>
      rw [fill_object, fill_object, fill_object, List.map_map]
      apply Reordered.mapField
      intro field member
      exact inductionHypothesis field member _

end Frameleaf.JsonGraph
