import Frameleaf.Lib.JsonFill

namespace Frameleaf.JsonMerge

open Json JsonGraph

/-!
# Objects that are merged into others

What is merged wins, and what it leaves out stays.  Only objects are merged;
any other value replaces what was there, and arrays are replaced as a whole.
-/

mutual

/-- A value that is merged into what is there, if anything is. -/
def merge
    (base : Option Json) : Json → Json
  | .object next =>
      match base with
      | some (.object fields) =>
          .object (mergeFields fields next)
      | _ =>
          .object next
  | .null =>
      .null
  | .bool value =>
      .bool value
  | .number text =>
      .number text
  | .string text =>
      .string text
  | .array items =>
      .array items

/-- Fields that are set one by one, each merged into what is there. -/
def mergeFields
    (base : Fields) : Fields → Fields
  | [] =>
      base
  | (name, value) :: rest =>
      mergeFields
        (Fields.set name (merge (Fields.get? base name) value) base) rest

end

/-- Names are distinct in all objects of a value. -/
inductive Named : Json → Prop where
  | other
      {value : Json}
      (noObject : isObject value = false)
      (items : ∀ items, value = .array items → ∀ item ∈ items, Named item) :
      Named value
  | object
      {fields : Fields}
      (distinct : (fields.map Prod.fst).Nodup)
      (each : ∀ field ∈ fields, Named field.2) :
      Named (.object fields)

/-- The value at a path of names. -/
def valueAt : List String → Json → Option Json
  | [], value =>
      some value
  | name :: path, .object fields =>
      (Fields.get? fields name).bind (valueAt path)
  | _ :: _, _ =>
      none

/-- An object on a path of names leaves out the next name. -/
inductive Omits : Json → List String → Prop where
  | here
      {fields : Fields}
      {name : String}
      (missing : Fields.get? fields name = none)
      (path : List String) :
      Omits (.object fields) (name :: path)
  | inside
      {fields : Fields}
      {name : String}
      {value : Json}
      {path : List String}
      (found : Fields.get? fields name = some value)
      (omits : Omits value path) :
      Omits (.object fields) (name :: path)

/-- A field that was set holds its value. -/
@[simp] theorem get?_set_self
    (name : String)
    (value : Json)
    (fields : Fields) :
    Fields.get? (Fields.set name value fields) name = some value := by
  induction fields with
  | nil =>
      rw [Fields.set, get?_cons, if_pos rfl]
  | cons field rest inductionHypothesis =>
      obtain ⟨other, held⟩ := field
      rw [Fields.set]
      split
      · rw [get?_cons, if_pos rfl]
      · rename_i differs
        rw [get?_cons, if_neg differs]
        exact inductionHypothesis

variable {name other : String}

theorem get?_set_of_ne
    (differs : other ≠ name)
    (value : Json)
    (fields : Fields) :
    Fields.get? (Fields.set name value fields) other =
      Fields.get? fields other := by
  induction fields with
  | nil =>
      rw [Fields.set, get?_cons, if_neg differs.symm]
  | cons field rest inductionHypothesis =>
      obtain ⟨first, held⟩ := field
      rw [Fields.set]
      split
      · rename_i same
        rw [get?_cons, get?_cons, if_neg differs.symm,
          if_neg (same ▸ differs.symm)]
      · rw [get?_cons, get?_cons, inductionHypothesis]

variable {value held : Json}

theorem set_of_get?
    {fields : Fields}
    (held : Fields.get? fields name = some value) :
    Fields.set name value fields = fields := by
  induction fields with
  | nil =>
      exact nomatch held
  | cons field rest inductionHypothesis =>
      obtain ⟨other, first⟩ := field
      rw [get?_cons] at held
      rw [Fields.set]
      split
      · rename_i same
        rw [if_pos same] at held
        cases held
        rw [same]
      · rename_i differs
        rw [if_neg differs] at held
        rw [inductionHypothesis held]

/-- What is merged into nothing is as it is. -/
@[simp] theorem merge_none (value : Json) : merge none value = value := by
  cases value with
  | object fields =>
      rw [merge]
      nofun
  | null | bool | number | string | array =>
      rw [merge]

theorem merge_of_no_object
    (noObject : isObject value = false)
    (base : Option Json) :
    merge base value = value := by
  cases value with
  | object fields =>
      exact nomatch noObject
  | null | bool | number | string | array =>
      rw [merge]

theorem merge_into_no_object
    {base : Json}
    (noObject : isObject base = false)
    (value : Json) :
    merge (some base) value = value := by
  cases value with
  | object fields =>
      cases base with
      | object fields =>
          exact nomatch noObject
      | null | bool | number | string | array =>
          rw [merge]
          nofun
  | null | bool | number | string | array =>
      rw [merge]

theorem merge_objects
    (base next : Fields) :
    merge (some (.object base)) (.object next) =
      .object (mergeFields base next) := by
  rw [merge]

theorem get?_eq_none
    {fields : Fields}
    (missing : name ∉ fields.map Prod.fst) :
    Fields.get? fields name = none := by
  induction fields with
  | nil =>
      rfl
  | cons field rest inductionHypothesis =>
      rw [List.map_cons, List.mem_cons, not_or] at missing
      rw [get?_cons, if_neg (Ne.symm missing.1)]
      exact inductionHypothesis missing.2

variable {field : String × Json}

theorem get?_of_mem
    {fields : Fields}
    (distinct : (fields.map Prod.fst).Nodup)
    (member : field ∈ fields) :
    Fields.get? fields field.1 = some field.2 := by
  induction fields with
  | nil =>
      exact nomatch member
  | cons first rest inductionHypothesis =>
      obtain ⟨fresh, restDistinct⟩ := List.nodup_cons.mp distinct
      rw [get?_cons]
      rcases List.mem_cons.mp member with rfl | inRest
      · rw [if_pos rfl]
      · rw [if_neg, inductionHypothesis restDistinct inRest]
        intro same
        exact fresh (List.mem_map.mpr ⟨field, inRest, same.symm⟩)

theorem mem_of_get?
    {fields : Fields}
    (found : Fields.get? fields name = some value) :
    (name, value) ∈ fields := by
  obtain ⟨before, after, rfl, -⟩ := exists_of_get? found
  exact List.mem_append_right before List.mem_cons_self

/-- A field of the base, with what is merged into it. -/
def mergedInto
    (next : Fields)
    (field : String × Json) : String × Json :=
  (field.1,
    match Fields.get? next field.1 with
    | some value => merge (some field.2) value
    | none => field.2)

theorem set_of_missing
    {fields : Fields}
    (missing : Fields.get? fields name = none)
    (value : Json) :
    Fields.set name value fields = fields ++ [(name, value)] := by
  induction fields with
  | nil =>
      rfl
  | cons field rest inductionHypothesis =>
      rw [get?_cons] at missing
      split at missing
      · exact nomatch missing
      · rename_i differs
        obtain ⟨other, held⟩ := field
        rw [Fields.set, if_neg differs, inductionHypothesis missing]
        rfl

theorem set_of_held
    {fields : Fields}
    (distinct : (fields.map Prod.fst).Nodup)
    (found : Fields.get? fields name = some held)
    (value : Json) :
    Fields.set name value fields =
      fields.map fun field =>
        if field.1 = name then (name, value) else field := by
  induction fields with
  | nil =>
      exact nomatch found
  | cons field rest inductionHypothesis =>
      obtain ⟨fresh, restDistinct⟩ := List.nodup_cons.mp distinct
      obtain ⟨other, first⟩ := field
      rw [Fields.set, List.map_cons]
      split
      · rename_i same
        congr 1
        refine (List.map_id _).symm.trans (List.map_congr_left ?_)
        intro later member
        rw [if_neg]
        · rfl
        · intro again
          refine fresh (List.mem_map.mpr ⟨later, member, ?_⟩)
          exact again.trans same.symm
      · rename_i differs
        rw [get?_cons, if_neg differs] at found
        rw [inductionHypothesis restDistinct found]

variable {next base : Fields}

theorem mergedInto_of_missing
    (missing : Fields.get? next field.1 = none) :
    mergedInto next field = field := by
  rw [mergedInto, missing]

theorem mergedInto_cons_of_ne
    {first : String × Json}
    (differs : first.1 ≠ field.1) :
    mergedInto (first :: next) field = mergedInto next field := by
  rw [mergedInto, mergedInto, get?_cons, if_neg differs]

theorem names_set_of_held
    {fields : Fields}
    (found : Fields.get? fields name = some held)
    (value : Json) :
    (Fields.set name value fields).map Prod.fst = fields.map Prod.fst := by
  induction fields with
  | nil =>
      exact nomatch found
  | cons field rest inductionHypothesis =>
      obtain ⟨other, first⟩ := field
      rw [Fields.set]
      split
      · rename_i same
        rw [List.map_cons, List.map_cons, same]
      · rename_i differs
        rw [get?_cons, if_neg differs] at found
        rw [List.map_cons, List.map_cons, inductionHypothesis found]

theorem distinct_set
    {fields : Fields}
    (distinct : (fields.map Prod.fst).Nodup)
    (name : String)
    (value : Json) :
    ((Fields.set name value fields).map Prod.fst).Nodup := by
  cases found : Fields.get? fields name with
  | some held =>
      rw [names_set_of_held found]
      exact distinct
  | none =>
      rw [set_of_missing found, List.map_append]
      refine List.nodup_append'.mpr ⟨distinct, List.nodup_singleton _, ?_⟩
      intro other isOld isNew
      rw [List.map_singleton, List.mem_singleton] at isNew
      subst isNew
      obtain ⟨field, member, rfl⟩ := List.mem_map.mp isOld
      exact nomatch found.symm.trans (get?_of_mem distinct member)

/-- Merging keeps the fields of the base in their places, and puts the new ones
at the end. -/
theorem mergeFields_eq
    (baseDistinct : (base.map Prod.fst).Nodup)
    (nextDistinct : (next.map Prod.fst).Nodup) :
    mergeFields base next =
      base.map (mergedInto next) ++
        next.filter fun field => (Fields.get? base field.1).isNone := by
  induction next generalizing base with
  | nil =>
      rw [mergeFields, List.filter_nil, List.append_nil]
      refine (List.map_id _).symm.trans (List.map_congr_left fun field _ => ?_)
      exact (mergedInto_of_missing rfl).symm
  | cons first rest inductionHypothesis =>
      obtain ⟨name, value⟩ := first
      obtain ⟨fresh, restDistinct⟩ := List.nodup_cons.mp nextDistinct
      have notInRest : Fields.get? rest name = none := get?_eq_none fresh
      have otherNames : ∀ field ∈ rest, field.1 ≠ name := by
        intro field member same
        exact fresh (List.mem_map.mpr ⟨field, member, same⟩)
      rw [mergeFields,
        inductionHypothesis (distinct_set baseDistinct _ _) restDistinct]
      have sameFilter : (rest.filter fun field =>
          (Fields.get? (Fields.set name
            (merge (Fields.get? base name) value) base) field.1).isNone) =
          rest.filter fun field => (Fields.get? base field.1).isNone :=
        List.filter_congr fun field member => by
          rw [get?_set_of_ne (otherNames field member)]
      rw [sameFilter]
      cases found : Fields.get? base name with
      | none =>
          have noneNamed : ∀ field ∈ base, name ≠ field.1 := by
            rintro field member rfl
            exact nomatch found.symm.trans (get?_of_mem baseDistinct member)
          rw [set_of_missing found, List.map_append, List.map_singleton,
            mergedInto_of_missing notInRest, merge_none,
            List.filter_cons_of_pos (by rw [found]; rfl), List.append_assoc]
          congr 1
          refine List.map_congr_left fun field member => ?_
          rw [mergedInto_cons_of_ne (noneNamed field member)]
      | some held =>
          rw [set_of_held baseDistinct found, List.map_map,
            List.filter_cons_of_neg (by rw [found]; nofun)]
          congr 1
          refine List.map_congr_left fun field member => ?_
          rw [Function.comp_apply]
          split
          · rename_i same
            have isHeld := get?_of_mem baseDistinct member
            rw [same, found] at isHeld
            cases isHeld
            rw [mergedInto_of_missing notInRest, mergedInto, get?_cons,
              if_pos same.symm, ← same]
          · rename_i differs
            rw [mergedInto_cons_of_ne (Ne.symm differs)]

theorem get?_mergeFields
    (distinct : (next.map Prod.fst).Nodup)
    (base : Fields)
    (name : String) :
    Fields.get? (mergeFields base next) name =
      match Fields.get? next name with
      | some value => some (merge (Fields.get? base name) value)
      | none => Fields.get? base name := by
  induction next generalizing base with
  | nil =>
      rw [mergeFields]
      rfl
  | cons first rest inductionHypothesis =>
      obtain ⟨other, value⟩ := first
      obtain ⟨fresh, restDistinct⟩ := List.nodup_cons.mp distinct
      rw [mergeFields, inductionHypothesis restDistinct, get?_cons]
      by_cases same : other = name
      · subst same
        rw [get?_eq_none fresh, if_pos rfl]
        exact get?_set_self _ _ _
      · rw [if_neg same, get?_set_of_ne (Ne.symm same)]

theorem distinct_mergeFields
    (baseDistinct : (base.map Prod.fst).Nodup)
    (next : Fields) :
    ((mergeFields base next).map Prod.fst).Nodup := by
  induction next generalizing base with
  | nil =>
      rw [mergeFields]
      exact baseDistinct
  | cons first rest inductionHypothesis =>
      obtain ⟨name, value⟩ := first
      rw [mergeFields]
      exact inductionHypothesis (distinct_set baseDistinct _ _)

theorem Named.fields
    {fields : Fields}
    (named : Named (.object fields)) :
    (fields.map Prod.fst).Nodup ∧ ∀ field ∈ fields, Named field.2 := by
  cases named with
  | other noObject items =>
      exact nomatch noObject
  | object distinct each =>
      exact ⟨distinct, each⟩

theorem Named.items
    {items : List Json}
    (named : Named (.array items)) :
    ∀ item ∈ items, Named item := by
  cases named with
  | other noObject each =>
      exact each items rfl

theorem merge_self
    (named : Named value) :
    merge (some value) value = value := by
  induction named with
  | other noObject items _ =>
      exact merge_of_no_object noObject _
  | @object fields distinct each inductionHypothesis =>
      rw [merge_objects, mergeFields_eq distinct distinct]
      have noneNew : (fields.filter fun field =>
          (Fields.get? fields field.1).isNone) = [] := by
        refine List.filter_eq_nil_iff.mpr fun field member => ?_
        rw [get?_of_mem distinct member]
        nofun
      rw [noneNew, List.append_nil]
      congr 1
      refine (List.map_congr_left fun field member => ?_).trans (List.map_id _)
      rw [mergedInto, get?_of_mem distinct member]
      exact congrArg (Prod.mk field.1) (inductionHypothesis field member)

/-- Merging again changes nothing. -/
theorem merge_merge
    {next : Json}
    (nextNamed : Named next)
    {base : Json}
    (baseNamed : Named base) :
    merge (some base) (merge (some base) next) = merge (some base) next := by
  induction nextNamed generalizing base with
  | other noObject items _ =>
      rw [merge_of_no_object noObject, merge_of_no_object noObject]
  | @object next nextDistinct each inductionHypothesis =>
      cases baseNamed with
      | other noObject items =>
          rw [merge_into_no_object noObject, merge_into_no_object noObject]
      | @object base baseDistinct baseEach =>
          have sameOld : base.map (mergedInto (mergeFields base next)) =
              base.map (mergedInto next) := by
            refine List.map_congr_left fun field member => ?_
            have held := get?_of_mem baseDistinct member
            rw [mergedInto, mergedInto, get?_mergeFields nextDistinct, held]
            cases found : Fields.get? next field.1 with
            | none =>
                exact congrArg (Prod.mk field.1)
                  (merge_self (baseEach field member))
            | some value =>
                exact congrArg (Prod.mk field.1)
                  (inductionHypothesis _ (mem_of_get? found)
                    (baseEach field member))
          have sameNew : ((mergeFields base next).filter fun field =>
              (Fields.get? base field.1).isNone) =
              next.filter fun field => (Fields.get? base field.1).isNone := by
            rw [mergeFields_eq baseDistinct nextDistinct, List.filter_append,
              List.filter_filter]
            have noneOld : ((base.map (mergedInto next)).filter fun field =>
                (Fields.get? base field.1).isNone) = [] := by
              refine List.filter_eq_nil_iff.mpr fun merged member => ?_
              obtain ⟨field, isField, rfl⟩ := List.mem_map.mp member
              rw [mergedInto, get?_of_mem baseDistinct isField]
              nofun
            rw [noneOld, List.nil_append]
            exact List.filter_congr fun field _ => Bool.and_self _
          rw [merge_objects, merge_objects, mergeFields_eq baseDistinct
            (distinct_mergeFields baseDistinct next), sameOld, sameNew,
            ← mergeFields_eq baseDistinct nextDistinct]

/-- Merged values have distinct names. -/
theorem Named.merge
    {next : Json}
    (nextNamed : Named next)
    {base : Json}
    (baseNamed : Named base) :
    Named (JsonMerge.merge (some base) next) := by
  induction nextNamed generalizing base with
  | other noObject items _ =>
      rw [merge_of_no_object noObject]
      exact .other noObject items
  | @object next nextDistinct each inductionHypothesis =>
      cases baseNamed with
      | other noObject items =>
          rw [merge_into_no_object noObject]
          exact .object nextDistinct each
      | @object base baseDistinct baseEach =>
          rw [merge_objects]
          refine .object (distinct_mergeFields baseDistinct next) ?_
          intro merged member
          rw [mergeFields_eq baseDistinct nextDistinct] at member
          rcases List.mem_append.mp member with isOld | isNew
          · obtain ⟨field, isField, rfl⟩ := List.mem_map.mp isOld
            rw [mergedInto]
            dsimp only
            split
            · rename_i value found
              exact inductionHypothesis _ (mem_of_get? found)
                (baseEach field isField)
            · exact baseEach field isField
          · exact each merged (List.mem_filter.mp isNew).1

variable {path : List String}

theorem Omits.valueAt_eq_none
    (omits : Omits value path) :
    valueAt path value = none := by
  induction omits with
  | here missing path =>
      rw [valueAt, missing]
      rfl
  | inside found omits inductionHypothesis =>
      rw [valueAt, found]
      exact inductionHypothesis

/-- What is left out of what is merged stays at every path. -/
theorem Omits.valueAt_merge
    {next : Json}
    (omits : Omits next path)
    (nextNamed : Named next)
    (base : Json) :
    valueAt path (merge (some base) next) = valueAt path base := by
  induction omits generalizing base with
  | @here fields name missing path =>
      cases base with
      | object base =>
          rw [merge_objects, valueAt, valueAt,
            get?_mergeFields nextNamed.fields.1, missing]
      | null | bool | number | string | array =>
          rw [merge_into_no_object rfl, valueAt, missing]
          rfl
  | @inside fields name value path found omits inductionHypothesis =>
      obtain ⟨distinct, each⟩ := nextNamed.fields
      have valueNamed := each _ (mem_of_get? found)
      cases base with
      | object base =>
          rw [merge_objects, valueAt, valueAt, get?_mergeFields distinct,
            found]
          cases held : Fields.get? base name with
          | none =>
              dsimp only
              rw [merge_none]
              exact omits.valueAt_eq_none
          | some inner =>
              exact inductionHypothesis valueNamed inner
      | null | bool | number | string | array =>
          rw [merge_into_no_object rfl, valueAt, found]
          exact omits.valueAt_eq_none

/-- A value that is no object wins at every path. -/
theorem valueAt_merge_of_leaf
    {next leaf : Json}
    (nextNamed : Named next)
    (isLeaf : valueAt path next = some leaf)
    (noObject : isObject leaf = false)
    (base : Option Json) :
    valueAt path (merge base next) = some leaf := by
  induction path generalizing next base with
  | nil =>
      cases isLeaf
      rw [merge_of_no_object noObject]
      rfl
  | cons name path inductionHypothesis =>
      cases next with
      | object next =>
          obtain ⟨distinct, each⟩ := nextNamed.fields
          rw [valueAt] at isLeaf
          obtain ⟨value, found, inside⟩ := Option.bind_eq_some_iff.mp isLeaf
          have valueNamed := each _ (mem_of_get? found)
          have unmerged : valueAt (name :: path) (.object next) =
              some leaf := by
            rw [valueAt, found]
            exact inside
          cases base with
          | none =>
              rw [merge_none]
              exact unmerged
          | some base =>
              cases base with
              | object base =>
                  rw [merge_objects, valueAt, get?_mergeFields distinct, found]
                  exact inductionHypothesis valueNamed inside _
              | null | bool | number | string | array =>
                  rw [merge_into_no_object rfl]
                  exact unmerged
      | null | bool | number | string | array =>
          exact nomatch isLeaf

theorem set_set
    (name : String)
    (first second : Json)
    (fields : Fields) :
    Fields.set name second (Fields.set name first fields) =
      Fields.set name second fields := by
  induction fields with
  | nil =>
      simp only [Fields.set, if_true]
  | cons field rest inductionHypothesis =>
      obtain ⟨other, held⟩ := field
      by_cases same : other = name
      · rw [Fields.set, if_pos same, Fields.set, if_pos rfl, Fields.set,
          if_pos same]
      · rw [Fields.set, if_neg same, Fields.set, if_neg same, Fields.set,
          if_neg same, inductionHypothesis]

theorem set_comm
    (differs : other ≠ name)
    {fields : Fields}
    (found : Fields.get? fields name = some held)
    (value otherValue : Json) :
    Fields.set name value (Fields.set other otherValue fields) =
      Fields.set other otherValue (Fields.set name value fields) := by
  induction fields with
  | nil =>
      exact nomatch found
  | cons field rest inductionHypothesis =>
      obtain ⟨first, inner⟩ := field
      by_cases isName : first = name
      · subst isName
        rw [Fields.set, if_neg (Ne.symm differs), Fields.set, if_pos rfl,
          Fields.set, if_pos rfl, Fields.set, if_neg (Ne.symm differs)]
      · rw [get?_cons, if_neg isName] at found
        by_cases isOther : first = other
        · subst isOther
          rw [Fields.set, if_pos rfl, Fields.set, if_neg isName, Fields.set,
            if_neg isName, Fields.set, if_pos rfl]
        · rw [Fields.set, if_neg isOther, Fields.set, if_neg isName,
            Fields.set, if_neg isName, Fields.set, if_neg isOther,
            inductionHypothesis found]

theorem set_mergeFields_of_missing
    (found : Fields.get? base name = some held)
    (missing : name ∉ next.map Prod.fst)
    (value : Json) :
    Fields.set name value (mergeFields base next) =
      mergeFields (Fields.set name value base) next := by
  induction next generalizing base held with
  | nil =>
      rw [mergeFields, mergeFields]
  | cons first rest inductionHypothesis =>
      obtain ⟨other, inner⟩ := first
      rw [List.map_cons, List.mem_cons, not_or] at missing
      obtain ⟨differs, notInRest⟩ := missing
      rw [mergeFields, mergeFields, inductionHypothesis
        ((get?_set_of_ne differs _ _).trans found) notInRest,
        set_comm (Ne.symm differs) found, get?_set_of_ne (Ne.symm differs)]

theorem set_mergeFields
    {inner : Json}
    (isHeld : Fields.get? base name = some held)
    (isInner : Fields.get? next name = some inner)
    (distinct : (next.map Prod.fst).Nodup)
    (noObject : isObject value = false) :
    Fields.set name value (mergeFields base next) =
      mergeFields base (Fields.set name value next) := by
  induction next generalizing base held with
  | nil =>
      exact nomatch isInner
  | cons first rest inductionHypothesis =>
      obtain ⟨other, firstValue⟩ := first
      obtain ⟨fresh, restDistinct⟩ := List.nodup_cons.mp distinct
      by_cases same : other = name
      · subst same
        rw [mergeFields, set_mergeFields_of_missing (get?_set_self _ _ _) fresh,
          set_set, Fields.set, if_pos rfl, mergeFields,
          merge_of_no_object noObject]
      · rw [get?_cons, if_neg same] at isInner
        rw [mergeFields, Fields.set, if_neg same, mergeFields,
          inductionHypothesis ((get?_set_of_ne (Ne.symm same) _ _).trans isHeld)
            isInner restDistinct]

theorem mem_set
    {fields : Fields}
    (member : field ∈ Fields.set name value fields) :
    field = (name, value) ∨ field ∈ fields := by
  induction fields with
  | nil =>
      exact Or.inl (List.mem_singleton.mp member)
  | cons first rest inductionHypothesis =>
      obtain ⟨other, held⟩ := first
      rw [Fields.set] at member
      split at member
      · rcases List.mem_cons.mp member with isNew | inRest
        · exact Or.inl isNew
        · exact Or.inr (List.mem_cons_of_mem _ inRest)
      · rcases List.mem_cons.mp member with isFirst | inRest
        · exact Or.inr (List.mem_cons.mpr (Or.inl isFirst))
        · rcases inductionHypothesis inRest with isNew | wasThere
          · exact Or.inl isNew
          · exact Or.inr (List.mem_cons_of_mem _ wasThere)

end Frameleaf.JsonMerge
