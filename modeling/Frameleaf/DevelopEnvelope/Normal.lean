import Frameleaf.DevelopEnvelope.Masks

namespace Frameleaf.DevelopEnvelope

open Json JsonGraph JsonMerge

/-!
# Recipes that the check leaves as they are

Checking a checked recipe changes nothing.  Two checked recipes of one version
stay such a recipe when one is merged into the other.
-/

variable {source incoming recipe : Fields}

theorem get?_map_normalField
    (recipe : Fields)
    (name : String) :
    Fields.get? (recipe.map normalField) name =
      (Fields.get? recipe name).map fun value =>
        (normalField (name, value)).2 := by
  induction recipe with
  | nil =>
      rfl
  | cons field rest inductionHypothesis =>
      obtain ⟨other, value⟩ := field
      have kept : (normalField (other, value)).1 = other := rfl
      rw [List.map_cons, get?_cons, get?_cons, kept]
      by_cases same : other = name
      · subst same
        rw [if_pos rfl, if_pos rfl]
        rfl
      · rw [if_neg same, if_neg same]
        exact inductionHypothesis

theorem get?_version_normal
    (recipe : Fields) :
    Fields.get? (normal recipe) "version" = Fields.get? recipe "version" := by
  unfold normal
  split
  · rw [get?_map_normalField]
    cases Fields.get? recipe "version" with
    | none =>
        rfl
    | some value =>
        rfl
  · rfl

theorem normalPerspective_normalPerspective
    (value : Json) :
    normalPerspective (normalPerspective value) = normalPerspective value := by
  cases value with
  | object sides =>
      simp only [normalPerspective, get?_cons, String.reduceEq, if_true,
        if_false, Option.getD_some]
  | null | bool | number | string | array =>
      rfl

theorem normalKeyFrame_normalKeyFrame
    (value : Json) :
    normalKeyFrame (normalKeyFrame value) = normalKeyFrame value := by
  cases value with
  | object fields =>
      simp only [normalKeyFrame, List.filter_filter, Bool.and_self]
  | null | bool | number | string | array =>
      rfl

theorem normalField_normalField
    (field : String × Json) :
    normalField (normalField field) = normalField field := by
  obtain ⟨name, value⟩ := field
  simp only [normalField]
  congr 1
  split
  · exact normalPerspective_normalPerspective value
  · split
    · exact normalKeyFrame_normalKeyFrame value
    · rfl

theorem normal_eq_self_iff :
    normal recipe = recipe ↔
      (IsFirstVersion recipe → ∀ field ∈ recipe, normalField field = field) := by
  unfold normal
  split
  · rename_i first
    constructor
    · intro same _
      exact List.map_inj_left.mp (same.trans (List.map_id recipe).symm)
    · intro each
      exact (List.map_congr_left (each first)).trans (List.map_id recipe)
  · rename_i later
    exact ⟨fun _ first => absurd first later, fun _ => rfl⟩

theorem normal_normal
    (recipe : Fields) :
    normal (normal recipe) = normal recipe := by
  refine normal_eq_self_iff.mpr fun first field member => ?_
  have wasFirst : IsFirstVersion recipe := by
    rwa [IsFirstVersion, get?_version_normal] at first
  rw [normal, if_pos wasFirst] at member
  obtain ⟨old, -, rfl⟩ := List.mem_map.mp member
  exact normalField_normalField old

variable {base next : Json}

theorem normalPerspective_merge
    (baseNormal : normalPerspective base = base)
    (nextNormal : normalPerspective next = next) :
    normalPerspective (merge (some base) next) = merge (some base) next := by
  cases isMap : isObject next with
  | false =>
      rw [merge_of_no_object isMap]
      exact nextNormal
  | true =>
      cases base with
      | object sides =>
          cases next with
          | object nextSides =>
              rw [← baseNormal, ← nextNormal, normalPerspective,
                normalPerspective, merge_objects]
              simp only [mergeFields, Fields.set, get?_cons, String.reduceEq,
                if_true, if_false, normalPerspective, Option.getD_some]
          | null | bool | number | string | array =>
              cases isMap
      | null | bool | number | string | array =>
          rw [merge_into_no_object rfl]
          exact nextNormal

theorem name_of_mem_mergeFields
    {base next : Fields}
    {field : String × Json}
    (member : field ∈ mergeFields base next) :
    field.1 ∈ base.map Prod.fst ∨ field.1 ∈ next.map Prod.fst := by
  induction next generalizing base with
  | nil =>
      rw [mergeFields] at member
      exact Or.inl (List.mem_map_of_mem member)
  | cons first rest inductionHypothesis =>
      obtain ⟨name, value⟩ := first
      rw [mergeFields] at member
      rw [List.map_cons]
      rcases inductionHypothesis member with inBase | inRest
      · obtain ⟨old, isOld, same⟩ := List.mem_map.mp inBase
        rcases mem_set isOld with rfl | wasThere
        · exact Or.inr (List.mem_cons.mpr (Or.inl same.symm))
        · exact Or.inl (same ▸ List.mem_map_of_mem wasThere)
      · exact Or.inr (List.mem_cons_of_mem _ inRest)

theorem normalKeyFrame_object_iff
    {fields : Fields} :
    normalKeyFrame (.object fields) = .object fields ↔
      ∀ name ∈ fields.map Prod.fst, name = "timeMs" := by
  rw [normalKeyFrame, Json.object.injEq, List.filter_eq_self]
  simp only [decide_eq_true_eq]
  exact (List.forall_mem_map
    (f := Prod.fst) (P := fun name : String => name = "timeMs")).symm

theorem normalKeyFrame_merge
    (baseNormal : normalKeyFrame base = base)
    (nextNormal : normalKeyFrame next = next) :
    normalKeyFrame (merge (some base) next) = merge (some base) next := by
  cases isMap : isObject next with
  | false =>
      rw [merge_of_no_object isMap]
      exact nextNormal
  | true =>
      cases base with
      | object fields =>
          cases next with
          | object nextFields =>
              rw [merge_objects, normalKeyFrame_object_iff]
              intro name named
              obtain ⟨field, member, rfl⟩ := List.mem_map.mp named
              rcases name_of_mem_mergeFields member with inBase | inNext
              · exact normalKeyFrame_object_iff.mp baseNormal _ inBase
              · exact normalKeyFrame_object_iff.mp nextNormal _ inNext
          | null | bool | number | string | array =>
              exact nomatch isMap
      | null | bool | number | string | array =>
          rw [merge_into_no_object rfl]
          exact nextNormal

theorem normalField_merge
    {name : String}
    (baseNormal : normalField (name, base) = (name, base))
    (nextNormal : normalField (name, next) = (name, next)) :
    normalField (name, merge (some base) next) =
      (name, merge (some base) next) := by
  simp only [normalField, Prod.mk.injEq, true_and] at *
  split
  · rename_i isPerspective
    rw [if_pos isPerspective] at baseNormal nextNormal
    exact normalPerspective_merge baseNormal nextNormal
  · rename_i noPerspective
    rw [if_neg noPerspective] at baseNormal nextNormal
    split
    · rename_i isKeyFrame
      rw [if_pos isKeyFrame] at baseNormal nextNormal
      exact normalKeyFrame_merge baseNormal nextNormal
    · rfl

theorem get?_version_mergeFields
    (distinct : (incoming.map Prod.fst).Nodup)
    (named : ∀ field ∈ source, Named field.2)
    (same : Fields.get? source "version" = Fields.get? incoming "version") :
    Fields.get? (mergeFields source incoming) "version" =
      Fields.get? source "version" := by
  rw [get?_mergeFields distinct, ← same]
  cases found : Fields.get? source "version" with
  | none =>
      rfl
  | some value =>
      dsimp only
      rw [merge_self (named _ (mem_of_get? found))]

theorem normal_mergeFields
    (sourceNamed : Named (.object source))
    (incomingNamed : Named (.object incoming))
    (sourceNormal : normal source = source)
    (incomingNormal : normal incoming = incoming)
    (same : Fields.get? source "version" = Fields.get? incoming "version") :
    normal (mergeFields source incoming) = mergeFields source incoming := by
  obtain ⟨sourceDistinct, sourceEach⟩ := sourceNamed.fields
  obtain ⟨incomingDistinct, -⟩ := incomingNamed.fields
  refine normal_eq_self_iff.mpr fun first field member => ?_
  rw [IsFirstVersion, get?_version_mergeFields incomingDistinct sourceEach same]
    at first
  have ofSource := normal_eq_self_iff.mp sourceNormal first
  have ofIncoming :=
    normal_eq_self_iff.mp incomingNormal (same.symm.trans first)
  rw [mergeFields_eq sourceDistinct incomingDistinct] at member
  rcases List.mem_append.mp member with isOld | isNew
  · obtain ⟨⟨name, base⟩, inSource, rfl⟩ := List.mem_map.mp isOld
    rw [mergedInto]
    dsimp only
    split
    · rename_i next found
      exact normalField_merge (ofSource _ inSource)
        (ofIncoming _ (mem_of_get? found))
    · exact ofSource _ inSource
  · exact ofIncoming field (List.mem_filter.mp isNew).1

theorem normal_set_masks
    (isNormal : normal recipe = recipe)
    (masks : Json) :
    normal (Fields.set "masks" masks recipe) =
      Fields.set "masks" masks recipe := by
  refine normal_eq_self_iff.mpr fun first field member => ?_
  rw [IsFirstVersion, get?_set_of_ne (by decide)] at first
  rcases mem_set member with rfl | wasThere
  · rfl
  · exact normal_eq_self_iff.mp isNormal first field wasThere

end Frameleaf.DevelopEnvelope
