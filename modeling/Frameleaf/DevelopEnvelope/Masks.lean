import Frameleaf.Lib.JsonMerge
import Mathlib.Data.List.DropRight

namespace Frameleaf.DevelopEnvelope

open Json JsonGraph JsonMerge

/-!
# Recipes that keep what an editor does not know

A recipe is saved over another one: what the editor left out is kept from
there.  Which recipes are valid is checked elsewhere, here it is any test.
-/

/-- Why a recipe was refused. -/
inductive Refusal where
  | versions
  | ambiguousMasks
  | invalid
  deriving DecidableEq

/-- Characters that are trimmed. -/
def isSpace (character : Char) : Bool :=
  let point := character.toNat
  (9 ≤ point && point ≤ 13) || point == 0x20 || point == 0xA0 ||
    point == 0x1680 || (0x2000 ≤ point && point ≤ 0x200A) ||
    point == 0x2028 || point == 0x2029 || point == 0x202F ||
    point == 0x205F || point == 0x3000 || point == 0xFEFF

/-- A text without the spaces around it. -/
def trim (text : String) : String :=
  String.ofList ((text.toList.dropWhile isSpace).rdropWhile isSpace)

/-- The kinds of masks that the editor knows. -/
def maskKinds : List String :=
  ["radial", "linear", "brush", "subject", "sky", "background"]

/-- A recipe of the first version. -/
def IsFirstVersion (recipe : Fields) : Prop :=
  Fields.get? recipe "version" = some (.number "1")

instance (recipe : Fields) : Decidable (IsFirstVersion recipe) :=
  inferInstanceAs (Decidable (_ = _))

/-- A perspective has its two sides and nothing else. -/
def normalPerspective : Json → Json
  | .object sides =>
      .object
        [("vertical", (Fields.get? sides "vertical").getD (.number "0")),
          ("horizontal",
            (Fields.get? sides "horizontal").getD (.number "0"))]
  | value =>
      value

/-- A key frame has its time and nothing else. -/
def normalKeyFrame : Json → Json
  | .object fields =>
      .object (fields.filter fun field => field.1 = "timeMs")
  | value =>
      value

/-- A field of the first version as the check leaves it. -/
def normalField
    (field : String × Json) : String × Json :=
  (field.1,
    if field.1 = "perspective" then
      normalPerspective field.2
    else if field.1 = "keyFrame" then
      normalKeyFrame field.2
    else
      field.2)

/-- A recipe as the check leaves it. -/
def normal (recipe : Fields) : Fields :=
  if IsFirstVersion recipe then
    recipe.map normalField
  else
    recipe

variable (isValid : Fields → Bool)

/-- A checked copy of a recipe. -/
def developEnvelope
    (recipe : Fields) : Except Refusal Fields :=
  if isValid recipe then
    .ok (normal recipe)
  else
    .error .invalid

/-- The masks of a recipe, if they are a list. -/
def masksOf (recipe : Fields) : Option (List Json) :=
  match Fields.get? recipe "masks" with
  | some (.array masks) =>
      some masks
  | _ =>
      none

/-- The identifier of a mask, if it is a text. -/
def maskId : Json → Option String
  | .object mask =>
      match Fields.get? mask "id" with
      | some (.string id) =>
          some (trim id)
      | _ =>
          none
  | _ =>
      none

/-- Whether the kind of a mask is one that the editor knows. -/
def hasKnownKind : Json → Bool
  | .object mask =>
      match Fields.get? mask "kind" with
      | some (.string kind) =>
          kind ∈ maskKinds
      | _ =>
          false
  | _ =>
      false

/-- The versions whose masks are those of the editor. -/
def HasEditorMasks (recipe : Fields) : Prop :=
  ∃ version ∈ ["1", "3", "4", "5", "6"],
    Fields.get? recipe "version" = some (.number version)

instance (recipe : Fields) : Decidable (HasEditorMasks recipe) :=
  inferInstanceAs (Decidable (∃ version ∈ _, _ = _))

/-- Some mask has no identifier, or two have the same. -/
def IsAmbiguous (masks : List Json) : Prop :=
  (∃ mask ∈ masks, (maskId mask).getD "" = "") ∨ ¬(masks.map maskId).Nodup

instance (masks : List Json) : Decidable (IsAmbiguous masks) :=
  inferInstanceAs (Decidable (_ ∨ _))

/-- The mask of a list that a mask replaces. -/
def oldMask
    (source : List Json)
    (mask : Json) : Option Json :=
  source.find? fun item => (maskId item).isSome ∧ maskId item = maskId mask

/-- A mask that is merged into the one that it replaces. -/
def mergeMask
    (source : List Json)
    (mask : Json) : Json :=
  if isObject mask then
    merge (oldMask source mask) mask
  else
    mask

/-- The masks of a list that the editor does not know and has left out. -/
def keptMasks
    (source incoming : List Json) : List Json :=
  source.filter fun mask =>
    ¬hasKnownKind mask ∧ maskId mask ∉ incoming.map maskId

/-- A recipe that is saved over a source. -/
def preserveDevelopEnvelope
    (source incoming : Fields) : Except Refusal Fields :=
  if Fields.get? source "version" ≠ Fields.get? incoming "version" then
    .error .versions
  else
    let result := mergeFields source incoming
    match masksOf incoming, masksOf source with
    | some incomingMasks, some sourceMasks =>
        if HasEditorMasks source ∧
            (IsAmbiguous sourceMasks ∨ IsAmbiguous incomingMasks) then
          .error .ambiguousMasks
        else
          let masks := incomingMasks.map (mergeMask sourceMasks)
          let kept :=
            if HasEditorMasks source then
              keptMasks sourceMasks incomingMasks
            else
              []
          developEnvelope isValid
            (Fields.set "masks" (.array (masks ++ kept)) result)
    | _, _ =>
        developEnvelope isValid result

open Json JsonGraph JsonMerge

/-!
## Masks that are merged by their identifiers

A mask keeps its identifier when it is merged, and merging it again changes
nothing.  Where identifiers are distinct, every mask replaces itself.
-/

variable {source incoming : List Json}

variable {mask : Json}

theorem oldMask_eq_some
    {old : Json}
    (found : oldMask source mask = some old) :
    old ∈ source ∧ (maskId mask).isSome ∧ maskId old = maskId mask := by
  unfold oldMask at found
  have fits := List.find?_some found
  obtain ⟨hasId, same⟩ := of_decide_eq_true fits
  exact ⟨List.mem_of_find?_eq_some found, same ▸ hasId, same⟩

theorem isObject_of_maskId
    (hasId : (maskId mask).isSome) :
    isObject mask := by
  cases mask with
  | object fields =>
      rfl
  | null | bool | number | string | array =>
      exact nomatch hasId

theorem maskId_merge
    (named : Named mask)
    (hasId : (maskId mask).isSome)
    (base : Option Json) :
    maskId (merge base mask) = maskId mask := by
  cases mask with
  | object fields =>
      cases base with
      | none =>
          rw [merge_none]
      | some base =>
          cases base with
          | object base =>
              rw [maskId] at hasId
              split at hasId
              · rename_i id found
                rw [merge_objects, maskId, maskId,
                  get?_mergeFields named.fields.1, found]
                dsimp only
                rw [merge_of_no_object rfl]
              · exact nomatch hasId
          | null | bool | number | string | array =>
              rw [merge_into_no_object rfl]
  | null | bool | number | string | array =>
      exact nomatch hasId

theorem maskId_mergeMask
    (source : List Json)
    (named : Named mask) :
    maskId (mergeMask source mask) = maskId mask := by
  unfold mergeMask
  split
  · cases found : oldMask source mask with
    | none =>
        rw [merge_none]
    | some old =>
        exact maskId_merge named (oldMask_eq_some found).2.1 _
  · rfl

theorem oldMask_congr
    {first second : Json}
    (same : maskId first = maskId second) :
    oldMask source first = oldMask source second := by
  unfold oldMask
  rw [same]

theorem mergeMask_mergeMask
    (sourceNamed : ∀ mask ∈ source, Named mask)
    (named : Named mask) :
    mergeMask source (mergeMask source mask) = mergeMask source mask := by
  have again : oldMask source (mergeMask source mask) =
      oldMask source mask := oldMask_congr (maskId_mergeMask source named)
  cases isMask : isObject mask with
  | false =>
      have unmerged : mergeMask source mask = mask := by
        rw [mergeMask, isMask]
        rfl
      rw [unmerged, unmerged]
  | true =>
      have merged : mergeMask source mask =
          merge (oldMask source mask) mask := by
        rw [mergeMask, if_pos isMask]
      cases found : oldMask source mask with
      | none =>
          rw [found, merge_none] at merged
          rw [merged, merged]
      | some old =>
          obtain ⟨isOld, hasId, -⟩ := oldMask_eq_some found
          have stillMask : isObject (mergeMask source mask) :=
            isObject_of_maskId (by rwa [maskId_mergeMask source named])
          rw [mergeMask, if_pos stillMask, again, merged, found]
          exact merge_merge named (sourceNamed old isOld)

theorem oldMask_self
    (distinct : (source.filterMap maskId).Nodup)
    (member : mask ∈ source)
    (hasId : (maskId mask).isSome) :
    oldMask source mask = some mask := by
  induction source with
  | nil =>
      exact nomatch member
  | cons first rest inductionHypothesis =>
      unfold oldMask
      rw [List.find?_cons]
      by_cases fits : (maskId first).isSome ∧ maskId first = maskId mask
      · rw [decide_eq_true fits]
        rcases List.mem_cons.mp member with rfl | inRest
        · rfl
        · obtain ⟨id, isId⟩ := Option.isSome_iff_exists.mp hasId
          rw [List.filterMap_cons, fits.2, isId] at distinct
          exact absurd (List.mem_filterMap.mpr ⟨mask, inRest, isId⟩)
            (List.nodup_cons.mp distinct).1
      · rw [decide_eq_false fits]
        have restDistinct : (rest.filterMap maskId).Nodup := by
          rw [List.filterMap_cons] at distinct
          split at distinct
          · exact distinct
          · exact (List.nodup_cons.mp distinct).2
        rcases List.mem_cons.mp member with rfl | inRest
        · exact absurd ⟨hasId, rfl⟩ fits
        · exact inductionHypothesis restDistinct inRest

theorem mergeMask_self
    (sourceNamed : ∀ mask ∈ source, Named mask)
    (distinct : (source.filterMap maskId).Nodup)
    (member : mask ∈ source) :
    mergeMask source mask = mask := by
  unfold mergeMask
  split
  · cases hasId : maskId mask with
    | none =>
        have noOld : oldMask source mask = none := by
          cases found : oldMask source mask with
          | none =>
              rfl
          | some old =>
              have := (oldMask_eq_some found).2.1
              rw [hasId] at this
              exact nomatch this
        rw [noOld, merge_none]
    | some id =>
        rw [oldMask_self distinct member (by rw [hasId]; rfl)]
        exact merge_self (sourceNamed mask member)
  · rfl

theorem distinct_of_unambiguous
    (unambiguous : ¬IsAmbiguous source) :
    (source.filterMap maskId).Nodup := by
  obtain ⟨-, distinct⟩ := not_or.mp unambiguous
  have asIds : source.filterMap maskId =
      (source.map maskId).filterMap id := by
    rw [List.filterMap_map]
    rfl
  rw [asIds]
  refine List.Nodup.filterMap ?_ (not_not.mp distinct)
  intro first second id isFirst isSecond
  exact isFirst.trans isSecond.symm

/-- The masks of a recipe after it was merged; those that are unknown to the
editor are kept where the masks are the editor's. -/
def mergedMasks
    (isEditors : Bool)
    (source incoming : List Json) : List Json :=
  incoming.map (mergeMask source) ++
    if isEditors then keptMasks source incoming else []

theorem named_mergeMask
    (sourceNamed : ∀ mask ∈ source, Named mask)
    (named : Named mask) :
    Named (mergeMask source mask) := by
  unfold mergeMask
  split
  · cases found : oldMask source mask with
    | none =>
        rw [merge_none]
        exact named
    | some old =>
        exact named.merge (sourceNamed old (oldMask_eq_some found).1)
  · exact named

theorem mem_keptMasks :
    mask ∈ keptMasks source incoming ↔
      mask ∈ source ∧ hasKnownKind mask = false ∧
        maskId mask ∉ incoming.map maskId := by
  rw [keptMasks, List.mem_filter, decide_eq_true_iff,
    Bool.not_eq_true]

theorem named_mergedMasks
    {isEditors : Bool}
    (sourceNamed : ∀ mask ∈ source, Named mask)
    (named : ∀ mask ∈ incoming, Named mask)
    (member : mask ∈ mergedMasks isEditors source incoming) :
    Named mask := by
  rcases List.mem_append.mp member with isMerged | isKept
  · obtain ⟨old, inIncoming, rfl⟩ := List.mem_map.mp isMerged
    exact named_mergeMask sourceNamed (named old inIncoming)
  · split at isKept
    · exact sourceNamed mask (mem_keptMasks.mp isKept).1
    · exact nomatch isKept

theorem map_maskId_mergedMasks
    (isEditors : Bool)
    (source : List Json)
    (named : ∀ mask ∈ incoming, Named mask) :
    (mergedMasks isEditors source incoming).map maskId =
      incoming.map maskId ++
        if isEditors then (keptMasks source incoming).map maskId else [] := by
  rw [mergedMasks, List.map_append, List.map_map]
  congr 1
  · exact List.map_congr_left fun mask member =>
      maskId_mergeMask source (named mask member)
  · cases isEditors <;> rfl

theorem mergedMasks_again
    {isEditors : Bool}
    (sourceNamed : ∀ mask ∈ source, Named mask)
    (named : ∀ mask ∈ incoming, Named mask)
    (distinct : isEditors = true → (source.filterMap maskId).Nodup) :
    mergedMasks isEditors source (mergedMasks isEditors source incoming) =
      mergedMasks isEditors source incoming := by
  have mapped : (incoming.map (mergeMask source)).map (mergeMask source) =
      incoming.map (mergeMask source) := by
    rw [List.map_map]
    exact List.map_congr_left fun mask member =>
      mergeMask_mergeMask sourceNamed (named mask member)
  cases isEditors with
  | false =>
      simp only [mergedMasks, Bool.false_eq_true, if_false, List.append_nil]
      exact mapped
  | true =>
      have keptSame : (keptMasks source incoming).map (mergeMask source) =
          keptMasks source incoming := by
        refine (List.map_congr_left fun mask member => ?_).trans
          (List.map_id _)
        exact mergeMask_self sourceNamed (distinct rfl)
          (mem_keptMasks.mp member).1
      have noneKept : keptMasks source (mergedMasks true source incoming) =
          [] := by
        refine List.eq_nil_iff_forall_not_mem.mpr fun mask member => ?_
        obtain ⟨inSource, unknown, absent⟩ := mem_keptMasks.mp member
        rw [map_maskId_mergedMasks true source named, if_pos rfl,
          List.mem_append, not_or] at absent
        exact absent.2 (List.mem_map_of_mem
          (mem_keptMasks.mpr ⟨inSource, unknown, absent.1⟩))
      conv_lhs => rw [mergedMasks]
      rw [noneKept, if_pos rfl, List.append_nil]
      rw [mergedMasks, if_pos rfl, List.map_append, mapped, keptSame]

theorem mergedMasks_self
    (isEditors : Bool)
    (sourceNamed : ∀ mask ∈ source, Named mask)
    (distinct : (source.filterMap maskId).Nodup) :
    mergedMasks isEditors source source = source := by
  have mapped : source.map (mergeMask source) = source :=
    (List.map_congr_left fun mask member =>
      mergeMask_self sourceNamed distinct member).trans (List.map_id _)
  have noneKept : keptMasks source source = [] :=
    List.eq_nil_iff_forall_not_mem.mpr fun mask member =>
      (mem_keptMasks.mp member).2.2
        (List.mem_map_of_mem (mem_keptMasks.mp member).1)
  rw [mergedMasks, mapped, noneKept]
  cases isEditors with
  | false | true =>
      exact List.append_nil _

theorem unambiguous_mergedMasks
    (named : ∀ mask ∈ incoming, Named mask)
    (sourceClear : ¬IsAmbiguous source)
    (clear : ¬IsAmbiguous incoming) :
    ¬IsAmbiguous (mergedMasks true source incoming) := by
  obtain ⟨sourceIds, sourceDistinct⟩ := not_or.mp sourceClear
  obtain ⟨ids, distinct⟩ := not_or.mp clear
  have idsOf := map_maskId_mergedMasks true source named
  rw [if_pos rfl] at idsOf
  refine not_or.mpr ⟨?_, not_not.mpr ?_⟩
  · rintro ⟨mask, member, blank⟩
    have isId : maskId mask ∈ (mergedMasks true source incoming).map maskId :=
      List.mem_map_of_mem member
    rw [idsOf] at isId
    rcases List.mem_append.mp isId with isOld | isKept
    · obtain ⟨other, inIncoming, same⟩ := List.mem_map.mp isOld
      exact ids ⟨other, inIncoming, by rw [same]; exact blank⟩
    · obtain ⟨other, inKept, same⟩ := List.mem_map.mp isKept
      exact sourceIds ⟨other, (mem_keptMasks.mp inKept).1, by
        rw [same]; exact blank⟩
  · rw [idsOf]
    refine List.nodup_append'.mpr ⟨not_not.mp distinct, ?_, ?_⟩
    · exact (not_not.mp sourceDistinct).sublist
        (List.filter_sublist.map maskId)
    · intro id inIncoming inKept
      obtain ⟨mask, isKept, rfl⟩ := List.mem_map.mp inKept
      exact (mem_keptMasks.mp isKept).2.2 inIncoming

end Frameleaf.DevelopEnvelope
