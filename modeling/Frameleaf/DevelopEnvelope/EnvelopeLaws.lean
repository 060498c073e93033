import Frameleaf.DevelopEnvelope.Normal

namespace Frameleaf.DevelopEnvelope

open Json JsonGraph JsonMerge

/-!
# What is kept of a recipe that is saved over

What the editor left out stays, what it sent wins.  Masks are matched by their
identifiers; those that the editor does not know are kept where the masks are
the editor's own.
-/

/-- A recipe that was checked. -/
structure Envelope
    (isValid : Fields → Bool) where
  /-- Its fields. -/
  fields : Fields
  /-- Names are distinct in all its objects. -/
  named : Named (.object fields)
  /-- It is a checked copy. -/
  checked : ∃ before, developEnvelope isValid before = .ok fields

/-- The identifiers of the masks tell them apart; where the masks are the
editor's, every mask has one. -/
def HasClearMasks (recipe : Fields) : Prop :=
  ∀ masks, masksOf recipe = some masks →
    (masks.filterMap maskId).Nodup ∧
      (HasEditorMasks recipe → ¬IsAmbiguous masks)

/-- A recipe that is merged into a source, before the last check. -/
def merged
    (source incoming : Fields) : Fields :=
  match masksOf source, masksOf incoming with
  | some sourceMasks, some incomingMasks =>
      Fields.set "masks"
        (.array (mergedMasks (HasEditorMasks source) sourceMasks incomingMasks))
        (mergeFields source incoming)
  | _, _ =>
      mergeFields source incoming

/-- Both recipes list the editor's masks, and some list is ambiguous. -/
def HasAmbiguousMasks
    (source incoming : Fields) : Prop :=
  ∃ sourceMasks incomingMasks,
    masksOf source = some sourceMasks ∧
      masksOf incoming = some incomingMasks ∧ HasEditorMasks source ∧
        (IsAmbiguous sourceMasks ∨ IsAmbiguous incomingMasks)

variable {isValid : Fields → Bool}

variable {source incoming result recipe : Fields}

theorem preserveDevelopEnvelope_eq
    (same : Fields.get? source "version" = Fields.get? incoming "version")
    (clear : ¬HasAmbiguousMasks source incoming) :
    preserveDevelopEnvelope isValid source incoming =
      developEnvelope isValid (merged source incoming) := by
  rw [preserveDevelopEnvelope, if_neg (not_not.mpr same)]
  unfold merged
  cases sourceMasks : masksOf source with
  | none =>
      cases masksOf incoming with
      | none | some masks =>
          rfl
  | some old =>
      cases incomingMasks : masksOf incoming with
      | none =>
          rfl
      | some new =>
          dsimp only
          rw [if_neg fun ambiguous => clear
            ⟨old, new, sourceMasks, incomingMasks, ambiguous⟩]
          simp only [mergedMasks, decide_eq_true_eq]

theorem preserveDevelopEnvelope_eq_ok :
    preserveDevelopEnvelope isValid source incoming = .ok result ↔
      Fields.get? source "version" = Fields.get? incoming "version" ∧
        ¬HasAmbiguousMasks source incoming ∧
          isValid (merged source incoming) ∧
            normal (merged source incoming) = result := by
  by_cases same :
    Fields.get? source "version" = Fields.get? incoming "version"
  · by_cases ambiguous : HasAmbiguousMasks source incoming
    · obtain ⟨old, new, sourceMasks, incomingMasks, isAmbiguous⟩ := ambiguous
      constructor
      · intro saved
        rw [preserveDevelopEnvelope, if_neg (not_not.mpr same), sourceMasks,
          incomingMasks] at saved
        dsimp only at saved
        rw [if_pos isAmbiguous] at saved
        exact nomatch saved
      · rintro ⟨-, clear, -⟩
        exact absurd ⟨old, new, sourceMasks, incomingMasks, isAmbiguous⟩ clear
    · rw [preserveDevelopEnvelope_eq same ambiguous, developEnvelope]
      split
      · rename_i valid
        rw [Except.ok.injEq]
        exact ⟨fun isResult => ⟨same, ambiguous, valid, isResult⟩,
          fun saved => saved.2.2.2⟩
      · rename_i invalid
        exact ⟨(nomatch ·), fun saved => absurd saved.2.2.1 invalid⟩
  · rw [preserveDevelopEnvelope, if_pos same]
    exact ⟨(nomatch ·), fun saved => absurd saved.1 same⟩

theorem Envelope.isNormal
    (recipe : Envelope isValid) :
    normal recipe.fields = recipe.fields := by
  obtain ⟨before, checked⟩ := recipe.checked
  unfold developEnvelope at checked
  split at checked
  · rw [← Except.ok.inj checked]
    exact normal_normal before
  · exact nomatch checked

variable {masks sourceMasks : List Json}

theorem Envelope.masks_named
    (recipe : Envelope isValid)
    (isMasks : masksOf recipe.fields = some masks) :
    ∀ mask ∈ masks, Named mask := by
  unfold masksOf at isMasks
  split at isMasks
  · rename_i found
    cases isMasks
    exact (recipe.named.fields.2 _ (mem_of_get? found)).items
  · exact nomatch isMasks

theorem masksOf_eq_some :
    masksOf recipe = some masks ↔
      Fields.get? recipe "masks" = some (.array masks) := by
  unfold masksOf
  split
  · rename_i found
    rw [found]
    simp only [Option.some.injEq, Json.array.injEq]
  · rename_i noList
    exact ⟨(nomatch ·), fun found => absurd found (noList _)⟩

theorem merged_eq_mergeFields
    (source incoming : Envelope isValid) :
    ∃ next : Fields, Named (.object next) ∧
      merged source.fields incoming.fields = mergeFields source.fields next ∧
        (masksOf source.fields = none ∨ masksOf incoming.fields = none →
          next = incoming.fields) := by
  unfold merged
  cases sourceMasks : masksOf source.fields with
  | none =>
      cases masksOf incoming.fields with
      | none | some masks =>
          exact ⟨incoming.fields, incoming.named, rfl, fun _ => rfl⟩
  | some old =>
      cases incomingMasks : masksOf incoming.fields with
      | none =>
          exact ⟨incoming.fields, incoming.named, rfl, fun _ => rfl⟩
      | some new =>
          have held := masksOf_eq_some.mp sourceMasks
          have inner := masksOf_eq_some.mp incomingMasks
          obtain ⟨distinct, each⟩ := incoming.named.fields
          refine ⟨_, ?_, set_mergeFields held inner distinct rfl,
            fun noMasks => ?_⟩
          · refine .object (distinct_set distinct _ _) fun field member => ?_
            rcases mem_set member with rfl | wasThere
            · refine .other rfl fun items same => ?_
              rw [← Json.array.inj same]
              exact fun mask => named_mergedMasks (source.masks_named sourceMasks)
                (incoming.masks_named incomingMasks)
            · exact each field wasThere
          · rcases noMasks with noMasks | noMasks
            · exact nomatch noMasks
            · exact nomatch noMasks

theorem masksOf_merged
    {incomingMasks : List Json}
    (isSource : masksOf source = some sourceMasks)
    (isIncoming : masksOf incoming = some incomingMasks) :
    masksOf (merged source incoming) =
      some (mergedMasks (HasEditorMasks source) sourceMasks incomingMasks) := by
  unfold merged
  rw [isSource, isIncoming]
  exact masksOf_eq_some.mpr (get?_set_self _ _ _)

theorem masksOf_merged_of_none
    (source incoming : Envelope isValid)
    (noMasks : masksOf source.fields = none ∨ masksOf incoming.fields = none)
    (isMerged : masksOf (merged source.fields incoming.fields) = some masks) :
    masksOf incoming.fields = some masks ∨
      Fields.get? incoming.fields "masks" = none ∧
        masksOf source.fields = some masks := by
  obtain ⟨next, -, asFields, isNext⟩ := merged_eq_mergeFields source incoming
  obtain rfl := isNext noMasks
  rw [masksOf_eq_some, asFields,
    get?_mergeFields incoming.named.fields.1] at isMerged
  cases found : Fields.get? incoming.fields "masks" with
  | none =>
      rw [found] at isMerged
      exact Or.inr ⟨rfl, masksOf_eq_some.mpr isMerged⟩
  | some value =>
      rw [found] at isMerged
      have same := Option.some.inj isMerged
      cases value with
      | object fields =>
          cases base : Fields.get? source.fields "masks" with
          | none =>
              rw [base, merge_none] at same
              exact nomatch same
          | some old =>
              cases old with
              | object oldFields =>
                  rw [base, merge_objects] at same
                  exact nomatch same
              | null | bool | number | string | array =>
                  rw [base, merge_into_no_object rfl] at same
                  exact nomatch same
      | null | bool | number | string | array =>
          rw [merge_of_no_object rfl] at same
          exact Or.inl (masksOf_eq_some.mpr (same ▸ found))

theorem get?_version_merged
    (source incoming : Envelope isValid)
    (same : Fields.get? source.fields "version" =
      Fields.get? incoming.fields "version") :
    Fields.get? (merged source.fields incoming.fields) "version" =
      Fields.get? source.fields "version" := by
  have asMerged := get?_version_mergeFields incoming.named.fields.1
    source.named.fields.2 same
  unfold merged
  split
  · rw [get?_set_of_ne (by decide)]
    exact asMerged
  · exact asMerged

theorem normal_merged
    (source incoming : Envelope isValid)
    (same : Fields.get? source.fields "version" =
      Fields.get? incoming.fields "version") :
    normal (merged source.fields incoming.fields) =
      merged source.fields incoming.fields := by
  have asMerged := normal_mergeFields source.named incoming.named
    source.isNormal incoming.isNormal same
  unfold merged
  split
  · exact normal_set_masks asMerged _
  · exact asMerged

theorem merged_eq_self
    (sameFields : mergeFields source recipe = recipe)
    (sameMasks : ∀ sourceMasks masks, masksOf source = some sourceMasks →
      masksOf recipe = some masks →
        mergedMasks (HasEditorMasks source) sourceMasks masks = masks) :
    merged source recipe = recipe := by
  unfold merged
  cases isSource : masksOf source with
  | none =>
      exact sameFields
  | some sourceMasks =>
      cases isMasks : masksOf recipe with
      | none =>
          exact sameFields
      | some masks =>
          dsimp only
          rw [sameFields, sameMasks sourceMasks masks isSource isMasks]
          exact set_of_get? (masksOf_eq_some.mp isMasks)

theorem merged_self
    (source : Envelope isValid)
    (clear : HasClearMasks source.fields) :
    merged source.fields source.fields = source.fields := by
  have merges := merge_self source.named
  rw [merge_objects] at merges
  refine merged_eq_self (Json.object.inj merges) ?_
  intro sourceMasks masks isSource isMasks
  obtain rfl := Option.some.inj (isSource.symm.trans isMasks)
  exact mergedMasks_self _ (source.masks_named isSource)
    (clear _ isSource).1

theorem not_ambiguous_self
    (clear : HasClearMasks source) :
    ¬HasAmbiguousMasks source source := by
  rintro ⟨first, second, isFirst, isSecond, isEditors, ambiguous⟩
  rcases ambiguous with ambiguous | ambiguous
  · exact (clear first isFirst).2 isEditors ambiguous
  · exact (clear second isSecond).2 isEditors ambiguous

theorem merged_masks_again
    (source incoming : Envelope isValid)
    (clear : ¬HasAmbiguousMasks source.fields incoming.fields)
    (keptClear : Fields.get? incoming.fields "masks" = none →
      HasClearMasks source.fields)
    (isSource : masksOf source.fields = some sourceMasks)
    (isMerged : masksOf (merged source.fields incoming.fields) = some masks) :
    mergedMasks (HasEditorMasks source.fields) sourceMasks masks = masks ∧
      (HasEditorMasks source.fields →
        ¬IsAmbiguous sourceMasks ∧ ¬IsAmbiguous masks) := by
  have sourceNamed := source.masks_named isSource
  cases isIncoming : masksOf incoming.fields with
  | some incomingMasks =>
      have named := incoming.masks_named isIncoming
      have bothClear : HasEditorMasks source.fields →
          ¬IsAmbiguous sourceMasks ∧ ¬IsAmbiguous incomingMasks := by
        intro isEditors
        refine not_or.mp fun ambiguous => clear ?_
        exact ⟨sourceMasks, incomingMasks, isSource, isIncoming, isEditors,
          ambiguous⟩
      rw [masksOf_merged isSource isIncoming] at isMerged
      obtain rfl := Option.some.inj isMerged
      constructor
      · refine mergedMasks_again sourceNamed named fun isEditors => ?_
        exact distinct_of_unambiguous (bothClear (of_decide_eq_true isEditors)).1
      · intro isEditors
        obtain ⟨sourceClear, incomingClear⟩ := bothClear isEditors
        rw [decide_eq_true isEditors]
        exact ⟨sourceClear,
          unambiguous_mergedMasks named sourceClear incomingClear⟩
  | none =>
      rcases masksOf_merged_of_none source incoming (Or.inr isIncoming) isMerged
        with isOwn | ⟨missing, isKept⟩
      · exact nomatch isIncoming.symm.trans isOwn
      · obtain rfl := Option.some.inj (isSource.symm.trans isKept)
        obtain ⟨distinct, editors⟩ := keptClear missing _ isSource
        exact ⟨mergedMasks_self _ sourceNamed distinct,
          fun isEditors => ⟨editors isEditors, editors isEditors⟩⟩

theorem merged_again
    (source incoming : Envelope isValid)
    (clear : ¬HasAmbiguousMasks source.fields incoming.fields)
    (keptClear : Fields.get? incoming.fields "masks" = none →
      HasClearMasks source.fields) :
    merged source.fields (merged source.fields incoming.fields) =
      merged source.fields incoming.fields := by
  obtain ⟨next, nextNamed, asFields, -⟩ := merged_eq_mergeFields source incoming
  refine merged_eq_self ?_ fun sourceMasks masks isSource isMerged =>
    (merged_masks_again source incoming clear keptClear isSource isMerged).1
  have merges := merge_merge nextNamed source.named
  rw [merge_objects, merge_objects] at merges
  rw [asFields]
  exact Json.object.inj merges

theorem not_ambiguous_merged
    (source incoming : Envelope isValid)
    (clear : ¬HasAmbiguousMasks source.fields incoming.fields)
    (keptClear : Fields.get? incoming.fields "masks" = none →
      HasClearMasks source.fields) :
    ¬HasAmbiguousMasks source.fields
      (merged source.fields incoming.fields) := by
  rintro ⟨sourceMasks, masks, isSource, isMerged, isEditors, ambiguous⟩
  obtain ⟨-, bothClear⟩ :=
    merged_masks_again source incoming clear keptClear isSource isMerged
  exact not_or.mpr (bothClear isEditors) ambiguous

variable {path : List String}

theorem valueAt_merged_of_omits
    (source incoming : Envelope isValid)
    (omits : Omits (.object incoming.fields) path) :
    valueAt path (.object (merged source.fields incoming.fields)) =
      valueAt path (.object source.fields) := by
  have asMerged := omits.valueAt_merge incoming.named (.object source.fields)
  rw [merge_objects] at asMerged
  unfold merged
  split
  · rename_i sourceMasks incomingMasks isSource isIncoming
    have held := masksOf_eq_some.mp isIncoming
    cases path with
    | nil =>
        exact nomatch omits
    | cons name path =>
        have differs : name ≠ "masks" := by
          rintro rfl
          cases omits with
          | here missing =>
              exact nomatch held.symm.trans missing
          | inside found inner =>
              obtain rfl := Option.some.inj (held.symm.trans found)
              exact nomatch inner
        rw [valueAt, get?_set_of_ne differs]
        exact asMerged
  · exact asMerged

theorem valueAt_merged_of_leaf
    (source incoming : Envelope isValid)
    {leaf : Json}
    (isLeaf : valueAt path (.object incoming.fields) = some leaf)
    (noObject : isObject leaf = false)
    (noMasks : path = ["masks"] →
      masksOf source.fields = none ∨ masksOf incoming.fields = none) :
    valueAt path (.object (merged source.fields incoming.fields)) =
      some leaf := by
  have asMerged := valueAt_merge_of_leaf incoming.named isLeaf noObject
    (some (.object source.fields))
  rw [merge_objects] at asMerged
  unfold merged
  split
  · rename_i sourceMasks incomingMasks isSource isIncoming
    have held := masksOf_eq_some.mp isIncoming
    cases path with
    | nil =>
        obtain rfl := Option.some.inj isLeaf
        cases noObject
    | cons name path =>
        have differs : name ≠ "masks" := by
          rintro rfl
          rw [valueAt, held] at isLeaf
          cases path with
          | nil =>
              rcases noMasks rfl with noSource | noIncoming
              · cases isSource.symm.trans noSource
              · cases isIncoming.symm.trans noIncoming
          | cons =>
              cases isLeaf
        rw [valueAt, get?_set_of_ne differs]
        exact asMerged
  · exact asMerged

variable {mask : Json}

theorem valueAt_mergeMask_of_omits
    {source : List Json}
    {old : Json}
    (named : Named mask)
    (isOld : oldMask source mask = some old)
    (omits : Omits mask path) :
    valueAt path (mergeMask source mask) = valueAt path old := by
  have isMask := isObject_of_maskId (oldMask_eq_some isOld).2.1
  rw [mergeMask, if_pos isMask, isOld]
  exact omits.valueAt_merge named old

theorem valueAt_mergeMask_of_leaf
    (source : List Json)
    {leaf : Json}
    (named : Named mask)
    (isLeaf : valueAt path mask = some leaf)
    (noObject : isObject leaf = false) :
    valueAt path (mergeMask source mask) = some leaf := by
  unfold mergeMask
  split
  · exact valueAt_merge_of_leaf named isLeaf noObject _
  · exact isLeaf

theorem not_mem_of_known
    {isEditors : Bool}
    {source incoming : List Json}
    (named : ∀ mask ∈ incoming, Named mask)
    (clear : isEditors = true → ¬IsAmbiguous source)
    (member : mask ∈ source)
    (known : hasKnownKind mask = true)
    (absent : maskId mask ∉ incoming.map maskId) :
    maskId mask ∉ (mergedMasks isEditors source incoming).map maskId := by
  rw [map_maskId_mergedMasks isEditors source named, List.mem_append, not_or]
  refine ⟨absent, ?_⟩
  split
  · rename_i isEditors
    intro isKept
    obtain ⟨other, inKept, same⟩ := List.mem_map.mp isKept
    obtain ⟨inSource, unknown, -⟩ := mem_keptMasks.mp inKept
    have distinct := not_not.mp (not_or.mp (clear isEditors)).2
    obtain rfl := List.inj_on_of_nodup_map distinct inSource member same
    exact nomatch known.symm.trans unknown
  · exact List.not_mem_nil

theorem count_of_unknown
    {source incoming : List Json}
    (named : ∀ mask ∈ incoming, Named mask)
    (sourceClear : ¬IsAmbiguous source)
    (clear : ¬IsAmbiguous incoming)
    (member : mask ∈ source)
    (unknown : hasKnownKind mask = false) :
    ((mergedMasks true source incoming).map maskId).count (maskId mask) = 1 := by
  have distinct := not_not.mp
    (not_or.mp (unambiguous_mergedMasks named sourceClear clear)).2
  refine List.count_eq_one_of_mem distinct ?_
  rw [map_maskId_mergedMasks true source named, if_pos rfl, List.mem_append]
  by_cases sent : maskId mask ∈ incoming.map maskId
  · exact Or.inl sent
  · exact Or.inr (List.mem_map_of_mem
      (mem_keptMasks.mpr ⟨member, unknown, sent⟩))

/-- What holds of a recipe that is saved over a source. -/
structure EnvelopeLaws
    (source incoming : Envelope isValid) : Prop where
  /-- It is saved when both have one version, no list of the editor's masks is
  ambiguous, and what comes out is valid. -/
  accepted :
    (∃ result, preserveDevelopEnvelope isValid source.fields incoming.fields =
      .ok result) ↔
        Fields.get? source.fields "version" =
          Fields.get? incoming.fields "version" ∧
            ¬HasAmbiguousMasks source.fields incoming.fields ∧
              isValid (merged source.fields incoming.fields)
  /-- A source that is saved over itself stays as it is. -/
  self :
    HasClearMasks source.fields → isValid source.fields →
      preserveDevelopEnvelope isValid source.fields source.fields =
        .ok source.fields
  /-- Saving the result again changes nothing. -/
  again :
    ∀ result, preserveDevelopEnvelope isValid source.fields incoming.fields =
      .ok result →
        (Fields.get? incoming.fields "masks" = none →
          HasClearMasks source.fields) →
            preserveDevelopEnvelope isValid source.fields result = .ok result
  /-- What was left out is as in the source, at every depth. -/
  survives :
    ∀ result, preserveDevelopEnvelope isValid source.fields incoming.fields =
      .ok result →
        ∀ path, Omits (.object incoming.fields) path →
          valueAt path (.object result) = valueAt path (.object source.fields)
  /-- What was sent wins, apart from the list of masks. -/
  wins :
    ∀ result, preserveDevelopEnvelope isValid source.fields incoming.fields =
      .ok result →
        ∀ path leaf, valueAt path (.object incoming.fields) = some leaf →
          isObject leaf = false →
            (path = ["masks"] → masksOf source.fields = none ∨
              masksOf incoming.fields = none) →
                valueAt path (.object result) = some leaf
  /-- Masks that were sent are merged into those of their identifiers, in the
  order in which they were sent, and before those that were kept. -/
  listed :
    ∀ result, preserveDevelopEnvelope isValid source.fields incoming.fields =
      .ok result →
        ∀ sourceMasks incomingMasks,
          masksOf source.fields = some sourceMasks →
            masksOf incoming.fields = some incomingMasks →
              ∃ kept, masksOf result =
                  some (incomingMasks.map (mergeMask sourceMasks) ++ kept) ∧
                (¬HasEditorMasks source.fields → kept = []) ∧
                  kept.Sublist sourceMasks
  /-- What was left out of a mask is as in the mask that it replaces. -/
  maskSurvives :
    ∀ sourceMasks incomingMasks,
      masksOf incoming.fields = some incomingMasks →
        ∀ mask ∈ incomingMasks, ∀ old, oldMask sourceMasks mask = some old →
          ∀ path, Omits mask path →
            valueAt path (mergeMask sourceMasks mask) = valueAt path old
  /-- What was sent in a mask wins. -/
  maskWins :
    ∀ sourceMasks incomingMasks,
      masksOf incoming.fields = some incomingMasks →
        ∀ mask ∈ incomingMasks, ∀ path leaf, valueAt path mask = some leaf →
          isObject leaf = false →
            valueAt path (mergeMask sourceMasks mask) = some leaf
  /-- A known mask that was left out is removed. -/
  removed :
    ∀ result, preserveDevelopEnvelope isValid source.fields incoming.fields =
      .ok result →
        ∀ sourceMasks incomingMasks masks,
          masksOf source.fields = some sourceMasks →
            masksOf incoming.fields = some incomingMasks →
              masksOf result = some masks →
                ∀ mask ∈ sourceMasks, hasKnownKind mask = true →
                  maskId mask ∉ incomingMasks.map maskId →
                    maskId mask ∉ masks.map maskId
  /-- An unknown mask of the editor's masks is there exactly once, and as it
  was if it was left out. -/
  kept :
    ∀ result, preserveDevelopEnvelope isValid source.fields incoming.fields =
      .ok result →
        HasEditorMasks source.fields →
          ∀ sourceMasks incomingMasks masks,
            masksOf source.fields = some sourceMasks →
              masksOf incoming.fields = some incomingMasks →
                masksOf result = some masks →
                  ∀ mask ∈ sourceMasks, hasKnownKind mask = false →
                    (masks.map maskId).count (maskId mask) = 1 ∧
                      (maskId mask ∉ incomingMasks.map maskId → mask ∈ masks)

theorem eq_merged
    (source incoming : Envelope isValid)
    (saved : preserveDevelopEnvelope isValid source.fields incoming.fields =
      .ok result) :
    result = merged source.fields incoming.fields ∧
      Fields.get? source.fields "version" =
        Fields.get? incoming.fields "version" ∧
          ¬HasAmbiguousMasks source.fields incoming.fields ∧
            isValid (merged source.fields incoming.fields) := by
  obtain ⟨same, clear, valid, isResult⟩ := preserveDevelopEnvelope_eq_ok.mp saved
  rw [normal_merged source incoming same] at isResult
  exact ⟨isResult.symm, same, clear, valid⟩

/-- What saving over a source keeps, for every source and every recipe. -/
theorem envelopeLaws
    (source incoming : Envelope isValid) :
    EnvelopeLaws source incoming where
  accepted := by
    constructor
    · rintro ⟨result, saved⟩
      exact (eq_merged source incoming saved).2
    · rintro ⟨same, clear, valid⟩
      exact ⟨_, preserveDevelopEnvelope_eq_ok.mpr ⟨same, clear, valid, rfl⟩⟩
  self := by
    intro clear valid
    have isSelf := merged_self source clear
    refine preserveDevelopEnvelope_eq_ok.mpr
      ⟨rfl, not_ambiguous_self clear, ?_, ?_⟩
    · rw [isSelf]
      exact valid
    · rw [isSelf]
      exact source.isNormal
  again := by
    intro result saved keptClear
    obtain ⟨rfl, same, clear, valid⟩ := eq_merged source incoming saved
    have isAgain := merged_again source incoming clear keptClear
    refine preserveDevelopEnvelope_eq_ok.mpr
      ⟨(get?_version_merged source incoming same).symm,
        not_ambiguous_merged source incoming clear keptClear, ?_, ?_⟩
    · rw [isAgain]
      exact valid
    · rw [isAgain]
      exact normal_merged source incoming same
  survives := by
    intro result saved path omits
    obtain ⟨rfl, -⟩ := eq_merged source incoming saved
    exact valueAt_merged_of_omits source incoming omits
  wins := by
    intro result saved path leaf isLeaf noObject noMasks
    obtain ⟨rfl, -⟩ := eq_merged source incoming saved
    exact valueAt_merged_of_leaf source incoming isLeaf noObject noMasks
  listed := by
    intro result saved sourceMasks incomingMasks isSource isIncoming
    obtain ⟨rfl, -⟩ := eq_merged source incoming saved
    refine ⟨_, masksOf_merged isSource isIncoming, ?_, ?_⟩
    · intro noEditors
      rw [decide_eq_false noEditors]
      rfl
    · split
      · exact List.filter_sublist
      · exact List.nil_sublist _
  maskSurvives := by
    intro sourceMasks incomingMasks isIncoming mask member old isOld path omits
    exact valueAt_mergeMask_of_omits
      (incoming.masks_named isIncoming mask member) isOld omits
  maskWins := by
    intro sourceMasks incomingMasks isIncoming mask member path leaf isLeaf
    exact valueAt_mergeMask_of_leaf sourceMasks
      (incoming.masks_named isIncoming mask member) isLeaf
  removed := by
    intro result saved sourceMasks incomingMasks masks isSource isIncoming
      isMasks mask member known absent
    obtain ⟨rfl, -, clear, -⟩ := eq_merged source incoming saved
    obtain rfl := Option.some.inj
      ((masksOf_merged isSource isIncoming).symm.trans isMasks)
    refine not_mem_of_known (incoming.masks_named isIncoming) ?_ member known
      absent
    intro isEditors ambiguous
    exact clear ⟨sourceMasks, incomingMasks, isSource, isIncoming,
      of_decide_eq_true isEditors, Or.inl ambiguous⟩
  kept := by
    intro result saved isEditors sourceMasks incomingMasks masks isSource
      isIncoming isMasks mask member unknown
    obtain ⟨rfl, -, clear, -⟩ := eq_merged source incoming saved
    rw [masksOf_merged isSource isIncoming, decide_eq_true isEditors] at isMasks
    obtain rfl := Option.some.inj isMasks
    have bothClear := not_or.mp fun ambiguous => clear
      ⟨sourceMasks, incomingMasks, isSource, isIncoming, isEditors, ambiguous⟩
    constructor
    · exact count_of_unknown (incoming.masks_named isIncoming) bothClear.1
        bothClear.2 member unknown
    · intro absent
      exact List.mem_append_right _
        (mem_keptMasks.mpr ⟨member, unknown, absent⟩)

/-- In a version whose masks are not the editor's, an unknown mask that was left
out is not kept, and a source whose masks share an identifier does not stay as
it is. -/
theorem unknown_mask_dropped :
    let version := ("version", Json.number "2")
    let depth := Json.object [("id", .string "a"), ("kind", .string "depth")]
    let other := Json.object [("id", .string "a"), ("opacity", .number "1")]
    let whole := Json.object
      [("id", .string "a"), ("kind", .string "depth"),
        ("opacity", .number "1")]
    preserveDevelopEnvelope (fun _ => true)
        [version, ("masks", .array [depth])] [version, ("masks", .array [])] =
      .ok [version, ("masks", .array [])] ∧
    preserveDevelopEnvelope (fun _ => true)
        [version, ("masks", .array [depth, other])]
        [version, ("masks", .array [depth, other])] =
      .ok [version, ("masks", .array [depth, whole])] := by
  decide

end Frameleaf.DevelopEnvelope
