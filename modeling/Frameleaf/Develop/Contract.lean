import Frameleaf.Develop.Items

namespace Frameleaf.Develop

/-!
# Items that are selected, and their budget of points

Items that were selected are selected again, and items within a budget of points
stay as they are.
-/

section Items

variable {Item : Type}

variable {selected items : List Item}

theorem selectItems_distinct
    (limit : ℕ)
    (read : Value → Option Item)
    (id : Item → Text)
    (distinct : (selected.map id).Nodup)
    (values : List Value) :
    ((selectItems limit read id selected values).map id).Nodup := by
  induction values generalizing selected with
  | nil =>
      exact distinct
  | cons value rest inductionHypothesis =>
      rw [selectItems]
      split
      · exact inductionHypothesis distinct
      · split
        · rename_i item isItem
          split
          · exact inductionHypothesis distinct
          · rename_i isNew
            refine inductionHypothesis ?_
            rw [List.map_append, List.map_singleton]
            exact List.nodup_append'.mpr ⟨distinct, List.nodup_singleton _,
              List.disjoint_singleton.mpr isNew⟩
        · exact inductionHypothesis distinct

variable {limit budget : ℕ}

theorem length_selectItems_le
    (read : Value → Option Item)
    (id : Item → Text)
    (few : selected.length ≤ limit)
    (values : List Value) :
    (selectItems limit read id selected values).length ≤ limit := by
  induction values generalizing selected with
  | nil =>
      exact few
  | cons value rest inductionHypothesis =>
      rw [selectItems]
      split
      · exact inductionHypothesis few
      · rename_i hasRoom
        split
        · split
          · exact inductionHypothesis few
          · refine inductionHypothesis ?_
            rw [List.length_append, List.length_singleton]
            omega
        · exact inductionHypothesis few

variable {read : Value → Option Item} {id : Item → Text}

theorem mem_selectItems
    {values : List Value}
    {item : Item}
    (member : item ∈ selectItems limit read id selected values) :
    item ∈ selected ∨ ∃ value ∈ values, read value = some item := by
  induction values generalizing selected with
  | nil =>
      exact Or.inl member
  | cons value rest inductionHypothesis =>
      have later : ∀ {others : List Item},
          item ∈ selectItems limit read id others rest →
            item ∈ others ∨ ∃ other ∈ value :: rest, read other = some item := by
        intro others isLater
        refine (inductionHypothesis isLater).imp_right ?_
        rintro ⟨other, inRest, isRead⟩
        exact ⟨other, List.mem_cons_of_mem _ inRest, isRead⟩
      rw [selectItems] at member
      split at member
      · exact later member
      · split at member
        · rename_i first isFirst
          split at member
          · exact later member
          · rcases later member with wasThere | isRead
            · rcases List.mem_append.mp wasThere with isOld | isNew
              · exact Or.inl isOld
              · obtain rfl := List.mem_singleton.mp isNew
                exact Or.inr ⟨value, List.mem_cons_self, isFirst⟩
            · exact Or.inr isRead
        · exact later member

theorem selectItems_again
    {value : Item → Value}
    (again : ∀ item ∈ items, read (value item) = some item)
    (distinct : ((selected ++ items).map id).Nodup)
    (few : (selected ++ items).length ≤ limit) :
    selectItems limit read id selected (items.map value) =
      selected ++ items := by
  induction items generalizing selected with
  | nil =>
      exact (List.append_nil _).symm
  | cons item rest inductionHypothesis =>
      have split : selected ++ item :: rest = (selected ++ [item]) ++ rest :=
        List.append_cons _ _ _
      have hasRoom : ¬limit ≤ selected.length := by
        rw [List.length_append, List.length_cons] at few
        omega
      have isNew : id item ∉ selected.map id := by
        rw [List.map_append, List.map_cons] at distinct
        intro isOld
        exact (List.nodup_append'.mp distinct).2.2 isOld List.mem_cons_self
      rw [List.map_cons, selectItems, if_neg hasRoom,
        again item List.mem_cons_self]
      dsimp only
      rw [if_neg isNew, split]
      rw [split] at distinct few
      exact inductionHypothesis
        (fun other member => again other (List.mem_cons_of_mem _ member))
        distinct few

theorem map_selectItems
    {Other : Type}
    (limit : ℕ)
    {readOther : Value → Option Other}
    {part : Other → Item}
    (sameRead : ∀ value, (readOther value).map part = read value)
    (selected : List Other)
    (values : List Value) :
    (selectItems limit readOther (id ∘ part) selected values).map part =
      selectItems limit read id (selected.map part) values := by
  induction values generalizing selected with
  | nil =>
      rfl
  | cons value rest inductionHypothesis =>
      rw [selectItems, selectItems, List.length_map]
      split
      · exact inductionHypothesis selected
      · rw [← sameRead value]
        cases readOther value with
        | none =>
            exact inductionHypothesis selected
        | some other =>
            dsimp only [Option.map_some]
            rw [List.map_map, Function.comp_apply]
            split
            · exact inductionHypothesis selected
            · rw [inductionHypothesis, List.map_append, List.map_singleton]

/-- The points of items. -/
def itemCount
    (strokes : Item → Option (List DevelopStroke))
    (items : List Item) : ℕ :=
  (items.map fun item => (strokes item).elim 0 pointCount).sum

/-- How the strokes of an item are read and replaced. -/
structure Replaces
    (strokes : Item → Option (List DevelopStroke))
    (withStrokes : Item → List DevelopStroke → Item) : Prop where
  read : ∀ item own, strokes (withStrokes item own) = some own
  same : ∀ item own, strokes item = some own → withStrokes item own = item

variable {strokes : Item → Option (List DevelopStroke)}
  {withStrokes : Item → List DevelopStroke → Item}

theorem itemCount_within
    (replaces : Replaces strokes withStrokes)
    (budget : ℕ)
    (items : List Item) :
    itemCount strokes (within strokes withStrokes budget items).1 +
      (within strokes withStrokes budget items).2 = budget := by
  induction items generalizing budget with
  | nil =>
      exact Nat.zero_add _
  | cons item rest inductionHypothesis =>
      rw [within]
      cases isStrokes : strokes item with
      | none =>
          have later := inductionHypothesis budget
          have own : itemCount strokes
              (item :: (within strokes withStrokes budget rest).1) =
                itemCount strokes (within strokes withStrokes budget rest).1 := by
            unfold itemCount
            rw [List.map_cons, List.sum_cons, isStrokes]
            exact Nat.zero_add _
          dsimp only
          rw [own]
          exact later
      | some own =>
          have later := inductionHypothesis (strokesWithin budget own).2
          have taken := pointCount_strokesWithin budget own
          dsimp only
          unfold itemCount at later ⊢
          rw [List.map_cons, List.sum_cons, replaces.read, Option.elim_some]
          omega

theorem within_eq_self
    (replaces : Replaces strokes withStrokes)
    (nonempty : ∀ item ∈ items, ∀ own, strokes item = some own →
      ∀ stroke ∈ own, stroke.points ≠ [])
    (few : itemCount strokes items ≤ budget) :
    within strokes withStrokes budget items =
      (items, budget - itemCount strokes items) := by
  induction items generalizing budget with
  | nil =>
      rfl
  | cons item rest inductionHypothesis =>
      have split : itemCount strokes (item :: rest) =
          (strokes item).elim 0 pointCount + itemCount strokes rest := by
        unfold itemCount
        rw [List.map_cons, List.sum_cons]
      have restNonempty : ∀ other ∈ rest, ∀ own, strokes other = some own →
          ∀ stroke ∈ own, stroke.points ≠ [] :=
        fun other member => nonempty other (List.mem_cons_of_mem _ member)
      rw [within]
      rw [split] at few ⊢
      cases isStrokes : strokes item with
      | none =>
          rw [isStrokes, Option.elim_none] at few
          dsimp only
          rw [inductionHypothesis restNonempty (by omega), Option.elim_none,
            Nat.zero_add]
      | some own =>
          rw [isStrokes, Option.elim_some] at few
          have kept : strokesWithin budget own =
              (own, budget - pointCount own) :=
            strokesWithin_eq_self
              (nonempty item List.mem_cons_self own isStrokes) (by omega)
          dsimp only
          rw [kept]
          dsimp only
          rw [inductionHypothesis restNonempty (by omega),
            replaces.same item own isStrokes, Option.elim_some, Nat.sub_sub]

theorem mem_within
    {item : Item}
    (member : item ∈ (within strokes withStrokes budget items).1) :
    ∃ old ∈ items, (strokes old = none ∧ item = old) ∨
      ∃ own left, strokes old = some own ∧
        item = withStrokes old (strokesWithin left own).1 := by
  induction items generalizing budget with
  | nil =>
      exact nomatch member
  | cons first rest inductionHypothesis =>
      have later : ∀ {left : ℕ},
          item ∈ (within strokes withStrokes left rest).1 →
            ∃ old ∈ first :: rest, (strokes old = none ∧ item = old) ∨
              ∃ own left, strokes old = some own ∧
                item = withStrokes old (strokesWithin left own).1 := by
        intro left isLater
        obtain ⟨old, inRest, isOld⟩ := inductionHypothesis isLater
        exact ⟨old, List.mem_cons_of_mem _ inRest, isOld⟩
      rw [within] at member
      cases isStrokes : strokes first with
      | none =>
          rw [isStrokes] at member
          rcases List.mem_cons.mp member with rfl | inRest
          · exact ⟨item, List.mem_cons_self, Or.inl ⟨isStrokes, rfl⟩⟩
          · exact later inRest
      | some own =>
          rw [isStrokes] at member
          rcases List.mem_cons.mp member with rfl | inRest
          · exact ⟨first, List.mem_cons_self,
              Or.inr ⟨own, budget, isStrokes, rfl⟩⟩
          · exact later inRest

theorem map_within
    {Part : Type}
    {part : Item → Part}
    (kept : ∀ item own, part (withStrokes item own) = part item)
    (budget : ℕ)
    (items : List Item) :
    (within strokes withStrokes budget items).1.map part = items.map part := by
  induction items generalizing budget with
  | nil =>
      rfl
  | cons item rest inductionHypothesis =>
      rw [within]
      cases strokes item with
      | none =>
          dsimp only
          rw [List.map_cons, List.map_cons, inductionHypothesis]
      | some own =>
          dsimp only
          rw [List.map_cons, List.map_cons, kept, inductionHypothesis]

end Items

open Rounding

/-!
## Recipes within their contract

The masks and the operations of a recipe that was read are within their
contract, have distinct identifiers, and are few enough.
-/

theorem dropWhile_trim
    (text : Text) :
    (trim text).dropWhile isSpace = trim text := by
  rw [trim]
  cases trimmed : (text.dropWhile isSpace).rdropWhile isSpace with
  | nil =>
      rfl
  | cons first rest =>
      obtain ⟨dropped, whole⟩ :=
        List.rdropWhile_prefix isSpace (text.dropWhile isSpace)
      rw [trimmed] at whole
      have word := List.head?_dropWhile_not isSpace text
      rw [← whole] at word
      exact List.dropWhile_cons_of_neg (by simpa using word)

theorem isTrimmed_trim
    (text : Text) :
    IsTrimmed (trim text) := by
  rw [IsTrimmed, trim, dropWhile_trim, trim]
  exact List.rdropWhile_idempotent _ _

theorem isTrimmed_cutText
    {length : ℕ}
    {text : Text}
    (short : text.length ≤ length) :
    IsTrimmed (cutText length (some (.string text))) := by
  have shorter : (trim text).length ≤ length :=
    ((List.rdropWhile_prefix _ _).length_le.trans
      (List.dropWhile_suffix _).length_le).trans short
  rw [cutText, textIn]
  dsimp only
  rw [List.take_of_length_le shorter]
  exact isTrimmed_trim text

theorem maskReplaces :
    Replaces AssetDevelopMask.strokes AssetDevelopMask.withStrokes where
  read _ _ := rfl
  same mask own isStrokes := by
    cases mask
    dsimp only at isStrokes
    rw [isStrokes]
    rfl

theorem cleanupReplaces :
    Replaces AssetDevelopCleanup.strokes AssetDevelopCleanup.withStrokes where
  read _ _ := rfl
  same operation own isStrokes := by
    cases operation
    dsimp only at isStrokes
    rw [isStrokes]
    rfl

theorem AssetDevelopMask.IsNormal.withStrokes
    {mask : AssetDevelopMask}
    (normal : mask.IsNormal)
    {own : List DevelopStroke}
    (isStrokes : mask.strokes = some own)
    (budget : ℕ) :
    (mask.withStrokes (strokesWithin budget own).1).IsNormal where
  id := normal.id
  name := normal.name
  shape := normal.shape
  adjustments := normal.adjustments
  strokes := by
    have isBrush := normal.strokes
    rw [isStrokes] at isBrush
    exact isBrush
  strokesNormal := by
    intro strokes isKept
    rw [← Option.some.inj isKept]
    exact (normal.strokesNormal own isStrokes).within budget
  artifact := normal.artifact
  artifactNormal := normal.artifactNormal

theorem AssetDevelopCleanup.IsNormal.withStrokes
    {operation : AssetDevelopCleanup}
    (normal : operation.IsNormal)
    {own : List DevelopStroke}
    (isStrokes : operation.strokes = some own)
    {budget : ℕ}
    (left : (strokesWithin budget own).1 ≠ []) :
    (operation.withStrokes (strokesWithin budget own).1).IsNormal where
  id := normal.id
  area := by
    have area := normal.area
    rw [isStrokes] at area
    exact area
  region := normal.region
  strokes := by
    intro strokes isKept
    rw [← Option.some.inj isKept]
    exact ⟨left, (normal.strokes own isStrokes).2.within budget⟩
  source := normal.source
  fill := normal.fill
  numbers := normal.numbers

variable (candidate : Option Value)

/-- The values of a candidate's property, if it is an array. -/
def valuesOf (candidate : Option Value) : List Value :=
  match candidate with
  | some (.array items) =>
      items
  | _ =>
      []

theorem normalizeDevelopMasks_eq :
    normalizeDevelopMasks candidate =
      selectItems ASSET_DEVELOP_MAX_MASKS normalizeMask AssetDevelopMask.id []
        (valuesOf candidate) := by
  cases candidate with
  | none =>
      rfl
  | some value =>
      cases value <;> rfl

theorem normalizeDevelopCleanup_eq :
    normalizeDevelopCleanup candidate =
      selectItems ASSET_DEVELOP_MAX_CLEANUP normalizeCleanup
        AssetDevelopCleanup.id [] (valuesOf candidate) := by
  cases candidate with
  | none =>
      rfl
  | some value =>
      cases value <;> rfl

theorem masks_normal
    {mask : AssetDevelopMask}
    (member : mask ∈ (normalizeDevelopRecipe candidate).masks) :
    mask.IsNormal := by
  obtain ⟨old, isOld, isMask⟩ := mem_within member
  rw [normalizeDevelopMasks_eq] at isOld
  rcases mem_selectItems isOld with isNone | ⟨value, -, isRead⟩
  · exact nomatch isNone
  · have normal := normalizeMask_normal isRead
    rcases isMask with ⟨-, rfl⟩ | ⟨own, left, isStrokes, rfl⟩
    · exact normal
    · exact normal.withStrokes isStrokes left

theorem cleanup_normal
    {operation : AssetDevelopCleanup}
    (member : operation ∈ (normalizeDevelopRecipe candidate).cleanup) :
    operation.IsNormal := by
  obtain ⟨inBudget, hasArea⟩ := List.mem_filter.mp member
  obtain ⟨old, isOld, isOperation⟩ := mem_within inBudget
  rw [normalizeDevelopCleanup_eq] at isOld
  rcases mem_selectItems isOld with isNone | ⟨value, -, isRead⟩
  · exact nomatch isNone
  · have normal := normalizeCleanup_normal isRead
    rcases isOperation with ⟨-, rfl⟩ | ⟨own, left, isStrokes, rfl⟩
    · exact normal
    · refine normal.withStrokes isStrokes fun noneLeft => ?_
      have someStrokes := of_decide_eq_true hasArea
      exact someStrokes (congrArg some noneLeft)

theorem masks_ids :
    (normalizeDevelopRecipe candidate).masks.map AssetDevelopMask.id =
      (normalizeDevelopMasks (property candidate "masks")).map
        AssetDevelopMask.id := by
  have kept : ∀ (mask : AssetDevelopMask) (own : List DevelopStroke),
      (mask.withStrokes own).id = mask.id := fun mask own => rfl
  exact map_within kept _ _

theorem cleanup_ids
    (budget : ℕ)
    (operations : List AssetDevelopCleanup) :
    (within AssetDevelopCleanup.strokes AssetDevelopCleanup.withStrokes budget
      operations).1.map AssetDevelopCleanup.id =
        operations.map AssetDevelopCleanup.id := by
  have kept : ∀ (operation : AssetDevelopCleanup) (own : List DevelopStroke),
      (operation.withStrokes own).id = operation.id := fun operation own => rfl
  exact map_within kept _ _

theorem masks_distinct :
    ((normalizeDevelopRecipe candidate).masks.map AssetDevelopMask.id).Nodup := by
  have none : (([] : List AssetDevelopMask).map AssetDevelopMask.id).Nodup :=
    List.nodup_nil
  rw [masks_ids, normalizeDevelopMasks_eq]
  exact selectItems_distinct _ _ _ none _

theorem cleanup_distinct :
    ((normalizeDevelopRecipe candidate).cleanup.map
      AssetDevelopCleanup.id).Nodup := by
  have distinct : ((normalizeDevelopCleanup (property candidate "cleanup")).map
      AssetDevelopCleanup.id).Nodup := by
    have none :
        (([] : List AssetDevelopCleanup).map AssetDevelopCleanup.id).Nodup :=
      List.nodup_nil
    rw [normalizeDevelopCleanup_eq]
    exact selectItems_distinct _ _ _ none _
  rw [← cleanup_ids] at distinct
  exact distinct.sublist (List.filter_sublist.map _)

theorem length_masks_le :
    (normalizeDevelopRecipe candidate).masks.length ≤
      ASSET_DEVELOP_MAX_MASKS := by
  rw [← List.length_map AssetDevelopMask.id, masks_ids, List.length_map,
    normalizeDevelopMasks_eq]
  exact length_selectItems_le _ _ (Nat.zero_le _) _

theorem length_cleanup_le :
    (normalizeDevelopRecipe candidate).cleanup.length ≤
      ASSET_DEVELOP_MAX_CLEANUP := by
  refine (List.length_filter_le _ _).trans ?_
  rw [← List.length_map AssetDevelopCleanup.id, cleanup_ids, List.length_map,
    normalizeDevelopCleanup_eq]
  exact length_selectItems_le _ _ (Nat.zero_le _) _

/-- The points of a recipe. -/
def AssetDevelopRecipe.pointCount (recipe : AssetDevelopRecipe) : ℕ :=
  itemCount AssetDevelopMask.strokes recipe.masks +
    itemCount AssetDevelopCleanup.strokes recipe.cleanup

theorem itemCount_hasArea
    (operations : List AssetDevelopCleanup) :
    itemCount AssetDevelopCleanup.strokes
        (operations.filter AssetDevelopCleanup.hasArea) =
      itemCount AssetDevelopCleanup.strokes operations := by
  unfold itemCount
  induction operations with
  | nil =>
      rfl
  | cons operation rest inductionHypothesis =>
      rw [List.filter_cons]
      split
      · rw [List.map_cons, List.sum_cons, List.map_cons, List.sum_cons,
          inductionHypothesis]
      · rename_i noArea
        have isEmpty : operation.strokes = some [] := by
          simpa [AssetDevelopCleanup.hasArea] using noArea
        rw [List.map_cons, List.sum_cons, isEmpty, inductionHypothesis]
        exact (Nat.zero_add _).symm

theorem pointCount_le :
    (normalizeDevelopRecipe candidate).pointCount ≤
      ASSET_DEVELOP_MAX_RECIPE_POINTS := by
  have masks := itemCount_within maskReplaces ASSET_DEVELOP_MAX_RECIPE_POINTS
    (normalizeDevelopMasks (property candidate "masks"))
  have cleanup := itemCount_within cleanupReplaces
    (within AssetDevelopMask.strokes AssetDevelopMask.withStrokes
      ASSET_DEVELOP_MAX_RECIPE_POINTS
      (normalizeDevelopMasks (property candidate "masks"))).2
    (normalizeDevelopCleanup (property candidate "cleanup"))
  unfold AssetDevelopRecipe.pointCount normalizeDevelopRecipe
  dsimp only
  rw [itemCount_hasArea]
  omega

end Frameleaf.Develop
