import Frameleaf.SettingsDraft.Config

namespace Frameleaf.SettingsDraft

open Json PathTrees

/-!
# The leaves of a configuration

What the lists of leaves and of changes say of the configurations they come
from, and what setting one leaf changes.
-/

mutual

theorem isEqualJson_self :
    ∀ value : Json, isEqualJson value value = true
  | .null => rfl
  | .bool _ => by simp [isEqualJson]
  | .number _ => by simp [isEqualJson]
  | .string _ => by simp [isEqualJson]
  | .array items => by
      rw [isEqualJson]
      exact isEqualItems_self items
  | .object fields => by
      rw [isEqualJson, beq_self_eq_true, Bool.true_and]
      exact isEqualFields_of_subset fields fields fun _ => id

theorem isEqualItems_self :
    ∀ items : List Json, isEqualItems items items = true
  | [] => rfl
  | item :: items => by
      rw [isEqualItems, isEqualJson_self item, isEqualItems_self items]
      rfl

theorem isEqualFields_of_subset :
    ∀ fields others : Fields, (∀ field ∈ fields, field ∈ others) →
      isEqualFields fields others = true
  | [], _, _ => rfl
  | (name, value) :: fields, others, contained => by
      rw [isEqualFields, Bool.and_eq_true]
      constructor
      · apply List.any_eq_true.mpr
        refine ⟨(name, value), contained _ List.mem_cons_self, ?_⟩
        rw [beq_self_eq_true, isEqualJson_self value]
        rfl
      · exact isEqualFields_of_subset fields others fun field member =>
          contained field (List.mem_cons_of_mem _ member)

end

theorem Leaf.isEqual_self
    (leaf : Leaf) :
    leaf.isEqual leaf = true := by
  cases leaf with
  | undefined => rfl
  | null => rfl
  | boolean value => simp [Leaf.isEqual]
  | number text => simp [Leaf.isEqual]
  | string value => simp [Leaf.isEqual]
  | array items =>
      rw [Leaf.isEqual]
      exact isEqualItems_self items

variable {value config : Config}

theorem isEqual_self
    (terminal : value.isTerminal = true) :
    isEqual value value = true := by
  cases value with
  | leaf content =>
      rw [isEqual]
      exact content.isEqual_self
  | node entries =>
      cases entries with
      | nil => rfl
      | cons _ _ => cases terminal

theorem isEqual_undefined :
    isEqual value undefined = true ↔ value = undefined := by
  constructor
  · intro same
    cases value with
    | node entries =>
        simp [isEqual] at same
    | leaf content =>
        cases content with
        | undefined => rfl
        | _ => simp [isEqual, Leaf.isEqual] at same
  · rintro rfl
    rfl

theorem undefined_isEqual :
    isEqual undefined value = true ↔ value = undefined := by
  constructor
  · intro same
    cases value with
    | node entries =>
        simp [isEqual] at same
    | leaf content =>
        cases content with
        | undefined => rfl
        | _ => simp [isEqual, Leaf.isEqual] at same
  · rintro rfl
    rfl

/-- The leaf at a path, or `undefined`. -/
def leaf
    (config : Config)
    (path : ConfigPath) : Config :=
  (config.leafAt path).getD undefined

variable {path before rest : ConfigPath}

theorem leaf_of_get
    (isThere : config.get path = some value)
    (terminal : value.isTerminal = true) :
    leaf config path = value := by
  unfold leaf PathTree.leafAt
  rw [isThere, Option.filter_some, if_pos terminal]
  rfl

theorem leaf_of_node
    {entries : Entries ConfigKey Leaf}
    (isThere : config.get path = some (.node entries))
    (notEmpty : entries ≠ []) :
    leaf config path = undefined := by
  unfold leaf PathTree.leafAt
  rw [isThere]
  cases entries with
  | nil => exact absurd rfl notEmpty
  | cons _ _ => rfl

theorem leaf_of_none
    (missing : config.get path = none) :
    leaf config path = undefined := by
  unfold leaf PathTree.leafAt
  rw [missing]
  rfl

theorem get_of_leaf
    (isDefined : leaf config path ≠ undefined) :
    config.get path = some (leaf config path) ∧
      (leaf config path).isTerminal = true := by
  cases isThere : config.get path with
  | none =>
      exact absurd (leaf_of_none isThere) isDefined
  | some value =>
      cases terminal : value.isTerminal with
      | true =>
          rw [leaf_of_get isThere terminal]
          exact ⟨rfl, terminal⟩
      | false =>
          cases value with
          | leaf content =>
              cases terminal
          | node entries =>
              refine absurd (leaf_of_node isThere ?_) isDefined
              rintro rfl
              cases terminal

theorem leaf_terminal
    (config : Config)
    (path : ConfigPath) :
    (leaf config path).isTerminal = true := by
  by_cases isDefined : leaf config path = undefined
  · rw [isDefined]
    rfl
  · exact (get_of_leaf isDefined).2

theorem node_above_leaf
    (isDefined : leaf config (before ++ rest) ≠ undefined)
    (notEnd : rest ≠ []) :
    ∃ entries, entries ≠ [] ∧ config.get before = some (.node entries) :=
  get_above (get_of_leaf isDefined).1 notEnd

theorem leaf_above_leaf
    (isDefined : leaf config (before ++ rest) ≠ undefined)
    (notEnd : rest ≠ []) :
    leaf config before = undefined := by
  obtain ⟨entries, notEmpty, isNode⟩ := node_above_leaf isDefined notEnd
  exact leaf_of_node isNode notEmpty

theorem leafValue_configLeaves
    (wellFormed : config.WellFormed)
    (notRoot : path ≠ []) :
    leafValue (configLeaves config) path = leaf config path := by
  have kept : ∀ leaves : List (ConfigPath × Config),
      (leaves.filter fun leaf => decide (leaf.1 ≠ [])).lookup path =
        leaves.lookup path := by
    intro leaves
    induction leaves with
    | nil =>
        rfl
    | cons first leaves inductionHypothesis =>
        obtain ⟨other, value⟩ := first
        by_cases isRoot : other = []
        · have differs : (path == other) = false := by
            simp [isRoot, notRoot]
          rw [List.filter_cons_of_neg (by simp [isRoot]), List.lookup_cons,
            differs]
          exact inductionHypothesis
        · rw [List.filter_cons_of_pos (by simp [isRoot]), List.lookup_cons,
            List.lookup_cons, inductionHypothesis]
  unfold leafValue configLeaves leaf
  rw [kept, lookup_leaves wellFormed]

theorem mem_configLeaves
    (wellFormed : config.WellFormed) :
    path ∈ (configLeaves config).map Prod.fst ↔
      path ≠ [] ∧ (config.leafAt path).isSome = true := by
  constructor
  · intro member
    obtain ⟨⟨other, value⟩, isLeaf, rfl⟩ := List.mem_map.mp member
    obtain ⟨isThere, notRoot⟩ := List.mem_filter.mp isLeaf
    refine ⟨by simpa using notRoot, ?_⟩
    rw [(mem_leaves_iff wellFormed).mp isThere]
    rfl
  · rintro ⟨notRoot, isThere⟩
    obtain ⟨value, isLeaf⟩ := Option.isSome_iff_exists.mp isThere
    refine List.mem_map.mpr ⟨(path, value), List.mem_filter.mpr ⟨?_, ?_⟩, rfl⟩
    · exact (mem_leaves_iff wellFormed).mpr isLeaf
    · simpa using notRoot

theorem not_listed_of_node
    {entries : Entries ConfigKey Leaf}
    (isNode : config.get path = some (.node entries))
    (notEmpty : entries ≠ []) :
    (config.leafAt path).isSome = false := by
  unfold PathTree.leafAt
  rw [isNode]
  cases entries with
  | nil => exact absurd rfl notEmpty
  | cons entry entries => rfl

theorem mem_configLeaves_of_leaf
    (wellFormed : config.WellFormed)
    (notRoot : path ≠ [])
    (isDefined : leaf config path ≠ undefined) :
    path ∈ (configLeaves config).map Prod.fst := by
  rw [mem_configLeaves wellFormed]
  refine ⟨notRoot, ?_⟩
  cases isLeaf : config.leafAt path with
  | none =>
      refine absurd ?_ isDefined
      unfold leaf
      rw [isLeaf]
      rfl
  | some value =>
      rfl

theorem mem_freshPaths
    {paths seen : List ConfigPath} :
    path ∈ freshPaths seen paths ↔
      path ∈ paths ∧ path ∉ seen ∧ isServerManagedConfigPath path = false := by
  induction paths generalizing seen with
  | nil =>
      simp [freshPaths]
  | cons first paths inductionHypothesis =>
      unfold freshPaths
      split
      · rename_i skipped
        rw [inductionHypothesis, List.mem_cons]
        constructor
        · rintro ⟨member, fresh⟩
          exact ⟨.inr member, fresh⟩
        · rintro ⟨rfl | member, unseen, unmanaged⟩
          · rcases skipped with isSeen | isManaged
            · exact absurd isSeen unseen
            · rw [unmanaged] at isManaged
              cases isManaged
          · exact ⟨member, unseen, unmanaged⟩
      · rename_i kept
        rw [not_or] at kept
        rw [List.mem_cons, inductionHypothesis, List.mem_cons, List.mem_cons]
        constructor
        · rintro (rfl | ⟨member, unseen, unmanaged⟩)
          · exact ⟨.inl rfl, kept.1, by simpa using kept.2⟩
          · exact ⟨.inr member, fun isSeen => unseen (.inr isSeen), unmanaged⟩
        · rintro ⟨rfl | member, unseen, unmanaged⟩
          · exact .inl rfl
          · by_cases isFirst : path = first
            · exact .inl isFirst
            · refine .inr ⟨member, ?_, unmanaged⟩
              rintro (isSame | isSeen)
              · exact isFirst isSame
              · exact unseen isSeen

theorem nodup_freshPaths
    (seen paths : List ConfigPath) :
    (freshPaths seen paths).Nodup := by
  induction paths generalizing seen with
  | nil =>
      exact List.nodup_nil
  | cons first paths inductionHypothesis =>
      unfold freshPaths
      split
      · exact inductionHypothesis seen
      · apply List.nodup_cons.mpr
        refine ⟨?_, inductionHypothesis _⟩
        intro member
        exact (mem_freshPaths.mp member).2.1 List.mem_cons_self

/-- The changes are the leaves that differ and that the server does not keep. -/
theorem mem_diffConfig
    {baseline draft : Config}
    {change : ConfigChange}
    (wellBaseline : baseline.WellFormed)
    (wellDraft : draft.WellFormed) :
    change ∈ diffConfig baseline draft ↔
      change.path ≠ [] ∧ isServerManagedConfigPath change.path = false ∧
        change.before = leaf baseline change.path ∧
        change.after = leaf draft change.path ∧
        isEqual change.before change.after = false := by
  have changes : ∀ path, path ≠ [] →
      changeOf (configLeaves baseline) (configLeaves draft) path =
        if isEqual (leaf baseline path) (leaf draft path) then none
        else some {
          path
          before := leaf baseline path
          after := leaf draft path } := by
    intro path notRoot
    unfold changeOf
    rw [leafValue_configLeaves wellBaseline notRoot,
      leafValue_configLeaves wellDraft notRoot]
  obtain ⟨changed, previous, next⟩ := change
  dsimp only
  unfold diffConfig
  rw [List.mem_filterMap]
  constructor
  · rintro ⟨path, isFresh, isChange⟩
    obtain ⟨isListed, _, unmanaged⟩ := mem_freshPaths.mp isFresh
    have notRoot : path ≠ [] := by
      rcases List.mem_append.mp isListed with member | member
      · exact ((mem_configLeaves wellDraft).mp member).1
      · exact ((mem_configLeaves wellBaseline).mp member).1
    rw [changes path notRoot] at isChange
    split at isChange
    · cases isChange
    · rename_i differs
      cases isChange
      exact ⟨notRoot, unmanaged, rfl, rfl, by simpa using differs⟩
  · rintro ⟨notRoot, unmanaged, rfl, rfl, differs⟩
    refine ⟨changed, ?_, ?_⟩
    · rw [mem_freshPaths]
      refine ⟨List.mem_append.mpr ?_, List.not_mem_nil, unmanaged⟩
      by_cases inDraft : leaf draft changed = undefined
      · right
        apply mem_configLeaves_of_leaf wellBaseline notRoot
        intro inBaseline
        rw [inDraft, inBaseline] at differs
        cases differs
      · left
        exact mem_configLeaves_of_leaf wellDraft notRoot inDraft
    · rw [changes changed notRoot, differs]
      rfl

/-- A configuration is an object. -/
def IsObject
    (config : Config) : Prop :=
  ∃ entries, config = .node entries

theorem IsObject.set
    (isObject : IsObject config)
    (notRoot : path ≠ []) :
    IsObject (SettingsDraft.set config path value) := by
  obtain ⟨entries, rfl⟩ := isObject
  cases path with
  | nil => exact absurd rfl notRoot
  | cons key path =>
      unfold SettingsDraft.set PathTree.set
      exact ⟨_, rfl⟩

/-- A leaf that is set is there, and all other leaves stay. -/
theorem leaf_set
    (isObject : IsObject config)
    (terminal : value.isTerminal = true)
    (notNode : ∀ entries, entries ≠ [] → config.get path ≠ some (.node entries))
    (free : (∀ before rest, path = before ++ rest → before ≠ [] → rest ≠ [] →
        leaf config before = undefined) ∨
      value = undefined ∧
        ∃ before rest items, path = before ++ rest ∧ rest ≠ [] ∧
          config.get before = some (.leaf (.array items)))
    {other : ConfigPath}
    (notRoot : other ≠ []) :
    leaf (set config path value) other =
      if other = path then value else leaf config other := by
  rcases free with free | ⟨rfl, before, rest, items, isSplit, notEnd, isArray⟩
  · have isOpen : config.IsOpen Leaf.isArray path := by
      intro before rest content isSplit notEnd isLeaf
      by_cases isRoot : before = []
      · subst isRoot
        obtain ⟨entries, rfl⟩ := isObject
        cases isLeaf
      · have isUndefined := free before rest isSplit isRoot notEnd
        rw [leaf_of_get isLeaf rfl] at isUndefined
        cases isUndefined
        rfl
    split
    · rename_i same
      subst same
      apply leaf_of_get _ terminal
      have isSet : (set config other value).get (other ++ []) = value.get [] :=
        get_set isOpen []
      rw [List.append_nil] at isSet
      exact isSet
    · rename_i differs
      by_cases isBelow : path <+: other
      · obtain ⟨rest, rfl⟩ := isBelow
        have notEnd : rest ≠ [] := by
          rintro rfl
          simp at differs
        have nothing : value.get rest = none := by
          cases rest with
          | nil => exact absurd rfl notEnd
          | cons key rest =>
              cases value with
              | leaf content => rfl
              | node entries =>
                  cases entries with
                  | nil => rfl
                  | cons _ _ => cases terminal
        have gone : leaf (set config path value) (path ++ rest) = undefined :=
          leaf_of_none ((get_set isOpen rest).trans nothing)
        rw [gone]
        by_contra isThere
        obtain ⟨entries, notEmpty, isNode⟩ := node_above_leaf
          (Ne.symm isThere) notEnd
        exact notNode entries notEmpty isNode
      · by_cases isAbove : other <+: path
        · obtain ⟨rest, rfl⟩ := isAbove
          have notEnd : rest ≠ [] := by
            rintro rfl
            simp at differs
          obtain ⟨entries, notEmpty, isNode⟩ : ∃ entries, entries ≠ [] ∧
              (set config (other ++ rest) value).get other =
                some (.node entries) :=
            get_set_before isOpen notEnd
          rw [free other rest rfl notRoot notEnd]
          exact leaf_of_node isNode notEmpty
        · unfold leaf PathTree.leafAt set
          rw [get_set_apart ⟨isBelow, isAbove⟩]
  · have same : set config path undefined = config := by
      rw [isSplit]
      exact set_blocked isArray rfl notEnd
    rw [same]
    split
    · rename_i isPath
      subst isPath
      by_contra isThere
      obtain ⟨entries, _, isNode⟩ := node_above_leaf (isSplit ▸ isThere) notEnd
      rw [isArray] at isNode
      cases isNode
    · rfl

end Frameleaf.SettingsDraft
