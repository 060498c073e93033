import Frameleaf.SettingsDraft.RebaseLaws

namespace Frameleaf.SettingsDraft

open Json PathTrees

/-!
# Rebasing goes wrong for every other draft

A change at an object of the baseline conflicts with the baseline itself.  A
change below a leaf of the baseline is undone by the removal of that leaf, which
comes later in the list of changes.  A change carried below a leaf of the newer
settings removes that leaf.
-/

variable {builtIns : BuiltIns} {baseline draft latest : SystemConfig}

theorem applyChanges_append
    (target : Config)
    (first second : List ConfigChange) :
    applyChanges target (first ++ second) =
      applyChanges (applyChanges target first) second := by
  unfold applyChanges
  exact List.foldl_append

theorem applyChanges_cons
    (target : Config)
    (change : ConfigChange)
    (changes : List ConfigChange) :
    applyChanges target (change :: changes) =
      applyChanges (set target change.path change.after) changes :=
  rfl

variable {changes : List ConfigChange} {target : Config}
  {path before rest : ConfigPath}
  {entries : Entries ConfigKey Leaf}

theorem node_applyChanges
    (isNode : target.get path = some (.node entries))
    (notEmpty : entries ≠ [])
    (notAbove : ∀ change ∈ changes, ¬change.path <+: path) :
    ∃ later, later ≠ [] ∧
      (applyChanges target changes).get path = some (.node later) := by
  induction changes generalizing target entries with
  | nil =>
      exact ⟨entries, notEmpty, isNode⟩
  | cons change changes inductionHypothesis =>
      obtain ⟨next, isThere, isNext⟩ : ∃ next, next ≠ [] ∧
          (set target change.path change.after).get path =
            some (.node next) :=
        get_set_stays isNode notEmpty (notAbove change List.mem_cons_self)
      exact inductionHypothesis isNext isThere fun other member =>
        notAbove other (List.mem_cons_of_mem _ member)

theorem get_applyChanges_apart
    (apart : ∀ change ∈ changes, Apart change.path path) :
    (applyChanges target changes).get path = target.get path := by
  induction changes generalizing target with
  | nil =>
      rfl
  | cons change changes inductionHypothesis =>
      rw [applyChanges_cons, inductionHypothesis fun other member =>
        apart other (List.mem_cons_of_mem _ member)]
      exact get_set_apart (apart change List.mem_cons_self)

theorem freshPaths_append
    (first second seen : List ConfigPath) :
    ∃ others, freshPaths seen (first ++ second) =
        freshPaths seen first ++ others ∧
      ∀ path ∈ others, path ∉ first ∧ path ∈ second := by
  induction first generalizing seen with
  | nil =>
      refine ⟨freshPaths seen second, rfl, ?_⟩
      intro path member
      exact ⟨List.not_mem_nil, (mem_freshPaths.mp member).1⟩
  | cons path first inductionHypothesis =>
      have isFresh : ∀ {seen others}, freshPaths seen (first ++ second) =
          freshPaths seen first ++ others → ∀ other ∈ others,
            other ∉ seen ∧ isServerManagedConfigPath other = false := by
        intro seen others isAppend other member
        exact (mem_freshPaths.mp
          (isAppend ▸ List.mem_append_right _ member)).2
      rw [List.cons_append, freshPaths, freshPaths]
      split
      · rename_i skipped
        obtain ⟨others, isAppend, areOthers⟩ := inductionHypothesis seen
        refine ⟨others, isAppend, ?_⟩
        intro other member
        obtain ⟨unseen, unmanaged⟩ := isFresh isAppend other member
        refine ⟨?_, (areOthers other member).2⟩
        apply List.not_mem_cons_of_ne_of_not_mem _ (areOthers other member).1
        rintro rfl
        rcases skipped with isSeen | isManaged
        · exact unseen isSeen
        · rw [unmanaged] at isManaged
          cases isManaged
      · obtain ⟨others, isAppend, areOthers⟩ :=
          inductionHypothesis (path :: seen)
        refine ⟨others, ?_, ?_⟩
        · rw [isAppend, List.cons_append]
        · intro other member
          obtain ⟨unseen, _⟩ := isFresh isAppend other member
          refine ⟨?_, (areOthers other member).2⟩
          apply List.not_mem_cons_of_ne_of_not_mem _ (areOthers other member).1
          rintro rfl
          exact unseen List.mem_cons_self

theorem diffConfig_append
    (baseline draft : Config) :
    ∃ first second, diffConfig baseline draft = first ++ second ∧
      (∀ change ∈ first, change.path ∈ (configLeaves draft).map Prod.fst) ∧
      ∀ change ∈ second,
        change.path ∉ (configLeaves draft).map Prod.fst ∧
          change.path ∈ (configLeaves baseline).map Prod.fst := by
  obtain ⟨others, isAppend, areOthers⟩ := freshPaths_append
    ((configLeaves draft).map Prod.fst) ((configLeaves baseline).map Prod.fst) []
  refine ⟨_, _, by
    unfold diffConfig
    dsimp only
    rw [isAppend, List.filterMap_append], ?_, ?_⟩
  · intro change member
    obtain ⟨path, isFresh, isChange⟩ := List.mem_filterMap.mp member
    rw [path_of_changeOf isChange]
    exact (mem_freshPaths.mp isFresh).1
  · intro change member
    obtain ⟨path, isOther, isChange⟩ := List.mem_filterMap.mp member
    rw [path_of_changeOf isChange]
    exact areOthers path isOther

theorem UnmovedLaws.carried
    (laws : UnmovedLaws builtIns baseline.tree draft.tree) :
    carriedChanges builtIns baseline.tree draft.tree baseline.tree =
      diffConfig baseline.tree draft.tree := by
  have noConflicts := List.map_eq_nil_iff.mp laws.conflicts
  rw [List.filter_eq_nil_iff] at noConflicts
  apply List.filter_eq_self.mpr
  intro change member
  simpa using noConflicts change member

variable {change : ConfigChange}

theorem UnmovedLaws.leaves
    (laws : UnmovedLaws builtIns baseline.tree draft.tree)
    (member : change ∈ diffConfig baseline.tree draft.tree)
    (notEmpty : entries ≠ []) :
    baseline.tree.get change.path ≠ some (.node entries) := by
  rw [← laws.carried] at member
  obtain ⟨isMine, noConflict⟩ := mem_carriedChanges.mp member
  exact notNode_of_noConflict isMine noConflict entries notEmpty

theorem leaf_removed
    {first second : List ConfigChange}
    {removal : ConfigChange}
    {below : ConfigPath}
    (isUndefined : removal.after = undefined)
    (nodes : ∀ before rest, removal.path = before ++ rest → rest ≠ [] →
      ∃ entries, entries ≠ [] ∧ target.get before = some (.node entries))
    (notAbove : ∀ change ∈ first, ∀ before rest,
      removal.path = before ++ rest → rest ≠ [] → ¬change.path <+: before)
    (apart : ∀ change ∈ second, Apart change.path removal.path)
    (isBelow : removal.path <+: below)
    (isOther : removal.path ≠ below) :
    leaf (applyChanges target (first ++ removal :: second)) below =
      undefined := by
  have isOpen : (applyChanges target first).IsOpen Leaf.isArray
      removal.path := by
    intro before rest content isSplit notEnd isLeaf
    obtain ⟨entries, notEmpty, isNode⟩ := nodes before rest isSplit notEnd
    obtain ⟨later, _, isThere⟩ := node_applyChanges isNode notEmpty
      fun change member => notAbove change member before rest isSplit notEnd
    rw [isThere] at isLeaf
    cases isLeaf
  have isThere : (applyChanges target (first ++ removal :: second)).get
      removal.path = some undefined := by
    rw [applyChanges_append, applyChanges_cons, get_applyChanges_apart apart,
      isUndefined]
    have isSet : (set (applyChanges target first) removal.path undefined).get
        (removal.path ++ []) = undefined.get [] :=
      get_set isOpen []
    rw [List.append_nil] at isSet
    exact isSet
  obtain ⟨rest, rfl⟩ := isBelow
  by_contra isDefined
  have notEnd : rest ≠ [] := by
    rintro rfl
    simp at isOther
  obtain ⟨entries, _, isNode⟩ := node_above_leaf isDefined notEnd
  rw [isThere] at isNode
  cases isNode

theorem configLeaves_apart
    {config : Config}
    {first second : ConfigPath}
    (wellFormed : config.WellFormed)
    (isFirst : first ∈ (configLeaves config).map Prod.fst)
    (isSecond : second ∈ (configLeaves config).map Prod.fst)
    (isPrefix : first <+: second) :
    first = second := by
  obtain ⟨_, firstLeaf⟩ := (mem_configLeaves wellFormed).mp isFirst
  obtain ⟨_, secondLeaf⟩ := (mem_configLeaves wellFormed).mp isSecond
  obtain ⟨rest, rfl⟩ := isPrefix
  by_cases atEnd : rest = []
  · rw [atEnd, List.append_nil]
  · obtain ⟨value, isLeaf⟩ := Option.isSome_iff_exists.mp secondLeaf
    obtain ⟨isThere, _⟩ := Option.filter_eq_some_iff.mp isLeaf
    obtain ⟨entries, notEmpty, isNode⟩ := get_above isThere atEnd
    rw [not_listed_of_node isNode notEmpty] at firstLeaf
    cases firstLeaf

/-- The removal of a leaf in favour of an object comes after all it removes. -/
theorem removal_last
    (notRoot : path ≠ [])
    (unmanaged : isServerManagedConfigPath path = false)
    (wasDefined : leaf baseline.tree path ≠ undefined)
    (isNode : draft.tree.get path = some (.node entries))
    (notEmpty : entries ≠ []) :
    ∃ earlier later, diffConfig baseline.tree draft.tree = earlier ++ {
        path
        before := leaf baseline.tree path
        after := undefined } :: later ∧
      ∀ change ∈ later, Apart change.path path := by
  have isRemoval : {
      path
      before := leaf baseline.tree path
      after := undefined } ∈ diffConfig baseline.tree draft.tree := by
    apply (mem_diffConfig baseline.wellFormed draft.wellFormed).mpr
    refine ⟨notRoot, unmanaged, rfl, (leaf_of_node isNode notEmpty).symm, ?_⟩
    dsimp only
    rw [Bool.eq_false_iff]
    intro same
    exact wasDefined (isEqual_undefined.mp same)
  have notListed : path ∉ (configLeaves draft.tree).map Prod.fst := by
    rw [mem_configLeaves draft.wellFormed, not_listed_of_node isNode notEmpty]
    rintro ⟨_, impossible⟩
    cases impossible
  obtain ⟨drafted, others, isAppend, areDrafted, areOthers⟩ :=
    diffConfig_append baseline.tree draft.tree
  have isOther := isRemoval
  rw [isAppend, List.mem_append] at isOther
  have inOthers := isOther.resolve_left fun isDrafted =>
    notListed (areDrafted _ isDrafted)
  obtain ⟨earlier, later, isAround⟩ := List.append_of_mem inOthers
  have order : diffConfig baseline.tree draft.tree =
      (drafted ++ earlier) ++ {
        path
        before := leaf baseline.tree path
        after := undefined } :: later := by
    rw [isAppend, isAround, List.append_assoc]
  refine ⟨drafted ++ earlier, later, order, ?_⟩
  intro change isLater
  have distinct := diffConfig_distinct baseline.tree draft.tree
  rw [order, List.pairwise_append, List.pairwise_cons] at distinct
  have differs : path ≠ change.path := distinct.2.1.1 change isLater
  have isListed := mem_configLeaves_of_leaf baseline.wellFormed notRoot
    wasDefined
  have isAlsoListed := (areOthers change (by
    rw [isAround]
    exact List.mem_append_right _ (List.mem_cons_of_mem _ isLater))).2
  refine ⟨fun isPrefix => differs ?_, fun isPrefix => differs ?_⟩
  · exact (configLeaves_apart baseline.wellFormed isAlsoListed isListed
      isPrefix).symm
  · exact configLeaves_apart baseline.wellFormed isListed isAlsoListed isPrefix

/-- No change is below a leaf of the baseline. -/
theorem UnmovedLaws.above
    (laws : UnmovedLaws builtIns baseline.tree draft.tree)
    (member : change ∈ diffConfig baseline.tree draft.tree)
    (isSplit : change.path = before ++ rest)
    (notRoot : before ≠ [])
    (notEnd : rest ≠ []) :
    leaf baseline.tree before = undefined := by
  by_contra wasDefined
  obtain ⟨isInside, unmanaged, isBefore, isAfter, differs⟩ := (mem_diffConfig
    baseline.wellFormed draft.wellFormed).mp member
  have wasUndefined : leaf baseline.tree change.path = undefined := by
    by_contra isThere
    rw [isSplit] at isThere
    exact wasDefined (leaf_above_leaf isThere notEnd)
  have isMine : leaf draft.tree change.path ≠ undefined := by
    intro isUndefined
    rw [isBefore, isAfter, wasUndefined, isUndefined] at differs
    cases differs
  have isGiven : leaf (rebaseDraft builtIns baseline.tree draft.tree
      baseline.tree false).draft change.path ≠ undefined := by
    intro isUndefined
    have same := laws.given change.path isInside unmanaged
    rw [isUndefined, undefined_isEqual] at same
    exact isMine same
  cases isManaged : isServerManagedConfigPath before with
  | true =>
      apply wasDefined
      rw [← laws.managed before notRoot isManaged]
      exact leaf_above_leaf (isSplit ▸ isGiven) notEnd
  | false =>
      apply isGiven
      obtain ⟨entries, notEmpty, isNode⟩ :=
        node_above_leaf (isSplit ▸ isMine) notEnd
      obtain ⟨earlier, later, order, apart⟩ :=
        removal_last notRoot isManaged wasDefined isNode notEmpty
      rw [rebaseDraft_draft, laws.carried, order]
      apply leaf_removed rfl
      · intro above tail isTail notLast
        dsimp only at isTail
        exact node_above_leaf (isTail ▸ wasDefined) notLast
      · rintro other isEarlier above tail isTail notLast ⟨between, rfl⟩
        dsimp only at isTail
        have isChange : other ∈ diffConfig baseline.tree draft.tree := by
          rw [order]
          exact List.mem_append_left _ isEarlier
        rw [isTail, List.append_assoc] at wasDefined
        obtain ⟨entries, notEmpty, isNode⟩ := node_above_leaf wasDefined
          (List.append_ne_nil_of_right_ne_nil between notLast)
        exact laws.leaves isChange notEmpty isNode
      · exact apart
      · dsimp only
        rw [isSplit]
        exact List.prefix_append before rest
      · dsimp only
        rw [isSplit]
        simpa using notEnd

theorem UnmovedLaws.straight
    (laws : UnmovedLaws builtIns baseline.tree draft.tree) :
    Straight baseline draft where
  leaves := fun _ member _ notEmpty => laws.leaves member notEmpty
  above := fun _ member _ _ isSplit notRoot notEnd =>
    laws.above member isSplit notRoot notEnd

theorem RebaseLaws.removed
    (laws : RebaseLaws builtIns baseline.tree draft.tree latest.tree)
    (notRoot : path ≠ [])
    (wasDefined : leaf latest.tree path ≠ undefined)
    (isGone : leaf (rebaseDraft builtIns baseline.tree draft.tree latest.tree
      false).draft path = undefined) :
    ∃ change ∈ diffConfig baseline.tree draft.tree, change.path = path := by
  cases isManaged : isServerManagedConfigPath path with
  | true =>
      rw [laws.managed path notRoot isManaged] at isGone
      exact absurd isGone wasDefined
  | false =>
      have isChange : {
          path
          before := leaf latest.tree path
          after := undefined } ∈ diffConfig latest.tree
            (rebaseDraft builtIns baseline.tree draft.tree latest.tree
              false).draft := by
        apply (mem_diffConfig latest.wellFormed wellFormed_rebased).mpr
        refine ⟨notRoot, isManaged, rfl, isGone.symm, ?_⟩
        dsimp only
        rw [Bool.eq_false_iff]
        intro same
        exact wasDefined (isEqual_undefined.mp same)
      obtain ⟨mine, isMine, _, _, same⟩ := (laws.changes _).mp isChange
      exact ⟨mine, isMine, (congrArg ConfigChange.path same).symm⟩

/-- A leaf that does not block, or an object, becomes an object. -/
theorem node_or_leaf_applyChanges
    {value : Config}
    (isThere : target.get path = some value)
    (terminal : value.isTerminal = true)
    (notArray : ∀ items, value ≠ .leaf (.array items))
    (notAbove : ∀ change ∈ changes, ¬change.path <+: path)
    (someBelow : ∃ change ∈ changes, path <+: change.path) :
    ∃ entries, entries ≠ [] ∧
      (applyChanges target changes).get path = some (.node entries) := by
  induction changes generalizing target with
  | nil =>
      obtain ⟨_, member, _⟩ := someBelow
      cases member
  | cons change changes inductionHypothesis =>
      have notHere := notAbove change List.mem_cons_self
      have notLater : ∀ other ∈ changes, ¬other.path <+: path :=
        fun other member => notAbove other (List.mem_cons_of_mem _ member)
      rw [applyChanges_cons]
      by_cases isBelow : path <+: change.path
      · obtain ⟨rest, isSplit⟩ := isBelow
        have notEnd : rest ≠ [] := by
          rintro rfl
          rw [List.append_nil] at isSplit
          exact notHere (isSplit ▸ List.prefix_rfl)
        have free : ∀ content, value = .leaf content →
            content.isArray = false := by
          rintro content rfl
          cases content with
          | array items => exact absurd rfl (notArray items)
          | _ => rfl
        have isOpen : target.IsOpen Leaf.isArray (path ++ rest) :=
          isOpen_append isThere (isOpen_terminal terminal free rest)
        obtain ⟨entries, notEmpty, isNode⟩ : ∃ entries, entries ≠ [] ∧
            (set target (path ++ rest) change.after).get path =
              some (.node entries) :=
          get_set_before isOpen notEnd
        rw [← isSplit]
        exact node_applyChanges isNode notEmpty notLater
      · apply inductionHypothesis _ notLater
        · obtain ⟨other, member, isAbove⟩ := someBelow
          rcases List.mem_cons.mp member with rfl | member
          · exact absurd isAbove isBelow
          · exact ⟨other, member, isAbove⟩
        · unfold SettingsDraft.set
          rw [get_set_apart ⟨notHere, isBelow⟩]
          exact isThere

/-- No change is carried below a leaf of the newer settings. -/
theorem RebaseLaws.carried
    (laws : RebaseLaws builtIns baseline.tree draft.tree latest.tree)
    (straight : Straight baseline draft)
    (isMine : change ∈ diffConfig baseline.tree draft.tree)
    (noConflict : isConflict builtIns latest.tree change = false)
    (isSplit : change.path = before ++ rest)
    (notRoot : before ≠ [])
    (notEnd : rest ≠ []) :
    leaf latest.tree before = undefined ∨
      change.after = undefined ∧
        ∃ items, leaf latest.tree before = .leaf (.array items) := by
  by_contra isOther
  rw [not_or] at isOther
  obtain ⟨wasDefined, notRemoval⟩ := isOther
  have isAbove : before <+: change.path :=
    isSplit ▸ List.prefix_append before rest
  have noChange : ∀ other ∈ diffConfig baseline.tree draft.tree,
      ¬other.path <+: before := by
    intro other member isPrefix
    have same := changes_apart straight.leaves straight.above member isMine
      (isPrefix.trans isAbove)
    rw [same, isSplit] at isPrefix
    have shorter := isPrefix.length_le
    rw [List.length_append] at shorter
    exact notEnd (List.length_eq_zero_iff.mp (by omega))
  have stays : leaf (rebaseDraft builtIns baseline.tree draft.tree latest.tree
      false).draft before ≠ undefined := by
    intro isGone
    obtain ⟨other, member, same⟩ := laws.removed notRoot wasDefined isGone
    exact noChange other member (same ▸ List.prefix_rfl)
  by_cases isRemoval : change.after = undefined
  · obtain ⟨isThere, terminal⟩ := get_of_leaf wasDefined
    have notArray : ∀ items, leaf latest.tree before ≠ .leaf (.array items) :=
      fun items isArray => notRemoval ⟨isRemoval, items, isArray⟩
    apply stays
    rw [rebaseDraft_draft]
    obtain ⟨entries, notEmpty, isNode⟩ := node_or_leaf_applyChanges isThere
      terminal notArray
      (fun other member => noChange other (mem_carriedChanges.mp member).1)
      ⟨change, mem_carriedChanges.mpr ⟨isMine, noConflict⟩, isAbove⟩
    exact leaf_of_node isNode notEmpty
  · have isNew : leaf latest.tree change.path = undefined := by
      by_contra isThere
      rw [isSplit] at isThere
      exact wasDefined (leaf_above_leaf isThere notEnd)
    have isChange := (laws.changes _).mpr ⟨change, isMine, noConflict, by
      rw [isNew, Bool.eq_false_iff]
      intro same
      exact isRemoval (undefined_isEqual.mp same), rfl⟩
    obtain ⟨_, _, _, isGiven, _⟩ :=
      (mem_diffConfig latest.wellFormed wellFormed_rebased).mp isChange
    dsimp only at isGiven
    apply stays
    refine leaf_above_leaf ?_ notEnd
    rw [← isSplit, ← isGiven]
    exact isRemoval

/-- The key of a group. -/
def groupKey : ConfigKey := ⟨"group", by decide⟩

/-- The key of a setting. -/
def settingKey : ConfigKey := ⟨"setting", by decide⟩

/-- A group with a setting. -/
def grouped : SystemConfig where
  entries := [(groupKey, .node [(settingKey, .leaf (.number "1"))])]
  wellFormed := by
    refine .node (by decide) ?_
    intro entry member
    cases List.mem_singleton.mp member
    refine .node (by decide) ?_
    intro entry member
    cases List.mem_singleton.mp member
    exact .leaf _

/-- The group is switched off. -/
def ungrouped : SystemConfig where
  entries := [(groupKey, .leaf .null)]
  wellFormed := by
    refine .node (by decide) ?_
    intro entry member
    cases List.mem_singleton.mp member
    exact .leaf _

end Frameleaf.SettingsDraft
