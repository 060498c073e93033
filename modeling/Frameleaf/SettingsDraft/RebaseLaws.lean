import Frameleaf.SettingsDraft.Leaves

namespace Frameleaf.SettingsDraft

open Json PathTrees

/-!
# When a draft can be rebased

A draft is carried onto newer settings as a list of leaves.  That is right as
long as no leaf of the draft lies where the baseline has an object or below a
leaf of the baseline, and no leaf is carried below a leaf of the newer settings.
-/

/-- A configuration: an object whose keys are there once. -/
structure SystemConfig where
  entries : Entries ConfigKey Leaf
  wellFormed : (PathTree.node entries).WellFormed

/-- The tree of a configuration. -/
abbrev SystemConfig.tree
    (config : SystemConfig) : Config :=
  .node config.entries

variable {builtIns : BuiltIns}

/-- What is wanted of a draft on newer settings. -/
structure RebaseLaws
    (builtIns : BuiltIns)
    (baseline draft latest : Config) : Prop where
  /-- What differs from the newer settings is mine, unless it conflicts. -/
  changes : ∀ change,
    change ∈ diffConfig latest
        (rebaseDraft builtIns baseline draft latest false).draft ↔
      ∃ mine ∈ diffConfig baseline draft,
        isConflict builtIns latest mine = false ∧
          isEqual (leaf latest mine.path) mine.after = false ∧
            change = {
              path := mine.path
              before := leaf latest mine.path
              after := mine.after }
  /-- A path conflicts when its newer value is neither the old one nor mine. -/
  conflicts : ∀ path,
    path ∈ (rebaseDraft builtIns baseline draft latest false).conflicts.map
        ConfigConflict.path ↔
      path ∈ (diffConfig baseline draft).map ConfigChange.path ∧
        (get builtIns latest path).isEqual (leaf baseline path) = false ∧
          (get builtIns latest path).isEqual (leaf draft path) = false
  /-- What the server keeps is what it has kept. -/
  managed : ∀ path, path ≠ [] → isServerManagedConfigPath path = true →
    leaf (rebaseDraft builtIns baseline draft latest false).draft path =
      leaf latest path

/-- Rebasing onto the baseline gives back the draft. -/
structure UnmovedLaws
    (builtIns : BuiltIns)
    (baseline draft : Config) : Prop where
  conflicts : (rebaseDraft builtIns baseline draft baseline false).conflicts = []
  given : ∀ path, path ≠ [] → isServerManagedConfigPath path = false →
    isEqual
      (leaf (rebaseDraft builtIns baseline draft baseline false).draft path)
      (leaf draft path) = true
  managed : ∀ path, path ≠ [] → isServerManagedConfigPath path = true →
    leaf (rebaseDraft builtIns baseline draft baseline false).draft path =
      leaf baseline path

/-- The leaves of a draft can be carried one by one. -/
structure Mergeable
    (builtIns : BuiltIns)
    (baseline draft latest : Config) : Prop where
  /-- No change is where the baseline has an object. -/
  leaves : ∀ change ∈ diffConfig baseline draft, ∀ entries, entries ≠ [] →
    baseline.get change.path ≠ some (.node entries)
  /-- No change is below a leaf of the baseline. -/
  above : ∀ change ∈ diffConfig baseline draft, ∀ before rest,
    change.path = before ++ rest → before ≠ [] → rest ≠ [] →
      leaf baseline before = undefined
  /-- No change is carried below a leaf of the newer settings. -/
  carried : ∀ change ∈ diffConfig baseline draft,
    isConflict builtIns latest change = false → ∀ before rest,
      change.path = before ++ rest → before ≠ [] → rest ≠ [] →
        leaf latest before = undefined ∨
          change.after = undefined ∧
            ∃ items, leaf latest before = .leaf (.array items)

variable {baseline draft : SystemConfig} {change first second : ConfigChange}

theorem change_terminal
    (member : change ∈ diffConfig baseline.tree draft.tree) :
    change.after.isTerminal = true := by
  obtain ⟨_, _, _, isAfter, _⟩ :=
    (mem_diffConfig baseline.wellFormed draft.wellFormed).mp member
  rw [isAfter]
  exact leaf_terminal _ _

theorem change_ext
    (isFirst : first ∈ diffConfig baseline.tree draft.tree)
    (isSecond : second ∈ diffConfig baseline.tree draft.tree)
    (same : first.path = second.path) :
    first = second := by
  obtain ⟨_, _, firstBefore, firstAfter, _⟩ :=
    (mem_diffConfig baseline.wellFormed draft.wellFormed).mp isFirst
  obtain ⟨_, _, secondBefore, secondAfter, _⟩ :=
    (mem_diffConfig baseline.wellFormed draft.wellFormed).mp isSecond
  obtain ⟨path, before, after⟩ := first
  obtain ⟨other, otherBefore, otherAfter⟩ := second
  dsimp only at same firstBefore firstAfter secondBefore secondAfter
  rw [firstBefore, firstAfter, secondBefore, secondAfter, same]

theorem changes_apart
    (leaves : ∀ change ∈ diffConfig baseline.tree draft.tree,
      ∀ entries, entries ≠ [] →
        baseline.tree.get change.path ≠ some (.node entries))
    (above : ∀ change ∈ diffConfig baseline.tree draft.tree,
      ∀ before rest, change.path = before ++ rest → before ≠ [] → rest ≠ [] →
        leaf baseline.tree before = undefined)
    (isFirst : first ∈ diffConfig baseline.tree draft.tree)
    (isSecond : second ∈ diffConfig baseline.tree draft.tree)
    (isPrefix : first.path <+: second.path) :
    first.path = second.path := by
  obtain ⟨rest, isSplit⟩ := isPrefix
  cases rest with
  | nil =>
      rw [← isSplit, List.append_nil]
  | cons key rest =>
      obtain ⟨firstRoot, _, isBefore, isAfter, differs⟩ :=
        (mem_diffConfig baseline.wellFormed draft.wellFormed).mp isFirst
      obtain ⟨_, _, otherBefore, otherAfter, otherDiffers⟩ :=
        (mem_diffConfig baseline.wellFormed draft.wellFormed).mp isSecond
      have wasUndefined := above second isSecond first.path (key :: rest)
        isSplit.symm firstRoot nofun
      have isMine : leaf draft.tree first.path ≠ undefined := by
        intro isUndefined
        rw [isBefore, isAfter, wasUndefined, isUndefined] at differs
        cases differs
      have mineBelow : leaf draft.tree second.path = undefined := by
        by_contra isDefined
        rw [← isSplit] at isDefined
        exact isMine (leaf_above_leaf isDefined nofun)
      have wasBelow : leaf baseline.tree second.path ≠ undefined := by
        intro isUndefined
        rw [otherBefore, otherAfter, mineBelow, isUndefined] at otherDiffers
        cases otherDiffers
      rw [← isSplit] at wasBelow
      obtain ⟨entries, notEmpty, isNode⟩ := node_above_leaf wasBelow nofun
      exact absurd isNode (leaves first isFirst entries notEmpty)

/-- A change can be carried onto a configuration as a leaf. -/
structure Carried
    (target : Config)
    (change : ConfigChange) : Prop where
  notRoot : change.path ≠ []
  terminal : change.after.isTerminal = true
  notNode : ∀ entries, entries ≠ [] →
    target.get change.path ≠ some (.node entries)
  free : (∀ before rest, change.path = before ++ rest → before ≠ [] →
      rest ≠ [] → leaf target before = undefined) ∨
    change.after = undefined ∧
      ∃ before rest items, change.path = before ++ rest ∧ rest ≠ [] ∧
        target.get before = some (.leaf (.array items))

variable {target value config : Config}

/-- Carrying a change leaves a change elsewhere as it was. -/
theorem Carried.set
    (isObject : IsObject target)
    (isFirst : Carried target first)
    (isSecond : Carried target second)
    (apart : Apart first.path second.path) :
    Carried (SettingsDraft.set target first.path first.after) second where
  notRoot := isSecond.notRoot
  terminal := isSecond.terminal
  notNode := by
    intro entries notEmpty
    unfold SettingsDraft.set
    rw [get_set_apart apart]
    exact isSecond.notNode entries notEmpty
  free := by
    rcases isSecond.free with free | ⟨isUndefined, before, rest, items,
      isSplit, notEnd, isArray⟩
    · left
      intro before rest isSplit notRoot notEnd
      rw [leaf_set isObject isFirst.terminal isFirst.notNode isFirst.free
        notRoot]
      have notFirst : before ≠ first.path := by
        rintro rfl
        exact apart.1 ⟨rest, isSplit.symm⟩
      rw [if_neg notFirst]
      exact free before rest isSplit notRoot notEnd
    · right
      refine ⟨isUndefined, before, rest, items, isSplit, notEnd, ?_⟩
      have notAbove : ¬first.path <+: before := by
        intro isPrefix
        exact apart.1 (isPrefix.trans ⟨rest, isSplit.symm⟩)
      by_cases isBelow : before <+: first.path
      · obtain ⟨tail, isTail⟩ := isBelow
        have notTail : tail ≠ [] := by
          rintro rfl
          rw [List.append_nil] at isTail
          exact notAbove (isTail ▸ List.prefix_rfl)
        unfold SettingsDraft.set
        rw [← isTail, set_blocked isArray rfl notTail]
        exact isArray
      · unfold SettingsDraft.set
        rw [get_set_apart ⟨notAbove, isBelow⟩]
        exact isArray

variable {path : ConfigPath}

theorem leaf_applyChanges
    {changes : List ConfigChange}
    (isObject : IsObject target)
    (carried : ∀ change ∈ changes, Carried target change)
    (apart : changes.Pairwise fun first second =>
      Apart first.path second.path)
    (notRoot : path ≠ []) :
    leaf (applyChanges target changes) path =
      match changes.find? fun change => change.path = path with
      | some change => change.after
      | none => leaf target path := by
  induction changes generalizing target with
  | nil =>
      rfl
  | cons first changes inductionHypothesis =>
      obtain ⟨others, rest⟩ := List.pairwise_cons.mp apart
      have isFirst := carried first List.mem_cons_self
      have isLater : ∀ change ∈ changes,
          Carried (set target first.path first.after) change := by
        intro change member
        exact isFirst.set isObject (carried change (List.mem_cons_of_mem _ member))
          (others change member)
      unfold applyChanges
      rw [List.foldl_cons]
      change leaf (applyChanges (set target first.path first.after) changes)
        path = _
      rw [inductionHypothesis (isObject.set isFirst.notRoot) isLater rest,
        leaf_set isObject isFirst.terminal isFirst.notNode isFirst.free notRoot]
      by_cases isHere : first.path = path
      · have noOther : changes.find? (fun change => change.path = path) =
            none := by
          rw [List.find?_eq_none]
          intro change member isSame
          have lies := others change member
          rw [isHere, of_decide_eq_true isSame] at lies
          exact lies.1 List.prefix_rfl
        rw [noOther, List.find?_cons_of_pos (by simpa using isHere)]
        dsimp only
        rw [if_pos isHere.symm]
      · rw [List.find?_cons_of_neg (by simpa using isHere),
          if_neg (Ne.symm isHere)]

theorem wellFormed_applyChanges
    {changes : List ConfigChange}
    (wellFormed : target.WellFormed)
    (terminal : ∀ change ∈ changes, change.after.isTerminal = true) :
    (applyChanges target changes).WellFormed := by
  induction changes generalizing target with
  | nil =>
      exact wellFormed
  | cons first changes inductionHypothesis =>
      have isValue : first.after.WellFormed := by
        have isTerminal := terminal first List.mem_cons_self
        generalize first.after = value at isTerminal ⊢
        cases value with
        | leaf content => exact .leaf content
        | node entries =>
            cases entries with
            | nil => exact .node List.nodup_nil nofun
            | cons _ _ => cases isTerminal
      exact inductionHypothesis (wellFormed.set isValue first.path)
        fun change member => terminal change (List.mem_cons_of_mem _ member)

/-- `get` finds what is there, or nothing, or a property of a leaf above. -/
theorem get_cases
    (builtIns : BuiltIns)
    (config : Config)
    (path : ConfigPath) :
    (∃ value, config.get path = some value ∧
        get builtIns config path = .value value) ∨
      config.get path = none ∧
        (get builtIns config path = .value undefined ∨
          ∃ before rest content, path = before ++ rest ∧ rest ≠ [] ∧
            content ≠ .undefined ∧ config.get before = some (.leaf content)) := by
  induction path generalizing config with
  | nil =>
      exact .inl ⟨config, rfl, rfl⟩
  | cons key path inductionHypothesis =>
      cases config with
      | leaf content =>
          right
          refine ⟨rfl, ?_⟩
          by_cases isUndefined : content = .undefined
          · subst isUndefined
            exact .inl rfl
          · exact .inr ⟨[], key :: path, content, rfl, nofun, isUndefined, rfl⟩
      | node entries =>
          have below : ∀ rest, (PathTree.node entries).get (key :: rest) =
              (entries.lookup key).bind fun child => child.get rest := by
            intro rest
            rw [PathTree.get]
            cases entries.lookup key with
            | none => rfl
            | some child => rfl
          rw [get, below]
          cases isThere : entries.lookup key with
          | none =>
              exact .inr ⟨rfl, .inl rfl⟩
          | some child =>
              rcases inductionHypothesis child with isFound | ⟨missing, isGet |
                ⟨before, rest, content, isSplit, notEnd, isDefined, isLeaf⟩⟩
              · exact .inl isFound
              · exact .inr ⟨missing, .inl isGet⟩
              · refine .inr ⟨missing, .inr ⟨key :: before, rest, content, ?_,
                  notEnd, isDefined, ?_⟩⟩
                · rw [isSplit, List.cons_append]
                · rw [below, isThere]
                  exact isLeaf

theorem isEqual_node_terminal
    {entries : Entries ConfigKey Leaf}
    (notEmpty : entries ≠ [])
    (terminal : value.isTerminal = true) :
    isEqual (.node entries) value = false := by
  cases value with
  | leaf content =>
      rfl
  | node others =>
      cases others with
      | cons _ _ => cases terminal
      | nil =>
          cases entries with
          | nil => exact absurd rfl notEmpty
          | cons _ _ => simp [isEqual]

theorem notNode_of_get
    (terminal : value.isTerminal = true)
    (isFound : (get builtIns config path).isEqual value = true) :
    ∀ entries, entries ≠ [] → config.get path ≠ some (.node entries) := by
  intro entries notEmpty isNode
  rcases get_cases builtIns config path with
    ⟨found, isThere, isGet⟩ | ⟨missing, _⟩
  · rw [isNode] at isThere
    cases isThere
    rw [isGet, Found.isEqual, isEqual_node_terminal notEmpty terminal] at isFound
    cases isFound
  · rw [isNode] at missing
    cases missing

open Json PathTrees

/-!
## Rebasing is right exactly for drafts that can be merged

If no change crosses a leaf or an object of the baseline or of the newer
settings, exactly my changes are carried; if one does, something is lost or a
conflict is reported that is none.
-/

variable {builtIns : BuiltIns} {baseline draft latest : SystemConfig}

theorem path_of_changeOf
    {before after : List (ConfigPath × Config)}
    (isChange : changeOf before after path = some change) :
    change.path = path := by
  unfold changeOf at isChange
  dsimp only at isChange
  split at isChange
  · cases isChange
  · cases isChange
    rfl

theorem diffConfig_distinct
    (baseline draft : Config) :
    (diffConfig baseline draft).Pairwise fun first second =>
      first.path ≠ second.path := by
  unfold diffConfig
  rw [List.pairwise_filterMap]
  apply (nodup_freshPaths _ _).imp
  intro path other differs first isFirst second isSecond same
  rw [path_of_changeOf isFirst, path_of_changeOf isSecond] at same
  exact differs same

/-- The changes of a draft that crosses nothing of its baseline. -/
structure Straight
    (baseline draft : SystemConfig) : Prop where
  leaves : ∀ change ∈ diffConfig baseline.tree draft.tree,
    ∀ entries, entries ≠ [] →
      baseline.tree.get change.path ≠ some (.node entries)
  above : ∀ change ∈ diffConfig baseline.tree draft.tree,
    ∀ before rest, change.path = before ++ rest → before ≠ [] → rest ≠ [] →
      leaf baseline.tree before = undefined

theorem Straight.apart
    (straight : Straight baseline draft) :
    (diffConfig baseline.tree draft.tree).Pairwise fun first second =>
      Apart first.path second.path := by
  have distinct := diffConfig_distinct baseline.tree draft.tree
  apply distinct.imp_of_mem
  intro first second isFirst isSecond differs
  refine ⟨fun isPrefix => differs ?_, fun isPrefix => differs ?_⟩
  · exact changes_apart straight.leaves straight.above isFirst isSecond isPrefix
  · exact (changes_apart straight.leaves straight.above isSecond isFirst
      isPrefix).symm

/-- The changes that are carried onto the newer settings. -/
def carriedChanges
    (builtIns : BuiltIns)
    (baseline draft latest : Config) : List ConfigChange :=
  (diffConfig baseline draft).filter fun change =>
    !isConflict builtIns latest change

theorem rebaseDraft_draft
    (builtIns : BuiltIns)
    (baseline draft latest : Config) :
    (rebaseDraft builtIns baseline draft latest false).draft =
      applyChanges latest (carriedChanges builtIns baseline draft latest) := by
  simp [rebaseDraft, carriedChanges]

theorem mem_carriedChanges
    {baseline draft latest : Config} :
    change ∈ carriedChanges builtIns baseline draft latest ↔
      change ∈ diffConfig baseline draft ∧
        isConflict builtIns latest change = false := by
  simp [carriedChanges]

theorem before_terminal
    (member : change ∈ diffConfig baseline.tree draft.tree) :
    change.before.isTerminal = true := by
  obtain ⟨_, _, isBefore, _, _⟩ :=
    (mem_diffConfig baseline.wellFormed draft.wellFormed).mp member
  rw [isBefore]
  exact leaf_terminal _ _

theorem notNode_of_noConflict
    (member : change ∈ diffConfig baseline.tree draft.tree)
    (noConflict : isConflict builtIns config change = false) :
    ∀ entries, entries ≠ [] → config.get change.path ≠ some (.node entries) := by
  unfold isConflict at noConflict
  dsimp only at noConflict
  cases isOld : (get builtIns config change.path).isEqual change.before with
  | true =>
      exact notNode_of_get (before_terminal member) isOld
  | false =>
      cases isMine : (get builtIns config change.path).isEqual change.after with
      | true =>
          exact notNode_of_get (change_terminal member) isMine
      | false =>
          rw [isOld, isMine] at noConflict
          cases noConflict

theorem SystemConfig.isObject
    (config : SystemConfig) : IsObject config.tree :=
  ⟨config.entries, rfl⟩

theorem Mergeable.isCarried
    (mergeable : Mergeable builtIns baseline.tree draft.tree latest.tree)
    (member : change ∈ carriedChanges builtIns baseline.tree draft.tree
      latest.tree) :
    Carried latest.tree change := by
  obtain ⟨isMine, noConflict⟩ := mem_carriedChanges.mp member
  obtain ⟨notRoot, _⟩ :=
    (mem_diffConfig baseline.wellFormed draft.wellFormed).mp isMine
  refine {
    notRoot := notRoot
    terminal := change_terminal isMine
    notNode := notNode_of_noConflict isMine noConflict
    free := ?_ }
  by_cases isFree : ∀ before rest, change.path = before ++ rest →
      before ≠ [] → rest ≠ [] → leaf latest.tree before = undefined
  · exact .inl isFree
  · right
    push Not at isFree
    obtain ⟨before, rest, isSplit, isInside, notEnd, isDefined⟩ := isFree
    rcases mergeable.carried change isMine noConflict before rest isSplit
        isInside notEnd with isUndefined | ⟨isUndefined, items, isArray⟩
    · exact absurd isUndefined isDefined
    · refine ⟨isUndefined, before, rest, items, isSplit, notEnd, ?_⟩
      rw [← isArray]
      exact (get_of_leaf isDefined).1

theorem Mergeable.straight
    (mergeable : Mergeable builtIns baseline.tree draft.tree latest.tree) :
    Straight baseline draft where
  leaves := mergeable.leaves
  above := mergeable.above

theorem Straight.apart_carried
    (straight : Straight baseline draft) :
    (carriedChanges builtIns baseline.tree draft.tree
      latest.tree).Pairwise fun first second =>
        Apart first.path second.path :=
  straight.apart.filter _

theorem Mergeable.leaf_rebased
    (mergeable : Mergeable builtIns baseline.tree draft.tree latest.tree)
    (notRoot : path ≠ []) :
    leaf (rebaseDraft builtIns baseline.tree draft.tree latest.tree
        false).draft path =
      match (carriedChanges builtIns baseline.tree draft.tree
          latest.tree).find? fun change => change.path = path with
      | some change => change.after
      | none => leaf latest.tree path := by
  rw [rebaseDraft_draft]
  exact leaf_applyChanges latest.isObject (fun _ => mergeable.isCarried)
    mergeable.straight.apart_carried notRoot

theorem wellFormed_rebased :
    (rebaseDraft builtIns baseline.tree draft.tree latest.tree
      false).draft.WellFormed := by
  rw [rebaseDraft_draft]
  apply wellFormed_applyChanges latest.wellFormed
  intro change member
  exact change_terminal (mem_carriedChanges.mp member).1

theorem find_carried
    (member : change ∈ carriedChanges builtIns baseline.tree draft.tree
      latest.tree) :
    (carriedChanges builtIns baseline.tree draft.tree latest.tree).find?
        (fun other => other.path = change.path) = some change := by
  cases isFound : (carriedChanges builtIns baseline.tree draft.tree
      latest.tree).find? fun other => other.path = change.path with
  | none =>
      have differs := List.find?_eq_none.mp isFound change member
      simp at differs
  | some other =>
      have same := List.find?_some isFound
      have isOther := List.mem_of_find?_eq_some isFound
      rw [change_ext (mem_carriedChanges.mp isOther).1
        (mem_carriedChanges.mp member).1 (of_decide_eq_true same)]

theorem Mergeable.leaf_kept
    (mergeable : Mergeable builtIns baseline.tree draft.tree latest.tree)
    (notRoot : path ≠ [])
    (notCarried : ∀ change ∈ carriedChanges builtIns baseline.tree draft.tree
      latest.tree, change.path ≠ path) :
    leaf (rebaseDraft builtIns baseline.tree draft.tree latest.tree
      false).draft path = leaf latest.tree path := by
  rw [mergeable.leaf_rebased notRoot]
  have nothing : (carriedChanges builtIns baseline.tree draft.tree
      latest.tree).find? (fun change => change.path = path) = none := by
    rw [List.find?_eq_none]
    intro change member
    simpa using notCarried change member
  rw [nothing]

theorem Mergeable.leaf_mine
    (mergeable : Mergeable builtIns baseline.tree draft.tree latest.tree)
    (member : change ∈ carriedChanges builtIns baseline.tree draft.tree
      latest.tree) :
    leaf (rebaseDraft builtIns baseline.tree draft.tree latest.tree
      false).draft change.path = change.after := by
  obtain ⟨notRoot, _⟩ := (mem_diffConfig baseline.wellFormed
    draft.wellFormed).mp (mem_carriedChanges.mp member).1
  rw [mergeable.leaf_rebased notRoot, find_carried member]

theorem conflicts_iff
    (path : ConfigPath) :
    path ∈ (rebaseDraft builtIns baseline.tree draft.tree latest.tree
        false).conflicts.map ConfigConflict.path ↔
      path ∈ (diffConfig baseline.tree draft.tree).map ConfigChange.path ∧
        (get builtIns latest.tree path).isEqual (leaf baseline.tree path) =
          false ∧
        (get builtIns latest.tree path).isEqual (leaf draft.tree path) =
          false := by
  have conflict : ∀ change ∈ diffConfig baseline.tree draft.tree,
      isConflict builtIns latest.tree change = true ↔
        (get builtIns latest.tree change.path).isEqual
          (leaf baseline.tree change.path) = false ∧
        (get builtIns latest.tree change.path).isEqual
          (leaf draft.tree change.path) = false := by
    intro change member
    obtain ⟨_, _, isBefore, isAfter, _⟩ := (mem_diffConfig
      baseline.wellFormed draft.wellFormed).mp member
    unfold isConflict
    rw [isBefore, isAfter, Bool.and_eq_true, Bool.not_eq_true',
      Bool.not_eq_true']
  constructor
  · intro member
    obtain ⟨conflicting, isConflicting, rfl⟩ := List.mem_map.mp member
    obtain ⟨change, isChange, rfl⟩ := List.mem_map.mp isConflicting
    obtain ⟨isMine, conflicts⟩ := List.mem_filter.mp isChange
    exact ⟨List.mem_map.mpr ⟨change, isMine, rfl⟩,
      (conflict change isMine).mp conflicts⟩
  · rintro ⟨isMine, conflicts⟩
    obtain ⟨change, isChange, rfl⟩ := List.mem_map.mp isMine
    refine List.mem_map.mpr ⟨_, List.mem_map.mpr ⟨change,
      List.mem_filter.mpr ⟨isChange, ?_⟩, rfl⟩, rfl⟩
    exact (conflict change isChange).mpr conflicts

theorem Mergeable.rebaseLaws
    (mergeable : Mergeable builtIns baseline.tree draft.tree latest.tree) :
    RebaseLaws builtIns baseline.tree draft.tree latest.tree where
  conflicts := conflicts_iff
  managed := by
    intro path notRoot isManaged
    apply mergeable.leaf_kept notRoot
    rintro change member rfl
    obtain ⟨_, unmanaged, _⟩ := (mem_diffConfig baseline.wellFormed
      draft.wellFormed).mp (mem_carriedChanges.mp member).1
    rw [isManaged] at unmanaged
    cases unmanaged
  changes := by
    intro change
    rw [mem_diffConfig latest.wellFormed wellFormed_rebased]
    constructor
    · rintro ⟨notRoot, _, isBefore, isAfter, differs⟩
      by_cases isCarried : ∃ mine ∈ carriedChanges builtIns baseline.tree
          draft.tree latest.tree, mine.path = change.path
      · obtain ⟨mine, member, same⟩ := isCarried
        obtain ⟨isMine, noConflict⟩ := mem_carriedChanges.mp member
        have isThere := mergeable.leaf_mine member
        rw [same, ← isAfter] at isThere
        refine ⟨mine, isMine, noConflict, ?_, ?_⟩
        · rw [same, ← isBefore, ← isThere]
          exact differs
        · rw [same, ← isBefore, ← isThere]
      · have kept := mergeable.leaf_kept notRoot fun mine member same =>
          isCarried ⟨mine, member, same⟩
        rw [isBefore, isAfter, kept, isEqual_self (leaf_terminal _ _)] at differs
        cases differs
    · rintro ⟨mine, isMine, noConflict, differs, rfl⟩
      have member := mem_carriedChanges.mpr ⟨isMine, noConflict⟩
      obtain ⟨notRoot, unmanaged, _⟩ := (mem_diffConfig baseline.wellFormed
        draft.wellFormed).mp isMine
      exact ⟨notRoot, unmanaged, rfl, (mergeable.leaf_mine member).symm, differs⟩

theorem Straight.noConflict
    (straight : Straight baseline draft)
    (member : change ∈ diffConfig baseline.tree draft.tree) :
    isConflict builtIns baseline.tree change = false := by
  obtain ⟨_, _, isBefore, _, _⟩ := (mem_diffConfig
    baseline.wellFormed draft.wellFormed).mp member
  have isOld : (get builtIns baseline.tree change.path).isEqual
      change.before = true := by
    rcases get_cases builtIns baseline.tree change.path with
      ⟨found, isThere, isGet⟩ | ⟨missing, isGet | ⟨before, rest, content,
        isSplit, notEnd, isDefined, isLeaf⟩⟩
    · have terminal : found.isTerminal = true := by
        cases found with
        | leaf content => rfl
        | node entries =>
            cases entries with
            | nil => rfl
            | cons entry entries =>
                exact absurd isThere (straight.leaves change member _ nofun)
      rw [isGet, isBefore, leaf_of_get isThere terminal]
      exact isEqual_self terminal
    · rw [isGet, isBefore, leaf_of_none missing]
      rfl
    · have notRoot : before ≠ [] := by
        rintro rfl
        cases isLeaf
      have wasUndefined := straight.above change member before rest isSplit
        notRoot notEnd
      rw [leaf_of_get isLeaf rfl] at wasUndefined
      cases wasUndefined
      exact absurd rfl isDefined
  unfold isConflict
  dsimp only
  rw [isOld]
  rfl

theorem Straight.mergeable
    (straight : Straight baseline draft) :
    Mergeable builtIns baseline.tree draft.tree baseline.tree where
  leaves := straight.leaves
  above := straight.above
  carried := by
    intro change member _ before rest isSplit notRoot notEnd
    exact .inl (straight.above change member before rest isSplit notRoot notEnd)

theorem Straight.unmovedLaws
    (straight : Straight baseline draft) :
    UnmovedLaws builtIns baseline.tree draft.tree where
  conflicts := by
    apply List.map_eq_nil_iff.mpr
    rw [List.filter_eq_nil_iff]
    intro change member
    rw [straight.noConflict member]
    nofun
  given := by
    intro path notRoot unmanaged
    have mergeable : Mergeable builtIns baseline.tree draft.tree baseline.tree :=
      straight.mergeable
    by_cases isChanged : isEqual (leaf baseline.tree path)
        (leaf draft.tree path) = true
    · have kept := mergeable.leaf_kept notRoot
        fun change member same => by
          obtain ⟨_, _, isBefore, isAfter, differs⟩ := (mem_diffConfig
            baseline.wellFormed draft.wellFormed).mp
              (mem_carriedChanges.mp member).1
          rw [isBefore, isAfter, same, isChanged] at differs
          cases differs
      rw [kept]
      exact isChanged
    · have member : {
          path
          before := leaf baseline.tree path
          after := leaf draft.tree path } ∈
            diffConfig baseline.tree draft.tree :=
        (mem_diffConfig baseline.wellFormed draft.wellFormed).mpr
          ⟨notRoot, unmanaged, rfl, rfl, by simpa using isChanged⟩
      have isCarried : _ ∈ carriedChanges builtIns baseline.tree draft.tree
          baseline.tree :=
        mem_carriedChanges.mpr ⟨member, straight.noConflict member⟩
      have isMine := mergeable.leaf_mine isCarried
      dsimp only at isMine
      rw [isMine]
      exact isEqual_self (leaf_terminal _ _)
  managed := by
    intro path notRoot isManaged
    exact (straight.mergeable.rebaseLaws).managed path notRoot isManaged

end Frameleaf.SettingsDraft
