import Frameleaf.SettingsDraft.Journal

namespace Frameleaf.SettingsDraft

open Json PathTrees

/-!
# What a journal makes of saved settings

Each change of a journal that sets a known leaf to a value of its kind is
applied; it conflicts when the leaf has moved to something else.
-/

variable {isFinite : String → Bool}

/-- A change sets a known leaf to another value of its kind. -/
structure IsRecovered
    (isFinite : String → Bool)
    (saved : Config)
    (path : ConfigPath)
    (change : JournalChange) : Prop where
  named : change.path = pathText path
  known : path ∈ (configLeaves saved).map Prod.fst
  kind : sameKind isFinite (leaf saved path) change.after = true
  differs : isEqual (leaf saved path) (configOf change.after) = false

/-- The change that is applied for a kept one, if any. -/
def applied
    (isFinite : String → Bool)
    (saved : Config)
    (change : JournalChange) : Option ConfigChange :=
  match knownLeaf saved change.path with
  | none =>
      none
  | some (path, value) =>
      if sameKind isFinite value change.after &&
          !isEqual value (configOf change.after) then
        some {
          path
          before := configOf change.before
          after := configOf change.after }
      else
        none

/-- The conflict of a kept change, if it is one. -/
def conflictOf
    (isFinite : String → Bool)
    (saved : Config)
    (change : JournalChange) : Option RecoveryConflict :=
  match knownLeaf saved change.path with
  | none =>
      none
  | some (_, value) =>
      if sameKind isFinite value change.after &&
          !isEqual value (configOf change.after) &&
          !isEqual value (configOf change.before) then
        some {
          path := change.path
          before := change.before
          mine := change.after
          theirs := value }
      else
        none

/-- A journal is recovered by applying what it changes. -/
theorem recoverJournal_eq
    (isFinite : String → Bool)
    (saved : Config)
    (journal : SystemConfigJournal) :
    (recoverJournal isFinite saved journal).draft =
        applyChanges saved (journal.changes.filterMap
          (applied isFinite saved)) ∧
      (recoverJournal isFinite saved journal).conflicts =
        journal.changes.filterMap (conflictOf isFinite saved) := by
  have folded : ∀ (changes : List JournalChange) (recovery : Recovery),
      (changes.foldl (recoverChange isFinite saved) recovery).draft =
          applyChanges recovery.draft (changes.filterMap
            (applied isFinite saved)) ∧
        (changes.foldl (recoverChange isFinite saved) recovery).conflicts =
          recovery.conflicts ++
            changes.filterMap (conflictOf isFinite saved) := by
    intro changes
    induction changes with
    | nil =>
        intro recovery
        exact ⟨rfl, (List.append_nil _).symm⟩
    | cons change changes inductionHypothesis =>
        intro recovery
        obtain ⟨drafts, conflicts⟩ :=
          inductionHypothesis (recoverChange isFinite saved recovery change)
        rw [List.foldl_cons, drafts, conflicts, List.filterMap_cons,
          List.filterMap_cons]
        unfold recoverChange applied conflictOf
        cases knownLeaf saved change.path with
        | none =>
            exact ⟨rfl, rfl⟩
        | some entry =>
            obtain ⟨path, value⟩ := entry
            dsimp only
            cases sameKind isFinite value change.after with
            | false =>
                exact ⟨rfl, rfl⟩
            | true =>
                cases isEqual value (configOf change.after) with
                | true =>
                    exact ⟨rfl, rfl⟩
                | false =>
                    cases isEqual value (configOf change.before) with
                    | true =>
                        exact ⟨rfl, rfl⟩
                    | false =>
                        refine ⟨rfl, ?_⟩
                        simp
  obtain ⟨drafts, conflicts⟩ := folded journal.changes {
    draft := saved
    recovered := 0
    conflicts := []
    dropped := 0 }
  exact ⟨drafts, conflicts⟩

variable {saved : SystemConfig}

theorem knownLeaf_eq_some_iff
    {path : ConfigPath}
    {value : Config}
    {name : String} :
    knownLeaf saved.tree name = some (path, value) ↔
      name = pathText path ∧ path ∈ (configLeaves saved.tree).map Prod.fst ∧
        value = leaf saved.tree path := by
  have listed : ∀ {entry}, entry ∈ configLeaves saved.tree ↔ _ :=
    mem_configLeaves_iff saved.wellFormed
  constructor
  · intro isFound
    have member := List.mem_of_find?_eq_some isFound
    have named := List.find?_some isFound
    obtain ⟨_, isThere, terminal⟩ := listed.mp member
    refine ⟨(of_decide_eq_true named).symm, List.mem_map_of_mem member, ?_⟩
    exact (leaf_of_get isThere terminal).symm
  · rintro ⟨rfl, member, rfl⟩
    obtain ⟨⟨other, value⟩, isEntry, rfl⟩ := List.mem_map.mp member
    obtain ⟨notRoot, isThere, terminal⟩ := listed.mp isEntry
    dsimp only at notRoot isThere terminal ⊢
    cases isFound : knownLeaf saved.tree (pathText other) with
    | none =>
        have differs := List.find?_eq_none.mp isFound _ isEntry
        simp at differs
    | some found =>
        obtain ⟨path, content⟩ := found
        have isMember := List.mem_of_find?_eq_some isFound
        have named := List.find?_some isFound
        obtain ⟨inside, isHere, isEnd⟩ := listed.mp isMember
        have same : path = other :=
          pathText_injective inside notRoot (of_decide_eq_true named)
        subst same
        rw [leaf_of_get isHere isEnd]

variable {kept : JournalChange}

theorem applied_eq_some_iff
    {change : ConfigChange} :
    applied isFinite saved.tree kept = some change ↔
      IsRecovered isFinite saved.tree change.path kept ∧
        change.before = configOf kept.before ∧
        change.after = configOf kept.after := by
  obtain ⟨path, before, after⟩ := change
  dsimp only
  constructor
  · intro isApplied
    unfold applied at isApplied
    split at isApplied
    · cases isApplied
    · rename_i other value isKnown
      obtain ⟨named, known, rfl⟩ := knownLeaf_eq_some_iff.mp isKnown
      split at isApplied
      · rename_i applies
        cases isApplied
        rw [Bool.and_eq_true, Bool.not_eq_true'] at applies
        exact ⟨⟨named, known, applies.1, applies.2⟩, rfl, rfl⟩
      · cases isApplied
  · rintro ⟨⟨named, known, kind, differs⟩, rfl, rfl⟩
    unfold applied
    rw [knownLeaf_eq_some_iff.mpr ⟨named, known, rfl⟩]
    dsimp only
    rw [kind, differs]
    rfl

theorem conflictOf_eq_some_iff
    {conflict : RecoveryConflict} :
    conflictOf isFinite saved.tree kept = some conflict ↔
      ∃ path, IsRecovered isFinite saved.tree path kept ∧
        isEqual (leaf saved.tree path) (configOf kept.before) = false ∧
        conflict = {
          path := kept.path
          before := kept.before
          mine := kept.after
          theirs := leaf saved.tree path } := by
  constructor
  · intro isConflicting
    unfold conflictOf at isConflicting
    split at isConflicting
    · cases isConflicting
    · rename_i path value isKnown
      obtain ⟨named, known, rfl⟩ := knownLeaf_eq_some_iff.mp isKnown
      split at isConflicting
      · rename_i applies
        cases isConflicting
        rw [Bool.and_eq_true, Bool.and_eq_true, Bool.not_eq_true',
          Bool.not_eq_true'] at applies
        exact ⟨path, ⟨named, known, applies.1.1, applies.1.2⟩, applies.2, rfl⟩
      · cases isConflicting
  · rintro ⟨path, ⟨named, known, kind, differs⟩, moved, rfl⟩
    unfold conflictOf
    rw [knownLeaf_eq_some_iff.mpr ⟨named, known, rfl⟩]
    dsimp only
    rw [kind, differs, moved]
    rfl

theorem IsRecovered.carried
    {change : ConfigChange}
    (isRecovered : IsRecovered isFinite saved.tree change.path kept)
    (terminal : change.after.isTerminal = true) :
    Carried saved.tree change := by
  obtain ⟨entry, member, same⟩ := List.mem_map.mp isRecovered.known
  obtain ⟨notRoot, isThere, isEnd⟩ :=
    (mem_configLeaves_iff saved.wellFormed).mp member
  rw [same] at notRoot isThere
  refine ⟨notRoot, terminal, ?_, .inl ?_⟩
  · intro entries notEmpty isNode
    rw [isThere] at isNode
    exact ne_node_of_terminal isEnd notEmpty (Option.some.inj isNode)
  · intro before rest isSplit _ notEnd
    obtain ⟨entries, notEmpty, isNode⟩ := get_above (isSplit ▸ isThere) notEnd
    exact leaf_of_node isNode notEmpty

/-- What is recovered is set, and nothing else is changed. -/
theorem leaf_recovered
    {journal : SystemConfigJournal}
    (distinct : (journal.changes.map JournalChange.path).Nodup)
    (terminal : ∀ change ∈ journal.changes,
      (configOf change.after).isTerminal = true)
    {path : ConfigPath}
    (notRoot : path ≠ []) :
    (∀ change ∈ journal.changes, IsRecovered isFinite saved.tree path change →
      leaf (recoverJournal isFinite saved.tree journal).draft path =
        configOf change.after) ∧
      ((∀ change ∈ journal.changes,
          ¬IsRecovered isFinite saved.tree path change) →
        leaf (recoverJournal isFinite saved.tree journal).draft path =
          leaf saved.tree path) := by
  have mem : ∀ {change}, change ∈ journal.changes.filterMap
      (applied isFinite saved.tree) ↔ ∃ kept ∈ journal.changes,
        IsRecovered isFinite saved.tree change.path kept ∧
          change.before = configOf kept.before ∧
          change.after = configOf kept.after := by
    intro change
    rw [List.mem_filterMap]
    simp only [applied_eq_some_iff]
  have carried : ∀ change ∈ journal.changes.filterMap
      (applied isFinite saved.tree), Carried saved.tree change := by
    intro change member
    obtain ⟨kept, isKept, isRecovered, _, isAfter⟩ := mem.mp member
    exact isRecovered.carried (isAfter ▸ terminal kept isKept)
  have apart : (journal.changes.filterMap
      (applied isFinite saved.tree)).Pairwise fun first second =>
        Apart first.path second.path := by
    rw [List.pairwise_filterMap]
    apply (List.pairwise_map.mp distinct).imp
    intro kept otherKept differs first isFirst second isSecond
    obtain ⟨firstRecovered, _, _⟩ := applied_eq_some_iff.mp isFirst
    obtain ⟨secondRecovered, _, _⟩ := applied_eq_some_iff.mp isSecond
    have notSame : first.path ≠ second.path := by
      intro same
      apply differs
      rw [firstRecovered.named, secondRecovered.named, same]
    refine ⟨fun isPrefix => notSame ?_, fun isPrefix => notSame ?_⟩
    · exact configLeaves_apart saved.wellFormed firstRecovered.known
        secondRecovered.known isPrefix
    · exact (configLeaves_apart saved.wellFormed secondRecovered.known
        firstRecovered.known isPrefix).symm
  have found := leaf_applyChanges saved.isObject carried apart notRoot
  rw [(recoverJournal_eq isFinite saved.tree journal).1, found]
  constructor
  · intro kept isKept isRecovered
    cases isFound : (journal.changes.filterMap
        (applied isFinite saved.tree)).find? fun change =>
          change.path = path with
    | none =>
        have member := mem.mpr
          (⟨kept, isKept, isRecovered, rfl, rfl⟩ : ∃ other ∈ journal.changes,
            IsRecovered isFinite saved.tree (ConfigChange.mk path
              (configOf kept.before) (configOf kept.after)).path other ∧ _)
        have differs := List.find?_eq_none.mp isFound _ member
        simp at differs
    | some change =>
        have isFoundHere := List.find?_some isFound
        have isHere : change.path = path := of_decide_eq_true isFoundHere
        obtain ⟨other, isOther, otherRecovered, _, isAfter⟩ :=
          mem.mp (List.mem_of_find?_eq_some isFound)
        have same : other = kept := by
          have named := otherRecovered.named
          rw [isHere, ← isRecovered.named] at named
          exact List.inj_on_of_nodup_map distinct isOther isKept named
        rw [← same]
        exact isAfter
  · intro notRecovered
    have nothing : (journal.changes.filterMap
        (applied isFinite saved.tree)).find? (fun change =>
          change.path = path) = none := by
      rw [List.find?_eq_none]
      intro change member
      obtain ⟨kept, isKept, isRecovered, _⟩ := mem.mp member
      simp only [decide_eq_true_eq]
      rintro rfl
      exact notRecovered kept isKept isRecovered
    rw [nothing]

end Frameleaf.SettingsDraft
