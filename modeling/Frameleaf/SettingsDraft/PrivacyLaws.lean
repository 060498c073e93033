import Frameleaf.SettingsDraft.Privacy

namespace Frameleaf.SettingsDraft

open Json PathTrees

/-!
# The journal tells nothing exactly for drafts that can be kept

The journal is read back from its text, recovered on its own baseline and on
other settings, and compared for drafts that differ only in secrets.
-/

variable {urls : UrlLibrary} {isFinite : String → Bool} {revision : String}
variable {baseline draft : JsonConfig}

/-- The tree of a configuration. -/
abbrev JsonConfig.root
    (config : JsonConfig) : Config :=
  config.toSystemConfig.tree

theorem clean_keptTexts_iff
    (value : Option Json) :
    areClean urls (keptTexts value) ↔
      value.any (containsCredentials urls) = false ∧
        areClean urls (keptObjectTexts value) := by
  cases value with
  | none => simp [keptTexts, keptObjectTexts, areClean]
  | some value => exact clean_texts_iff value

theorem isJournalSafe_iff
    {change : JournalChange} :
    isJournalSafe urls change = true ↔
      isSecretConfigPath change.path = false ∧
        SERVER_MANAGED_CONFIG_PATHS.contains change.path = false ∧
        change.before.any (containsCredentials urls) = false ∧
        change.after.any (containsCredentials urls) = false := by
  unfold isJournalSafe
  simp only [Bool.and_eq_true, Bool.not_eq_true', and_assoc]

variable {kept : JournalChange}

theorem mem_journalOf
    (limits : WithinLimits urls revision baseline.root draft.root) :
    kept ∈ (journalOf urls revision baseline.root draft.root).changes ↔
      ∃ change ∈ diffConfig baseline.root draft.root,
        change.journaled = kept ∧ isJournalSafe urls kept = true := by
  unfold journalOf createJournal
  dsimp only
  rw [List.take_of_length_le limits.changes, List.mem_filter, List.mem_map]
  constructor
  · rintro ⟨⟨change, member, isKept⟩, safe⟩
    exact ⟨change, member, isKept, safe⟩
  · rintro ⟨change, member, isKept, safe⟩
    exact ⟨⟨change, member, isKept⟩, safe⟩

/-- What is read back of the journal of a draft. -/
def readOf
    (urls : UrlLibrary)
    (revision : String)
    (baseline draft : Config) : SystemConfigJournal where
  revision := revision
  changes := (journalOf urls revision baseline draft).changes.filter
    fun change => isConfigPath change.path

theorem mem_readOf
    (limits : WithinLimits urls revision baseline.root draft.root) :
    kept ∈ (readOf urls revision baseline.root draft.root).changes ↔
      ∃ change ∈ diffConfig baseline.root draft.root,
        change.journaled = kept ∧ isJournalSafe urls kept = true ∧
          isConfigPath kept.path = true := by
  unfold readOf
  rw [List.mem_filter, mem_journalOf limits]
  constructor
  · rintro ⟨⟨change, member, isKept, safe⟩, named⟩
    exact ⟨change, member, isKept, safe, named⟩
  · rintro ⟨change, member, isKept, safe, named⟩
    exact ⟨⟨change, member, isKept, safe⟩, named⟩

variable {change : ConfigChange}

theorem journaled_writable
    (member : change ∈ diffConfig baseline.root draft.root) :
    change.journaled.Writable := by
  obtain ⟨_, _, isBefore, isAfter, _⟩ :=
    (mem_diffConfig baseline.wellFormed draft.wellFormed).mp member
  constructor
  · intro value isValue
    apply baseline.written change.path value
    rw [← isValue]
    exact congrArg valueOf isBefore.symm
  · intro value isValue
    apply draft.written change.path value
    rw [← isValue]
    exact congrArg valueOf isAfter.symm

theorem parseJournal_journalText
    (limits : WithinLimits urls revision baseline.root draft.root) :
    parseJournal urls
        (some (journalText urls revision baseline.root draft.root)) =
      some (readOf urls revision baseline.root draft.root) := by
  apply parseJournal_stringify
  · intro kept member
    obtain ⟨change, isChange, rfl, _⟩ := (mem_journalOf limits).mp member
    exact journaled_writable isChange
  · intro kept member
    obtain ⟨_, _, _, safe⟩ := (mem_journalOf limits).mp member
    exact safe
  · exact (List.length_take_le _ _)
  · exact limits.characters

theorem distinct_readOf :
    ((readOf urls revision baseline.root draft.root).changes.map
      JournalChange.path).Nodup := by
  have distinct : (((diffConfig baseline.root draft.root).map
      ConfigChange.journaled).map JournalChange.path).Nodup := by
    rw [List.map_map]
    apply List.pairwise_map.mpr
    apply (diffConfig_distinct baseline.root draft.root).imp_of_mem
    intro first second isFirst isSecond differs same
    apply differs
    apply pathText_injective _ _ same
    · exact ((mem_diffConfig baseline.wellFormed draft.wellFormed).mp isFirst).1
    · exact ((mem_diffConfig baseline.wellFormed
        draft.wellFormed).mp isSecond).1
  unfold readOf journalOf createJournal
  exact distinct.sublist ((List.filter_sublist.trans
    ((List.take_sublist _ _).trans List.filter_sublist)).map _)

theorem configOf_journaled
    (member : change ∈ diffConfig baseline.root draft.root) :
    configOf change.journaled.before = change.before ∧
      configOf change.journaled.after = change.after :=
  ⟨configOf_valueOf (before_terminal member),
    configOf_valueOf (change_terminal member)⟩

variable {path : ConfigPath}

theorem isRecovered_iff
    (member : change ∈ diffConfig baseline.root draft.root)
    (safe : isJournalSafe urls change.journaled = true)
    (notRoot : path ≠ []) :
    IsRecovered isFinite baseline.root path change.journaled ↔
      change.path = path ∧
        IsRestorable urls isFinite baseline.root change := by
  obtain ⟨isInside, _, isBefore, _, differs⟩ :=
    (mem_diffConfig baseline.wellFormed draft.wellFormed).mp member
  constructor
  · intro isRecovered
    have same : change.path = path :=
      pathText_injective isInside notRoot isRecovered.named
    subst same
    exact ⟨rfl, safe, isRecovered.known, isRecovered.kind⟩
  · rintro ⟨rfl, restorable⟩
    refine ⟨rfl, restorable.known, restorable.kind, ?_⟩
    rw [(configOf_journaled member).2, ← isBefore]
    exact differs

theorem terminal_readOf
    (limits : WithinLimits urls revision baseline.root draft.root) :
    ∀ kept ∈ (readOf urls revision baseline.root draft.root).changes,
      (configOf kept.after).isTerminal = true := by
  intro kept isKept
  obtain ⟨change, member, rfl, _⟩ := (mem_readOf limits).mp isKept
  rw [(configOf_journaled member).2]
  exact change_terminal member

/-- What is read back restores the draft if its paths are kept. -/
theorem restores_readOf
    (limits : WithinLimits urls revision baseline.root draft.root)
    (named : ∀ change ∈ diffConfig baseline.root draft.root,
      IsRestorable urls isFinite baseline.root change →
        isConfigPath (pathText change.path) = true) :
    Restores urls isFinite baseline.root draft.root
      (readOf urls revision baseline.root draft.root) where
  restored := by
    intro change member restorable
    obtain ⟨notRoot, _⟩ :=
      (mem_diffConfig baseline.wellFormed draft.wellFormed).mp member
    have isKept := (mem_readOf limits).mpr ⟨change, member, rfl,
      restorable.safe, named change member restorable⟩
    have isSet := (leaf_recovered distinct_readOf (terminal_readOf limits)
      notRoot).1 _ isKept
      ((isRecovered_iff member restorable.safe notRoot).mpr ⟨rfl, restorable⟩)
    rw [isSet, (configOf_journaled member).2]
  kept := by
    intro path notRoot notRestorable
    apply (leaf_recovered distinct_readOf (terminal_readOf limits) notRoot).2
    intro kept isKept isRecovered
    obtain ⟨change, member, rfl, safe, _⟩ := (mem_readOf limits).mp isKept
    obtain ⟨same, restorable⟩ :=
      (isRecovered_iff member safe notRoot).mp isRecovered
    exact notRestorable change member same restorable
  unmoved := by
    rw [(recoverJournal_eq _ _ _).2, List.filterMap_eq_nil_iff]
    intro kept isKept
    cases isConflict : conflictOf isFinite baseline.root kept with
    | none =>
        rfl
    | some conflict =>
        obtain ⟨path, isRecovered, moved, _⟩ :=
          conflictOf_eq_some_iff.mp isConflict
        obtain ⟨change, member, rfl, safe, _⟩ := (mem_readOf limits).mp isKept
        have notRoot := ((mem_configLeaves baseline.wellFormed).mp
          isRecovered.known).1
        obtain ⟨same, _⟩ := (isRecovered_iff member safe notRoot).mp isRecovered
        obtain ⟨_, _, isBefore, _⟩ :=
          (mem_diffConfig baseline.wellFormed draft.wellFormed).mp member
        rw [(configOf_journaled member).1, isBefore, same,
          isEqual_self (leaf_terminal _ _)] at moved
        cases moved
  recovered := by
    intro saved kept isKept path isRecovered
    have notRoot := ((mem_configLeaves saved.wellFormed).mp
      isRecovered.known).1
    exact (leaf_recovered distinct_readOf (terminal_readOf limits)
      notRoot).1 kept isKept isRecovered
  conflicts := by
    intro saved name
    rw [(recoverJournal_eq _ _ _).2]
    constructor
    · intro isReported
      obtain ⟨conflict, isConflict, rfl⟩ := List.mem_map.mp isReported
      obtain ⟨kept, isKept, isOne⟩ := List.mem_filterMap.mp isConflict
      obtain ⟨path, isRecovered, moved, rfl⟩ := conflictOf_eq_some_iff.mp isOne
      exact ⟨kept, isKept, rfl, path, isRecovered, moved⟩
    · rintro ⟨kept, isKept, rfl, path, isRecovered, moved⟩
      exact List.mem_map.mpr ⟨_, List.mem_filterMap.mpr ⟨kept, isKept,
        conflictOf_eq_some_iff.mpr ⟨path, isRecovered, moved, rfl⟩⟩, rfl⟩

theorem named_of_restores
    (limits : WithinLimits urls revision baseline.root draft.root)
    (restores : Restores urls isFinite baseline.root draft.root
      (readOf urls revision baseline.root draft.root))
    (member : change ∈ diffConfig baseline.root draft.root)
    (restorable : IsRestorable urls isFinite baseline.root change) :
    isConfigPath (pathText change.path) = true := by
  obtain ⟨notRoot, _, isBefore, _, differs⟩ :=
    (mem_diffConfig baseline.wellFormed draft.wellFormed).mp member
  by_contra notNamed
  have stays : leaf (recoverJournal isFinite baseline.root
      (readOf urls revision baseline.root draft.root)).draft change.path =
        leaf baseline.root change.path := by
    apply (leaf_recovered distinct_readOf (terminal_readOf limits) notRoot).2
    intro kept isKept isRecovered
    obtain ⟨_, _, _, _, named⟩ := (mem_readOf limits).mp isKept
    rw [isRecovered.named] at named
    exact notNamed named
  rw [restores.restored change member restorable] at stays
  rw [isBefore, stays, isEqual_self (leaf_terminal _ _)] at differs
  cases differs

theorem Keepable.draftPrivacy
    (keepable : Keepable urls isFinite revision baseline.root draft.root) :
    DraftPrivacy urls isFinite revision baseline.root draft.root where
  secrets := by
    intro change member
    have safe := (List.mem_filter.mp (List.mem_of_mem_take member)).2
    exact (isJournalSafe_iff.mp safe).1
  credentials := by
    intro change member
    have safe := (List.mem_filter.mp (List.mem_of_mem_take member)).2
    obtain ⟨_, _, before, after⟩ := isJournalSafe_iff.mp safe
    obtain ⟨cleanBefore, cleanAfter⟩ := keepable.journaled change member
    exact ⟨(clean_keptTexts_iff _).mpr ⟨before, cleanBefore⟩,
      (clean_keptTexts_iff _).mpr ⟨after, cleanAfter⟩⟩
  exported := keepable.exported.exportClean
  restores := fun limits =>
    ⟨_, parseJournal_journalText limits,
      restores_readOf limits (keepable.named limits)⟩

theorem DraftPrivacy.keepable
    (privacy : DraftPrivacy urls isFinite revision baseline.root draft.root) :
    Keepable urls isFinite revision baseline.root draft.root where
  journaled := by
    intro change member
    obtain ⟨before, after⟩ := privacy.credentials change member
    exact ⟨((clean_keptTexts_iff _).mp before).2,
      ((clean_keptTexts_iff _).mp after).2⟩
  exported := privacy.exported.exportable
  named := by
    intro limits change member restorable
    obtain ⟨read, isRead, restores⟩ := privacy.restores limits
    rw [parseJournal_journalText limits] at isRead
    cases isRead
    exact named_of_restores limits restores member restorable

/-- Lists of what passes agree up to the first difference, which is excluded. -/
theorem take_filterMap_congr
    {Source Target : Type}
    {first second : Source → Option Target}
    {allowed : Target → Prop}
    {sources : List Source}
    (same : ∀ source ∈ sources, first source = second source ∨
      (∃ target, first source = some target ∧ ¬allowed target) ∨
        ∃ target, second source = some target ∧ ¬allowed target)
    {limit : ℕ}
    (firstAllowed : ∀ target ∈ (sources.filterMap first).take limit,
      allowed target)
    (secondAllowed : ∀ target ∈ (sources.filterMap second).take limit,
      allowed target) :
    (sources.filterMap first).take limit =
      (sources.filterMap second).take limit := by
  induction sources generalizing limit with
  | nil =>
      rfl
  | cons source sources inductionHypothesis =>
      cases limit with
      | zero =>
          rfl
      | succ limit =>
          have later : ∀ other ∈ sources, _ :=
            fun other member => same other (List.mem_cons_of_mem _ member)
          rcases same source List.mem_cons_self with
            isSame | ⟨target, isFirst, notAllowed⟩ |
              ⟨target, isSecond, notAllowed⟩
          · cases isFirst : first source with
            | none =>
                rw [isFirst] at isSame
                rw [List.filterMap_cons_none isFirst] at firstAllowed ⊢
                rw [List.filterMap_cons_none isSame.symm] at secondAllowed ⊢
                exact inductionHypothesis later firstAllowed secondAllowed
            | some target =>
                rw [isFirst] at isSame
                rw [List.filterMap_cons_some isFirst, List.take_succ_cons]
                  at firstAllowed ⊢
                rw [List.filterMap_cons_some isSame.symm, List.take_succ_cons]
                  at secondAllowed ⊢
                rw [inductionHypothesis later
                  (fun other member => firstAllowed other
                    (List.mem_cons_of_mem _ member))
                  fun other member => secondAllowed other
                    (List.mem_cons_of_mem _ member)]
          · rw [List.filterMap_cons_some isFirst, List.take_succ_cons]
              at firstAllowed
            exact absurd (firstAllowed target List.mem_cons_self) notAllowed
          · rw [List.filterMap_cons_some isSecond, List.take_succ_cons]
              at secondAllowed
            exact absurd (secondAllowed target List.mem_cons_self) notAllowed

/-- The kept change of a path, if it is one that may be kept. -/
def keptChange
    (urls : UrlLibrary)
    (before after : List (ConfigPath × Config))
    (path : ConfigPath) : Option JournalChange :=
  ((changeOf before after path).map ConfigChange.journaled).filter
    (isJournalSafe urls)

theorem journalOf_changes
    (urls : UrlLibrary)
    (revision : String)
    (baseline draft : Config) :
    (journalOf urls revision baseline draft).changes =
      ((freshPaths [] ((configLeaves draft).map Prod.fst ++
        (configLeaves baseline).map Prod.fst)).filterMap
          (keptChange urls (configLeaves baseline)
            (configLeaves draft))).take JOURNAL_CHANGES := by
  unfold journalOf createJournal diffConfig keptChange
  dsimp only
  rw [List.map_filterMap, List.filter_filterMap]

variable {first second before after : List (ConfigPath × Config)}

theorem DifferOnlyInSecrets.paths
    (differ : List.Forall₂ (fun one other => one.1 = other.1 ∧
      (isSecretConfigPath (pathText one.1) = true ∨
        alikeValues urls (valueOf one.2) (valueOf other.2) = true))
      first second) :
    first.map Prod.fst = second.map Prod.fst := by
  induction differ with
  | nil => rfl
  | cons same _ inductionHypothesis =>
      rw [List.map_cons, List.map_cons, same.1, inductionHypothesis]

theorem DifferOnlyInSecrets.values
    (differ : List.Forall₂ (fun one other => one.1 = other.1 ∧
      (isSecretConfigPath (pathText one.1) = true ∨
        alikeValues urls (valueOf one.2) (valueOf other.2) = true))
      first second)
    (path : ConfigPath) :
    isSecretConfigPath (pathText path) = true ∨
      alikeValues urls (valueOf (leafValue first path))
        (valueOf (leafValue second path)) = true := by
  induction differ with
  | nil =>
      exact .inr rfl
  | @cons one other _ _ same _ inductionHypothesis =>
      obtain ⟨onePath, oneValue⟩ := one
      obtain ⟨otherPath, otherValue⟩ := other
      obtain ⟨rfl, alike⟩ := same
      unfold leafValue at inductionHypothesis ⊢
      by_cases isHere : path = onePath
      · subst isHere
        simpa only [List.lookup_cons, BEq.rfl, Option.getD_some] using alike
      · have differs : (path == onePath) = false := by simp [isHere]
        simpa only [List.lookup_cons, differs] using inductionHypothesis

theorem alikeValues_laws
    {first second : Option Json}
    (isAlike : alikeValues urls first second = true) :
    first.any (containsCredentials urls) =
        second.any (containsCredentials urls) ∧
      (areClean urls (keptTexts first) ∨ areClean urls (keptTexts second) →
        first = second) := by
  cases first with
  | none =>
      cases second with
      | none => exact ⟨rfl, fun _ => rfl⟩
      | some second => cases isAlike
  | some first =>
      cases second with
      | none => cases isAlike
      | some second =>
          obtain ⟨shown, same⟩ := alike_laws first second isAlike
          exact ⟨shown, fun clean => congrArg some (same clean)⟩

theorem keptChange_eq_some
    (isKept : keptChange urls before after path = some kept) :
    kept.path = pathText path ∧
      kept.after = valueOf (leafValue after path) ∧
      isJournalSafe urls kept = true := by
  obtain ⟨isMapped, safe⟩ := Option.filter_eq_some_iff.mp isKept
  obtain ⟨change, isChange, rfl⟩ := Option.map_eq_some_iff.mp isMapped
  have isPath := path_of_changeOf isChange
  unfold changeOf at isChange
  dsimp only at isChange
  split at isChange
  · cases isChange
  · cases isChange
    exact ⟨rfl, rfl, safe⟩

theorem keptChange_eq_none
    (unsafeChange : isSecretConfigPath (pathText path) = true ∨
      (valueOf (leafValue after path)).any (containsCredentials urls) = true) :
    keptChange urls before after path = none := by
  cases isKept : keptChange urls before after path with
  | none =>
      rfl
  | some kept =>
      obtain ⟨isPath, isAfter, safe⟩ := keptChange_eq_some isKept
      obtain ⟨noSecret, _, _, notShown⟩ := isJournalSafe_iff.mp safe
      rcases unsafeChange with isSecret | isShown
      · rw [isPath, isSecret] at noSecret
        cases noSecret
      · rw [isAfter, isShown] at notShown
        cases notShown

/-- The texts of a change that lie in objects are clean. -/
def HasCleanObjects
    (urls : UrlLibrary)
    (change : JournalChange) : Prop :=
  areClean urls (keptObjectTexts change.before) ∧
    areClean urls (keptObjectTexts change.after)

/-- Values that are alike are kept alike unless an object shows the difference. -/
theorem keptChange_cases
    (firstTerminal : (leafValue first path).isTerminal = true)
    (secondTerminal : (leafValue second path).isTerminal = true)
    (values : isSecretConfigPath (pathText path) = true ∨
      alikeValues urls (valueOf (leafValue first path))
        (valueOf (leafValue second path)) = true) :
    keptChange urls before first path = keptChange urls before second path ∨
      (∃ kept, keptChange urls before first path = some kept ∧
        ¬HasCleanObjects urls kept) ∨
      ∃ kept, keptChange urls before second path = some kept ∧
        ¬HasCleanObjects urls kept := by
  rcases values with isSecret | isAlike
  · left
    rw [keptChange_eq_none (.inl isSecret), keptChange_eq_none (.inl isSecret)]
  · obtain ⟨shown, same⟩ := alikeValues_laws isAlike
    cases isShown : (valueOf (leafValue first path)).any
        (containsCredentials urls) with
    | true =>
        left
        rw [keptChange_eq_none (.inr isShown),
          keptChange_eq_none (.inr (shown ▸ isShown))]
    | false =>
        by_cases isSame : valueOf (leafValue first path) =
            valueOf (leafValue second path)
        · left
          have equal := congrArg configOf isSame
          rw [configOf_valueOf firstTerminal,
            configOf_valueOf secondTerminal] at equal
          unfold keptChange changeOf
          rw [equal]
        · have firstDirty : ¬areClean urls
              (keptObjectTexts (valueOf (leafValue first path))) :=
            fun clean => isSame (same (.inl
              ((clean_keptTexts_iff _).mpr ⟨isShown, clean⟩)))
          have secondDirty : ¬areClean urls
              (keptObjectTexts (valueOf (leafValue second path))) :=
            fun clean => isSame (same (.inr
              ((clean_keptTexts_iff _).mpr ⟨shown ▸ isShown, clean⟩)))
          cases isFirst : keptChange urls before first path with
          | some kept =>
              right
              left
              refine ⟨kept, rfl, fun clean => firstDirty ?_⟩
              rw [← (keptChange_eq_some isFirst).2.1]
              exact clean.2
          | none =>
              cases isSecond : keptChange urls before second path with
              | none =>
                  exact .inl rfl
              | some kept =>
                  right
                  right
                  refine ⟨kept, rfl, fun clean => secondDirty ?_⟩
                  rw [← (keptChange_eq_some isSecond).2.1]
                  exact clean.2

theorem journalOf_congr
    {first second : JsonConfig}
    (firstKeepable : Keepable urls isFinite revision baseline.root first.root)
    (secondKeepable : Keepable urls isFinite revision baseline.root second.root)
    (differ : DifferOnlyInSecrets urls first.root second.root) :
    (journalOf urls revision baseline.root first.root).changes =
      (journalOf urls revision baseline.root second.root).changes := by
  have firstClean := firstKeepable.journaled
  have secondClean := secondKeepable.journaled
  change ∀ kept ∈ (journalOf urls revision baseline.root first.root).changes,
    HasCleanObjects urls kept at firstClean
  change ∀ kept ∈ (journalOf urls revision baseline.root second.root).changes,
    HasCleanObjects urls kept at secondClean
  rw [journalOf_changes] at firstClean secondClean
  rw [journalOf_changes, journalOf_changes]
  rw [← DifferOnlyInSecrets.paths differ] at secondClean ⊢
  apply take_filterMap_congr _ firstClean secondClean
  intro path isFresh
  have notRoot : path ≠ [] := by
    rcases List.mem_append.mp (mem_freshPaths.mp isFresh).1 with
      member | member
    · exact ((mem_configLeaves first.wellFormed).mp member).1
    · exact ((mem_configLeaves baseline.wellFormed).mp member).1
  apply keptChange_cases
  · rw [leafValue_configLeaves first.wellFormed notRoot]
    exact leaf_terminal _ _
  · rw [leafValue_configLeaves second.wellFormed notRoot]
    exact leaf_terminal _ _
  · exact DifferOnlyInSecrets.values differ path

/-- The URLs of a host `h`, with or without user `u` and password `p`. -/
def hostText
    (url : Bool × Bool) : Utf8.Text :=
  "https://".toList ++ (if url.1 then ['u'] else []) ++
    (if url.2 then [':', 'p'] else []) ++
    (if url.1 || url.2 then ['@'] else []) ++ ['h', '/']

/-- A platform that knows the URLs of one host. -/
def hostUrls : UrlLibrary where
  Url := Bool × Bool
  parse := fun text =>
    [(true, true), (true, false), (false, true), (false, false)].find?
      fun url => hostText url = text || hostText url = text ++ ['/']
  username := fun url => if url.1 then "u" else ""
  password := fun url => if url.2 then "p" else ""
  pathname := fun _ => "/"
  search := fun _ => ""
  names := fun _ => []
  clearUsername := fun url => (false, url.2)
  clearPassword := fun url => (url.1, false)
  deleteName := fun url _ => url
  text := hostText
  username_clearUsername := fun _ => rfl
  username_clearPassword := fun _ => rfl
  password_clearPassword := fun _ => rfl
  username_deleteName := fun _ _ => rfl
  password_deleteName := fun _ _ => rfl
  names_deleteName := fun _ _ => rfl
  text_plain := by
    intro url letter member
    have plain : ((hostText url).all fun letter =>
        !Manager.isSpace letter) = true := by
      obtain ⟨hasUser, hasPassword⟩ := url
      cases hasUser <;> cases hasPassword <;> decide
    simpa using List.all_eq_true.mp plain letter member
  parse_text := by
    rintro ⟨hasUser, hasPassword⟩ ⟨user, password⟩
    revert hasUser hasPassword user password
    decide +kernel
  parse_bare := by
    intro url again _ _ rest isText isRead
    have isRest : rest = (hostText url).dropLast := by
      rw [isText, List.dropLast_concat]
    subst isRest
    obtain ⟨hasUser, hasPassword⟩ := url
    obtain ⟨user, password⟩ := again
    revert hasUser hasPassword user password
    decide +kernel

/-- The key of a list of servers. -/
def serversKey : ConfigKey := ⟨"servers", by decide⟩

/-- Settings with a list of servers. -/
def withServers
    (items : List Json)
    (written : isWritableItems items = true) : JsonConfig where
  entries := [(serversKey, .leaf (.array items))]
  wellFormed := by
    refine .node (by simp) ?_
    intro entry member
    cases List.mem_singleton.mp member
    exact .leaf _
  written := by
    intro path value isValue
    by_cases isHere : path = [serversKey]
    · subst isHere
      cases isValue
      exact written
    · have nothing : leaf (.node [(serversKey, .leaf (.array items))]) path =
          undefined := by
        by_contra isDefined
        obtain ⟨isThere, _⟩ := get_of_leaf isDefined
        cases path with
        | nil =>
            exact isDefined rfl
        | cons key path =>
            by_cases isKey : key = serversKey
            · subst isKey
              cases path with
              | nil => exact isHere rfl
              | cons next path =>
                  simp [PathTree.get] at isThere
            · have differs : (key == serversKey) = false := by simp [isKey]
              simp [PathTree.get, List.lookup_cons, differs] at isThere
      rw [nothing] at isValue
      cases isValue

end Frameleaf.SettingsDraft
