import Frameleaf.SettingsDraft.Credentials
import Frameleaf.SettingsDraft.RebaseExact

namespace Frameleaf.SettingsDraft

open Json PathTrees

/-!
# Settings to copy or download

Secrets are emptied, credentials are removed from URLs, and what the server
keeps on its own is left out.
-/

variable (urls : UrlLibrary)

/-- The key of the revision. -/
def revisionKey : ConfigKey := ⟨"revision", by decide⟩

/-- A text item without credentials; any other item as it is. -/
def redactItem : Json → Json
  | .string text => .string (String.ofList (stripUrlCredentials urls text.toList))
  | item => item

/-- Redact one leaf. -/
def redactLeaf
    (next : Config)
    (entry : ConfigPath × Config) : Config :=
  let (path, value) := entry
  if isServerManagedConfigPath path then
    next.unset path
  else if isSecretConfigPath (pathText path) then
    match value with
    | .leaf (.string _) => set next path (.leaf (.string ""))
    | value => set next path value
  else
    match value with
    | .leaf (.string text) =>
        set next path (.leaf (.string
          (String.ofList (stripUrlCredentials urls text.toList))))
    | .leaf (.array items) =>
        set next path (.leaf (.array (items.map (redactItem urls))))
    | _ =>
        next

/-- `redactConfigForExport` -/
def redactConfigForExport
    (config : Config) : Config :=
  let next := config.unset [revisionKey]
  (configLeaves next).foldl (redactLeaf urls) next

/-- What is left of a leaf. -/
def redacted
    (path : ConfigPath)
    (value : Config) : Option Config :=
  if isServerManagedConfigPath path then
    none
  else if isSecretConfigPath (pathText path) then
    match value with
    | .leaf (.string _) => some (.leaf (.string ""))
    | value => some value
  else
    match value with
    | .leaf (.string text) =>
        some (.leaf (.string
          (String.ofList (stripUrlCredentials urls text.toList))))
    | .leaf (.array items) =>
        some (.leaf (.array (items.map (redactItem urls))))
    | value =>
        some value

variable {urls}

variable {config value : Config} {path rest : ConfigPath}

theorem isOpen_of_get
    (isThere : config.get path = some value) :
    config.IsOpen Leaf.isArray path := by
  intro before rest content isSplit notEnd isLeaf
  rw [isSplit] at isThere
  obtain ⟨entries, _, isNode⟩ := get_above isThere notEnd
  rw [isLeaf] at isNode
  cases isNode

variable (urls) in
theorem redactLeaf_cases
    (isThere : config.get path = some value) :
    redactLeaf urls config (path, value) = config.unset path ∧
        redacted urls path value = none ∨
      (∃ next, redactLeaf urls config (path, value) = set config path next ∧
        redacted urls path value = some next) ∨
      redactLeaf urls config (path, value) = config ∧
        redacted urls path value = some value := by
  unfold redactLeaf redacted
  dsimp only
  split
  · exact .inl ⟨rfl, rfl⟩
  · split
    · split
      · exact .inr (.inl ⟨_, rfl, rfl⟩)
      · exact .inr (.inl ⟨_, rfl, rfl⟩)
    · split
      · exact .inr (.inl ⟨_, rfl, rfl⟩)
      · exact .inr (.inl ⟨_, rfl, rfl⟩)
      · exact .inr (.inr ⟨rfl, rfl⟩)

theorem get_redactLeaf
    (notRoot : path ≠ [])
    (isThere : config.get path = some value) :
    (redactLeaf urls config (path, value)).get path =
      redacted urls path value := by
  rcases redactLeaf_cases urls isThere with
    ⟨isUnset, isLeft⟩ | ⟨next, isSet, isLeft⟩ | ⟨isSame, isLeft⟩
  · rw [isUnset, isLeft, get_unset notRoot]
  · have setHere : (set config path next).get (path ++ []) = next.get [] :=
      get_set (isOpen_of_get isThere) []
    rw [List.append_nil] at setHere
    rw [isSet, isLeft, setHere]
    rfl
  · rw [isSame, isLeft, isThere]

theorem get_redactLeaf_apart
    {other : ConfigPath}
    (isThere : config.get path = some value)
    (apart : Apart path other) :
    (redactLeaf urls config (path, value)).get other = config.get other := by
  rcases redactLeaf_cases urls isThere with
    ⟨isUnset, _⟩ | ⟨next, isSet, _⟩ | ⟨isSame, _⟩
  · rw [isUnset, get_unset_apart apart]
  · rw [isSet]
    exact get_set_apart apart
  · rw [isSame]

theorem node_redactLeaf
    {before : ConfigPath}
    {entries : Entries ConfigKey Leaf}
    (isThere : config.get (before ++ rest) = some value)
    (isNode : config.get before = some (.node entries))
    (notEnd : rest ≠ []) :
    ∃ later, (redactLeaf urls config (before ++ rest, value)).get before =
      some (.node later) := by
  rcases redactLeaf_cases urls isThere with
    ⟨isUnset, _⟩ | ⟨next, isSet, _⟩ | ⟨isSame, _⟩
  · rw [isUnset]
    exact get_unset_before isNode notEnd
  · rw [isSet]
    obtain ⟨later, _, isLater⟩ : ∃ later, later ≠ [] ∧
        (set config (before ++ rest) next).get before = some (.node later) :=
      get_set_before (isOpen_of_get isThere) notEnd
    exact ⟨later, isLater⟩
  · rw [isSame]
    exact ⟨entries, isNode⟩

variable (urls) in
/-- Leaves that lie apart are redacted one after the other. -/
theorem foldl_redactLeaf
    {leaves : List (ConfigPath × Config)}
    (areThere : ∀ entry ∈ leaves,
      entry.1 ≠ [] ∧ config.get entry.1 = some entry.2)
    (apart : leaves.Pairwise fun first second => Apart first.1 second.1) :
    (∀ entry ∈ leaves, (leaves.foldl (redactLeaf urls) config).get entry.1 =
        redacted urls entry.1 entry.2) ∧
      (∀ path, (∀ entry ∈ leaves, Apart entry.1 path) →
        (leaves.foldl (redactLeaf urls) config).get path = config.get path) ∧
      ∀ path entries, config.get path = some (.node entries) →
        (∀ entry ∈ leaves, ¬entry.1 <+: path) →
          ∃ later, (leaves.foldl (redactLeaf urls) config).get path =
            some (.node later) := by
  induction leaves generalizing config with
  | nil =>
      exact ⟨nofun, fun _ _ => rfl, fun _ entries isNode _ => ⟨entries, isNode⟩⟩
  | cons first leaves inductionHypothesis =>
      obtain ⟨path, value⟩ := first
      obtain ⟨others, rest⟩ := List.pairwise_cons.mp apart
      obtain ⟨notRoot, isThere⟩ := areThere _ List.mem_cons_self
      have areLeft : ∀ entry ∈ leaves, entry.1 ≠ [] ∧
          (redactLeaf urls config (path, value)).get entry.1 =
            some entry.2 := by
        intro entry member
        obtain ⟨inside, wasThere⟩ := areThere _ (List.mem_cons_of_mem _ member)
        refine ⟨inside, ?_⟩
        rw [get_redactLeaf_apart isThere (others entry member), wasThere]
      obtain ⟨areRedacted, areKept, areNodes⟩ :=
        inductionHypothesis areLeft rest
      rw [List.foldl_cons]
      refine ⟨?_, ?_, ?_⟩
      · intro entry member
        rcases List.mem_cons.mp member with rfl | member
        · dsimp only
          rw [areKept path fun other isOther =>
            ⟨(others other isOther).2, (others other isOther).1⟩]
          exact get_redactLeaf notRoot isThere
        · exact areRedacted entry member
      · intro other isApart
        rw [areKept other fun entry member =>
          isApart entry (List.mem_cons_of_mem _ member)]
        exact get_redactLeaf_apart isThere (isApart _ List.mem_cons_self)
      · intro other entries isNode notAbove
        have notLater : ∀ entry ∈ leaves, ¬entry.1 <+: other :=
          fun entry member => notAbove entry (List.mem_cons_of_mem _ member)
        by_cases isBelow : other <+: path
        · obtain ⟨tail, rfl⟩ := isBelow
          have notEnd : tail ≠ [] := by
            rintro rfl
            apply notAbove _ List.mem_cons_self
            simp
          obtain ⟨later, isLater⟩ := node_redactLeaf isThere isNode notEnd
          exact areNodes other later isLater notLater
        · have isApart : Apart path other :=
            ⟨notAbove _ List.mem_cons_self, isBelow⟩
          rw [← get_redactLeaf_apart isThere isApart] at isNode
          exact areNodes other entries isNode notLater

theorem configLeaves_pairwise
    (wellFormed : config.WellFormed) :
    (configLeaves config).Pairwise fun first second =>
      Apart first.1 second.1 := by
  have distinct : ((configLeaves config).map Prod.fst).Nodup :=
    (nodup_leaves wellFormed).sublist (List.filter_sublist.map Prod.fst)
  apply (List.pairwise_map.mp distinct).imp_of_mem
  intro first second isFirst isSecond differs
  have firstListed := List.mem_map_of_mem (f := Prod.fst) isFirst
  have secondListed := List.mem_map_of_mem (f := Prod.fst) isSecond
  refine ⟨fun isPrefix => differs ?_, fun isPrefix => differs ?_⟩
  · exact configLeaves_apart wellFormed firstListed secondListed isPrefix
  · exact (configLeaves_apart wellFormed secondListed firstListed
      isPrefix).symm

theorem mem_configLeaves_iff
    {entry : ConfigPath × Config}
    (wellFormed : config.WellFormed) :
    entry ∈ configLeaves config ↔
      entry.1 ≠ [] ∧ config.get entry.1 = some entry.2 ∧
        entry.2.isTerminal = true := by
  unfold configLeaves
  rw [List.mem_filter]
  have isLeaf : entry ∈ config.leaves ↔ _ := mem_leaves_iff wellFormed
  rw [isLeaf]
  unfold PathTree.leafAt
  rw [Option.filter_eq_some_iff]
  simp only [ne_eq, decide_not, Bool.not_eq_eq_eq_not, Bool.not_true,
    decide_eq_false_iff_not]
  tauto

/-- A configuration without its revision. -/
def SystemConfig.withoutRevision
    (config : SystemConfig) : Config :=
  config.tree.unset [revisionKey]

theorem SystemConfig.wellFormed_withoutRevision
    (config : SystemConfig) :
    config.withoutRevision.WellFormed := by
  obtain ⟨entries, wellFormed⟩ := config
  cases wellFormed with
  | node distinct children =>
      refine .node ?_ ?_
      · exact distinct.sublist (List.filter_sublist.map Prod.fst)
      · intro entry member
        exact children entry (List.mem_of_mem_filter member)

theorem SystemConfig.leaf_withoutRevision
    (config : SystemConfig)
    (notRoot : path ≠ [])
    (notRevision : path.head? ≠ some revisionKey) :
    leaf config.withoutRevision path = leaf config.tree path := by
  have apart : Apart [revisionKey] path := by
    cases path with
    | nil => exact absurd rfl notRoot
    | cons key path =>
        constructor
        · intro isPrefix
          apply notRevision
          rw [List.cons_prefix_cons] at isPrefix
          rw [List.head?_cons, isPrefix.1]
        · intro isPrefix
          apply notRevision
          rw [List.cons_prefix_cons] at isPrefix
          rw [List.head?_cons, isPrefix.1]
  unfold leaf PathTree.leafAt SystemConfig.withoutRevision
  rw [get_unset_apart apart]

theorem SystemConfig.leaf_revision
    (config : SystemConfig)
    (isRevision : path.head? = some revisionKey) :
    leaf config.withoutRevision path = undefined := by
  obtain ⟨rest, rfl⟩ : ∃ rest, path = [revisionKey] ++ rest := by
    cases path with
    | nil => cases isRevision
    | cons key rest => exact ⟨rest, by rw [Option.some.inj isRevision]; rfl⟩
  by_contra isThere
  have gone : config.withoutRevision.get [revisionKey] = none :=
    get_unset nofun
  by_cases atEnd : rest = []
  · rw [atEnd, List.append_nil, leaf_of_none gone] at isThere
    exact isThere rfl
  · obtain ⟨entries, _, isNode⟩ := node_above_leaf isThere atEnd
    rw [gone] at isNode
    cases isNode

theorem redacted_terminal
    {next : Config}
    (terminal : value.isTerminal = true)
    (isLeft : redacted urls path value = some next) :
    next.isTerminal = true := by
  unfold redacted at isLeft
  split at isLeft
  · cases isLeft
  · split at isLeft
    · split at isLeft
      · cases isLeft
        rfl
      · cases isLeft
        exact terminal
    · split at isLeft
      · cases isLeft
        rfl
      · cases isLeft
        rfl
      · cases isLeft
        exact terminal

/-- Nothing is left of nothing. -/
@[simp] theorem redacted_undefined
    (path : ConfigPath) :
    (redacted urls path undefined).getD undefined = undefined := by
  unfold redacted
  split
  · rfl
  · split
    · rfl
    · rfl

theorem leaf_below
    (isEnd : ∀ entries, entries ≠ [] → config.get path ≠ some (.node entries))
    (notEnd : rest ≠ []) :
    leaf config (path ++ rest) = undefined := by
  by_contra isThere
  obtain ⟨entries, notEmpty, isNode⟩ := node_above_leaf isThere notEnd
  exact isEnd entries notEmpty isNode

theorem ne_node_of_terminal
    {entries : Entries ConfigKey Leaf}
    (terminal : value.isTerminal = true)
    (notEmpty : entries ≠ []) :
    value ≠ .node entries := by
  rintro rfl
  cases entries with
  | nil => exact notEmpty rfl
  | cons entry entries => cases terminal

variable (urls) in
/-- A leaf of an export is what is left of the leaf, or an emptied object. -/
theorem leaf_export
    (config : SystemConfig)
    (notRoot : path ≠ []) :
    leaf (redactConfigForExport urls config.tree) path =
        (redacted urls path (leaf config.withoutRevision path)).getD
          undefined ∨
      leaf (redactConfigForExport urls config.tree) path = .node [] ∧
        leaf config.withoutRevision path = undefined := by
  have wellFormed := config.wellFormed_withoutRevision
  obtain ⟨areRedacted, areKept, areNodes⟩ := foldl_redactLeaf urls
    (fun entry member =>
      have listed := (mem_configLeaves_iff wellFormed).mp member
      ⟨listed.1, listed.2.1⟩)
    (configLeaves_pairwise wellFormed)
  change ∀ entry ∈ configLeaves config.withoutRevision,
    (redactConfigForExport urls config.tree).get entry.1 = _ at areRedacted
  change ∀ path, _ →
    (redactConfigForExport urls config.tree).get path = _ at areKept
  change ∀ path entries, _ → _ → ∃ later,
    (redactConfigForExport urls config.tree).get path = _ at areNodes
  by_cases isAbove : ∃ entry ∈ configLeaves config.withoutRevision,
      entry.1 <+: path
  · obtain ⟨⟨first, value⟩, member, rest, rfl⟩ := isAbove
    left
    have isLeft := areRedacted _ member
    obtain ⟨_, isThere, terminal⟩ :=
      (mem_configLeaves_iff wellFormed).mp member
    dsimp only at isThere terminal isLeft ⊢
    by_cases atEnd : rest = []
    · rw [atEnd, List.append_nil, leaf_of_get isThere terminal]
      cases isNext : redacted urls first value with
      | none =>
          rw [isNext] at isLeft
          exact leaf_of_none isLeft
      | some next =>
          rw [isNext] at isLeft
          exact leaf_of_get isLeft (redacted_terminal terminal isNext)
    · rw [leaf_below _ atEnd, leaf_below _ atEnd, redacted_undefined]
      · rw [isThere]
        intro entries notEmpty isNode
        exact ne_node_of_terminal terminal notEmpty (Option.some.inj isNode)
      · rw [isLeft]
        intro entries notEmpty isNode
        exact ne_node_of_terminal (redacted_terminal terminal isNode) notEmpty
          rfl
  · push Not at isAbove
    have notThere : leaf config.withoutRevision path = undefined := by
      by_contra isThere
      obtain ⟨isLeaf, terminal⟩ := get_of_leaf isThere
      have listed := (mem_configLeaves_iff wellFormed).mpr
        (⟨notRoot, isLeaf, terminal⟩ :
          (path, leaf config.withoutRevision path).1 ≠ [] ∧ _)
      exact isAbove _ listed List.prefix_rfl
    rw [notThere, redacted_undefined]
    by_cases isBelow : ∃ entry ∈ configLeaves config.withoutRevision,
        path <+: entry.1
    · obtain ⟨⟨below, value⟩, member, rest, isSplit⟩ := isBelow
      have notAbove := isAbove _ member
      obtain ⟨_, isThere, _⟩ := (mem_configLeaves_iff wellFormed).mp member
      dsimp only at isSplit isThere notAbove
      have notEnd : rest ≠ [] := by
        rintro rfl
        rw [List.append_nil] at isSplit
        exact notAbove (isSplit ▸ List.prefix_rfl)
      obtain ⟨entries, _, isNode⟩ := get_above (isSplit ▸ isThere) notEnd
      obtain ⟨later, isLater⟩ := areNodes path entries isNode isAbove
      cases later with
      | nil => exact .inr ⟨leaf_of_get isLater rfl, rfl⟩
      | cons entry later => exact .inl (leaf_of_node isLater nofun)
    · push Not at isBelow
      left
      have same := areKept path fun entry member =>
        ⟨isAbove entry member, isBelow entry member⟩
      unfold leaf PathTree.leafAt at notThere ⊢
      rw [same]
      exact notThere

/-- The texts of what is at a path. -/
def leafTexts : Config → List String
  | .leaf (.string text) => [text]
  | .leaf (.array items) => itemsTexts items
  | _ => []

/-- A value that tells nothing. -/
def tellsNothing : Config → Bool
  | .leaf .undefined | .leaf .null | .leaf (.string "") | .leaf (.array [])
  | .node [] => true
  | _ => false

/-- A value that is a text. -/
def isText : Config → Bool
  | .leaf (.string _) => true
  | _ => false

/-- The texts of the items that are no texts themselves. -/
def innerTexts : List Json → List String
  | [] => []
  | .string _ :: items => innerTexts items
  | item :: items => texts item ++ innerTexts items

variable (urls)

/-- An export holds no secret and no credentials. -/
structure ExportClean
    (config : Config) : Prop where
  secrets : ∀ path, path ≠ [] → isSecretConfigPath (pathText path) = true →
    tellsNothing (leaf (redactConfigForExport urls config) path) = true
  credentials : ∀ path, path ≠ [] →
    areClean urls (leafTexts (leaf (redactConfigForExport urls config) path))

/-- Secrets are texts, and arrays have credentials at their top only. -/
structure Exportable
    (config : Config) : Prop where
  secrets : ∀ path, path ≠ [] → path.head? ≠ some revisionKey →
    isServerManagedConfigPath path = false →
    isSecretConfigPath (pathText path) = true →
      isText (leaf config path) = true ∨ tellsNothing (leaf config path) = true
  items : ∀ path, path ≠ [] → path.head? ≠ some revisionKey →
    isServerManagedConfigPath path = false →
    isSecretConfigPath (pathText path) = false →
      ∀ items, leaf config path = .leaf (.array items) →
        areClean urls (innerTexts items)

variable {urls}

theorem clean_redactItem_iff
    (items : List Json) :
    areClean urls (itemsTexts (items.map (redactItem urls))) ↔
      areClean urls (innerTexts items) := by
  induction items with
  | nil =>
      exact Iff.rfl
  | cons item items inductionHypothesis =>
      rw [List.map_cons, itemsTexts, areClean_append, inductionHypothesis]
      cases item with
      | string text =>
          have stripped := urlHasCredentials_strip urls text.toList
          simp [redactItem, innerTexts, texts, areClean, stripped]
      | _ => exact areClean_append.symm

theorem clean_of_tellsNothing
    (nothing : tellsNothing value = true) :
    areClean urls (leafTexts value) := by
  unfold tellsNothing at nothing
  split at nothing
  · simp [leafTexts, areClean]
  · simp [leafTexts, areClean]
  · intro text member
    cases List.mem_singleton.mp member
    rfl
  · simp [leafTexts, itemsTexts, areClean]
  · simp [leafTexts, areClean]
  · cases nothing

theorem redacted_managed
    (isManaged : isServerManagedConfigPath path = true)
    (value : Config) :
    redacted urls path value = none := by
  unfold redacted
  rw [if_pos isManaged]

theorem redacted_secret
    (unmanaged : isServerManagedConfigPath path = false)
    (isSecret : isSecretConfigPath (pathText path) = true)
    (notText : isText value = false) :
    redacted urls path value = some value := by
  unfold redacted
  rw [unmanaged, isSecret, if_neg nofun, if_pos rfl]
  split
  · cases notText
  · rfl

theorem redacted_text
    (unmanaged : isServerManagedConfigPath path = false)
    (isSecret : isSecretConfigPath (pathText path) = true)
    (isTextual : isText value = true) :
    redacted urls path value = some (.leaf (.string "")) := by
  unfold redacted
  rw [unmanaged, isSecret, if_neg nofun, if_pos rfl]
  split
  · rfl
  · rename_i notText
    unfold isText at isTextual
    split at isTextual
    · exact absurd rfl (notText _)
    · cases isTextual

theorem redacted_array
    {items : List Json}
    (unmanaged : isServerManagedConfigPath path = false)
    (noSecret : isSecretConfigPath (pathText path) = false) :
    redacted urls path (.leaf (.array items)) =
      some (.leaf (.array (items.map (redactItem urls)))) := by
  unfold redacted
  rw [unmanaged, noSecret, if_neg nofun, if_neg nofun]

theorem clean_redacted
    (unmanaged : isServerManagedConfigPath path = false)
    (noSecret : isSecretConfigPath (pathText path) = false)
    (areItems : ∀ items, value = .leaf (.array items) →
      areClean urls (innerTexts items)) :
    areClean urls (leafTexts ((redacted urls path value).getD undefined)) := by
  unfold redacted
  rw [unmanaged, noSecret, if_neg nofun, if_neg nofun]
  split
  · intro text member
    cases List.mem_singleton.mp member
    rw [String.toList_ofList]
    exact urlHasCredentials_strip urls _
  · exact (clean_redactItem_iff _).mpr (areItems _ rfl)
  · rename_i value noText noArray
    intro text member
    rw [Option.getD_some] at member
    unfold leafTexts at member
    split at member
    · exact absurd rfl (noText _)
    · exact absurd rfl (noArray _)
    · cases member

/-- An exportable configuration has a clean export. -/
theorem Exportable.exportClean
    {config : SystemConfig}
    (exportable : Exportable urls config.tree) :
    ExportClean urls config.tree where
  secrets := by
    intro path notRoot isSecret
    rcases leaf_export urls config notRoot with isLeft | ⟨isLeft, _⟩
    · rw [isLeft]
      by_cases isRevision : path.head? = some revisionKey
      · rw [config.leaf_revision isRevision, redacted_undefined]
        rfl
      · rw [config.leaf_withoutRevision notRoot isRevision]
        cases isManaged : isServerManagedConfigPath path with
        | true =>
            rw [redacted_managed isManaged]
            rfl
        | false =>
            cases isTextual : isText (leaf config.tree path) with
            | true =>
                rw [redacted_text isManaged isSecret isTextual]
                rfl
            | false =>
                rw [redacted_secret isManaged isSecret isTextual]
                have nothing := exportable.secrets path notRoot isRevision
                  isManaged isSecret
                rw [isTextual] at nothing
                exact nothing.resolve_left nofun
    · rw [isLeft]
      rfl
  credentials := by
    intro path notRoot
    rcases leaf_export urls config notRoot with isLeft | ⟨isLeft, _⟩
    · rw [isLeft]
      by_cases isRevision : path.head? = some revisionKey
      · rw [config.leaf_revision isRevision, redacted_undefined]
        exact clean_of_tellsNothing rfl
      · rw [config.leaf_withoutRevision notRoot isRevision]
        cases isManaged : isServerManagedConfigPath path with
        | true =>
            rw [redacted_managed isManaged]
            exact clean_of_tellsNothing rfl
        | false =>
            cases isSecret : isSecretConfigPath (pathText path) with
            | false =>
                exact clean_redacted isManaged isSecret (exportable.items path
                  notRoot isRevision isManaged isSecret)
            | true =>
                cases isTextual : isText (leaf config.tree path) with
                | true =>
                    rw [redacted_text isManaged isSecret isTextual]
                    exact clean_of_tellsNothing rfl
                | false =>
                    rw [redacted_secret isManaged isSecret isTextual]
                    have nothing := exportable.secrets path notRoot isRevision
                      isManaged isSecret
                    rw [isTextual] at nothing
                    exact clean_of_tellsNothing (nothing.resolve_left nofun)
    · rw [isLeft]
      exact clean_of_tellsNothing rfl

theorem ExportClean.exportable
    {config : SystemConfig}
    (clean : ExportClean urls config.tree) :
    Exportable urls config.tree where
  secrets := by
    intro path notRoot notRevision unmanaged isSecret
    cases isTextual : isText (leaf config.tree path) with
    | true =>
        exact .inl rfl
    | false =>
        right
        have nothing := clean.secrets path notRoot isSecret
        have same := config.leaf_withoutRevision notRoot notRevision
        rcases leaf_export urls config notRoot with
          isLeft | ⟨_, isUndefined⟩
        · rw [isLeft, same, redacted_secret unmanaged isSecret isTextual]
            at nothing
          exact nothing
        · rw [← same, isUndefined]
          rfl
  items := by
    intro path notRoot notRevision unmanaged noSecret items isArray
    have isClean := clean.credentials path notRoot
    have same := config.leaf_withoutRevision notRoot notRevision
    rcases leaf_export urls config notRoot with
      isLeft | ⟨_, isUndefined⟩
    · rw [isLeft, same, isArray, redacted_array unmanaged noSecret] at isClean
      exact (clean_redactItem_iff items).mp isClean
    · rw [same, isArray] at isUndefined
      cases isUndefined

end Frameleaf.SettingsDraft
