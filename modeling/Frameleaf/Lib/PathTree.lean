import Mathlib.Data.List.Basic
import Mathlib.Data.List.Nodup

namespace Frameleaf.PathTrees

/-!
# Trees that are addressed by paths of keys

A node has its entries in order and at most one for each key.  A path leads from
the root through one key after the other.  Setting a path creates the nodes that
are missing; a leaf on the way makes room for a node, unless it blocks the way.
-/

variable {Key Leaf : Type}

/-- A tree whose nodes have named children. -/
inductive PathTree (Key Leaf : Type) where
  | leaf (value : Leaf)
  | node (entries : List (Key × PathTree Key Leaf))

/-- The entries of a node. -/
abbrev Entries (Key Leaf : Type) := List (Key × PathTree Key Leaf)

/-- Every key of a node is there once. -/
inductive PathTree.WellFormed : PathTree Key Leaf → Prop where
  | leaf (value : Leaf) :
      WellFormed (.leaf value)
  | node
      {entries : Entries Key Leaf}
      (distinct : (entries.map Prod.fst).Nodup)
      (children : ∀ entry ∈ entries, WellFormed entry.2) :
      WellFormed (.node entries)

/-- A leaf, or a node without entries. -/
def PathTree.isTerminal : PathTree Key Leaf → Bool
  | .leaf _ | .node [] => true
  | .node (_ :: _) => false

mutual

/-- Every leaf and every node without entries, with its path. -/
def PathTree.leaves :
    PathTree Key Leaf → List (List Key × PathTree Key Leaf)
  | .leaf value =>
      [([], .leaf value)]
  | .node [] =>
      [([], .node [])]
  | .node (entry :: entries) =>
      entriesLeaves (entry :: entries)

/-- The leaves below some entries, with their paths. -/
def entriesLeaves :
    Entries Key Leaf → List (List Key × PathTree Key Leaf)
  | [] =>
      []
  | (key, child) :: entries =>
      (child.leaves.map fun (path, value) => (key :: path, value)) ++
        entriesLeaves entries

end

theorem mem_entriesLeaves
    {entries : Entries Key Leaf}
    {path : List Key}
    {value : PathTree Key Leaf} :
    (path, value) ∈ entriesLeaves entries ↔
      ∃ key child rest, path = key :: rest ∧ (key, child) ∈ entries ∧
        (rest, value) ∈ child.leaves := by
  induction entries with
  | nil =>
      simp [entriesLeaves]
  | cons entry entries inductionHypothesis =>
      obtain ⟨name, child⟩ := entry
      rw [entriesLeaves, List.mem_append, inductionHypothesis]
      constructor
      · rintro (member | ⟨key, other, rest, rfl, member, isLeaf⟩)
        · obtain ⟨⟨rest, leaf⟩, isLeaf, same⟩ := List.mem_map.mp member
          cases same
          exact ⟨name, child, rest, rfl, List.mem_cons_self, isLeaf⟩
        · exact ⟨key, other, rest, rfl, List.mem_cons_of_mem _ member, isLeaf⟩
      · rintro ⟨key, other, rest, rfl, member, isLeaf⟩
        rcases List.mem_cons.mp member with isHere | member
        · cases isHere
          exact .inl (List.mem_map.mpr ⟨(rest, value), isLeaf, rfl⟩)
        · exact .inr ⟨key, other, rest, rfl, member, isLeaf⟩

/-- The leaves of a well-formed tree have different paths. -/
theorem nodup_leaves
    {tree : PathTree Key Leaf}
    (wellFormed : tree.WellFormed) :
    (tree.leaves.map Prod.fst).Nodup := by
  induction wellFormed with
  | leaf value =>
      simp [PathTree.leaves]
  | @node entries distinct wellFormedChild inductionHypothesis =>
      have below : ((entriesLeaves entries).map Prod.fst).Nodup := by
        induction entries with
        | nil =>
            exact List.nodup_nil
        | cons entry entries entriesHypothesis =>
            obtain ⟨key, child⟩ := entry
            simp only [List.map_cons, List.nodup_cons] at distinct
            rw [entriesLeaves, List.map_append, List.nodup_append]
            refine ⟨?_, ?_, ?_⟩
            · have ofChild := inductionHypothesis (key, child)
                List.mem_cons_self
              have isPath : (child.leaves.map fun (path, value) =>
                  (key :: path, value)).map Prod.fst =
                    (child.leaves.map Prod.fst).map (key :: ·) := by
                rw [List.map_map, List.map_map]
                rfl
              rw [isPath]
              exact ofChild.map (List.cons_injective)
            · exact entriesHypothesis distinct.2
                (fun other member => wellFormedChild other
                  (List.mem_cons_of_mem _ member))
                fun other member => inductionHypothesis other
                  (List.mem_cons_of_mem _ member)
            · rintro path isFirst other isSecond rfl
              obtain ⟨⟨_, value⟩, member, rfl⟩ := List.mem_map.mp isSecond
              obtain ⟨name, _, rest, isPath, isEntry, _⟩ :=
                mem_entriesLeaves.mp member
              obtain ⟨⟨_, first⟩, isLeaf, same⟩ := List.mem_map.mp isFirst
              obtain ⟨⟨tail, _⟩, _, isHere⟩ := List.mem_map.mp isLeaf
              dsimp only at isPath same
              cases isHere
              rw [isPath] at same
              cases same
              exact distinct.1 (List.mem_map.mpr ⟨_, isEntry, rfl⟩)
      cases entries with
      | nil => simp [PathTree.leaves]
      | cons entry entries => exact below

section Access

variable [DecidableEq Key]

/-- What is at a path. -/
def PathTree.get :
    PathTree Key Leaf → List Key → Option (PathTree Key Leaf)
  | tree, [] =>
      some tree
  | .leaf _, _ :: _ =>
      none
  | .node entries, key :: path =>
      match entries.lookup key with
      | none =>
          none
      | some child =>
          child.get path

/-- Give a key a value, at its place or after all others. -/
def assign
    (key : Key)
    (value : PathTree Key Leaf) : Entries Key Leaf → Entries Key Leaf
  | [] =>
      [(key, value)]
  | (other, child) :: entries =>
      if key = other then
        (key, value) :: entries
      else
        (other, child) :: assign key value entries

/-- Set what is at a path; some leaves block the way. -/
def PathTree.set
    (blocks : Leaf → Bool) :
    PathTree Key Leaf → List Key → PathTree Key Leaf → PathTree Key Leaf
  | _, [], value =>
      value
  | .leaf content, key :: path, value =>
      if blocks content then
        .leaf content
      else
        .node [(key, (PathTree.node []).set blocks path value)]
  | .node entries, key :: path, value =>
      .node (assign key
        (((entries.lookup key).getD (.node [])).set blocks path value) entries)

/-- Remove what is at a path; what is around it stays. -/
def PathTree.unset :
    PathTree Key Leaf → List Key → PathTree Key Leaf
  | tree, [] =>
      tree
  | .leaf content, _ :: _ =>
      .leaf content
  | .node entries, [key] =>
      .node (entries.filter (·.1 ≠ key))
  | .node entries, key :: next :: path =>
      match entries.lookup key with
      | none =>
          .node entries
      | some child =>
          .node (assign key (child.unset (next :: path)) entries)

/-- The leaf at a path, if there is one. -/
def PathTree.leafAt
    (tree : PathTree Key Leaf)
    (path : List Key) : Option (PathTree Key Leaf) :=
  (tree.get path).filter PathTree.isTerminal

/-- An assigned key has its value, and the other keys keep theirs. -/
@[simp] theorem lookup_assign
    (key other : Key)
    (value : PathTree Key Leaf)
    (entries : Entries Key Leaf) :
    (assign key value entries).lookup other =
      if other = key then some value else entries.lookup other := by
  induction entries with
  | nil =>
      by_cases same : other = key
      · simp [assign, same]
      · have differs : (other == key) = false := by simp [same]
        simp [assign, List.lookup_cons, same, differs]
  | cons entry entries inductionHypothesis =>
      obtain ⟨name, child⟩ := entry
      unfold assign
      by_cases isHere : key = name
      · subst isHere
        by_cases same : other = key
        · simp [same]
        · have differs : (other == key) = false := by simp [same]
          simp [List.lookup_cons, same, differs]
      · rw [if_neg isHere]
        by_cases isOther : other = name
        · subst isOther
          have apart : other ≠ key := Ne.symm isHere
          simp [apart]
        · have differs : (other == name) = false := by simp [isOther]
          simp [List.lookup_cons, differs, inductionHypothesis]

theorem assign_ne_nil
    (key : Key)
    (value : PathTree Key Leaf)
    (entries : Entries Key Leaf) :
    assign key value entries ≠ [] := by
  cases entries with
  | nil =>
      exact nofun
  | cons entry entries =>
      unfold assign
      split
      · exact nofun
      · exact nofun

variable {key : Key} {value tree : PathTree Key Leaf}
  {entries : Entries Key Leaf}

theorem assign_lookup
    (isThere : entries.lookup key = some value) :
    assign key value entries = entries := by
  induction entries with
  | nil =>
      cases isThere
  | cons entry entries inductionHypothesis =>
      obtain ⟨name, child⟩ := entry
      unfold assign
      by_cases isHere : key = name
      · subst isHere
        simp only [List.lookup_cons, BEq.rfl, Option.some.injEq] at isThere
        rw [if_pos rfl, isThere]
      · have differs : (key == name) = false := by simp [isHere]
        simp only [List.lookup_cons, differs] at isThere
        rw [if_neg isHere, inductionHypothesis isThere]

theorem mem_keys_assign
    {other : Key}
    (member : other ∈ (assign key value entries).map Prod.fst) :
    other = key ∨ other ∈ entries.map Prod.fst := by
  induction entries with
  | nil =>
      simpa [assign] using member
  | cons entry entries inductionHypothesis =>
      obtain ⟨name, child⟩ := entry
      unfold assign at member
      split at member
      · rename_i isHere
        subst isHere
        simp only [List.map_cons, List.mem_cons] at member ⊢
        rcases member with rfl | member
        · exact .inl rfl
        · exact .inr (.inr member)
      · simp only [List.map_cons, List.mem_cons] at member ⊢
        rcases member with rfl | member
        · exact .inr (.inl rfl)
        · rcases inductionHypothesis member with isKey | isThere
          · exact .inl isKey
          · exact .inr (.inr isThere)

theorem nodup_assign
    (distinct : (entries.map Prod.fst).Nodup) :
    ((assign key value entries).map Prod.fst).Nodup := by
  induction entries with
  | nil =>
      simp [assign]
  | cons entry entries inductionHypothesis =>
      obtain ⟨name, child⟩ := entry
      unfold assign
      simp only [List.map_cons, List.nodup_cons] at distinct
      split
      · rename_i isHere
        subst isHere
        simpa using distinct
      · rename_i isOther
        simp only [List.map_cons, List.nodup_cons]
        refine ⟨?_, inductionHypothesis distinct.2⟩
        intro member
        rcases mem_keys_assign member with rfl | isThere
        · exact isOther rfl
        · exact distinct.1 isThere

theorem mem_assign
    {entry : Key × PathTree Key Leaf}
    (member : entry ∈ assign key value entries) :
    entry = (key, value) ∨ entry ∈ entries := by
  induction entries with
  | nil =>
      simpa [assign] using member
  | cons first entries inductionHypothesis =>
      obtain ⟨name, child⟩ := first
      unfold assign at member
      split at member
      · rcases List.mem_cons.mp member with rfl | member
        · exact .inl rfl
        · exact .inr (List.mem_cons_of_mem _ member)
      · rcases List.mem_cons.mp member with rfl | member
        · exact .inr List.mem_cons_self
        · rcases inductionHypothesis member with isNew | isThere
          · exact .inl isNew
          · exact .inr (List.mem_cons_of_mem _ isThere)

theorem mem_of_lookup
    (isThere : entries.lookup key = some value) :
    (key, value) ∈ entries := by
  induction entries with
  | nil =>
      cases isThere
  | cons entry entries inductionHypothesis =>
      obtain ⟨name, child⟩ := entry
      by_cases isHere : key = name
      · subst isHere
        simp only [List.lookup_cons, BEq.rfl, Option.some.injEq] at isThere
        rw [isThere]
        exact List.mem_cons_self
      · have differs : (key == name) = false := by simp [isHere]
        simp only [List.lookup_cons, differs] at isThere
        exact List.mem_cons_of_mem _ (inductionHypothesis isThere)

theorem lookup_of_mem
    (distinct : (entries.map Prod.fst).Nodup)
    (member : (key, value) ∈ entries) :
    entries.lookup key = some value := by
  induction entries with
  | nil =>
      cases member
  | cons entry entries inductionHypothesis =>
      obtain ⟨name, child⟩ := entry
      simp only [List.map_cons, List.nodup_cons] at distinct
      rcases List.mem_cons.mp member with isHere | isLater
      · cases isHere
        simp
      · have isOther : key ≠ name := by
          intro same
          exact distinct.1 (List.mem_map.mpr ⟨(key, value), isLater, same⟩)
        have differs : (key == name) = false := by simp [isOther]
        simp only [List.lookup_cons, differs]
        exact inductionHypothesis distinct.2 isLater

variable {blocks : Leaf → Bool}

/-- Setting a path in a well-formed tree leaves a well-formed tree. -/
theorem PathTree.WellFormed.set
    (wellFormed : tree.WellFormed)
    (isValue : value.WellFormed)
    (path : List Key) :
    (tree.set blocks path value).WellFormed := by
  induction path generalizing tree with
  | nil =>
      unfold PathTree.set
      exact isValue
  | cons key path inductionHypothesis =>
      have empty : (PathTree.node [] : PathTree Key Leaf).WellFormed :=
        .node List.nodup_nil nofun
      cases tree with
      | leaf content =>
          unfold PathTree.set
          split
          · exact wellFormed
          · apply WellFormed.node
            · simp
            · intro entry member
              cases List.mem_singleton.mp member
              exact inductionHypothesis empty
      | node entries =>
          cases wellFormed with
          | node distinct children =>
              unfold PathTree.set
              apply WellFormed.node (nodup_assign distinct)
              intro entry member
              rcases mem_assign member with rfl | member
              · cases isThere : entries.lookup key with
                | none =>
                    exact inductionHypothesis empty
                | some child =>
                    exact inductionHypothesis
                      (children _ (mem_of_lookup isThere))
              · exact children entry member

/-- The way to a path is open: no blocking leaf lies on it. -/
def PathTree.IsOpen
    (blocks : Leaf → Bool)
    (tree : PathTree Key Leaf)
    (path : List Key) : Prop :=
  ∀ before rest content, path = before ++ rest → rest ≠ [] →
    tree.get before = some (.leaf content) → blocks content = false

variable {path before rest other : List Key}

theorem PathTree.IsOpen.child
    {child : PathTree Key Leaf}
    (isOpen : (PathTree.node entries).IsOpen blocks (key :: path))
    (isThere : entries.lookup key = some child) :
    child.IsOpen blocks path := by
  intro before rest content isSplit notEnd isLeaf
  apply isOpen (key :: before) rest content _ notEnd
  · rw [get, isThere]
    exact isLeaf
  · rw [isSplit, List.cons_append]

theorem isOpen_empty
    (blocks : Leaf → Bool)
    (path : List Key) :
    (PathTree.node [] : PathTree Key Leaf).IsOpen blocks path := by
  intro before rest content _ _ isLeaf
  cases before with
  | nil => cases isLeaf
  | cons key before => cases isLeaf

theorem PathTree.IsOpen.childOrEmpty
    (isOpen : (PathTree.node entries).IsOpen blocks (key :: path)) :
    ((entries.lookup key).getD (.node [])).IsOpen blocks path := by
  cases isThere : entries.lookup key with
  | none => exact isOpen_empty blocks path
  | some child => exact isOpen.child isThere

theorem get_set
    (isOpen : tree.IsOpen blocks path)
    (rest : List Key) :
    (tree.set blocks path value).get (path ++ rest) = value.get rest := by
  induction path generalizing tree with
  | nil =>
      unfold PathTree.set
      rfl
  | cons key path inductionHypothesis =>
      cases tree with
      | leaf content =>
          have notBlocked : blocks content = false :=
            isOpen [] (key :: path) content rfl nofun rfl
          unfold PathTree.set
          rw [notBlocked, if_neg nofun, List.cons_append, PathTree.get]
          simp only [List.lookup_cons, BEq.rfl]
          exact inductionHypothesis (isOpen_empty blocks path)
      | node entries =>
          unfold PathTree.set
          rw [List.cons_append, PathTree.get, lookup_assign, if_pos rfl]
          exact inductionHypothesis isOpen.childOrEmpty

/-- Before the end of an open path that is set there are nodes with entries. -/
theorem get_set_before
    (isOpen : tree.IsOpen blocks (before ++ rest))
    (notEnd : rest ≠ []) :
    ∃ entries, entries ≠ [] ∧
      (tree.set blocks (before ++ rest) value).get before =
        some (.node entries) := by
  induction before generalizing tree with
  | nil =>
      cases rest with
      | nil =>
          exact absurd rfl notEnd
      | cons key rest =>
          cases tree with
          | leaf content =>
              have notBlocked : blocks content = false :=
                isOpen [] (key :: rest) content rfl nofun rfl
              rw [List.nil_append, PathTree.set, notBlocked, if_neg nofun]
              exact ⟨_, List.cons_ne_nil _ _, rfl⟩
          | node entries =>
              rw [List.nil_append, PathTree.set]
              exact ⟨_, assign_ne_nil _ _ _, rfl⟩
  | cons key before inductionHypothesis =>
      cases tree with
      | leaf content =>
          have notBlocked : blocks content = false :=
            isOpen [] (key :: before ++ rest) content rfl nofun rfl
          rw [List.cons_append, PathTree.set, notBlocked, if_neg nofun,
            PathTree.get]
          simp only [List.lookup_cons, BEq.rfl]
          exact inductionHypothesis (isOpen_empty blocks _)
      | node entries =>
          rw [List.cons_append, PathTree.set, PathTree.get, lookup_assign,
            if_pos rfl]
          exact inductionHypothesis isOpen.childOrEmpty

/-- Two paths lie on different branches. -/
def Apart
    (first second : List Key) : Prop :=
  ¬first <+: second ∧ ¬second <+: first

/-- Setting a path changes nothing on other branches of a node. -/
theorem get_set_apart
    (apart : Apart path other) :
    (tree.set blocks path value).get other = tree.get other := by
  induction path generalizing tree other with
  | nil =>
      exact absurd (List.nil_prefix) apart.1
  | cons key path inductionHypothesis =>
      cases other with
      | nil =>
          exact absurd (List.nil_prefix) apart.2
      | cons name other =>
          have below : name = key → Apart path other := by
            rintro rfl
            refine ⟨fun isPrefix => apart.1 ?_, fun isPrefix => apart.2 ?_⟩
            · simpa using isPrefix
            · simpa using isPrefix
          have emptyGet : ∀ other : List Key, other ≠ [] →
              (PathTree.node [] : PathTree Key Leaf).get other = none := by
            intro other notRoot
            cases other with
            | nil => exact absurd rfl notRoot
            | cons _ _ => rfl
          have notRoot : name = key → other ≠ [] := by
            rintro same rfl
            exact (below same).2 List.nil_prefix
          cases tree with
          | leaf content =>
              unfold PathTree.set
              split
              · rfl
              · by_cases same : name = key
                · subst same
                  simp only [PathTree.get, List.lookup_cons, BEq.rfl]
                  rw [inductionHypothesis (below rfl),
                    emptyGet other (notRoot rfl)]
                · have differs : (name == key) = false := by simp [same]
                  simp only [PathTree.get, List.lookup_cons, List.lookup_nil,
                    differs]
          | node entries =>
              unfold PathTree.set
              rw [PathTree.get, lookup_assign, PathTree.get]
              by_cases same : name = key
              · subst same
                rw [if_pos rfl]
                dsimp only
                rw [inductionHypothesis (below rfl)]
                cases entries.lookup name with
                | none => exact emptyGet other (notRoot rfl)
                | some child => rfl
              · rw [if_neg same]

theorem set_blocked
    {content : Leaf}
    (isLeaf : tree.get before = some (.leaf content))
    (isBlocked : blocks content = true)
    (notEnd : rest ≠ []) :
    tree.set blocks (before ++ rest) value = tree := by
  induction before generalizing tree with
  | nil =>
      cases isLeaf
      cases rest with
      | nil => exact absurd rfl notEnd
      | cons key rest => rw [List.nil_append, PathTree.set, if_pos isBlocked]
  | cons key before inductionHypothesis =>
      cases tree with
      | leaf other =>
          cases isLeaf
      | node entries =>
          rw [PathTree.get] at isLeaf
          cases isThere : entries.lookup key with
          | none =>
              rw [isThere] at isLeaf
              cases isLeaf
          | some child =>
              rw [isThere] at isLeaf
              rw [List.cons_append, PathTree.set, isThere, Option.getD_some,
                inductionHypothesis isLeaf, assign_lookup isThere]

theorem isOpen_or_blocked
    (blocks : Leaf → Bool)
    (tree : PathTree Key Leaf)
    (path : List Key) :
    tree.IsOpen blocks path ∨
      ∃ before rest content, path = before ++ rest ∧ rest ≠ [] ∧
        tree.get before = some (.leaf content) ∧ blocks content = true := by
  by_cases isOpen : tree.IsOpen blocks path
  · exact .inl isOpen
  · right
    unfold PathTree.IsOpen at isOpen
    push Not at isOpen
    obtain ⟨before, rest, content, isSplit, notEnd, isLeaf, isBlocked⟩ := isOpen
    exact ⟨before, rest, content, isSplit, notEnd, isLeaf,
      by simpa using isBlocked⟩

/-- The leaves of a well-formed tree are what is found at their paths. -/
theorem mem_leaves_iff
    (wellFormed : tree.WellFormed) :
    (path, value) ∈ tree.leaves ↔ tree.leafAt path = some value := by
  unfold PathTree.leafAt
  rw [Option.filter_eq_some_iff]
  induction path generalizing tree with
  | nil =>
      cases tree with
      | leaf content =>
          simp only [PathTree.leaves, PathTree.get, List.mem_singleton,
            Prod.mk.injEq, true_and, Option.some.injEq]
          constructor
          · rintro rfl
            exact ⟨rfl, rfl⟩
          · rintro ⟨rfl, _⟩
            rfl
      | node entries =>
          cases entries with
          | nil =>
              simp only [PathTree.leaves, PathTree.get, List.mem_singleton,
                Prod.mk.injEq, true_and, Option.some.injEq]
              constructor
              · rintro rfl
                exact ⟨rfl, rfl⟩
              · rintro ⟨rfl, _⟩
                rfl
          | cons entry entries =>
              rw [PathTree.leaves, mem_entriesLeaves]
              constructor
              · rintro ⟨_, _, _, impossible, _⟩
                cases impossible
              · rintro ⟨isRoot, isTerminal⟩
                cases isRoot
                cases isTerminal
  | cons key path inductionHypothesis =>
      cases tree with
      | leaf content =>
          simp [PathTree.leaves, PathTree.get]
      | node entries =>
          have leavesOf : (PathTree.node entries).leaves =
              if entries = [] then [([], .node [])]
              else entriesLeaves entries := by
            cases entries with
            | nil => rfl
            | cons entry entries => rfl
          cases wellFormed with
          | node distinct children =>
              have below : (key :: path, value) ∈
                  (PathTree.node entries).leaves ↔
                    (key :: path, value) ∈ entriesLeaves entries := by
                rw [leavesOf]
                split
                · rename_i isEmpty
                  subst isEmpty
                  simp [entriesLeaves]
                · exact Iff.rfl
              rw [below, mem_entriesLeaves, PathTree.get]
              constructor
              · rintro ⟨name, child, rest, isPath, member, isLeaf⟩
                cases isPath
                rw [lookup_of_mem distinct member]
                exact (inductionHypothesis (children _ member)).mp isLeaf
              · rintro ⟨isThere, isTerminal⟩
                cases isChild : entries.lookup key with
                | none =>
                    rw [isChild] at isThere
                    cases isThere
                | some child =>
                    rw [isChild] at isThere
                    have member := mem_of_lookup isChild
                    exact ⟨key, child, path, rfl, member,
                      (inductionHypothesis (children _ member)).mpr
                        ⟨isThere, isTerminal⟩⟩

/-- Looking a path up among the leaves finds the leaf that is there. -/
theorem lookup_leaves
    (wellFormed : tree.WellFormed)
    (path : List Key) :
    tree.leaves.lookup path = tree.leafAt path := by
  have found : ∀ (leaves : List (List Key × PathTree Key Leaf)) value,
      leaves.lookup path = some value → (path, value) ∈ leaves := by
    intro leaves value isThere
    induction leaves with
    | nil =>
        cases isThere
    | cons leaf leaves inductionHypothesis =>
        obtain ⟨other, content⟩ := leaf
        by_cases isHere : path = other
        · subst isHere
          simp only [List.lookup_cons, BEq.rfl, Option.some.injEq] at isThere
          rw [isThere]
          exact List.mem_cons_self
        · have differs : (path == other) = false := by simp [isHere]
          simp only [List.lookup_cons, differs] at isThere
          exact List.mem_cons_of_mem _ (inductionHypothesis isThere)
  cases isFound : tree.leaves.lookup path with
  | some value =>
      exact ((mem_leaves_iff wellFormed).mp (found _ _ isFound)).symm
  | none =>
      cases isLeaf : tree.leafAt path with
      | none =>
          rfl
      | some value =>
          have member := (mem_leaves_iff wellFormed).mpr isLeaf
          have missing := List.lookup_eq_none_iff.mp isFound _ member
          simp at missing

/-- Above something there is a node with entries. -/
theorem get_above
    (isThere : tree.get (before ++ rest) = some value)
    (notEnd : rest ≠ []) :
    ∃ entries, entries ≠ [] ∧ tree.get before = some (.node entries) := by
  induction before generalizing tree with
  | nil =>
      cases rest with
      | nil =>
          exact absurd rfl notEnd
      | cons key rest =>
          cases tree with
          | leaf content =>
              cases isThere
          | node entries =>
              refine ⟨entries, ?_, rfl⟩
              rintro rfl
              cases isThere
  | cons key before inductionHypothesis =>
      cases tree with
      | leaf content =>
          cases isThere
      | node entries =>
          rw [List.cons_append, PathTree.get] at isThere
          rw [PathTree.get]
          cases isChild : entries.lookup key with
          | none =>
              rw [isChild] at isThere
              cases isThere
          | some child =>
              rw [isChild] at isThere
              exact inductionHypothesis isThere

theorem get_set_stays
    (isNode : tree.get other = some (.node entries))
    (notEmpty : entries ≠ [])
    (notAbove : ¬path <+: other) :
    ∃ later, later ≠ [] ∧
      (tree.set blocks path value).get other = some (.node later) := by
  by_cases isBelow : other <+: path
  · obtain ⟨rest, rfl⟩ := isBelow
    have notEnd : rest ≠ [] := by
      rintro rfl
      simp at notAbove
    rcases isOpen_or_blocked blocks tree (other ++ rest) with
      isOpen | ⟨before, tail, content, isSplit, isTail, isLeaf, isBlocked⟩
    · exact get_set_before isOpen notEnd
    · rw [isSplit, set_blocked isLeaf isBlocked isTail]
      exact ⟨entries, notEmpty, isNode⟩
  · rw [get_set_apart ⟨notAbove, isBelow⟩]
    exact ⟨entries, notEmpty, isNode⟩

/-- A path is open when it is open below a tree on its way. -/
theorem isOpen_append
    (isThere : tree.get before = some value)
    (isOpen : value.IsOpen blocks rest) :
    tree.IsOpen blocks (before ++ rest) := by
  induction before generalizing tree with
  | nil =>
      cases isThere
      exact isOpen
  | cons key before inductionHypothesis =>
      cases tree with
      | leaf content =>
          cases isThere
      | node entries =>
          rw [PathTree.get] at isThere
          cases isChild : entries.lookup key with
          | none =>
              rw [isChild] at isThere
              cases isThere
          | some child =>
              rw [isChild] at isThere
              have childOpen := inductionHypothesis isThere
              intro above tail content isSplit notEnd isLeaf
              cases above with
              | nil =>
                  cases isLeaf
              | cons name above =>
                  obtain ⟨rfl, isTail⟩ := List.cons.inj isSplit
                  rw [PathTree.get, isChild] at isLeaf
                  exact childOpen above tail content isTail notEnd isLeaf

theorem isOpen_terminal
    (terminal : value.isTerminal = true)
    (free : ∀ content, value = .leaf content → blocks content = false)
    (path : List Key) :
    value.IsOpen blocks path := by
  cases value with
  | node entries =>
      cases entries with
      | nil => exact isOpen_empty blocks path
      | cons entry entries => cases terminal
  | leaf content =>
      intro before rest other _ _ isLeaf
      cases before with
      | nil =>
          cases isLeaf
          exact free content rfl
      | cons key before =>
          cases isLeaf

theorem lookup_filter_ne
    (key other : Key)
    (entries : Entries Key Leaf) :
    (entries.filter (·.1 ≠ key)).lookup other =
      if other = key then none else entries.lookup other := by
  induction entries with
  | nil =>
      simp
  | cons entry entries inductionHypothesis =>
      obtain ⟨name, child⟩ := entry
      by_cases isHere : name = key
      · subst isHere
        rw [List.filter_cons_of_neg (by simp), inductionHypothesis]
        by_cases same : other = name
        · simp [same]
        · have differs : (other == name) = false := by simp [same]
          simp [List.lookup_cons, same, differs]
      · rw [List.filter_cons_of_pos (by simpa using isHere)]
        by_cases isOther : other = name
        · subst isOther
          simp [isHere]
        · have differs : (other == name) = false := by simp [isOther]
          simp only [List.lookup_cons, differs]
          exact inductionHypothesis

theorem get_unset
    (notRoot : path ≠ []) :
    (tree.unset path).get path = none := by
  induction path generalizing tree with
  | nil =>
      exact absurd rfl notRoot
  | cons key path inductionHypothesis =>
      cases tree with
      | leaf content =>
          rfl
      | node entries =>
          cases path with
          | nil =>
              rw [PathTree.unset, PathTree.get, lookup_filter_ne, if_pos rfl]
          | cons next path =>
              rw [PathTree.unset]
              cases isThere : entries.lookup key with
              | none =>
                  dsimp only
                  rw [PathTree.get, isThere]
              | some child =>
                  dsimp only
                  rw [PathTree.get, lookup_assign, if_pos rfl]
                  exact inductionHypothesis nofun

/-- Removing a path changes nothing on other branches. -/
theorem get_unset_apart
    (apart : Apart path other) :
    (tree.unset path).get other = tree.get other := by
  induction path generalizing tree other with
  | nil =>
      exact absurd List.nil_prefix apart.1
  | cons key path inductionHypothesis =>
      cases other with
      | nil =>
          exact absurd List.nil_prefix apart.2
      | cons name other =>
          have below : name = key → Apart path other := by
            rintro rfl
            refine ⟨fun isPrefix => apart.1 ?_, fun isPrefix => apart.2 ?_⟩
            · simpa using isPrefix
            · simpa using isPrefix
          cases tree with
          | leaf content =>
              rfl
          | node entries =>
              cases path with
              | nil =>
                  have differs : name ≠ key := fun same =>
                    (below same).1 List.nil_prefix
                  rw [PathTree.unset, PathTree.get, PathTree.get,
                    lookup_filter_ne, if_neg differs]
              | cons next path =>
                  rw [PathTree.unset]
                  cases isThere : entries.lookup key with
                  | none =>
                      rfl
                  | some child =>
                      dsimp only
                      rw [PathTree.get, PathTree.get, lookup_assign]
                      by_cases same : name = key
                      · subst same
                        rw [if_pos rfl, isThere]
                        exact inductionHypothesis (below rfl)
                      · rw [if_neg same]

/-- Before the end of a path that is removed nodes stay nodes. -/
theorem get_unset_before
    (isNode : tree.get before = some (.node entries))
    (notEnd : rest ≠ []) :
    ∃ later, (tree.unset (before ++ rest)).get before = some (.node later) := by
  induction before generalizing tree with
  | nil =>
      cases isNode
      cases rest with
      | nil =>
          exact absurd rfl notEnd
      | cons key rest =>
          cases rest with
          | nil =>
              exact ⟨_, rfl⟩
          | cons next rest =>
              rw [List.nil_append, PathTree.unset]
              cases entries.lookup key with
              | none => exact ⟨_, rfl⟩
              | some child => exact ⟨_, rfl⟩
  | cons key before inductionHypothesis =>
      cases tree with
      | leaf content =>
          cases isNode
      | node others =>
          rw [PathTree.get] at isNode
          cases isThere : others.lookup key with
          | none =>
              rw [isThere] at isNode
              cases isNode
          | some child =>
              rw [isThere] at isNode
              obtain ⟨later, isLater⟩ := inductionHypothesis isNode
              obtain ⟨next, path, isPath⟩ : ∃ next path,
                  before ++ rest = next :: path :=
                List.exists_cons_of_ne_nil
                  (List.append_ne_nil_of_right_ne_nil before notEnd)
              refine ⟨later, ?_⟩
              rw [List.cons_append, isPath, PathTree.unset, isThere]
              dsimp only
              rw [PathTree.get, lookup_assign, if_pos rfl, ← isPath]
              exact isLater

end Access

end Frameleaf.PathTrees
