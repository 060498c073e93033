import Mathlib.Data.List.Induction
import Mathlib.Logic.Function.Basic

namespace Frameleaf.EntryGraphs

/-!
# Nodes that contain each other under names

A node can contain others, each under a name, and is named itself.  From the
root a node is reached by the names along a path.  A graph is a proper tree when
each node that is contained somewhere is so once, under its own name.  Placing a
node that contains nothing keeps a proper tree, if it is contained nowhere else.
-/

variable {Node Name : Type*}

/-- Nodes with what they contain, and the name that each gives itself. -/
structure EntryGraph (Node Name : Type*) where
  root : Node
  entry : Node → Name → Option Node
  name : Node → Option Name

/-- The node at the end of a path from some node. -/
def EntryGraph.resolve
    (graph : EntryGraph Node Name) : Node → List Name → Option Node
  | node, [] =>
      some node
  | node, name :: path =>
      (graph.entry node name).bind fun next => graph.resolve next path

/-- A path leads from the root to the node. -/
def EntryGraph.Reachable
    (graph : EntryGraph Node Name)
    (node : Node) : Prop :=
  ∃ path, graph.resolve graph.root path = some node

/-- A node that can be reached contains another one. -/
structure EntryGraph.Contains
    (graph : EntryGraph Node Name)
    (folder : Node)
    (name : Name)
    (node : Node) : Prop where
  reachable : graph.Reachable folder
  entry : graph.entry folder name = some node

/-- Each node is contained once, under its own name, and the root nowhere. -/
structure EntryGraph.Proper
    (graph : EntryGraph Node Name) : Prop where
  keyed : ∀ folder name node, graph.Contains folder name node →
    graph.name node = some name
  single : ∀ folder other name node, graph.Contains folder name node →
    graph.Contains other name node → folder = other
  root : ∀ folder name, ¬graph.Contains folder name graph.root

variable {graph : EntryGraph Node Name}

theorem EntryGraph.resolve_append
    (start : Node)
    (path rest : List Name) :
    graph.resolve start (path ++ rest) =
      (graph.resolve start path).bind fun next => graph.resolve next rest := by
  induction path generalizing start with
  | nil =>
      rfl
  | cons name path inductionHypothesis =>
      rw [List.cons_append, EntryGraph.resolve, EntryGraph.resolve]
      cases graph.entry start name with
      | none =>
          rfl
      | some next =>
          exact inductionHypothesis next

variable {path : List Name} {name otherName : Name}
  {node folder other start found : Node}

theorem EntryGraph.contains_of_resolve
    (leads : graph.resolve graph.root (path ++ [name]) = some node) :
    ∃ folder, graph.resolve graph.root path = some folder ∧
      graph.Contains folder name node := by
  rw [EntryGraph.resolve_append, Option.bind_eq_some_iff] at leads
  obtain ⟨folder, isFolder, isEntry⟩ := leads
  rw [EntryGraph.resolve, Option.bind_eq_some_iff] at isEntry
  obtain ⟨next, isNext, isNode⟩ := isEntry
  cases isNode
  exact ⟨folder, isFolder, ⟨path, isFolder⟩, isNext⟩

/-- In a proper tree only one path leads to a node. -/
theorem EntryGraph.Proper.path_unique
    (proper : graph.Proper)
    {first second : List Name}
    (isFirst : graph.resolve graph.root first = some node)
    (isSecond : graph.resolve graph.root second = some node) :
    first = second := by
  induction first using List.reverseRecOn generalizing second node with
  | nil =>
      cases isFirst
      cases second using List.reverseRecOn with
      | nil =>
          rfl
      | append_singleton second name =>
          obtain ⟨folder, _, contains⟩ :=
            EntryGraph.contains_of_resolve isSecond
          exact absurd contains (proper.root folder name)
  | append_singleton first name inductionHypothesis =>
      obtain ⟨folder, toFolder, contains⟩ :=
        EntryGraph.contains_of_resolve isFirst
      cases second using List.reverseRecOn with
      | nil =>
          cases isSecond
          exact absurd contains (proper.root folder name)
      | append_singleton second other =>
          obtain ⟨otherFolder, toOther, otherContains⟩ :=
            EntryGraph.contains_of_resolve isSecond
          have isName := proper.keyed _ _ _ contains
          rw [proper.keyed _ _ _ otherContains] at isName
          cases isName
          have same := proper.single _ _ _ _ contains otherContains
          subst same
          rw [inductionHypothesis toFolder toOther]

theorem EntryGraph.resolve_of_fewer
    {fewer : EntryGraph Node Name}
    (isFewer : ∀ folder name node, fewer.entry folder name = some node →
      graph.entry folder name = some node)
    (leads : fewer.resolve start path = some node) :
    graph.resolve start path = some node := by
  induction path generalizing start with
  | nil =>
      exact leads
  | cons first path inductionHypothesis =>
      rw [EntryGraph.resolve, Option.bind_eq_some_iff] at leads ⊢
      obtain ⟨next, isEntry, leadsOn⟩ := leads
      exact ⟨next, isFewer _ _ _ isEntry, inductionHypothesis leadsOn⟩

theorem EntryGraph.contains_of_fewer
    {fewer : EntryGraph Node Name}
    (sameRoot : fewer.root = graph.root)
    (isFewer : ∀ folder name node, fewer.entry folder name = some node →
      graph.entry folder name = some node)
    (contains : fewer.Contains folder name node) :
    graph.Contains folder name node := by
  obtain ⟨⟨path, leads⟩, isEntry⟩ := contains
  rw [sameRoot] at leads
  exact ⟨⟨path, EntryGraph.resolve_of_fewer isFewer leads⟩,
    isFewer _ _ _ isEntry⟩

theorem EntryGraph.Proper.fewer
    (proper : graph.Proper)
    {fewer : EntryGraph Node Name}
    (sameRoot : fewer.root = graph.root)
    (sameName : fewer.name = graph.name)
    (isFewer : ∀ folder name node, fewer.entry folder name = some node →
      graph.entry folder name = some node) :
    fewer.Proper where
  keyed := by
    intro folder name node contains
    rw [sameName]
    exact proper.keyed folder name node
      (EntryGraph.contains_of_fewer sameRoot isFewer contains)
  single := by
    intro folder other name node first second
    exact proper.single folder other name node
      (EntryGraph.contains_of_fewer sameRoot isFewer first)
      (EntryGraph.contains_of_fewer sameRoot isFewer second)
  root := by
    intro folder name contains
    rw [sameRoot] at contains
    exact proper.root folder name
      (EntryGraph.contains_of_fewer sameRoot isFewer contains)

variable [DecidableEq Node] [DecidableEq Name]

/-- Put a node under a name, which it takes. -/
def EntryGraph.place
    (graph : EntryGraph Node Name)
    (folder : Node)
    (name : Name)
    (node : Node) : EntryGraph Node Name where
  root := graph.root
  entry := fun other otherName =>
    if other = folder ∧ otherName = name then
      some node
    else
      graph.entry other otherName
  name := Function.update graph.name node (some name)

/-- Remove what is under a name. -/
def EntryGraph.remove
    (graph : EntryGraph Node Name)
    (folder : Node)
    (name : Name) : EntryGraph Node Name where
  root := graph.root
  entry := fun other otherName =>
    if other = folder ∧ otherName = name then
      none
    else
      graph.entry other otherName
  name := graph.name

theorem EntryGraph.entry_remove
    (isEntry : (graph.remove folder name).entry other otherName = some node) :
    graph.entry other otherName = some node ∧
      ¬(other = folder ∧ otherName = name) := by
  unfold EntryGraph.remove at isEntry
  dsimp only at isEntry
  split at isEntry
  · cases isEntry
  · rename_i isElsewhere
    exact ⟨isEntry, isElsewhere⟩

theorem EntryGraph.contains_remove
    (contains : (graph.remove folder name).Contains other otherName node) :
    graph.Contains other otherName node ∧
      ¬(other = folder ∧ otherName = name) := by
  have isFewer : ∀ one oneName found,
      (graph.remove folder name).entry one oneName = some found →
        graph.entry one oneName = some found :=
    fun _ _ _ isEntry => (EntryGraph.entry_remove isEntry).1
  have sameRoot : (graph.remove folder name).root = graph.root := rfl
  exact ⟨EntryGraph.contains_of_fewer sameRoot isFewer contains,
    (EntryGraph.entry_remove contains.entry).2⟩

theorem EntryGraph.Proper.remove
    (proper : graph.Proper)
    (folder : Node)
    (name : Name) :
    (graph.remove folder name).Proper :=
  proper.fewer rfl rfl fun _ _ _ isEntry => (EntryGraph.entry_remove isEntry).1

/-- What is reached after placing a node is that node or was reached before. -/
theorem EntryGraph.resolve_of_place
    (isLeaf : ∀ inner, graph.entry node inner = none)
    (notFolder : node ≠ folder)
    (leads : (graph.place folder name node).resolve start path = some found) :
    found = node ∨ graph.resolve start path = some found := by
  induction path generalizing start with
  | nil =>
      exact .inr leads
  | cons first path inductionHypothesis =>
      rw [EntryGraph.resolve, Option.bind_eq_some_iff] at leads
      obtain ⟨next, isEntry, leadsOn⟩ := leads
      unfold EntryGraph.place at isEntry
      dsimp only at isEntry
      split at isEntry
      · cases isEntry
        cases path with
        | nil =>
            cases leadsOn
            exact .inl rfl
        | cons second path =>
            rw [EntryGraph.resolve, EntryGraph.place] at leadsOn
            dsimp only at leadsOn
            rw [if_neg (fun same => notFolder same.1), isLeaf] at leadsOn
            cases leadsOn
      · rcases inductionHypothesis leadsOn with isNode | before
        · exact .inl isNode
        · right
          rw [EntryGraph.resolve, isEntry]
          exact before

theorem EntryGraph.contains_place
    (isLeaf : ∀ inner, graph.entry node inner = none)
    (notFolder : node ≠ folder)
    (contains : (graph.place folder name node).Contains other otherName found) :
    (other = folder ∧ otherName = name ∧ found = node) ∨
      graph.Contains other otherName found ∧
        ¬(other = folder ∧ otherName = name) := by
  obtain ⟨⟨path, leads⟩, isEntry⟩ := contains
  have before := EntryGraph.resolve_of_place isLeaf notFolder leads
  unfold EntryGraph.place at isEntry
  dsimp only at isEntry
  split at isEntry
  · rename_i isHere
    cases isEntry
    exact .inl ⟨isHere.1, isHere.2, rfl⟩
  · rename_i isElsewhere
    right
    rcases before with rfl | before
    · rw [isLeaf] at isEntry
      cases isEntry
    · exact ⟨⟨⟨path, before⟩, isEntry⟩, isElsewhere⟩

/-- Placing a node that is contained nowhere else keeps a proper tree. -/
theorem EntryGraph.Proper.place
    (proper : graph.Proper)
    (isLeaf : ∀ inner, graph.entry node inner = none)
    (notFolder : node ≠ folder)
    (notRoot : node ≠ graph.root)
    (notElsewhere : ∀ other otherName, graph.Contains other otherName node →
      other = folder ∧ otherName = name) :
    (graph.place folder name node).Proper where
  keyed := by
    intro other otherName found contains
    rcases EntryGraph.contains_place isLeaf notFolder contains with
      ⟨_, rfl, rfl⟩ | ⟨before, isElsewhere⟩
    · exact Function.update_self _ _ _
    · have isOther : found ≠ node := by
        rintro rfl
        exact isElsewhere (notElsewhere other otherName before)
      exact (Function.update_of_ne isOther _ _).trans
        (proper.keyed other otherName found before)
  single := by
    intro one other otherName found first second
    rcases EntryGraph.contains_place isLeaf notFolder first with
      ⟨rfl, rfl, rfl⟩ | ⟨before, isElsewhere⟩
    · rcases EntryGraph.contains_place isLeaf notFolder second with
        ⟨rfl, _, _⟩ | ⟨before, isElsewhere⟩
      · rfl
      · exact absurd (notElsewhere _ _ before) isElsewhere
    · rcases EntryGraph.contains_place isLeaf notFolder second with
        ⟨_, _, rfl⟩ | ⟨beforeToo, _⟩
      · exact absurd (notElsewhere _ _ before) isElsewhere
      · exact proper.single one other otherName found before beforeToo
  root := by
    intro other otherName contains
    rcases EntryGraph.contains_place isLeaf notFolder contains with
      ⟨_, _, isRoot⟩ | ⟨before, _⟩
    · exact notRoot isRoot.symm
    · exact proper.root other otherName before

end Frameleaf.EntryGraphs
