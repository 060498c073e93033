import Frameleaf.VirtualWorkspace.Handles

namespace Frameleaf.VirtualWorkspace

open EntryGraphs InsertionMaps

/-!
# What a step does to the tree

A step attaches new nodes, removes an entry, moves a file or changes the bytes
of one.  The tree stays proper, as long as no file is moved through a handle
that has lost it.
-/

/-- The tree is proper, and nothing is in it that was not made. -/
structure Sound
    (nodes : Nodes) : Prop where
  proper : nodes.graph.Proper
  bounded : ∀ folder name child, nodes.entry folder name = some child →
    child < nodes.next
  isThere : ∃ directory, nodes.directory? root = some directory

/-- A node that has no children yet. -/
def Node.IsNew
    (node : Node) : Prop :=
  ∀ found, node = .directory found → found.children = .empty

/-- Some nodes were attached. -/
inductive Grown
    (before : Nodes) : Nodes → Prop
  | refl :
      Grown before before
  | attach
      {middle : Nodes}
      (grown : Grown before middle)
      (folder : NodeId)
      {node : Node}
      (isNew : node.IsNew) :
      Grown before (attach middle folder node)

/-- A move does not harm the tree: it takes every entry of its file away, and
no other one. -/
structure MovePlan.Safe
    (plan : MovePlan)
    (nodes : Nodes) : Prop where
  alone : ∀ folder name,
    nodes.graph.Contains folder name plan.handle.node →
      (folder = plan.handle.owner ∧ name = plan.file.name) ∨
        (folder = plan.destination.node ∧ name = plan.name)
  own : ∀ child,
    nodes.entry plan.handle.owner plan.file.name = some child →
      child = plan.handle.node ∨
        (plan.handle.owner = plan.destination.node ∧
          plan.file.name = plan.name)

variable {nodes after : Nodes}

theorem sound_start : Sound .start := by
  have noEntry : ∀ folder name, Nodes.start.entry folder name = none := by
    intro folder name
    match folder with
    | 0 => rfl
    | folder + 1 => rfl
  have nothing : ∀ {folder name node},
      ¬Nodes.start.graph.Contains folder name node := by
    intro folder name node contains
    have isEntry : Nodes.start.entry folder name = some node := contains.entry
    rw [noEntry] at isEntry
    cases isEntry
  refine ⟨⟨?_, ?_, ?_⟩, ?_, _, rfl⟩
  · intro folder name node contains
    exact absurd contains nothing
  · intro folder other name node contains
    exact absurd contains nothing
  · intro folder name contains
    exact nothing contains
  · intro folder name child isEntry
    rw [noEntry] at isEntry
    cases isEntry

theorem Sound.root_lt_next
    (sound : Sound nodes) :
    root < nodes.next := by
  obtain ⟨directory, isDirectory⟩ := sound.isThere
  exact (List.getElem?_eq_some_iff.mp
    ((nodes.directory?_eq_some).mp isDirectory)).1

theorem Sound.next_not_contained
    (sound : Sound nodes)
    (folder : NodeId)
    (name : String) :
    ¬nodes.graph.Contains folder name nodes.next := by
  intro contains
  exact Nat.lt_irrefl _ (sound.bounded folder name _ contains.entry)

variable {node : Node}

theorem graph_attach
    {folder : NodeId}
    {directory : DirectoryNode}
    (isDirectory : nodes.directory? folder = some directory)
    (isNew : node.IsNew) :
    (attach nodes folder node).graph =
      nodes.graph.place folder node.name nodes.next := by
  have isThere := (nodes.directory?_eq_some).mp isDirectory
  have inRange : folder < nodes.next :=
    (List.getElem?_eq_some_iff.mp isThere).1
  have stillThere : (nodes.allocate node).directory? folder =
      some directory := by
    rw [Nodes.directory?_eq_some, nodes.getElem?_allocate node inRange]
    exact isThere
  unfold attach Nodes.graph EntryGraph.place
  rw [isDirectory]
  dsimp only
  congr 1
  · funext other otherName
    rw [Nodes.entry_setEntry _ stillThere, nodes.entry_allocate isNew]
  · unfold Nodes.setEntry
    rw [Nodes.nameOf_setChildren, nodes.nameOf_allocate]

theorem next_le_attach
    (folder : NodeId)
    (node : Node) :
    nodes.next ≤ (attach nodes folder node).next := by
  unfold attach
  split
  · exact Nat.le_refl _
  · unfold Nodes.setEntry
    rw [Nodes.next_setChildren, Nodes.next_allocate]
    exact Nat.le_succ _

theorem entry_attach
    {folder other child : NodeId}
    {otherName : String}
    (isNew : node.IsNew)
    (isEntry : (attach nodes folder node).entry other otherName =
      some child) :
    (child = nodes.next ∧ nodes.next < (attach nodes folder node).next) ∨
      nodes.entry other otherName = some child := by
  cases isDirectory : nodes.directory? folder with
  | none =>
      unfold attach at isEntry
      rw [isDirectory] at isEntry
      exact .inr isEntry
  | some directory =>
      have sameEntry := congrFun (congrFun (congrArg EntryGraph.entry
        (graph_attach isDirectory isNew)) other) otherName
      have isPlaced := sameEntry.symm.trans isEntry
      unfold EntryGraph.place at isPlaced
      dsimp only at isPlaced
      split at isPlaced
      · cases isPlaced
        refine .inl ⟨rfl, ?_⟩
        unfold attach
        rw [isDirectory]
        unfold Nodes.setEntry
        rw [Nodes.next_setChildren, Nodes.next_allocate]
        exact Nat.lt_succ_self _
      · exact .inr isPlaced

theorem Sound.attach
    (sound : Sound nodes)
    (folder : NodeId)
    (isNew : node.IsNew) :
    Sound (attach nodes folder node) where
  proper := by
    cases isDirectory : nodes.directory? folder with
    | none =>
        unfold VirtualWorkspace.attach
        rw [isDirectory]
        exact sound.proper
    | some directory =>
        have isThere := (nodes.directory?_eq_some).mp isDirectory
        have inRange : folder < nodes.next :=
          (List.getElem?_eq_some_iff.mp isThere).1
        rw [graph_attach isDirectory isNew]
        apply sound.proper.place
        · exact nodes.entry_of_none nodes.getElem?_next
        · exact Nat.ne_of_gt inRange
        · exact Nat.ne_of_gt sound.root_lt_next
        · intro other otherName contains
          exact absurd contains (sound.next_not_contained other otherName)
  bounded := by
    intro other otherName child isEntry
    rcases entry_attach isNew isEntry with ⟨rfl, isMore⟩ | isOld
    · exact isMore
    · exact Nat.lt_of_lt_of_le (sound.bounded other otherName child isOld)
        (next_le_attach folder node)
  isThere := by
    obtain ⟨directory, isDirectory⟩ := sound.isThere
    have isThere := (nodes.directory?_eq_some).mp isDirectory
    have stillThere : (nodes.allocate node).directory? root =
        some directory := by
      rw [Nodes.directory?_eq_some,
        nodes.getElem?_allocate node sound.root_lt_next]
      exact isThere
    unfold VirtualWorkspace.attach
    split
    · exact ⟨directory, isDirectory⟩
    · exact Nodes.directory?_setChildren _ stillThere _ _

theorem Sound.grown
    (sound : Sound nodes)
    (grown : Grown nodes after) :
    Sound after := by
  induction grown with
  | refl =>
      exact sound
  | attach _ folder isNew inductionHypothesis =>
      exact inductionHypothesis.attach folder isNew

theorem Sound.fewer
    (sound : Sound nodes)
    (sameNames : after.nameOf = nodes.nameOf)
    (asMany : after.next = nodes.next)
    (isThere : ∃ directory, after.directory? root = some directory)
    (isFewer : ∀ folder name child, after.entry folder name = some child →
      nodes.entry folder name = some child) :
    Sound after where
  proper := sound.proper.fewer rfl sameNames isFewer
  bounded := by
    intro folder name child isEntry
    rw [asMany]
    exact sound.bounded folder name child (isFewer folder name child isEntry)
  isThere := isThere

theorem Sound.deleteEntry
    (sound : Sound nodes)
    (folder : NodeId)
    (name : String) :
    Sound (nodes.deleteEntry folder name) := by
  obtain ⟨directory, isDirectory⟩ := sound.isThere
  apply sound.fewer
  · exact nodes.nameOf_setChildren _ _
  · exact nodes.next_setChildren _ _
  · exact nodes.directory?_setChildren isDirectory _ _
  · intro other otherName child isEntry
    have sameEntry := congrFun (congrFun (congrArg EntryGraph.entry
      (nodes.graph_deleteEntry folder name)) other) otherName
    exact (EntryGraph.entry_remove (sameEntry.symm.trans isEntry)).1

theorem Sound.cleared
    (sound : Sound nodes)
    (folder : NodeId) :
    Sound (nodes.setChildren folder fun _ => .empty) := by
  obtain ⟨directory, isDirectory⟩ := sound.isThere
  apply sound.fewer
  · exact nodes.nameOf_setChildren _ _
  · exact nodes.next_setChildren _ _
  · exact nodes.directory?_setChildren isDirectory _ _
  · intro other otherName child isEntry
    cases isDirectory : nodes.directory? folder with
    | none =>
        unfold Nodes.setChildren at isEntry
        rw [isDirectory] at isEntry
        exact isEntry
    | some directory =>
        rw [nodes.entry_setChildren isDirectory] at isEntry
        split at isEntry
        · cases isEntry
        · exact isEntry

theorem Sound.setFile
    (sound : Sound nodes)
    (id : NodeId)
    {change : FileNode → FileNode}
    (sameName : ∀ file, (change file).name = file.name) :
    Sound (nodes.setFile id change) := by
  have sameGraph := nodes.graph_setFile id sameName
  apply sound.fewer
  · exact congrArg EntryGraph.name sameGraph
  · exact nodes.next_setFile _ _
  · rw [nodes.directory?_setFile]
    exact sound.isThere
  · intro folder name child isEntry
    rw [nodes.entry_setFile] at isEntry
    exact isEntry

/-! ## Moves -/

/-- What the checks of a move have found. -/
structure MovePlan.Found
    (plan : MovePlan)
    (nodes : Nodes) : Prop where
  isFile : nodes.file? plan.handle.node = some plan.file
  isDirectory : ∃ directory,
    nodes.directory? plan.destination.node = some directory

variable {plan : MovePlan}

theorem found_of_planMove
    {workspace : Workspace}
    {handle : FileHandle}
    {target : MoveTarget}
    (planned : workspace.planMove handle target = .ok plan) :
    plan.handle = handle ∧ plan.Found workspace.nodes := by
  unfold Workspace.planMove at planned
  split at planned
  · cases planned
  · split at planned
    · cases planned
    · cases planned
    · rename_i destination file isDestination isFile
      dsimp only at planned
      split at planned
      · cases planned
      · rename_i isDirectory
        split at planned
        · cases planned
        · split at planned
          · cases planned
          · cases planned
            refine ⟨rfl, isFile, ?_⟩
            rw [Bool.not_eq_true, Option.isNone_eq_false_iff] at isDirectory
            exact Option.isSome_iff_exists.mp isDirectory

theorem MovePlan.graph_apply
    (found : plan.Found nodes) :
    (plan.apply nodes).graph =
      (nodes.graph.remove plan.handle.owner plan.file.name).place
        plan.destination.node plan.name plan.handle.node := by
  obtain ⟨directory, isDirectory⟩ := found.isDirectory
  have removed := nodes.graph_deleteEntry plan.handle.owner plan.file.name
  have stillFile : (nodes.deleteEntry plan.handle.owner plan.file.name).file?
      plan.handle.node = some plan.file := by
    unfold Nodes.deleteEntry
    rw [nodes.file?_setChildren]
    exact found.isFile
  obtain ⟨kept, isKept⟩ : ∃ kept, (nodes.deleteEntry plan.handle.owner
      plan.file.name).directory? plan.destination.node = some kept :=
    nodes.directory?_setChildren isDirectory _ _
  have stillDirectory := (Nodes.directory?_setFile _ plan.handle.node
    (fun file => { file with name := plan.name })
    plan.destination.node).trans isKept
  unfold MovePlan.apply
  rw [← removed]
  unfold Nodes.graph EntryGraph.place
  dsimp only
  congr 1
  · funext other otherName
    rw [Nodes.entry_setEntry _ stillDirectory, Nodes.entry_setFile]
  · unfold Nodes.setEntry
    rw [Nodes.nameOf_setChildren, Nodes.nameOf_setFile _ stillFile]

theorem MovePlan.entry_apply
    (found : plan.Found nodes)
    (folder : NodeId)
    (name : String) :
    (plan.apply nodes).entry folder name =
      if folder = plan.destination.node ∧ name = plan.name then
        some plan.handle.node
      else if folder = plan.handle.owner ∧ name = plan.file.name then
        none
      else
        nodes.entry folder name :=
  congrFun (congrFun (congrArg EntryGraph.entry
    (MovePlan.graph_apply found)) folder) name

/-- A move makes no nodes. -/
@[simp] theorem MovePlan.next_apply
    (plan : MovePlan)
    (nodes : Nodes) :
    (plan.apply nodes).next = nodes.next := by
  unfold MovePlan.apply Nodes.setEntry Nodes.deleteEntry
  dsimp only
  rw [Nodes.next_setChildren, Nodes.next_setFile, Nodes.next_setChildren]

theorem Sound.apply
    (sound : Sound nodes)
    (found : plan.Found nodes)
    (safe : plan.Safe nodes) :
    Sound (plan.apply nodes) where
  proper := by
    obtain ⟨directory, isDirectory⟩ := found.isDirectory
    have isThere := (nodes.file?_eq_some).mp found.isFile
    rw [MovePlan.graph_apply found]
    apply (sound.proper.remove plan.handle.owner plan.file.name).place
    · intro inner
      change (if plan.handle.node = plan.handle.owner ∧ inner = plan.file.name
        then none else nodes.entry plan.handle.node inner) = none
      rw [nodes.entry_of_file found.isFile, ite_self]
    · exact nodes.ne_of_file found.isFile isDirectory
    · obtain ⟨rootDirectory, isRoot⟩ := sound.isThere
      exact nodes.ne_of_file found.isFile isRoot
    · intro folder name contains
      obtain ⟨before, isElsewhere⟩ := EntryGraph.contains_remove contains
      exact (safe.alone folder name before).resolve_left isElsewhere
  bounded := by
    intro folder name child isEntry
    rw [MovePlan.next_apply]
    rw [MovePlan.entry_apply found] at isEntry
    split at isEntry
    · cases isEntry
      have isThere := (nodes.file?_eq_some).mp found.isFile
      exact (List.getElem?_eq_some_iff.mp isThere).1
    · split at isEntry
      · cases isEntry
      · exact sound.bounded folder name child isEntry
  isThere := by
    obtain ⟨directory, isDirectory⟩ := sound.isThere
    obtain ⟨kept, isKept⟩ := nodes.directory?_setChildren isDirectory
      plan.handle.owner fun children => children.delete plan.file.name
    unfold MovePlan.apply
    apply Nodes.directory?_setChildren
    exact (Nodes.directory?_setFile _ _ _ _).trans isKept

/-- A move spares every entry but its file and its target. -/
def MovePlan.Spares
    (plan : MovePlan)
    (before after : Nodes) : Prop :=
  ∀ folder name child, before.entry folder name = some child →
    after.entry folder name = some child ∨ child = plan.handle.node ∨
      (folder = plan.destination.node ∧ name = plan.name)

theorem MovePlan.Safe.spares
    (found : plan.Found nodes)
    (safe : plan.Safe nodes) :
    plan.Spares nodes (plan.apply nodes) := by
  intro folder name child isEntry
  rw [MovePlan.entry_apply found]
  by_cases isTarget : folder = plan.destination.node ∧ name = plan.name
  · exact .inr (.inr isTarget)
  · rw [if_neg isTarget]
    by_cases isOwn : folder = plan.handle.owner ∧ name = plan.file.name
    · obtain ⟨rfl, rfl⟩ := isOwn
      rcases safe.own child isEntry with isFile | isSame
      · exact .inr (.inl isFile)
      · exact absurd isSame isTarget
    · rw [if_neg isOwn]
      exact .inl isEntry

end Frameleaf.VirtualWorkspace
