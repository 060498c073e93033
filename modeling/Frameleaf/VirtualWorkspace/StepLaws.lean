import Frameleaf.VirtualWorkspace.TreeLaws

namespace Frameleaf.VirtualWorkspace

open EntryGraphs InsertionMaps

/-!
# All that a step can change

For the nodes and for the writables one inversion each says everything that a
step can do to them.
-/

/-- What a step can do to the nodes. -/
inductive NodesChange
    (workspace : Workspace)
    (step : Step) : Nodes → Prop
  | grown
      {after : Nodes}
      (grown : Grown workspace.nodes after) :
      NodesChange workspace step after
  | removed
      {index : ℕ}
      {handle : DirectoryHandle}
      {name : String}
      {recursive : Bool}
      (isStep : step = .removeEntry index name recursive)
      (isHandle : workspace.directories[index]? = some handle) :
      NodesChange workspace step (workspace.nodes.deleteEntry handle.node name)
  | loaded
      {index : ℕ}
      {load : Load}
      {blob : Blob}
      (isStep : step = .loaded index blob)
      (isLoad : workspace.loads[index]? = some load) :
      NodesChange workspace step
        (workspace.nodes.setFile load.node fun file => file.loaded blob)
  | closed
      {index : ℕ}
      {writable : Writable}
      {blob : Blob}
      (isStep : step = .close index)
      (isWritable : workspace.writables[index]? = some writable)
      (isOpen : writable.closed = false)
      (isLive : workspace.disposed = false)
      (sameBytes : blob.bytes = writable.buffer.bytes) :
      NodesChange workspace step
        (workspace.nodes.setFile writable.node fun file => file.written blob)
  | moved
      {index : ℕ}
      {handle : FileHandle}
      {target : MoveTarget}
      {plan : MovePlan}
      (isStep : step = .move index target)
      (isHandle : workspace.files[index]? = some handle)
      (planned : workspace.planMove handle target = .ok plan) :
      NodesChange workspace step (plan.apply workspace.nodes)
  | cleared
      (isStep : step = .dispose) :
      NodesChange workspace step
        (workspace.nodes.setChildren root fun _ => .empty)

variable {workspace : Workspace}

theorem Grown.trans
    {before middle after : Nodes}
    (first : Grown before middle)
    (second : Grown middle after) :
    Grown before after := by
  induction second with
  | refl =>
      exact first
  | attach _ folder isNew inductionHypothesis =>
      exact inductionHypothesis.attach folder isNew

theorem isNew_directory
    (name : String) :
    (Node.directory { name, children := .empty }).IsNew := by
  rintro found isFound
  cases isFound
  rfl

theorem isNew_file
    (file : FileNode) :
    (Node.file file).IsNew :=
  nofun

theorem grown_descend
    (create : Bool)
    (nodes : Nodes)
    (directory : NodeId)
    (path : List String) :
    Grown nodes (descend create nodes directory path).1 := by
  induction path generalizing nodes directory with
  | nil =>
      exact .refl
  | cons segment path inductionHypothesis =>
      unfold descend
      split
      · exact .refl
      · split
        · split
          · exact (Grown.refl.attach directory (isNew_directory segment)).trans
              (inductionHypothesis _ _)
          · exact .refl
        · split
          · exact .refl
          · exact inductionHypothesis _ _

theorem grown_parentOf
    (workspace : Workspace)
    (path : List String)
    (create : Bool) :
    Grown workspace.nodes (parentOf workspace path create).1 := by
  unfold parentOf
  split
  · exact .refl
  · split
    · exact .refl
    · have grown := grown_descend create workspace.nodes root path.dropLast
      split
      · rename_i nodes error isFailure
        rw [isFailure] at grown
        exact grown
      · rename_i nodes parent isParent
        rw [isParent] at grown
        split
        · exact grown
        · exact grown

theorem grown_put
    (workspace : Workspace)
    (path : List String)
    (data : String → Option Blob)
    (load : Bool)
    (type : String → String) :
    Grown workspace.nodes (workspace.put path data load type).1.nodes := by
  have grown := grown_parentOf workspace path true
  unfold Workspace.put
  split
  · rename_i nodes error isFailure
    rw [isFailure] at grown
    exact grown
  · rename_i nodes parent name isParent
    rw [isParent] at grown
    exact grown.attach parent (isNew_file _)

/-- Delivering bytes leaves the nodes. -/
@[simp] theorem nodes_deliver
    (workspace : Workspace)
    (node : NodeId)
    (purpose : LoadPurpose)
    (blob : Blob) :
    (workspace.deliver node purpose blob).1.nodes = workspace.nodes := by
  cases purpose with
  | reading => rfl
  | writing file => rfl

/-- Asking for bytes leaves the nodes. -/
@[simp] theorem nodes_materialize
    (workspace : Workspace)
    (node : NodeId)
    (purpose : LoadPurpose) :
    (workspace.materialize node purpose).1.nodes = workspace.nodes := by
  unfold Workspace.materialize
  split
  · rfl
  · split
    · rfl
    · split
      · exact nodes_deliver _ _ _ _
      · split
        · rfl
        · exact nodes_deliver _ _ _ _

theorem NodesChange.kept
    {step : Step}
    {after : Nodes}
    (same : after = workspace.nodes) :
    NodesChange workspace step after :=
  .grown (same ▸ .refl)

theorem withHandle_nodes
    {Handle : Type}
    {step : Step}
    {handles : List Handle}
    {index : ℕ}
    {action : Handle → Workspace × Answer}
    (found : ∀ handle, handles[index]? = some handle →
      NodesChange workspace step (action handle).1.nodes) :
    NodesChange workspace step
      (withHandle workspace handles index action).1.nodes := by
  unfold withHandle
  split
  · exact .kept rfl
  · rename_i handle isHandle
    exact found handle isHandle

/-- Everything that a step can do to the nodes. -/
theorem nodes_perform
    (workspace : Workspace)
    (step : Step) :
    NodesChange workspace step (perform workspace step).1.nodes := by
  cases step with
  | putLazyFile path type =>
      exact .grown (grown_put workspace path _ _ _)
  | putFile path bytes type =>
      exact .grown (grown_put workspace path _ _ _)
  | readFile path =>
      apply NodesChange.kept
      change (workspace.readFile path).1.nodes = workspace.nodes
      unfold Workspace.readFile
      split
      · rfl
      · split
        · rfl
        · split
          · rfl
          · exact nodes_materialize _ _ _
  | handle =>
      exact .kept rfl
  | getDirectoryHandle index name create =>
      apply withHandle_nodes
      intro handle isHandle
      unfold Workspace.getDirectoryHandle
      split
      · exact .kept rfl
      · split
        · exact .kept rfl
        · split
          · split
            · exact .grown (Grown.refl.attach _ (isNew_directory name))
            · exact .kept rfl
          · split
            · exact .kept rfl
            · exact .kept rfl
  | getFileHandle index name create =>
      apply withHandle_nodes
      intro handle isHandle
      unfold Workspace.getFileHandle
      split
      · exact .kept rfl
      · split
        · exact .kept rfl
        · split
          · split
            · exact .grown (Grown.refl.attach _ (isNew_file _))
            · exact .kept rfl
          · split
            · exact .kept rfl
            · exact .kept rfl
  | removeEntry index name recursive =>
      apply withHandle_nodes
      intro handle isHandle
      unfold Workspace.removeEntry
      split
      · exact .kept rfl
      · split
        · exact .kept rfl
        · dsimp only
          split
          · exact .kept rfl
          · exact .removed rfl isHandle
  | entries index =>
      apply withHandle_nodes
      intro handle isHandle
      unfold Workspace.entries
      split
      · exact .kept rfl
      · exact .kept rfl
  | nextEntry index =>
      apply withHandle_nodes
      intro listing isListing
      unfold Workspace.nextEntry
      split
      · exact .kept rfl
      · dsimp only
        split
        · exact .kept rfl
        · exact .kept rfl
  | getFile index =>
      apply withHandle_nodes
      intro handle isHandle
      exact .kept (nodes_materialize _ _ _)
  | createWritable index keepExistingData =>
      apply withHandle_nodes
      intro handle isHandle
      unfold Workspace.createWritable
      split
      · exact .kept rfl
      · split
        · exact .kept (nodes_materialize _ _ _)
        · exact .kept rfl
  | loaded index blob =>
      apply withHandle_nodes
      intro load isLoad
      unfold Workspace.loaded
      dsimp only
      split
      · exact .kept rfl
      · split
        · exact .kept rfl
        · rw [nodes_deliver]
          exact .loaded rfl isLoad
  | loadFailed index =>
      exact .kept rfl
  | write index chunk =>
      apply withHandle_nodes
      intro writable isWritable
      unfold Workspace.write
      split
      · exact .kept rfl
      · cases chunk <;> exact .kept rfl
  | written index which =>
      apply withHandle_nodes
      intro writable isWritable
      unfold Workspace.written
      split
      · exact .kept rfl
      · exact .kept rfl
  | seek index position =>
      exact withHandle_nodes fun _ _ => .kept rfl
  | truncate index size =>
      exact withHandle_nodes fun _ _ => .kept rfl
  | abort index =>
      exact withHandle_nodes fun _ _ => .kept rfl
  | close index =>
      apply withHandle_nodes
      intro writable isWritable
      unfold Workspace.close
      split
      · exact .kept rfl
      · rename_i isOpen
        dsimp only
        split
        · exact .kept rfl
        · rename_i isLive
          split
          · exact .kept rfl
          · exact .closed rfl isWritable (Bool.eq_false_iff.mpr isOpen)
              (Bool.eq_false_iff.mpr isLive) rfl
  | move index target =>
      apply withHandle_nodes
      intro handle isHandle
      unfold Workspace.move
      split
      · exact .kept rfl
      · rename_i plan planned
        exact .moved rfl isHandle planned
  | dispose =>
      exact .cleared rfl

end Frameleaf.VirtualWorkspace
