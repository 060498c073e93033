import Frameleaf.Lib.EntryGraph
import Frameleaf.Lib.InsertionMap

namespace Frameleaf.VirtualWorkspace

open EntryGraphs InsertionMaps

/-!
# The files and directories of a workspace

Files and directories are nodes that are never freed, since handles may keep
them.  A directory names its children; a file carries its own name, and its
bytes unless they are still to be loaded.
-/

/-- Where a node is kept. -/
abbrev NodeId := ℕ

/-- Bytes and their type. -/
structure Blob where
  bytes : List UInt8
  type : String
deriving DecidableEq

/-- `DirectoryNode` -/
structure DirectoryNode where
  name : String
  children : InsertionMap String NodeId

/-- `FileNode`; only whether there is a loader is kept of it. -/
structure FileNode where
  name : String
  data : Option Blob
  load : Bool
  type : String
deriving DecidableEq

/-- `Node` -/
inductive Node where
  | directory (directory : DirectoryNode)
  | file (file : FileNode)

/-- The name that a node carries. -/
def Node.name : Node → String
  | .directory node => node.name
  | .file node => node.name

/-- `assertName` -/
def assertName
    (name : String) : Bool :=
  name ≠ "" && name ≠ "." && name ≠ ".." && !name.toList.contains '/' &&
    !name.toList.contains '\\'

/-- A name has an extension. -/
def endsWith
    (name suffix : String) : Bool :=
  suffix.toList.isSuffixOf name.toList

/-- `mimeFor` -/
def mimeFor
    (name : String) : String :=
  if endsWith name ".json" then
    "application/json"
  else if endsWith name ".jpg" || endsWith name ".jpeg" then
    "image/jpeg"
  else if endsWith name ".png" then
    "image/png"
  else if endsWith name ".webp" then
    "image/webp"
  else
    ""

/-- All nodes, the root first. -/
structure Nodes where
  all : List Node

/-- The root. -/
def root : NodeId := 0

/-- Only the root, which is empty. -/
def Nodes.start : Nodes where
  all := [.directory { name := "frameleaf-studio", children := .empty }]

/-- A directory. -/
def Nodes.directory?
    (nodes : Nodes)
    (id : NodeId) : Option DirectoryNode :=
  match nodes.all[id]? with
  | some (.directory directory) => some directory
  | some (.file _) | none => none

/-- A file. -/
def Nodes.file?
    (nodes : Nodes)
    (id : NodeId) : Option FileNode :=
  match nodes.all[id]? with
  | some (.file file) => some file
  | some (.directory _) | none => none

/-- The child of a directory. -/
def Nodes.entry
    (nodes : Nodes)
    (id : NodeId)
    (name : String) : Option NodeId :=
  (nodes.directory? id).bind fun directory => directory.children.get name

/-- The name that the node of an id carries. -/
def Nodes.nameOf
    (nodes : Nodes)
    (id : NodeId) : Option String :=
  nodes.all[id]?.map Node.name

/-- The next id. -/
def Nodes.next
    (nodes : Nodes) : NodeId :=
  nodes.all.length

/-- Keep another node. -/
def Nodes.allocate
    (nodes : Nodes)
    (node : Node) : Nodes where
  all := nodes.all ++ [node]

/-- Change the children of a directory. -/
def Nodes.setChildren
    (nodes : Nodes)
    (id : NodeId)
    (change : InsertionMap String NodeId → InsertionMap String NodeId) :
    Nodes :=
  match nodes.directory? id with
  | some directory =>
      { all := nodes.all.set id (.directory { directory with
          children := change directory.children }) }
  | none =>
      nodes

/-- `children.set(name, child)` -/
def Nodes.setEntry
    (nodes : Nodes)
    (id : NodeId)
    (name : String)
    (child : NodeId) : Nodes :=
  nodes.setChildren id fun children => children.set name child

/-- `children.delete(name)` -/
def Nodes.deleteEntry
    (nodes : Nodes)
    (id : NodeId)
    (name : String) : Nodes :=
  nodes.setChildren id fun children => children.delete name

/-- Change a file. -/
def Nodes.setFile
    (nodes : Nodes)
    (id : NodeId)
    (change : FileNode → FileNode) : Nodes :=
  match nodes.file? id with
  | some file =>
      { all := nodes.all.set id (.file (change file)) }
  | none =>
      nodes

/-- What contains what, and under which name. -/
def Nodes.graph
    (nodes : Nodes) : EntryGraph NodeId String where
  root := root
  entry := nodes.entry
  name := nodes.nameOf

variable (nodes : Nodes)

theorem Nodes.getElem?_next :
    nodes.all[nodes.next]? = none :=
  List.getElem?_eq_none (Nat.le_refl _)

variable {id other : NodeId} {directory : DirectoryNode}

theorem Nodes.directory?_eq_some :
    nodes.directory? id = some directory ↔
      nodes.all[id]? = some (.directory directory) := by
  unfold Nodes.directory?
  split
  · rename_i found isFound
    rw [isFound, Option.some.injEq, Option.some.injEq, Node.directory.injEq]
  · rename_i file isFile
    rw [isFile]
    simp
  · rename_i isNone
    rw [isNone]
    simp

variable {file : FileNode}

theorem Nodes.file?_eq_some :
    nodes.file? id = some file ↔ nodes.all[id]? = some (.file file) := by
  unfold Nodes.file?
  split
  · rename_i found isFound
    rw [isFound, Option.some.injEq, Option.some.injEq, Node.file.injEq]
  · rename_i directory isDirectory
    rw [isDirectory]
    simp
  · rename_i isNone
    rw [isNone]
    simp

theorem Nodes.entry_of_file
    (isFile : nodes.file? id = some file)
    (name : String) :
    nodes.entry id name = none := by
  unfold Nodes.entry Nodes.directory?
  rw [(nodes.file?_eq_some).mp isFile]
  rfl

theorem Nodes.entry_of_none
    (isFree : nodes.all[id]? = none)
    (name : String) :
    nodes.entry id name = none := by
  unfold Nodes.entry Nodes.directory?
  rw [isFree]
  rfl

theorem Nodes.ne_of_file
    (isFile : nodes.file? id = some file)
    (isDirectory : nodes.directory? other = some directory) :
    id ≠ other := by
  rintro rfl
  rw [nodes.file?_eq_some] at isFile
  rw [nodes.directory?_eq_some, isFile] at isDirectory
  cases isDirectory

theorem Nodes.getElem?_setChildren
    (isDirectory : nodes.directory? id = some directory)
    (change : InsertionMap String NodeId → InsertionMap String NodeId)
    (other : NodeId) :
    (nodes.setChildren id change).all[other]? =
      if other = id then
        some (.directory
          { directory with children := change directory.children })
      else nodes.all[other]? := by
  have isThere := (nodes.directory?_eq_some).mp isDirectory
  have inRange : id < nodes.all.length :=
    (List.getElem?_eq_some_iff.mp isThere).1
  unfold Nodes.setChildren
  rw [isDirectory, List.getElem?_set, if_pos inRange]
  exact if_congr eq_comm rfl rfl

theorem Nodes.entry_setChildren
    (isDirectory : nodes.directory? id = some directory)
    (change : InsertionMap String NodeId → InsertionMap String NodeId)
    (other : NodeId)
    (name : String) :
    (nodes.setChildren id change).entry other name =
      if other = id then (change directory.children).get name
      else nodes.entry other name := by
  unfold Nodes.entry Nodes.directory?
  rw [nodes.getElem?_setChildren isDirectory]
  by_cases isOther : other = id
  · rw [if_pos isOther, if_pos isOther]
    rfl
  · rw [if_neg isOther, if_neg isOther]

theorem Nodes.nameOf_setChildren
    (id : NodeId)
    (change : InsertionMap String NodeId → InsertionMap String NodeId) :
    (nodes.setChildren id change).nameOf = nodes.nameOf := by
  funext other
  cases isDirectory : nodes.directory? id with
  | none =>
      rw [Nodes.setChildren, isDirectory]
  | some directory =>
      unfold Nodes.nameOf
      rw [nodes.getElem?_setChildren isDirectory]
      split
      · rename_i isOther
        rw [isOther, (nodes.directory?_eq_some).mp isDirectory]
        rfl
      · rfl

theorem Nodes.file?_setChildren
    (id : NodeId)
    (change : InsertionMap String NodeId → InsertionMap String NodeId)
    (other : NodeId) :
    (nodes.setChildren id change).file? other = nodes.file? other := by
  cases isDirectory : nodes.directory? id with
  | none =>
      rw [Nodes.setChildren, isDirectory]
  | some directory =>
      unfold Nodes.file?
      rw [nodes.getElem?_setChildren isDirectory]
      by_cases isOther : other = id
      · rw [if_pos isOther, isOther, (nodes.directory?_eq_some).mp isDirectory]
      · rw [if_neg isOther]

theorem Nodes.directory?_setChildren
    (isDirectory : nodes.directory? other = some directory)
    (id : NodeId)
    (change : InsertionMap String NodeId → InsertionMap String NodeId) :
    ∃ kept, (nodes.setChildren id change).directory? other = some kept := by
  have isThere := (nodes.directory?_eq_some).mp isDirectory
  have inRange : other < nodes.all.length :=
    (List.getElem?_eq_some_iff.mp isThere).1
  unfold Nodes.setChildren
  split
  · unfold Nodes.directory?
    dsimp only
    rw [List.getElem?_set]
    by_cases isOther : id = other
    · subst isOther
      rw [if_pos rfl, if_pos inRange]
      exact ⟨_, rfl⟩
    · rw [if_neg isOther, isThere]
      exact ⟨_, rfl⟩
  · exact ⟨directory, isDirectory⟩

/-- Changed children are as many nodes. -/
@[simp] theorem Nodes.next_setChildren
    (id : NodeId)
    (change : InsertionMap String NodeId → InsertionMap String NodeId) :
    (nodes.setChildren id change).next = nodes.next := by
  unfold Nodes.setChildren Nodes.next
  split
  · exact List.length_set
  · rfl

theorem Nodes.entry_setEntry
    (isDirectory : nodes.directory? id = some directory)
    (name : String)
    (child other : NodeId)
    (otherName : String) :
    (nodes.setEntry id name child).entry other otherName =
      if other = id ∧ otherName = name then some child
      else nodes.entry other otherName := by
  unfold Nodes.setEntry
  rw [nodes.entry_setChildren isDirectory, InsertionMap.get_set]
  by_cases isHere : other = id
  · subst isHere
    by_cases isName : otherName = name
    · rw [if_pos rfl, if_pos isName, if_pos ⟨rfl, isName⟩]
    · rw [if_pos rfl, if_neg isName, if_neg (fun both => isName both.2),
        Nodes.entry, isDirectory]
      rfl
  · rw [if_neg isHere, if_neg (fun both => isHere both.1)]

theorem Nodes.graph_deleteEntry
    (id : NodeId)
    (name : String) :
    (nodes.deleteEntry id name).graph = nodes.graph.remove id name := by
  unfold Nodes.graph EntryGraph.remove Nodes.deleteEntry
  rw [nodes.nameOf_setChildren]
  congr 1
  funext other otherName
  dsimp only
  cases isDirectory : nodes.directory? id with
  | none =>
      unfold Nodes.setChildren
      rw [isDirectory]
      dsimp only
      split
      · rename_i isHere
        rw [isHere.1, Nodes.entry, isDirectory]
        rfl
      · rfl
  | some directory =>
      rw [nodes.entry_setChildren isDirectory, InsertionMap.get_delete]
      by_cases isHere : other = id
      · subst isHere
        by_cases isName : otherName = name
        · rw [if_pos rfl, if_pos isName, if_pos ⟨rfl, isName⟩]
        · rw [if_pos rfl, if_neg isName, if_neg (fun both => isName both.2),
            Nodes.entry, isDirectory]
          rfl
      · rw [if_neg isHere, if_neg (fun both => isHere both.1)]

theorem Nodes.entry_allocate
    {node : Node}
    (isEmpty : ∀ directory, node = .directory directory →
      directory.children = .empty) :
    (nodes.allocate node).entry = nodes.entry := by
  funext id name
  unfold Nodes.entry Nodes.directory? Nodes.allocate
  dsimp only
  by_cases isOld : id < nodes.all.length
  · rw [List.getElem?_append_left isOld]
  · have isPast := Nat.le_of_not_lt isOld
    rw [List.getElem?_append_right isPast, List.getElem?_eq_none isPast]
    cases isNew : [node][id - nodes.all.length]? with
    | none =>
        rfl
    | some found =>
        have isNode : found = node :=
          List.mem_singleton.mp (List.mem_of_getElem? isNew)
        cases found with
        | file file =>
            rfl
        | directory directory =>
            dsimp only
            rw [Option.bind_some, isEmpty directory isNode.symm]
            rfl

theorem Nodes.nameOf_allocate
    (node : Node) :
    (nodes.allocate node).nameOf =
      Function.update nodes.nameOf nodes.next (some node.name) := by
  funext id
  unfold Nodes.nameOf Nodes.allocate
  dsimp only
  by_cases isNew : id = nodes.next
  · subst isNew
    rw [Function.update_self]
    unfold Nodes.next
    rw [List.getElem?_concat_length]
    rfl
  · rw [Function.update_of_ne isNew]
    rcases Nat.lt_or_gt_of_ne isNew with isOld | isPast
    · rw [List.getElem?_append_left isOld]
    · have beyond : (nodes.all ++ [node]).length ≤ id := by
        rw [List.length_append, List.length_singleton]
        exact isPast
      rw [List.getElem?_eq_none beyond,
        List.getElem?_eq_none (Nat.le_of_lt isPast)]

theorem Nodes.getElem?_allocate
    (node : Node)
    (isOld : id < nodes.next) :
    (nodes.allocate node).all[id]? = nodes.all[id]? :=
  List.getElem?_append_left isOld

/-- There is one more node. -/
@[simp] theorem Nodes.next_allocate
    (node : Node) :
    (nodes.allocate node).next = nodes.next + 1 :=
  List.length_append

theorem Nodes.getElem?_setFile
    (isFile : nodes.file? id = some file)
    (change : FileNode → FileNode)
    (other : NodeId) :
    (nodes.setFile id change).all[other]? =
      if other = id then some (.file (change file))
      else nodes.all[other]? := by
  have isThere := (nodes.file?_eq_some).mp isFile
  have inRange : id < nodes.all.length :=
    (List.getElem?_eq_some_iff.mp isThere).1
  unfold Nodes.setFile
  rw [isFile, List.getElem?_set, if_pos inRange]
  exact if_congr eq_comm rfl rfl

theorem Nodes.directory?_setFile
    (id : NodeId)
    (change : FileNode → FileNode)
    (other : NodeId) :
    (nodes.setFile id change).directory? other = nodes.directory? other := by
  cases isFile : nodes.file? id with
  | none =>
      rw [Nodes.setFile, isFile]
  | some file =>
      unfold Nodes.directory?
      rw [nodes.getElem?_setFile isFile]
      by_cases isOther : other = id
      · rw [if_pos isOther, isOther, (nodes.file?_eq_some).mp isFile]
      · rw [if_neg isOther]

theorem Nodes.entry_setFile
    (id : NodeId)
    (change : FileNode → FileNode) :
    (nodes.setFile id change).entry = nodes.entry := by
  funext other name
  rw [Nodes.entry, nodes.directory?_setFile, Nodes.entry]

theorem Nodes.file?_setFile
    (id : NodeId)
    (change : FileNode → FileNode)
    (other : NodeId) :
    (nodes.setFile id change).file? other =
      if other = id then (nodes.file? id).map change
      else nodes.file? other := by
  cases isFile : nodes.file? id with
  | none =>
      rw [Nodes.setFile, isFile]
      dsimp only
      split
      · rename_i isOther
        rw [isOther, isFile]
        rfl
      · rfl
  | some file =>
      rw [Nodes.file?, nodes.getElem?_setFile isFile]
      by_cases isOther : other = id
      · rw [if_pos isOther, if_pos isOther]
        rfl
      · rw [if_neg isOther, if_neg isOther, Nodes.file?]

theorem Nodes.nameOf_setFile
    (isFile : nodes.file? id = some file)
    (change : FileNode → FileNode) :
    (nodes.setFile id change).nameOf =
      Function.update nodes.nameOf id (some (change file).name) := by
  funext other
  rw [Nodes.nameOf, nodes.getElem?_setFile isFile]
  by_cases isOther : other = id
  · rw [if_pos isOther, isOther, Function.update_self]
    rfl
  · rw [if_neg isOther, Function.update_of_ne isOther, Nodes.nameOf]

/-- A changed file is as many nodes. -/
@[simp] theorem Nodes.next_setFile
    (id : NodeId)
    (change : FileNode → FileNode) :
    (nodes.setFile id change).next = nodes.next := by
  unfold Nodes.setFile Nodes.next
  split
  · exact List.length_set
  · rfl

theorem Nodes.graph_setFile
    (id : NodeId)
    {change : FileNode → FileNode}
    (sameName : ∀ file, (change file).name = file.name) :
    (nodes.setFile id change).graph = nodes.graph := by
  unfold Nodes.graph
  rw [nodes.entry_setFile]
  congr 1
  cases isFile : nodes.file? id with
  | none =>
      unfold Nodes.setFile
      rw [isFile]
  | some file =>
      rw [nodes.nameOf_setFile isFile, sameName]
      have isName : nodes.nameOf id = some file.name := by
        rw [Nodes.nameOf, (nodes.file?_eq_some).mp isFile]
        rfl
      rw [← isName, Function.update_eq_self]

end Frameleaf.VirtualWorkspace
