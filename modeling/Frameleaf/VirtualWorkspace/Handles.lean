import Frameleaf.VirtualWorkspace.Nodes
import Frameleaf.VirtualWorkspace.Writable

namespace Frameleaf.VirtualWorkspace

open EntryGraphs InsertionMaps

/-!
# What handles do

A handle keeps the node it was made for.  A file handle also keeps the directory
that it was found in and the path to it, and only its own moves change them.
What a method does before its first `await` and after each of them is one step;
in between any other step can come.
-/

/-- Why a call is refused. -/
inductive WorkspaceError where
  | released
  | emptyPath
  | invalidName (name : String)
  | notFound (name : String)
  | typeMismatch (name : String)
  | notEmpty (name : String)
  | foreignFolder
  | closed
deriving DecidableEq

/-- What a directory handle keeps. -/
structure DirectoryHandle where
  node : NodeId
  path : List String
deriving DecidableEq

/-- What a file handle keeps. -/
structure FileHandle where
  node : NodeId
  owner : NodeId
  location : List String
deriving DecidableEq

/-- The entries of a directory that an iteration has not come to yet. -/
structure Listing where
  handle : DirectoryHandle
  entries : List (String × NodeId)

/-- A writable, with the writes whose data is still being read. -/
structure Writable where
  file : ℕ
  node : NodeId
  buffer : Buffer
  closed : Bool
  pending : List (List UInt8 × Option ℕ)

/-- What the bytes of a file are loaded for. -/
inductive LoadPurpose where
  | reading
  | writing (file : ℕ)

/-- A loader that was called and has not answered. -/
structure Load where
  node : NodeId
  purpose : LoadPurpose

/-- `VirtualWorkspace`, with everything that it gave out. -/
structure Workspace where
  nodes : Nodes
  disposed : Bool
  directories : List DirectoryHandle
  files : List FileHandle
  listings : List Listing
  writables : List Writable
  loads : List Load
  emitted : List (List String × Blob)

/-- A new workspace. -/
def start : Workspace where
  nodes := .start
  disposed := false
  directories := []
  files := []
  listings := []
  writables := []
  loads := []
  emitted := []

/-- What a step answers. -/
inductive Answer where
  | done
  | directory (handle : ℕ)
  | file (handle : ℕ)
  | listing (handle : ℕ)
  | writable (handle : ℕ)
  | contents (blob : Blob)
  | loading
  | ended
  | failed (error : WorkspaceError)
  | noSuchHandle
deriving DecidableEq

/-- Make a node and put it into a directory under its name. -/
def attach
    (nodes : Nodes)
    (directory : NodeId)
    (node : Node) : Nodes :=
  match nodes.directory? directory with
  | none => nodes
  | some _ => (nodes.allocate node).setEntry directory node.name nodes.next

/-- The directory at the end of some segments. -/
def descend
    (create : Bool) :
    Nodes → NodeId → List String → Nodes × Except WorkspaceError NodeId
  | nodes, directory, [] =>
      (nodes, .ok directory)
  | nodes, directory, segment :: path =>
      if !assertName segment then
        (nodes, .error (.invalidName segment))
      else
        match nodes.entry directory segment with
        | none =>
            if create then
              descend create
                (attach nodes directory (.directory {
                  name := segment
                  children := .empty }))
                nodes.next path
            else
              (nodes, .error (.notFound segment))
        | some next =>
            match nodes.directory? next with
            | none =>
                (nodes, .error (.typeMismatch segment))
            | some _ =>
                descend create nodes next path

/-- `parentOf` -/
def parentOf
    (workspace : Workspace)
    (path : List String)
    (create : Bool) : Nodes × Except WorkspaceError (NodeId × String) :=
  if workspace.disposed then
    (workspace.nodes, .error .released)
  else
    match path.getLast? with
    | none =>
        (workspace.nodes, .error .emptyPath)
    | some name =>
        match descend create workspace.nodes root path.dropLast with
        | (nodes, .error error) =>
            (nodes, .error error)
        | (nodes, .ok parent) =>
            if !assertName name then
              (nodes, .error (.invalidName name))
            else
              (nodes, .ok (parent, name))

/-- Put a new file at a path. -/
def Workspace.put
    (workspace : Workspace)
    (path : List String)
    (data : String → Option Blob)
    (load : Bool)
    (type : String → String) : Workspace × Answer :=
  match parentOf workspace path true with
  | (nodes, .error error) =>
      ({ workspace with nodes }, .failed error)
  | (nodes, .ok (parent, name)) =>
      ({ workspace with nodes := attach nodes parent (.file {
          name
          data := data name
          load
          type := type name }) }, .done)

/-- `putLazyFile` -/
def Workspace.putLazyFile
    (workspace : Workspace)
    (path : List String)
    (type : String) : Workspace × Answer :=
  workspace.put path (fun _ => none) true (fun _ => type)

/-- `putFile`; a text has no type of its own. -/
def Workspace.putFile
    (workspace : Workspace)
    (path : List String)
    (bytes : List UInt8)
    (type : Option String) : Workspace × Answer :=
  workspace.put path
    (fun name => some { bytes, type := type.getD (mimeFor name) }) false
    (fun name => type.getD (mimeFor name))

/-- Give a directory handle out. -/
def Workspace.giveDirectory
    (workspace : Workspace)
    (handle : DirectoryHandle) : Workspace × Answer :=
  ({ workspace with directories := workspace.directories ++ [handle] },
    .directory workspace.directories.length)

/-- Give a file handle out. -/
def Workspace.giveFile
    (workspace : Workspace)
    (handle : FileHandle) : Workspace × Answer :=
  ({ workspace with files := workspace.files ++ [handle] },
    .file workspace.files.length)

/-- `getDirectoryHandle` -/
def Workspace.getDirectoryHandle
    (workspace : Workspace)
    (handle : DirectoryHandle)
    (name : String)
    (create : Bool) : Workspace × Answer :=
  if workspace.disposed then
    (workspace, .failed .released)
  else if !assertName name then
    (workspace, .failed (.invalidName name))
  else
    match workspace.nodes.entry handle.node name with
    | none =>
        if create then
          let nodes := attach workspace.nodes handle.node
            (.directory { name, children := .empty })
          Workspace.giveDirectory { workspace with nodes }
            { node := workspace.nodes.next, path := handle.path ++ [name] }
        else
          (workspace, .failed (.notFound name))
    | some child =>
        match workspace.nodes.directory? child with
        | none =>
            (workspace, .failed (.typeMismatch name))
        | some _ =>
            workspace.giveDirectory
              { node := child, path := handle.path ++ [name] }

/-- `getFileHandle` -/
def Workspace.getFileHandle
    (workspace : Workspace)
    (handle : DirectoryHandle)
    (name : String)
    (create : Bool) : Workspace × Answer :=
  if workspace.disposed then
    (workspace, .failed .released)
  else if !assertName name then
    (workspace, .failed (.invalidName name))
  else
    match workspace.nodes.entry handle.node name with
    | none =>
        if create then
          let nodes := attach workspace.nodes handle.node (.file {
            name
            data := some { bytes := [], type := mimeFor name }
            load := false
            type := mimeFor name })
          Workspace.giveFile { workspace with nodes } {
            node := workspace.nodes.next
            owner := handle.node
            location := handle.path ++ [name] }
        else
          (workspace, .failed (.notFound name))
    | some child =>
        match workspace.nodes.file? child with
        | none =>
            (workspace, .failed (.typeMismatch name))
        | some _ =>
            workspace.giveFile {
              node := child
              owner := handle.node
              location := handle.path ++ [name] }

/-- `removeEntry` -/
def Workspace.removeEntry
    (workspace : Workspace)
    (handle : DirectoryHandle)
    (name : String)
    (recursive : Bool) : Workspace × Answer :=
  if workspace.disposed then
    (workspace, .failed .released)
  else
    match workspace.nodes.entry handle.node name with
    | none =>
        (workspace, .failed (.notFound name))
    | some child =>
        let isFull := (workspace.nodes.directory? child).any fun directory =>
          directory.children.entries.length > 0
        if isFull && !recursive then
          (workspace, .failed (.notEmpty name))
        else
          ({ workspace with
              nodes := workspace.nodes.deleteEntry handle.node name }, .done)

/-- `entries` starts with the entries that there are. -/
def Workspace.entries
    (workspace : Workspace)
    (handle : DirectoryHandle) : Workspace × Answer :=
  if workspace.disposed then
    (workspace, .failed .released)
  else
    let entries := ((workspace.nodes.directory? handle.node).map
      fun directory => directory.children.entries).getD []
    ({ workspace with
        listings := workspace.listings ++ [{ handle, entries }] },
      .listing workspace.listings.length)

/-- `entries` goes on with a handle to the next entry. -/
def Workspace.nextEntry
    (workspace : Workspace)
    (index : ℕ)
    (listing : Listing) : Workspace × Answer :=
  match listing.entries with
  | [] =>
      (workspace, .ended)
  | (name, child) :: entries =>
      let workspace := { workspace with
        listings := workspace.listings.set index { listing with entries } }
      let path := listing.handle.path ++ [name]
      match workspace.nodes.directory? child with
      | some _ =>
          workspace.giveDirectory { node := child, path }
      | none =>
          workspace.giveFile {
            node := child
            owner := listing.handle.node
            location := path }

/-- What `createWritable` gives out when the bytes are there. -/
def Workspace.giveWritable
    (workspace : Workspace)
    (file : ℕ)
    (node : NodeId)
    (bytes : List UInt8) : Workspace × Answer :=
  ({ workspace with writables := workspace.writables ++ [{
      file
      node
      buffer := { bytes, position := 0 }
      closed := false
      pending := [] }] },
    .writable workspace.writables.length)

/-- What the bytes of a file were read for. -/
def Workspace.deliver
    (workspace : Workspace)
    (node : NodeId)
    (purpose : LoadPurpose)
    (blob : Blob) : Workspace × Answer :=
  match purpose with
  | .reading =>
      (workspace, .contents blob)
  | .writing file =>
      workspace.giveWritable file node blob.bytes

/-- `materialize`, up to the answer of the loader. -/
def Workspace.materialize
    (workspace : Workspace)
    (node : NodeId)
    (purpose : LoadPurpose) : Workspace × Answer :=
  if workspace.disposed then
    (workspace, .failed .released)
  else
    match workspace.nodes.file? node with
    | none =>
        (workspace, .noSuchHandle)
    | some file =>
        match file.data with
        | some blob =>
            workspace.deliver node purpose blob
        | none =>
            if file.load then
              ({ workspace with
                  loads := workspace.loads ++ [{ node, purpose }] }, .loading)
            else
              workspace.deliver node purpose { bytes := [], type := file.type }

/-- Keep the bytes of a loader, unless others are there by now. -/
def FileNode.loaded
    (file : FileNode)
    (blob : Blob) : FileNode :=
  match file.data with
  | some _ => file
  | none => { file with data := some blob, load := false }

/-- `materialize`, after the answer of the loader. -/
def Workspace.loaded
    (workspace : Workspace)
    (index : ℕ)
    (load : Load)
    (blob : Blob) : Workspace × Answer :=
  let workspace := { workspace with loads := workspace.loads.eraseIdx index }
  if workspace.disposed then
    (workspace, .failed .released)
  else
    match workspace.nodes.file? load.node with
    | none =>
        (workspace, .noSuchHandle)
    | some file =>
        let nodes := workspace.nodes.setFile load.node
          fun file => file.loaded blob
        Workspace.deliver { workspace with nodes } load.node load.purpose
          ((file.loaded blob).data.getD blob)

/-- `readFile` and `readText`; they answer nothing where there is no file. -/
def Workspace.readFile
    (workspace : Workspace)
    (path : List String) : Workspace × Answer :=
  match parentOf workspace path false with
  | (_, .error _) =>
      (workspace, .ended)
  | (_, .ok (parent, name)) =>
      match workspace.nodes.entry parent name with
      | none =>
          (workspace, .ended)
      | some child =>
          match workspace.nodes.file? child with
          | none =>
              (workspace, .ended)
          | some _ =>
              workspace.materialize child .reading

/-- `createWritable` -/
def Workspace.createWritable
    (workspace : Workspace)
    (index : ℕ)
    (handle : FileHandle)
    (keepExistingData : Bool) : Workspace × Answer :=
  if workspace.disposed then
    (workspace, .failed .released)
  else if keepExistingData then
    workspace.materialize handle.node (.writing index)
  else
    workspace.giveWritable index handle.node []

/-- Change a writable. -/
def Workspace.setWritable
    (workspace : Workspace)
    (index : ℕ)
    (writable : Writable) : Workspace :=
  { workspace with writables := workspace.writables.set index writable }

/-- `WriteChunk` -/
inductive WriteChunk where
  | write (data : List UInt8) (position : Option ℕ)
  | seek (position : ℕ)
  | truncate (size : ℕ)

/-- `write`, up to reading its data. -/
def Workspace.write
    (workspace : Workspace)
    (index : ℕ)
    (writable : Writable)
    (chunk : WriteChunk) : Workspace × Answer :=
  if writable.closed then
    (workspace, .failed .closed)
  else
    match chunk with
    | .seek position =>
        (workspace.setWritable index { writable with
          buffer := writable.buffer.seek position }, .done)
    | .truncate size =>
        (workspace.setWritable index { writable with
          buffer := writable.buffer.writeTruncate size }, .done)
    | .write data position =>
        (workspace.setWritable index { writable with
          pending := writable.pending ++ [(data, position)] }, .loading)

/-- `write`, after reading its data. -/
def Workspace.written
    (workspace : Workspace)
    (index : ℕ)
    (writable : Writable)
    (which : ℕ) : Workspace × Answer :=
  match writable.pending[which]? with
  | none =>
      (workspace, .noSuchHandle)
  | some (data, position) =>
      (workspace.setWritable index { writable with
        buffer := writable.buffer.writeAt data
          (position.getD writable.buffer.position)
        pending := writable.pending.eraseIdx which }, .done)

/-- `seek` -/
def Workspace.seek
    (workspace : Workspace)
    (index : ℕ)
    (writable : Writable)
    (position : ℕ) : Workspace × Answer :=
  (workspace.setWritable index { writable with
    buffer := writable.buffer.seek position }, .done)

/-- `truncate` -/
def Workspace.truncate
    (workspace : Workspace)
    (index : ℕ)
    (writable : Writable)
    (size : ℕ) : Workspace × Answer :=
  (workspace.setWritable index { writable with
    buffer := writable.buffer.truncate size }, .done)

/-- `abort` -/
def Workspace.abort
    (workspace : Workspace)
    (index : ℕ)
    (writable : Writable) : Workspace × Answer :=
  (workspace.setWritable index { writable with closed := true }, .done)

/-- The type of the bytes that a closed writable leaves. -/
def FileNode.writtenType
    (file : FileNode) : String :=
  if file.type = "" then mimeFor file.name else file.type

/-- A file with the bytes of a closed writable. -/
def FileNode.written
    (file : FileNode)
    (blob : Blob) : FileNode :=
  { file with data := some blob, load := false }

/-- The path that the handle of a writable knows its file by. -/
def Workspace.locationOf
    (workspace : Workspace)
    (writable : Writable) : List String :=
  (workspace.files[writable.file]?.map FileHandle.location).getD []

/-- `close` -/
def Workspace.close
    (workspace : Workspace)
    (index : ℕ)
    (writable : Writable) : Workspace × Answer :=
  if writable.closed then
    (workspace, .done)
  else
    let workspace := workspace.setWritable index { writable with closed := true }
    if workspace.disposed then
      (workspace, .failed .released)
    else
      match workspace.nodes.file? writable.node with
      | none =>
          (workspace, .noSuchHandle)
      | some file =>
          let blob : Blob := {
            bytes := writable.buffer.bytes
            type := file.writtenType }
          ({ workspace with
              nodes := workspace.nodes.setFile writable.node
                fun file => file.written blob
              emitted := workspace.emitted ++
                [(workspace.locationOf writable, blob)] }, .done)

/-- Where a file is moved to. -/
inductive MoveTarget where
  | name (name : String)
  | directory (handle : ℕ) (name : Option String)
  | foreign
deriving DecidableEq

/-- What a move that is not refused does. -/
structure MovePlan where
  handle : FileHandle
  file : FileNode
  destination : DirectoryHandle
  name : String

/-- The directory that a file is moved into. -/
def Workspace.destinationOf
    (workspace : Workspace)
    (handle : FileHandle) : MoveTarget → Option DirectoryHandle
  | .name _ =>
      some { node := handle.owner, path := handle.location.dropLast }
  | .directory index _ =>
      workspace.directories[index]?
  | .foreign =>
      none

/-- The name that a moved file gets. -/
def MoveTarget.nameFor
    (file : FileNode) : MoveTarget → String
  | .name newName => newName
  | .directory _ newName => newName.getD file.name
  | .foreign => file.name

/-- The checks of `move`. -/
def Workspace.planMove
    (workspace : Workspace)
    (handle : FileHandle)
    (target : MoveTarget) : Except WorkspaceError MovePlan :=
  if workspace.disposed then
    .error .released
  else
    match workspace.destinationOf handle target,
        workspace.nodes.file? handle.node with
    | none, _ | _, none =>
        .error .foreignFolder
    | some destination, some file =>
        let name := target.nameFor file
        if (workspace.nodes.directory? destination.node).isNone then
          .error .foreignFolder
        else if !assertName name then
          .error (.invalidName name)
        else if (workspace.nodes.entry destination.node name).any fun existing =>
            existing ≠ handle.node &&
              (workspace.nodes.directory? existing).isSome then
          .error (.typeMismatch name)
        else
          .ok { handle, file, destination, name }

/-- What a move does to the nodes. -/
def MovePlan.apply
    (plan : MovePlan)
    (nodes : Nodes) : Nodes :=
  let removed := nodes.deleteEntry plan.handle.owner plan.file.name
  let renamed := removed.setFile plan.handle.node
    fun file => { file with name := plan.name }
  renamed.setEntry plan.destination.node plan.name plan.handle.node

/-- `move` -/
def Workspace.move
    (workspace : Workspace)
    (index : ℕ)
    (handle : FileHandle)
    (target : MoveTarget) : Workspace × Answer :=
  match workspace.planMove handle target with
  | .error error =>
      (workspace, .failed error)
  | .ok plan =>
      let location := plan.destination.path ++ [plan.name]
      ({ workspace with
          nodes := plan.apply workspace.nodes
          files := workspace.files.set index { handle with
            owner := plan.destination.node
            location }
          emitted := match plan.file.data with
            | some blob => workspace.emitted ++ [(location, blob)]
            | none => workspace.emitted }, .done)

/-- `dispose` -/
def Workspace.dispose
    (workspace : Workspace) : Workspace × Answer :=
  ({ workspace with
      disposed := true
      nodes := workspace.nodes.setChildren root fun _ => .empty }, .done)

/-- The calls of a workspace and its handles, and what comes back to them. -/
inductive Step where
  | putLazyFile (path : List String) (type : String)
  | putFile (path : List String) (bytes : List UInt8) (type : Option String)
  | readFile (path : List String)
  | handle
  | getDirectoryHandle (handle : ℕ) (name : String) (create : Bool)
  | getFileHandle (handle : ℕ) (name : String) (create : Bool)
  | removeEntry (handle : ℕ) (name : String) (recursive : Bool)
  | entries (handle : ℕ)
  | nextEntry (listing : ℕ)
  | getFile (file : ℕ)
  | createWritable (file : ℕ) (keepExistingData : Bool)
  | loaded (load : ℕ) (blob : Blob)
  | loadFailed (load : ℕ)
  | write (writable : ℕ) (chunk : WriteChunk)
  | written (writable which : ℕ)
  | seek (writable position : ℕ)
  | truncate (writable size : ℕ)
  | abort (writable : ℕ)
  | close (writable : ℕ)
  | move (file : ℕ) (target : MoveTarget)
  | dispose

/-- What is done with a handle that was given out. -/
def withHandle
    {Handle : Type}
    (workspace : Workspace)
    (handles : List Handle)
    (index : ℕ)
    (action : Handle → Workspace × Answer) : Workspace × Answer :=
  match handles[index]? with
  | none => (workspace, .noSuchHandle)
  | some handle => action handle

/-- One step. -/
def perform
    (workspace : Workspace) : Step → Workspace × Answer
  | .putLazyFile path type =>
      workspace.putLazyFile path type
  | .putFile path bytes type =>
      workspace.putFile path bytes type
  | .readFile path =>
      workspace.readFile path
  | .handle =>
      workspace.giveDirectory { node := root, path := [] }
  | .getDirectoryHandle index name create =>
      withHandle workspace workspace.directories index fun handle =>
        workspace.getDirectoryHandle handle name create
  | .getFileHandle index name create =>
      withHandle workspace workspace.directories index fun handle =>
        workspace.getFileHandle handle name create
  | .removeEntry index name recursive =>
      withHandle workspace workspace.directories index fun handle =>
        workspace.removeEntry handle name recursive
  | .entries index =>
      withHandle workspace workspace.directories index workspace.entries
  | .nextEntry index =>
      withHandle workspace workspace.listings index (workspace.nextEntry index)
  | .getFile index =>
      withHandle workspace workspace.files index fun handle =>
        workspace.materialize handle.node .reading
  | .createWritable index keepExistingData =>
      withHandle workspace workspace.files index fun handle =>
        workspace.createWritable index handle keepExistingData
  | .loaded index blob =>
      withHandle workspace workspace.loads index fun load =>
        workspace.loaded index load blob
  | .loadFailed index =>
      ({ workspace with loads := workspace.loads.eraseIdx index }, .ended)
  | .write index chunk =>
      withHandle workspace workspace.writables index fun writable =>
        workspace.write index writable chunk
  | .written index which =>
      withHandle workspace workspace.writables index fun writable =>
        workspace.written index writable which
  | .seek index position =>
      withHandle workspace workspace.writables index fun writable =>
        workspace.seek index writable position
  | .truncate index size =>
      withHandle workspace workspace.writables index fun writable =>
        workspace.truncate index writable size
  | .abort index =>
      withHandle workspace workspace.writables index (workspace.abort index)
  | .close index =>
      withHandle workspace workspace.writables index (workspace.close index)
  | .move index target =>
      withHandle workspace workspace.files index fun handle =>
        workspace.move index handle target
  | .dispose =>
      workspace.dispose

end Frameleaf.VirtualWorkspace
