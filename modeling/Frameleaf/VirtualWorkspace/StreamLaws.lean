import Frameleaf.VirtualWorkspace.StepLaws

namespace Frameleaf.VirtualWorkspace

/-!
# Writables next to the streams of the standard

For every writable a stream does what the standard says, call by call.  While
writes are pending the writable is behind its stream by just these writes.
-/

/-- A call waits until its turn, and truncates only what it can. -/
def Writable.Careful
    (writable : Writable) : Step → Prop
  | .write _ (.seek _) | .write _ (.truncate _) | .seek _ _ | .close _ =>
      writable.pending = []
  | .truncate _ size =>
      writable.pending = [] ∧ writable.buffer.position ≤ size ∧
        size ≤ writable.buffer.bytes.length
  | .written _ which =>
      which = 0
  | _ =>
      True

/-- The writable that a step is for. -/
def Step.onWritable : Step → Option ℕ
  | .write index _ | .written index _ | .seek index _ | .truncate index _
  | .abort index | .close index => some index
  | _ => none

/-- The writable whose stream a call changes. -/
def Step.called : Step → Option ℕ
  | .write index _ | .seek index _ | .truncate index _ => some index
  | _ => none

/-- What the standard makes of a call. -/
def Stream.follow
    (stream : Stream) : Step → Stream
  | .write _ (.write data position) => stream.write data position
  | .write _ (.seek position) | .seek _ position => stream.seek position
  | .write _ (.truncate size) | .truncate _ size => stream.truncate size
  | _ => stream

/-- A new writable starts with the bytes of its file. -/
def Step.keepsData : Step → Bool
  | .createWritable _ keepExistingData => keepExistingData
  | _ => true

/-- The bytes of a file, none when there are none yet. -/
def Nodes.contents
    (nodes : Nodes)
    (id : NodeId) : List UInt8 :=
  (((nodes.file? id).bind FileNode.data).map Blob.bytes).getD []

/-- The stream of a writable that was given out. -/
def openedStreams
    (result : Workspace × Answer)
    (step : Step) : List Stream :=
  match result.2 with
  | .writable index =>
      (result.1.writables[index]?.map fun writable => {
        buffer :=
          if step.keepsData then result.1.nodes.contents writable.node else []
        seekOffset := 0 }).toList
  | _ =>
      []

/-- A workspace, with a stream for each of its writables. -/
structure Session where
  workspace : Workspace
  streams : List Stream

/-- A new workspace without writables. -/
def Session.start : Session where
  workspace := VirtualWorkspace.start
  streams := []

/-- The streams after a call. -/
def Session.followed
    (session : Session)
    (step : Step) : List Stream :=
  match step.called with
  | some index => session.streams.modify index fun stream => stream.follow step
  | none => session.streams

/-- One step of the workspace, which the streams follow. -/
def performSession
    (session : Session)
    (step : Step) : Session × Answer :=
  let result := perform session.workspace step
  ({ workspace := result.1
     streams := session.followed step ++ openedStreams result step }, result.2)

/-- What a writable will be when its pending writes are done. -/
def Writable.stream
    (writable : Writable) : Stream :=
  writable.pending.foldl
    (fun stream (data, position) => stream.write data position)
    writable.buffer.stream

/-- A step changes a writable as the standard says, or closes it. -/
structure Writable.Follows
    (writable next : Writable)
    (step : Step) : Prop where
  stays : next.closed = false → writable.closed = false
  stream : next.closed = false → writable.Careful step →
    next.stream = writable.stream.follow step

/-- What a step can do to the writables. -/
inductive WritablesChange
    (workspace : Workspace)
    (step : Step)
    (result : Workspace × Answer) : Prop
  | kept
      (same : result.1.writables = workspace.writables)
      (nothing : openedStreams result step = [])
      (idle : ∀ index writable, step.called = some index →
        workspace.writables[index]? = some writable → writable.closed = true)
  | opened
      {writable : Writable}
      (added : result.1.writables = workspace.writables ++ [writable])
      (isOpen : writable.closed = false)
      (streams : openedStreams result step = [writable.stream])
      (idle : step.called = none)
  | changed
      {index : ℕ}
      {writable next : Writable}
      (isWritable : workspace.writables[index]? = some writable)
      (isSet : result.1.writables = workspace.writables.set index next)
      (nothing : openedStreams result step = [])
      (isOn : step.onWritable = some index)
      (called : step.called = none ∨ step.called = some index)
      (follows : writable.Follows next step)

variable {workspace before : Workspace} {step : Step}

theorem opened_giveWritable
    {file : ℕ}
    {node : NodeId}
    {bytes : List UInt8}
    (same : workspace.writables = before.writables)
    (isContents : bytes =
      if step.keepsData then workspace.nodes.contents node else [])
    (idle : step.called = none) :
    WritablesChange before step (workspace.giveWritable file node bytes) := by
  have added : (workspace.giveWritable file node bytes).1.writables =
      before.writables ++ [{
        file
        node
        buffer := { bytes, position := 0 }
        closed := false
        pending := [] }] := by
    unfold Workspace.giveWritable
    rw [same]
  refine .opened added rfl ?_ idle
  unfold openedStreams Workspace.giveWritable
  dsimp only
  rw [List.getElem?_concat_length, isContents]
  rfl

theorem opened_deliver
    {node : NodeId}
    (purpose : LoadPurpose)
    {blob : Blob}
    (same : workspace.writables = before.writables)
    (keeps : step.keepsData = true)
    (isContents : blob.bytes = workspace.nodes.contents node)
    (idle : step.called = none) :
    WritablesChange before step (workspace.deliver node purpose blob) := by
  cases purpose with
  | reading =>
      refine .kept same rfl ?_
      intro index writable isCalled
      rw [idle] at isCalled
      cases isCalled
  | writing file =>
      apply opened_giveWritable same _ idle
      rw [keeps]
      exact isContents

theorem WritablesChange.idle
    {result : Workspace × Answer}
    (same : result.1.writables = workspace.writables)
    (nothing : openedStreams result step = [])
    (idle : step.called = none) :
    WritablesChange workspace step result := by
  refine .kept same nothing ?_
  intro index writable isCalled
  rw [idle] at isCalled
  cases isCalled

theorem opened_materialize
    (node : NodeId)
    (purpose : LoadPurpose)
    (keeps : step.keepsData = true)
    (idle : step.called = none) :
    WritablesChange workspace step (workspace.materialize node purpose) := by
  unfold Workspace.materialize
  split
  · exact .idle rfl rfl idle
  · split
    · exact .idle rfl rfl idle
    · rename_i file isFile
      split
      · rename_i blob isData
        apply opened_deliver purpose rfl keeps _ idle
        unfold Nodes.contents
        rw [isFile, Option.bind_some, isData]
        rfl
      · rename_i isNone
        split
        · exact .idle rfl rfl idle
        · apply opened_deliver purpose rfl keeps _ idle
          unfold Nodes.contents
          rw [isFile, Option.bind_some, isNone]
          rfl

variable {index : ℕ}

theorem withHandle_writables
    {Handle : Type}
    {handles : List Handle}
    {action : Handle → Workspace × Answer}
    (idle : step.called = none)
    (found : ∀ handle, handles[index]? = some handle →
      WritablesChange workspace step (action handle)) :
    WritablesChange workspace step
      (withHandle workspace handles index action) := by
  unfold withHandle
  split
  · exact .idle rfl rfl idle
  · rename_i handle isHandle
    exact found handle isHandle

theorem withWritable_writables
    {action : Writable → Workspace × Answer}
    (called : step.called = none ∨ step.called = some index)
    (found : ∀ writable, workspace.writables[index]? = some writable →
      WritablesChange workspace step (action writable)) :
    WritablesChange workspace step
      (withHandle workspace workspace.writables index action) := by
  unfold withHandle
  split
  · rename_i isMissing
    refine .kept rfl rfl ?_
    intro other writable isCalled isWritable
    rcases called with notCalled | isIndex
    · rw [notCalled] at isCalled
      cases isCalled
    · rw [isIndex] at isCalled
      cases isCalled
      rw [isMissing] at isWritable
      cases isWritable
  · rename_i writable isWritable
    exact found writable isWritable

variable {writable : Writable}

theorem follows_closed
    {next : Writable}
    (isClosed : next.closed = true) :
    writable.Follows next step where
  stays := by
    intro isOpen
    rw [isClosed] at isOpen
    cases isOpen
  stream := by
    intro isOpen
    rw [isClosed] at isOpen
    cases isOpen

theorem follows_buffer
    {buffer : Buffer}
    (waits : writable.Careful step → writable.pending = [] ∧
      buffer.stream = writable.buffer.stream.follow step) :
    writable.Follows { writable with buffer } step where
  stays := id
  stream := by
    intro _ careful
    obtain ⟨nonePending, follows⟩ := waits careful
    unfold Writable.stream
    rw [nonePending]
    exact follows

theorem follows_write
    (writable : Writable)
    (index : ℕ)
    (data : List UInt8)
    (position : Option ℕ) :
    writable.Follows
      { writable with pending := writable.pending ++ [(data, position)] }
      (.write index (.write data position)) where
  stays := id
  stream := by
    intro _ _
    unfold Writable.stream
    dsimp only
    rw [List.foldl_append]
    rfl

theorem follows_written
    {which : ℕ}
    {data : List UInt8}
    {position : Option ℕ}
    (isPending : writable.pending[which]? = some (data, position)) :
    writable.Follows
      { writable with
        buffer := writable.buffer.writeAt data
          (position.getD writable.buffer.position)
        pending := writable.pending.eraseIdx which }
      (.written index which) where
  stays := id
  stream := by
    intro _ isFirst
    have first : which = 0 := isFirst
    subst first
    unfold Writable.stream
    dsimp only
    cases areAll : writable.pending with
    | nil =>
        rw [areAll] at isPending
        cases isPending
    | cons one others =>
        rw [areAll] at isPending
        cases isPending
        rw [Buffer.stream_writeAt]
        rfl

/-- Everything that a step can do to the writables. -/
theorem writables_perform
    (workspace : Workspace)
    (step : Step) :
    WritablesChange workspace step (perform workspace step) := by
  cases step with
  | putLazyFile path type =>
      change WritablesChange _ _ (workspace.put _ _ _ _)
      unfold Workspace.put
      split
      · exact .idle rfl rfl rfl
      · exact .idle rfl rfl rfl
  | putFile path bytes type =>
      change WritablesChange _ _ (workspace.put _ _ _ _)
      unfold Workspace.put
      split
      · exact .idle rfl rfl rfl
      · exact .idle rfl rfl rfl
  | readFile path =>
      change WritablesChange _ _ (workspace.readFile path)
      unfold Workspace.readFile
      split
      · exact .idle rfl rfl rfl
      · split
        · exact .idle rfl rfl rfl
        · split
          · exact .idle rfl rfl rfl
          · exact opened_materialize _ _ rfl rfl
  | handle =>
      exact .idle rfl rfl rfl
  | getDirectoryHandle index name create =>
      apply withHandle_writables rfl
      intro handle isHandle
      unfold Workspace.getDirectoryHandle
      split
      · exact .idle rfl rfl rfl
      · split
        · exact .idle rfl rfl rfl
        · split
          · split
            · exact .idle rfl rfl rfl
            · exact .idle rfl rfl rfl
          · split
            · exact .idle rfl rfl rfl
            · exact .idle rfl rfl rfl
  | getFileHandle index name create =>
      apply withHandle_writables rfl
      intro handle isHandle
      unfold Workspace.getFileHandle
      split
      · exact .idle rfl rfl rfl
      · split
        · exact .idle rfl rfl rfl
        · split
          · split
            · exact .idle rfl rfl rfl
            · exact .idle rfl rfl rfl
          · split
            · exact .idle rfl rfl rfl
            · exact .idle rfl rfl rfl
  | removeEntry index name recursive =>
      apply withHandle_writables rfl
      intro handle isHandle
      unfold Workspace.removeEntry
      split
      · exact .idle rfl rfl rfl
      · split
        · exact .idle rfl rfl rfl
        · dsimp only
          split
          · exact .idle rfl rfl rfl
          · exact .idle rfl rfl rfl
  | entries index =>
      apply withHandle_writables rfl
      intro handle isHandle
      unfold Workspace.entries
      split
      · exact .idle rfl rfl rfl
      · exact .idle rfl rfl rfl
  | nextEntry index =>
      apply withHandle_writables rfl
      intro listing isListing
      unfold Workspace.nextEntry
      split
      · exact .idle rfl rfl rfl
      · dsimp only
        split
        · exact .idle rfl rfl rfl
        · exact .idle rfl rfl rfl
  | getFile index =>
      apply withHandle_writables rfl
      intro handle isHandle
      exact opened_materialize _ _ rfl rfl
  | createWritable index keepExistingData =>
      apply withHandle_writables rfl
      intro handle isHandle
      unfold Workspace.createWritable
      split
      · exact .idle rfl rfl rfl
      · split
        · rename_i isKept
          exact opened_materialize _ _ isKept rfl
        · rename_i notKept
          apply opened_giveWritable rfl _ rfl
          exact (if_neg notKept).symm
  | loaded index blob =>
      apply withHandle_writables rfl
      intro load isLoad
      unfold Workspace.loaded
      dsimp only
      split
      · exact .idle rfl rfl rfl
      · split
        · exact .idle rfl rfl rfl
        · rename_i file isFile
          refine opened_deliver load.purpose ?_ ?_ ?_ ?_
          · rfl
          · rfl
          · unfold Nodes.contents
            rw [Nodes.file?_setFile, if_pos rfl, isFile]
            dsimp only [Option.map_some, Option.bind_some]
            unfold FileNode.loaded
            split
            · rename_i kept isKept
              rw [isKept]
              rfl
            · rfl
          · rfl
  | loadFailed index =>
      exact .idle rfl rfl rfl
  | write index chunk =>
      apply withWritable_writables (.inr rfl)
      intro writable isWritable
      unfold Workspace.write
      split
      · rename_i isClosed
        refine .kept rfl rfl ?_
        intro other found isCalled isFound
        cases isCalled
        rw [isWritable] at isFound
        cases isFound
        exact isClosed
      · cases chunk with
        | write data position =>
            exact .changed isWritable rfl rfl rfl (.inr rfl) (follows_write _ _ _ _)
        | seek position =>
            exact .changed isWritable rfl rfl rfl (.inr rfl)
              (follows_buffer fun nonePending => ⟨nonePending, rfl⟩)
        | truncate size =>
            exact .changed isWritable rfl rfl rfl (.inr rfl)
              (follows_buffer fun nonePending =>
                ⟨nonePending, Buffer.stream_writeTruncate _ _⟩)
  | written index which =>
      apply withWritable_writables (.inl rfl)
      intro writable isWritable
      unfold Workspace.written
      split
      · exact .idle rfl rfl rfl
      · rename_i data position isPending
        exact .changed isWritable rfl rfl rfl (.inl rfl) (follows_written isPending)
  | seek index position =>
      apply withWritable_writables (.inr rfl)
      intro writable isWritable
      exact .changed isWritable rfl rfl rfl (.inr rfl)
        (follows_buffer fun nonePending => ⟨nonePending, rfl⟩)
  | truncate index size =>
      apply withWritable_writables (.inr rfl)
      intro writable isWritable
      exact .changed isWritable rfl rfl rfl (.inr rfl)
        (follows_buffer fun careful =>
          ⟨careful.1, (Buffer.stream_truncate_iff _ _).mpr careful.2⟩)
  | abort index =>
      apply withWritable_writables (.inl rfl)
      intro writable isWritable
      exact .changed isWritable rfl rfl rfl (.inl rfl) (follows_closed rfl)
  | close index =>
      apply withWritable_writables (.inl rfl)
      intro writable isWritable
      unfold Workspace.close
      split
      · exact .idle rfl rfl rfl
      · dsimp only
        split
        · exact .changed isWritable rfl rfl rfl (.inl rfl) (follows_closed rfl)
        · split
          · exact .changed isWritable rfl rfl rfl (.inl rfl) (follows_closed rfl)
          · exact .changed isWritable rfl rfl rfl (.inl rfl) (follows_closed rfl)
  | move index target =>
      apply withHandle_writables rfl
      intro handle isHandle
      unfold Workspace.move
      split
      · exact .idle rfl rfl rfl
      · exact .idle rfl rfl rfl
  | dispose =>
      exact .idle rfl rfl rfl

end Frameleaf.VirtualWorkspace
