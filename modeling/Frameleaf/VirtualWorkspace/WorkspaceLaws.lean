import Frameleaf.Lib.Trace
import Frameleaf.VirtualWorkspace.StreamLaws

namespace Frameleaf.VirtualWorkspace

open EntryGraphs InsertionMaps Trace

/-!
# The laws of a workspace

In every run whose moves and calls are careful each file has one path, ends in
its own name, and is written as the standard says.  Removing an entry and
loading bytes never harm anything.
-/

/-- Moves are safe, and calls of open writables wait for their turn. -/
structure Careful
    (session : Session)
    (step : Step) : Prop where
  moves : ∀ index target handle plan, step = .move index target →
    session.workspace.files[index]? = some handle →
    session.workspace.planMove handle target = .ok plan →
    plan.Safe session.workspace.nodes
  calls : ∀ index writable, step.onWritable = some index →
    session.workspace.writables[index]? = some writable →
    writable.closed = false → writable.Careful step

/-- Every open writable is what its stream will be, up to pending writes. -/
structure Agrees
    (session : Session) : Prop where
  asMany : session.streams.length = session.workspace.writables.length
  stream : ∀ (index : ℕ) (writable : Writable),
    session.workspace.writables[index]? = some writable →
    writable.closed = false →
    session.streams[index]? = some writable.stream

/-- What holds after every careful run. -/
structure Standing
    (session : Session) : Prop where
  sound : Sound session.workspace.nodes
  agrees : Agrees session

variable {session : Session} {step : Step}

theorem length_followed
    (session : Session)
    (step : Step) :
    (session.followed step).length = session.streams.length := by
  unfold Session.followed
  split
  · exact List.length_modify _ _ _
  · rfl

variable {index : ℕ}

theorem getElem?_followed
    (notCalled : step.called ≠ some index) :
    (session.followed step)[index]? = session.streams[index]? := by
  unfold Session.followed
  split
  · rename_i other isCalled
    apply List.getElem?_modify_ne
    rintro rfl
    exact notCalled isCalled
  · rfl

theorem getElem?_followed_called
    (isCalled : step.called = some index) :
    (session.followed step)[index]? =
      session.streams[index]?.map fun stream => stream.follow step := by
  unfold Session.followed
  rw [isCalled]
  exact List.getElem?_modify_eq _ _ _

theorem follow_of_not_called
    (stream : Stream)
    (notCalled : step.called = none) :
    stream.follow step = stream := by
  cases step with
  | write index chunk | seek index position | truncate index size =>
      cases notCalled
  | _ => rfl

/-- A careful step keeps every writable with its stream. -/
theorem Agrees.perform
    (agrees : Agrees session)
    (careful : ∀ index writable, step.onWritable = some index →
      session.workspace.writables[index]? = some writable →
      writable.closed = false → writable.Careful step) :
    Agrees (performSession session step).1 := by
  have length := length_followed session step
  have asMany := agrees.asMany
  unfold performSession
  rcases writables_perform session.workspace step with
    ⟨same, nothing, idle⟩ | ⟨added, isOpen, streams, idle⟩ |
      ⟨isWritable, isSet, nothing, isOn, called, follows⟩
  · constructor
    · dsimp only
      rw [nothing, List.append_nil, length, agrees.asMany, same]
    · intro index writable isWritable isOpen
      dsimp only at isWritable ⊢
      rw [same] at isWritable
      rw [nothing, List.append_nil, getElem?_followed]
      · exact agrees.stream index writable isWritable isOpen
      · intro isCalled
        rw [idle index writable isCalled isWritable] at isOpen
        cases isOpen
  · rename_i opened
    constructor
    · dsimp only
      rw [streams, List.length_append, length, agrees.asMany, added,
        List.length_append]
      rfl
    · intro index writable isWritable isOpen
      dsimp only at isWritable ⊢
      rw [added] at isWritable
      rw [streams]
      by_cases isOld : index < session.workspace.writables.length
      · rw [List.getElem?_append_left isOld] at isWritable
        rw [List.getElem?_append_left (by omega), getElem?_followed]
        · exact agrees.stream index writable isWritable isOpen
        · rw [idle]
          nofun
      · have isPast : session.workspace.writables.length ≤ index := by omega
        rw [List.getElem?_append_right isPast] at isWritable
        rw [List.getElem?_append_right (by omega), length, agrees.asMany]
        have isLast : index - session.workspace.writables.length = 0 := by
          have inRange := (List.getElem?_eq_some_iff.mp isWritable).1
          rw [List.length_singleton] at inRange
          omega
        rw [isLast] at isWritable ⊢
        cases isWritable
        rfl
  · rename_i changed before next
    have inRange := (List.getElem?_eq_some_iff.mp isWritable).1
    constructor
    · dsimp only
      rw [nothing, List.append_nil, length, agrees.asMany, isSet,
        List.length_set]
    · intro index writable isFound isOpen
      dsimp only at isFound ⊢
      rw [isSet, List.getElem?_set] at isFound
      rw [nothing, List.append_nil]
      split at isFound
      · rename_i sameIndex
        subst sameIndex
        cases isFound
        have wasOpen := follows.stays isOpen
        have stream := agrees.stream _ _ isWritable wasOpen
        rw [follows.stream isOpen (careful _ _ isOn isWritable wasOpen)]
        rcases called with notCalled | isCalled
        · rw [getElem?_followed (by rw [notCalled]; nofun), stream,
            follow_of_not_called _ notCalled]
        · rw [getElem?_followed_called isCalled, stream]
          rfl
      · rename_i otherIndex
        rw [getElem?_followed]
        · exact agrees.stream index writable isFound isOpen
        · intro isCalled
          rcases called with notCalled | isOther
          · rw [notCalled] at isCalled
            cases isCalled
          · rw [isOther] at isCalled
            cases isCalled
            exact otherIndex rfl

theorem Sound.perform
    (sound : Sound session.workspace.nodes)
    (careful : Careful session step) :
    Sound (performSession session step).1.workspace.nodes := by
  have change := nodes_perform session.workspace step
  change Sound (VirtualWorkspace.perform session.workspace step).1.nodes
  generalize (VirtualWorkspace.perform session.workspace step).1.nodes = after
    at change ⊢
  cases change with
  | grown grown =>
      exact sound.grown grown
  | removed isStep isHandle =>
      exact sound.deleteEntry _ _
  | loaded isStep isLoad =>
      apply sound.setFile
      intro file
      unfold FileNode.loaded
      split
      · rfl
      · rfl
  | closed isStep isWritable isOpen isLive sameBytes =>
      exact sound.setFile _ fun file => rfl
  | moved isStep isHandle planned =>
      obtain ⟨isHandle', found⟩ := found_of_planMove planned
      exact sound.apply found
        (careful.moves _ _ _ _ isStep isHandle planned)
  | cleared isStep =>
      exact sound.cleared root

theorem Standing.perform
    (standing : Standing session)
    (careful : Careful session step) :
    Standing (performSession session step).1 where
  sound := standing.sound.perform careful
  agrees := standing.agrees.perform careful.calls

theorem standing_start : Standing .start where
  sound := sound_start
  agrees := ⟨rfl, nofun⟩

/-- The session after a run. -/
def sessionAfter
    (steps : List Step) : Session :=
  finalState performSession .start steps

variable {steps : List Step}

theorem standing_of_careful
    (careful : AllMeet performSession Careful .start steps) :
    Standing (sessionAfter steps) :=
  invariant_finalState
    (fun _ _ standing isCareful => standing.perform isCareful)
    standing_start careful

/-! ## What a step leaves of bytes and entries -/

/-- A file has some bytes. -/
def Nodes.Holds
    (nodes : Nodes)
    (id : NodeId)
    (blob : Blob) : Prop :=
  ∃ file, nodes.file? id = some file ∧ file.data = some blob

variable {id : NodeId}

theorem Grown.file?
    {before after : Nodes}
    (grown : Grown before after)
    {file : FileNode}
    (isFile : before.file? id = some file) :
    after.file? id = some file := by
  induction grown with
  | refl =>
      exact isFile
  | @attach middle grown folder node isNew inductionHypothesis =>
      have isThere := (Nodes.file?_eq_some _).mp inductionHypothesis
      have inRange : id < middle.next :=
        (List.getElem?_eq_some_iff.mp isThere).1
      unfold VirtualWorkspace.attach
      split
      · exact inductionHypothesis
      · unfold Nodes.setEntry
        rw [Nodes.file?_setChildren, Nodes.file?_eq_some,
          Nodes.getElem?_allocate _ _ inRange]
        exact isThere

variable {blob : Blob}

theorem Nodes.Holds.setFile
    {nodes : Nodes}
    (holds : nodes.Holds id blob)
    (other : NodeId)
    {change : FileNode → FileNode}
    (keeps : id = other → ∀ file, file.data = some blob →
      (change file).data = some blob) :
    (nodes.setFile other change).Holds id blob := by
  obtain ⟨file, isFile, isData⟩ := holds
  unfold Nodes.Holds
  rw [Nodes.file?_setFile]
  by_cases isOther : id = other
  · refine ⟨change file, ?_, keeps isOther file isData⟩
    rw [if_pos isOther, ← isOther, isFile]
    rfl
  · rw [if_neg isOther]
    exact ⟨file, isFile, isData⟩

theorem Nodes.Holds.setChildren
    {nodes : Nodes}
    (holds : nodes.Holds id blob)
    (folder : NodeId)
    (change : InsertionMap String NodeId → InsertionMap String NodeId) :
    (nodes.setChildren folder change).Holds id blob := by
  unfold Nodes.Holds
  rw [Nodes.file?_setChildren]
  exact holds

variable {workspace : Workspace}

theorem holds_perform
    (holds : workspace.nodes.Holds id blob) :
    (perform workspace step).1.nodes.Holds id blob ∨
      ∃ index writable, step = .close index ∧
        workspace.writables[index]? = some writable ∧
        writable.closed = false ∧ writable.node = id := by
  have change := nodes_perform workspace step
  generalize (perform workspace step).1.nodes = after at change ⊢
  cases change with
  | grown grown =>
      obtain ⟨file, isFile, isData⟩ := holds
      exact .inl ⟨file, grown.file? isFile, isData⟩
  | removed isStep isHandle =>
      exact .inl (holds.setChildren _ _)
  | loaded isStep isLoad =>
      left
      apply holds.setFile
      intro _ file isData
      unfold FileNode.loaded
      rw [isData]
      exact isData
  | @closed index writable written isStep isWritable isOpen isLive sameBytes =>
      by_cases isHere : writable.node = id
      · exact .inr ⟨index, writable, isStep, isWritable, isOpen, isHere⟩
      · left
        apply holds.setFile
        intro isThere
        exact absurd isThere.symm isHere
  | @moved index handle target plan isStep isHandle planned =>
      left
      unfold MovePlan.apply
      apply Nodes.Holds.setChildren
      apply (holds.setChildren _ _).setFile
      intro _ file isData
      exact isData
  | cleared isStep =>
      exact .inl (holds.setChildren _ _)

theorem holds_close
    {writable : Writable}
    {file : FileNode}
    (isWritable : workspace.writables[index]? = some writable)
    (isOpen : writable.closed = false)
    (isLive : workspace.disposed = false)
    (isFile : workspace.nodes.file? writable.node = some file) :
    (perform workspace (.close index)).1.nodes.contents writable.node =
      writable.buffer.bytes := by
  change (withHandle workspace workspace.writables index
    (workspace.close index)).1.nodes.contents writable.node = _
  unfold withHandle
  rw [isWritable]
  dsimp only
  unfold Workspace.close
  rw [isOpen, if_neg nofun]
  dsimp only [Workspace.setWritable]
  rw [isLive, if_neg nofun, isFile]
  unfold Nodes.contents
  dsimp only
  rw [Nodes.file?_setFile, if_pos rfl, isFile]
  rfl

theorem entry_removeEntry
    {handle : DirectoryHandle}
    (isHandle : workspace.directories[index]? = some handle)
    (name : String)
    (recursive : Bool)
    {folder child : NodeId}
    {other : String}
    (isEntry : workspace.nodes.entry folder other = some child)
    (isElsewhere : ¬(folder = handle.node ∧ other = name)) :
    (perform workspace (.removeEntry index name recursive)).1.nodes.entry
      folder other = some child := by
  change (withHandle workspace workspace.directories index fun handle =>
    workspace.removeEntry handle name recursive).1.nodes.entry _ _ = _
  unfold withHandle
  rw [isHandle]
  dsimp only
  unfold Workspace.removeEntry
  split
  · exact isEntry
  · split
    · exact isEntry
    · dsimp only
      split
      · exact isEntry
      · have sameEntry := congrFun (congrFun (congrArg EntryGraph.entry
          (workspace.nodes.graph_deleteEntry handle.node name)) folder) other
        exact sameEntry.trans ((if_neg isElsewhere).trans isEntry)

/-! ## The laws -/

/-- What is wanted of a run. -/
structure Lawful
    (steps : List Step) : Prop where
  /-- A file is under one path. -/
  onePath : ∀ id first second,
    (sessionAfter steps).workspace.nodes.graph.resolve root first = some id →
    (sessionAfter steps).workspace.nodes.graph.resolve root second = some id →
    first = second
  /-- The last name of the path is the one that the file carries. -/
  ownName : ∀ id path name,
    (sessionAfter steps).workspace.nodes.graph.resolve root
        (path ++ [name]) = some id →
      (sessionAfter steps).workspace.nodes.nameOf id = some name
  /-- A move takes nothing away but its file, and what is at its target. -/
  spares : ∀ entry ∈ trace performSession .start steps,
    ∀ index target handle plan, entry.step = .move index target →
      entry.before.workspace.files[index]? = some handle →
      entry.before.workspace.planMove handle target = .ok plan →
      plan.Spares entry.before.workspace.nodes entry.after.workspace.nodes
  /-- A closed writable leaves what the standard says in its file. -/
  closes : ∀ entry ∈ trace performSession .start steps,
    ∀ index writable file, entry.step = .close index →
      entry.before.workspace.writables[index]? = some writable →
      writable.closed = false → entry.before.workspace.disposed = false →
      entry.before.workspace.nodes.file? writable.node = some file →
      ∃ stream, entry.before.streams[index]? = some stream ∧
        entry.after.workspace.nodes.contents writable.node = stream.buffer

/-- What holds of the runs of a workspace. -/
structure WorkspaceLaws
    (steps : List Step) : Prop where
  /-- A run of careful steps is as it is wanted. -/
  lawful : AllMeet performSession Careful .start steps → Lawful steps
  /-- In every run, removing an entry leaves all others. -/
  removes : ∀ entry ∈ trace performSession .start steps,
    ∀ index name recursive handle, entry.step =
        .removeEntry index name recursive →
      entry.before.workspace.directories[index]? = some handle →
      ∀ folder other child, ¬(folder = handle.node ∧ other = name) →
        entry.before.workspace.nodes.entry folder other = some child →
        entry.after.workspace.nodes.entry folder other = some child
  /-- In every run, bytes that are there are only changed by closing a writable
  of their file, so that no loaded bytes come after them. -/
  keeps : ∀ entry ∈ trace performSession .start steps, ∀ id blob,
    entry.before.workspace.nodes.Holds id blob →
    entry.after.workspace.nodes.Holds id blob ∨
      ∃ index writable, entry.step = .close index ∧
        entry.before.workspace.writables[index]? = some writable ∧
        writable.closed = false ∧ writable.node = id

theorem standing_of_mem_trace
    (careful : AllMeet performSession Careful .start steps)
    {entry : Entry Session Step Answer}
    (member : entry ∈ trace performSession .start steps) :
    Standing entry.before ∧ Careful entry.before entry.step ∧
      entry.after = (performSession entry.before entry.step).1 := by
  obtain ⟨earlier, step, later, rfl, rfl⟩ := exists_split_of_mem_trace member
  obtain ⟨before, isCareful, _⟩ := allMeet_append.mp careful
  exact ⟨standing_of_careful before, isCareful, rfl⟩

/-- A careful run is as it is wanted. -/
theorem lawful_of_careful
    (careful : AllMeet performSession Careful .start steps) :
    Lawful steps where
  onePath := by
    intro id first second isFirst isSecond
    exact (standing_of_careful careful).sound.proper.path_unique isFirst isSecond
  ownName := by
    intro id path name leads
    obtain ⟨folder, _, contains⟩ := EntryGraph.contains_of_resolve leads
    exact (standing_of_careful careful).sound.proper.keyed _ _ _ contains
  spares := by
    intro entry member index target handle plan isStep isHandle planned
    obtain ⟨_, isCareful, isAfter⟩ := standing_of_mem_trace careful member
    have safe := isCareful.moves index target handle plan isStep isHandle
      planned
    obtain ⟨_, found⟩ := found_of_planMove planned
    have moved : entry.after.workspace.nodes =
        plan.apply entry.before.workspace.nodes := by
      rw [isAfter, isStep]
      change (withHandle _ _ index fun handle =>
        Workspace.move _ index handle target).1.nodes = _
      unfold withHandle
      rw [isHandle]
      dsimp only
      unfold Workspace.move
      rw [planned]
    rw [moved]
    exact safe.spares found
  closes := by
    intro entry member index writable file isStep isWritable isOpen isLive
      isFile
    obtain ⟨standing, isCareful, isAfter⟩ :=
      standing_of_mem_trace careful member
    have isStream := standing.agrees.stream index writable isWritable isOpen
    have isOn : entry.step.onWritable = some index := by
      rw [isStep]
      rfl
    have nonePending := isCareful.calls index writable isOn isWritable isOpen
    rw [isStep] at nonePending
    have isBuffer : writable.stream = writable.buffer.stream := by
      unfold Writable.stream
      rw [show writable.pending = [] from nonePending]
      rfl
    refine ⟨writable.stream, isStream, ?_⟩
    rw [isBuffer, isAfter, isStep]
    exact holds_close isWritable isOpen isLive isFile

/-- The runs of a workspace keep their laws. -/
theorem workspaceLaws
    (steps : List Step) :
    WorkspaceLaws steps where
  lawful := lawful_of_careful
  removes := by
    intro entry member index name recursive handle isStep isHandle folder other
      child isElsewhere isEntry
    obtain ⟨earlier, step, later, rfl, rfl⟩ := exists_split_of_mem_trace member
    have removes : step = .removeEntry index name recursive := isStep
    subst removes
    exact entry_removeEntry isHandle name recursive isEntry isElsewhere
  keeps := by
    intro entry member id blob holds
    obtain ⟨earlier, step, later, rfl, rfl⟩ := exists_split_of_mem_trace member
    exact holds_perform holds

/-- A file is moved through one handle, and again through another one. -/
def staleRun : List Step := [
  .handle,
  .getFileHandle 0 "a.txt" true,
  .getFileHandle 0 "a.txt" false,
  .getDirectoryHandle 0 "d" true,
  .move 0 (.directory 1 (some "b.txt")),
  .getFileHandle 0 "b.txt" true,
  .move 1 (.name "c.txt")]

/-- Afterwards the file has two paths, and another file is gone. -/
theorem stale_handle_unlawful :
    (sessionAfter staleRun).workspace.nodes.graph.resolve root ["c.txt"] =
        some 1 ∧
      (sessionAfter staleRun).workspace.nodes.graph.resolve root
        ["d", "b.txt"] = some 1 ∧
      (sessionAfter staleRun).workspace.nodes.graph.resolve root ["b.txt"] =
        none ∧
      ¬Lawful staleRun := by
  have first : (sessionAfter staleRun).workspace.nodes.graph.resolve root
      ["c.txt"] = some 1 := by decide +kernel
  have second : (sessionAfter staleRun).workspace.nodes.graph.resolve root
      ["d", "b.txt"] = some 1 := by decide +kernel
  refine ⟨first, second, by decide +kernel, ?_⟩
  intro lawful
  have same := congrArg List.length (lawful.onePath 1 _ _ first second)
  cases same

end Frameleaf.VirtualWorkspace
