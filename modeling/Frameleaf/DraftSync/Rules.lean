import Frameleaf.Lib.Trace
import Mathlib.Data.Nat.Basic
import Mathlib.Logic.Function.Basic

namespace Frameleaf.DraftSync

/-!
# When an editor's work becomes a draft, and when it is replaced

An editor instance starts from a graph of the host.  Its writes become drafts
while it is the current instance and has loaded.  The host's graph replaces it
when the editor did not write that graph.
-/

/-- One editor instance: the graph it started from and whether it has loaded. -/
structure EditorMount where
  generation : ℕ
  projectId : String
  revision : ℕ
  graphVersion : ℕ
  loaded : Bool
deriving DecidableEq, Repr

/-- What the editor knows of its drafts. -/
structure DraftSendState where
  hostContent : String
  mount : EditorMount
  pendingSend : Bool := false
  pendingSuperseded : Bool := false
  writePending : Bool := false
  writeVersion : ℕ := 0
  lostReportedFor : Option ℕ := none
  lostReportedMark : Option String := none
  disposed : Bool := false
deriving DecidableEq, Repr

/-- The host's graph, and what the editor shows, when the host is followed. -/
structure HostGraph where
  incoming : String
  current : String
  draftHeld : Bool
  graphVersion : ℕ
deriving DecidableEq, Repr

/-- What becomes of the editor when the host's graph is followed. -/
inductive Reconciliation where
  | remount
  | echo
  | hold
deriving DecidableEq, Repr

/-- How a load of a timeline ended for the editor. -/
inductive LoadOutcome where
  | loaded
  | failed
  | ignored
deriving DecidableEq, Repr

/-- How the host answers a draft. -/
inductive StageAnswer where
  | staged
  | rejected (reason : Option String)
deriving DecidableEq, Repr

/-- The host replaced the graph that the draft was built on. -/
def isSuperseded
    (answer : StageAnswer) : Bool :=
  answer = .rejected (some "superseded")

/-- Reload only for a graph this editor did not write. -/
def shouldReloadFromHost
    (graph : HostGraph)
    (hostContent : String) : Bool :=
  !graph.draftHeld && graph.incoming ≠ hostContent &&
    graph.incoming ≠ graph.current

/-- A refused draft goes again once the host can take it. -/
def shouldResendDraft
    (pending online hasLease : Bool) : Bool :=
  pending && online && hasLease

namespace DraftSendState

/-- What the host's graph does to the editor. -/
def reconcileHostGraph
    (state : DraftSendState)
    (graph : HostGraph) : DraftSendState × Reconciliation :=
  let kept := if graph.draftHeld then Reconciliation.hold else .echo
  if state.mount.graphVersion < graph.graphVersion then
    if graph.incoming ≠ graph.current then
      (state, .remount)
    else
      ({ state with
          mount.graphVersion := graph.graphVersion }, kept)
  else if shouldReloadFromHost graph state.hostContent then
    (state, .remount)
  else
    (state, kept)

/-- Replace the current mount. -/
def beginMount
    (state : DraftSendState)
    (projectId : String)
    (revision graphVersion : ℕ) : DraftSendState :=
  { state with
    mount := {
      generation := state.mount.generation + 1
      projectId
      revision
      graphVersion
      loaded := false }
    pendingSend := false
    pendingSuperseded := false
    writePending := false }

/-- Replacing the mount loses an edit that the host refused as superseded. -/
def supersededEditLost
    (state : DraftSendState) : Bool :=
  !state.disposed && state.pendingSend && state.pendingSuperseded

/-- Replacing the mount loses edits that the host never took. -/
def editsLostOnRemount
    (state : DraftSendState)
    (unsent : Bool) : Bool :=
  state.supersededEditLost || (!state.disposed && state.mount.loaded &&
    (unsent || state.pendingSend || state.writePending))

/-- Whether to tell that edits of a mount were lost. -/
def reportLost
    (state : DraftSendState)
    (generation : ℕ)
    (mark : Option String) : DraftSendState × Bool :=
  if state.disposed then
    (state, false)
  else if state.lostReportedFor = some generation ∧
      (mark = none ∨ mark = state.lostReportedMark) then
    (state, false)
  else
    ({ state with
        lostReportedFor := some generation
        lostReportedMark :=
          if state.lostReportedFor ≠ some generation ∨ mark ≠ none then
            mark
          else
            state.lostReportedMark }, true)

/-- The timeline of a project has loaded, or its load has failed. -/
def loadFinished
    (state : DraftSendState)
    (projectId : String)
    (ok : Bool) : DraftSendState × LoadOutcome :=
  if state.disposed ∨ state.mount.projectId ≠ projectId ∨
      state.mount.loaded then
    (state, .ignored)
  else if !ok then
    (state, .failed)
  else
    ({ state with
        mount.loaded := true }, .loaded)

/-- Whether a write of a mount may become a draft. -/
def acceptsWrite
    (state : DraftSendState)
    (generation : ℕ) : Bool :=
  !state.disposed && state.mount.generation = generation && state.mount.loaded

/-- The host confirms a revision whose graph is what the mount shows. -/
def confirmEcho
    (state : DraftSendState)
    (content current : String)
    (revision : ℕ) : DraftSendState :=
  if state.mount.loaded ∧ content = current ∧
      state.mount.revision < revision then
    { state with
      mount.revision := revision }
  else
    state

end DraftSendState

/-!
## The editor frame between its editor and its host

Everything the frame awaits is a step of its own: a send reads the mount's file,
goes on with what it read and hears the host's answer, a host update reads what
the editor shows before the frame follows it, and a remount ends when the new
instance renders.
-/

/-- How texts are read as graphs and compared. -/
structure GraphTexts (Graph : Type) where
  parse : String → Option Graph
  contentOf : Option Graph → String
  /-- The file of a project that starts from the text of a graph. -/
  projectFile : String → String → String
  /-- What a draft holds beyond the graph before it. -/
  editorDraftCommandIds : Option Graph → Graph → List String

/-- What the host tells the frame about its project. -/
structure HostContext where
  /-- The text of the host's graph. -/
  graph : Option String
  revision : ℕ
  graphVersion : ℕ
  draftHeld : Bool := false
  online : Bool := true
  hasLease : Bool := true
deriving DecidableEq, Repr

/-- How far a send has come. -/
inductive SendStage where
  | begun
  | read (text : Option String)
  | staging (content : String)
deriving DecidableEq, Repr

/-- A send of what a mount wrote. -/
structure Send where
  generation : ℕ
  projectId : String
  writeVersion : ℕ
  base : ℕ
  version : ℕ
  stage : SendStage := .begun
deriving DecidableEq, Repr

/-- An update of the host that the frame follows. -/
structure HostUpdate where
  context : HostContext
  current : Option String := none
deriving DecidableEq, Repr

/-- A draft as the host gets it. -/
structure Draft (Graph : Type) where
  generation : ℕ
  graph : Graph
  baseRevision : ℕ
  graphVersion : ℕ
  commandIds : List String
deriving DecidableEq, Repr

/-- What the frame tells its host. -/
inductive Event (Graph : Type) where
  | stageDraft (draft : Draft Graph)
  | dirty (dirty : Bool)
  | lost (generation : ℕ) (mark : Option String)
  | fatal
deriving DecidableEq, Repr

/-- The editor frame. -/
structure Frame where
  draft : DraftSendState
  engineProjectId : String
  context : HostContext
  /-- The project files of the workspace. -/
  files : String → Option String
  /-- What the instance on screen shows. -/
  shown : String := ""
  /-- The timeline on screen has edits that were not saved. -/
  isDirty : Bool := false
  renderedGeneration : ℕ := 0
  /-- A send is due for what this mount wrote. -/
  draftTimer : Option ℕ := none
  /-- A settled save is due for this mount. -/
  saveTimer : Option ℕ := none
  sends : List Send := []
  updates : List HostUpdate := []
  /-- Mounts whose instance does not render yet. -/
  remounts : List ℕ := []

/-- What happens to the frame. -/
inductive Step where
  /-- The person edits what is on screen. -/
  | edit (shown : String) (isTimelineLoading : Bool)
  /-- The timeline on screen is marked clean. -/
  | markClean
  | fireSave
  /-- A file of the workspace is written. -/
  | write (projectId text : String)
  | fireDraft
  | readFile (index : ℕ)
  | goOn (index : ℕ)
  | answer (index : ℕ) (answer : StageAnswer)
  | update (context : HostContext)
  | readCurrent (index : ℕ)
  | follow (index : ℕ)
  | resend (context : HostContext)
  | render (index : ℕ)
  | load (projectId : String) (ok : Bool)
  | dispose
deriving DecidableEq, Repr

/-- The state a new frame starts in. -/
def newFrame
    (engineProjectId shown : String)
    (context : HostContext)
    (hostContent : String)
    (files : String → Option String) : Frame where
  draft := {
    hostContent
    mount := {
      generation := 0
      projectId := engineProjectId
      revision := context.revision
      graphVersion := context.graphVersion
      loaded := false } }
  engineProjectId
  context
  files
  shown

section Perform

variable {Graph : Type} (texts : GraphTexts Graph)

namespace Frame

/-- What the frame posts when the drafts are dirty or clean. -/
def dirtyEvent
    (frame : Frame)
    (dirty : Bool) : Event Graph :=
  .dirty (dirty || frame.isDirty)

/-- Begin to send what a mount wrote. -/
def sendDraft
    (frame : Frame)
    (generation : ℕ) : Frame :=
  if frame.draft.acceptsWrite generation then
    { frame with
      sends := frame.sends ++ [{
        generation
        projectId := frame.draft.mount.projectId
        writeVersion := frame.draft.writeVersion
        base := frame.draft.mount.revision
        version := frame.draft.mount.graphVersion }] }
  else
    frame

/-- The edits of a mount were lost; tell it unless it was told. -/
def tellLost
    (frame : Frame)
    (generation : ℕ)
    (mark : Option String) : Frame × List (Event Graph) :=
  let (draft, tells) := frame.draft.reportLost generation mark
  ({ frame with draft }, if tells then [.lost generation mark] else [])

/-- A send has read its file: stage the draft, unless the host holds it. -/
def stage
    (frame : Frame)
    (index : ℕ)
    (send : Send)
    (text : Option String) : Frame × List (Event Graph) :=
  let dropped := { frame with sends := frame.sends.eraseIdx index }
  if !frame.draft.acceptsWrite send.generation then
    (dropped, [])
  else
    match text.bind texts.parse with
    | none => (dropped, [])
    | some graph =>
        let content := texts.contentOf (some graph)
        if content = frame.draft.hostContent then
          if frame.draft.writeVersion = send.writeVersion then
            ({ dropped with draft.writePending := false },
              [frame.dirtyEvent false])
          else
            (dropped, [])
        else
          ({ frame with
              sends := frame.sends.set index
                { send with stage := .staging content } },
            [.stageDraft {
              generation := send.generation
              graph
              baseRevision := send.base
              graphVersion := send.version
              commandIds := texts.editorDraftCommandIds
                (texts.parse frame.draft.hostContent) graph }])

/-- The host has answered a draft. -/
def answered
    (frame : Frame)
    (index : ℕ)
    (send : Send)
    (content : String)
    (answer : StageAnswer) : Frame × List (Event Graph) :=
  let frame := { frame with sends := frame.sends.eraseIdx index }
  if !frame.draft.acceptsWrite send.generation then
    if isSuperseded answer then
      frame.tellLost send.generation none
    else
      (frame, [])
  else if answer = .staged then
    let writePending := frame.draft.writeVersion ≠ send.writeVersion
    ({ frame with
        draft.hostContent := content
        draft.pendingSend := false
        draft.pendingSuperseded := false
        draft.writePending := writePending },
      [frame.dirtyEvent writePending])
  else if isSuperseded answer ∧
      send.version < frame.draft.mount.graphVersion then
    (frame.sendDraft send.generation, [])
  else if answer = .rejected (some "invalid") then
    ({ frame with draft.pendingSend := false }, [frame.dirtyEvent true])
  else
    ({ frame with
        draft.pendingSend := true
        draft.pendingSuperseded := isSuperseded answer },
      [frame.dirtyEvent true])

/-- Put the host's newest graph into the file of a project. -/
def seedProject
    (frame : Frame)
    (projectId : String) : Frame :=
  match frame.context.graph with
  | some text =>
      { frame with
        files := Function.update frame.files projectId
          (some (texts.projectFile projectId text)) }
  | none => frame

/-- Put the host's graph in front of the person with a new instance. -/
def remount
    (frame : Frame)
    (context : HostContext)
    (incoming : String) : Frame × List (Event Graph) :=
  let replaced := frame.draft.mount
  let lost := frame.draft.editsLostOnRemount
    (frame.draftTimer.isSome || frame.saveTimer.isSome || frame.isDirty)
  let projectId := frame.engineProjectId ++ "-m" ++
    toString (replaced.generation + 1)
  let begun := { frame with
    draft := { frame.draft.beginMount projectId context.revision
      context.graphVersion with hostContent := incoming }
    draftTimer := none
    saveTimer := none }
  let mark := if replaced.generation = frame.renderedGeneration then
    some frame.shown else none
  let (told, events) :=
    if lost then begun.tellLost replaced.generation mark else (begun, [])
  ({ told.seedProject texts projectId with
      remounts := told.remounts ++ [replaced.generation + 1] }, events)

/-- The frame follows an update of its host. -/
def followHost
    (frame : Frame)
    (index : ℕ)
    (context : HostContext)
    (current : String) : Frame × List (Event Graph) :=
  let frame := { frame with updates := frame.updates.eraseIdx index }
  match context.graph with
  | none => (frame, [])
  | some text =>
      let incoming := texts.contentOf (texts.parse text)
      let (draft, outcome) := frame.draft.reconcileHostGraph {
        incoming
        current
        draftHeld := context.draftHeld
        graphVersion := context.graphVersion }
      match outcome with
      | .remount => { frame with draft }.remount texts context incoming
      | .echo =>
          ({ frame with
              draft := { draft with hostContent := incoming }.confirmEcho
                incoming current context.revision }, [])
      | .hold => ({ frame with draft }, [])

/-- The instance of a mount renders, unless the mount was replaced. -/
def renderMount
    (frame : Frame)
    (index generation : ℕ) : Frame × List (Event Graph) :=
  let frame := { frame with remounts := frame.remounts.eraseIdx index }
  if frame.draft.disposed ∨ frame.draft.mount.generation ≠ generation then
    (frame, [])
  else
    let (told, events) :=
      if frame.isDirty then
        frame.tellLost frame.renderedGeneration (some frame.shown)
      else
        (frame, [])
    ({ told with renderedGeneration := generation }, events)

/-- A write of the editor is work that the host has not taken yet. -/
def written
    (frame : Frame)
    (projectId text : String) : Frame × List (Event Graph) :=
  let frame := { frame with
    files := Function.update frame.files projectId (some text) }
  if frame.draft.mount.projectId = projectId ∧
      frame.draft.acceptsWrite frame.draft.mount.generation then
    ({ frame with
        draft.writeVersion := frame.draft.writeVersion + 1
        draft.writePending := true
        draftTimer := some frame.draft.mount.generation }, [.dirty true])
  else
    (frame, [])

/-- The timeline of a project has loaded, or its load has failed. -/
def loaded
    (frame : Frame)
    (projectId : String)
    (ok : Bool) : Frame × List (Event Graph) :=
  let (draft, outcome) := frame.draft.loadFinished projectId ok
  match outcome with
  | .loaded =>
      let frame := { frame with draft }
      if draft.mount.generation = 0 ∧ frame.context.graph = none then
        (frame.sendDraft 0, [])
      else
        (frame, [])
  | .failed => ({ frame with isDirty := false }, [.fatal])
  | .ignored => (frame, [])

/-- One step of the frame. -/
def perform
    (frame : Frame) : Step → Frame × List (Event Graph)
  | .edit shown isTimelineLoading =>
      let edited := { frame with
        shown
        isDirty := true
        saveTimer :=
          if !isTimelineLoading ∧
              frame.draft.acceptsWrite frame.draft.mount.generation then
            some frame.draft.mount.generation
          else
            frame.saveTimer }
      (edited, [.dirty true])
  | .markClean =>
      if frame.isDirty then
        ({ frame with isDirty := false },
          [.dirty (frame.draft.writePending || frame.draft.pendingSend)])
      else
        (frame, [])
  | .fireSave =>
      ({ frame with saveTimer := none }, [])
  | .write projectId text =>
      frame.written projectId text
  | .fireDraft =>
      match frame.draftTimer with
      | some generation =>
          ({ frame with draftTimer := none }.sendDraft generation, [])
      | none => (frame, [])
  | .readFile index =>
      match frame.sends[index]? with
      | some send =>
          if send.stage = .begun then
            ({ frame with
                sends := frame.sends.set index
                  { send with stage := .read (frame.files send.projectId) } },
              [])
          else
            (frame, [])
      | none => (frame, [])
  | .goOn index =>
      match frame.sends[index]? with
      | some send =>
          match send.stage with
          | .read text => frame.stage texts index send text
          | _ => (frame, [])
      | none => (frame, [])
  | .answer index answer =>
      match frame.sends[index]? with
      | some send =>
          match send.stage with
          | .staging content => frame.answered index send content answer
          | _ => (frame, [])
      | none => (frame, [])
  | .update context =>
      if frame.draft.disposed then
        (frame, [])
      else
        ({ frame with
            context
            updates := frame.updates ++ [{ context }] }, [])
  | .readCurrent index =>
      match frame.updates[index]? with
      | some update =>
          let text := frame.files frame.draft.mount.projectId
          ({ frame with
              updates := frame.updates.set index { update with
                current := some (texts.contentOf (text.bind texts.parse)) } },
            [])
      | none => (frame, [])
  | .follow index =>
      match frame.updates[index]? with
      | some update =>
          match update.current with
          | some current =>
              frame.followHost texts index update.context current
          | none => (frame, [])
      | none => (frame, [])
  | .resend context =>
      if shouldResendDraft frame.draft.pendingSend context.online
          context.hasLease then
        (frame.sendDraft frame.draft.mount.generation, [])
      else
        (frame, [])
  | .render index =>
      match frame.remounts[index]? with
      | some generation => frame.renderMount index generation
      | none => (frame, [])
  | .load projectId ok =>
      frame.loaded projectId ok
  | .dispose =>
      ({ frame with
          draft.disposed := true
          draftTimer := none
          saveTimer := none }, [])

end Frame

end Perform

end Frameleaf.DraftSync
