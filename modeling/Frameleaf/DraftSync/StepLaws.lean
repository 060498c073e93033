import Frameleaf.DraftSync.Rules

namespace Frameleaf.DraftSync

open Trace

/-!
# What one step of the frame can do

A send is of the mount that was current when it began, with the revisions that
mount had.  A report of lost edits is always of a mount that was replaced, so
the mount that is replaced next can still be reported.
-/

variable {Graph : Type} {texts : GraphTexts Graph}
variable {frame : Frame} {step : Step}

namespace DraftSendState

variable {state : DraftSendState}

variable {generation : ℕ}

theorem acceptsWrite_iff :
    state.acceptsWrite generation = true ↔
      state.disposed = false ∧ state.mount.generation = generation ∧
        state.mount.loaded = true := by
  simp [acceptsWrite, and_assoc]

theorem reportLost_eq
    (generation : ℕ)
    (mark : Option String) :
    ∃ reported shown, (state.reportLost generation mark).1 = { state with
      lostReportedFor := reported
      lostReportedMark := shown } := by
  unfold reportLost
  split
  · exact ⟨_, _, rfl⟩
  · split
    · exact ⟨_, _, rfl⟩
    · exact ⟨_, _, rfl⟩

theorem reportLost_tells
    {mark : Option String}
    (tells : (state.reportLost generation mark).2 = true) :
    state.disposed = false ∧
      (state.reportLost generation mark).1.lostReportedFor =
        some generation ∧
      (state.reportLost generation mark).1.lostReportedMark = mark := by
  unfold reportLost at tells ⊢
  split at tells
  · cases tells
  · split at tells
    · cases tells
    · rename_i open_ fresh
      rw [if_neg open_, if_neg fresh]
      refine ⟨by simpa using open_, rfl, ?_⟩
      dsimp only
      split
      · rfl
      · rename_i same
        simp only [not_or, ne_eq, not_not] at same
        exact absurd ⟨same.1, .inl same.2⟩ fresh

theorem reportLost_silent
    {mark : Option String}
    (silent : (state.reportLost generation mark).2 = false) :
    (state.reportLost generation mark).1 = state ∧
      (state.disposed = true ∨ state.lostReportedFor = some generation ∧
        (mark = none ∨ mark = state.lostReportedMark)) := by
  unfold reportLost at silent ⊢
  split at silent
  · rename_i isDisposed
    exact ⟨by rw [if_pos isDisposed], .inl isDisposed⟩
  · rename_i open_
    split at silent
    · rename_i told
      exact ⟨by rw [if_neg open_, if_pos told], .inr told⟩
    · cases silent

theorem reconcileHostGraph_eq
    (graph : HostGraph) :
    ∃ version, (state.reconcileHostGraph graph).1 = { state with
      mount.graphVersion := version } := by
  unfold reconcileHostGraph
  dsimp only
  split
  · split
    · exact ⟨state.mount.graphVersion, rfl⟩
    · exact ⟨graph.graphVersion, rfl⟩
  · split
    · exact ⟨state.mount.graphVersion, rfl⟩
    · exact ⟨state.mount.graphVersion, rfl⟩

theorem confirmEcho_eq
    (content current : String)
    (revision : ℕ) :
    ∃ confirmed, state.confirmEcho content current revision = { state with
        mount.revision := confirmed } ∧
      (confirmed = state.mount.revision ∨ state.mount.loaded = true ∧
        content = current ∧ confirmed = revision ∧
          state.mount.revision < confirmed) := by
  unfold confirmEcho
  split
  · rename_i confirms
    obtain ⟨loaded, shown, newer⟩ := confirms
    exact ⟨revision, rfl, .inr ⟨loaded, shown, rfl, newer⟩⟩
  · exact ⟨state.mount.revision, rfl, .inl rfl⟩

theorem loadFinished_eq
    (projectId : String)
    (ok : Bool) :
    state.loadFinished projectId ok = (state, .ignored) ∨
      state.loadFinished projectId ok = (state, .failed) ∨
      state.loadFinished projectId ok =
        ({ state with mount.loaded := true }, .loaded) := by
  unfold loadFinished
  split
  · exact .inl rfl
  · split
    · exact .inr (.inl rfl)
    · exact .inr (.inr rfl)

end DraftSendState

/-- A send that was begun in a frame. -/
structure BegunIn
    (frame : Frame)
    (send : Send) : Prop where
  accepted : frame.draft.acceptsWrite send.generation = true
  writeVersion : send.writeVersion = frame.draft.writeVersion
  base : send.base = frame.draft.mount.revision
  version : send.version = frame.draft.mount.graphVersion

/-- A send keeps everything but its stage. -/
def Send.ContinuedBy
    (old send : Send) : Prop :=
  send = { old with stage := send.stage }

/-- The sends of a frame come from the sends of a frame before it. -/
def SendsFrom
    (before after : Frame) : Prop :=
  ∀ send ∈ after.sends,
    (∃ old ∈ before.sends, old.ContinuedBy send) ∨ BegunIn after send

theorem SendsFrom.of_subset
    {after : Frame}
    (subset : after.sends ⊆ frame.sends) :
    SendsFrom frame after :=
  fun send member => .inl ⟨send, subset member, rfl⟩

theorem SendsFrom.of_eq
    {after : Frame}
    (same : after.sends = frame.sends) :
    SendsFrom frame after :=
  SendsFrom.of_subset (same ▸ List.Subset.refl _)

variable {index : ℕ} {send : Send}

theorem SendsFrom.of_set
    {after : Frame}
    {later : Send}
    (atIndex : frame.sends[index]? = some send)
    (isSet : after.sends = frame.sends.set index later)
    (continued : send.ContinuedBy later) :
    SendsFrom frame after := by
  intro found member
  rw [isSet] at member
  rcases List.mem_or_eq_of_mem_set member with old | isLater
  · exact .inl ⟨found, old, rfl⟩
  · rw [isLater]
    exact .inl ⟨send, List.mem_of_getElem? atIndex, continued⟩

theorem SendsFrom.sendDraft
    {between : Frame}
    (generation : ℕ)
    (sendsFrom : between.sends ⊆ frame.sends) :
    SendsFrom frame (between.sendDraft generation) := by
  unfold Frame.sendDraft
  split
  · rename_i accepted
    intro send member
    rcases List.mem_append.mp member with old | isNew
    · exact .inl ⟨send, sendsFrom old, rfl⟩
    · cases List.mem_singleton.mp isNew
      exact .inr ⟨accepted, rfl, rfl, rfl⟩
  · exact SendsFrom.of_subset sendsFrom

theorem seedProject_sends
    (projectId : String) :
    (frame.seedProject texts projectId).sends = frame.sends := by
  unfold Frame.seedProject
  split
  · rfl
  · rfl

variable {context : HostContext}

theorem remount_sends
    {incoming : String} :
    (frame.remount texts context incoming).1.sends = frame.sends := by
  unfold Frame.remount
  dsimp only
  rw [seedProject_sends]
  split
  · rfl
  · rfl

variable {current : String}

theorem followHost_sends :
    (frame.followHost texts index context current).1.sends =
      frame.sends := by
  unfold Frame.followHost
  dsimp only
  split
  · rfl
  · split
    · exact remount_sends
    · rfl
    · rfl

theorem renderMount_sends
    {generation : ℕ} :
    (frame.renderMount index generation : Frame × List (Event Graph)).1.sends =
      frame.sends := by
  unfold Frame.renderMount
  dsimp only
  split
  · rfl
  · split
    · rfl
    · rfl

/-- Every step's sends come from the sends before it. -/
theorem sendsFrom_perform
    (frame : Frame)
    (step : Step) :
    SendsFrom frame (frame.perform texts step).1 := by
  cases step with
  | edit shown isTimelineLoading =>
      exact SendsFrom.of_eq rfl
  | markClean =>
      simp only [Frame.perform]
      split
      · exact SendsFrom.of_eq rfl
      · exact SendsFrom.of_eq rfl
  | fireSave =>
      exact SendsFrom.of_eq rfl
  | write projectId text =>
      simp only [Frame.perform, Frame.written]
      split
      · exact SendsFrom.of_eq rfl
      · exact SendsFrom.of_eq rfl
  | fireDraft =>
      simp only [Frame.perform]
      split
      · exact SendsFrom.sendDraft _ (List.Subset.refl _)
      · exact SendsFrom.of_eq rfl
  | readFile index =>
      simp only [Frame.perform]
      split
      · rename_i send atIndex
        split
        · exact SendsFrom.of_set atIndex rfl rfl
        · exact SendsFrom.of_eq rfl
      · exact SendsFrom.of_eq rfl
  | goOn index =>
      simp only [Frame.perform]
      split
      · rename_i send atIndex
        split
        · rename_i text reading
          unfold Frame.stage
          dsimp only
          split
          · exact SendsFrom.of_subset List.eraseIdx_subset
          · split
            · exact SendsFrom.of_subset List.eraseIdx_subset
            · split
              · split
                · exact SendsFrom.of_subset List.eraseIdx_subset
                · exact SendsFrom.of_subset List.eraseIdx_subset
              · exact SendsFrom.of_set atIndex rfl rfl
        · exact SendsFrom.of_eq rfl
      · exact SendsFrom.of_eq rfl
  | answer index answer =>
      simp only [Frame.perform]
      split
      · rename_i send atIndex
        split
        · rename_i content staging
          unfold Frame.answered
          dsimp only
          split
          · split
            · exact SendsFrom.of_subset List.eraseIdx_subset
            · exact SendsFrom.of_subset List.eraseIdx_subset
          · split
            · exact SendsFrom.of_subset List.eraseIdx_subset
            · split
              · exact SendsFrom.sendDraft _ List.eraseIdx_subset
              · split
                · exact SendsFrom.of_subset List.eraseIdx_subset
                · exact SendsFrom.of_subset List.eraseIdx_subset
        · exact SendsFrom.of_eq rfl
      · exact SendsFrom.of_eq rfl
  | update context =>
      simp only [Frame.perform]
      split
      · exact SendsFrom.of_eq rfl
      · exact SendsFrom.of_eq rfl
  | readCurrent index =>
      simp only [Frame.perform]
      split
      · exact SendsFrom.of_eq rfl
      · exact SendsFrom.of_eq rfl
  | follow index =>
      simp only [Frame.perform]
      split
      · split
        · exact SendsFrom.of_eq followHost_sends
        · exact SendsFrom.of_eq rfl
      · exact SendsFrom.of_eq rfl
  | resend context =>
      simp only [Frame.perform]
      split
      · exact SendsFrom.sendDraft _ (List.Subset.refl _)
      · exact SendsFrom.of_eq rfl
  | render index =>
      simp only [Frame.perform]
      split
      · exact SendsFrom.of_eq renderMount_sends
      · exact SendsFrom.of_eq rfl
  | load projectId ok =>
      simp only [Frame.perform, Frame.loaded]
      split
      · split
        · exact SendsFrom.sendDraft _ (List.Subset.refl _)
        · exact SendsFrom.of_eq rfl
      · exact SendsFrom.of_eq rfl
      · exact SendsFrom.of_eq rfl
  | dispose =>
      exact SendsFrom.of_eq rfl

/-- Events that tell of no lost edit and stage no draft. -/
def Silent
    (events : List (Event Graph)) : Prop :=
  ∀ event ∈ events, ∃ dirty, event = .dirty dirty ∨ event = .fatal

theorem silent_dirty
    (dirty : Bool) :
    Silent [(.dirty dirty : Event Graph)] := by
  intro event member
  cases List.mem_singleton.mp member
  exact ⟨dirty, .inl rfl⟩

/-- The instance on screen and those that will render stay the same. -/
structure SameScreen
    (before after : Frame) : Prop where
  rendered : after.renderedGeneration = before.renderedGeneration
  remounts : after.remounts = before.remounts

/-- A mount that was just begun, of a state before it. -/
structure JustBegun
    (before after : DraftSendState) : Prop where
  generation : after.mount.generation = before.mount.generation + 1
  loaded : after.mount.loaded = false
  disposed : after.disposed = before.disposed
  lostReportedFor : after.lostReportedFor = before.lostReportedFor
  lostReportedMark : after.lostReportedMark = before.lostReportedMark

/-- Edits of a mount are reported lost, unless they were. -/
structure Reports
    (before after : DraftSendState)
    (generation : ℕ)
    (mark : Option String)
    (events : List (Event Graph)) : Prop where
  draft : after = (before.reportLost generation mark).1
  events : events = if (before.reportLost generation mark).2 then
    [.lost generation mark] else []

/-- The frame has edits that no draft holds yet. -/
def Frame.unsent
    (frame : Frame) : Bool :=
  frame.draftTimer.isSome || frame.saveTimer.isSome || frame.isDirty

/-- The send that goes on in a step. -/
def Step.sendIndex : Step → Option ℕ
  | .goOn index => some index
  | .answer index _ => some index
  | _ => none

/-- What one step can do to the drafts and the screen. -/
inductive Change
    (texts : GraphTexts Graph)
    (frame : Frame) :
    Step → Frame → List (Event Graph) → Prop where
  | idle {step after}
      (draft : after.draft = frame.draft)
      (screen : SameScreen frame after) :
      Change texts frame step after []
  | quiet {step after events}
      (noSend : step.sendIndex = none)
      (draft : after.draft = frame.draft)
      (screen : SameScreen frame after)
      (silent : Silent events) :
      Change texts frame step after events
  | wrote {projectId text after events}
      (ours : frame.draft.mount.projectId = projectId)
      (accepted : frame.draft.acceptsWrite
        frame.draft.mount.generation = true)
      (draft : after.draft = { frame.draft with
        writeVersion := frame.draft.writeVersion + 1
        writePending := true })
      (screen : SameScreen frame after)
      (silent : Silent events) :
      Change texts frame (.write projectId text) after events
  | held {index send text graph after events}
      (atIndex : frame.sends[index]? = some send)
      (reading : send.stage = .read text)
      (parses : text.bind texts.parse = some graph)
      (holds : texts.contentOf (some graph) = frame.draft.hostContent)
      (newest : frame.draft.writeVersion = send.writeVersion)
      (draft : after.draft = { frame.draft with writePending := false })
      (screen : SameScreen frame after)
      (silent : Silent events) :
      Change texts frame (.goOn index) after events
  | stages {index send draft after}
      (atIndex : frame.sends[index]? = some send)
      (accepted : frame.draft.acceptsWrite send.generation = true)
      (carries : draft.generation = send.generation ∧
        draft.baseRevision = send.base ∧ draft.graphVersion = send.version)
      (same : after.draft = frame.draft)
      (screen : SameScreen frame after) :
      Change texts frame (.goOn index) after [.stageDraft draft]
  | taken {index send content after}
      (atIndex : frame.sends[index]? = some send)
      (accepted : frame.draft.acceptsWrite send.generation = true)
      (draft : after.draft = { frame.draft with
        hostContent := content
        pendingSend := false
        pendingSuperseded := false
        writePending := frame.draft.writeVersion ≠ send.writeVersion })
      (screen : SameScreen frame after) :
      Change texts frame (.answer index .staged) after
        [.dirty (frame.draft.writeVersion ≠ send.writeVersion ||
          frame.isDirty)]
  | refused {index answer pending superseded after}
      (draft : after.draft = { frame.draft with
        pendingSend := pending
        pendingSuperseded := superseded })
      (screen : SameScreen frame after) :
      Change texts frame (.answer index answer) after [.dirty true]
  | late {index send answer after events}
      (atIndex : frame.sends[index]? = some send)
      (notAccepted : frame.draft.acceptsWrite send.generation = false)
      (reports : Reports frame.draft after.draft send.generation none events)
      (screen : SameScreen frame after) :
      Change texts frame (.answer index answer) after events
  | replaced {index update current begun mark after events}
      (isBegun : JustBegun frame.draft begun)
      (reports : frame.draft.editsLostOnRemount frame.unsent = true →
        Reports begun after.draft frame.draft.mount.generation mark events)
      (nothingLost : frame.draft.editsLostOnRemount frame.unsent = false →
        after.draft = begun ∧ events = [])
      (atIndex : frame.updates[index]? = some update)
      (hasRead : update.current = some current)
      (rendered : after.renderedGeneration = frame.renderedGeneration)
      (remounts : after.remounts =
        frame.remounts ++ [frame.draft.mount.generation + 1]) :
      Change texts frame (.follow index) after events
  | followed {index update current text content version revision after}
      (atIndex : frame.updates[index]? = some update)
      (hasRead : update.current = some current)
      (hasGraph : update.context.graph = some text)
      (draft : after.draft = { frame.draft with
        hostContent := content
        mount.graphVersion := version
        mount.revision := revision })
      (confirms : revision = frame.draft.mount.revision ∨
        frame.draft.mount.loaded = true ∧
          texts.contentOf (texts.parse text) = current ∧
          revision = update.context.revision ∧
          frame.draft.mount.revision < revision)
      (screen : SameScreen frame after) :
      Change texts frame (.follow index) after []
  | rendered {index generation after events}
      (atIndex : frame.remounts[index]? = some generation)
      (isOpen : frame.draft.disposed = false)
      (current : frame.draft.mount.generation = generation)
      (reports : frame.isDirty = true → Reports frame.draft after.draft
        frame.renderedGeneration (some frame.shown) events)
      (nothingLost : frame.isDirty = false →
        after.draft = frame.draft ∧ events = [])
      (screen : after.renderedGeneration = generation)
      (remounts : after.remounts = frame.remounts.eraseIdx index) :
      Change texts frame (.render index) after events
  | skipped {index after}
      (notCurrent : frame.draft.disposed = true ∨
        ∃ generation, frame.remounts[index]? = some generation ∧
          frame.draft.mount.generation ≠ generation)
      (draft : after.draft = frame.draft)
      (rendered : after.renderedGeneration = frame.renderedGeneration)
      (remounts : after.remounts = frame.remounts.eraseIdx index) :
      Change texts frame (.render index) after []
  | loads {projectId ok after}
      (draft : after.draft = { frame.draft with mount.loaded := true })
      (screen : SameScreen frame after) :
      Change texts frame (.load projectId ok) after []
  | disposes {after}
      (draft : after.draft = { frame.draft with disposed := true })
      (screen : SameScreen frame after) :
      Change texts frame .dispose after []

theorem sendDraft_aside
    (frame : Frame)
    (generation : ℕ) :
    (frame.sendDraft generation).draft = frame.draft ∧
      SameScreen frame (frame.sendDraft generation) := by
  unfold Frame.sendDraft
  split
  · exact ⟨rfl, rfl, rfl⟩
  · exact ⟨rfl, rfl, rfl⟩

theorem change_written
    (projectId text : String) :
    Change texts frame (.write projectId text)
      (frame.written projectId text : Frame × List (Event Graph)).1
      (frame.written projectId text).2 := by
  unfold Frame.written
  dsimp only
  split
  · rename_i accepted
    exact .wrote accepted.1 accepted.2 rfl ⟨rfl, rfl⟩ (silent_dirty true)
  · exact .idle rfl ⟨rfl, rfl⟩

theorem change_stage
    {text : Option String}
    (atIndex : frame.sends[index]? = some send)
    (reading : send.stage = .read text) :
    Change texts frame (.goOn index)
      (frame.stage texts index send text).1
      (frame.stage texts index send text).2 := by
  unfold Frame.stage
  dsimp only
  split
  · exact .idle rfl ⟨rfl, rfl⟩
  · rename_i refused
    have accepted : frame.draft.acceptsWrite send.generation = true := by
      simpa using refused
    split
    · exact .idle rfl ⟨rfl, rfl⟩
    · rename_i graph parses
      split
      · rename_i holds
        split
        · rename_i newest
          exact .held atIndex reading parses holds newest rfl ⟨rfl, rfl⟩
            (silent_dirty _)
        · exact .idle rfl ⟨rfl, rfl⟩
      · exact .stages atIndex accepted ⟨rfl, rfl, rfl⟩ rfl ⟨rfl, rfl⟩

theorem change_answered
    {content : String}
    (answer : StageAnswer)
    (atIndex : frame.sends[index]? = some send) :
    Change texts frame (.answer index answer)
      (frame.answered index send content answer :
        Frame × List (Event Graph)).1
      (frame.answered index send content answer).2 := by
  unfold Frame.answered
  dsimp only
  split
  · rename_i refused
    have notAccepted : frame.draft.acceptsWrite send.generation = false := by
      simpa using refused
    split
    · exact .late atIndex notAccepted ⟨rfl, rfl⟩ ⟨rfl, rfl⟩
    · exact .idle rfl ⟨rfl, rfl⟩
  · rename_i refused
    have accepted : frame.draft.acceptsWrite send.generation = true := by
      simpa using refused
    split
    · rename_i isStaged
      rw [isStaged]
      exact .taken atIndex accepted rfl ⟨rfl, rfl⟩
    · split
      · obtain ⟨sameDraft, rendered, remounts⟩ :=
          sendDraft_aside { frame with sends := frame.sends.eraseIdx index }
            send.generation
        exact .idle sameDraft ⟨rendered, remounts⟩
      · split
        · exact .refused rfl ⟨rfl, rfl⟩
        · exact .refused rfl ⟨rfl, rfl⟩

/-- Seeding a project leaves the drafts. -/
@[simp] theorem seedProject_draft
    (projectId : String) :
    (frame.seedProject texts projectId).draft = frame.draft := by
  unfold Frame.seedProject
  split
  · rfl
  · rfl

/-- Seeding a project leaves the instance on screen. -/
@[simp] theorem seedProject_rendered
    (projectId : String) :
    (frame.seedProject texts projectId).renderedGeneration =
      frame.renderedGeneration := by
  unfold Frame.seedProject
  split
  · rfl
  · rfl

theorem reconcileHostGraph_remount
    {state : DraftSendState}
    {graph : HostGraph}
    (replaces : (state.reconcileHostGraph graph).2 = .remount) :
    (state.reconcileHostGraph graph).1 = state := by
  unfold DraftSendState.reconcileHostGraph at replaces ⊢
  dsimp only at replaces ⊢
  split at replaces
  · rename_i newer
    rw [if_pos newer]
    split at replaces
    · rename_i other
      rw [if_pos other]
    · split at replaces
      · cases replaces
      · cases replaces
  · rename_i known
    rw [if_neg known]
    split
    · rfl
    · rfl

/-- What it does to replace the instance. -/
theorem change_remount
    {update : HostUpdate}
    {incoming : String}
    {before : Frame}
    (atIndex : before.updates[index]? = some update)
    (hasRead : update.current = some current)
    (sameDraft : frame.draft = before.draft)
    (screen : SameScreen before frame)
    (sameUnsent : frame.unsent = before.unsent) :
    Change texts before (.follow index)
      (frame.remount texts context incoming).1
      (frame.remount texts context incoming).2 := by
  unfold Frame.remount
  dsimp only
  generalize frame.engineProjectId ++ "-m" ++
    toString (frame.draft.mount.generation + 1) = projectId
  generalize (if frame.draft.mount.generation = frame.renderedGeneration then
    some frame.shown else none) = mark
  have isBegun : JustBegun before.draft
      { frame.draft.beginMount projectId context.revision
        context.graphVersion with hostContent := incoming } := by
    rw [← sameDraft]
    exact ⟨rfl, rfl, rfl, rfl, rfl⟩
  split
  · rename_i lost
    refine .replaced isBegun
      (fun _ => (⟨?_, ?_⟩ : Reports _ _ _ mark _)) ?_ atIndex hasRead ?_ ?_
    · rw [seedProject_draft, ← sameDraft]
      rfl
    · rw [← sameDraft]
      rfl
    · intro nothing
      rw [← sameDraft, ← sameUnsent] at nothing
      cases lost.symm.trans nothing
    · rw [seedProject_rendered]
      exact screen.rendered
    · rw [← sameDraft]
      exact congrArg (· ++ _) screen.remounts
  · rename_i nothing
    refine .replaced isBegun
      (fun lost => (absurd lost ?_ : Reports _ _ _ mark _))
      (fun _ => ⟨?_, rfl⟩) atIndex hasRead ?_ ?_
    · rw [← sameDraft, ← sameUnsent]
      exact nothing
    · rw [seedProject_draft]
    · rw [seedProject_rendered]
      exact screen.rendered
    · rw [← sameDraft]
      exact congrArg (· ++ _) screen.remounts

theorem change_followHost
    {update : HostUpdate}
    (atIndex : frame.updates[index]? = some update)
    (hasRead : update.current = some current) :
    Change texts frame (.follow index)
      (frame.followHost texts index update.context current).1
      (frame.followHost texts index update.context current).2 := by
  unfold Frame.followHost
  dsimp only
  split
  · exact .idle rfl ⟨rfl, rfl⟩
  · rename_i text hasGraph
    split
    · rename_i replaces
      exact change_remount atIndex hasRead
        (reconcileHostGraph_remount replaces) ⟨rfl, rfl⟩ rfl
    · obtain ⟨version, isMoved⟩ :=
        frame.draft.reconcileHostGraph_eq {
          incoming := texts.contentOf (texts.parse text)
          current
          draftHeld := update.context.draftHeld
          graphVersion := update.context.graphVersion }
      rw [isMoved]
      obtain ⟨revision, isConfirmed, confirms⟩ :=
        DraftSendState.confirmEcho_eq (texts.contentOf (texts.parse text))
          current update.context.revision
      exact .followed atIndex hasRead hasGraph isConfirmed confirms ⟨rfl, rfl⟩
    · obtain ⟨version, isMoved⟩ :=
        frame.draft.reconcileHostGraph_eq {
          incoming := texts.contentOf (texts.parse text)
          current
          draftHeld := update.context.draftHeld
          graphVersion := update.context.graphVersion }
      rw [isMoved]
      exact .followed atIndex hasRead hasGraph rfl (.inl rfl) ⟨rfl, rfl⟩

theorem change_renderMount
    {generation : ℕ}
    (atIndex : frame.remounts[index]? = some generation) :
    Change texts frame (.render index)
      (frame.renderMount index generation : Frame × List (Event Graph)).1
      (frame.renderMount index generation).2 := by
  unfold Frame.renderMount
  dsimp only
  split
  · rename_i notCurrent
    refine .skipped ?_ rfl rfl rfl
    rcases notCurrent with isDisposed | other
    · exact .inl isDisposed
    · exact .inr ⟨generation, atIndex, other⟩
  · rename_i isCurrent
    rw [not_or, Bool.not_eq_true, not_not] at isCurrent
    split
    · rename_i isDirty
      refine .rendered atIndex isCurrent.1 isCurrent.2 (fun _ => ⟨rfl, rfl⟩)
        ?_ rfl rfl
      intro clean
      cases isDirty.symm.trans clean
    · rename_i clean
      refine .rendered atIndex isCurrent.1 isCurrent.2 ?_
        (fun _ => ⟨rfl, rfl⟩) rfl rfl
      intro isDirty
      exact absurd isDirty clean

theorem change_loaded
    (projectId : String)
    (ok : Bool) :
    Change texts frame (.load projectId ok)
      (frame.loaded projectId ok : Frame × List (Event Graph)).1
      (frame.loaded projectId ok).2 := by
  unfold Frame.loaded
  rcases DraftSendState.loadFinished_eq projectId ok with
    ignored | failed | isLoaded
  · rw [ignored]
    exact .idle rfl ⟨rfl, rfl⟩
  · rw [failed]
    refine .quiet rfl rfl ⟨rfl, rfl⟩ ?_
    intro event member
    exact ⟨false, .inr (List.mem_singleton.mp member)⟩
  · rw [isLoaded]
    dsimp only
    split
    · obtain ⟨sameDraft, screen⟩ := sendDraft_aside
        { frame with draft := { frame.draft with mount.loaded := true } } 0
      exact .loads sameDraft ⟨screen.rendered, screen.remounts⟩
    · exact .loads rfl ⟨rfl, rfl⟩

/-- What one step does. -/
theorem change_perform
    (frame : Frame)
    (step : Step) :
    Change texts frame step (frame.perform texts step).1
      (frame.perform texts step).2 := by
  cases step with
  | edit shown isTimelineLoading =>
      exact .quiet rfl rfl ⟨rfl, rfl⟩ (silent_dirty true)
  | markClean =>
      simp only [Frame.perform]
      split
      · exact .quiet rfl rfl ⟨rfl, rfl⟩ (silent_dirty _)
      · exact .idle rfl ⟨rfl, rfl⟩
  | fireSave =>
      exact .idle rfl ⟨rfl, rfl⟩
  | write projectId text =>
      exact change_written projectId text
  | fireDraft =>
      simp only [Frame.perform]
      split
      · rename_i generation _
        obtain ⟨sameDraft, screen⟩ :=
          sendDraft_aside { frame with draftTimer := none } generation
        exact .idle sameDraft ⟨screen.rendered, screen.remounts⟩
      · exact .idle rfl ⟨rfl, rfl⟩
  | readFile index =>
      simp only [Frame.perform]
      split
      · split
        · exact .idle rfl ⟨rfl, rfl⟩
        · exact .idle rfl ⟨rfl, rfl⟩
      · exact .idle rfl ⟨rfl, rfl⟩
  | goOn index =>
      simp only [Frame.perform]
      split
      · rename_i send atIndex
        split
        · rename_i text reading
          exact change_stage atIndex reading
        · exact .idle rfl ⟨rfl, rfl⟩
      · exact .idle rfl ⟨rfl, rfl⟩
  | answer index answer =>
      simp only [Frame.perform]
      split
      · rename_i send atIndex
        split
        · exact change_answered answer atIndex
        · exact .idle rfl ⟨rfl, rfl⟩
      · exact .idle rfl ⟨rfl, rfl⟩
  | update context =>
      simp only [Frame.perform]
      split
      · exact .idle rfl ⟨rfl, rfl⟩
      · exact .idle rfl ⟨rfl, rfl⟩
  | readCurrent index =>
      simp only [Frame.perform]
      split
      · exact .idle rfl ⟨rfl, rfl⟩
      · exact .idle rfl ⟨rfl, rfl⟩
  | follow index =>
      simp only [Frame.perform]
      split
      · rename_i update atIndex
        split
        · rename_i current hasRead
          exact change_followHost atIndex hasRead
        · exact .idle rfl ⟨rfl, rfl⟩
      · exact .idle rfl ⟨rfl, rfl⟩
  | resend context =>
      simp only [Frame.perform]
      split
      · obtain ⟨sameDraft, screen⟩ :=
          sendDraft_aside frame frame.draft.mount.generation
        exact .idle sameDraft screen
      · exact .idle rfl ⟨rfl, rfl⟩
  | render index =>
      simp only [Frame.perform]
      split
      · rename_i generation atIndex
        exact change_renderMount atIndex
      · exact .idle rfl ⟨rfl, rfl⟩
  | load projectId ok =>
      exact change_loaded projectId ok
  | dispose =>
      exact .disposes rfl ⟨rfl, rfl⟩

end Frameleaf.DraftSync
