import Frameleaf.DraftSync.StepLaws
import Mathlib.Data.List.Induction

namespace Frameleaf.DraftSync

open Trace

/-!
# No edit is lost without a word

In every run of a frame a draft carries the revisions its mount had when the
send began, an answer to an older send leaves a newer write waiting, a revision
advances only by a confirmed echo, and edits that go with a replaced mount are
told.
-/

variable {Graph : Type} {texts : GraphTexts Graph}
variable {frame after start : Frame} {step : Step} {steps : List Step}
variable {events : List (Event Graph)}

variable {before later : DraftSendState} {generation index version : ℕ}
  {mark : Option String}

theorem Reports.draft_eq
    (reports : Reports before later generation mark events) :
    ∃ reported shown, later = { before with
      lostReportedFor := reported
      lostReportedMark := shown } := by
  rw [reports.draft]
  exact before.reportLost_eq generation mark

theorem Reports.reportedFor
    {reported : ℕ}
    (reports : Reports before later generation mark events)
    (isReported : later.lostReportedFor = some reported) :
    (reported = generation ∧ before.disposed = false ∧
        later.lostReportedMark = mark ∧ events = [.lost generation mark]) ∨
      (before.lostReportedFor = some reported ∧
        later.lostReportedMark = before.lostReportedMark) := by
  cases tells : (before.reportLost generation mark).2 with
  | true =>
      obtain ⟨isOpen, isFor, isMark⟩ :=
        DraftSendState.reportLost_tells tells
      rw [← reports.draft] at isFor isMark
      rw [isFor] at isReported
      cases isReported
      exact .inl ⟨rfl, isOpen, isMark, by rw [reports.events, if_pos tells]⟩
  | false =>
      obtain ⟨unchanged, _⟩ := DraftSendState.reportLost_silent tells
      rw [← reports.draft] at unchanged
      rw [unchanged] at isReported ⊢
      exact .inr ⟨isReported, rfl⟩

variable {asked : Bool}

theorem draft_of_reports
    (reports : asked = true → Reports before later generation mark events)
    (nothingLost : asked = false → later = before ∧ events = []) :
    ∃ reported shown, later = { before with
      lostReportedFor := reported
      lostReportedMark := shown } := by
  cases asked with
  | true => exact (reports rfl).draft_eq
  | false => exact ⟨_, _, (nothingLost rfl).1⟩

theorem mount_of_reports
    (reports : asked = true → Reports before later generation mark events)
    (nothingLost : asked = false → later = before ∧ events = []) :
    later.mount = before.mount := by
  obtain ⟨_, _, isLater⟩ := draft_of_reports reports nothingLost
  rw [isLater]

theorem reportedFor_of_reports
    {reported : ℕ}
    (reports : asked = true → Reports before later generation mark events)
    (nothingLost : asked = false → later = before ∧ events = [])
    (isReported : later.lostReportedFor = some reported) :
    (reported = generation ∧ before.disposed = false ∧
        later.lostReportedMark = mark ∧ events = [.lost generation mark]) ∨
      (before.lostReportedFor = some reported ∧
        later.lostReportedMark = before.lostReportedMark) := by
  cases asked with
  | true =>
      exact (reports rfl).reportedFor isReported
  | false =>
      rw [(nothingLost rfl).1] at isReported ⊢
      exact .inr ⟨isReported, rfl⟩

theorem Change.mount
    (change : Change texts frame step after events) :
    (after.draft.mount.generation = frame.draft.mount.generation ∧
      (frame.draft.mount.loaded = true → after.draft.mount.loaded = true)) ∨
    (after.draft.mount.generation = frame.draft.mount.generation + 1 ∧
      ∃ index, step = .follow index) := by
  cases change with
  | idle draft => exact .inl (by simp [draft])
  | quiet _ draft => exact .inl (by simp [draft])
  | wrote _ _ draft => exact .inl (by simp [draft])
  | held _ _ _ _ _ draft => exact .inl (by simp [draft])
  | stages _ _ _ draft => exact .inl (by simp [draft])
  | taken _ _ draft => exact .inl (by simp [draft])
  | refused draft => exact .inl (by simp [draft])
  | late _ _ reports =>
      obtain ⟨_, _, draft⟩ := reports.draft_eq
      exact .inl (by simp [draft])
  | replaced isBegun reports nothingLost =>
      right
      rw [mount_of_reports reports nothingLost]
      exact ⟨isBegun.generation, _, rfl⟩
  | followed _ _ _ draft => exact .inl (by simp [draft])
  | rendered _ _ _ reports nothingLost =>
      exact .inl (by simp [mount_of_reports reports nothingLost])
  | skipped _ draft => exact .inl (by simp [draft])
  | loads draft => exact .inl (by simp [draft])
  | disposes draft => exact .inl (by simp [draft])

theorem Change.generation_le
    (change : Change texts frame step after events) :
    frame.draft.mount.generation ≤ after.draft.mount.generation := by
  rcases change.mount with ⟨same, _⟩ | ⟨next, _⟩
  · exact Nat.le_of_eq same.symm
  · exact next ▸ Nat.le_succ _

/-- What a frame knows of the mounts that were. -/
structure Sound
    (frame : Frame) : Prop where
  reportedOld : ∀ generation,
    frame.draft.lostReportedFor = some generation →
      generation < frame.draft.mount.generation
  renderedOld :
    frame.renderedGeneration ≤ frame.draft.mount.generation
  remountsOld : ∀ generation ∈ frame.remounts,
    generation ≤ frame.draft.mount.generation
  remountsDiffer : frame.remounts.Nodup
  awaitsRender : frame.draft.mount.generation ∈ frame.remounts →
    frame.renderedGeneration < frame.draft.mount.generation
  sendsOld : ∀ send ∈ frame.sends,
    send.generation ≤ frame.draft.mount.generation ∧
      (send.generation = frame.draft.mount.generation →
        frame.draft.mount.loaded = true)

theorem sound_newFrame
    {engineProjectId shown hostContent : String}
    {context : HostContext}
    {files : String → Option String} :
    Sound (newFrame engineProjectId shown context hostContent files) where
  reportedOld := nofun
  renderedOld := Nat.le_refl _
  remountsOld := nofun
  remountsDiffer := List.nodup_nil
  awaitsRender := nofun
  sendsOld := nofun

theorem Sound.sends
    (sound : Sound frame)
    (change : Change texts frame step after events)
    (sendsFrom : SendsFrom frame after) :
    ∀ send ∈ after.sends,
      send.generation ≤ after.draft.mount.generation ∧
        (send.generation = after.draft.mount.generation →
          after.draft.mount.loaded = true) := by
  intro send member
  rcases sendsFrom send member with ⟨old, inBefore, continued⟩ | begun
  · rw [continued]
    obtain ⟨older, loaded⟩ := sound.sendsOld old inBefore
    refine ⟨Nat.le_trans older change.generation_le, fun isCurrent => ?_⟩
    rcases change.mount with ⟨same, keeps⟩ | ⟨next, _⟩
    · exact keeps (loaded (isCurrent.trans same))
    · change old.generation = _ at isCurrent
      omega
  · obtain ⟨_, isCurrent, loaded⟩ :=
      DraftSendState.acceptsWrite_iff.mp begun.accepted
    exact ⟨Nat.le_of_eq isCurrent.symm, fun _ => loaded⟩

theorem Sound.send_replaced
    {send : Send}
    (sound : Sound frame)
    (atIndex : frame.sends[index]? = some send)
    (notAccepted : frame.draft.acceptsWrite send.generation = false)
    (isOpen : frame.draft.disposed = false) :
    send.generation < frame.draft.mount.generation := by
  obtain ⟨old, loaded⟩ :=
    sound.sendsOld send (List.mem_of_getElem? atIndex)
  apply Nat.lt_of_le_of_ne old
  intro isCurrent
  have accepted := DraftSendState.acceptsWrite_iff.mpr
    ⟨isOpen, isCurrent.symm, loaded isCurrent⟩
  cases accepted.symm.trans notAccepted

/-- What is reported is of a mount that was replaced. -/
theorem Sound.reported
    (sound : Sound frame)
    (change : Change texts frame step after events) :
    ∀ generation, after.draft.lostReportedFor = some generation →
      generation < after.draft.mount.generation := by
  intro generation isReported
  have known (same : after.draft.lostReportedFor =
      frame.draft.lostReportedFor) :
      generation < after.draft.mount.generation :=
    Nat.lt_of_lt_of_le (sound.reportedOld generation (same ▸ isReported))
      change.generation_le
  cases change with
  | idle draft => exact known (by rw [draft])
  | quiet _ draft => exact known (by rw [draft])
  | wrote _ _ draft => exact known (by rw [draft])
  | held _ _ _ _ _ draft => exact known (by rw [draft])
  | stages _ _ _ draft => exact known (by rw [draft])
  | taken _ _ draft => exact known (by rw [draft])
  | refused draft => exact known (by rw [draft])
  | late atIndex notAccepted reports =>
      obtain ⟨_, _, isLater⟩ := reports.draft_eq
      rw [isLater]
      rcases reports.reportedFor isReported with
        ⟨isSend, isOpen, _⟩ | ⟨before, _⟩
      · rw [isSend]
        exact sound.send_replaced atIndex notAccepted isOpen
      · exact sound.reportedOld generation before
  | replaced isBegun reports nothingLost =>
      rw [mount_of_reports reports nothingLost, isBegun.generation]
      rcases reportedFor_of_reports reports nothingLost isReported with
        ⟨isMount, _⟩ | ⟨before, _⟩
      · exact Nat.lt_succ_of_le (Nat.le_of_eq isMount)
      · rw [isBegun.lostReportedFor] at before
        exact Nat.lt_succ_of_lt (sound.reportedOld generation before)
  | followed _ _ _ draft => exact known (by rw [draft])
  | rendered atIndex isOpen current reports nothingLost =>
      rw [mount_of_reports reports nothingLost]
      rcases reportedFor_of_reports reports nothingLost isReported with
        ⟨isRendered, _⟩ | ⟨before, _⟩
      · rw [isRendered]
        apply sound.awaitsRender
        rw [current]
        exact List.mem_of_getElem? atIndex
      · exact sound.reportedOld generation before
  | skipped _ draft => exact known (by rw [draft])
  | loads draft => exact known (by rw [draft])
  | disposes draft => exact known (by rw [draft])

theorem Sound.screen
    (sound : Sound frame)
    (change : Change texts frame step after events)
    (screen : SameScreen frame after)
    (sameMount : after.draft.mount.generation =
      frame.draft.mount.generation)
    (sendsFrom : SendsFrom frame after) :
    Sound after where
  reportedOld := sound.reported change
  renderedOld := by
    rw [screen.rendered, sameMount]
    exact sound.renderedOld
  remountsOld := by
    rw [screen.remounts, sameMount]
    exact sound.remountsOld
  remountsDiffer := by
    rw [screen.remounts]
    exact sound.remountsDiffer
  awaitsRender := by
    rw [screen.rendered, screen.remounts, sameMount]
    exact sound.awaitsRender
  sendsOld := sound.sends change sendsFrom

/-- Every step keeps what a frame knows of the mounts that were. -/
theorem Sound.change
    (sound : Sound frame)
    (change : Change texts frame step after events)
    (sendsFrom : SendsFrom frame after) :
    Sound after := by
  have whole := change
  cases change with
  | idle draft screen =>
      exact sound.screen whole screen (by rw [draft]) sendsFrom
  | quiet _ draft screen =>
      exact sound.screen whole screen (by rw [draft]) sendsFrom
  | wrote _ _ draft screen =>
      exact sound.screen whole screen (by rw [draft]) sendsFrom
  | held _ _ _ _ _ draft screen =>
      exact sound.screen whole screen (by rw [draft]) sendsFrom
  | stages _ _ _ draft screen =>
      exact sound.screen whole screen (by rw [draft]) sendsFrom
  | taken _ _ draft screen =>
      exact sound.screen whole screen (by rw [draft]) sendsFrom
  | refused draft screen =>
      exact sound.screen whole screen (by rw [draft]) sendsFrom
  | late _ _ reports screen =>
      obtain ⟨_, _, draft⟩ := reports.draft_eq
      exact sound.screen whole screen (by rw [draft]) sendsFrom
  | replaced isBegun reports nothingLost _ _ rendered remounts =>
      have next : after.draft.mount.generation =
          frame.draft.mount.generation + 1 := by
        rw [mount_of_reports reports nothingLost, isBegun.generation]
      have fresh : frame.draft.mount.generation + 1 ∉ frame.remounts :=
        fun member => absurd (sound.remountsOld _ member)
          (Nat.not_succ_le_self _)
      refine ⟨sound.reported whole, ?_, ?_, ?_, ?_,
        sound.sends whole sendsFrom⟩
      · rw [rendered, next]
        exact Nat.le_succ_of_le sound.renderedOld
      · rw [remounts, next]
        intro generation member
        rcases List.mem_append.mp member with old | isNew
        · exact Nat.le_succ_of_le (sound.remountsOld generation old)
        · exact Nat.le_of_eq (List.mem_singleton.mp isNew)
      · rw [remounts]
        refine List.nodup_append.mpr
          ⟨sound.remountsDiffer, by simp, ?_⟩
        intro old member new isNew
        cases List.mem_singleton.mp isNew
        exact fun same => fresh (same ▸ member)
      · rw [rendered, next]
        exact fun _ => Nat.lt_succ_of_le sound.renderedOld
  | followed _ _ _ draft _ screen =>
      exact sound.screen whole screen (by rw [draft]) sendsFrom
  | rendered atIndex _ current reports nothingLost screen remounts =>
      have sameMount := mount_of_reports reports nothingLost
      refine ⟨sound.reported whole, ?_, ?_, ?_, ?_,
        sound.sends whole sendsFrom⟩
      · rw [screen, sameMount, current]
      · rw [remounts, sameMount]
        exact fun generation member =>
          sound.remountsOld generation (List.mem_of_mem_eraseIdx member)
      · rw [remounts]
        exact sound.remountsDiffer.sublist (List.eraseIdx_sublist _ _)
      · rw [remounts, sameMount, current]
        intro member
        obtain ⟨other, differs, atOther⟩ :=
          List.mem_eraseIdx_iff_getElem?.mp member
        obtain ⟨inBounds, _⟩ := List.getElem?_eq_some_iff.mp atIndex
        have same := (List.getElem?_inj inBounds sound.remountsDiffer).mp
          (atIndex.trans atOther.symm)
        exact absurd same.symm differs
  | skipped _ draft rendered remounts =>
      refine ⟨sound.reported whole, ?_, ?_, ?_, ?_,
        sound.sends whole sendsFrom⟩
      · rw [rendered, draft]
        exact sound.renderedOld
      · rw [remounts, draft]
        exact fun generation member =>
          sound.remountsOld generation (List.mem_of_mem_eraseIdx member)
      · rw [remounts]
        exact sound.remountsDiffer.sublist (List.eraseIdx_sublist _ _)
      · rw [remounts, rendered, draft]
        exact fun member =>
          sound.awaitsRender (List.mem_of_mem_eraseIdx member)
  | loads draft screen =>
      exact sound.screen whole screen (by rw [draft]) sendsFrom
  | disposes draft screen =>
      exact sound.screen whole screen (by rw [draft]) sendsFrom

theorem sound_run
    (sound : Sound start) :
    Sound (finalState (Frame.perform texts) start steps) :=
  invariant_of_kept
    (fun before step sound =>
      sound.change (change_perform before step) (sendsFrom_perform before step))
    sound

theorem Change.tells_replaced
    (sound : Sound frame)
    (change : Change texts frame step after events)
    (isReplaced : after.draft.mount.generation ≠
      frame.draft.mount.generation)
    (isOpen : frame.draft.disposed = false)
    (loaded : frame.draft.mount.loaded = true)
    (unsent : frame.unsent = true ∨ frame.draft.pendingSend = true ∨
      frame.draft.writePending = true) :
    ∃ mark, .lost frame.draft.mount.generation mark ∈ events := by
  have lost : frame.draft.editsLostOnRemount frame.unsent = true := by
    unfold DraftSendState.editsLostOnRemount
    rcases unsent with unsent | pending | waiting
    · simp [isOpen, loaded, unsent]
    · simp [isOpen, loaded, pending]
    · simp [isOpen, loaded, waiting]
  rcases change.mount with ⟨same, _⟩ | ⟨_, index, rfl⟩
  · exact absurd same isReplaced
  · cases change with
    | idle draft => exact absurd (by rw [draft]) isReplaced
    | quiet _ draft => exact absurd (by rw [draft]) isReplaced
    | followed _ _ _ draft => exact absurd (by rw [draft]) isReplaced
    | @replaced _ _ _ begun mark _ _ isBegun reports =>
        refine ⟨mark, ?_⟩
        rw [(reports lost).events, if_pos, List.mem_singleton]
        cases tells : (begun.reportLost frame.draft.mount.generation
            mark).2 with
        | true => rfl
        | false =>
            obtain ⟨_, isDisposed | ⟨wasReported, _⟩⟩ :=
              DraftSendState.reportLost_silent tells
            · rw [isBegun.disposed, isOpen] at isDisposed
              cases isDisposed
            · rw [isBegun.lostReportedFor] at wasReported
              exact absurd (sound.reportedOld _ wasReported)
                (Nat.lt_irrefl _)

/-- The host took what was written up to a version, or already held it. -/
def Takes
    (texts : GraphTexts Graph)
    (frame : Frame)
    (step : Step)
    (version : ℕ) : Prop :=
  match step with
  | .goOn index =>
      ∃ send text graph, frame.sends[index]? = some send ∧
        send.stage = .read text ∧ text.bind texts.parse = some graph ∧
          texts.contentOf (some graph) = frame.draft.hostContent ∧
            version ≤ send.writeVersion
  | .answer index answer =>
      answer = .staged ∧
        ∃ send, frame.sends[index]? = some send ∧ version ≤ send.writeVersion
  | _ => False

/-- A write of a loaded mount still waits to be taken. -/
structure Waiting
    (generation version : ℕ)
    (frame : Frame) : Prop where
  current : frame.draft.mount.generation = generation
  loaded : frame.draft.mount.loaded = true
  pending : frame.draft.writePending = true
  version : version ≤ frame.draft.writeVersion

/-- Only taking a write ends its waiting while its mount is current. -/
theorem Waiting.change
    (waiting : Waiting generation version frame)
    (change : Change texts frame step after events)
    (notTaken : ¬ Takes texts frame step version)
    (current : after.draft.mount.generation = generation) :
    Waiting generation version after := by
  have loaded : after.draft.mount.loaded = true := by
    rcases change.mount with ⟨_, keeps⟩ | ⟨next, _⟩
    · exact keeps waiting.loaded
    · have := waiting.current
      omega
  have kept : after.draft.writePending = true ∧
      version ≤ after.draft.writeVersion := by
    have before := And.intro waiting.pending waiting.version
    cases change with
    | idle draft => rw [draft]; exact before
    | quiet _ draft => rw [draft]; exact before
    | wrote _ _ draft =>
        rw [draft]
        exact ⟨rfl, Nat.le_succ_of_le waiting.version⟩
    | held atIndex reading parses holds newest draft =>
        refine absurd ⟨_, _, _, atIndex, reading, parses, holds, ?_⟩ notTaken
        exact newest ▸ waiting.version
    | stages _ _ _ draft => rw [draft]; exact before
    | taken atIndex _ draft =>
        rw [draft]
        refine ⟨?_, waiting.version⟩
        dsimp only
        rw [decide_eq_true_eq]
        intro newest
        refine absurd ⟨rfl, _, atIndex, ?_⟩ notTaken
        exact newest ▸ waiting.version
    | refused draft => rw [draft]; exact before
    | late _ _ reports =>
        obtain ⟨_, _, draft⟩ := reports.draft_eq
        rw [draft]
        exact before
    | replaced isBegun reports nothingLost =>
        rw [mount_of_reports reports nothingLost, isBegun.generation] at current
        have := waiting.current
        omega
    | followed _ _ _ draft => rw [draft]; exact before
    | rendered _ _ _ reports nothingLost =>
        obtain ⟨_, _, draft⟩ := draft_of_reports reports nothingLost
        rw [draft]
        exact before
    | skipped _ draft => rw [draft]; exact before
    | loads draft => rw [draft]; exact before
    | disposes draft => rw [draft]; exact before
  exact ⟨current, loaded, kept.1, kept.2⟩

theorem generation_le_run :
    start.draft.mount.generation ≤
      (finalState (Frame.perform texts) start steps).draft.mount.generation := by
  induction steps generalizing start with
  | nil =>
      exact Nat.le_refl _
  | cons step rest inductionHypothesis =>
      exact Nat.le_trans (change_perform start step).generation_le
        inductionHypothesis

theorem Waiting.run
    (waiting : Waiting generation version start)
    (notTaken : AllMeet (Frame.perform texts)
      (fun frame step => ¬ Takes texts frame step version) start steps)
    (current : (finalState (Frame.perform texts) start
      steps).draft.mount.generation = generation) :
    Waiting generation version
      (finalState (Frame.perform texts) start steps) := by
  induction steps generalizing start with
  | nil =>
      exact waiting
  | cons step rest inductionHypothesis =>
      have change : Change texts start step _ _ := change_perform start step
      have still : ((start.perform texts step).1).draft.mount.generation =
          generation := by
        have isAfter := change.generation_le
        have isBefore : _ ≤ (finalState (Frame.perform texts)
            (start.perform texts step).1 rest).draft.mount.generation :=
          generation_le_run
        have isFirst := waiting.current
        rw [finalState] at current
        omega
      exact inductionHypothesis (waiting.change change notTaken.1 still)
        notTaken.2 current

theorem begun_run
    (noSends : start.sends = []) :
    ∀ send ∈ (finalState (Frame.perform texts) start steps).sends,
      ∃ earlier later, steps = earlier ++ later ∧
        BegunIn (finalState (Frame.perform texts) start earlier) send := by
  induction steps using List.reverseRecOn with
  | nil =>
      intro send member
      rw [finalState, noSends] at member
      cases member
  | append_singleton before step inductionHypothesis =>
      intro send member
      rw [finalState_append] at member
      rcases sendsFrom_perform _ step send member with
        ⟨old, inBefore, continued⟩ | begun
      · obtain ⟨earlier, later, rfl, began⟩ := inductionHypothesis old inBefore
        refine ⟨earlier, later ++ [step], List.append_assoc _ _ _, ?_⟩
        rw [continued]
        exact ⟨began.accepted, began.writeVersion, began.base, began.version⟩
      · refine ⟨before ++ [step], [], (List.append_nil _).symm, ?_⟩
        rw [finalState_append]
        exact begun

/-- Lost edits of a mount were told in a run. -/
def ToldIn
    (texts : GraphTexts Graph)
    (start : Frame)
    (steps : List Step)
    (generation : ℕ)
    (mark : Option String) : Prop :=
  ∃ happened ∈ trace (Frame.perform texts) start steps,
    .lost generation mark ∈ happened.response

theorem Change.told
    (change : Change texts frame step after events)
    (isReported : after.draft.lostReportedFor = some generation) :
    .lost generation after.draft.lostReportedMark ∈ events ∨
      (frame.draft.lostReportedFor = some generation ∧
        after.draft.lostReportedMark = frame.draft.lostReportedMark) := by
  cases change with
  | idle draft => rw [draft] at isReported ⊢; exact .inr ⟨isReported, rfl⟩
  | quiet _ draft => rw [draft] at isReported ⊢; exact .inr ⟨isReported, rfl⟩
  | wrote _ _ draft => rw [draft] at isReported ⊢; exact .inr ⟨isReported, rfl⟩
  | held _ _ _ _ _ draft =>
      rw [draft] at isReported ⊢; exact .inr ⟨isReported, rfl⟩
  | stages _ _ _ draft =>
      rw [draft] at isReported ⊢; exact .inr ⟨isReported, rfl⟩
  | taken _ _ draft => rw [draft] at isReported ⊢; exact .inr ⟨isReported, rfl⟩
  | refused draft => rw [draft] at isReported ⊢; exact .inr ⟨isReported, rfl⟩
  | late _ _ reports =>
      rcases reports.reportedFor isReported with
        ⟨rfl, _, isMark, isTold⟩ | remembered
      · exact .inl (by rw [isTold, isMark]; exact List.mem_singleton_self _)
      · exact .inr remembered
  | replaced isBegun reports nothingLost =>
      rcases reportedFor_of_reports reports nothingLost isReported with
        ⟨rfl, _, isMark, isTold⟩ | ⟨remembered, isMark⟩
      · exact .inl (by rw [isTold, isMark]; exact List.mem_singleton_self _)
      · rw [isBegun.lostReportedFor] at remembered
        rw [isBegun.lostReportedMark] at isMark
        exact .inr ⟨remembered, isMark⟩
  | followed _ _ _ draft =>
      rw [draft] at isReported ⊢; exact .inr ⟨isReported, rfl⟩
  | rendered _ _ _ reports nothingLost =>
      rcases reportedFor_of_reports reports nothingLost isReported with
        ⟨rfl, _, isMark, isTold⟩ | remembered
      · exact .inl (by rw [isTold, isMark]; exact List.mem_singleton_self _)
      · exact .inr remembered
  | skipped _ draft => rw [draft] at isReported ⊢; exact .inr ⟨isReported, rfl⟩
  | loads draft => rw [draft] at isReported ⊢; exact .inr ⟨isReported, rfl⟩
  | disposes draft => rw [draft] at isReported ⊢; exact .inr ⟨isReported, rfl⟩

theorem told_run
    (nothingReported : start.draft.lostReportedFor = none)
    (isReported : (finalState (Frame.perform texts) start
      steps).draft.lostReportedFor = some generation) :
    ToldIn texts start steps generation
      (finalState (Frame.perform texts) start
        steps).draft.lostReportedMark := by
  induction steps using List.reverseRecOn with
  | nil =>
      rw [finalState, nothingReported] at isReported
      cases isReported
  | append_singleton before step inductionHypothesis =>
      rw [finalState_append] at isReported ⊢
      rcases (change_perform _ step).told isReported with
        isTold | ⟨remembered, isMark⟩
      · refine ⟨entry (Frame.perform texts) _ step, ?_, isTold⟩
        rw [trace_append]
        exact List.mem_append_right _ (List.mem_singleton_self _)
      · obtain ⟨happened, member, isTold⟩ := inductionHypothesis remembered
        refine ⟨happened, ?_, isMark ▸ isTold⟩
        rw [trace_append]
        exact List.mem_append_left _ member

/-- An answer to an older send leaves a newer write waiting. -/
theorem Change.older
    {send : Send}
    (change : Change texts frame step after events)
    (isOf : step.sendIndex = some index)
    (atIndex : frame.sends[index]? = some send)
    (older : send.writeVersion < frame.draft.writeVersion)
    (waiting : frame.draft.writePending = true) :
    after.draft.writePending = true ∧ .dirty false ∉ events := by
  cases change with
  | idle draft => rw [draft]; exact ⟨waiting, List.not_mem_nil⟩
  | quiet noSend => rw [noSend] at isOf; cases isOf
  | wrote => cases isOf
  | held found _ _ _ newest =>
      cases isOf
      rw [atIndex] at found
      cases found
      omega
  | stages _ _ _ draft =>
      rw [draft]
      exact ⟨waiting, by simp⟩
  | taken found _ draft =>
      cases isOf
      rw [atIndex] at found
      cases found
      have newer : frame.draft.writeVersion ≠ send.writeVersion := by omega
      rw [draft]
      simp [newer]
  | refused draft => rw [draft]; exact ⟨waiting, by simp⟩
  | late _ _ reports =>
      obtain ⟨_, _, draft⟩ := reports.draft_eq
      rw [draft]
      refine ⟨waiting, ?_⟩
      rw [reports.events]
      split
      · simp
      · exact List.not_mem_nil
  | replaced => cases isOf
  | followed => cases isOf
  | rendered => cases isOf
  | skipped => cases isOf
  | loads => cases isOf
  | disposes => cases isOf

/-- A draft that is staged is of the current mount, as its send began. -/
theorem Change.staged
    {draft : Draft Graph}
    (change : Change texts frame step after events)
    (isStaged : .stageDraft draft ∈ events) :
    frame.draft.acceptsWrite draft.generation = true ∧
      ∃ send ∈ frame.sends, draft.generation = send.generation ∧
        draft.baseRevision = send.base ∧
          draft.graphVersion = send.version := by
  have notSilent (silent : Silent events) : False := by
    obtain ⟨_, isDirty | isFatal⟩ := silent _ isStaged
    · cases isDirty
    · cases isFatal
  have notReported
      {before later : DraftSendState}
      {generation : ℕ}
      {mark : Option String}
      (reports : Reports before later generation mark events) : False := by
    rw [reports.events] at isStaged
    split at isStaged
    · cases List.mem_singleton.mp isStaged
    · cases isStaged
  cases change with
  | idle => cases isStaged
  | quiet _ _ _ silent => exact (notSilent silent).elim
  | wrote _ _ _ _ silent => exact (notSilent silent).elim
  | held _ _ _ _ _ _ _ silent => exact (notSilent silent).elim
  | stages atIndex accepted carries =>
      cases List.mem_singleton.mp isStaged
      exact ⟨carries.1 ▸ accepted, _, List.mem_of_getElem? atIndex, carries⟩
  | taken => cases List.mem_singleton.mp isStaged
  | refused => cases List.mem_singleton.mp isStaged
  | late _ _ reports => exact (notReported reports).elim
  | replaced _ reports nothingLost =>
      cases lost : frame.draft.editsLostOnRemount frame.unsent with
      | true => exact (notReported (reports lost)).elim
      | false =>
          rw [(nothingLost lost).2] at isStaged
          cases isStaged
  | followed => cases isStaged
  | rendered _ _ _ reports nothingLost =>
      cases isDirty : frame.isDirty with
      | true => exact (notReported (reports isDirty)).elim
      | false =>
          rw [(nothingLost isDirty).2] at isStaged
          cases isStaged
  | skipped => cases isStaged
  | loads => cases isStaged
  | disposes => cases isStaged

/-- An update of the host confirms what it read of the editor. -/
def Confirms
    (texts : GraphTexts Graph)
    (frame : Frame)
    (step : Step)
    (revision : ℕ) : Prop :=
  ∃ index update current text, step = .follow index ∧
    frame.updates[index]? = some update ∧ update.current = some current ∧
      update.context.graph = some text ∧
        texts.contentOf (texts.parse text) = current ∧
          revision = update.context.revision

theorem Change.confirmed
    (change : Change texts frame step after events)
    (sameMount : after.draft.mount.generation =
      frame.draft.mount.generation)
    (moved : after.draft.mount.revision ≠ frame.draft.mount.revision) :
    frame.draft.mount.loaded = true ∧
      frame.draft.mount.revision < after.draft.mount.revision ∧
        Confirms texts frame step after.draft.mount.revision := by
  cases change with
  | idle draft => exact absurd (by rw [draft]) moved
  | quiet _ draft => exact absurd (by rw [draft]) moved
  | wrote _ _ draft => exact absurd (by rw [draft]) moved
  | held _ _ _ _ _ draft => exact absurd (by rw [draft]) moved
  | stages _ _ _ draft => exact absurd (by rw [draft]) moved
  | taken _ _ draft => exact absurd (by rw [draft]) moved
  | refused draft => exact absurd (by rw [draft]) moved
  | late _ _ reports =>
      obtain ⟨_, _, draft⟩ := reports.draft_eq
      exact absurd (by rw [draft]) moved
  | replaced isBegun reports nothingLost =>
      rw [mount_of_reports reports nothingLost, isBegun.generation] at sameMount
      omega
  | followed atIndex hasRead hasGraph draft confirms =>
      rw [draft] at moved ⊢
      rcases confirms with same | ⟨loaded, shown, isRevision, newer⟩
      · exact absurd same moved
      · exact ⟨loaded, newer, _, _, _, _, rfl, atIndex, hasRead, hasGraph,
          shown, isRevision⟩
  | rendered _ _ _ reports nothingLost =>
      obtain ⟨_, _, draft⟩ := draft_of_reports reports nothingLost
      exact absurd (by rw [draft]) moved
  | skipped _ draft => exact absurd (by rw [draft]) moved
  | loads draft => exact absurd (by rw [draft]) moved
  | disposes draft => exact absurd (by rw [draft]) moved

/-- The state a run reaches. -/
abbrev reached
    (texts : GraphTexts Graph)
    (start : Frame)
    (steps : List Step) : Frame :=
  finalState (Frame.perform texts) start steps

theorem told_at_render
    (nothingReported : start.draft.lostReportedFor = none)
    (atIndex : (reached texts start steps).remounts[index]? =
      some (reached texts start steps).draft.mount.generation)
    (isOpen : (reached texts start steps).draft.disposed = false)
    (isDirty : (reached texts start steps).isDirty = true) :
    ToldIn texts start (steps ++ [.render index])
      (reached texts start steps).renderedGeneration
      (some (reached texts start steps).shown) := by
  cases tells : ((reached texts start steps).draft.reportLost
      (reached texts start steps).renderedGeneration
      (some (reached texts start steps).shown)).2 with
  | true =>
      refine ⟨entry (Frame.perform texts) (reached texts start steps)
        (.render index), ?_, ?_⟩
      · rw [trace_append]
        exact List.mem_append_right _ (List.mem_singleton_self _)
      · simp [entry, Frame.perform, atIndex, Frame.renderMount, isOpen,
          isDirty, Frame.tellLost, tells]
  | false =>
      obtain ⟨_, isDisposed | ⟨isReported, noMark | isMark⟩⟩ :=
        DraftSendState.reportLost_silent tells
      · cases isOpen.symm.trans isDisposed
      · cases noMark
      · obtain ⟨happened, member, isTold⟩ :=
          told_run nothingReported isReported
        refine ⟨happened, ?_, isMark ▸ isTold⟩
        rw [trace_append]
        exact List.mem_append_left _ member

/-- What holds of a step after a run of a frame. -/
structure DraftLaws
    (texts : GraphTexts Graph)
    (start : Frame)
    (steps : List Step)
    (step : Step)
    (before after : Frame)
    (events : List (Event Graph)) : Prop where
  /-- A draft is of the current, loaded mount, as its send began. -/
  staged : ∀ draft, .stageDraft draft ∈ events →
    before.draft.acceptsWrite draft.generation = true ∧
      ∃ earlier later, steps = earlier ++ later ∧
        (reached texts start earlier).draft.acceptsWrite
          draft.generation = true ∧
        draft.baseRevision =
          (reached texts start earlier).draft.mount.revision ∧
        draft.graphVersion =
          (reached texts start earlier).draft.mount.graphVersion
  /-- An older send leaves a newer write waiting. -/
  older : ∀ index send, step.sendIndex = some index →
    before.sends[index]? = some send →
      send.writeVersion < before.draft.writeVersion →
        before.draft.writePending = true →
          after.draft.writePending = true ∧ .dirty false ∉ events
  /-- A revision advances only where the host confirms what was shown. -/
  confirmed :
    after.draft.mount.generation = before.draft.mount.generation →
      after.draft.mount.revision ≠ before.draft.mount.revision →
        before.draft.mount.loaded = true ∧
          before.draft.mount.revision < after.draft.mount.revision ∧
          Confirms texts before step after.draft.mount.revision
  /-- Only an update of the host replaces the mount. -/
  replaces :
    after.draft.mount.generation ≠ before.draft.mount.generation →
      ∃ index, step = .follow index
  /-- What is unsaved, due or refused is told when the mount is replaced. -/
  unsentTold :
    after.draft.mount.generation ≠ before.draft.mount.generation →
      before.draft.disposed = false → before.draft.mount.loaded = true →
        (before.unsent = true ∨ before.draft.pendingSend = true ∨
          before.draft.writePending = true) →
        ∃ mark, .lost before.draft.mount.generation mark ∈ events
  /-- A write that no taken send covers is told when its mount is replaced. -/
  writtenTold : ∀ earlier projectId text between,
    steps = earlier ++ .write projectId text :: between →
      (reached texts start earlier).draft.mount.projectId = projectId →
      (reached texts start earlier).draft.acceptsWrite
        before.draft.mount.generation = true →
      AllMeet (Frame.perform texts) (fun frame step =>
          ¬ Takes texts frame step
            ((reached texts start earlier).draft.writeVersion + 1))
        (reached texts start (earlier ++ [.write projectId text])) between →
      before.draft.disposed = false →
      after.draft.mount.generation ≠ before.draft.mount.generation →
        ∃ mark, .lost before.draft.mount.generation mark ∈ events
  /-- What is edited until the next instance renders is told by then. -/
  renderedTold : ∀ index, step = .render index →
    before.remounts[index]? = some before.draft.mount.generation →
      before.draft.disposed = false → before.isDirty = true →
        ToldIn texts start (steps ++ [step]) before.renderedGeneration
          (some before.shown)

theorem waiting_write
    {projectId text : String}
    (ours : frame.draft.mount.projectId = projectId)
    (accepted : frame.draft.acceptsWrite generation = true) :
    Waiting generation (frame.draft.writeVersion + 1)
      (frame.perform texts (.write projectId text)).1 := by
  obtain ⟨isOpen, current, loaded⟩ :=
    DraftSendState.acceptsWrite_iff.mp accepted
  rw [← current] at accepted
  have isWritten : (frame.perform texts (.write projectId text)).1.draft =
      { frame.draft with
        writeVersion := frame.draft.writeVersion + 1
        writePending := true } := by
    simp [Frame.perform, Frame.written, ours, accepted]
  refine ⟨?_, ?_, ?_, ?_⟩
  · rw [isWritten]
    exact current
  · rw [isWritten]
    exact loaded
  · rw [isWritten]
  · rw [isWritten]

theorem waiting_of_write
    {earlier between : List Step}
    {projectId text : String}
    (split : steps = earlier ++ .write projectId text :: between)
    (ours : (reached texts start earlier).draft.mount.projectId = projectId)
    (accepted : (reached texts start earlier).draft.acceptsWrite
      generation = true)
    (notTaken : AllMeet (Frame.perform texts) (fun frame step =>
        ¬ Takes texts frame step
          ((reached texts start earlier).draft.writeVersion + 1))
      (reached texts start (earlier ++ [.write projectId text])) between)
    (current : (reached texts start steps).draft.mount.generation =
      generation) :
    Waiting generation
      ((reached texts start earlier).draft.writeVersion + 1)
      (reached texts start steps) := by
  have isRun : reached texts start steps = finalState (Frame.perform texts)
      (reached texts start (earlier ++ [.write projectId text])) between := by
    rw [split, ← List.singleton_append, ← List.append_assoc]
    exact finalState_append
  have isWrite : reached texts start (earlier ++ [.write projectId text]) =
      ((reached texts start earlier).perform texts
        (.write projectId text)).1 :=
    finalState_append
  rw [isRun] at current ⊢
  rw [isWrite] at notTaken current ⊢
  exact (waiting_write ours accepted).run notTaken current

/-- Texts that are graphs themselves. -/
def plainTexts : GraphTexts String where
  parse := some
  contentOf graph := graph.getD ""
  projectFile _ text := text
  editorDraftCommandIds _ _ := []

/-- A frame that starts from the host's graph at revision one. -/
def plainFrame : Frame :=
  newFrame "project" "graph"
    { graph := some "graph", revision := 1, graphVersion := 0 }
    "graph" (fun _ => some "graph")

/-- The host tells a new revision of the same graph. -/
def quietRevision : List Step :=
  [.load "project" true,
    .update { graph := some "graph", revision := 2, graphVersion := 0 },
    .readCurrent 0, .follow 0]

end Frameleaf.DraftSync
