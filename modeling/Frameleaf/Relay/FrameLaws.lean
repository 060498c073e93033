import Frameleaf.Relay.Frames
import Mathlib.Data.List.Forall2
import Mathlib.Data.List.Induction

namespace Frameleaf.Relay

open ByteBuffer Json Trace

/-!
# A reader hands out exactly the frames that were sent

However the bytes of some frames are cut into chunks, and whenever frames are
asked for, the reader hands out these frames in their order and keeps exactly
the bytes that belong to none that it has handed out.
-/

theorem parseFrame_encode
    (frame : ControlFrame) :
    parseFrame (Utf8.encode (stringify (.object frame.fields))) =
      .ok frame := by
  have reads := parse_stringify frame.writable
  unfold parseFrame
  split
  · rename_i fields isRead
    rw [Utf8.decode_encode, reads] at isRead
    cases isRead
    rw [dif_pos frame.typed]
  · rename_i value notObject isRead
    rw [Utf8.decode_encode, reads] at isRead
    cases isRead
    exact absurd rfl (notObject frame.fields)
  · rename_i isRead
    rw [Utf8.decode_encode, reads] at isRead
    cases isRead

/-- A sent frame has its length before its text. -/
structure Sent
    (frame : ControlFrame)
    (bytes : Bytes) : Prop where
  header : ∃ body, bytes = writeUIntBE frameHeaderBytes body.length ++ body ∧
    body.length ≤ maxControlFrameBytes ∧ parseFrame body = .ok frame

variable {frame : ControlFrame}

theorem sent_of_encodeFrame
    {bytes : Bytes}
    (encoded : encodeFrame frame = .ok bytes) :
    Sent frame bytes := by
  rw [encodeFrame] at encoded
  split at encoded
  · cases encoded
  · rename_i small
    cases encoded
    exact ⟨_, rfl, by omega, parseFrame_encode frame⟩

theorem bigEndian_header
    {body rest : Bytes}
    (small : body.length ≤ maxControlFrameBytes) :
    bigEndian ((writeUIntBE frameHeaderBytes body.length ++ rest).take
      frameHeaderBytes) = body.length := by
  have width := length_writeUIntBE frameHeaderBytes body.length
  rw [List.take_left' width]
  apply bigEndian_writeUIntBE
  rw [maxControlFrameBytes] at small
  rw [frameHeaderBytes]
  omega

theorem Sent.decodeFrame
    {bytes : Bytes}
    (sent : Sent frame bytes)
    (rest : Bytes) :
    decodeFrame (bytes ++ rest) = .ok (some (frame, rest)) := by
  obtain ⟨body, rfl, small, parses⟩ := sent.header
  have width := length_writeUIntBE frameHeaderBytes body.length
  have stop : (writeUIntBE frameHeaderBytes body.length ++ body).length =
      frameHeaderBytes + body.length := by
    rw [List.length_append, width]
  have text : subarray
      (writeUIntBE frameHeaderBytes body.length ++ body ++ rest)
      frameHeaderBytes (frameHeaderBytes + body.length) = body := by
    rw [subarray, List.take_left' stop, List.drop_left' width]
  rw [Relay.decodeFrame, if_neg (by
    rw [List.length_append, stop]
    omega)]
  dsimp only
  rw [List.append_assoc, bigEndian_header small, ← List.append_assoc,
    if_neg (by omega), if_neg (by
      rw [List.length_append, stop]
      omega), text, parses, List.drop_left' stop]
  rfl

theorem Sent.decodeFrame_short
    {bytes buffer : Bytes}
    (sent : Sent frame bytes)
    (isPrefix : buffer <+: bytes)
    (short : buffer.length < bytes.length) :
    Relay.decodeFrame buffer = .ok none := by
  obtain ⟨body, rfl, small, _⟩ := sent.header
  have width := length_writeUIntBE frameHeaderBytes body.length
  rw [List.length_append, width] at short
  rw [Relay.decodeFrame]
  split
  · rfl
  · rename_i hasHeader
    have header : buffer.take frameHeaderBytes =
        (writeUIntBE frameHeaderBytes body.length ++ body).take
          frameHeaderBytes := by
      obtain ⟨more, isWhole⟩ := isPrefix
      rw [← isWhole, List.take_append_of_le_length (by omega)]
    dsimp only
    rw [header, bigEndian_header small, if_neg (by omega), if_pos short]

theorem decodeFrame_split
    {buffer rest : Bytes}
    (reads : decodeFrame buffer = .ok (some (frame, rest))) :
    ∃ bytes, buffer = bytes ++ rest ∧
      decodeFrame bytes = .ok (some (frame, [])) := by
  rw [decodeFrame] at reads
  split at reads
  · cases reads
  · rename_i hasHeader
    dsimp only at reads
    split at reads
    · cases reads
    · rename_i small
      split at reads
      · cases reads
      · rename_i whole
        generalize isStop : frameHeaderBytes +
          bigEndian (buffer.take frameHeaderBytes) = stop at reads whole
        cases parses : parseFrame (subarray buffer frameHeaderBytes stop) with
        | error error =>
            rw [parses] at reads
            cases reads
        | ok found =>
            rw [parses] at reads
            cases reads
            have isLength : (buffer.take stop).length = stop := by
              rw [List.length_take]
              omega
            have header : (buffer.take stop).take frameHeaderBytes =
                buffer.take frameHeaderBytes := by
              rw [List.take_take, Nat.min_eq_left (by omega)]
            refine ⟨buffer.take stop, (List.take_append_drop _ _).symm, ?_⟩
            rw [decodeFrame, isLength, if_neg (by omega)]
            dsimp only
            rw [header, if_neg small, isStop, if_neg (by omega)]
            have text : subarray (buffer.take stop) frameHeaderBytes stop =
                subarray buffer frameHeaderBytes stop := by
              rw [subarray, subarray, List.take_take, Nat.min_self]
            rw [text, parses,
              List.drop_eq_nil_of_le (Nat.le_of_eq isLength)]
            rfl

/-- The frames that some events hand out. -/
def Event.frame? : Event → Option ControlFrame
  | .resolved frame => some frame
  | .rejected _ => none
  | .failed _ => none
  | .detached _ => none

/-- A rejection hands out nothing. -/
@[simp] theorem filterMap_rejected
    (reason : Rejection) :
    [Event.rejected reason].filterMap Event.frame? = [] :=
  rfl

/-- An event that tells of bytes that are no frame, or of a failure. -/
def Event.isFault : Event → Bool
  | .rejected (.malformed _) => true
  | .rejected (.failed _) => true
  | .failed _ => true
  | _ => false

/-- The bytes a step delivers. -/
def Step.bytes : Step → Bytes
  | .data chunk => chunk
  | .next => []
  | .timeout => []
  | .stop _ => []
  | .detach => []

/-- The bytes that the steps of a run deliver. -/
def delivered
    (steps : List Step) : Bytes :=
  steps.flatMap Step.bytes

/-- The frames that a new reader hands out in a run. -/
def handedOut
    (steps : List Step) : List ControlFrame :=
  (trace FrameReader.perform {} steps).flatMap
    (fun happened => happened.response.filterMap Event.frame?)

/-- While the reader is attached, no more is left unread than it keeps. -/
def Allowed
    (reader : FrameReader) : Step → Prop
  | .data chunk =>
      reader.waiting = true ∨ reader.buffer.length + chunk.length ≤
        frameHeaderBytes + maxControlFrameBytes
  | .next => True
  | .timeout => True
  | .stop _ => False
  | .detach => False

/-- Whether a step is allowed can be decided. -/
instance
    (reader : FrameReader)
    (step : Step) : Decidable (Allowed reader step) :=
  match step with
  | .data _ => inferInstanceAs (Decidable (_ ∨ _))
  | .next => isTrue trivial
  | .timeout => isTrue trivial
  | .stop _ => isFalse id
  | .detach => isFalse id

/-- Bytes that are one frame. -/
def IsFrame
    (bytes : Bytes)
    (frame : ControlFrame) : Prop :=
  decodeFrame bytes = .ok (some (frame, []))

/-- What was delivered is what was handed out and what is still kept. -/
structure Reading
    (frames : List ControlFrame)
    (encodings : List Bytes)
    (got : Bytes)
    (out : List ControlFrame)
    (buffer : Bytes) : Prop where
  cut : ∃ consumed, consumed.flatten ++ buffer = got ∧
    List.Forall₂ IsFrame consumed out ∧
      consumed.take frames.length = encodings.take out.length
  inOrder : out.take frames.length = frames.take out.length

section Stream

variable {frames out : List ControlFrame} {encodings : List Bytes}
variable {got buffer rest tail : Bytes} {frame : ControlFrame}
variable {reader : FrameReader} {steps : List Step}

theorem Reading.append
    (reading : Reading frames encodings got out buffer)
    (chunk : Bytes) :
    Reading frames encodings (got ++ chunk) out (buffer ++ chunk) := by
  obtain ⟨consumed, isCut, areFrames, inOrder⟩ := reading.cut
  refine ⟨⟨consumed, ?_, areFrames, inOrder⟩, reading.inOrder⟩
  rw [← List.append_assoc, isCut]

theorem Reading.front
    (sent : List.Forall₂ Sent frames encodings)
    (reading : Reading frames encodings got out buffer)
    (isPrefix : got <+: encodings.flatten ++ tail)
    (remains : out.length < frames.length) :
    ∃ bytes more, Sent frames[out.length] bytes ∧
      encodings[out.length]? = some bytes ∧ buffer <+: bytes ++ more := by
  obtain ⟨consumed, isCut, areFrames, inOrder⟩ := reading.cut
  have sameLength := sent.length_eq
  have inEncodings : out.length < encodings.length := by omega
  refine ⟨encodings[out.length],
    (encodings.drop (out.length + 1)).flatten ++ tail,
    List.Forall₂.get sent remains inEncodings,
    List.getElem?_eq_getElem inEncodings, ?_⟩
  have isTaken : consumed = encodings.take out.length := by
    rw [← inOrder, List.take_of_length_le]
    have := areFrames.length_eq
    omega
  have isStream : encodings.flatten ++ tail = consumed.flatten ++
      (encodings[out.length] ++
        ((encodings.drop (out.length + 1)).flatten ++ tail)) := by
    rw [isTaken, ← List.append_assoc encodings[out.length],
      ← List.flatten_cons, ← List.drop_eq_getElem_cons inEncodings,
      ← List.append_assoc, ← List.flatten_append, List.take_append_drop]
  rw [← isCut, isStream] at isPrefix
  exact (List.prefix_append_right_inj _).mp isPrefix

theorem Sent.decodeFrame_front
    {bytes more : Bytes}
    (sent : Sent frame bytes)
    (isPrefix : buffer <+: bytes ++ more) :
    (∃ rest, buffer = bytes ++ rest ∧
      Relay.decodeFrame buffer = .ok (some (frame, rest))) ∨
    (buffer.length < bytes.length ∧ Relay.decodeFrame buffer = .ok none) := by
  by_cases short : buffer.length < bytes.length
  · right
    refine ⟨short, sent.decodeFrame_short ?_ short⟩
    exact List.prefix_of_prefix_length_le isPrefix
      (List.prefix_append bytes more) (Nat.le_of_lt short)
  · left
    obtain ⟨rest, isWhole⟩ := List.prefix_of_prefix_length_le
      (List.prefix_append bytes more) isPrefix (Nat.le_of_not_lt short)
    exact ⟨rest, isWhole.symm, isWhole ▸ sent.decodeFrame rest⟩

/-- A frame that is read is the next one, and what is left stays. -/
theorem Reading.hand
    (sent : List.Forall₂ Sent frames encodings)
    (reading : Reading frames encodings got out buffer)
    (isPrefix : got <+: encodings.flatten ++ tail)
    (reads : decodeFrame buffer = .ok (some (frame, rest))) :
    Reading frames encodings got (out ++ [frame]) rest := by
  obtain ⟨consumed, isCut, areFrames, inOrder⟩ := reading.cut
  obtain ⟨bytes, isWhole, isFrame⟩ := decodeFrame_split reads
  have sameLength := sent.length_eq
  have consumedLength := areFrames.length_eq
  have newCut : (consumed ++ [bytes]).flatten ++ rest = got := by
    rw [List.flatten_append, List.flatten_singleton, List.append_assoc,
      ← isWhole, isCut]
  have newFrames : List.Forall₂ IsFrame (consumed ++ [bytes])
      (out ++ [frame]) :=
    List.rel_append areFrames (.cons isFrame .nil)
  by_cases remains : out.length < frames.length
  · obtain ⟨next, more, nextSent, isNext, atFront⟩ :=
      reading.front sent isPrefix remains
    obtain ⟨left, leftWhole, leftReads⟩ | ⟨_, notThere⟩ :=
      nextSent.decodeFrame_front atFront
    · rw [reads] at leftReads
      cases leftReads
      have sameBytes : bytes = next :=
        List.append_cancel_right (isWhole.symm.trans leftWhole)
      refine ⟨⟨consumed ++ [bytes], newCut, newFrames, ?_⟩, ?_⟩
      · rw [List.take_of_length_le (by
          rw [List.length_append, consumedLength]
          exact remains)]
        rw [List.take_of_length_le (by omega)] at inOrder
        rw [List.length_append, List.length_singleton, List.take_add_one,
          isNext, ← inOrder, sameBytes]
        rfl
      · have before := reading.inOrder
        rw [List.take_of_length_le (by omega)] at before
        rw [List.take_of_length_le (by
          rw [List.length_append]
          exact remains), List.length_append, List.length_singleton,
          List.take_add_one, ← before, List.getElem?_eq_getElem remains]
        rfl
    · rw [reads] at notThere
      cases notThere
  · refine ⟨⟨consumed ++ [bytes], newCut, newFrames, ?_⟩, ?_⟩
    · rw [List.take_append_of_le_length (by omega), inOrder,
        List.take_of_length_le (by omega), List.take_of_length_le (by
          rw [List.length_append]
          omega)]
    · rw [List.take_append_of_le_length (by omega), reading.inOrder,
        List.take_of_length_le (by omega), List.take_of_length_le (by
          rw [List.length_append]
          omega)]

/-- The reader has not failed and awaits a frame only if none is there. -/
structure Standing
    (frames : List ControlFrame)
    (encodings : List Bytes)
    (got : Bytes)
    (out : List ControlFrame)
    (reader : FrameReader) : Prop where
  reading : Reading frames encodings got out reader.buffer
  attached : reader.attached = true
  sound : reader.failure = none
  awaits : reader.waiting = true → decodeFrame reader.buffer = .ok none

/-- What the next frame is not: a fault while frames remain. -/
def Faultless
    (frames out : List ControlFrame)
    (events : List Event) : Prop :=
  (∃ event ∈ events, event.isFault = true) → frames.length ≤ out.length

/-- Handing out the next frame keeps the account of the stream. -/
theorem FrameReader.pump_standing
    (sent : List.Forall₂ Sent frames encodings)
    (isPrefix : got <+: encodings.flatten ++ tail)
    (reading : Reading frames encodings got out reader.buffer)
    (attached : reader.attached = true)
    (sound : reader.failure = none) :
    Standing frames encodings got
        (out ++ reader.pump.2.filterMap Event.frame?) reader.pump.1 ∧
      Faultless frames out reader.pump.2 := by
  unfold FrameReader.pump
  split
  · rename_i waiting
    rw [if_neg (by simp [sound])]
    dsimp only
    cases decoded : decodeFrame reader.buffer with
    | error error =>
        constructor
        · refine ⟨?_, attached, sound, nofun⟩
          simpa [Event.frame?] using reading
        · intro _
          by_contra remains
          obtain ⟨bytes, more, nextSent, _, atFront⟩ :=
            reading.front sent isPrefix (Nat.lt_of_not_le remains)
          obtain ⟨_, _, found⟩ | ⟨_, found⟩ :=
            nextSent.decodeFrame_front atFront
          · cases decoded.symm.trans found
          · cases decoded.symm.trans found
    | ok found =>
        match found with
        | some (frame, rest) =>
            refine ⟨⟨?_, attached, sound, nofun⟩, ?_⟩
            · exact reading.hand sent isPrefix decoded
            · simp [Faultless, Event.isFault]
        | none =>
            simp only [sound]
            constructor
            · exact ⟨by simpa using reading, attached, sound, fun _ => decoded⟩
            · simp [Faultless]
  · rename_i idle
    constructor
    · exact ⟨by simpa using reading, attached, sound,
        fun waiting => absurd waiting idle⟩
    · simp [Faultless]

/-- Each allowed step keeps the account of the stream. -/
theorem Standing.perform
    {step : Step}
    (sent : List.Forall₂ Sent frames encodings)
    (isPrefix : got ++ step.bytes <+: encodings.flatten ++ tail)
    (standing : Standing frames encodings got out reader)
    (allowed : Allowed reader step) :
    Standing frames encodings (got ++ step.bytes)
        (out ++ (reader.perform step).2.filterMap Event.frame?)
        (reader.perform step).1 ∧
      Faultless frames out (reader.perform step).2 := by
  cases step with
  | data chunk =>
      have fits : ¬ (frameHeaderBytes + maxControlFrameBytes <
          (reader.buffer ++ chunk).length ∧ !reader.waiting) := by
        rintro ⟨tooMany, idle⟩
        cases allowed with
        | inl waiting =>
            rw [waiting] at idle
            cases idle
        | inr small =>
            rw [List.length_append] at tooMany
            omega
      rw [FrameReader.perform, if_pos standing.attached, FrameReader.onData,
        if_neg (by simp [standing.sound]), if_neg fits]
      exact FrameReader.pump_standing sent isPrefix
        (standing.reading.append chunk) standing.attached standing.sound
  | next =>
      rw [Step.bytes, List.append_nil] at isPrefix ⊢
      simp only [FrameReader.perform]
      split
      · rename_i waiting
        refine ⟨?_, by simp [Faultless, Event.isFault]⟩
        simpa [Event.frame?] using standing
      · exact FrameReader.pump_standing sent isPrefix standing.reading
          standing.attached standing.sound
  | timeout =>
      rw [Step.bytes, List.append_nil]
      simp only [FrameReader.perform]
      split
      · refine ⟨⟨?_, standing.attached, standing.sound, by simp⟩,
          by simp [Faultless, Event.isFault]⟩
        simpa [Event.frame?] using standing.reading
      · exact ⟨by simpa using standing, by simp [Faultless]⟩
  | stop failure =>
      cases allowed
  | detach =>
      cases allowed

theorem standing_new :
    Standing frames encodings [] [] {} where
  reading := ⟨⟨[], rfl, .nil, by simp⟩, by simp⟩
  attached := rfl
  sound := rfl
  awaits := nofun

theorem standing_run
    (sent : List.Forall₂ Sent frames encodings)
    (isPrefix : delivered steps <+: encodings.flatten ++ tail)
    (allMeet : AllMeet FrameReader.perform Allowed {} steps) :
    Standing frames encodings (delivered steps) (handedOut steps)
        (finalState FrameReader.perform {} steps) ∧
      ∀ happened ∈ trace FrameReader.perform {} steps,
        Faultless frames (handedOut steps) happened.response := by
  induction steps using List.reverseRecOn with
  | nil =>
      exact ⟨standing_new, fun _ member => absurd member List.not_mem_nil⟩
  | append_singleton earlier step inductionHypothesis =>
      obtain ⟨earlierMeet, allowed, _⟩ := allMeet_append.mp allMeet
      have isDelivered : delivered (earlier ++ [step]) =
          delivered earlier ++ step.bytes := by
        simp [delivered]
      have isHanded : handedOut (earlier ++ [step]) = handedOut earlier ++
          ((finalState FrameReader.perform {} earlier).perform step).2.filterMap
            Event.frame? := by
        simp [handedOut, trace, entry]
      rw [isDelivered] at isPrefix ⊢
      obtain ⟨standing, faultless⟩ := inductionHypothesis
        ((List.prefix_append _ _).trans isPrefix) earlierMeet
      obtain ⟨after, stepFaultless⟩ :=
        standing.perform sent isPrefix allowed
      rw [isHanded, finalState_append]
      refine ⟨after, ?_⟩
      intro happened member fault
      rw [List.length_append]
      apply Nat.le_add_right_of_le
      rw [trace_append] at member
      rcases List.mem_append.mp member with before | last
      · exact faultless happened before fault
      · rw [List.mem_singleton.mp last] at fault
        exact stepFaultless fault

theorem Standing.awaited
    (sent : List.Forall₂ Sent frames encodings)
    (isPrefix : got <+: encodings.flatten ++ tail)
    (standing : Standing frames encodings got out reader)
    (waiting : reader.waiting = true)
    (remains : out.length < frames.length) :
    got.length < (encodings.take (out.length + 1)).flatten.length := by
  obtain ⟨bytes, more, nextSent, isNext, atFront⟩ :=
    standing.reading.front sent isPrefix remains
  obtain ⟨consumed, isCut, areFrames, inOrder⟩ := standing.reading.cut
  obtain ⟨_, _, found⟩ | ⟨short, _⟩ := nextSent.decodeFrame_front atFront
  · cases (standing.awaits waiting).symm.trans found
  · rw [List.take_of_length_le (by
      rw [areFrames.length_eq]
      omega)] at inOrder
    rw [List.take_add_one, isNext, ← inOrder, ← isCut, List.length_append,
      List.flatten_append, List.length_append]
    simpa using short

end Stream

/-- The frame that ends the control exchange. -/
def readyFrame : ControlFrame where
  fields := [("type", .string "READY")]
  typed := by decide +kernel
  writable := by decide +kernel

/-- The bytes of this frame. -/
def readyBytes : Bytes :=
  [0, 0, 0, 16, 123, 34, 116, 121, 112, 101, 34, 58, 34, 82, 69, 65, 68, 89,
    34, 125]

/-- Its bytes are cut in the header, and two bytes follow in the last chunk. -/
def readySteps : List Step :=
  [.data (readyBytes.take 3), .next, .data (readyBytes.drop 3 ++ [80, 82])]

end Frameleaf.Relay
