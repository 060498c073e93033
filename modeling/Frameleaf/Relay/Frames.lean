import Frameleaf.Lib.ByteBuffer
import Frameleaf.Lib.JsonRoundTrip
import Frameleaf.Lib.Trace

namespace Frameleaf.Relay

open ByteBuffer Json

/-!
# Control frames of the relay tunnel

A control frame is a JSON object with a type, written after the length of its
text.  The reader collects what the stream delivers and hands out one frame at a
time; what it has not handed out it gives back when it is detached.
-/

/-- Bytes of a frame's length. -/
def frameHeaderBytes : ℕ := 4

/-- The longest text of a frame. -/
def maxControlFrameBytes : ℕ := 64 * 1024

/-- An object with a textual type. -/
def isTyped
    (fields : Fields) : Bool :=
  match fields.get? "type" with
  | some (.string _) => true
  | _ => false

/-- A control frame. -/
structure ControlFrame where
  fields : Fields
  typed : isTyped fields = true
  /-- It is an object: its names differ and its numbers are numbers. -/
  writable : (Json.object fields).isWritable = true

/-- Why a frame cannot be written or read. -/
inductive FrameError where
  | tooLarge (length : ℕ)
  | notJson
  | noType
deriving DecidableEq, Repr

/-- Write a frame. -/
def encodeFrame
    (frame : ControlFrame) : Except FrameError Bytes :=
  let body := Utf8.encode (stringify (.object frame.fields))
  if maxControlFrameBytes < body.length then
    .error (.tooLarge body.length)
  else
    .ok (writeUIntBE frameHeaderBytes body.length ++ body)

/-- The frame of a text. -/
def parseFrame
    (body : Bytes) : Except FrameError ControlFrame :=
  match isRead : parse (Utf8.decode body) with
  | some (.object fields) =>
      if typed : isTyped fields then
        .ok ⟨fields, typed, isWritable_of_parse isRead⟩
      else
        .error .noType
  | some _ =>
      .error .noType
  | none =>
      .error .notJson

/-- The frame at the front of a buffer, once all of it is there, and the rest. -/
def decodeFrame
    (buffer : Bytes) : Except FrameError (Option (ControlFrame × Bytes)) :=
  if buffer.length < frameHeaderBytes then
    .ok none
  else
    let length := bigEndian (buffer.take frameHeaderBytes)
    if maxControlFrameBytes < length then
      .error (.tooLarge length)
    else
      let stop := frameHeaderBytes + length
      if buffer.length < stop then
        .ok none
      else do
        let frame ← parseFrame (subarray buffer frameHeaderBytes stop)
        return some (frame, buffer.drop stop)

/-- Why a reader has failed. -/
inductive ReaderFailure where
  | tooManyBytes
  | ended
  | closed
  | broken
deriving DecidableEq, Repr

/-- Why a frame that was asked for does not come. -/
inductive Rejection where
  | alreadyAwaited
  | late
  | malformed (error : FrameError)
  | failed (failure : ReaderFailure)
deriving DecidableEq, Repr

/-- A reader of control frames. -/
structure FrameReader where
  buffer : Bytes := []
  /-- A frame was asked for and has not come yet. -/
  waiting : Bool := false
  failure : Option ReaderFailure := none
  /-- The reader listens to its stream. -/
  attached : Bool := true

/-- What a reader tells those who use it. -/
inductive Event where
  | resolved (frame : ControlFrame)
  | rejected (reason : Rejection)
  | failed (failure : ReaderFailure)
  | detached (rest : Bytes)

/-- What happens to a reader. -/
inductive Step where
  | data (chunk : Bytes)
  | next
  /-- The time for the frame that was asked for is over. -/
  | timeout
  | stop (failure : ReaderFailure)
  | detach

/-- Hand out the next frame if it was asked for. -/
def FrameReader.pump
    (reader : FrameReader) : FrameReader × List Event :=
  if reader.waiting then
    let decoded :=
      if reader.failure.isSome ∧ reader.buffer = [] then
        .ok none
      else
        decodeFrame reader.buffer
    match decoded with
    | .error error =>
        ({ reader with waiting := false }, [.rejected (.malformed error)])
    | .ok (some (frame, rest)) =>
        ({ reader with buffer := rest, waiting := false }, [.resolved frame])
    | .ok none =>
        match reader.failure with
        | some failure =>
            ({ reader with waiting := false }, [.rejected (.failed failure)])
        | none =>
            (reader, [])
  else
    (reader, [])

/-- The reader fails, once. -/
def FrameReader.fail
    (reader : FrameReader)
    (failure : ReaderFailure) : FrameReader × List Event :=
  if reader.failure.isSome then
    (reader, [])
  else
    let (later, events) := { reader with failure := some failure }.pump
    ({ later with buffer := [] }, events ++ [.failed failure])

/-- The stream delivers a chunk. -/
def FrameReader.onData
    (reader : FrameReader)
    (chunk : Bytes) : FrameReader × List Event :=
  if reader.failure.isSome then
    (reader, [])
  else
    let later := { reader with buffer := reader.buffer ++ chunk }
    if frameHeaderBytes + maxControlFrameBytes < later.buffer.length ∧
        !later.waiting then
      later.fail .tooManyBytes
    else
      later.pump

/-- One step of a reader. -/
def FrameReader.perform
    (reader : FrameReader) : Step → FrameReader × List Event
  | .data chunk =>
      if reader.attached then reader.onData chunk else (reader, [])
  | .next =>
      if reader.waiting then
        (reader, [.rejected .alreadyAwaited])
      else
        { reader with waiting := true }.pump
  | .timeout =>
      if reader.waiting then
        ({ reader with waiting := false }, [.rejected .late])
      else
        (reader, [])
  | .stop failure =>
      if reader.attached then reader.fail failure else (reader, [])
  | .detach =>
      ({ reader with buffer := [], attached := false },
        [.detached reader.buffer])

end Frameleaf.Relay
