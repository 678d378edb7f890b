import Amide.Framework.Fallible
import Amide.Framework.Json
import Amide.Framework.Utf8

/-!
# Private worker frames (`modes/session-worker/private-framing.ts`)

A frame is two lengths of four bytes, a header in JSON and a payload.  The decoder collects the
frames that a chunk completes; the channel hands them to its listeners, and destroys the stream
on an error.

A header is a JSON value: what `JSON.stringify` leaves out of an object is not modelled.  The
validator of headers and the engine's message for a text that is not JSON are parameters.
-/

namespace Amide

open Utf8

def FRAME_PREFIX_BYTES : ℕ := 8

structure PrivateFrameLimits where
  maxHeaderBytes : ℕ := 1024 * 1024
  maxPayloadBytes : ℕ := 1024 * 1024 * 1024

structure PrivateFrame where
  header : Json
  payload : List UInt8

def assertFrameLength (name : String) (value maximum : ℕ) : Except String Unit :=
  if value > maximum then
    .error ("Invalid private frame " ++ name ++ ": " ++ toString value)
  else .ok ()

def isObjectHeader : Json → Bool
  | .obj _ => true
  | _ => false

/-- `buffer.writeUInt32BE(value)`, which throws what four bytes do not hold. -/
def writeUInt32BE (value : ℕ) : Except String (List UInt8) :=
  if value < 2 ^ 32 then
    .ok [.ofNat (value / 2 ^ 24), .ofNat (value / 2 ^ 16 % 256), .ofNat (value / 2 ^ 8 % 256),
      .ofNat (value % 256)]
  else .error "ERR_OUT_OF_RANGE"

/-- `buffer.readUInt32BE(offset)`, of a buffer that has the four bytes. -/
def readUInt32BE (buffer : List UInt8) (offset : ℕ) : ℕ :=
  ((buffer.drop offset).take 4).foldl (fun value b => value * 256 + b.toNat) 0

def encodePrivateFrame (limits : PrivateFrameLimits) (header : Json) (payload : List UInt8) :
    Except String (List UInt8) := do
  let headerBuffer := header.stringify
  assertFrameLength "header length" headerBuffer.length limits.maxHeaderBytes
  assertFrameLength "payload length" payload.length limits.maxPayloadBytes
  if headerBuffer.length = 0 then .error "Private frame header cannot be empty"
  else do
    let headerLength ← writeUInt32BE headerBuffer.length
    let payloadLength ← writeUInt32BE payload.length
    .ok (headerLength ++ payloadLength ++ headerBuffer ++ payload)

/-- What a decoder is made with. -/
structure PrivateFrameFormat where
  validateHeader : Json → Bool
  /-- The message of `JSON.parse` for a text that it rejects. -/
  parseError : List Char → String
  limits : PrivateFrameLimits := {}

namespace PrivateFrameFormat

variable (format : PrivateFrameFormat)

/-- `JSON.parse(buffer.toString("utf8"))` -/
def parseHeader (buffer : List UInt8) : Except String Json :=
  let text := decode buffer
  match Json.parse (encode text) with
  | some decoded => .ok decoded
  | none => .error ("Invalid private frame header JSON: " ++ format.parseError text)

/-- What the loop of `push` does with the bytes behind the two lengths. -/
def readFrame (headerLength payloadLength : ℕ) (body : List UInt8) :
    Except String (Option (PrivateFrame × List UInt8)) := do
  assertFrameLength "header length" headerLength format.limits.maxHeaderBytes
  assertFrameLength "payload length" payloadLength format.limits.maxPayloadBytes
  if headerLength = 0 then .error "Private frame header cannot be empty"
  else if body.length < headerLength + payloadLength then .ok none
  else do
    let decoded ← format.parseHeader (body.take headerLength)
    if !isObjectHeader decoded || !format.validateHeader decoded then
      .error "Invalid private frame routing header"
    else
      .ok (some (⟨decoded, (body.drop headerLength).take payloadLength⟩,
        body.drop (headerLength + payloadLength)))

/-- One turn of the loop of `push`, on the bytes from its offset on. -/
def nextFrame (buffer : List UInt8) : Except String (Option (PrivateFrame × List UInt8)) :=
  if buffer.length < FRAME_PREFIX_BYTES then .ok none
  else
    format.readFrame (readUInt32BE buffer 0) (readUInt32BE buffer 4)
      (buffer.drop FRAME_PREFIX_BYTES)

variable {format} {frame : PrivateFrame}

/-- A frame read takes the bytes of its header and its payload. -/
lemma rest_of_readFrame {headerLength payloadLength : ℕ} {body rest : List UInt8}
    (h : format.readFrame headerLength payloadLength body = .ok (some (frame, rest))) :
    rest = body.drop (headerLength + payloadLength) := by
  obtain ⟨_, _, h⟩ := Except.of_bind h
  obtain ⟨_, _, h⟩ := Except.of_bind h
  split_ifs at h with hempty hshort
  · cases h
  · obtain ⟨decoded, _, h⟩ := Except.of_bind h
    split_ifs at h with hinvalid
    cases h
    rfl

lemma length_lt_of_nextFrame {buffer rest : List UInt8}
    (h : format.nextFrame buffer = .ok (some (frame, rest))) : rest.length < buffer.length := by
  by_cases hshort : buffer.length < FRAME_PREFIX_BYTES
  · rw [nextFrame, if_pos hshort] at h
    cases h
  · rw [nextFrame, if_neg hshort] at h
    rw [rest_of_readFrame h, List.length_drop, List.length_drop]
    rw [FRAME_PREFIX_BYTES] at *
    omega

variable (format)

/-- The loop of `push`. -/
def readFrames (buffer : List UInt8) (frames : List PrivateFrame) :
    Except String (List PrivateFrame × List UInt8) :=
  match _h : format.nextFrame buffer with
  | .error message => .error message
  | .ok none => .ok (frames, buffer)
  | .ok (some (frame, rest)) => readFrames rest (frames ++ [frame])
termination_by buffer.length
decreasing_by exact length_lt_of_nextFrame _h

end PrivateFrameFormat

structure PrivateFrameDecoder where
  format : PrivateFrameFormat
  buffered : List UInt8 := []

namespace PrivateFrameDecoder

def bufferedBytes (decoder : PrivateFrameDecoder) : ℕ := decoder.buffered.length

/-- A chunk that is rejected stays in the buffer. -/
def push (decoder : PrivateFrameDecoder) (chunk : List UInt8) :
    PrivateFrameDecoder × Except String (List PrivateFrame) :=
  let buffered := decoder.buffered ++ chunk
  match decoder.format.readFrames buffered [] with
  | .error message => ({ decoder with buffered }, .error message)
  | .ok (frames, rest) => ({ decoder with buffered := rest }, .ok frames)

def finish (decoder : PrivateFrameDecoder) : Except String Unit :=
  if decoder.buffered.length ≠ 0 then
    .error ("Private frame channel ended with " ++ toString decoder.buffered.length ++
      " incomplete bytes")
  else .ok ()

end PrivateFrameDecoder

/-- The reading side of a channel with listeners that do not throw. -/
structure PrivateFramedChannel where
  decoder : PrivateFrameDecoder
  /-- The frames that the listeners have been called with. -/
  delivered : List PrivateFrame := []
  /-- What the stream has been destroyed with; it emits no data from then on. -/
  destroyed : Option String := none

namespace PrivateFramedChannel

def handleData (channel : PrivateFramedChannel) (chunk : List UInt8) : PrivateFramedChannel :=
  if channel.destroyed.isSome then channel
  else
    match channel.decoder.push chunk with
    | (decoder, .ok frames) => { channel with decoder, delivered := channel.delivered ++ frames }
    | (decoder, .error message) => { channel with decoder, destroyed := some message }

def handleEnd (channel : PrivateFramedChannel) : PrivateFramedChannel :=
  if channel.destroyed.isSome then channel
  else
    match channel.decoder.finish with
    | .ok () => channel
    | .error message => { channel with destroyed := some message }

end PrivateFramedChannel

end Amide
