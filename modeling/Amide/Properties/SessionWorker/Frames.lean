import Amide.Construction.SessionWorker.PrivateFraming
import Amide.Framework.Framing
import Amide.Framework.JsonText

/-!
# Frames in chunks

The loop of `push` drains a `Framing` (`push_eq`), so the rules for readers of chunks hold of it.
Encoded frames come back however their bytes are cut (`frames_of_chunks`), provided that the
headers are objects and valid ones, which the decoder asks for and the encoder does not.

A chunk that holds an error takes the frames in front of it along.  So what a channel delivers of
a stream does not depend on the chunks exactly when no frame precedes an error (`received_eq_iff`).
-/

namespace Amide

open Utf8 List
open PrivateFramedChannel (handleData handleEnd)

variable {message : String}

namespace PrivateFrameFormat

variable {format : PrivateFrameFormat} {headerLength payloadLength : ℕ} {body : List UInt8}

/-! ## One frame -/

/-- More bytes behind a whole frame stay what they are. -/
lemma readFrame_append (h : headerLength + payloadLength ≤ body.length) (t : List UInt8) :
    format.readFrame headerLength payloadLength (body ++ t) =
      (format.readFrame headerLength payloadLength body).map
        (Option.map fun read => (read.1, read.2 ++ t)) := by
  have hlong : ¬ (body ++ t).length < headerLength + payloadLength := by
    rw [length_append]
    omega
  have hheader : (body ++ t).take headerLength = body.take headerLength :=
    take_append_of_le_length (by omega)
  have hpayload : ((body ++ t).drop headerLength).take payloadLength =
      (body.drop headerLength).take payloadLength := by
    rw [drop_append_of_le_length (by omega), take_append_of_le_length]
    rw [length_drop]
    omega
  rw [readFrame, readFrame, if_neg hlong, if_neg (not_lt.2 h), hheader, hpayload,
    drop_append_of_le_length h]
  rcases assertFrameLength "header length" headerLength format.limits.maxHeaderBytes with _ | _
  · rfl
  rcases assertFrameLength "payload length" payloadLength format.limits.maxPayloadBytes with _ | _
  · rfl
  show (if headerLength = 0 then _ else _) = Except.map _ (if headerLength = 0 then _ else _)
  split_ifs
  · rfl
  · rcases format.parseHeader (body.take headerLength) with _ | decoded
    · rfl
    · show (if (!isObjectHeader decoded || !format.validateHeader decoded) = true then _ else _) =
        Except.map _ (if (!isObjectHeader decoded || !format.validateHeader decoded) = true
          then _ else _)
      split_ifs
      · rfl
      · rfl

/-- An error of a frame not yet whole is an error of its lengths. -/
lemma readFrame_of_short (h : body.length < headerLength + payloadLength)
    (herror : format.readFrame headerLength payloadLength body = .error message)
    (more : List UInt8) : format.readFrame headerLength payloadLength more = .error message := by
  rw [readFrame, if_pos h] at herror
  rw [readFrame]
  rcases hheader : assertFrameLength "header length" headerLength format.limits.maxHeaderBytes
  · rw [hheader] at herror
    exact herror
  rcases hpayload : assertFrameLength "payload length" payloadLength
    format.limits.maxPayloadBytes with _ | _
  · rw [hheader, hpayload] at herror
    exact herror
  rw [hheader, hpayload] at herror
  have hempty : headerLength = 0 := by
    by_contra hne
    have hnone : (if headerLength = 0 then
        Except.error "Private frame header cannot be empty"
      else .ok none : Except String (Option (PrivateFrame × List UInt8))) = .error message := herror
    rw [if_neg hne] at hnone
    cases hnone
  subst hempty
  exact herror

lemma readUInt32BE_append {buffer : List UInt8} {offset : ℕ} (h : offset + 4 ≤ buffer.length)
    (t : List UInt8) : readUInt32BE (buffer ++ t) offset = readUInt32BE buffer offset := by
  rw [readUInt32BE, readUInt32BE, drop_append_of_le_length (by omega), take_append_of_le_length]
  rw [length_drop]
  omega

/-- The bytes of the frame that a buffer begins with, by its two lengths. -/
def frameLength (buffer : List UInt8) : ℕ :=
  FRAME_PREFIX_BYTES + (readUInt32BE buffer 0 + readUInt32BE buffer 4)

lemma nextFrame_append {s : List UInt8} (hhead : FRAME_PREFIX_BYTES ≤ s.length)
    (h : frameLength s ≤ s.length) (t : List UInt8) :
    format.nextFrame (s ++ t) =
      (format.nextFrame s).map (Option.map fun read => (read.1, read.2 ++ t)) := by
  have h8 : 8 ≤ s.length := hhead
  have hbody : readUInt32BE s 0 + readUInt32BE s 4 ≤ (s.drop FRAME_PREFIX_BYTES).length := by
    rw [length_drop]
    rw [frameLength] at h
    omega
  rw [nextFrame, nextFrame, if_neg (by rw [length_append]; omega), if_neg (not_lt.2 hhead),
    readUInt32BE_append (by omega), readUInt32BE_append (by omega),
    drop_append_of_le_length hhead, readFrame_append hbody]

variable {s rest : List UInt8}

lemma frameLength_le_of_nextFrame {frame : PrivateFrame}
    (h : format.nextFrame s = .ok (some (frame, rest))) :
    FRAME_PREFIX_BYTES ≤ s.length ∧ frameLength s ≤ s.length ∧ rest = s.drop (frameLength s) := by
  by_cases hshort : s.length < FRAME_PREFIX_BYTES
  · rw [nextFrame, if_pos hshort] at h
    cases h
  rw [nextFrame, if_neg hshort] at h
  have hrest := rest_of_readFrame h
  refine ⟨not_lt.1 hshort, ?_, ?_⟩
  · obtain ⟨_, _, h⟩ := Except.of_bind h
    obtain ⟨_, _, h⟩ := Except.of_bind h
    split_ifs at h with hempty hless
    · cases h
    · rw [length_drop] at hless
      rw [frameLength]
      omega
  · rw [hrest, drop_drop, frameLength]

/-! ## The stream -/

lemma exists_of_nextFrame {frame : PrivateFrame}
    (h : format.nextFrame s = .ok (some (frame, rest))) :
    ∃ bytes, bytes ≠ [] ∧ s = bytes ++ rest ∧
      ∀ t, format.nextFrame (bytes ++ t) = .ok (some (frame, t)) := by
  obtain ⟨hhead, hlen, hrest⟩ := frameLength_le_of_nextFrame h
  have hsplit : s.take (frameLength s) ++ rest = s := by rw [hrest, take_append_drop]
  have hwhole : (s.take (frameLength s)).length = frameLength s := length_take_of_le hlen
  have hle : FRAME_PREFIX_BYTES ≤ frameLength s := Nat.le_add_right _ _
  have h8 : 8 ≤ (s.take (frameLength s)).length := by
    rw [hwhole]
    exact hle
  have hsame : frameLength (s.take (frameLength s)) = frameLength s := by
    conv_rhs => rw [frameLength, ← hsplit, readUInt32BE_append (by omega),
      readUInt32BE_append (by omega)]
    rfl
  have happend : ∀ t, format.nextFrame (s.take (frameLength s) ++ t) = _ :=
    nextFrame_append h8 (hsame.trans hwhole.symm).le
  refine ⟨s.take (frameLength s), ?_, hsplit.symm, fun t => ?_⟩
  · intro hnil
    rw [hnil] at h8
    cases h8
  · have hall := happend rest
    rw [hsplit, h] at hall
    obtain ⟨read, hread, heq⟩ := Except.map_eq_ok_iff.1 hall.symm
    obtain ⟨⟨frame', left⟩, rfl, hpair⟩ := Option.map_eq_some_iff.1 heq
    obtain ⟨rfl, hleft⟩ := Prod.ext_iff.1 hpair
    have hnil : left = [] := append_left_eq_self.1 hleft
    rw [happend t, hread, hnil]
    rfl

lemma nextFrame_append_error {s : List UInt8}
    (h : format.nextFrame s = .error message) (t : List UInt8) :
    format.nextFrame (s ++ t) = .error message := by
  by_cases hshort : s.length < FRAME_PREFIX_BYTES
  · rw [nextFrame, if_pos hshort] at h
    cases h
  · have hhead : FRAME_PREFIX_BYTES ≤ s.length := not_lt.1 hshort
    have h8 : 8 ≤ s.length := hhead
    rcases Nat.lt_or_ge s.length (frameLength s) with hless | hmore
    · rw [nextFrame, if_neg hshort] at h
      rw [nextFrame, if_neg (by rw [length_append]; omega), readUInt32BE_append (by omega),
        readUInt32BE_append (by omega), drop_append_of_le_length hhead]
      refine readFrame_of_short ?_ h _
      rw [length_drop]
      rw [frameLength] at hless
      omega
    · rw [nextFrame_append hhead hmore, h]
      rfl

variable (format) in
/-- The frames of a stream, as `push` reads them. -/
def framing : Framing UInt8 String PrivateFrame where
  next := format.nextFrame
  next_nil := rfl
  next_some := exists_of_nextFrame
  next_error := nextFrame_append_error

lemma readFrames_step (buffer : List UInt8) (frames : List PrivateFrame) :
    format.readFrames buffer frames = match format.nextFrame buffer with
      | .error message => .error message
      | .ok none => .ok (frames, buffer)
      | .ok (some (frame, rest)) => format.readFrames rest (frames ++ [frame]) := by
  rw [readFrames]
  split
  all_goals
    rename_i h
    rw [h]

lemma readFrames_eq (buffer : List UInt8) (frames : List PrivateFrame) :
    format.readFrames buffer frames = match format.framing.drain buffer with
      | (more, .ok rest) => .ok (frames ++ more, rest)
      | (_, .error message) => .error message := by
  induction buffer, frames using readFrames.induct format with
  | case1 buffer frames message hnext =>
    rw [readFrames_step, hnext, format.framing.drain_of_error hnext]
  | case2 buffer frames hnext =>
    rw [readFrames_step, hnext, format.framing.drain_of_none hnext]
    simp
  | case3 buffer frames frame rest hnext ih =>
    rw [readFrames_step, hnext, format.framing.drain_of_some hnext]
    show format.readFrames rest (frames ++ [frame]) = _
    rw [ih]
    rcases format.framing.drain rest with ⟨more, message | rest'⟩
    · rfl
    · simp

end PrivateFrameFormat

namespace PrivateFrameDecoder

variable {decoder : PrivateFrameDecoder}

/-- `push` is the reader that drops the frames in front of an error. -/
theorem push_eq (decoder : PrivateFrameDecoder) (chunk : List UInt8) : decoder.push chunk =
      match decoder.format.framing.push decoder.buffered chunk with
      | .ok (frames, rest) => ({ decoder with buffered := rest }, .ok frames)
      | .error message => ({ decoder with buffered := decoder.buffered ++ chunk }, .error message)
      := by
  rw [push, PrivateFrameFormat.readFrames_eq, Framing.push]
  rcases decoder.format.framing.drain (decoder.buffered ++ chunk) with ⟨frames, message | rest⟩
  · rfl
  · rfl

/-- A decoder given one chunk after the other, up to the first error. -/
def pushAll (decoder : PrivateFrameDecoder) :
    List (List UInt8) → Except String (PrivateFrameDecoder × List PrivateFrame)
  | [] => .ok (decoder, [])
  | chunk :: chunks =>
    match decoder.push chunk with
    | (_, .error message) => .error message
    | (decoder, .ok frames) =>
      (decoder.pushAll chunks).map fun result => (result.1, frames ++ result.2)

lemma pushAll_eq (decoder : PrivateFrameDecoder) (chunks : List (List UInt8)) :
    decoder.pushAll chunks = match decoder.format.framing.feed decoder.buffered chunks with
      | (frames, .ok rest) => .ok ({ decoder with buffered := rest }, frames)
      | (_, .error message) => .error message := by
  induction chunks generalizing decoder with
  | nil => rfl
  | cons chunk chunks ih =>
    rw [pushAll, push_eq, Framing.feed]
    rcases decoder.format.framing.push decoder.buffered chunk with message | ⟨frames, rest⟩
    · rfl
    · dsimp only
      rw [ih]
      rcases decoder.format.framing.feed rest chunks with ⟨more, message | rest'⟩
      · rfl
      · rfl

end PrivateFrameDecoder

/-! ## Encoded frames -/

/-- Four bytes written are read back, behind any others. -/
lemma readUInt32BE_of_write {value : ℕ} {bytes : List UInt8} (h : writeUInt32BE value = .ok bytes) :
    bytes.length = 4 ∧ ∀ before after, readUInt32BE (before ++ bytes ++ after) before.length =
      value := by
  rw [writeUInt32BE] at h
  split_ifs at h with hlt
  cases h
  refine ⟨rfl, fun before after => ?_⟩
  rw [readUInt32BE, append_assoc, drop_left]
  simp only [cons_append, take_succ_cons, take_zero, foldl_cons, foldl_nil, UInt8.toNat_ofNat']
  omega

lemma assertFrameLength_eq_ok_iff {name : String} {value maximum : ℕ} {u : Unit} :
    assertFrameLength name value maximum = .ok u ↔ value ≤ maximum := by
  rw [assertFrameLength]
  split_ifs with h
  · exact ⟨nofun, fun hle => absurd hle (by omega)⟩
  · exact ⟨fun _ => by omega, fun _ => rfl⟩

variable (format : PrivateFrameFormat)

/-- A header that is written can be read. -/
lemma PrivateFrameFormat.parseHeader_stringify (header : Json) :
    format.parseHeader header.stringify = .ok header := by
  obtain ⟨text, htext⟩ := Json.isUtf8_stringify header
  have hencode : encode text = header.stringify := htext.symm
  rw [parseHeader, ← hencode, decode_encode, hencode, Json.parse_stringify]

/-- A decoder that takes a header and lengths at least as large takes the frames of an encoder. -/
structure PrivateFrameFormat.Takes (format : PrivateFrameFormat) (limits : PrivateFrameLimits)
    (frame : PrivateFrame) : Prop where
  isObjectHeader : isObjectHeader frame.header = true
  validateHeader : format.validateHeader frame.header = true
  maxHeaderBytes : limits.maxHeaderBytes ≤ format.limits.maxHeaderBytes
  maxPayloadBytes : limits.maxPayloadBytes ≤ format.limits.maxPayloadBytes

lemma PrivateFrameFormat.Takes.readFrame {format : PrivateFrameFormat} {limits : PrivateFrameLimits}
    {frame : PrivateFrame} (h : format.Takes limits frame) {header : List UInt8}
    (hparse : format.parseHeader header = .ok frame.header) (hne : header.length ≠ 0)
    (hheader : header.length ≤ limits.maxHeaderBytes)
    (hpayload : frame.payload.length ≤ limits.maxPayloadBytes) (t : List UInt8) :
    format.readFrame header.length frame.payload.length (header ++ (frame.payload ++ t)) =
      .ok (some (frame, t)) := by
  have hshort :
      ¬ (header ++ (frame.payload ++ t)).length < header.length + frame.payload.length := by
    simp only [length_append]
    omega
  have hvalid : ¬ (!Amide.isObjectHeader frame.header || !format.validateHeader frame.header) =
      true := by
    simp [h.isObjectHeader, h.validateHeader]
  rw [PrivateFrameFormat.readFrame,
    (assertFrameLength_eq_ok_iff (u := ())).2 (hheader.trans h.maxHeaderBytes),
    (assertFrameLength_eq_ok_iff (u := ())).2 (hpayload.trans h.maxPayloadBytes), if_neg hne,
      if_neg hshort,
    take_left, hparse]
  show (if (!Amide.isObjectHeader frame.header || !format.validateHeader frame.header) = true
    then _ else _) = _
  rw [if_neg hvalid, drop_left, take_left, ← drop_drop, drop_left, drop_left]

lemma encodes_of_encodePrivateFrame {format : PrivateFrameFormat} {limits : PrivateFrameLimits}
    {frame : PrivateFrame} {bytes : List UInt8} (htakes : format.Takes limits frame)
    (h : encodePrivateFrame limits frame.header frame.payload = .ok bytes) :
    format.framing.Encodes bytes frame := by
  obtain ⟨_, hheader, h⟩ := Except.of_bind h
  obtain ⟨_, hpayload, h⟩ := Except.of_bind h
  rw [assertFrameLength_eq_ok_iff] at hheader hpayload
  split_ifs at h with hempty
  obtain ⟨headerLength, hwriteHeader, h⟩ := Except.of_bind h
  obtain ⟨payloadLength, hwritePayload, h⟩ := Except.of_bind h
  cases h
  obtain ⟨hlen, hreadHeader⟩ := readUInt32BE_of_write hwriteHeader
  obtain ⟨hlen', hreadPayload⟩ := readUInt32BE_of_write hwritePayload
  refine ⟨?_, fun t => ?_⟩
  · intro hnil
    have hzero := congrArg List.length hnil
    simp only [length_append, length_nil] at hzero
    omega
  · have hfirst : readUInt32BE (headerLength ++ payloadLength ++ frame.header.stringify ++
        frame.payload ++ t) 0 = frame.header.stringify.length := by
      simpa using hreadHeader [] (payloadLength ++ frame.header.stringify ++ frame.payload ++ t)
    have hsecond : readUInt32BE (headerLength ++ payloadLength ++ frame.header.stringify ++
        frame.payload ++ t) 4 = frame.payload.length := by
      have h := hreadPayload headerLength (frame.header.stringify ++ frame.payload ++ t)
      rw [hlen] at h
      simpa using h
    have hbody : (headerLength ++ payloadLength ++ frame.header.stringify ++ frame.payload ++
        t).drop FRAME_PREFIX_BYTES = frame.header.stringify ++ (frame.payload ++ t) := by
      have h8 : FRAME_PREFIX_BYTES = (headerLength ++ payloadLength).length := by
        rw [length_append, hlen, hlen']
        rfl
      rw [h8, append_assoc, append_assoc _ frame.header.stringify, drop_left]
    have hlong : ¬ (headerLength ++ payloadLength ++ frame.header.stringify ++ frame.payload ++
        t).length < FRAME_PREFIX_BYTES := by
      simp only [length_append, hlen, hlen', FRAME_PREFIX_BYTES]
      omega
    show format.nextFrame _ = _
    rw [PrivateFrameFormat.nextFrame, if_neg hlong, hfirst, hsecond, hbody]
    exact htakes.readFrame (format.parseHeader_stringify frame.header) hempty hheader hpayload t

/-! ## Frames in chunks -/

/-- The frames come back whole and in order, and in between the decoder holds the bytes of no
frame it has returned.  The headers are objects that the validator takes. -/
theorem frames_of_chunks (format : PrivateFrameFormat) (limits : PrivateFrameLimits)
    (frames : List PrivateFrame) (encodings chunks : List (List UInt8))
    (hencode : List.Forall₂
      (fun frame bytes => encodePrivateFrame limits frame.header frame.payload = .ok bytes)
      frames encodings)
    (htakes : ∀ frame ∈ frames, format.Takes limits frame)
    (hchunks : chunks.flatten = encodings.flatten) :
    (∃ decoder, PrivateFrameDecoder.pushAll { format } chunks = .ok (decoder, frames) ∧
      decoder.bufferedBytes = 0) ∧
    ∀ before after, before ++ after = chunks →
      ∃ n decoder, PrivateFrameDecoder.pushAll { format } before = .ok (decoder, frames.take n) ∧
        decoder.bufferedBytes + (encodings.take n).flatten.length = before.flatten.length := by
  have hencodes : List.Forall₂ format.framing.Encodes encodings frames := by
    rw [forall₂_iff_get] at hencode ⊢
    refine ⟨hencode.1.symm, fun i hi hi' => ?_⟩
    exact encodes_of_encodePrivateFrame (htakes _ (get_mem frames ⟨i, hi'⟩))
      (hencode.2 i hi' hi)
  have hhead : ∀ before after, before ++ after = chunks →
      ∃ n rest, format.framing.feed [] before = (frames.take n, .ok rest) ∧
        before.flatten = (encodings.take n).flatten ++ rest := by
    intro before after hsplit
    have hflatten : before.flatten ++ after.flatten = encodings.flatten := by
      rw [← flatten_append, hsplit, hchunks]
    obtain ⟨n, rest, hdrain, hbytes⟩ := format.framing.drain_of_encodes hencodes hflatten
    refine ⟨n, rest, ?_, hbytes⟩
    have hfeed := format.framing.feed_of_ok before format.framing.drain_nil
      (by rw [nil_append, hdrain])
    rw [hfeed, nil_append, hdrain]
  refine ⟨⟨{ format }, ?_, rfl⟩, fun before after hsplit => ?_⟩
  · have hdrain := format.framing.drain_flatten_of_encodes hencodes
    have hfeed := format.framing.feed_of_ok chunks format.framing.drain_nil
      (by rw [nil_append, hchunks, hdrain])
    rw [PrivateFrameDecoder.pushAll_eq, hfeed, nil_append, hchunks, hdrain]
  · obtain ⟨n, rest, hfeed, hbytes⟩ := hhead before after hsplit
    refine ⟨n, { format, buffered := rest }, ?_, ?_⟩
    · rw [PrivateFrameDecoder.pushAll_eq, hfeed]
    · show rest.length + _ = _
      rw [hbytes, length_append, Nat.add_comm]

/-- A frame in three chunks, cut inside its prefix and inside its header. -/
theorem frames_of_chunks_cut :
    ∃ decoder, PrivateFrameDecoder.pushAll { format := ⟨fun _ => true, fun _ => "", {}⟩ }
        [[0, 0, 0, 2, 0], [0, 0, 0, 123], [125]] = .ok (decoder, [⟨.obj [], []⟩]) ∧
      decoder.bufferedBytes = 0 :=
  (frames_of_chunks ⟨fun _ => true, fun _ => "", {}⟩ {} [⟨.obj [], []⟩]
    [[0, 0, 0, 2, 0, 0, 0, 0, 123, 125]] [[0, 0, 0, 2, 0], [0, 0, 0, 123], [125]]
    (.cons rfl .nil) (by
      intro frame hframe
      obtain rfl := mem_singleton.1 hframe
      exact ⟨rfl, rfl, le_rfl, le_rfl⟩) rfl).1

/-- A frame with an array for a header, which its encoder takes. -/
theorem not_frames_of_chunks_array : ∃ bytes, encodePrivateFrame {} (.arr []) [] = .ok bytes ∧
      PrivateFrameDecoder.pushAll { format := ⟨fun _ => true, fun _ => "", {}⟩ } [bytes] =
        .error "Invalid private frame routing header" := by
  refine ⟨[0, 0, 0, 2, 0, 0, 0, 0, 91, 93], by rfl, ?_⟩
  set format : PrivateFrameFormat := ⟨fun _ => true, fun _ => "", {}⟩
  have hparse : format.parseHeader [91, 93] = .ok (.arr []) :=
    format.parseHeader_stringify (.arr [])
  have hnext : format.framing.next [0, 0, 0, 2, 0, 0, 0, 0, 91, 93] =
      .error "Invalid private frame routing header" := by
    show format.readFrame 2 0 [91, 93] = _
    rfl
  rw [PrivateFrameDecoder.pushAll_eq, Framing.feed, Framing.push, nil_append,
    format.framing.drain_of_error hnext]

/-! ## Frames delivered -/

/-- A channel that has received the chunks and then the end of the stream. -/
def received (format : PrivateFrameFormat) (chunks : List (List UInt8)) : PrivateFramedChannel :=
  (chunks.foldl handleData { decoder := { format } }).handleEnd

/-- What the stream is destroyed with, by what its reader ends with. -/
def destroyedWith : Except String (List UInt8) → Option String
  | .error message => some message
  | .ok rest => if rest.length ≠ 0 then
      some ("Private frame channel ended with " ++ toString rest.length ++ " incomplete bytes")
    else none

lemma handleData_of_destroyed {channel : PrivateFramedChannel}
    (h : channel.destroyed = some message) (chunks : List (List UInt8)) :
    chunks.foldl handleData channel = channel := by
  induction chunks with
  | nil => rfl
  | cons chunk chunks ih =>
    have hskip : channel.handleData chunk = channel := if_pos (by simp [h])
    rw [foldl_cons, hskip, ih]

lemma handleEnd_foldl (buffered : List UInt8) (delivered : List PrivateFrame)
    (chunks : List (List UInt8)) : let channel := (chunks.foldl handleData
      { decoder := { format, buffered }, delivered }).handleEnd
    channel.delivered = delivered ++ (format.framing.feed buffered chunks).1 ∧
      channel.destroyed = destroyedWith (format.framing.feed buffered chunks).2 := by
  induction chunks generalizing buffered delivered with
  | nil =>
    have hend : ([].foldl handleData
        { decoder := { format, buffered }, delivered } : PrivateFramedChannel).handleEnd =
        { decoder := { format, buffered }, delivered,
          destroyed := destroyedWith (.ok buffered) } := by
      rw [foldl_nil, handleEnd, if_neg (by simp), PrivateFrameDecoder.finish, destroyedWith]
      split_ifs
      · rfl
      · rfl
    rw [hend]
    exact ⟨(append_nil delivered).symm, rfl⟩
  | cons chunk chunks ih =>
    have hdata : ({ decoder := { format, buffered }, delivered } : PrivateFramedChannel).handleData
        chunk =
        match format.framing.push buffered chunk with
        | .ok (frames, rest) =>
          { decoder := { format, buffered := rest }, delivered := delivered ++ frames }
        | .error message =>
          { decoder := { format, buffered := buffered ++ chunk }, delivered,
            destroyed := some message } := by
      rw [handleData, if_neg (by simp), PrivateFrameDecoder.push_eq]
      rcases format.framing.push buffered chunk with message | ⟨frames, rest⟩
      · rfl
      · rfl
    rw [foldl_cons, hdata, Framing.feed]
    rcases format.framing.push buffered chunk with message | ⟨frames, rest⟩
    · rw [handleData_of_destroyed rfl]
      exact ⟨(append_nil delivered).symm, rfl⟩
    · obtain ⟨hdelivered, hdestroyed⟩ := ih rest (delivered ++ frames)
      refine ⟨?_, hdestroyed⟩
      rw [← append_assoc]
      exact hdelivered

/-- The channel reads the stream as its reader does. -/
theorem received_eq (chunks : List (List UInt8)) :
    (received format chunks).delivered = (format.framing.feed [] chunks).1 ∧
      (received format chunks).destroyed = destroyedWith (format.framing.feed [] chunks).2 :=
  handleEnd_foldl format [] [] chunks

/-- The error is the same wherever the stream is cut. -/
theorem destroyed_received (chunks : List (List UInt8)) : (received format chunks).destroyed =
      destroyedWith (format.framing.drain chunks.flatten).2 := by
  rw [(received_eq format chunks).2, format.framing.feed_snd chunks format.framing.drain_nil,
    nil_append]

/-- All that precedes an error is delivered, and the same is for all chunks, exactly when no frame
precedes an error. -/
theorem received_eq_iff (format : PrivateFrameFormat) (bytes : List UInt8) :
    (∀ chunks chunks' : List (List UInt8), chunks.flatten = bytes → chunks'.flatten = bytes →
      (received format chunks).delivered = (received format chunks').delivered ∧
      (received format chunks).destroyed = (received format chunks').destroyed ∧
      (received format chunks).delivered = (format.framing.drain bytes).1) ↔
    (format.framing.drain bytes).1 = [] ∨ ∃ rest, (format.framing.drain bytes).2 = .ok rest := by
  constructor
  · intro h
    rw [← format.framing.feed_eq_iff]
    intro chunks chunks' hchunks hchunks'
    obtain ⟨hdelivered, -, -⟩ := h chunks chunks' hchunks hchunks'
    rw [(received_eq format chunks).1, (received_eq format chunks').1] at hdelivered
    apply Prod.ext hdelivered
    rw [format.framing.feed_snd chunks format.framing.drain_nil,
      format.framing.feed_snd chunks' format.framing.drain_nil, hchunks, hchunks']
  · intro hcond chunks chunks' hchunks hchunks'
    have hfeed := (format.framing.feed_eq_iff bytes).2 hcond
    -- one chunk with all of the stream delivers what precedes the error, if that is nothing
    have hall : (format.framing.feed [] chunks).1 = (format.framing.drain bytes).1 := by
      rcases hcond with hnil | ⟨rest, hok⟩
      · have hhead := format.framing.feed_fst_prefix chunks format.framing.drain_nil
        rw [nil_append, hchunks, hnil, prefix_nil] at hhead
        rw [hhead, hnil]
      · rw [← hchunks] at hok
        rw [format.framing.feed_of_ok chunks format.framing.drain_nil hok, nil_append, hchunks]
    refine ⟨?_, ?_, ?_⟩
    · rw [(received_eq format chunks).1, (received_eq format chunks').1,
        hfeed chunks chunks' hchunks hchunks']
    · rw [destroyed_received, destroyed_received, hchunks, hchunks']
    · rw [(received_eq format chunks).1, hall]

/-- A frame, and then a header of length zero, in one chunk and in two. -/
theorem not_received_eq_emptyHeader :
    let format : PrivateFrameFormat := ⟨fun _ => true, fun _ => "", {}⟩
    let frame : List UInt8 := [0, 0, 0, 2, 0, 0, 0, 0, 123, 125]
    let malformed : List UInt8 := [0, 0, 0, 0, 0, 0, 0, 0]
    (received format [frame ++ malformed]).delivered = [] ∧
      (received format [frame, malformed]).delivered = [⟨.obj [], []⟩] := by
  intro format frame malformed
  have hencodes : format.framing.Encodes frame ⟨.obj [], []⟩ :=
    @encodes_of_encodePrivateFrame format {} ⟨.obj [], []⟩ frame ⟨rfl, rfl, le_rfl, le_rfl⟩ rfl
  have hmalformed : format.framing.next malformed =
      .error "Private frame header cannot be empty" := by
    show format.readFrame 0 0 [] = _
    rfl
  have hframe := hencodes.2 []
  rw [append_nil] at hframe
  constructor
  · rw [(received_eq format _).1, Framing.feed, Framing.push, nil_append,
      format.framing.drain_of_some (hencodes.2 malformed), format.framing.drain_of_error hmalformed]
  · rw [(received_eq format _).1, Framing.feed, Framing.push, nil_append,
      format.framing.drain_of_some hframe, format.framing.drain_nil]
    show [_] ++ (format.framing.feed [] [malformed]).1 = _
    rw [Framing.feed, Framing.push, nil_append, format.framing.drain_of_error hmalformed]
    rfl

end Amide
