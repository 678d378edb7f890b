import Mathlib.Tactic.IntervalCases
import Amide.Construction.Tools.OutputAccumulator
import Amide.Properties.Tools.TailTruncation

/-!
# Snapshots of streaming output

The accumulator counts the whole output and keeps an end of it (`OutputAccumulator.Follows`).
What it drops ends in a character that no longer fitted into twice the byte limit, so a snapshot
still sees everything the tail truncation looks at, unless nothing but the cut end of the last
line is left and that end is within the limit: then it passes for a whole line.
An end that short takes a character of more bytes than the limit leaves room for, so from a limit
of four bytes on no output is affected, and below it some is (`snapshot_agrees_iff`).

Every byte of an output shown truncated is in the temp file (`fullOutput_of_run`).
-/

namespace Amide

open Utf8 List

/-! ## Following the output -/

namespace OutputAccumulator

variable {acc : OutputAccumulator} {text more : List Char} {path : String → String}

/-- What a tail still has of the text. -/
inductive KeepsEnd (maxRollingBytes : ℕ) (tailText : List Char) (tailStartsAtLineBoundary : Bool)
    (text : List Char) : Prop
  | all (htail : tailText = text) (hboundary : tailStartsAtLineBoundary = true)
  | cut (front : List Char) (c : Char) (htail : front ++ [c] ++ tailText = text)
      (hroom : maxRollingBytes < c.utf8Size + byteLength tailText)
      (hboundary : tailStartsAtLineBoundary = true ↔ c = '\n')

/-- `acc` has taken in the text, but for the lines. -/
structure FollowsBytes (acc : OutputAccumulator) (text : List Char) : Prop where
  maxRollingBytes : acc.maxRollingBytes = max (acc.maxBytes * 2) 1
  totalDecodedBytes : acc.totalDecodedBytes = byteLength text
  tailBytes : acc.tailBytes = byteLength acc.tailText
  keepsEnd : KeepsEnd acc.maxRollingBytes acc.tailText acc.tailStartsAtLineBoundary text

/-- `acc` has taken in the text. -/
structure Follows (acc : OutputAccumulator) (text : List Char) : Prop
    extends acc.FollowsBytes text where
  totalLines : acc.totalLines = 1 + text.count '\n'

lemma follows_new (options : OutputAccumulatorOptions) : (new options).Follows [] where
  maxRollingBytes := rfl
  totalDecodedBytes := rfl
  tailBytes := rfl
  keepsEnd := .all rfl rfl
  totalLines := rfl

lemma trimTail_of_le (h : byteLength acc.tailText ≤ acc.maxRollingBytes) :
    acc.trimTail = { acc with tailBytes := byteLength acc.tailText } := if_pos h

lemma trimTail_of_gt (h : acc.maxRollingBytes < byteLength acc.tailText) {front : List Char}
    {c : Char} (hcut : front ++ [c] ++ tailWithin acc.maxRollingBytes acc.tailText = acc.tailText) :
    acc.trimTail = { acc with
      tailStartsAtLineBoundary := c = '\n'
      tailText := tailWithin acc.maxRollingBytes acc.tailText
      tailBytes := byteLength (tailWithin acc.maxRollingBytes acc.tailText) } := by
  have hstart : charStart (encode acc.tailText)
      ((encode acc.tailText).length - acc.maxRollingBytes) = (encode (front ++ [c])).length :=
    charStart_eq h hcut
  have hpos : 0 < (encode (front ++ [c])).length := by
    show 0 < byteLength (front ++ [c])
    have hc := c.utf8Size_pos
    rw [byteLength_append, byteLength_cons]
    omega
  have hlast : (encode acc.tailText)[(encode (front ++ [c])).length - 1]? = some 10 ↔ c = '\n' := by
    rw [← getLast?_encode_eq_lf c front, getLast?_eq_getElem?]
    conv_lhs => rw [← hcut, encode_append]
    rw [getElem?_append_left (by omega)]
  have hdrop : (encode acc.tailText).drop (encode (front ++ [c])).length =
      encode (tailWithin acc.maxRollingBytes acc.tailText) := by
    rw [← hstart]
    exact drop_charStart h
  have hlong : ¬ (encode acc.tailText).length ≤ acc.maxRollingBytes := not_le.2 h
  have hbyte : ((encode acc.tailText)[(encode (front ++ [c])).length - 1]? == some 10) =
      decide (c = '\n') := by
    rw [Bool.eq_iff_iff, beq_iff_eq, decide_eq_true_iff]
    exact hlast
  rw [trimTail, if_neg hlong]
  dsimp only
  rw [hstart, hdrop, decode_encode, if_neg hpos.ne', hbyte]

lemma followsBytes_trimTail (h : acc.FollowsBytes text) : acc.trimTail.FollowsBytes text := by
  rcases le_or_gt (byteLength acc.tailText) acc.maxRollingBytes with hle | hgt
  · rw [trimTail_of_le hle]
    exact ⟨h.maxRollingBytes, h.totalDecodedBytes, rfl, h.keepsEnd⟩
  · obtain ⟨front, c, hcut, hroom⟩ := exists_tailWithin hgt
    obtain ⟨dropped, htext⟩ : ∃ dropped, dropped ++ acc.tailText = text := by
      cases h.keepsEnd with
      | all htail hbound => exact ⟨[], htail⟩
      | cut front c htail hroom hbound => exact ⟨_, htail⟩
    rw [trimTail_of_gt hgt hcut]
    refine ⟨h.maxRollingBytes, h.totalDecodedBytes, rfl, ?_⟩
    -- what is cut off ends in a character for which there was no room
    refine .cut (dropped ++ front) c ?_ hroom (decide_eq_true_iff)
    show dropped ++ front ++ [c] ++ tailWithin acc.maxRollingBytes acc.tailText = text
    rw [← htext]
    conv_rhs => rw [← hcut]
    simp only [append_assoc]

lemma followsBytes_extendTail (h : acc.FollowsBytes text) (more : List Char) :
    (acc.extendTail more).FollowsBytes (text ++ more) := by
  rw [extendTail]
  set extended : OutputAccumulator := { acc with
    totalDecodedBytes := acc.totalDecodedBytes + byteLength more
    tailText := acc.tailText ++ more
    tailBytes := acc.tailBytes + byteLength more } with hextended
  have hext : extended.FollowsBytes (text ++ more) := by
    refine ⟨h.maxRollingBytes, ?_, ?_, ?_⟩
    · show acc.totalDecodedBytes + byteLength more = _
      rw [h.totalDecodedBytes, byteLength_append]
    · show acc.tailBytes + byteLength more = byteLength (acc.tailText ++ more)
      rw [h.tailBytes, byteLength_append]
    · cases h.keepsEnd with
      | all htail hbound => exact .all (congrArg (· ++ more) htail) hbound
      | cut front c htail hroom hbound =>
        refine .cut front c ?_ ?_ hbound
        · rw [← htail, append_assoc _ acc.tailText]
        · show acc.maxRollingBytes < c.utf8Size + byteLength (acc.tailText ++ more)
          rw [byteLength_append]
          omega
  split_ifs with htrim
  · exact followsBytes_trimTail hext
  · exact hext

/-- Taking in a text touches the tail and the counters. -/
lemma exists_extendTail (acc : OutputAccumulator) (text : List Char) :
    ∃ boundary tail bytes, acc.extendTail text = { acc with
      totalDecodedBytes := acc.totalDecodedBytes + byteLength text
      tailStartsAtLineBoundary := boundary
      tailText := tail
      tailBytes := bytes } := by
  rw [extendTail]
  split_ifs
  · rw [trimTail]
    split_ifs
    · exact ⟨_, _, _, rfl⟩
    · exact ⟨_, _, _, rfl⟩
  · exact ⟨_, _, _, rfl⟩

lemma exists_countLines (acc : OutputAccumulator) (text : List Char) :
    ∃ bytes, acc.countLines text = { acc with
      totalLines := acc.totalLines + text.count '\n', currentLineBytes := bytes } := by
  rw [countLines]
  split_ifs with h
  · exact ⟨_, by rw [h]; rfl⟩
  · exact ⟨_, rfl⟩

lemma follows_appendDecodedText (h : acc.Follows text) (more : List Char) :
    (acc.appendDecodedText more).Follows (text ++ more) := by
  rw [appendDecodedText]
  split_ifs with hempty
  · rwa [eq_nil_of_length_eq_zero hempty, append_nil]
  · have hbytes := followsBytes_extendTail h.toFollowsBytes more
    have hlines : (acc.extendTail more).totalLines = acc.totalLines := by
      obtain ⟨boundary, tail, bytes, hextend⟩ := exists_extendTail acc more
      rw [hextend]
    obtain ⟨bytes, hcount⟩ := exists_countLines (acc.extendTail more) more
    rw [hcount]
    refine ⟨⟨hbytes.maxRollingBytes, hbytes.totalDecodedBytes, hbytes.tailBytes,
      hbytes.keepsEnd⟩, ?_⟩
    show (acc.extendTail more).totalLines + more.count '\n' = _
    rw [hlines, h.totalLines, count_append, Nat.add_assoc]

/-- What `appendDecodedText` leaves alone. -/
lemma exists_appendDecodedText (acc : OutputAccumulator) (text : List Char) :
    ∃ decodedBytes boundary tail bytes lines line, acc.appendDecodedText text = { acc with
      totalDecodedBytes := decodedBytes
      tailStartsAtLineBoundary := boundary
      tailText := tail
      tailBytes := bytes
      totalLines := lines
      currentLineBytes := line } := by
  rw [appendDecodedText]
  split_ifs
  · exact ⟨_, _, _, _, _, _, rfl⟩
  · obtain ⟨boundary, tail, bytes, hextend⟩ := exists_extendTail acc text
    obtain ⟨line, hcount⟩ := exists_countLines (acc.extendTail text) text
    rw [hcount, hextend]
    exact ⟨_, _, _, _, _, _, rfl⟩

/-! ## What a snapshot sees -/

/-- Nothing is left but a cut end of the last line, and it is within the limit. -/
def HoldsShortEnd (acc : OutputAccumulator) : Prop :=
  acc.tailStartsAtLineBoundary = false ∧ '\n' ∉ acc.tailText ∧ acc.tailBytes ≤ acc.maxBytes

instance (acc : OutputAccumulator) : Decidable acc.HoldsShortEnd :=
  inferInstanceAs (Decidable (_ ∧ _ ∧ _))

lemma getSnapshotText_of_boundary (h : acc.tailStartsAtLineBoundary = true) :
    acc.getSnapshotText = acc.tailText := if_pos h

lemma getSnapshotText_of_notMem (h : '\n' ∉ acc.tailText) : acc.getSnapshotText = acc.tailText := by
  rw [getSnapshotText, if_neg h, ite_self]

/-- Behind the first line feed. -/
lemma exists_getSnapshotText (hbound : acc.tailStartsAtLineBoundary = false)
    (h : '\n' ∈ acc.tailText) :
    ∃ cut, '\n' ∉ cut ∧ acc.tailText = cut ++ '\n' :: acc.getSnapshotText := by
  obtain ⟨cut, rest, htail, hcut⟩ := eq_append_cons_of_mem h
  refine ⟨cut, hcut, ?_⟩
  have hskip : ∀ c ∈ cut, (c != '\n') = true := fun c hc => by
    simpa using ne_of_mem_of_not_mem hc hcut
  have hdrop : acc.tailText.dropWhile (· != '\n') = '\n' :: rest := by
    rw [htail, dropWhile_append_of_pos hskip]
    rfl
  rw [getSnapshotText, if_neg (by simp [hbound]), if_pos h, hdrop, htail]
  rfl

/-- The lines a snapshot shows are those of the whole text, unless the tail is a short end. -/
theorem window_getSnapshotText (h : acc.Follows text) (hend : ¬ acc.HoldsShortEnd) :
    (window acc.maxLines acc.maxBytes text).SameLines
      (window acc.maxLines acc.maxBytes acc.getSnapshotText) := by
  rcases Nat.eq_zero_or_pos acc.maxLines with hzero | hpos
  · rw [hzero, window_zero, window_zero]
    exact ⟨rfl, rfl⟩
  have hrolling : acc.maxBytes ≤ acc.maxRollingBytes := by
    rw [h.maxRollingBytes]
    omega
  cases h.keepsEnd with
  | all htail hbound =>
    rw [getSnapshotText_of_boundary hbound, htail]
    exact ⟨rfl, rfl⟩
  | cut front c htail hroom hbound =>
    obtain ⟨earlier, line, hsplit⟩ := exists_splitLines_append front
    by_cases hc : c = '\n'
    · -- the tail is made of whole lines
      subst hc
      have hsize : ('\n').utf8Size = 1 := rfl
      have hlast := hsplit [] not_mem_nil
      rw [append_nil] at hlast
      rw [getSnapshotText_of_boundary (hbound.2 rfl), ← htail, ← append_cons]
      apply window_append hlast
      omega
    · have hfalse : acc.tailStartsAtLineBoundary = false := by simpa using mt hbound.1 hc
      by_cases hmem : '\n' ∈ acc.tailText
      · -- the line cut is dropped, and would not fit either
        obtain ⟨cut, hcut, hsnap⟩ := exists_getSnapshotText hfalse hmem
        have hlast := hsplit (c :: cut) (by simp [Ne.symm hc, hcut])
        have htext : text = front ++ c :: cut ++ '\n' :: acc.getSnapshotText := by
          rw [← htail, hsnap]
          simp
        have hbytes : byteLength acc.tailText =
            byteLength cut + (1 + byteLength acc.getSnapshotText) := by
          conv_lhs => rw [hsnap]
          rw [byteLength_append, byteLength_cons]
          rfl
        rw [htext]
        apply window_append hlast
        rw [byteLength_append, byteLength_cons]
        omega
      · have hlong : acc.maxBytes < byteLength acc.tailText := by
          by_contra hle
          exact hend ⟨hfalse, hmem, by rw [h.tailBytes]; exact not_lt.1 hle⟩
        have hsnap : window acc.maxLines acc.maxBytes ([] ++ acc.tailText) = _ :=
          window_lastLine hpos hmem hlong
        rw [nil_append] at hsnap
        rw [getSnapshotText_of_notMem hmem, ← htail, window_lastLine hpos hmem hlong, hsnap]
        exact ⟨rfl, rfl⟩

/-- Of a short end a snapshot shows a line, but the last line is too long. -/
theorem lastLinePartial_of_holdsShortEnd (h : acc.Follows text) (hend : acc.HoldsShortEnd)
    (hlines : 0 < acc.maxLines) :
    (window acc.maxLines acc.maxBytes text).lastLinePartial = true ∧
      (window acc.maxLines acc.maxBytes acc.getSnapshotText).lastLinePartial = false := by
  obtain ⟨hbound, hmem, hshort⟩ := hend
  rw [h.tailBytes] at hshort
  cases h.keepsEnd with
  | all _ htrue => exact absurd htrue (by simp [hbound])
  | cut front c htail hroom hc =>
    constructor
    · have hlong : acc.maxBytes < byteLength (c :: acc.tailText) := by
        have hrolling := h.maxRollingBytes
        rw [byteLength_cons]
        omega
      have hlast : '\n' ∉ c :: acc.tailText := by
        have hne : c ≠ '\n' := fun heq => by simp [hc.2 heq] at hbound
        simp [hne.symm, hmem]
      rw [← htail, ← append_cons, window_lastLine hlines hlast hlong]
    · rw [getSnapshotText_of_notMem hmem]
      apply (window_of_fits ?_ hshort).2
      rw [splitLines_of_notMem hmem]
      exact hlines

end OutputAccumulator

/-- The snapshot shows what the truncation gives. -/
structure OutputSnapshot.Agrees (snapshot : OutputSnapshot) (result : TruncationResult) : Prop where
  content : snapshot.content = result.content
  truncated : snapshot.truncation.truncated = result.truncated
  totalLines : snapshot.truncation.totalLines = result.totalLines
  totalBytes : snapshot.truncation.totalBytes = result.totalBytes
  outputLines : snapshot.truncation.outputLines = result.outputLines
  outputBytes : snapshot.truncation.outputBytes = result.outputBytes
  lastLinePartial : snapshot.truncation.lastLinePartial = result.lastLinePartial

namespace OutputAccumulator

variable {acc : OutputAccumulator} {text : List Char} {path : String → String}

/-- The limits of an accumulator, as options. -/
def limits (acc : OutputAccumulator) : TruncationOptions :=
  { maxLines := some acc.maxLines, maxBytes := some acc.maxBytes }

lemma truncateTail_totals (content : List Char) (options : TruncationOptions) :
    (truncateTail content options).totalLines = (splitLines content).length ∧
      (truncateTail content options).totalBytes = byteLength content ∧
      ((truncateTail content options).truncated = true ↔
        options.maxLines.getD DEFAULT_MAX_LINES < (splitLines content).length ∨
          options.maxBytes.getD DEFAULT_MAX_BYTES < byteLength content) := by
  rw [truncateTail]
  split_ifs with hfits
  · refine ⟨rfl, rfl, ?_⟩
    simp only [false_iff]
    omega
  · refine ⟨rfl, rfl, ?_⟩
    simp only [true_iff]
    omega

/-- Whenever the accumulator is asked, it answers for all it has taken in, a short end apart. -/
theorem snapshot_agrees_iff_of_follows (h : acc.Follows text) (persistIfTruncated : Bool) :
    (acc.snapshot path persistIfTruncated).2.Agrees (truncateTail text acc.limits) ↔
      acc.maxLines = 0 ∨ ¬ acc.HoldsShortEnd := by
  obtain ⟨hcont, hlines, hbytes, hopen⟩ := truncateTail_window text acc.limits
  obtain ⟨hcont', hlines', hbytes', hopen'⟩ := truncateTail_window acc.getSnapshotText acc.limits
  obtain ⟨htotalLines, htotalBytes, htruncated⟩ := truncateTail_totals text acc.limits
  constructor
  · intro hagrees
    by_contra hnot
    obtain ⟨hpos, hend⟩ := not_or.1 hnot
    obtain ⟨htrue, hfalse⟩ :=
      lastLinePartial_of_holdsShortEnd h (not_not.1 hend) (Nat.pos_of_ne_zero hpos)
    have hsame : (truncateTail acc.getSnapshotText acc.limits).lastLinePartial =
        (truncateTail text acc.limits).lastLinePartial := hagrees.lastLinePartial
    rw [hopen, hopen'] at hsame
    exact absurd (hfalse.symm.trans (hsame.trans htrue)) Bool.false_ne_true
  · intro hcond
    have hwindow : (window acc.maxLines acc.maxBytes text).SameLines
        (window acc.maxLines acc.maxBytes acc.getSnapshotText) := by
      rcases hcond with hzero | hend
      · rw [hzero, window_zero, window_zero]
        exact ⟨rfl, rfl⟩
      · exact window_getSnapshotText h hend
    have hlinesOut : (window acc.maxLines acc.maxBytes acc.getSnapshotText).outputLinesArr =
        (window acc.maxLines acc.maxBytes text).outputLinesArr := hwindow.1.symm
    refine ⟨?_, ?_, ?_, ?_, ?_, ?_, ?_⟩
    · exact hcont'.trans ((congrArg joinLines hlinesOut).trans hcont.symm)
    · rw [Bool.eq_iff_iff, htruncated, length_splitLines]
      show (decide (acc.maxLines < acc.totalLines) ||
        decide (acc.maxBytes < acc.totalDecodedBytes)) = true ↔ _
      rw [h.totalLines, h.totalDecodedBytes, Bool.or_eq_true, decide_eq_true_iff,
        decide_eq_true_iff]
      rfl
    · exact h.totalLines.trans ((length_splitLines text).symm.trans htotalLines.symm)
    · exact h.totalDecodedBytes.trans htotalBytes.symm
    · exact hlines'.trans ((congrArg List.length hlinesOut).trans hlines.symm)
    · exact hbytes'.trans
        ((congrArg (fun lines => byteLength (joinLines lines)) hlinesOut).trans hbytes.symm)
    · exact hopen'.trans (hwindow.2.symm.trans hopen.symm)

/-! ## Runs -/

/-- The accumulator fed with the chunks and finished. -/
def run (path : String → String) (options : OutputAccumulatorOptions)
    (chunks : List (List UInt8)) : Except String OutputAccumulator := do
  let acc ← chunks.foldlM (append path) (new options)
  return acc.finish path

/-- `acc` has taken in the bytes: `text` so far, the rest is with the decoder. -/
structure Reads (options : OutputAccumulatorOptions) (acc : OutputAccumulator)
    (bytes : List UInt8) (text : List Char) : Prop where
  follows : acc.Follows text
  maxLines : acc.maxLines = options.maxLines.getD DEFAULT_MAX_LINES
  maxBytes : acc.maxBytes = options.maxBytes.getD DEFAULT_MAX_BYTES
  finished : acc.finished = false
  decodes : ∀ rest, (TextDecoder.decodeLast {} (bytes ++ rest)).2 =
    text ++ (acc.decoder.decodeLast rest).2

lemma reads_new (options : OutputAccumulatorOptions) : Reads options (new options) [] [] where
  follows := follows_new options
  maxLines := rfl
  maxBytes := rfl
  finished := rfl
  decodes _ := rfl

/-- Where the raw chunks go does not matter to the text. -/
lemma exists_ensureTempFile (path : String → String) (acc : OutputAccumulator) :
    ∃ filePath stream raw, acc.ensureTempFile path = { acc with
      tempFilePath := filePath, tempFileStream := stream, rawChunks := raw } := by
  rw [ensureTempFile]
  split_ifs
  · exact ⟨_, _, _, rfl⟩
  · exact ⟨_, _, _, rfl⟩

lemma exists_keepChunk (path : String → String) (acc : OutputAccumulator) (data : List UInt8) :
    ∃ filePath stream raw, acc.keepChunk path data = { acc with
      tempFilePath := filePath, tempFileStream := stream, rawChunks := raw } := by
  rw [keepChunk]
  split_ifs
  · obtain ⟨filePath, stream, raw, h⟩ := exists_ensureTempFile path acc
    rw [h]
    exact ⟨_, _, _, rfl⟩
  · exact ⟨_, _, _, rfl⟩
  · exact ⟨_, _, _, rfl⟩

lemma Follows.withFile (h : acc.Follows text) (filePath : Option String)
    (stream : Option (List (List UInt8))) (raw : List (List UInt8)) :
    Follows { acc with tempFilePath := filePath, tempFileStream := stream, rawChunks := raw }
      text :=
  ⟨⟨h.maxRollingBytes, h.totalDecodedBytes, h.tailBytes, h.keepsEnd⟩, h.totalLines⟩

variable {options : OutputAccumulatorOptions} {bytes data : List UInt8}

/-- `append` before it keeps the chunk. -/
def received (acc : OutputAccumulator) (data : List UInt8) : OutputAccumulator :=
  appendDecodedText { acc with
    totalRawBytes := acc.totalRawBytes + data.length
    decoder := (acc.decoder.decodeStream data).1 } (acc.decoder.decodeStream data).2

lemma append_of_unfinished (path : String → String) (h : acc.finished = false)
    (data : List UInt8) : acc.append path data = .ok ((acc.received data).keepChunk path data) :=
  if_neg (by simp [h])

/-- `finish` before it looks at the temp file. -/
def flushed (acc : OutputAccumulator) : OutputAccumulator :=
  appendDecodedText { acc with finished := true, decoder := (acc.decoder.decodeLast []).1 }
    (acc.decoder.decodeLast []).2

lemma finish_of_unfinished (path : String → String) (h : acc.finished = false) :
    acc.finish path = if acc.flushed.shouldUseTempFile = true then acc.flushed.ensureTempFile path
      else acc.flushed :=
  if_neg (by simp [h])

lemma exists_finish (path : String → String) (h : acc.finished = false) :
    ∃ filePath stream raw, acc.finish path = { acc.flushed with
      tempFilePath := filePath, tempFileStream := stream, rawChunks := raw } := by
  rw [finish_of_unfinished path h]
  split_ifs
  · exact exists_ensureTempFile path acc.flushed
  · exact ⟨_, _, _, rfl⟩

lemma reads_append (path : String → String) (h : Reads options acc bytes text)
    (data : List UInt8) :
    ∃ acc', acc.append path data = .ok acc' ∧
      Reads options acc' (bytes ++ data) (text ++ (acc.decoder.decodeStream data).2) := by
  have hfollows : Follows { acc with
      totalRawBytes := acc.totalRawBytes + data.length
      decoder := (acc.decoder.decodeStream data).1 } text :=
    ⟨⟨h.follows.maxRollingBytes, h.follows.totalDecodedBytes, h.follows.tailBytes,
      h.follows.keepsEnd⟩, h.follows.totalLines⟩
  have hadded : (acc.received data).Follows (text ++ (acc.decoder.decodeStream data).2) :=
    follows_appendDecodedText hfollows _
  refine ⟨_, append_of_unfinished path h.finished data, ?_⟩
  obtain ⟨filePath, stream, raw, hkeep⟩ := exists_keepChunk path (acc.received data) data
  obtain ⟨_, _, _, _, _, _, htext⟩ := exists_appendDecodedText { acc with
    totalRawBytes := acc.totalRawBytes + data.length
    decoder := (acc.decoder.decodeStream data).1 } (acc.decoder.decodeStream data).2
  rw [hkeep]
  refine ⟨hadded.withFile filePath stream raw, ?_, ?_, ?_, ?_⟩
  all_goals rw [received, htext]
  · exact h.maxLines
  · exact h.maxBytes
  · exact h.finished
  · intro rest
    rw [append_assoc, h.decodes, TextDecoder.decodeLast_append, ← append_assoc]

lemma reads_foldlM (chunks : List (List UInt8)) (h : Reads options acc bytes text) :
    ∃ acc' text', chunks.foldlM (append path) acc = .ok acc' ∧
      Reads options acc' (bytes ++ chunks.flatten) text' := by
  induction chunks generalizing acc bytes text with
  | nil =>
    rw [flatten_nil, append_nil]
    exact ⟨acc, text, rfl, h⟩
  | cons data chunks ih =>
    obtain ⟨acc', hstep, hreads⟩ := reads_append path h data
    obtain ⟨acc'', text'', hrun, hreads'⟩ := ih hreads
    refine ⟨acc'', text'', ?_, ?_⟩
    · rw [foldlM_cons, hstep]
      exact hrun
    · rwa [flatten_cons, ← append_assoc]

/-- What is known of a finished accumulator. -/
structure Finished (options : OutputAccumulatorOptions) (acc : OutputAccumulator)
    (bytes : List UInt8) : Prop where
  follows : acc.Follows (TextDecoder.decode bytes)
  maxLines : acc.maxLines = options.maxLines.getD DEFAULT_MAX_LINES
  maxBytes : acc.maxBytes = options.maxBytes.getD DEFAULT_MAX_BYTES

lemma finished_finish (h : Reads options acc bytes text) :
    Finished options (acc.finish path) bytes := by
  have hfollows : Follows { acc with
      finished := true, decoder := (acc.decoder.decodeLast []).1 } text :=
    ⟨⟨h.follows.maxRollingBytes, h.follows.totalDecodedBytes, h.follows.tailBytes,
      h.follows.keepsEnd⟩, h.follows.totalLines⟩
  have hflushed : acc.flushed.Follows (text ++ (acc.decoder.decodeLast []).2) :=
    follows_appendDecodedText hfollows _
  have htext : text ++ (acc.decoder.decodeLast []).2 = TextDecoder.decode bytes := by
    rw [← h.decodes, append_nil]
    rfl
  rw [htext] at hflushed
  obtain ⟨_, _, _, _, _, _, hframe⟩ := exists_appendDecodedText
    { acc with finished := true, decoder := (acc.decoder.decodeLast []).1 }
    (acc.decoder.decodeLast []).2
  obtain ⟨filePath, stream, raw, hfinish⟩ := exists_finish path h.finished
  rw [hfinish]
  refine ⟨hflushed.withFile filePath stream raw, ?_, ?_⟩
  · rw [flushed, hframe]
    exact h.maxLines
  · rw [flushed, hframe]
    exact h.maxBytes

/-- However the bytes are cut, the run ends with an accumulator that has taken in their text. -/
theorem exists_run (path : String → String) (options : OutputAccumulatorOptions)
    (chunks : List (List UInt8)) :
    ∃ acc, run path options chunks = .ok acc ∧ Finished options acc chunks.flatten := by
  obtain ⟨acc, text, hrun, hreads⟩ :
      ∃ acc text, chunks.foldlM (append path) (new options) = .ok acc ∧
        Reads options acc ([] ++ chunks.flatten) text :=
    reads_foldlM chunks (reads_new options)
  refine ⟨acc.finish path, ?_, finished_finish hreads⟩
  rw [run, hrun]
  rfl

/-- The whole text, truncated at once. -/
def truncateAll (options : OutputAccumulatorOptions) (chunks : List (List UInt8)) :
    TruncationResult :=
  truncateTail (TextDecoder.decode chunks.flatten)
    { maxLines := options.maxLines, maxBytes := options.maxBytes }

/-- The accumulator fed with the chunks and finished shows what the truncation of the whole text
gives. -/
def SnapshotAgrees (path : String → String) (options : OutputAccumulatorOptions)
    (persistIfTruncated : Bool) (chunks : List (List UInt8)) : Prop :=
  ∃ acc, run path options chunks = .ok acc ∧
    (acc.snapshot path persistIfTruncated).2.Agrees (truncateAll options chunks)

lemma Finished.truncateTail_limits (h : Finished options acc bytes) (text : List Char) :
    truncateTail text acc.limits =
      truncateTail text { maxLines := options.maxLines, maxBytes := options.maxBytes } := by
  have hlines : acc.limits.maxLines.getD DEFAULT_MAX_LINES =
      options.maxLines.getD DEFAULT_MAX_LINES := h.maxLines
  have hbytes : acc.limits.maxBytes.getD DEFAULT_MAX_BYTES =
      options.maxBytes.getD DEFAULT_MAX_BYTES := h.maxBytes
  rw [truncateTail, truncateTail, hlines, hbytes]

lemma Finished.agrees_iff {chunks : List (List UInt8)}
    (h : Finished options acc chunks.flatten) (persistIfTruncated : Bool) :
    (acc.snapshot path persistIfTruncated).2.Agrees (truncateAll options chunks) ↔
      options.maxLines.getD DEFAULT_MAX_LINES = 0 ∨ ¬ acc.HoldsShortEnd := by
  rw [truncateAll, ← h.truncateTail_limits, ← h.maxLines]
  exact snapshot_agrees_iff_of_follows h.follows persistIfTruncated

/-- From four bytes on no end is so short. -/
lemma Finished.not_holdsShortEnd (h : Finished options acc bytes)
    (hbytes : 4 ≤ options.maxBytes.getD DEFAULT_MAX_BYTES) : ¬ acc.HoldsShortEnd := by
  rintro ⟨hbound, -, hshort⟩
  rw [h.follows.tailBytes, h.maxBytes] at hshort
  cases h.follows.keepsEnd with
  | all _ htrue => exact absurd htrue (by simp [hbound])
  | cut front c htail hroom hc =>
    have hrolling := h.follows.maxRollingBytes
    rw [h.maxBytes] at hrolling
    have hsize := c.utf8Size_le_four
    omega

/-- A first chunk too long for the tail, cut inside its last line and near its end. -/
lemma holdsShortEnd_appendDecodedText (htail : acc.tailText = []) (hbytes : acc.tailBytes = 0)
    (hlong : acc.maxRollingBytes * 2 < byteLength text) {front : List Char} {c : Char}
    (hcut : front ++ [c] ++ tailWithin acc.maxRollingBytes text = text) (hc : c ≠ '\n')
    (hmem : '\n' ∉ tailWithin acc.maxRollingBytes text)
    (hshort : byteLength (tailWithin acc.maxRollingBytes text) ≤ acc.maxBytes) :
    (acc.appendDecodedText text).HoldsShortEnd := by
  have hne : ¬ text.length = 0 := by
    intro hnil
    rw [eq_nil_of_length_eq_zero hnil] at hlong
    exact absurd hlong (Nat.not_lt_zero _)
  have htrim : acc.tailBytes + byteLength text > acc.maxRollingBytes * 2 := by omega
  obtain ⟨line, hcount⟩ := exists_countLines (acc.extendTail text) text
  rw [appendDecodedText, if_neg hne, hcount, extendTail]
  rw [if_pos htrim, htail, nil_append, trimTail_of_gt (by dsimp only; omega) hcut]
  exact ⟨decide_eq_false hc, hmem, hshort⟩

/-- Where the decoder holds nothing back, nothing more is taken in. -/
lemma holdsShortEnd_finish (h : acc.HoldsShortEnd) (hfin : acc.finished = false)
    (hnothing : (acc.decoder.decodeLast []).2 = []) : (acc.finish path).HoldsShortEnd := by
  have hflushed : acc.flushed =
      { acc with finished := true, decoder := (acc.decoder.decodeLast []).1 } := by
    rw [flushed, hnothing]
    rfl
  obtain ⟨filePath, stream, raw, hfinish⟩ := exists_finish path hfin
  rw [hfinish, hflushed]
  exact h

lemma holdsShortEnd_of_chunk (path : String → String) (options : OutputAccumulatorOptions)
    {rolling limit : ℕ} (hrolling : (new options).maxRollingBytes = rolling)
    (hlimit : (new options).maxBytes = limit) (front : List Char) {c c' : Char}
    (hbom : c' ≠ '\uFEFF') (hlong : rolling * 2 < byteLength (c' :: more))
    (hcut : front ++ [c] ++ tailWithin rolling (c' :: more) = c' :: more) (hc : c ≠ '\n')
    (hmem : '\n' ∉ tailWithin rolling (c' :: more))
    (hshort : byteLength (tailWithin rolling (c' :: more)) ≤ limit) :
    ∃ acc, run path options [encode (c' :: more)] = .ok acc ∧ acc.HoldsShortEnd := by
  subst hrolling hlimit
  have hdecode : TextDecoder.decodeStream {} (encode (c' :: more)) =
      ({ bomSeen := true }, c' :: more) := by
    simp only [TextDecoder.decodeStream, run_encode, TextDecoder.skipBom]
    rw [if_neg (by simp [hbom])]
  have hrecv : (new options).received (encode (c' :: more)) =
      appendDecodedText { new options with
        totalRawBytes := (new options).totalRawBytes + (encode (c' :: more)).length
        decoder := { bomSeen := true } } (c' :: more) := by
    have hnew : (new options).decoder = {} := rfl
    rw [received, hnew, hdecode]
  have hend : ((new options).received (encode (c' :: more))).HoldsShortEnd := by
    rw [hrecv]
    exact holdsShortEnd_appendDecodedText rfl rfl hlong hcut hc hmem hshort
  have hframe : ((new options).received (encode (c' :: more))).decoder = { bomSeen := true } ∧
      ((new options).received (encode (c' :: more))).finished = false := by
    obtain ⟨_, _, _, _, _, _, hframe⟩ := exists_appendDecodedText { new options with
      totalRawBytes := (new options).totalRawBytes + (encode (c' :: more)).length
      decoder := { bomSeen := true } } (c' :: more)
    rw [hrecv, hframe]
    exact ⟨rfl, rfl⟩
  have hstep : (new options).append path (encode (c' :: more)) = .ok _ :=
    append_of_unfinished path rfl (encode (c' :: more))
  generalize (new options).received (encode (c' :: more)) = taken at hend hframe hstep
  obtain ⟨filePath, stream, raw, hkeep⟩ := exists_keepChunk path taken (encode (c' :: more))
  refine ⟨(taken.keepChunk path (encode (c' :: more))).finish path, ?_, ?_⟩
  · rw [run, foldlM_cons, hstep]
    rfl
  · rw [hkeep]
    apply holdsShortEnd_finish
    · exact hend
    · exact hframe.2
    · show (taken.decoder.decodeLast []).2 = []
      rw [hframe.1]
      rfl

/-- Letters around a character of four bytes, so that the cut falls into that character. -/
def shortEndOutput : ℕ → List Char
  | 0 | 1 => ['a', '😀']
  | 2 => ['a', 'a', 'a', 'a', '😀', 'a']
  | _ => ['a', 'a', 'a', 'a', 'a', 'a', '😀', 'a', 'a', 'a']

/-- Below four bytes some output leaves a short end. -/
lemma exists_holdsShortEnd (path : String → String) (options : OutputAccumulatorOptions) {k : ℕ}
    (hk : k < 4) (hbytes : options.maxBytes.getD DEFAULT_MAX_BYTES = k) :
    ∃ acc, run path options [encode (shortEndOutput k)] = .ok acc ∧ acc.HoldsShortEnd := by
  have hrolling : (new options).maxRollingBytes = max (k * 2) 1 := by rw [← hbytes]; rfl
  have hne : '😀' ≠ '\n' := by decide
  interval_cases k
  · exact holdsShortEnd_of_chunk path options hrolling hbytes ['a'] (by decide) (by decide)
      (by decide) hne (by decide) (by decide)
  · exact holdsShortEnd_of_chunk path options hrolling hbytes ['a'] (by decide) (by decide)
      (by decide) hne (by decide) (by decide)
  · exact holdsShortEnd_of_chunk path options hrolling hbytes ['a', 'a', 'a', 'a'] (by decide)
      (by decide) (by decide) hne (by decide) (by decide)
  · exact holdsShortEnd_of_chunk path options hrolling hbytes ['a', 'a', 'a', 'a', 'a', 'a']
      (by decide) (by decide) (by decide) hne (by decide) (by decide)

/-- The accumulator agrees with the truncation of the whole text but where a short end is left,
and that happens to some output under exactly the byte limits below four. -/
theorem snapshot_agrees_iff (path : String → String) (options : OutputAccumulatorOptions)
    (persistIfTruncated : Bool) :
    (∀ chunks, ∃ acc, run path options chunks = .ok acc ∧
      ((acc.snapshot path persistIfTruncated).2.Agrees (truncateAll options chunks) ↔
        options.maxLines.getD DEFAULT_MAX_LINES = 0 ∨ ¬ acc.HoldsShortEnd)) ∧
    ((∀ chunks, SnapshotAgrees path options persistIfTruncated chunks) ↔
      options.maxLines.getD DEFAULT_MAX_LINES = 0 ∨
        4 ≤ options.maxBytes.getD DEFAULT_MAX_BYTES) := by
  refine ⟨fun chunks => ?_, ?_, ?_⟩
  · obtain ⟨acc, hrun, hfinished⟩ := exists_run path options chunks
    exact ⟨acc, hrun, hfinished.agrees_iff persistIfTruncated⟩
  · intro hall
    by_contra hnot
    obtain ⟨hlines, hbytes⟩ := not_or.1 hnot
    obtain ⟨acc, hrun, hend⟩ := exists_holdsShortEnd path options (not_le.1 hbytes) rfl
    obtain ⟨acc', hrun', hagrees⟩ := hall [encode (shortEndOutput _)]
    obtain ⟨acc'', hrun'', hfinished⟩ := exists_run path options [encode (shortEndOutput _)]
    obtain rfl : acc' = acc := Except.ok.inj (hrun'.symm.trans hrun)
    obtain rfl : acc'' = acc' := Except.ok.inj (hrun''.symm.trans hrun')
    rcases (hfinished.agrees_iff persistIfTruncated).1 hagrees with hzero | hno
    · exact hlines hzero
    · exact hno hend
  · intro hcond chunks
    obtain ⟨acc, hrun, hfinished⟩ := exists_run path options chunks
    refine ⟨acc, hrun, (hfinished.agrees_iff persistIfTruncated).2 ?_⟩
    exact hcond.imp_right hfinished.not_holdsShortEnd

/-- A byte limit of one, and an output that ends in a character of four bytes: the snapshot shows
an empty line where the last line is partial. -/
theorem not_snapshotAgrees_shortEnd :
    ¬ SnapshotAgrees id { maxLines := some 1, maxBytes := some 1 } false
      [encode ['a', '😀']] := by
  rintro ⟨acc, hrun, hagrees⟩
  have hsnapshot : (run id { maxLines := some 1, maxBytes := some 1 } [encode ['a', '😀']]).map
      (fun acc => (acc.snapshot id false).2.truncation.lastLinePartial) = .ok false := by
    rfl
  have hwhole : (truncateAll { maxLines := some 1, maxBytes := some 1 }
      [encode ['a', '😀']]).lastLinePartial = true := by
    decide +kernel
  rw [hrun] at hsnapshot
  have hfalse : (acc.snapshot id false).2.truncation.lastLinePartial = false :=
    Except.ok.inj hsnapshot
  rw [hagrees.lastLinePartial, hwhole] at hfalse
  cases hfalse

/-! ## The temp file -/

/-- The chunks written to the temp file or held back. -/
def kept (acc : OutputAccumulator) : List (List UInt8) := acc.tempFileStream.getD acc.rawChunks

/-- No byte is missing from the chunks kept. -/
structure Stores (acc : OutputAccumulator) (bytes : List UInt8) : Prop where
  isSome : acc.tempFilePath.isSome = acc.tempFileStream.isSome
  flatten_kept : acc.kept.flatten = bytes

lemma stores_ensureTempFile (path : String → String) (h : acc.Stores bytes) :
    (acc.ensureTempFile path).Stores bytes ∧
      ∃ written, (acc.ensureTempFile path).tempFileStream = some written := by
  rw [ensureTempFile]
  split_ifs with hopen
  · exact ⟨h, Option.isSome_iff_exists.1 (h.isSome.symm.trans hopen)⟩
  · have hnone : acc.tempFileStream = none := by
      rw [h.isSome] at hopen
      exact Option.not_isSome_iff_eq_none.1 hopen
    have hkept := h.flatten_kept
    rw [kept, hnone] at hkept
    exact ⟨⟨rfl, hkept⟩, acc.rawChunks, rfl⟩

lemma stores_keepChunk (path : String → String) (h : acc.Stores bytes) (data : List UInt8) :
    (acc.keepChunk path data).Stores (bytes ++ data) := by
  rw [keepChunk]
  split_ifs with hfile hdata
  · obtain ⟨hstores, written, hwritten⟩ := stores_ensureTempFile path h
    have hkept := hstores.flatten_kept
    rw [kept, hwritten] at hkept
    refine ⟨?_, ?_⟩
    · show (acc.ensureTempFile path).tempFilePath.isSome =
        ((acc.ensureTempFile path).tempFileStream.map (· ++ [data])).isSome
      rw [Option.isSome_map, hstores.isSome]
    · show (((acc.ensureTempFile path).tempFileStream.map (· ++ [data])).getD _).flatten = _
      rw [hwritten]
      show (written ++ [data]).flatten = _
      rw [flatten_append, flatten_singleton]
      exact congrArg (· ++ data) hkept
  · have hnone : acc.tempFileStream = none := by
      rw [Bool.or_eq_true, not_or] at hfile
      exact Option.not_isSome_iff_eq_none.1 hfile.1
    have hkept := h.flatten_kept
    rw [kept, hnone] at hkept
    refine ⟨h.isSome, ?_⟩
    rw [kept, hnone]
    show (acc.rawChunks ++ [data]).flatten = _
    rw [flatten_append, flatten_singleton]
    exact congrArg (· ++ data) hkept
  · have hnil : data = [] := eq_nil_of_length_eq_zero (by omega)
    rw [hnil, append_nil]
    exact h

lemma stores_received (h : acc.Stores bytes) (data : List UInt8) :
    (acc.received data).Stores bytes := by
  obtain ⟨_, _, _, _, _, _, hframe⟩ := exists_appendDecodedText { acc with
    totalRawBytes := acc.totalRawBytes + data.length
    decoder := (acc.decoder.decodeStream data).1 } (acc.decoder.decodeStream data).2
  rw [received, hframe]
  exact ⟨h.isSome, h.flatten_kept⟩

lemma stores_flushed (h : acc.Stores bytes) : acc.flushed.Stores bytes := by
  obtain ⟨_, _, _, _, _, _, hframe⟩ := exists_appendDecodedText
    { acc with finished := true, decoder := (acc.decoder.decodeLast []).1 }
    (acc.decoder.decodeLast []).2
  rw [flushed, hframe]
  exact ⟨h.isSome, h.flatten_kept⟩

variable {acc' : OutputAccumulator}

lemma stores_append (h : acc.Stores bytes)
    (happend : acc.append path data = .ok acc') : acc'.Stores (bytes ++ data) := by
  cases hfin : acc.finished with
  | true =>
    rw [append, if_pos hfin] at happend
    cases happend
  | false =>
    rw [append_of_unfinished path hfin] at happend
    cases happend
    exact stores_keepChunk path (stores_received h data) data

lemma stores_foldlM (chunks : List (List UInt8)) (h : acc.Stores bytes)
    (hrun : chunks.foldlM (append path) acc = .ok acc') :
    acc'.Stores (bytes ++ chunks.flatten) := by
  induction chunks generalizing acc bytes with
  | nil =>
    cases hrun
    rwa [flatten_nil, append_nil]
  | cons data chunks ih =>
    rw [foldlM_cons] at hrun
    cases hstep : acc.append path data with
    | error message =>
      rw [hstep] at hrun
      cases hrun
    | ok next =>
      rw [hstep] at hrun
      rw [flatten_cons, ← append_assoc]
      exact ih (stores_append h hstep) hrun

lemma fullOutputPath_snapshot {file : String} (h : acc.tempFilePath = some file)
    (persistIfTruncated : Bool) :
    (acc.snapshot path persistIfTruncated).2.fullOutputPath = some file := by
  have hensure : acc.ensureTempFile path = acc := if_pos (by rw [h]; rfl)
  rw [snapshot]
  simp only [hensure, ite_self]
  exact h

/-- Output shown truncated is complete in the temp file that the snapshot names. -/
theorem fullOutput_of_run (path : String → String) (options : OutputAccumulatorOptions)
    (persistIfTruncated : Bool) (chunks : List (List UInt8)) :
    ∃ acc, run path options chunks = .ok acc ∧
      ((acc.snapshot path persistIfTruncated).2.truncation.truncated = true →
        ∃ file written, (acc.snapshot path persistIfTruncated).2.fullOutputPath = some file ∧
          acc.tempFileStream = some written ∧ written.flatten = chunks.flatten) := by
  obtain ⟨acc, text, hfold, hreads⟩ :
      ∃ acc text, chunks.foldlM (append path) (new options) = .ok acc ∧
        Reads options acc ([] ++ chunks.flatten) text :=
    reads_foldlM chunks (reads_new options)
  have hstores : acc.Stores ([] ++ chunks.flatten) := stores_foldlM chunks ⟨rfl, rfl⟩ hfold
  have hflushed : acc.flushed.Stores chunks.flatten := stores_flushed hstores
  refine ⟨acc.finish path, by rw [run, hfold]; rfl, fun htruncated => ?_⟩
  have huse : acc.flushed.shouldUseTempFile = true := by
    obtain ⟨filePath, stream, raw, hfinish⟩ := exists_finish path hreads.finished
    rw [hfinish] at htruncated
    have hover : (decide (acc.flushed.totalLines > acc.flushed.maxLines) ||
        decide (acc.flushed.totalDecodedBytes > acc.flushed.maxBytes)) = true := htruncated
    rw [Bool.or_eq_true] at hover
    rw [shouldUseTempFile, Bool.or_eq_true, Bool.or_eq_true]
    rcases hover with hlines | hbytes
    · exact .inr hlines
    · exact .inl (.inr hbytes)
  obtain ⟨hend, written, hwritten⟩ := stores_ensureTempFile path hflushed
  rw [finish_of_unfinished path hreads.finished, if_pos huse]
  have hkept := hend.flatten_kept
  have hfile := hend.isSome
  rw [kept, hwritten] at hkept
  rw [hwritten] at hfile
  obtain ⟨file, hpath⟩ := Option.isSome_iff_exists.1 hfile
  exact ⟨file, written, fullOutputPath_snapshot hpath persistIfTruncated, hwritten, hkept⟩

end OutputAccumulator

end Amide
