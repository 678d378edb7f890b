import Amide.Construction.Session.FileLines

/-!
# The loaders agree

Whatever a line parses as, the entries of a file are those of its lines between line feeds that are
not empty and parse, be they taken from one buffer or put together from chunks.  So the loader that
pauses and the one that streams return what the synchronous one does, wherever the stream is cut
(`loaders_agree`).
-/

namespace Amide

open List

/-- What a line adds to the entries. -/
def lineEntry {α : Type} (parse : List UInt8 → Option α) (line : List UInt8) : Option α :=
  if line = [] then none else parse line

section Buffers

variable {α : Type} (parse : List UInt8 → Option α) {buffer : List UInt8} {start stop : ℕ}

lemma subarray_eq (buffer : List UInt8) (start stop : ℕ) :
    subarray buffer start stop = (buffer.drop start).take (stop - start) := drop_take

lemma subarray_length (buffer : List UInt8) (start : ℕ) :
    subarray buffer start buffer.length = buffer.drop start := by
  rw [subarray, take_length]

lemma appendEntryFromBuffer_eq (entries : List α) (hstop : stop ≤ buffer.length) :
    appendEntryFromBuffer parse entries buffer start stop =
      entries ++ (lineEntry parse (subarray buffer start stop)).toList := by
  rw [appendEntryFromBuffer, lineEntry]
  by_cases hle : stop ≤ start
  · have hempty : subarray buffer start stop = [] := by
      rw [subarray_eq, Nat.sub_eq_zero_of_le hle, take_zero]
    rw [if_pos hle, if_pos hempty]
    simp
  · have hne : subarray buffer start stop ≠ [] := by
      rw [← length_pos_iff, subarray_eq, length_take, length_drop]
      omega
    rw [if_neg hle, if_neg hne]
    cases parse (subarray buffer start stop) with
    | none => simp
    | some entry => rfl

/-- Without a line feed the rest is one line. -/
lemma notMem_of_indexOfLf (h : indexOfLf buffer start = none) :
    (10 : UInt8) ∉ buffer.drop start := by
  rw [indexOfLf, Option.map_eq_none_iff, findIdx?_eq_none_iff] at h
  intro hmem
  simpa using h 10 hmem

/-- The next line, its line feed, and what stands behind it. -/
lemma drop_of_indexOfLf (h : indexOfLf buffer start = some stop) :
    buffer.drop start = subarray buffer start stop ++ 10 :: buffer.drop (stop + 1) ∧
      (10 : UInt8) ∉ subarray buffer start stop ∧ stop < buffer.length := by
  obtain ⟨i, hi, rfl⟩ := Option.map_eq_some_iff.mp h
  obtain ⟨hlt, hlf, hbefore⟩ := findIdx?_eq_some_iff_getElem.mp hi
  have hlen := hlt
  rw [length_drop] at hlen
  rw [subarray_eq, Nat.add_sub_cancel_left]
  refine ⟨?_, ?_, by omega⟩
  · have hsplit := take_append_drop i (buffer.drop start)
    rw [drop_eq_getElem_cons hlt, of_decide_eq_true hlf, drop_drop] at hsplit
    exact hsplit.symm
  · intro hmem
    obtain ⟨j, hj, heq⟩ := mem_iff_getElem.mp hmem
    rw [length_take] at hj
    rw [getElem_take] at heq
    have hne := hbefore j (by omega)
    simp [heq] at hne

/-- The entries of a buffer are those of its lines. -/
lemma parseBufferFrom_eq (buffer : List UInt8) (start : ℕ) (entries : List α) :
    parseBufferFrom parse buffer start entries =
      entries ++ ((buffer.drop start).splitOn 10).filterMap (lineEntry parse) := by
  fun_induction parseBufferFrom parse buffer start entries with
  | case1 start entries hlt h =>
    rw [appendEntryFromBuffer_eq parse entries le_rfl, subarray_length,
      splitOn_eq_singleton (notMem_of_indexOfLf h)]
    cases hentry : lineEntry parse (buffer.drop start) <;> simp [hentry]
  | case2 start entries hlt stop h ih =>
    obtain ⟨hdrop, hline, hstop⟩ := drop_of_indexOfLf h
    rw [ih, hdrop, splitOn_append_cons_self_of_not_mem hline, filterMap_cons,
      appendEntryFromBuffer_eq parse entries hstop.le]
    cases lineEntry parse (subarray buffer start stop) <;> simp
  | case3 start entries hlt =>
    rw [drop_eq_nil_of_le (Nat.le_of_not_lt hlt)]
    simp [lineEntry]

/-- Pauses change nothing. -/
lemma parseBufferAsyncFrom_eq (buffer : List UInt8) (start bytesSinceYield : ℕ)
    (entries : List α) :
    parseBufferAsyncFrom parse buffer start bytesSinceYield entries =
      parseBufferFrom parse buffer start entries := by
  fun_induction parseBufferAsyncFrom parse buffer start bytesSinceYield entries with
  | case1 start bytesSinceYield entries hlt h =>
    rw [parseBufferFrom, if_pos hlt]
    split
    · rfl
    · rename_i stop hsome
      rw [h] at hsome
      cases hsome
  | case2 start bytesSinceYield entries hlt stop h ih =>
    rw [ih, parseBufferFrom_eq, parseBufferFrom_eq]
    obtain ⟨hdrop, hline, hstop⟩ := drop_of_indexOfLf h
    rw [hdrop, splitOn_append_cons_self_of_not_mem hline, filterMap_cons,
      appendEntryFromBuffer_eq parse entries hstop.le]
    cases lineEntry parse (subarray buffer start stop) <;> simp
  | case3 start bytesSinceYield entries hlt =>
    rw [parseBufferFrom, if_neg hlt]

/-- The entries of a stream are those of the lines it is read as. -/
lemma parseLines_eq (lines : List (List UInt8)) (bytesSinceYield : ℕ) (entries : List α) :
    parseLines parse lines bytesSinceYield entries =
      entries ++ lines.filterMap (lineEntry parse) := by
  induction lines generalizing bytesSinceYield entries with
  | nil => simp [parseLines]
  | cons line lines ih =>
    have hwhole : subarray line 0 line.length = line := by rw [subarray_length, drop_zero]
    rw [parseLines, ih, appendEntryFromBuffer_eq parse entries le_rfl, hwhole, filterMap_cons]
    cases lineEntry parse line <;> simp

end Buffers

/-! ## Lines from chunks -/

namespace LineReader

variable {r : LineReader} {buffer : List UInt8} {start : ℕ}

/-- The bytes of the line that goes on in the next chunk. -/
def pending (r : LineReader) : List UInt8 := r.pendingParts.flatten

/-- What is pending is part of one line, and counted. -/
structure Sound (r : LineReader) : Prop where
  line : (10 : UInt8) ∉ r.pending
  bytes : r.pendingBytes = r.pending.length

lemma sound_empty : Sound {} := ⟨not_mem_nil, rfl⟩

lemma concatBuffers_of_length (parts : List (List UInt8)) :
    concatBuffers parts parts.flatten.length = parts.flatten := by
  rw [concatBuffers, Nat.sub_self, replicate_zero, append_nil, take_length]

lemma Sound.line_eq (h : r.Sound) (part : List UInt8) : r.line part = r.pending ++ part := by
  have hflat : (r.pendingParts ++ [part]).flatten = r.pending ++ part := by
    rw [flatten_append, flatten_singleton, pending]
  rw [LineReader.line]
  split_ifs with hempty
  · rw [pending, length_eq_zero_iff.mp hempty]
    rfl
  · rw [h.bytes, ← length_append, ← hflat, concatBuffers_of_length]

/-- The lines of a chunk, and the one it begins, whatever comes next. -/
lemma readFrom_spec (r : LineReader) (buffer : List UInt8) (start : ℕ) (h : r.Sound) :
    (r.readFrom buffer start).2.Sound ∧ ∀ next : List UInt8,
      (r.pending ++ buffer.drop start ++ next).splitOn 10 =
        (r.readFrom buffer start).1 ++
          ((r.readFrom buffer start).2.pending ++ next).splitOn 10 := by
  fun_induction readFrom r buffer start with
  | case1 r start hlt hnone part =>
    have hpart : part = buffer.drop start := subarray_length buffer start
    have hpend : pending ⟨r.pendingParts ++ [part], r.pendingBytes + part.length⟩ =
        r.pending ++ buffer.drop start := by
      rw [pending, flatten_append, flatten_singleton, hpart, pending]
    refine ⟨⟨?_, ?_⟩, fun next => by rw [hpend, nil_append]⟩
    · rw [hpend, mem_append, not_or]
      exact ⟨h.line, notMem_of_indexOfLf hnone⟩
    · rw [hpend, length_append, ← h.bytes, hpart]
  | case2 r start hlt stop hsome rest ih =>
    obtain ⟨hdrop, hline, -⟩ := drop_of_indexOfLf hsome
    obtain ⟨hsound, hlines⟩ := ih sound_empty
    refine ⟨hsound, fun next => ?_⟩
    have hnext := hlines next
    rw [show pending {} = [] from rfl, nil_append] at hnext
    have hmem : (10 : UInt8) ∉ r.pending ++ subarray buffer start stop := by
      rw [mem_append, not_or]
      exact ⟨h.line, hline⟩
    rw [hdrop, cons_append, ← hnext, h.line_eq, ← splitOn_append_cons_self_of_not_mem hmem]
    simp
  | case3 r start hlt =>
    refine ⟨h, fun next => ?_⟩
    rw [drop_eq_nil_of_le (Nat.le_of_not_lt hlt), append_nil, nil_append]

/-- Up to an empty line at the end the lines of the chunks are those of the file. -/
lemma readChunks_spec {α : Type} (parse : List UInt8 → Option α) (chunks : List (List UInt8))
    (h : r.Sound) : (r.readChunks chunks).filterMap (lineEntry parse) =
      ((r.pending ++ chunks.flatten).splitOn 10).filterMap (lineEntry parse) := by
  induction chunks generalizing r with
  | nil =>
    rw [readChunks, flatten_nil, append_nil, splitOn_eq_singleton h.line]
    split_ifs with hempty
    · rw [pending, length_eq_zero_iff.mp hempty]
      rfl
    · rw [h.bytes, pending, concatBuffers_of_length]
  | cons chunk chunks ih =>
    obtain ⟨hsound, hlines⟩ := r.readFrom_spec chunk 0 h
    have hnext := hlines chunks.flatten
    rw [drop_zero] at hnext
    rw [readChunks, filterMap_append, ih hsound, flatten_cons, ← append_assoc,
      hnext, filterMap_append]

end LineReader

/-! ## The loaders -/

lemma parseLines_readLines {α : Type} (parse : List UInt8 → Option α)
    (chunks : List (List UInt8)) (bytesSinceYield : ℕ) :
    parseLines parse (readLinesAsBuffers chunks) bytesSinceYield [] =
      parseBufferFrom parse chunks.flatten 0 [] := by
  rw [parseLines_eq, parseBufferFrom_eq, readLinesAsBuffers,
    LineReader.readChunks_spec parse chunks LineReader.sound_empty]
  rfl

/-- The loop over a buffer reads it as the codec does. -/
lemma parseEntriesFromBuffer_eq (buffer : List UInt8) :
    parseBufferFrom sessionCodec.decode buffer 0 [] = parseEntriesFromBuffer buffer := by
  rw [parseBufferFrom_eq, nil_append, drop_zero, parseEntriesFromBuffer, LineCodec.read]
  refine filterMap_congr fun line _ => ?_
  rw [lineEntry]
  split_ifs with hempty
  · rw [hempty, sessionCodec.decode_nil]
  · rfl

/-- **The loaders agree**: on the entries, whatever a line parses as and wherever the stream is cut,
and so on what they make of them. -/
theorem loaders_agree : (∀ {α : Type} (parse : List UInt8 → Option α) (chunks : List (List UInt8)),
      parseBufferAsyncFrom parse chunks.flatten 0 0 [] = parseBufferFrom parse chunks.flatten 0 [] ∧
      parseLines parse (readLinesAsBuffers chunks) 0 [] =
        parseBufferFrom parse chunks.flatten 0 []) ∧
    (∀ buffer, parseEntriesFromBuffer buffer = parseBufferFrom sessionCodec.decode buffer 0 []) ∧
    ∀ (createReadStream : ReadStream) (streamThresholdBytes : ℕ) (files : Files) (path : String),
      loadEntriesFromFileAsync createReadStream streamThresholdBytes files path =
        loadEntriesFromFile files path := by
  refine ⟨fun parse chunks => ⟨parseBufferAsyncFrom_eq parse _ 0 0 [],
    parseLines_readLines parse chunks 0⟩, fun buffer => (parseEntriesFromBuffer_eq buffer).symm,
    fun createReadStream streamThresholdBytes files path => ?_⟩
  rw [loadEntriesFromFileAsync, loadEntriesFromFile]
  cases files path with
  | none => rfl
  | some content =>
    simp only
    split_ifs
    · rw [parseBufferAsyncFrom_eq, parseEntriesFromBuffer_eq]
    · rw [parseLines_readLines, createReadStream.flatten_chunks, parseEntriesFromBuffer_eq]

end Amide
