import Amide.Construction.Session.Loading

/-!
# The loops of the loaders

`parseEntriesFromBuffer` goes over a buffer from line feed to line feed, and the asynchronous
loaders do the same with a pause now and then: over the whole file when it is small, and otherwise
over the lines that `readLinesAsBuffers` puts together from the chunks of a read stream.

`parse` is `JSON.parse` of the decoded bytes of a line, `none` where it throws.
-/

namespace Amide

/-- `buffer.indexOf(0x0a, start)`. -/
def indexOfLf (buffer : List UInt8) (start : ℕ) : Option ℕ :=
  ((buffer.drop start).findIdx? (· = 10)).map (start + ·)

/-- `buffer.subarray(start, end)`. -/
def subarray (buffer : List UInt8) (start stop : ℕ) : List UInt8 := (buffer.take stop).drop start

/-- `Buffer.concat(parts, totalLength)`: cut or filled up with zeros to this length. -/
def concatBuffers (parts : List (List UInt8)) (totalLength : ℕ) : List UInt8 :=
  (parts.flatten ++ List.replicate (totalLength - parts.flatten.length) 0).take totalLength

lemma le_of_indexOfLf {buffer : List UInt8} {start stop : ℕ}
    (h : indexOfLf buffer start = some stop) : start ≤ stop := by
  obtain ⟨i, -, rfl⟩ := Option.map_eq_some_iff.mp h
  exact Nat.le_add_right start i

/-! ## Whole buffers -/

section Buffers

variable {α : Type} (parse : List UInt8 → Option α)

def appendEntryFromBuffer (entries : List α) (buffer : List UInt8) (start stop : ℕ) : List α :=
  if stop ≤ start then entries
  else
    match parse (subarray buffer start stop) with
    | some entry => entries ++ [entry]
    | none => entries

/-- The loop of `parseEntriesFromBuffer`. -/
def parseBufferFrom (buffer : List UInt8) (start : ℕ) (entries : List α) : List α :=
  if start < buffer.length then
    match _h : indexOfLf buffer start with
    | none => appendEntryFromBuffer parse entries buffer start buffer.length
    | some stop =>
      parseBufferFrom buffer (stop + 1) (appendEntryFromBuffer parse entries buffer start stop)
  else entries
termination_by buffer.length - start
decreasing_by
  have := le_of_indexOfLf _h
  omega

def sessionAsyncParseYieldBytes : ℕ := 4 * 1024 * 1024

/-- The bytes since the last pause, after so many more. -/
def countToYield (bytesSinceYield bytes : ℕ) : ℕ :=
  if sessionAsyncParseYieldBytes ≤ bytesSinceYield + bytes then 0 else bytesSinceYield + bytes

/-- The loop of `parseEntriesFromBufferAsync`. -/
def parseBufferAsyncFrom (buffer : List UInt8) (start bytesSinceYield : ℕ) (entries : List α) :
    List α :=
  if start < buffer.length then
    match _h : indexOfLf buffer start with
    | none => appendEntryFromBuffer parse entries buffer start buffer.length
    | some stop =>
      parseBufferAsyncFrom buffer (stop + 1) (countToYield bytesSinceYield (stop - start + 1))
        (appendEntryFromBuffer parse entries buffer start stop)
  else entries
termination_by buffer.length - start
decreasing_by
  have := le_of_indexOfLf _h
  omega

end Buffers

/-! ## Streams -/

/-- What `readLinesAsBuffers` has read of a line that goes on in the next chunk. -/
structure LineReader where
  pendingParts : List (List UInt8) := []
  pendingBytes : ℕ := 0

namespace LineReader

def line (r : LineReader) (part : List UInt8) : List UInt8 :=
  if r.pendingParts.length = 0 then part
  else concatBuffers (r.pendingParts ++ [part]) (r.pendingBytes + part.length)

/-- The loop over one chunk, and the lines it yields. -/
def readFrom (r : LineReader) (buffer : List UInt8) (start : ℕ) : List (List UInt8) × LineReader :=
  if start < buffer.length then
    match _h : indexOfLf buffer start with
    | none =>
      let part := subarray buffer start buffer.length
      ([], ⟨r.pendingParts ++ [part], r.pendingBytes + part.length⟩)
    | some stop =>
      let rest := readFrom {} buffer (stop + 1)
      (r.line (subarray buffer start stop) :: rest.1, rest.2)
  else ([], r)
termination_by buffer.length - start
decreasing_by
  have := le_of_indexOfLf _h
  omega

/-- The lines of the chunks, and what is left at the end of the file. -/
def readChunks : LineReader → List (List UInt8) → List (List UInt8)
  | r, [] =>
    if r.pendingParts.length = 0 then [] else [concatBuffers r.pendingParts r.pendingBytes]
  | r, chunk :: chunks => (r.readFrom chunk 0).1 ++ (r.readFrom chunk 0).2.readChunks chunks

end LineReader

def readLinesAsBuffers (chunks : List (List UInt8)) : List (List UInt8) :=
  LineReader.readChunks {} chunks

/-- The loop of `loadEntriesFromFileAsync` over the lines of a stream. -/
def parseLines {α : Type} (parse : List UInt8 → Option α) : List (List UInt8) → ℕ → List α → List α
  | [], _, entries => entries
  | line :: lines, bytesSinceYield, entries =>
    parseLines parse lines (countToYield bytesSinceYield (line.length + 1))
      (appendEntryFromBuffer parse entries line 0 line.length)

/-- A way to cut files into chunks. -/
structure ReadStream where
  chunks : List UInt8 → List (List UInt8)
  flatten_chunks : ∀ content, (chunks content).flatten = content

def loadEntriesFromFileAsync (createReadStream : ReadStream) (streamThresholdBytes : ℕ)
    (files : Files) (path : String) : List FileEntry :=
  match files path with
  | none => []
  | some content =>
    if content.length < streamThresholdBytes then
      finalizeLoadedEntries (parseBufferAsyncFrom sessionCodec.decode content 0 0 [])
    else
      finalizeLoadedEntries
        (parseLines sessionCodec.decode (readLinesAsBuffers (createReadStream.chunks content)) 0 [])

end Amide
