import Mathlib.Data.List.DropRight
import Amide.Construction.Tools.Truncate

/-!
# Streaming tool output (`core/tools/output-accumulator.ts`)

The accumulator takes the output of a command chunk by chunk.  It keeps the end of the decoded
text, counts lines and bytes of all of it, and copies the chunks to a temp file once a limit has
been exceeded.  The path of that file is random and so a parameter (`path`); closing the file is
left out.
-/

namespace Amide

open Utf8

structure OutputAccumulatorOptions where
  maxLines : Option ℕ := none
  maxBytes : Option ℕ := none
  tempFilePrefix : Option String := none

structure OutputAccumulator where
  maxLines : ℕ
  maxBytes : ℕ
  maxRollingBytes : ℕ
  tempFilePrefix : String
  decoder : TextDecoder := {}
  rawChunks : List (List UInt8) := []
  tailText : List Char := []
  tailBytes : ℕ := 0
  tailStartsAtLineBoundary : Bool := true
  totalRawBytes : ℕ := 0
  totalDecodedBytes : ℕ := 0
  totalLines : ℕ := 1
  currentLineBytes : ℕ := 0
  finished : Bool := false
  tempFilePath : Option String := none
  /-- The chunks written to the temp file. -/
  tempFileStream : Option (List (List UInt8)) := none

structure OutputSnapshot where
  content : List Char
  truncation : TruncationResult
  fullOutputPath : Option String

namespace OutputAccumulator

/-- `new OutputAccumulator(options)` -/
def new (options : OutputAccumulatorOptions) : OutputAccumulator :=
  let maxBytes := options.maxBytes.getD DEFAULT_MAX_BYTES
  { maxLines := options.maxLines.getD DEFAULT_MAX_LINES
    maxBytes
    maxRollingBytes := max (maxBytes * 2) 1
    tempFilePrefix := options.tempFilePrefix.getD "pi-output" }

def trimTail (acc : OutputAccumulator) : OutputAccumulator :=
  let buffer := encode acc.tailText
  if buffer.length ≤ acc.maxRollingBytes then { acc with tailBytes := buffer.length }
  else
    let start := charStart buffer (buffer.length - acc.maxRollingBytes)
    let tailText := decode (buffer.drop start)
    { acc with
      tailStartsAtLineBoundary :=
        if start = 0 then acc.tailStartsAtLineBoundary else buffer[start - 1]? == some 10
      tailText
      tailBytes := byteLength tailText }

/-- The part of `appendDecodedText` that takes in the text. -/
def extendTail (acc : OutputAccumulator) (text : List Char) : OutputAccumulator :=
  let bytes := byteLength text
  let acc := { acc with
    totalDecodedBytes := acc.totalDecodedBytes + bytes
    tailText := acc.tailText ++ text
    tailBytes := acc.tailBytes + bytes }
  if acc.tailBytes > acc.maxRollingBytes * 2 then acc.trimTail else acc

/-- The part of `appendDecodedText` that counts the lines. -/
def countLines (acc : OutputAccumulator) (text : List Char) : OutputAccumulator :=
  let newlines := text.count '\n'
  if newlines = 0 then { acc with currentLineBytes := acc.currentLineBytes + byteLength text }
  else
    { acc with
      totalLines := acc.totalLines + newlines
      currentLineBytes := byteLength (text.rtakeWhile (· != '\n')) }

def appendDecodedText (acc : OutputAccumulator) (text : List Char) : OutputAccumulator :=
  if text.length = 0 then acc else (acc.extendTail text).countLines text

def getSnapshotText (acc : OutputAccumulator) : List Char :=
  if acc.tailStartsAtLineBoundary then acc.tailText
  else if '\n' ∈ acc.tailText then (acc.tailText.dropWhile (· != '\n')).drop 1
  else acc.tailText

def shouldUseTempFile (acc : OutputAccumulator) : Bool :=
  acc.totalRawBytes > acc.maxBytes || acc.totalDecodedBytes > acc.maxBytes ||
    acc.totalLines > acc.maxLines

/-- `path` is what `defaultTempFilePath` makes of the prefix. -/
def ensureTempFile (path : String → String) (acc : OutputAccumulator) : OutputAccumulator :=
  if acc.tempFilePath.isSome then acc
  else
    { acc with
      tempFilePath := some (path acc.tempFilePrefix)
      tempFileStream := some acc.rawChunks
      rawChunks := [] }

/-- `this.tempFileStream?.write(data)` -/
def writeTempFile (data : List UInt8) (acc : OutputAccumulator) : OutputAccumulator :=
  { acc with tempFileStream := acc.tempFileStream.map (· ++ [data]) }

/-- The part of `append` that keeps the chunk. -/
def keepChunk (path : String → String) (acc : OutputAccumulator) (data : List UInt8) :
    OutputAccumulator :=
  if acc.tempFileStream.isSome || acc.shouldUseTempFile then
    (acc.ensureTempFile path).writeTempFile data
  else if data.length > 0 then { acc with rawChunks := acc.rawChunks ++ [data] }
  else acc

def append (path : String → String) (acc : OutputAccumulator) (data : List UInt8) :
    Except String OutputAccumulator :=
  if acc.finished then .error "Cannot append to a finished output accumulator"
  else
    let (decoder, text) := acc.decoder.decodeStream data
    let acc := { acc with totalRawBytes := acc.totalRawBytes + data.length, decoder }
    .ok ((acc.appendDecodedText text).keepChunk path data)

def finish (path : String → String) (acc : OutputAccumulator) : OutputAccumulator :=
  if acc.finished then acc
  else
    let (decoder, text) := acc.decoder.decodeLast []
    let acc := { acc with finished := true, decoder }.appendDecodedText text
    if acc.shouldUseTempFile then acc.ensureTempFile path else acc

def snapshot (path : String → String) (persistIfTruncated : Bool) (acc : OutputAccumulator) :
    OutputAccumulator × OutputSnapshot :=
  let tailTruncation :=
    truncateTail acc.getSnapshotText
      { maxLines := some acc.maxLines, maxBytes := some acc.maxBytes }
  let truncated := acc.totalLines > acc.maxLines || acc.totalDecodedBytes > acc.maxBytes
  let truncatedBy :=
    if truncated then
      tailTruncation.truncatedBy <|>
        some (if acc.totalDecodedBytes > acc.maxBytes then .bytes else .lines)
    else none
  let truncation := { tailTruncation with
    truncated, truncatedBy
    totalLines := acc.totalLines
    totalBytes := acc.totalDecodedBytes
    maxLines := acc.maxLines
    maxBytes := acc.maxBytes }
  let acc := if persistIfTruncated && truncation.truncated then acc.ensureTempFile path else acc
  (acc, { content := truncation.content, truncation, fullOutputPath := acc.tempFilePath })

end OutputAccumulator

end Amide
