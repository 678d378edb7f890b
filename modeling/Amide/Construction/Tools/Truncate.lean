import Amide.Framework.Utf8

/-!
# Truncated tool output (`core/tools/truncate.ts`)

`truncateHead` keeps the first lines of an output, as many as a line limit and a byte limit allow,
and `truncateTail` the last ones.  When not even the last line fits, it keeps the end of that line.
-/

namespace Amide

open Utf8

def DEFAULT_MAX_LINES : ℕ := 2000

def DEFAULT_MAX_BYTES : ℕ := 50 * 1024

inductive TruncatedBy where
  | lines
  | bytes

structure TruncationResult where
  content : List Char
  truncated : Bool
  truncatedBy : Option TruncatedBy
  totalLines : ℕ
  totalBytes : ℕ
  outputLines : ℕ
  outputBytes : ℕ
  lastLinePartial : Bool
  firstLineExceedsLimit : Bool
  maxLines : ℕ
  maxBytes : ℕ

structure TruncationOptions where
  maxLines : Option ℕ := none
  maxBytes : Option ℕ := none

/-- `content.split("\n")` -/
def splitLines (content : List Char) : List (List Char) := content.splitOn '\n'

/-- `lines.join("\n")` -/
def joinLines (lines : List (List Char)) : List Char := ['\n'].intercalate lines

def truncateStringToBytesFromEnd (str : List Char) (maxBytes : ℕ) : List Char :=
  let buf := encode str
  if buf.length ≤ maxBytes then str
  else decode (buf.drop (charStart buf (buf.length - maxBytes)))

/-- What the loop over the lines has at its end. -/
structure KeptLines where
  outputLinesArr : List (List Char)
  outputBytesCount : ℕ
  truncatedBy : TruncatedBy
  lastLinePartial : Bool

/-- The loop of `truncateTail` over the lines from the last to the first. -/
def keepLastLines (maxLines maxBytes : ℕ) (outputLinesArr : List (List Char))
    (outputBytesCount : ℕ) : List (List Char) → KeptLines
  | [] => ⟨outputLinesArr, outputBytesCount, .lines, false⟩
  | line :: earlier =>
    if outputLinesArr.length < maxLines then
      let lineBytes := byteLength line + if outputLinesArr.length > 0 then 1 else 0
      if outputBytesCount + lineBytes > maxBytes then
        if outputLinesArr.length = 0 then
          let truncatedLine := truncateStringToBytesFromEnd line maxBytes
          ⟨[truncatedLine], byteLength truncatedLine, .bytes, true⟩
        else ⟨outputLinesArr, outputBytesCount, .bytes, false⟩
      else
        keepLastLines maxLines maxBytes (line :: outputLinesArr)
          (outputBytesCount + lineBytes) earlier
    else ⟨outputLinesArr, outputBytesCount, .lines, false⟩

def truncateTail (content : List Char) (options : TruncationOptions) : TruncationResult :=
  let maxLines := options.maxLines.getD DEFAULT_MAX_LINES
  let maxBytes := options.maxBytes.getD DEFAULT_MAX_BYTES
  let totalBytes := byteLength content
  let lines := splitLines content
  let totalLines := lines.length
  if totalLines ≤ maxLines ∧ totalBytes ≤ maxBytes then
    { content, truncated := false, truncatedBy := none, totalLines, totalBytes,
      outputLines := totalLines, outputBytes := totalBytes, lastLinePartial := false,
      firstLineExceedsLimit := false, maxLines, maxBytes }
  else
    let kept := keepLastLines maxLines maxBytes [] 0 lines.reverse
    let truncatedBy :=
      if kept.outputLinesArr.length ≥ maxLines ∧ kept.outputBytesCount ≤ maxBytes then .lines
      else kept.truncatedBy
    let outputContent := joinLines kept.outputLinesArr
    { content := outputContent, truncated := true, truncatedBy, totalLines, totalBytes,
      outputLines := kept.outputLinesArr.length, outputBytes := byteLength outputContent,
      lastLinePartial := kept.lastLinePartial, firstLineExceedsLimit := false, maxLines, maxBytes }

/-- The loop of `truncateHead` over the lines. -/
def keepFirstLines (maxLines maxBytes : ℕ) (outputLinesArr : List (List Char))
    (outputBytesCount : ℕ) : List (List Char) → KeptLines
  | [] => ⟨outputLinesArr, outputBytesCount, .lines, false⟩
  | line :: later =>
    if outputLinesArr.length < maxLines then
      let lineBytes := byteLength line + if outputLinesArr.length > 0 then 1 else 0
      if outputBytesCount + lineBytes > maxBytes then
        ⟨outputLinesArr, outputBytesCount, .bytes, false⟩
      else
        keepFirstLines maxLines maxBytes (outputLinesArr ++ [line]) (outputBytesCount + lineBytes)
          later
    else ⟨outputLinesArr, outputBytesCount, .lines, false⟩

def truncateHead (content : List Char) (options : TruncationOptions) : TruncationResult :=
  let maxLines := options.maxLines.getD DEFAULT_MAX_LINES
  let maxBytes := options.maxBytes.getD DEFAULT_MAX_BYTES
  let totalBytes := byteLength content
  let lines := splitLines content
  let totalLines := lines.length
  if totalLines ≤ maxLines ∧ totalBytes ≤ maxBytes then
    { content, truncated := false, truncatedBy := none, totalLines, totalBytes,
      outputLines := totalLines, outputBytes := totalBytes, lastLinePartial := false,
      firstLineExceedsLimit := false, maxLines, maxBytes }
  else if byteLength (lines.headD []) > maxBytes then
    { content := [], truncated := true, truncatedBy := some .bytes, totalLines, totalBytes,
      outputLines := 0, outputBytes := 0, lastLinePartial := false, firstLineExceedsLimit := true,
      maxLines, maxBytes }
  else
    let kept := keepFirstLines maxLines maxBytes [] 0 lines
    let truncatedBy :=
      if kept.outputLinesArr.length ≥ maxLines ∧ kept.outputBytesCount ≤ maxBytes then .lines
      else kept.truncatedBy
    let outputContent := joinLines kept.outputLinesArr
    { content := outputContent, truncated := true, truncatedBy, totalLines, totalBytes,
      outputLines := kept.outputLinesArr.length, outputBytes := byteLength outputContent,
      lastLinePartial := false, firstLineExceedsLimit := false, maxLines, maxBytes }

end Amide
