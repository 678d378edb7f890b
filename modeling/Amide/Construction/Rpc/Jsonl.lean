import Amide.Construction.Tui.StdinBuffer
import Amide.Framework.Utf8

/-!
# The reader of JSON lines (`modes/rpc/jsonl.ts`)

`attachJsonlLineReader` hands on the lines of a stream, each to `onLine`, or, of one that is too
long, its beginning to `onLineOverflow`.  Lengths count UTF-16 code units.  What is kept of a line
between two chunks is a list of segments.  The `StringDecoder` is `Utf8.Decoder`, which differs from
it at most in what it puts for bytes that are not UTF-8.

The calls are recorded in their order.  One to `onLineOverflow` is recorded whether the option is
given or not.
-/

namespace Amide

/-- The UTF-16 code units of a character. -/
def charUnits (c : Char) : CodeUnits :=
  if c.toNat < 0x10000 then [.ofNat c.toNat]
  else
    let offset := c.toNat - 0x10000
    [.ofNat (0xD800 + offset / 0x400), .ofNat (0xDC00 + offset % 0x400)]

def textUnits (text : List Char) : CodeUnits := text.flatMap charUnits

inductive JsonlCall
  | onLine (line : CodeUnits)
  | onLineOverflow (beginning : CodeUnits)
  deriving DecidableEq

structure JsonlLineReader where
  decoder : Utf8.Decoder := {}
  pending : List CodeUnits := []
  pendingLength : ℕ := 0
  discardingOverflow : Bool := false
  calls : List JsonlCall := []

/-- A stream without an encoding gives buffers. -/
inductive StreamChunk
  | text (text : CodeUnits)
  | buffer (bytes : List UInt8)

/-- `line.endsWith("\r") ? line.slice(0, -1) : line` -/
def withoutCr (line : CodeUnits) : CodeUnits :=
  if line.getLast? = some 13 then line.dropLast else line

namespace JsonlLineReader

def emitLine (line : CodeUnits) (reader : JsonlLineReader) : JsonlLineReader :=
  { reader with calls := reader.calls ++ [.onLine (withoutCr line)] }

def resetPending (reader : JsonlLineReader) : JsonlLineReader :=
  { reader with pending := [], pendingLength := 0 }

variable (maxLineLength : Option ℕ)

/-- The line would be too long with the segment. -/
def overflows (segment : CodeUnits) (reader : JsonlLineReader) : Option ℕ :=
  maxLineLength.filter fun max => reader.pendingLength + segment.length > max

def appendPending (segment : CodeUnits) (reader : JsonlLineReader) : JsonlLineReader :=
  if reader.discardingOverflow || segment.length = 0 then reader
  else
    match reader.overflows maxLineLength segment with
    | some max =>
      let remaining := max - reader.pendingLength
      let pending :=
        if remaining > 0 then reader.pending ++ [segment.take remaining] else reader.pending
      { reader.resetPending with
        discardingOverflow := true
        calls := reader.calls ++ [.onLineOverflow pending.flatten] }
    | none =>
      { reader with
        pending := reader.pending ++ [segment]
        pendingLength := reader.pendingLength + segment.length }

def emitFrom (segment : CodeUnits) (reader : JsonlLineReader) : JsonlLineReader :=
  if reader.discardingOverflow then { reader.resetPending with discardingOverflow := false }
  else
    let reader := reader.appendPending maxLineLength segment
    if reader.discardingOverflow then { reader with discardingOverflow := false }
    else (reader.emitLine reader.pending.flatten).resetPending

/-- The loop of `onData`, over the rest of the text. -/
def scan (text : CodeUnits) (reader : JsonlLineReader) : JsonlLineReader :=
  match _h : text.findIdx? (· = 10) with
  | some newlineIndex =>
    scan (text.drop (newlineIndex + 1))
      (reader.emitFrom maxLineLength (text.take newlineIndex))
  | none => if 0 < text.length then reader.appendPending maxLineLength text else reader
termination_by text.length
decreasing_by
  have hlt := (List.findIdx?_eq_some_iff_findIdx_eq.mp _h).1
  rw [List.length_drop]
  omega

def onData (chunk : StreamChunk) (reader : JsonlLineReader) : JsonlLineReader :=
  match chunk with
  | .text text => reader.scan maxLineLength text
  | .buffer bytes =>
    let (decoder, text) := reader.decoder.run bytes
    { reader with decoder }.scan maxLineLength (textUnits text)

def onEnd (reader : JsonlLineReader) : JsonlLineReader :=
  let tail := textUnits reader.decoder.flush
  let reader := { reader with decoder := {} }
  let reader := if tail.length > 0 then reader.appendPending maxLineLength tail else reader
  let reader :=
    if !reader.discardingOverflow && reader.pending.length > 0 then
      reader.emitLine reader.pending.flatten
    else reader
  { reader.resetPending with discardingOverflow := false }

/-- The calls for a whole stream. -/
def readStream (chunks : List StreamChunk) : List JsonlCall :=
  let reader := chunks.foldl (fun reader chunk => onData maxLineLength chunk reader) {}
  (reader.onEnd maxLineLength).calls

end JsonlLineReader

end Amide
