import Amide.Framework.Trim

/-!
# The append-only event log (`core/event-log.ts`)

A log is one file of JSON lines under the RLM spawn ledger.  `EventLog.replaySync` reads it
through the consumer's parser and throws at a line the parser rejects, unless that line is the
last one and has no line feed; `EventLog.appendSync` first truncates an unterminated last line and
then appends its events as one write.

A file is the list of its bytes, or `none` where there is none.  Texts are lines of bytes; the
line feed is part of no longer UTF-8 sequence, so splitting the bytes at it is splitting the
decoded text.  A parser is any function of the trimmed line and its index.

An append is split into what it keeps of the file and the payload it writes behind it
(`EventLog.prepareAppend`), so that a crash in the middle of the write can be described.  The
log callback and the file's mode are left out, and the double read guarding the truncation
reads the same bytes twice.
-/

namespace Amide

structure EventLogOptions where
  maxBytes : Option ℕ := none
  maxRecords : Option ℕ := none

structure EventLog where
  path : String
  options : EventLogOptions := {}

/-- Returns `none` for a line it skips and throws for one it rejects. -/
abbrev LineParser (T : Type) := List UInt8 → ℕ → Except String (Option T)

/-- What a replay has counted and read so far. -/
structure Replay (T : Type) where
  recordCount : ℕ := 0
  events : List T := []

namespace EventLog

variable (log : EventLog)

def tooManyBytes (maxBytes size : ℕ) : String :=
  s!"event log {log.path} exceeds {maxBytes} bytes ({size}); refusing to read"

def tooManyRecords (maxRecords : ℕ) : String :=
  s!"event log {log.path} exceeds {maxRecords} records; refusing to read"

def readAllSync (bytes : List UInt8) : Except String (List UInt8) :=
  match log.options.maxBytes with
  | none => .ok bytes
  | some maxBytes =>
    if maxBytes < bytes.length then .error (log.tooManyBytes maxBytes bytes.length) else .ok bytes

/-- `undefined` and functions have no JSON text. -/
def serializeLine : Option Json → Except String (List UInt8)
  | none => .error "event is not JSON-serializable"
  | some event => .ok (event.stringify ++ [10])

/-! ## Reading -/

section Replay

variable {T : Type} (parse : LineParser T)

def countRecord (recordCount : ℕ) : Except String ℕ :=
  match log.options.maxRecords with
  | none => .ok (recordCount + 1)
  | some maxRecords =>
    if maxRecords < recordCount + 1 then .error (log.tooManyRecords maxRecords)
    else .ok (recordCount + 1)

/-- One pass of the loop; `torn` says that a rejected line is to be ignored. -/
def replayLine (torn : Bool) (index : ℕ) (rawLine : List UInt8) (replay : Replay T) :
    Except String (Replay T) :=
  let line := Utf8.trim rawLine
  if line = [] then .ok replay
  else
    match log.countRecord replay.recordCount with
    | .error message => .error message
    | .ok recordCount =>
      match parse line index with
      | .error message => if torn then .ok { replay with recordCount } else .error message
      | .ok none => .ok { replay with recordCount }
      | .ok (some event) => .ok { recordCount, events := replay.events ++ [event] }

def replayLines (endsWithNewline : Bool) :
    ℕ → List (List UInt8) → Replay T → Except String (Replay T)
  | _, [], replay => .ok replay
  | index, rawLine :: rawLines, replay =>
    match log.replayLine parse (rawLines.isEmpty && !endsWithNewline) index rawLine replay with
    | .error message => .error message
    | .ok replay => replayLines endsWithNewline (index + 1) rawLines replay

def replaySync (file : Option (List UInt8)) : Except String (List T) :=
  match file with
  | none => .ok []
  | some bytes => do
    let contents ← log.readAllSync bytes
    let endsWithNewline := contents.getLast? == some 10
    let replay ← log.replayLines parse endsWithNewline 0 (contents.splitOn 10) {}
    pure replay.events

end Replay

/-! ## Appending -/

/-- What stands up to the last line feed. -/
def terminatedPart (bytes : List UInt8) : List UInt8 := bytes.rdropWhile (· != 10)

def repairTailSync (file : Option (List UInt8)) : Except String (Option (List UInt8)) :=
  match file with
  | none => .ok none
  | some [] => .ok (some [])
  | some bytes =>
    match log.readAllSync bytes with
    | .error message => .error message
    | .ok first => .ok (some (if first.getLast? = some 10 then first else terminatedPart first))

/-- What an append keeps of the file and what it writes behind that.  An event without a JSON text
throws before anything else is done; `onCreate` is asked only where there is no file. -/
def prepareAppend (onCreate events : List (Option Json)) (file : Option (List UInt8)) :
    Except String (List UInt8 × List UInt8) := do
  let lines ← events.mapM serializeLine
  match file with
  | some _ =>
    let repaired ← log.repairTailSync file
    pure (repaired.getD [], lines.flatten)
  | none =>
    let leadLines ← onCreate.mapM serializeLine
    pure ([], (leadLines ++ lines).flatten)

def appendSync (onCreate events : List (Option Json)) (file : Option (List UInt8)) :
    Except String (List UInt8) := do
  let (kept, payload) ← log.prepareAppend onCreate events file
  pure (kept ++ payload)

end EventLog

end Amide
