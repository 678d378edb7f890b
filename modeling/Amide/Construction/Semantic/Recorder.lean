import Amide.Construction.Semantic.Edges
import Amide.Framework.DiskWrite
import Amide.Framework.JsonCodec
import Amide.Framework.Machine
import Amide.Framework.Trim

/-!
# The recorder of a session's semantic edges (`core/semantic-edges.ts`)

A `SemanticEdgeRecorder` appends events to a ledger, a file of JSON lines, and keeps in memory what
it needs of them (`Recorder.replay`).  Opening a ledger changes no byte of it: a final line that a
killed process has torn is found (`parseLedgerContent`), and cut off or terminated before the
first append.

A file is the list of its bytes.  Ids are minted by the caller of a model operation, and hashes of
turn bodies are strings.  A line that is JSON but no event is passed over, as a type that no branch
of the source names is.
-/

namespace Amide

open Json

/-! ## Events as JSON -/

instance : JsonCodec CompactionStatus where
  toJson
    | .completed => .str "completed"
    | .failed => .str "failed"
    | .cancelled => .str "cancelled"
  ofJson
    | .str "completed" => some .completed
    | .str "failed" => some .failed
    | .str "cancelled" => some .cancelled
    | _ => none
  ofJson_toJson status := by cases status <;> rfl

namespace SemanticEdgeLedgerEvent

def type : SemanticEdgeLedgerEvent → String
  | .sessionRegistered _ _ _ => "session_registered"
  | .requestStarted _ _ _ => "request_started"
  | .requestFinished _ => "request_finished"
  | .requestFailed _ => "request_failed"
  | .compactionBegun _ _ => "compaction_begun"
  | .compactionFinished _ _ => "compaction_finished"
  | .childReturned _ _ _ => "child_returned"

def members : SemanticEdgeLedgerEvent → List (String × Json)
  | .sessionRegistered sessionId parentSessionId spawnedByRequestId =>
    [("session_id", toJson sessionId)] ++ opt "parent_session_id" parentSessionId ++
      opt "spawned_by_request_id" spawnedByRequestId
  | .requestStarted requestId sessionId compactionId =>
    [("request_id", toJson requestId), ("session_id", toJson sessionId)] ++
      opt "compaction_id" compactionId
  | .requestFinished requestId => [("request_id", toJson requestId)]
  | .requestFailed requestId => [("request_id", toJson requestId)]
  | .compactionBegun compactionId sessionId =>
    [("compaction_id", toJson compactionId), ("session_id", toJson sessionId)]
  | .compactionFinished compactionId status =>
    [("compaction_id", toJson compactionId), ("status", toJson status)]
  | .childReturned sessionId childSessionId requestId =>
    [("session_id", toJson sessionId), ("child_session_id", toJson childSessionId),
      ("request_id", toJson requestId)]

def read (j : Json) : String → Option SemanticEdgeLedgerEvent
  | "session_registered" => do
    let sessionId ← j.field "session_id"
    let parentSessionId ← j.optField "parent_session_id"
    let spawnedByRequestId ← j.optField "spawned_by_request_id"
    some (.sessionRegistered sessionId parentSessionId spawnedByRequestId)
  | "request_started" => do
    let requestId ← j.field "request_id"
    let sessionId ← j.field "session_id"
    let compactionId ← j.optField "compaction_id"
    some (.requestStarted requestId sessionId compactionId)
  | "request_finished" => do
    let requestId ← j.field "request_id"
    some (.requestFinished requestId)
  | "request_failed" => do
    let requestId ← j.field "request_id"
    some (.requestFailed requestId)
  | "compaction_begun" => do
    let compactionId ← j.field "compaction_id"
    let sessionId ← j.field "session_id"
    some (.compactionBegun compactionId sessionId)
  | "compaction_finished" => do
    let compactionId ← j.field "compaction_id"
    let status ← j.field "status"
    some (.compactionFinished compactionId status)
  | "child_returned" => do
    let sessionId ← j.field "session_id"
    let childSessionId ← j.field "child_session_id"
    let requestId ← j.field "request_id"
    some (.childReturned sessionId childSessionId requestId)
  | _ => none

end SemanticEdgeLedgerEvent

instance : JsonCodec SemanticEdgeLedgerEvent where
  toJson event := .obj (("type", .str event.type) :: event.members)
  ofJson j := (j.field "type").bind fun type => SemanticEdgeLedgerEvent.read j type
  ofJson_toJson event := by
    have htype : (Json.obj (("type", .str event.type) :: event.members)).field "type" =
        some event.type := by
      cases event <;> simp [field, SemanticEdgeLedgerEvent.members] <;> rfl
    rw [htype, Option.bind_some]
    cases event <;> simp [SemanticEdgeLedgerEvent.read, SemanticEdgeLedgerEvent.type,
      SemanticEdgeLedgerEvent.members, field, optField]

/-! ## Reading a ledger -/

structure ParsedLedger where
  events : List SemanticEdgeLedgerEvent := []
  validLength : ℕ := 0

/-- The lines from one on, each but the last with its line feed.  Only a last line without one may
be malformed. -/
def parseLedgerLines (lineNumber : ℕ) (parsed : ParsedLedger) :
    List (List UInt8) → Except String ParsedLedger
  | [] => .ok parsed
  | [line] =>
    if Utf8.trim line = [] then .ok { parsed with validLength := parsed.validLength + line.length }
    else
      match Json.parse line with
      | none => .ok parsed
      | some event => .ok
        { events := parsed.events ++ (ofJson event).toList
          validLength := parsed.validLength + line.length }
  | line :: lines =>
    let line := line ++ [10]
    let validLength := parsed.validLength + line.length
    if Utf8.trim line = [] then
      parseLedgerLines (lineNumber + 1) { parsed with validLength } lines
    else
      match Json.parse line with
      | none => .error s!"corrupt semantic-edge ledger line {lineNumber}"
      | some event =>
        parseLedgerLines (lineNumber + 1)
          { events := parsed.events ++ (ofJson event).toList, validLength } lines

def parseLedgerContent (raw : List UInt8) : Except String ParsedLedger :=
  parseLedgerLines 1 {} (raw.splitOn 10)

/-! ## The recorder -/

inductive PendingRepair where
  | truncateToBytes (bytes : ℕ)
  | terminateLine

structure TurnRequest where
  requestId : String
  epoch : ℕ
  bodyHash : Option String := none
  deriving DecidableEq

structure SemanticEdgeRecorder where
  sessionId : String
  pendingRepair : Option PendingRepair := none
  disabled : Bool := false
  epoch : ℕ := 0
  lastTurn : Option TurnRequest := none
  parkedRetry : Option TurnRequest := none
  lastCommittedRequestId : Option String := none
  openCompactions : List String := []

structure RecorderOptions where
  sessionId : String
  parentSessionId : Option String := none
  spawnedByRequestId : Option String := none

inductive RecorderCall where
  | startTurnRequest (bodyHash : Option String) (minted : String)
  | prepareTurnRetry
  | clearTurnRetry
  | finishRequest (requestId : Option String)
  | failRequest (requestId : Option String)
  | beginCompaction (minted : String)
  | startCompactionRequest (compactionId minted : String)
  | finishCompaction (compactionId : String) (status : CompactionStatus)
  | recordChildReturned (childSessionId : String) (childLastCommittedRequestId : Option String)

/-- The repair that a ledger needs of its tail. -/
def repair? (raw : List UInt8) (parsed : ParsedLedger) : Option PendingRepair :=
  if parsed.validLength < raw.length then some (.truncateToBytes parsed.validLength)
  else if raw ≠ [] ∧ raw.getLast? ≠ some 10 then some .terminateLine
  else none

/-- What is done to the file to repair it. -/
def PendingRepair.write : PendingRepair → DiskWrite
  | .truncateToBytes bytes => .truncate bytes
  | .terminateLine => .append [10]

namespace SemanticEdgeRecorder

variable (recorder : SemanticEdgeRecorder)

/-- What the recorder keeps of an event. -/
def replay : SemanticEdgeLedgerEvent → SemanticEdgeRecorder
  | .requestStarted requestId sessionId compactionId =>
    if sessionId = recorder.sessionId ∧ compactionId = none then
      { recorder with lastTurn := some { requestId, epoch := recorder.epoch } }
    else recorder
  | .requestFinished requestId => { recorder with lastCommittedRequestId := some requestId }
  | .compactionBegun compactionId sessionId =>
    if sessionId = recorder.sessionId ∧ compactionId ∉ recorder.openCompactions then
      { recorder with openCompactions := recorder.openCompactions ++ [compactionId] }
    else recorder
  | .compactionFinished compactionId status =>
    if compactionId ∈ recorder.openCompactions then
      { recorder with
        openCompactions := recorder.openCompactions.erase compactionId
        epoch := if status = .completed then recorder.epoch + 1 else recorder.epoch }
    else recorder
  | _ => recorder

def replayAll (events : List SemanticEdgeLedgerEvent) : SemanticEdgeRecorder :=
  events.foldl replay recorder

def repairWrites : List DiskWrite := (recorder.pendingRepair.map PendingRepair.write).toList

/-- The file once the repair is done. -/
def repaired (file : Option (List UInt8)) : Option (List UInt8) :=
  recorder.repairWrites.foldl DiskWrite.apply file

def line (event : SemanticEdgeLedgerEvent) : List UInt8 := (toJson event).stringify ++ [10]

/-- The recorder once an event is in the ledger. -/
def appended (event : SemanticEdgeLedgerEvent) : SemanticEdgeRecorder :=
  { recorder with pendingRepair := none }.replay event

/-- A ledger is opened: the events in it, and the recorder with the registration that it is to
append, where its session is new to the ledger. -/
def opening (options : RecorderOptions) (file : Option (List UInt8)) :
    List SemanticEdgeLedgerEvent × SemanticEdgeRecorder × Option SemanticEdgeLedgerEvent :=
  match parseLedgerContent (file.getD []) with
  | .error _ => ([], { sessionId := options.sessionId, disabled := true }, none)
  | .ok parsed =>
    let opened : SemanticEdgeRecorder :=
      { sessionId := options.sessionId, pendingRepair := repair? (file.getD []) parsed }
    if registeredIn parsed.events options.sessionId = true then
      (parsed.events, opened.replayAll parsed.events, none)
    else (parsed.events, opened, some (.sessionRegistered options.sessionId
      options.parentSessionId options.spawnedByRequestId))

/-- The id of a turn: that of a parked retry with the same body in the same epoch, or a new
one. -/
def turnRequestId (bodyHash : Option String) (minted : String) : String :=
  match recorder.parkedRetry with
  | none => minted
  | some parked =>
    if parked.epoch = recorder.epoch ∧ parked.bodyHash ≠ none ∧ parked.bodyHash = bodyHash then
      parked.requestId
    else minted

/-- What a call does before it appends, and the event that it appends. -/
def prepare : RecorderCall → SemanticEdgeRecorder × Option SemanticEdgeLedgerEvent
  | .startTurnRequest bodyHash minted =>
    let requestId := recorder.turnRequestId bodyHash minted
    (if recorder.parkedRetry.map TurnRequest.requestId = some requestId then
        { recorder with parkedRetry := none }
      else recorder,
      some (.requestStarted requestId recorder.sessionId none))
  | .prepareTurnRetry => ({ recorder with parkedRetry := recorder.lastTurn }, none)
  | .clearTurnRetry => ({ recorder with parkedRetry := none }, none)
  | .finishRequest requestId => (recorder, requestId.map .requestFinished)
  | .failRequest requestId => (recorder, requestId.map .requestFailed)
  | .beginCompaction minted => (recorder, some (.compactionBegun minted recorder.sessionId))
  | .startCompactionRequest compactionId minted =>
    (recorder, some (.requestStarted minted recorder.sessionId (some compactionId)))
  | .finishCompaction compactionId status =>
    -- An unknown compaction throws, which changes nothing.
    (recorder, if compactionId ∈ recorder.openCompactions then
      some (.compactionFinished compactionId status) else none)
  | .recordChildReturned childSessionId childLastCommittedRequestId =>
    (recorder, childLastCommittedRequestId.map fun requestId =>
      .childReturned recorder.sessionId childSessionId requestId)

/-- What a call does once its event is in the ledger. -/
def recorded : RecorderCall → SemanticEdgeLedgerEvent → SemanticEdgeRecorder
  | .startTurnRequest bodyHash _, .requestStarted requestId _ _ =>
    { recorder with lastTurn := some { requestId, epoch := recorder.epoch, bodyHash } }
  | _, _ => recorder

end SemanticEdgeRecorder

/-! ## Lifetimes of recorders on one ledger -/

/-- How an append ends.  A write that breaks leaves what it has done; the process may die of it, and
a recorder that outlives it writes nothing more. -/
inductive AppendEnd where
  | completed
  | brokeRepairing (file : Option (List UInt8)) (dies : Bool)
  | brokeWriting (part : List UInt8) (dies : Bool)

inductive RecorderLabel where
  | opens (options : RecorderOptions) (ending : AppendEnd)
  | calls (call : RecorderCall) (ending : AppendEnd)

/-- A recorder and the events that were in the ledger when it was opened. -/
structure OpenRecorder where
  recorder : SemanticEdgeRecorder
  existing : List SemanticEdgeLedgerEvent

/-- The ledger file, the recorder open on it, and for each append its event with the bytes of the
event's line that have been written. -/
structure LedgerState where
  file : Option (List UInt8) := none
  opened : Option OpenRecorder := none
  history : List (SemanticEdgeLedgerEvent × List UInt8) := []

/-- An append of the recorder, which is `after` it if that completes. -/
inductive LedgerState.Appends (s : LedgerState) (recorder : SemanticEdgeRecorder)
    (existing : List SemanticEdgeLedgerEvent) (event : SemanticEdgeLedgerEvent)
    (after : SemanticEdgeRecorder) : AppendEnd → LedgerState → Prop
  | completed :
      s.Appends recorder existing event after .completed
        { file := some ((recorder.repaired s.file).getD [] ++ SemanticEdgeRecorder.line event)
          opened := some ⟨after, existing⟩
          history := s.history ++ [(event, SemanticEdgeRecorder.line event)] }
  | brokeRepairing {file : Option (List UInt8)} (dies : Bool)
      (hfile : Leaves recorder.repairWrites s.file file) :
      s.Appends recorder existing event after (.brokeRepairing file dies)
        { file
          opened := if dies = true then none
            else some ⟨{ recorder with disabled := true }, existing⟩
          history := s.history ++ [(event, [])] }
  | brokeWriting {part : List UInt8} (dies : Bool)
      (hpart : part <+: SemanticEdgeRecorder.line event) :
      s.Appends recorder existing event after (.brokeWriting part dies)
        { file := some ((recorder.repaired s.file).getD [] ++ part)
          opened := if dies = true then none
            else some ⟨{ recorder with disabled := true, pendingRepair := none }, existing⟩
          history := s.history ++ [(event, part)] }

inductive LedgerState.Step (s : LedgerState) : RecorderLabel → LedgerState → Prop
  | resumes {options : RecorderOptions} {existing : List SemanticEdgeLedgerEvent}
      {recorder : SemanticEdgeRecorder} (ending : AppendEnd)
      (hopening : SemanticEdgeRecorder.opening options s.file = (existing, recorder, none)) :
      s.Step (.opens options ending) { s with opened := some ⟨recorder, existing⟩ }
  | registers {options : RecorderOptions} {existing : List SemanticEdgeLedgerEvent}
      {recorder : SemanticEdgeRecorder} {event : SemanticEdgeLedgerEvent} {ending : AppendEnd}
      {s' : LedgerState}
      (hopening : SemanticEdgeRecorder.opening options s.file = (existing, recorder, some event))
      (happends : s.Appends recorder existing event (recorder.appended event) ending s') :
      s.Step (.opens options ending) s'
  | ignores {call : RecorderCall} {recorder : SemanticEdgeRecorder}
      {existing : List SemanticEdgeLedgerEvent} (ending : AppendEnd)
      (hopened : s.opened = some ⟨recorder, existing⟩)
      (hnothing : recorder.disabled = true ∨ (recorder.prepare call).2 = none) :
      s.Step (.calls call ending) { s with opened := some ⟨(recorder.prepare call).1, existing⟩ }
  | appends {call : RecorderCall} {recorder prepared : SemanticEdgeRecorder}
      {existing : List SemanticEdgeLedgerEvent} {event : SemanticEdgeLedgerEvent}
      {ending : AppendEnd} {s' : LedgerState} (hopened : s.opened = some ⟨recorder, existing⟩)
      (henabled : recorder.disabled = false)
      (hprepare : recorder.prepare call = (prepared, some event))
      (happends : s.Appends prepared existing event
        ((prepared.appended event).recorded call event) ending s') :
      s.Step (.calls call ending) s'

def recorderMachine : Machine LedgerState RecorderLabel where
  step := LedgerState.Step

end Amide
