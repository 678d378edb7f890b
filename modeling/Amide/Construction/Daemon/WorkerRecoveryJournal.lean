import Amide.Framework.DiskWrite
import Amide.Framework.JsMap
import Amide.Framework.JsonLines
import Amide.Framework.Machine

/-!
# The worker's journal (`modes/daemon/worker-recovery-journal.ts`)

A worker records what each of its active sessions is at; who comes after it reads the latest
record of each.  A record that says nothing new is not written again, and once no session is busy
the file is replaced by the latest records.  Lines that are not JSON are passed over.

A record's version is one of digits only, and a line that is not UTF-8 is not JSON.  Directories,
file modes and `fsync` are left out.
-/

namespace Amide

/-- What a worker reports of an active session. -/
structure WorkerRecoveryInput where
  activeSessionId : String
  sessionId : String
  sessionFile : Option String
  busy : Bool
  operation : String

def isWorkerRecoveryRecord (record : Json) : Bool :=
  (record.field "version" : Option ℕ) = some 1 &&
    (record.field "activeSessionId" : Option String).isSome &&
    (record.field "sessionId" : Option String).isSome &&
    (record.field "busy" : Option Bool).isSome && (record.field "operation" : Option String).isSome

/-- A record as it was read, with any members besides its own. -/
structure WorkerRecoveryRecord where
  json : Json
  isRecord : isWorkerRecoveryRecord json = true

namespace WorkerRecoveryInput

def json (input : WorkerRecoveryInput) (recordedAt : String) : Json :=
  .obj ([("version", toJson 1), ("activeSessionId", .str input.activeSessionId),
    ("sessionId", .str input.sessionId)] ++ Json.opt "sessionFile" input.sessionFile ++
    [("busy", .bool input.busy), ("operation", .str input.operation),
      ("recordedAt", .str recordedAt)])

lemma isRecord_json (input : WorkerRecoveryInput) (recordedAt : String) :
    isWorkerRecoveryRecord (input.json recordedAt) = true := by
  simp [isWorkerRecoveryRecord, json, Json.field, ofJson_str, ofJson_bool]

def record (input : WorkerRecoveryInput) (recordedAt : String) : WorkerRecoveryRecord :=
  ⟨input.json recordedAt, input.isRecord_json recordedAt⟩

end WorkerRecoveryInput

/-- The comparison with the record before: it leaves the session id out. -/
def WorkerRecoveryRecord.isRepeatedBy (previous : WorkerRecoveryRecord)
    (input : WorkerRecoveryInput) : Bool :=
  (previous.json.field "busy" : Option Bool) = some input.busy &&
    (previous.json.field "operation" : Option String) = some input.operation &&
    previous.json.get? "sessionFile" = input.sessionFile.map Json.str

def WorkerRecoveryRecord.busy (record : WorkerRecoveryRecord) : Bool :=
  (record.json.field "busy" : Option Bool) = some true

namespace WorkerRecoveryJournal

abbrev Latest := JsMap String WorkerRecoveryRecord

/-- A record that was read; `null` has no members to be asked for. -/
def parseRecord (latest : Latest) (record : Json) : Except String Latest :=
  if record = .null then .error "Cannot read properties of null (reading 'version')"
  else
    match (record.field "activeSessionId" : Option String) with
    | some activeSessionId =>
      if h : isWorkerRecoveryRecord record = true then .ok (latest.set activeSessionId ⟨record, h⟩)
      else .ok latest
    | none => .ok latest

def parseRecords (file : Option (List UInt8)) : Except String Latest :=
  match file with
  | none => .ok .empty
  | some contents => JsonLines.loadText parseRecord .empty contents

def readLatest (file : Option (List UInt8)) : Except String (List WorkerRecoveryRecord) :=
  (parseRecords file).map JsMap.values

def repeats (latest : Latest) (input : WorkerRecoveryInput) : Bool :=
  (latest.get? input.activeSessionId).any fun previous => previous.isRepeatedBy input

def isIdle (latest : Latest) : Bool := latest.values.all fun entry => !entry.busy

def compact (latest : Latest) : DiskWrite :=
  .replace (JsonLines.joinRecords (latest.values.map WorkerRecoveryRecord.json) ++ [10])

def record (latest : Latest) (input : WorkerRecoveryInput) (recordedAt : String) :
    Latest × List DiskWrite :=
  if repeats latest input = true then (latest, [])
  else
    let record := input.record recordedAt
    let latest := latest.set input.activeSessionId record
    let append := DiskWrite.append (record.json.stringify ++ [10])
    (latest, if isIdle latest = true then [append, compact latest] else [append])

end WorkerRecoveryJournal

/-! ## Workers that die -/

open WorkerRecoveryJournal

/-- The file, what the process holds of it, and the reports made: those of calls that returned, or
whose record was on disk when the process died. -/
structure WorkerJournalState where
  file : Option (List UInt8) := none
  latest : Latest := .empty
  history : List WorkerRecoveryInput := []

inductive WorkerJournalLabel where
  | record (input : WorkerRecoveryInput) (recordedAt : String)
  /-- The process dies with a part of the record written. -/
  | cut (input : WorkerRecoveryInput) (recordedAt : String) (part : List UInt8)
  /-- The process dies with the record written, and perhaps its line feed, and the rest. -/
  | late (input : WorkerRecoveryInput) (recordedAt : String) (file : Option (List UInt8))
  | restart

/-- A crash is followed by a load of what it left. -/
def WorkerJournalState.step (s : WorkerJournalState) (label : WorkerJournalLabel)
    (s' : WorkerJournalState) : Prop :=
  match label with
  | .record input recordedAt =>
    let (latest, writes) := WorkerRecoveryJournal.record s.latest input recordedAt
    s' = ⟨writes.foldl DiskWrite.apply s.file, latest, s.history ++ [input]⟩
  | .cut input recordedAt part =>
    repeats s.latest input = false ∧ part <+: (input.json recordedAt).stringify ∧
      part ≠ (input.json recordedAt).stringify ∧ ∃ latest,
        parseRecords (some (s.file.getD [] ++ part)) = .ok latest ∧
          s' = ⟨some (s.file.getD [] ++ part), latest, s.history⟩
  | .late input recordedAt file =>
    repeats s.latest input = false ∧
      (file = some (s.file.getD [] ++ (input.json recordedAt).stringify) ∨
        Leaves (WorkerRecoveryJournal.record s.latest input recordedAt).2.tail
          (some (s.file.getD [] ++ ((input.json recordedAt).stringify ++ [10]))) file) ∧
      ∃ latest, parseRecords file = .ok latest ∧ s' = ⟨file, latest, s.history ++ [input]⟩
  | .restart => ∃ latest, parseRecords s.file = .ok latest ∧ s' = { s with latest }

def workerJournalMachine : Machine WorkerJournalState WorkerJournalLabel where
  step := WorkerJournalState.step

end Amide
