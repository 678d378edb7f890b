import Amide.Framework.JsMap
import Amide.Framework.DiskWrite
import Amide.Framework.JsonLines
import Amide.Framework.JsonText
import Amide.Framework.Machine

/-!
# The command journal (`modes/daemon/command-recovery-journal.ts`)

A record is appended to the journal before a command is dispatched (`begin`), one when it has a
result, and one when the client has seen that.  A journal is loaded line by line, lines that are
not JSON passed over; now and then the file is replaced by one of the records that still count
(`compact`).

An operation lists what it writes (`DiskWrite`), so that a process may die anywhere in it.  A
record's version is one of digits only, and a line that is not UTF-8 is not JSON.
Directories, file modes and `fsync` are left out.
-/

namespace Amide

/-! ## Records -/

/-- What a supervisor answers: any object that calls itself a response. -/
structure DaemonResponse where
  json : Json
  type : json.get? "type" = some (.str "response")
  deriving DecidableEq

def daemonResponse? (json : Option Json) : Option DaemonResponse :=
  match json with
  | some json => if h : json.get? "type" = some (.str "response") then some ⟨json, h⟩ else none
  | none => none

/-- A record of a command's receipt, with any members besides its own. -/
def isReceivedRecord (record : Json) : Bool :=
  (record.field "version" : Option ℕ) = some 1 &&
    (record.field "key" : Option String).isSome && record.get? "type" = some (.str "received") &&
    (record.field "clientId" : Option String).isSome &&
    (record.field "commandId" : Option String).isSome &&
    (record.field "commandType" : Option String).isSome

structure ReceivedRecord where
  json : Json
  isReceived : isReceivedRecord json = true

structure JournalEntry where
  received : ReceivedRecord
  response : Option DaemonResponse := none

inductive CommandJournalBeginResult where
  | new
  | pending
  | complete (response : DaemonResponse)
  deriving DecidableEq

def compactAfterRecords : ℕ := 4096

def createCommandIdempotencyKey (clientId commandId : String) : String :=
  (Json.arr [.str clientId, .str commandId]).text

def receivedJson (key clientId commandId commandType recordedAt : String) : Json :=
  .obj [("version", toJson 1), ("type", .str "received"), ("key", .str key),
    ("clientId", .str clientId), ("commandId", .str commandId),
    ("commandType", .str commandType), ("recordedAt", .str recordedAt)]

def resultJson (key : String) (response : DaemonResponse) (recordedAt : String) : Json :=
  .obj [("version", toJson 1), ("type", .str "result"), ("key", .str key),
    ("response", response.json), ("recordedAt", .str recordedAt)]

def acknowledgedJson (key recordedAt : String) : Json :=
  .obj [("version", toJson 1), ("type", .str "acknowledged"), ("key", .str key),
    ("recordedAt", .str recordedAt)]

lemma isReceived_receivedJson (key clientId commandId commandType recordedAt : String) :
    isReceivedRecord (receivedJson key clientId commandId commandType recordedAt) = true := by
  simp [isReceivedRecord, receivedJson, Json.field, ofJson_str]

/-! ## The journal

`now n` is what the `n`th reading of the clock within an operation gives. -/

structure CommandRecoveryJournal where
  entries : JsMap String JournalEntry := .empty
  recordCount : ℕ := 0

namespace CommandRecoveryJournal

variable (now : ℕ → String) (journal : CommandRecoveryJournal)

def lookup (clientId commandId : String) : Option CommandJournalBeginResult :=
  (journal.entries.get? (createCommandIdempotencyKey clientId commandId)).map fun entry =>
    match entry.response with
    | some response => .complete response
    | none => .pending

def append (record : Json) : CommandRecoveryJournal × List DiskWrite :=
  ({ journal with recordCount := journal.recordCount + 1 }, [.append (record.stringify ++ [10])])

/-- The records of an entry, the `n`th time of the clock being the next. -/
def entryRecords (n : ℕ) (key : String) (entry : JournalEntry) : List Json :=
  entry.received.json :: (entry.response.map fun response =>
    resultJson key response (now n)).toList

def compactedRecords : ℕ → List (String × JournalEntry) → List Json
  | _, [] => []
  | n, (key, entry) :: entries => entryRecords now n key entry ++
      compactedRecords (if entry.response.isSome then n + 1 else n) entries

/-- The operation itself has read the clock once. -/
def compact : CommandRecoveryJournal × List DiskWrite :=
  let records := compactedRecords now 1 journal.entries.entries
  ({ journal with recordCount := records.length },
    [.replace (JsonLines.joinRecords records ++ [10])])

/-- `if (this.recordCount >= COMPACT_AFTER_RECORDS)` and the like. -/
def compactIf (condition : Bool) (journal : CommandRecoveryJournal) :
    CommandRecoveryJournal × List DiskWrite :=
  if condition then journal.compact now else (journal, [])

def «begin» (clientId commandId commandType : String) :
    CommandJournalBeginResult × CommandRecoveryJournal × List DiskWrite :=
  let key := createCommandIdempotencyKey clientId commandId
  match journal.lookup clientId commandId with
  | some existing => (existing, journal, [])
  | none =>
    let received := receivedJson key clientId commandId commandType (now 0)
    let (journal, writes) := journal.append received
    let entry := { received := ⟨received, isReceived_receivedJson .. ⟩ }
    (.new, { journal with entries := journal.entries.set key entry }, writes)

def recordResult (clientId commandId : String) (response : DaemonResponse) :
    Except String (CommandRecoveryJournal × List DiskWrite) :=
  let key := createCommandIdempotencyKey clientId commandId
  match journal.entries.get? key with
  | none => .error s!"Cannot record a result before command receipt: {key}"
  | some entry =>
    let (journal, writes) := journal.append (resultJson key response (now 0))
    let answered : CommandRecoveryJournal := { journal with
      entries := journal.entries.set key { entry with response := some response } }
    let (journal, writes') := answered.compactIf now (compactAfterRecords ≤ answered.recordCount)
    .ok (journal, writes ++ writes')

def acknowledge (clientId commandId : String) : CommandRecoveryJournal × List DiskWrite :=
  let key := createCommandIdempotencyKey clientId commandId
  if journal.entries.has key = false then (journal, [])
  else
    let (journal, writes) := journal.append (acknowledgedJson key (now 0))
    let dropped : CommandRecoveryJournal := { journal with entries := journal.entries.delete key }
    let (journal, writes') := dropped.compactIf now
      (dropped.entries.size = 0 || compactAfterRecords ≤ dropped.recordCount)
    (journal, writes ++ writes')

/-! ### Loading -/

/-- A record that was read; `null` has no members to be asked for. -/
def loadRecord (record : Json) : Except String CommandRecoveryJournal :=
  if record = .null then .error "Cannot read properties of null (reading 'version')"
  else
    match (record.field "version" : Option ℕ), (record.field "key" : Option String) with
    | some 1, some key =>
      let journal := { journal with recordCount := journal.recordCount + 1 }
      if record.get? "type" = some (.str "received") then
        if h : isReceivedRecord record = true then
          .ok { journal with entries := journal.entries.set key { received := ⟨record, h⟩ } }
        else .ok journal
      else if record.get? "type" = some (.str "acknowledged") then
        .ok { journal with entries := journal.entries.delete key }
      else
        match journal.entries.get? key, daemonResponse? (record.get? "response") with
        | some entry, some response =>
          .ok { journal with
            entries := journal.entries.set key { entry with response := some response } }
        | _, _ => .ok journal
    | _, _ => .ok journal

def load (file : Option (List UInt8)) : Except String CommandRecoveryJournal :=
  match file with
  | none => .ok {}
  | some contents => JsonLines.loadText loadRecord {} contents

end CommandRecoveryJournal

/-! ## Processes that die -/

inductive JournalOp where
  | «begin» (clientId commandId commandType : String)
  | recordResult (clientId commandId : String) (response : DaemonResponse)
  | acknowledge (clientId commandId : String)

inductive JournalOutcome where
  | status (result : CommandJournalBeginResult)
  | done
  | threw (message : String)
  | interrupted
  deriving DecidableEq

def JournalOp.perform (now : ℕ → String) (journal : CommandRecoveryJournal) :
    JournalOp → JournalOutcome × CommandRecoveryJournal × List DiskWrite
  | .begin clientId commandId commandType =>
    let (result, journal, writes) := journal.begin now clientId commandId commandType
    (.status result, journal, writes)
  | .recordResult clientId commandId response =>
    match journal.recordResult now clientId commandId response with
    | .ok (journal, writes) => (.done, journal, writes)
    | .error message => (.threw message, journal, [])
  | .acknowledge clientId commandId =>
    let (journal, writes) := journal.acknowledge now clientId commandId
    (.done, journal, writes)

/-- The file, what the process holds of it, and the operations so far with how they ended. -/
structure JournalState where
  file : Option (List UInt8) := none
  journal : CommandRecoveryJournal := {}
  history : List (JournalOp × JournalOutcome) := []

inductive JournalLabel where
  | call (op : JournalOp) (now : ℕ → String)
  | crash (op : JournalOp) (now : ℕ → String) (file : Option (List UInt8))
  | restart

/-- A crash is followed by a load of what it left. -/
def JournalState.step (s : JournalState) (label : JournalLabel) (s' : JournalState) : Prop :=
  match label with
  | .call op now =>
    let (outcome, journal, writes) := op.perform now s.journal
    s' = ⟨writes.foldl DiskWrite.apply s.file, journal, s.history ++ [(op, outcome)]⟩
  | .crash op now file =>
    Leaves (op.perform now s.journal).2.2 s.file file ∧
      ∃ journal, CommandRecoveryJournal.load file = .ok journal ∧
        s' = ⟨file, journal, s.history ++ [(op, .interrupted)]⟩
  | .restart =>
    ∃ journal, CommandRecoveryJournal.load s.file = .ok journal ∧ s' = { s with journal := journal }

def journalMachine : Machine JournalState JournalLabel where
  step := JournalState.step

end Amide
