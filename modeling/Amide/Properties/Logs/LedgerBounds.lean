import Amide.Construction.Logs.RlmLedger
import Amide.Properties.Logs.CrashSafety

/-!
# What the ledger writes and what it reads back

Reading the ledger fails closed beyond `rlmLedgerMaxRecords` records and `rlmLedgerMaxBytes`
bytes; of the writers only seeding looks at these bounds.  Without crashes the file is always a
sequence of whole records (`LedgerFile`), so the bounds are all that can make a read fail, and a
ledger is readable exactly while it is within them (`LedgerFile.readable_iff`).

An operation fits (`LedgerOp.Fits`) when the records it appends keep the file within the bounds
and, if it seeds, have depths that its reader accepts.
A run of fitting operations keeps the ledger readable (`readable_of_fitting_run`); a hundred
thousand deletions, all of which succeed, do not (`deletions_not_readable`).
-/

namespace Amide

open LineCodec EventLog RlmSpawnLedger

attribute [local simp] Json.field

@[simp] lemma deleteReason?_text (reason : RlmLedgerDeleteReason) :
    deleteReason? reason.text = some reason := by
  cases reason <;> rfl

lemma parseLedgerLine_event (record : RlmLedgerRecord) (index : ℕ) :
    parseLedgerLine record.event.stringify index = .ok (some record) := by
  cases record with
  | metaRecord r | rename r | delete r => simp [parseLedgerLine, RlmLedgerRecord.event]
  | spawn r =>
    have hdepth : (1 ≤ r.depth.val ∧ r.depth.val ≤ maxSafeInteger) := r.depth.property
    simp [parseLedgerLine, RlmLedgerRecord.event, ledgerDepth?, hdepth]

lemma isObj_event (record : RlmLedgerRecord) : record.event.isObj = true := by
  cases record <;> rfl

/-- The ledger's records in its log. -/
def ledgerRecords : LogRecords RlmLedgerRecord where
  event := RlmLedgerRecord.event
  parse := parseLedgerLine
  isObj_event := isObj_event
  parse_event := parseLedgerLine_event
  parse_cut record line index hline _ hne := by
    rw [parseLedgerLine, Json.parse_strictPrefix (isObj_event record) hline hne]
    exact ⟨_, rfl⟩

/-! ## Seed records -/

/-- The record is one its reader accepts. -/
def RlmLedgerSeedRecord.Writable (record : RlmLedgerSeedRecord) : Prop :=
  1 ≤ record.depth ∧ record.depth ≤ maxSafeInteger

/-- A spawn record among the records of a seed. -/
def RlmLedgerSpawnRecord.seedRecord (r : RlmLedgerSpawnRecord) : RlmLedgerSeedRecord where
  at_ := r.at_
  childId := r.childId
  parent := r.parent
  child := r.child
  depth := r.depth
  name := r.name

lemma RlmLedgerSpawnRecord.event_seedRecord (r : RlmLedgerSpawnRecord) :
    r.seedRecord.event = (RlmLedgerRecord.spawn r).event := rfl

lemma RlmLedgerSeedRecord.exists_spawns {records : List RlmLedgerSeedRecord}
    (h : ∀ record ∈ records, record.Writable) :
    ∃ spawns : List RlmLedgerSpawnRecord, spawns.map RlmLedgerSpawnRecord.seedRecord = records := by
  induction records with
  | nil => exact ⟨[], rfl⟩
  | cons record records ih =>
    obtain ⟨spawns, rfl⟩ := ih fun r hr => h r (List.mem_cons_of_mem _ hr)
    have hdepth := h record List.mem_cons_self
    exact ⟨⟨record.at_, record.childId, record.parent, record.child, ⟨record.depth, hdepth⟩,
      record.name⟩ :: spawns, rfl⟩

/-- What is published of writable records. -/
lemma seedPayload_eq (ledger : RlmSpawnLedger) (env : LedgerEnv)
    (spawns : List RlmLedgerSpawnRecord) :
    ledger.seedPayload env (spawns.map RlmLedgerSpawnRecord.seedRecord) =
      ledgerRecords.codec.write (ledger.metaRecord env :: spawns.map .spawn) := by
  have hevents : (spawns.map RlmLedgerSpawnRecord.seedRecord).map RlmLedgerSeedRecord.event =
      (spawns.map RlmLedgerRecord.spawn).map RlmLedgerRecord.event := by
    rw [List.map_map, List.map_map]
    exact List.map_congr_left fun r _ => r.event_seedRecord
  rw [seedPayload, hevents, ← List.map_cons, List.flatMap_map]
  rfl

/-! ## Runs -/

/-- The operations that write. -/
inductive LedgerOp where
  | spawn (input : SpawnInput)
  | rename (childId child name : String)
  | renameByChildPath (child name : String)
  | delete (childId child : String) (reason : RlmLedgerDeleteReason)
  | seed (records : List RlmLedgerSeedRecord)

namespace LedgerOp

variable (ledger : RlmSpawnLedger) (env : LedgerEnv)

def run (file : Option (List UInt8)) : LedgerOp → Except String (Option (List UInt8))
  | spawn input => (ledger.appendSpawn env input file).map some
  | rename childId child name => (ledger.appendRename env childId child name file).map some
  | renameByChildPath child name => ledger.appendRenameByChildPath env child name file
  | delete childId child reason => (ledger.appendDelete env childId child reason file).map some
  | seed records => .ok (ledger.publishSeed env records file)

/-- The records an append has for the ledger as it stands. -/
def records (file : Option (List UInt8)) : LedgerOp → List RlmLedgerRecord
  | spawn input => (spawnRecord? env input).toList
  | rename childId child name => [renameRecord env childId child name]
  | renameByChildPath child name =>
    match ledger.replaySync env file with
    | .error _ => []
    | .ok edges => renameRecords env child name edges
  | delete childId child reason => [RlmSpawnLedger.deleteRecord env childId child reason]
  | seed _ => []

/-- Behind a new file's first record, if the file is new. -/
def withMeta (file : Option (List UInt8)) (records : List RlmLedgerRecord) : List RlmLedgerRecord :=
  if file.isNone ∧ records ≠ [] then ledger.metaRecord env :: records else records

/-- Only seeding writes records whose depth it has not checked, where it publishes them: in a new
file and within the bounds. -/
def Writable (file : Option (List UInt8)) : LedgerOp → Prop
  | seed records => file = none → records.length < rlmLedgerMaxRecords →
      (ledger.seedPayload env records).length ≤ rlmLedgerMaxBytes →
        ∀ record ∈ records, record.Writable
  | _ => True

/-- The records of the operation and the ledger's own make up no more than its reader accepts. -/
def Fits (file : Option (List UInt8)) (op : LedgerOp) : Prop :=
  let added := withMeta ledger env file (op.records ledger env file)
  (file.getD []).length + (ledgerRecords.codec.write added).length ≤ rlmLedgerMaxBytes ∧
    recordLines (file.getD []) + added.length ≤ rlmLedgerMaxRecords ∧
    op.Writable ledger env file

end LedgerOp

/-- Operations that succeed. -/
def ledgerMachine (ledger : RlmSpawnLedger) :
    Machine (Option (List UInt8)) (LedgerEnv × LedgerOp) where
  step file label file' := label.2.run ledger label.1 file = .ok file'

/-- Every replay and every append succeeds. -/
structure RlmSpawnLedger.Readable (ledger : RlmSpawnLedger) (file : Option (List UInt8)) :
    Prop where
  replays : ∀ env, ∃ edges, ledger.replaySync env file = .ok edges
  appends : ∀ env record, ∃ bytes, ledger.appendRecord env record file = .ok bytes

/-! ## The file between operations -/

/-- No file, or whole records. -/
inductive LedgerFile : Option (List UInt8) → List RlmLedgerRecord → Prop
  | absent : LedgerFile none []
  | written (records : List RlmLedgerRecord) :
      LedgerFile (some (ledgerRecords.codec.write records)) records

namespace LedgerFile

variable {ledger : RlmSpawnLedger} {env : LedgerEnv} {file : Option (List UInt8)}
  {records : List RlmLedgerRecord}

lemma getD_eq (h : LedgerFile file records) : file.getD [] = ledgerRecords.codec.write records := by
  cases h <;> rfl

lemma recordLines_getD (h : LedgerFile file records) :
    recordLines (file.getD []) = records.length := by
  have hcount := @recordLines_write RlmLedgerRecord ledgerRecords records [] List.not_mem_nil
  rw [h.getD_eq]
  simpa [EventLog.records] using hcount

/-- Within the bounds. -/
def InBounds (records : List RlmLedgerRecord) : Prop :=
  (ledgerRecords.codec.write records).length ≤ rlmLedgerMaxBytes ∧
    records.length ≤ rlmLedgerMaxRecords

lemma inBounds_iff (h : LedgerFile file records) :
    ledger.eventLog.InBounds (file.getD []) ↔ InBounds records := by
  constructor
  · intro hin
    refine ⟨h.getD_eq ▸ hin.bytes_le _ rfl, ?_⟩
    rw [← h.recordLines_getD]
    exact hin.records_le _ rfl
  · rintro ⟨hbytes, hrecords⟩
    refine ⟨fun maxBytes hmax => ?_, fun maxRecords hmax => ?_⟩
    · cases hmax
      rwa [h.getD_eq]
    · cases hmax
      rwa [h.recordLines_getD]

lemma terminatedPart_write (records : List RlmLedgerRecord) :
    terminatedPart (ledgerRecords.codec.write records) = ledgerRecords.codec.write records := by
  have hpart := terminatedPart_of_cut (terminated_write ledgerRecords.codec records)
    (List.not_mem_nil (a := 10))
  rwa [List.append_nil] at hpart

/-- The repair leaves whole records alone; it throws beyond the byte bound. -/
lemma repairTailSync_iff (records : List RlmLedgerRecord) :
    ledger.eventLog.repairTailSync (some (ledgerRecords.codec.write records)) =
        .ok (some (ledgerRecords.codec.write records)) ↔
      (ledgerRecords.codec.write records).length ≤ rlmLedgerMaxBytes := by
  constructor
  · intro hrepair
    cases hbytes : ledgerRecords.codec.write records with
    | nil => exact Nat.zero_le _
    | cons b bs =>
      rw [hbytes] at hrepair
      cases hread : ledger.eventLog.readAllSync (b :: bs) with
      | error message => simp [EventLog.repairTailSync, hread] at hrepair
      | ok contents => exact (readAllSync_eq_ok_iff.mp hread).2 _ rfl
  · intro hle
    have hread : ledger.eventLog.readAllSync (ledgerRecords.codec.write records) =
        .ok (ledgerRecords.codec.write records) := by
      refine readAllSync_eq_ok_iff.mpr ⟨rfl, fun maxBytes hmax => ?_⟩
      cases hmax
      exact hle
    rw [repairTailSync_some hread, terminatedPart_write]

/-- **What an append writes**, and when it is refused. -/
lemma appendRecord_eq_ok_iff (h : LedgerFile file records) (record : RlmLedgerRecord)
    (bytes : List UInt8) :
    ledger.appendRecord env record file = .ok bytes ↔
      bytes = ledgerRecords.codec.write (records ++ LedgerOp.withMeta ledger env file [record]) ∧
        (ledgerRecords.codec.write records).length ≤ rlmLedgerMaxBytes := by
  have hline : ∀ r : RlmLedgerRecord, r.event.stringify ++ [10] = ledgerRecords.codec.line r :=
    fun _ => rfl
  cases h with
  | absent =>
    simp [RlmSpawnLedger.appendRecord, appendSync, prepareAppend, serializeLine,
      LedgerOp.withMeta, hline, eq_comm, bind, Except.bind, pure, Except.pure]
  | written records =>
    cases hrepair : ledger.eventLog.repairTailSync (some (ledgerRecords.codec.write records)) with
    | error message =>
      have hlt : ¬ (ledgerRecords.codec.write records).length ≤ rlmLedgerMaxBytes := fun hle => by
        rw [(repairTailSync_iff records).mpr hle] at hrepair
        cases hrepair
      simp [RlmSpawnLedger.appendRecord, appendSync, prepareAppend, serializeLine, hrepair, hlt,
        bind, Except.bind, pure, Except.pure]
    | ok repaired =>
      obtain rfl := repairTailSync_eq_ok hrepair
      rw [terminatedPart_write] at hrepair
      simp [RlmSpawnLedger.appendRecord, appendSync, prepareAppend, serializeLine, hrepair,
        LedgerOp.withMeta, hline, (repairTailSync_iff records).mp hrepair, eq_comm, bind,
        Except.bind, pure, Except.pure]

/-- A ledger file is read as its records as long as it is within the bounds. -/
lemma replayRecords_eq (h : LedgerFile file records) (hin : InBounds records) :
    ledger.eventLog.replaySync parseLedgerLine file = .ok records := by
  cases h with
  | absent => rfl
  | written records =>
    have hbounds := (@inBounds_iff ledger _ _ (.written records)).mpr hin
    have hwhole := @replayLines_write RlmLedgerRecord ledger.eventLog ledgerRecords records {} 0
      fun maxRecords hmax => by
        cases hmax
        simpa using hin.2
    exact replaySync_terminated (terminated_write ledgerRecords.codec records)
      hbounds.readAllSync hwhole

lemma replaySync_eq (h : LedgerFile file records) (hin : InBounds records) :
    ledger.replaySync env file = .ok (RlmSpawnLedger.replayEdges env records) := by
  rw [RlmSpawnLedger.replaySync, h.replayRecords_eq hin]
  rfl

lemma inBounds_of_replaySync (h : LedgerFile file records)
    {edges : JsMap String RlmLedgerEdge} (hreplay : ledger.replaySync env file = .ok edges) :
    InBounds records := by
  cases h with
  | absent => exact ⟨Nat.zero_le _, Nat.zero_le _⟩
  | written records =>
    cases hlog : ledger.eventLog.replaySync parseLedgerLine
        (some (ledgerRecords.codec.write records)) with
    | error message => simp [RlmSpawnLedger.replaySync, hlog, bind, Except.bind] at hreplay
    | ok read =>
      exact (@inBounds_iff ledger _ _ (.written records)).mp (replaySync_some_eq_ok hlog).1

/-- **A ledger is readable exactly while it is within the bounds.** -/
lemma readable_iff (h : LedgerFile file records) : ledger.Readable file ↔ InBounds records := by
  constructor
  · intro hread
    obtain ⟨edges, hreplay⟩ := hread.replays { canonicalSessionPath := id, nowIso := "" }
    exact h.inBounds_of_replaySync hreplay
  · intro hin
    exact ⟨fun env => ⟨_, h.replaySync_eq hin⟩, fun env record =>
      ⟨_, (h.appendRecord_eq_ok_iff record _).mpr ⟨rfl, hin.1⟩⟩⟩

/-! ## Steps -/

lemma appendAll (h : LedgerFile file records) {added : List RlmLedgerRecord}
    {file' : Option (List UInt8)} (happend : ledger.appendAll env file added = .ok file') :
    LedgerFile file' (records ++ LedgerOp.withMeta ledger env file added) := by
  induction added generalizing file records with
  | nil =>
    cases happend
    simpa [LedgerOp.withMeta] using h
  | cons record added ih =>
    rw [RlmSpawnLedger.appendAll] at happend
    cases hrec : ledger.appendRecord env record file with
    | error message => simp [hrec] at happend
    | ok bytes =>
      obtain ⟨rfl, -⟩ := (h.appendRecord_eq_ok_iff record bytes).mp hrec
      simp only [hrec] at happend
      have hrest := ih (.written _) happend
      cases file <;> simpa [LedgerOp.withMeta] using hrest

lemma appendRecord (h : LedgerFile file records) {record : RlmLedgerRecord}
    {file' : Option (List UInt8)}
    (happend : (ledger.appendRecord env record file).map some = .ok file') :
    LedgerFile file' (records ++ LedgerOp.withMeta ledger env file [record]) := by
  refine @appendAll ledger env _ _ h _ _ ?_
  cases hrec : ledger.appendRecord env record file with
  | error message => simp [hrec, Except.map] at happend
  | ok bytes =>
    simp only [hrec, Except.map, Except.ok.injEq] at happend
    simp [RlmSpawnLedger.appendAll, hrec, happend]

lemma publishSeed (h : LedgerFile file records) (hin : InBounds records)
    {seed : List RlmLedgerSeedRecord} (hseed : (LedgerOp.seed seed).Writable ledger env file) :
    ∃ records', LedgerFile (ledger.publishSeed env seed file) records' ∧ InBounds records' := by
  rw [RlmSpawnLedger.publishSeed]
  split_ifs with hfile hempty hbounds
  iterate 3 exact ⟨records, h, hin⟩
  rw [not_or, Nat.not_lt, Nat.not_lt] at hbounds
  obtain ⟨spawns, rfl⟩ := RlmLedgerSeedRecord.exists_spawns
    (hseed (by simpa using hfile) hbounds.1 hbounds.2)
  rw [seedPayload_eq] at hbounds ⊢
  exact ⟨ledger.metaRecord env :: spawns.map .spawn, .written _, hbounds.2, by
    simpa using hbounds.1⟩

/-- **Step lemma.** -/
lemma step (h : LedgerFile file records) (hin : InBounds records) {op : LedgerOp}
    (hfits : op.Fits ledger env file) {file' : Option (List UInt8)}
    (hrun : op.run ledger env file = .ok file') :
    ∃ records', LedgerFile file' records' ∧ InBounds records' := by
  have hadded : InBounds (records ++ LedgerOp.withMeta ledger env file
      (op.records ledger env file)) := by
    obtain ⟨hbytes, hcount, -⟩ := hfits
    rw [h.getD_eq] at hbytes
    rw [h.recordLines_getD] at hcount
    exact ⟨by rwa [write_append, List.length_append], by rwa [List.length_append]⟩
  cases op with
  | spawn input =>
    rw [LedgerOp.run, appendSpawn] at hrun
    cases hrec : spawnRecord? env input with
    | none => simp [hrec, Except.map] at hrun
    | some record =>
      rw [LedgerOp.records, hrec, Option.toList_some] at hadded
      refine ⟨_, @appendRecord ledger env _ _ h _ _ ?_, hadded⟩
      cases hreplay : ledger.replaySync env file with
      | error message => simp [hrec, hreplay, bind, Except.bind, Except.map] at hrun
      | ok edges =>
        simp only [hrec, hreplay, bind, Except.bind] at hrun
        split at hrun
        · cases hrun
        · exact hrun
  | rename childId child name | delete childId child reason =>
    exact ⟨_, h.appendRecord hrun, hadded⟩
  | renameByChildPath child name =>
    refine ⟨_, @appendAll ledger env _ _ h _ _ ?_, hadded⟩
    have hreplay := @replaySync_eq ledger env _ _ h hin
    simpa [LedgerOp.run, LedgerOp.records, appendRenameByChildPath, hreplay, bind,
      Except.bind] using hrun
  | seed seed =>
    cases hrun
    exact h.publishSeed hin hfits.2.2

end LedgerFile

/-- **As long as what is appended fits the reader, the ledger can be read and appended to.** -/
theorem readable_of_fitting_run {ledger : RlmSpawnLedger}
    {labels : List (LedgerEnv × LedgerOp)} {file : Option (List UInt8)}
    (h : ((ledgerMachine ledger).guard fun file label =>
      label.2.Fits ledger label.1 file).Run none labels file) :
    ledger.Readable file := by
  have hfile : ∃ records, LedgerFile file records ∧ LedgerFile.InBounds records := by
    refine h.invariant (I := fun file => ∃ records, LedgerFile file records ∧
      LedgerFile.InBounds records) ⟨[], .absent, Nat.zero_le _, Nat.zero_le _⟩ ?_
    rintro file label file' ⟨records, hrecords, hin⟩ ⟨hrun, hfits⟩
    exact hrecords.step hin hfits hrun
  obtain ⟨records, hrecords, hin⟩ := hfile
  exact hrecords.readable_iff.mpr hin

/-! ## A hundred thousand deletions -/

def sampleLedger : RlmSpawnLedger := ⟨"/agent/rlm-ledger/0.jsonl", "/sessions"⟩

def sampleEnv : LedgerEnv := { canonicalSessionPath := id, nowIso := "2026-01-01T00:00:00.000Z" }

def childDeletion : LedgerOp := .delete "sub-1" "/sessions/child.jsonl" .user

def childDeletionRecord : RlmLedgerRecord :=
  RlmSpawnLedger.deleteRecord sampleEnv "sub-1" "/sessions/child.jsonl" .user

/-- The file after that many deletions. -/
def deletions : ℕ → Option (List UInt8)
  | 0 => none
  | n + 1 => some (ledgerRecords.codec.write
      (sampleLedger.metaRecord sampleEnv :: List.replicate (n + 1) childDeletionRecord))

lemma length_deletion : (ledgerRecords.codec.line childDeletionRecord).length ≤ 200 ∧
    (ledgerRecords.codec.line (sampleLedger.metaRecord sampleEnv)).length ≤ 200 := by
  decide +kernel

lemma length_deletions (n : ℕ) : (ledgerRecords.codec.write
    (sampleLedger.metaRecord sampleEnv :: List.replicate n childDeletionRecord)).length ≤
      200 * (n + 1) := by
  have hrest : (ledgerRecords.codec.write (List.replicate n childDeletionRecord)).length ≤
      200 * n := by
    induction n with
    | zero => exact Nat.zero_le _
    | succ n ih =>
      rw [List.replicate_succ, write_cons, List.length_append]
      have hline := length_deletion.1
      omega
  rw [write_cons, List.length_append]
  have hline := length_deletion.2
  omega

lemma deletions_step {n : ℕ} (hn : n < rlmLedgerMaxRecords) :
    childDeletion.run sampleLedger sampleEnv (deletions n) = .ok (deletions (n + 1)) := by
  have hrun : ∀ bytes,
      sampleLedger.appendRecord sampleEnv childDeletionRecord (deletions n) = .ok bytes →
      childDeletion.run sampleLedger sampleEnv (deletions n) = .ok (some bytes) := by
    intro bytes happend
    change (sampleLedger.appendRecord sampleEnv childDeletionRecord (deletions n)).map some = _
    rw [happend]
    rfl
  refine hrun _ ?_
  cases n with
  | zero => exact (LedgerFile.absent.appendRecord_eq_ok_iff _ _).mpr ⟨rfl, Nat.zero_le _⟩
  | succ n =>
    refine ((LedgerFile.written _).appendRecord_eq_ok_iff _ _).mpr ⟨?_, ?_⟩
    · rw [List.replicate_succ' (n := n + 1)]
      rfl
    · have hlen := length_deletions (n + 1)
      simp only [rlmLedgerMaxRecords, rlmLedgerMaxBytes] at hn ⊢
      omega

lemma deletions_run (n : ℕ) (hn : n ≤ rlmLedgerMaxRecords) :
    (ledgerMachine sampleLedger).Run none (List.replicate n (sampleEnv, childDeletion))
      (deletions n) := by
  induction n with
  | zero => exact .nil
  | succ n ih =>
    rw [List.replicate_succ']
    exact (ih (Nat.le_of_succ_le hn)).snoc (deletions_step hn)

theorem readable_of_fitting_run_deletion : sampleLedger.Readable (deletions 1) := by
  have hadded : LedgerOp.withMeta sampleLedger sampleEnv none
      (childDeletion.records sampleLedger sampleEnv none) =
      sampleLedger.metaRecord sampleEnv :: List.replicate 1 childDeletionRecord := rfl
  have hfits : childDeletion.Fits sampleLedger sampleEnv none := by
    have hlength := length_deletions 1
    rw [LedgerOp.Fits, hadded]
    constructor
    · rw [Option.getD_none, List.length_nil, Nat.zero_add]
      exact hlength.trans (by simp [rlmLedgerMaxBytes])
    · rw [Option.getD_none, show recordLines [] = 0 from rfl, List.length_cons,
        List.length_replicate]
      exact ⟨by simp [rlmLedgerMaxRecords], trivial⟩
  have hstep : ((ledgerMachine sampleLedger).guard fun file label =>
      label.2.Fits sampleLedger label.1 file).step none (sampleEnv, childDeletion) (deletions 1) :=
    ⟨deletions_step (n := 0) (by simp [rlmLedgerMaxRecords]), hfits⟩
  exact readable_of_fitting_run (.single hstep)

/-- Each deletion succeeds, and the ledger cannot be read any more. -/
theorem deletions_not_readable :
    ¬ ∀ (ledger : RlmSpawnLedger) (labels : List (LedgerEnv × LedgerOp))
        (file : Option (List UInt8)),
      (ledgerMachine ledger).Run none labels file → ledger.Readable file := by
  intro h
  have hread := h _ _ _ (deletions_run rlmLedgerMaxRecords le_rfl)
  have hfile : LedgerFile (deletions rlmLedgerMaxRecords) (sampleLedger.metaRecord sampleEnv ::
      List.replicate rlmLedgerMaxRecords childDeletionRecord) := .written _
  have hcount := (hfile.readable_iff.mp hread).2
  rw [List.length_cons, List.length_replicate] at hcount
  omega

end Amide
