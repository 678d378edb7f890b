import Amide.Framework.JsMap
import Amide.Framework.JsonCodec
import Amide.Construction.Logs.EventLog

/-!
# The RLM spawn ledger (`modes/daemon/rlm-ledger.ts`)

One event log per sessions directory holds the spawns, renames and deletions of child sessions.
`RlmSpawnLedger.replaySync` folds it into edges, the last record for a child counting, and
`RlmSpawnLedger.family` presents the sessions rooted in the directory: its own files as roots, and
the live edges as children.

The file system enters through `LedgerEnv`: what a path resolves to, which paths are files, the
names in the sessions directory, and the clock, read once in each operation.  Of a session's
information a row keeps the path, the name and the topology.  A number is read where it is
written in digits, as `JSON.stringify` writes an integer.  Of seeding the publication is here
(`RlmSpawnLedger.publishSeed`); the walk over the old registries that collects the records is in
`Amide.Construction.Logs.LedgerSeed`.  Logging is left out.
-/

namespace Amide

def rlmLedgerMaxBytes : ℕ := 32 * 1024 * 1024

def rlmLedgerMaxRecords : ℕ := 100000

def maxSafeInteger : ℕ := 9007199254740991

/-- A depth that may be written: a safe integer and at least one. -/
abbrev LedgerDepth := { depth : ℕ // 1 ≤ depth ∧ depth ≤ maxSafeInteger }

inductive RlmLedgerDeleteReason where
  | user
  | parentTeardown
  | revoked
  | gc

structure RlmLedgerMetaRecord where
  at_ : String
  sessionsDir : String

structure RlmLedgerSpawnRecord where
  at_ : String
  childId : String
  parent : String
  child : String
  depth : LedgerDepth
  name : String

structure RlmLedgerRenameRecord where
  at_ : String
  childId : String
  child : String
  name : String

structure RlmLedgerDeleteRecord where
  at_ : String
  childId : String
  child : String
  reason : RlmLedgerDeleteReason

inductive RlmLedgerRecord where
  | metaRecord (record : RlmLedgerMetaRecord)
  | spawn (record : RlmLedgerSpawnRecord)
  | rename (record : RlmLedgerRenameRecord)
  | delete (record : RlmLedgerDeleteRecord)

/-- A spawn record as seeding collects it: nobody has checked its depth. -/
structure RlmLedgerSeedRecord where
  at_ : String
  childId : String
  parent : String
  child : String
  depth : ℕ
  name : String
  deriving DecidableEq

structure RlmLedgerEdge where
  childId : String
  parent : String
  child : String
  depth : ℕ
  name : String
  deleted : Option RlmLedgerDeleteReason := none

/-! ## Records and their lines -/

def RlmLedgerDeleteReason.text : RlmLedgerDeleteReason → String
  | user => "user"
  | parentTeardown => "parent-teardown"
  | revoked => "revoked"
  | gc => "gc"

/-- `isDeleteReason`. -/
def deleteReason? : String → Option RlmLedgerDeleteReason
  | "user" => some .user
  | "parent-teardown" => some .parentTeardown
  | "revoked" => some .revoked
  | "gc" => some .gc
  | _ => none

def RlmLedgerRecord.event : RlmLedgerRecord → Json
  | metaRecord r => .obj [("v", toJson 1), ("op", toJson "meta"), ("at", toJson r.at_),
      ("sessionsDir", toJson r.sessionsDir)]
  | spawn r => .obj [("v", toJson 1), ("op", toJson "spawn"), ("at", toJson r.at_),
      ("childId", toJson r.childId), ("parent", toJson r.parent), ("child", toJson r.child),
      ("depth", toJson r.depth.val), ("name", toJson r.name)]
  | rename r => .obj [("v", toJson 1), ("op", toJson "rename"), ("at", toJson r.at_),
      ("childId", toJson r.childId), ("child", toJson r.child), ("name", toJson r.name)]
  | delete r => .obj [("v", toJson 1), ("op", toJson "delete"), ("at", toJson r.at_),
      ("childId", toJson r.childId), ("child", toJson r.child),
      ("reason", toJson r.reason.text)]

def RlmLedgerSeedRecord.event (r : RlmLedgerSeedRecord) : Json :=
  .obj [("v", toJson 1), ("op", toJson "spawn"), ("at", toJson r.at_),
    ("childId", toJson r.childId), ("parent", toJson r.parent), ("child", toJson r.child),
    ("depth", toJson r.depth), ("name", toJson r.name)]

def malformed (index : ℕ) (message : String) : String :=
  s!"Malformed RLM ledger line {index + 1}: {message}"

/-- The depth of a record, if it is one that may be written. -/
def ledgerDepth? (record : Json) : Option LedgerDepth :=
  (record.field "depth" : Option ℕ).bind fun depth =>
    if h : 1 ≤ depth ∧ depth ≤ maxSafeInteger then some ⟨depth, h⟩ else none

/-- A record of version 1 with an operation this reader does not know is skipped. -/
def parseLedgerLine : LineParser RlmLedgerRecord := fun line index =>
  match Json.parse line with
  | none => .error (malformed index "not JSON")
  | some record =>
    match (record.field "v" : Option ℕ), (record.field "at" : Option String) with
    | some 1, some at_ =>
      let childId? : Option String := record.field "childId"
      let child? : Option String := record.field "child"
      let name? : Option String := record.field "name"
      match (record.field "op" : Option String) with
      | some "meta" =>
        match (record.field "sessionsDir" : Option String) with
        | some sessionsDir => .ok (some (.metaRecord { at_, sessionsDir }))
        | none => .error (malformed index "meta without sessionsDir")
      | some "spawn" =>
        match childId?, (record.field "parent" : Option String), child?, name?,
          ledgerDepth? record with
        | some childId, some parent, some child, some name, some depth =>
          .ok (some (.spawn { at_, childId, parent, child, depth, name }))
        | _, _, _, _, _ => .error (malformed index "invalid spawn record")
      | some "rename" =>
        match childId?, child?, name? with
        | some childId, some child, some name =>
          .ok (some (.rename { at_, childId, child, name }))
        | _, _, _ => .error (malformed index "invalid rename record")
      | some "delete" =>
        match childId?, child?, (record.field "reason" : Option String).bind deleteReason? with
        | some childId, some child, some reason =>
          .ok (some (.delete { at_, childId, child, reason }))
        | _, _, _ => .error (malformed index "invalid delete record")
      | _ => .ok none
    | _, _ => .error (malformed index "missing v/at")

/-! ## The ledger -/

structure RlmSpawnLedger where
  path : String
  canonicalSessionsDir : String

/-- What the file system and the clock say during one operation. -/
structure LedgerEnv where
  canonicalSessionPath : String → String
  isFile : String → Bool := fun _ => false
  /-- The names in the sessions directory, if it can be read. -/
  sessionsDirEntries : Option (List String) := none
  /-- The name a session's file gives, if it can be read. -/
  sessionName : String → Option String := fun _ => none
  nowIso : String

/-- A row of the family; the rest of a session's information is display only. -/
structure SessionRow where
  path : String
  name : Option String
  rlmDepth : ℕ
  parentSessionPath : Option String
  deriving DecidableEq

structure SpawnInput where
  childId : String
  parent : String
  child : String
  depth : ℤ
  name : String

namespace RlmSpawnLedger

variable (ledger : RlmSpawnLedger) (env : LedgerEnv)

def eventLog : EventLog where
  path := ledger.path
  options := { maxBytes := some rlmLedgerMaxBytes, maxRecords := some rlmLedgerMaxRecords }

def metaRecord : RlmLedgerRecord :=
  .metaRecord { at_ := env.nowIso, sessionsDir := ledger.canonicalSessionsDir }

def appendRecord (record : RlmLedgerRecord) (file : Option (List UInt8)) :
    Except String (List UInt8) :=
  ledger.eventLog.appendSync [some (ledger.metaRecord env).event] [some record.event] file

/-- The two parts are separated by a NUL character. -/
def edgeKey (childId child : String) : String :=
  childId ++ "\x00" ++ env.canonicalSessionPath child

def applyRecord (edges : JsMap String RlmLedgerEdge) : RlmLedgerRecord → JsMap String RlmLedgerEdge
  | .metaRecord _ => edges
  | .spawn r => edges.set (edgeKey env r.childId r.child)
      { childId := r.childId, parent := r.parent, child := r.child, depth := r.depth,
        name := r.name }
  | .rename r =>
    match edges.get? (edgeKey env r.childId r.child) with
    | none => edges
    | some existing => edges.set (edgeKey env r.childId r.child) { existing with name := r.name }
  | .delete r =>
    match edges.get? (edgeKey env r.childId r.child) with
    | none => edges
    | some existing =>
      edges.set (edgeKey env r.childId r.child) { existing with deleted := some r.reason }

def replayEdges (records : List RlmLedgerRecord) : JsMap String RlmLedgerEdge :=
  records.foldl (applyRecord env) .empty

def replaySync (file : Option (List UInt8)) : Except String (JsMap String RlmLedgerEdge) := do
  let records ← ledger.eventLog.replaySync parseLedgerLine file
  pure (replayEdges env records)

/-! ## Appends -/

/-- `!Number.isSafeInteger(depth) || depth < 1` refuses the rest. -/
def spawnDepth? (depth : ℤ) : Option LedgerDepth :=
  if h : 1 ≤ depth.toNat ∧ depth.toNat ≤ maxSafeInteger then some ⟨depth.toNat, h⟩ else none

def invalidSpawn (input : SpawnInput) : String :=
  let childId := if input.childId = "" then "<missing childId>" else input.childId
  s!"RLM ledger: invalid spawn for {childId} (depth {input.depth})"

/-- The record an admitted spawn is written as. -/
def spawnRecord? (input : SpawnInput) : Option RlmLedgerRecord :=
  if input.childId = "" ∨ input.parent = "" ∨ input.child = "" then none
  else
    (spawnDepth? input.depth).map fun depth => .spawn
      { at_ := env.nowIso
        childId := input.childId
        parent := env.canonicalSessionPath input.parent
        child := env.canonicalSessionPath input.child
        depth
        name := input.name }

def appendSpawn (input : SpawnInput) (file : Option (List UInt8)) : Except String (List UInt8) :=
  match spawnRecord? env input with
  | none => .error (invalidSpawn input)
  | some record => do
    let childPath := env.canonicalSessionPath input.child
    let edges ← ledger.replaySync env file
    match edges.values.find? fun edge => edge.deleted.isNone &&
        (env.canonicalSessionPath edge.child == childPath && edge.childId != input.childId) with
    | some edge =>
      .error s!"RLM ledger: duplicate child session path {childPath} (already {edge.childId})"
    | none => ledger.appendRecord env record file

def renameRecord (childId child name : String) : RlmLedgerRecord :=
  .rename { at_ := env.nowIso, childId, child := env.canonicalSessionPath child, name }

def appendRename (childId child name : String) (file : Option (List UInt8)) :
    Except String (List UInt8) :=
  ledger.appendRecord env (renameRecord env childId child name) file

/-- The records of a rename by path: one for each live edge to the child. -/
def renameRecords (child name : String) (edges : JsMap String RlmLedgerEdge) :
    List RlmLedgerRecord :=
  let target := env.canonicalSessionPath child
  (edges.values.filter fun edge =>
    edge.deleted.isNone && env.canonicalSessionPath edge.child == target).map fun edge =>
      .rename { at_ := env.nowIso, childId := edge.childId, child := target, name }

def appendAll (file : Option (List UInt8)) :
    List RlmLedgerRecord → Except String (Option (List UInt8))
  | [] => .ok file
  | record :: records =>
    match ledger.appendRecord env record file with
    | .error message => .error message
    | .ok bytes => appendAll (some bytes) records

def appendRenameByChildPath (child name : String) (file : Option (List UInt8)) :
    Except String (Option (List UInt8)) := do
  let edges ← ledger.replaySync env file
  ledger.appendAll env file (renameRecords env child name edges)

def deleteRecord (childId child : String) (reason : RlmLedgerDeleteReason) : RlmLedgerRecord :=
  .delete { at_ := env.nowIso, childId, child := env.canonicalSessionPath child, reason }

def appendDelete (childId child : String) (reason : RlmLedgerDeleteReason)
    (file : Option (List UInt8)) : Except String (List UInt8) :=
  ledger.appendRecord env (deleteRecord env childId child reason) file

/-! ## Seeding -/

def seedPayload (records : List RlmLedgerSeedRecord) : List UInt8 :=
  ((ledger.metaRecord env).event :: records.map RlmLedgerSeedRecord.event).flatMap fun event =>
    event.stringify ++ [10]

/-- A ledger that is there is left alone, and a seed beyond the read bounds is not published. -/
def publishSeed (records : List RlmLedgerSeedRecord) (file : Option (List UInt8)) :
    Option (List UInt8) :=
  if file.isSome then file
  else if records.isEmpty then file
  else if rlmLedgerMaxRecords < records.length + 1 ∨
      rlmLedgerMaxBytes < (ledger.seedPayload env records).length then file
  else some (ledger.seedPayload env records)

/-! ## The family -/

/-- Edges whose child and parent are files. -/
def liveEdges (edges : JsMap String RlmLedgerEdge) : List RlmLedgerEdge :=
  (edges.values.filter fun edge => edge.deleted.isNone).filter fun edge =>
    env.isFile (env.canonicalSessionPath edge.child) &&
      env.isFile (env.canonicalSessionPath edge.parent)

/-- The code units of a string, by which strings are compared. -/
def codeUnits (s : String) : List ℕ :=
  s.toList.flatMap fun c =>
    let n := c.val.toNat
    if n < 0x10000 then [n] else [0xD800 + (n - 0x10000) / 0x400, 0xDC00 + (n - 0x10000) % 0x400]

/-- The `*.jsonl` files of the sessions directory. -/
def sessionPaths : List String :=
  (((env.sessionsDirEntries.getD []).filter fun name => name.endsWith ".jsonl").insertionSort
    fun a b => codeUnits a ≤ codeUnits b).map fun entry =>
      env.canonicalSessionPath (ledger.canonicalSessionsDir ++ "/" ++ entry)

def byChild (alive : List RlmLedgerEdge) : JsMap String RlmLedgerEdge :=
  JsMap.index (fun edge => env.canonicalSessionPath edge.child) alive

/-- Files in the sessions directory that are some live edge's child are not roots. -/
def rootPaths (alive : List RlmLedgerEdge) : List String :=
  (ledger.sessionPaths env).filter fun path => !(byChild env alive).has path

def depthByPath (alive : List RlmLedgerEdge) : JsMap String ℕ :=
  alive.foldl (fun depths edge => depths.set (env.canonicalSessionPath edge.child) edge.depth)
    .empty

/-- A parent without a recorded depth asserts none. -/
def depthAgrees (alive : List RlmLedgerEdge) (edge : RlmLedgerEdge) : Bool :=
  match (depthByPath env alive).get? (env.canonicalSessionPath edge.parent) with
  | none => true
  | some parentDepth => edge.depth == parentDepth + 1

def sessionRow (path : String) (depth : ℕ) (parentPath name : Option String) : SessionRow where
  path := path
  name := (name.filter (· ≠ "")).or (env.sessionName path)
  rlmDepth := depth
  parentSessionPath := parentPath.filter (· ≠ "")

def rootRow (path : String) : SessionRow := sessionRow env path 0 none none

def edgeRow (edge : RlmLedgerEdge) : SessionRow :=
  sessionRow env (env.canonicalSessionPath edge.child) edge.depth
    (some (env.canonicalSessionPath edge.parent)) (some edge.name)

/-- `familyUnlocked` behind the replay. -/
def familyRows (edges : JsMap String RlmLedgerEdge) : List SessionRow :=
  let alive := liveEdges env edges
  (ledger.rootPaths env alive).map (rootRow env) ++
    (alive.filter (depthAgrees env alive)).map (edgeRow env)

def family (file : Option (List UInt8)) : Except String (List SessionRow) := do
  let edges ← ledger.replaySync env file
  pure (ledger.familyRows env edges)

end RlmSpawnLedger

end Amide
