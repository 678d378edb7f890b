import Amide.Construction.Session.Context
import Amide.Construction.Session.Loading

/-!
# The session manager

The state of `SessionManager` and its operations: the appends of every kind, labels, branching
and the writes behind them.  An operation returns or throws, and in both cases leaves a state;
the state is the fields of the object and the files.

A file write either is done or is cut: an `appendFileSync` that fails leaves a prefix of its
payload, a `_rewriteFile` that fails leaves the file as it was, since it writes a temporary file
and renames it.  Each operation is given the outcome of the writes it may come to make, next to
the time and the ids drawn.

What the source gets from outside (ids, the clock, the git context of a directory, the depth of a
session in its tree of parents) is an argument.
-/

namespace Amide

open JsMap (empty)

/-! ## State -/

structure SessionManager where
  sessionId : String
  sessionFile : Option String
  sessionDir : String
  cwd : String
  persist : Bool
  flushed : Bool
  fileEntries : List FileEntry
  byId : JsMap String SessionEntry
  labelsById : JsMap String String
  labelTimestampsById : JsMap String String
  leafId : Option String

/-- A session manager and the files it writes to. -/
structure SessionState where
  manager : SessionManager
  files : Files

inductive WriteOutcome where
  | done
  /-- The write failed with so many bytes of its payload written. -/
  | cut (written : ℕ)
  deriving Repr

/-- The outcomes of the three writes of an append with rollback: the append itself, the flush
behind it, and the write that restores the file. -/
structure RollbackOutcomes where
  append : WriteOutcome
  flush : WriteOutcome
  restore : WriteOutcome
  deriving Repr

inductive SessionError where
  | writeFailed
  | thrown (message : String)
  deriving Repr

/-- What a call returns or throws, and the state it leaves. -/
abbrev Outcome (α : Type) := Except SessionError α × SessionState

/-- The ids drawn during a call and its `new Date().toISOString()`. -/
structure Stamp where
  draws : Draws
  timestamp : String

namespace SessionManager

/-- `persist && sessionFile`: the file the entries go to. -/
def target (m : SessionManager) : Option String := if m.persist then m.sessionFile else none

def hasAssistant (m : SessionManager) : Bool :=
  (sessionEntries m.fileEntries).any SessionEntry.isAssistant

def getEntries (m : SessionManager) : List SessionEntry := sessionEntries m.fileEntries

def getHeader (m : SessionManager) : Option SessionHeader :=
  m.fileEntries.findSome? FileEntry.header?

def getBranch (m : SessionManager) (fromId : Option String) : Option (List SessionEntry) :=
  Amide.getBranch m.byId (fromId.or m.leafId)

def buildSessionContext (m : SessionManager) : Option SessionContext :=
  Amide.buildSessionContext m.fileEntries (some m.leafId) m.byId

end SessionManager

/-- Session states and session infos are written before the first assistant message. -/
def SessionEntry.persistsWithoutAssistant (e : SessionEntry) : Bool :=
  match e.body with
  | .sessionState _ | .sessionInfo _ => true
  | _ => false

/-! ## Writing -/

/-- `entries.map(JSON.stringify).join("\n") + "\n"`. -/
def fileContent (entries : List FileEntry) : List UInt8 :=
  [(10 : UInt8)].intercalate (entries.map sessionCodec.encode) ++ [10]

namespace SessionState

def setFlushed (s : SessionState) (flushed : Bool) : SessionState :=
  { s with manager := { s.manager with flushed } }

def writeFile (s : SessionState) (path : String) (content : List UInt8) : SessionState :=
  { s with files := Function.update s.files path (some content) }

/-- `_rewriteFile`. -/
def rewriteFile (o : WriteOutcome) (s : SessionState) : Outcome Unit :=
  match s.manager.target with
  | none => (.ok (), s)
  | some path =>
    match o with
    | .done => (.ok (), s.writeFile path (fileContent s.manager.fileEntries))
    | .cut _ => (.error .writeFailed, s)

/-- `_rewriteFile(); flushed = true`. -/
def rewriteAll (o : WriteOutcome) (s : SessionState) : Outcome Unit :=
  match s.rewriteFile o with
  | (.ok _, s') => (.ok (), s'.setFlushed true)
  | (.error e, s') => (.error e, s')

/-- `appendFileSync` of one line. -/
def appendLine (o : WriteOutcome) (path : String) (content : List UInt8) (e : SessionEntry)
    (s : SessionState) : Outcome Unit :=
  match o with
  | .done => (.ok (), s.writeFile path (content ++ sessionCodec.line (.entry e)))
  | .cut written =>
      (.error .writeFailed,
        s.writeFile path (content ++ (sessionCodec.line (.entry e)).take written))

def flushNow (o : WriteOutcome) (s : SessionState) : Outcome Unit :=
  match s.manager.target with
  | none => (.ok (), s)
  | some path =>
    if s.manager.flushed && (s.files path).isSome then (.ok (), s) else s.rewriteAll o

/-- `_persist`. -/
def persistEntry (o : WriteOutcome) (e : SessionEntry) (s : SessionState) : Outcome Unit :=
  match s.manager.target with
  | none => (.ok (), s)
  | some path =>
    if !s.manager.hasAssistant && !e.persistsWithoutAssistant then (.ok (), s.setFlushed false)
    else
      match s.manager.flushed, s.files path with
      | true, some content => s.appendLine o path content e
      | _, _ => s.rewriteAll o

/-- What `_appendEntry` does before it persists the entry. -/
def push (e : SessionEntry) (s : SessionState) : SessionState :=
  { s with manager := { s.manager with
      fileEntries := s.manager.fileEntries ++ [.entry e]
      byId := s.manager.byId.set e.id e
      leafId := some e.id } }

/-- `_appendEntry`, and the id of the entry, which its callers return. -/
def appendEntry (o : WriteOutcome) (e : SessionEntry) (s : SessionState) : Outcome String :=
  match (s.push e).persistEntry o e with
  | (.ok _, s') => (.ok e.id, s')
  | (.error err, s') => (.error err, s')

/-- The entry an append makes: a new id, the leaf as its parent, the time. -/
def newEntry (stamp : Stamp) (body : EntryBody) (s : SessionState) : SessionEntry where
  id := generateId s.manager.byId.has stamp.draws
  parentId := s.manager.leafId
  timestamp := stamp.timestamp
  body := body

/-- The appends that only make an entry of their kind. -/
def appendBody (body : EntryBody) (stamp : Stamp) (o : WriteOutcome) (s : SessionState) :
    Outcome String :=
  s.appendEntry o (s.newEntry stamp body)

/-! ## Appends -/

def appendMessage (message : AgentMessage) := appendBody (.message message)

def appendThinkingLevelChange (thinkingLevel : String) :=
  appendBody (.thinkingLevelChange thinkingLevel)

def appendServiceTierChange (serviceTier : ServiceTier) :=
  appendBody (.serviceTierChange serviceTier)

def appendModelChange (provider modelId : String) := appendBody (.modelChange provider modelId)

def appendCompaction (c : CompactionFields) := appendBody (.compaction c)

def appendCustomEntry (customType : String) (data : Option Json) :=
  appendBody (.custom customType data)

def appendSessionInfo (name : String) := appendBody (.sessionInfo (some (trim name)))

def appendSessionState (status : SessionStateStatus) := appendBody (.sessionState status)

def appendAgentStatus (status : AgentStatus) := appendBody (.agentStatus status)

def appendGitState (git : GitContext) := appendBody (.gitState git)

def appendCustomMessageEntry (m : CustomMessageFields) := appendBody (.customMessage m)

/-- The usage of the target is set where the target stands: in the index and in the entries. -/
def appendChildUsageAttribution (a : ChildUsageFields) (stamp : Stamp) (o : WriteOutcome)
    (s : SessionState) : Outcome String :=
  match s.manager.byId.get? a.targetId with
  | some ⟨id, parentId, timestamp, .message (.assistant m)⟩ =>
      let target : SessionEntry :=
        ⟨id, parentId, timestamp, .message (.assistant { m with usage := a.aggregateUsage })⟩
      let s := { s with manager := { s.manager with
        fileEntries := setUsage a.targetId a.aggregateUsage s.manager.fileEntries
        byId := s.manager.byId.set a.targetId target } }
      s.appendEntry o (s.newEntry stamp (.childUsageAttributed a))
  | _ => (.error (.thrown s!"Assistant message entry {a.targetId} not found"), s)

/-- The label maps, changed by a label entry. -/
def relabel (targetId : String) (label : Option String) (timestamp : String) (s : SessionState) :
    SessionState :=
  match label with
  | none | some "" => { s with manager := { s.manager with
      labelsById := s.manager.labelsById.delete targetId
      labelTimestampsById := s.manager.labelTimestampsById.delete targetId } }
  | some l => { s with manager := { s.manager with
      labelsById := s.manager.labelsById.set targetId l
      labelTimestampsById := s.manager.labelTimestampsById.set targetId timestamp } }

def appendLabelChange (targetId : String) (label : Option String) (stamp : Stamp)
    (o : WriteOutcome) (s : SessionState) : Outcome String :=
  if s.manager.byId.has targetId then
    match s.appendBody (.label targetId label) stamp o with
    | (.ok id, s') => (.ok id, s'.relabel targetId label stamp.timestamp)
    | (.error e, s') => (.error e, s')
  else (.error (.thrown s!"Entry {targetId} not found"), s)

/-! ## Appends that are undone when they cannot be written -/

/-- `try { flushNow() } catch { flushed = false }`. -/
def restoreFile (o : WriteOutcome) (s : SessionState) : SessionState :=
  match s.flushNow o with
  | (.ok _, s') => s'
  | (.error _, s') => s'.setFlushed false

/-- The `catch` of `_appendEntryWithRollback`: the entry is taken out again, and the file is
written anew. -/
def rollback (previousLeafId : Option String) (restore : WriteOutcome) (s : SessionState) :
    SessionState :=
  match s.manager.leafId with
  | none => s
  | some leafId =>
    if some leafId = previousLeafId then s
    else
      restoreFile restore { s with manager := { s.manager with
        byId := s.manager.byId.delete leafId
        fileEntries := s.manager.fileEntries.dropLast
        leafId := previousLeafId
        flushed := false } }

/-- `_appendEntryWithRollback`. -/
def appendEntryWithRollback (append : WriteOutcome → SessionState → Outcome String)
    (o : RollbackOutcomes) (s : SessionState) : Outcome String :=
  match append o.append s with
  | (.error e, s₁) => (.error e, s₁.rollback s.manager.leafId o.restore)
  | (.ok entryId, s₁) =>
    match s₁.flushNow o.flush with
    | (.ok _, s₂) => (.ok entryId, s₂)
    | (.error e, s₂) => (.error e, s₂.rollback s.manager.leafId o.restore)

def appendCustomEntryWithRollback (customType : String) (data : Option Json) (stamp : Stamp) :=
  appendEntryWithRollback (appendCustomEntry customType data stamp)

def appendCustomMessageEntryWithRollback (m : CustomMessageFields) (stamp : Stamp) :=
  appendEntryWithRollback (appendCustomMessageEntry m stamp)

/-! ## Branching -/

def setLeaf (leafId : Option String) (s : SessionState) : SessionState :=
  { s with manager := { s.manager with leafId } }

def branch (branchFromId : String) (s : SessionState) : Outcome Unit :=
  if s.manager.byId.has branchFromId then (.ok (), s.setLeaf (some branchFromId))
  else (.error (.thrown s!"Entry {branchFromId} not found"), s)

def resetLeaf (s : SessionState) : Outcome Unit := (.ok (), s.setLeaf none)

def branchWithSummary (branchFromId : Option String) (summary : String) (details : Option Json)
    (fromHook : Option Bool) (usage : Option Usage) (stamp : Stamp) (o : WriteOutcome)
    (s : SessionState) : Outcome String :=
  match branchFromId with
  | none => (s.setLeaf none).appendBody
      (.branchSummary { fromId := "root", summary, details, fromHook, usage }) stamp o
  | some id =>
    if s.manager.byId.has id then (s.setLeaf (some id)).appendBody
      (.branchSummary { fromId := id, summary, details, fromHook, usage }) stamp o
    else (.error (.thrown s!"Entry {id} not found"), s)

end SessionState

/-! ## Opening -/

/-- The loop body of `_buildIndex`. -/
def SessionManager.indexEntry (m : SessionManager) (e : SessionEntry) : SessionManager :=
  let m := { m with byId := m.byId.set e.id e, leafId := some e.id }
  match e.body with
  | .label targetId none | .label targetId (some "") => { m with
      labelsById := m.labelsById.delete targetId
      labelTimestampsById := m.labelTimestampsById.delete targetId }
  | .label targetId (some l) => { m with
      labelsById := m.labelsById.set targetId l
      labelTimestampsById := m.labelTimestampsById.set targetId e.timestamp }
  | _ => m

/-- `_buildIndex`. -/
def SessionManager.buildIndex (m : SessionManager) : SessionManager :=
  m.getEntries.foldl SessionManager.indexEntry { m with
    byId := empty, labelsById := empty, labelTimestampsById := empty,
    leafId := none }

/-- What a new session takes from outside: the session ids drawn, the time, the git context of the
working directory and the depth `RLM_DEPTH` names. -/
structure SessionEnv where
  sessionIds : ℕ → String
  timestamp : String
  git : Option GitContext
  rootRlmDepth : ℕ

/-- `join(sessionDir, id + ".jsonl")`. -/
def getSessionFilePath (sessionDir sessionId : String) : String :=
  sessionDir ++ "/" ++ sessionId ++ ".jsonl"

/-- The first of a hundred session ids whose file is not there; `none` where the source throws. -/
def createUniqueSessionFileTarget (files : Files) (sessionDir : String) (ids : ℕ → String) :
    Option (String × String) :=
  ((List.range 100).find? fun i => (files (getSessionFilePath sessionDir (ids i))).isNone).map
    fun i => (ids i, getSessionFilePath sessionDir (ids i))

namespace SessionState

/-- `newSession()`, without options. -/
def newSession (env : SessionEnv) (s : SessionState) : Outcome Unit :=
  let target :=
    if s.manager.persist then
      (createUniqueSessionFileTarget s.files s.manager.sessionDir env.sessionIds).map
        fun t => (t.1, some t.2)
    else some (env.sessionIds 0, s.manager.sessionFile)
  match target with
  | none => (.error (.thrown "Unable to create a unique session file"), s)
  | some (sessionId, sessionFile) =>
    let header : SessionHeader :=
      { version := some currentSessionVersion, id := sessionId, timestamp := env.timestamp,
        cwd := s.manager.cwd, rlmDepth := some env.rootRlmDepth,
        git := if s.manager.persist then env.git else none }
    (.ok (), { s with manager := { s.manager with
      sessionId, sessionFile, flushed := false, fileEntries := [.session header],
      byId := empty, labelsById := empty, labelTimestampsById := empty,
      leafId := none } })

/-- `header.parentSession && !isValidRlmDepth(header.rlmDepth)`. -/
def lacksDepth (h : SessionHeader) : Bool :=
  (h.parentSession.getD "" ≠ "") && !h.rlmDepth.any (· < 2 ^ 53)

/-- The header of a legacy child session is given the depth resolved for it; the entries and
whether there was anything to do. -/
def resolveDepth (resolvedRlmDepth : ℕ) : List FileEntry → List FileEntry × Bool
  | .session h :: rest =>
      if lacksDepth h then (.session { h with rlmDepth := some resolvedRlmDepth } :: rest, true)
      else (.session h :: rest, false)
  | entries => (entries, false)

/-- What opening a file takes from outside. -/
structure OpenEnv extends SessionEnv where
  /-- The ids drawn for the entries of a version 1 file. -/
  migrationDraws : ℕ → Draws
  /-- `resolveSessionRlmDepth` of the header, a safe integer. -/
  resolvedRlmDepth : ℕ
  resolvedRlmDepth_lt : resolvedRlmDepth < 2 ^ 53

def setPath (path : String) (s : SessionState) : SessionState :=
  { s with manager := { s.manager with sessionFile := some path } }

/-- `newSession(); this.sessionFile = explicitPath`. -/
def startSession (path : String) (env : SessionEnv) (s : SessionState) : Outcome Unit :=
  match s.newSession env with
  | (.error e, s') => (.error e, s')
  | (.ok _, s') => (.ok (), s'.setPath path)

/-- `_buildIndex(); flushed = true`. -/
def indexed (s : SessionState) : SessionState :=
  { s with manager := { s.manager.buildIndex with flushed := true } }

/-- What `setSessionFile` does with the entries of a file: they are migrated, the depth of a legacy
child session is put into the header, and if either changed anything the file is rewritten. -/
def useEntries (entries : List FileEntry) (env : OpenEnv) (o : WriteOutcome) (s : SessionState) :
    Outcome Unit :=
  let migrated := migrateToCurrentVersion env.migrationDraws entries
  let resolved := resolveDepth env.resolvedRlmDepth migrated.1
  let s := { s with manager := { s.manager with
    fileEntries := resolved.1
    sessionId := ((entries.findSome? FileEntry.header?).map SessionHeader.id).getD
      (env.sessionIds 0) } }
  if migrated.2 || resolved.2 then
    match s.rewriteFile o with
    | (.error e, s') => (.error e, s')
    | (.ok _, s') => (.ok (), s'.indexed)
  else (.ok (), s.indexed)

def setSessionFile (path : String) (env : OpenEnv) (o : WriteOutcome) (s : SessionState) :
    Outcome Unit :=
  let s := s.setPath path
  match s.files path with
  | none => s.startSession path env.toSessionEnv
  | some _ =>
    match loadEntriesFromFile s.files path with
    | [] =>
      -- empty or corrupted: the file is replaced by that of a new session
      match s.startSession path env.toSessionEnv with
      | (.error e, s') => (.error e, s')
      | (.ok _, s') => s'.rewriteAll o
    | entries => s.useEntries entries env o

/-- `new SessionManager(cwd, sessionDir, path, true)`, as `SessionManager.open` makes it. -/
def openSession (path sessionDir cwd : String) (env : OpenEnv) (o : WriteOutcome) (files : Files) :
    Outcome Unit :=
  setSessionFile path env o
    { manager :=
        { sessionId := "", sessionFile := none, sessionDir, cwd, persist := true, flushed := false,
          fileEntries := [], byId := empty, labelsById := empty,
          labelTimestampsById := empty, leafId := none }
      files }

/-- `new SessionManager(cwd, sessionDir, undefined, persist)`, as `SessionManager.create` and
`SessionManager.inMemory` make it. -/
def createSession (sessionDir cwd : String) (persist : Bool) (env : SessionEnv) (files : Files) :
    Outcome Unit :=
  newSession env
    { manager :=
        { sessionId := "", sessionFile := none, sessionDir, cwd, persist, flushed := false,
          fileEntries := [], byId := empty, labelsById := empty,
          labelTimestampsById := empty, leafId := none }
      files }

end SessionState

end Amide
