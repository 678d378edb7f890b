import Amide.Framework.Trim
import Amide.Construction.Daemon.AgentRoster
import Mathlib.Data.List.ReduceOption

/-!
# The sessions of the agents view (`modes/agents-view/agents-view-state.ts`)

The sessions the daemon knows and the saved ones are put together into records
(`reconcileUnifiedSessions`), and the records are laid out as rows, subagents below their parents
(`buildAgentsViewRows`, without a scope).  Objects are compared by identity there: a record, and the
row of a record, is its position in the list.

Parameters are the canonical paths of a file (`canonicalSessionPath`, and `leasePath` for the one of
`core/session-lease.ts`), the heartbeats by active session, and the order of two rows
(`compareAgentsViewRows`).  Texts, sections, costs and tallies,
which only that order and the display depend on, are left out.
-/

namespace Amide

inductive SessionRuntimeKind where
  | topLevel
  | subagent
  deriving DecidableEq

structure SessionSummary where
  id : String
  runtimeKind : Option SessionRuntimeKind := none
  activeSessionId : Option String := none
  sessionId : String
  sessionFile : Option String := none
  parentActiveSessionId : Option String := none
  parentSessionId : Option String := none
  parentSessionPath : Option String := none
  rlmChildId : Option String := none
  rlmParentNodeId : Option String := none
  spawnCode : Option String := none
  hasActiveHeartbeat : Bool := false

structure AgentConnectionSavedSessionInfo where
  path : String
  id : String
  parentSessionPath : Option String := none
  deriving DecidableEq

structure UnifiedSessionHeartbeat where
  activeCount : ℕ

/-- A record has at least one source. -/
structure UnifiedSessionRecord where
  daemon : Option SessionSummary := none
  saved : Option AgentConnectionSavedSessionInfo := none
  identity : String
  identityAliases : List String
  heartbeat : Option UnifiedSessionHeartbeat := none
  sourced : (daemon.isSome || saved.isSome) = true

/-! ## Keys -/

section Keys

variable (canonicalSessionPath leasePath : String → String)

def fileIdentity (path : String) : String := "file:" ++ canonicalSessionPath path

def sessionIdentity (sessionId : String) : String := "session:" ++ sessionId

def activeIdentity (activeSessionId : String) : String := "active:" ++ activeSessionId

/-- Of `modes/daemon/agent-roster.ts`, with canonical paths of its own. -/
def rosterAgentIdForSummary (summary : SessionSummary) : String :=
  match summary.runtimeKind, nonempty? summary.rlmChildId with
  | some .subagent, some rlmChildId =>
    let parentKey := match nonempty? summary.parentSessionPath with
      | some path => some (leasePath path)
      | none => summary.parentActiveSessionId
    match nonempty? parentKey with
    | some parentKey => parentKey ++ "#" ++ rlmChildId
    | none => rlmChildId
  | _, _ => summary.sessionId

def agentIdentity (summary : SessionSummary) : Option String :=
  if summary.runtimeKind = some .subagent ∧ (nonempty? summary.rlmChildId).isSome then
    some ("agent:" ++ rosterAgentIdForSummary leasePath summary)
  else none

def summaryIdentityAliases (summary : SessionSummary) : List String :=
  [agentIdentity leasePath summary,
    (nonempty? summary.sessionFile).map (fileIdentity canonicalSessionPath),
    some (sessionIdentity summary.sessionId),
    (nonempty? summary.activeSessionId).map activeIdentity,
    some (activeIdentity summary.id)].reduceOption

def savedIdentityAliases (saved : AgentConnectionSavedSessionInfo) : List String :=
  [fileIdentity canonicalSessionPath saved.path, sessionIdentity saved.id]

def getParentKeys (summary : SessionSummary) : List String :=
  [(nonempty? summary.parentActiveSessionId).map activeIdentity,
    (nonempty? summary.parentSessionId).map sessionIdentity,
    (nonempty? summary.parentSessionPath).map (fileIdentity canonicalSessionPath)].reduceOption

def getSummaryKeys (summary : SessionSummary) : List String :=
  [some (activeIdentity (summary.activeSessionId.getD summary.id)),
    some (sessionIdentity summary.sessionId),
    (nonempty? summary.sessionFile).map (fileIdentity canonicalSessionPath)].reduceOption

end Keys

/-- The last to be set under a key is what it leads to. -/
def setKeys (byKey : JsMap String ℕ) (keys : List String) (position : ℕ) : JsMap String ℕ :=
  keys.foldl (fun byKey key => byKey.set key position) byKey

/-! ## Records -/

structure UnifiedSessions where
  records : List UnifiedSessionRecord := []
  recordByAlias : JsMap String ℕ := .empty

section Records

variable (canonicalSessionPath leasePath : String → String)
  (heartbeatByActiveId : String → Option UnifiedSessionHeartbeat)

def heartbeatOf (daemon : SessionSummary) : Option UnifiedSessionHeartbeat :=
  heartbeatByActiveId (daemon.activeSessionId.getD daemon.id) <|>
    if daemon.hasActiveHeartbeat then some ⟨1⟩ else none

def markHeartbeat (daemon : SessionSummary) : SessionSummary :=
  match heartbeatOf heartbeatByActiveId daemon with
  | some heartbeat =>
    if 0 < heartbeat.activeCount ∧ daemon.hasActiveHeartbeat = false then
      { daemon with hasActiveHeartbeat := true }
    else daemon
  | none => daemon

/-- The first loop of `reconcileUnifiedSessions`. -/
def addDaemon (sessions : UnifiedSessions) (daemon : SessionSummary) : UnifiedSessions :=
  let aliases := summaryIdentityAliases canonicalSessionPath leasePath daemon
  { records := sessions.records ++ [{
      daemon := some (markHeartbeat heartbeatByActiveId daemon)
      identity := aliases.headD ""
      identityAliases := aliases
      heartbeat := heartbeatOf heartbeatByActiveId daemon
      sourced := rfl }]
    recordByAlias := setKeys sessions.recordByAlias aliases sessions.records.length }

/-- The second loop.  What was attached to the record before is replaced. -/
def addSaved (sessions : UnifiedSessions) (saved : AgentConnectionSavedSessionInfo) :
    UnifiedSessions :=
  let aliases := savedIdentityAliases canonicalSessionPath saved
  match aliases.findSome? sessions.recordByAlias.get? with
  | some i =>
    { records := sessions.records.modify i fun record => { record with
        saved := some saved
        identityAliases := (record.identityAliases ++ aliases).eraseDups
        sourced := Bool.or_true _ }
      recordByAlias := setKeys sessions.recordByAlias aliases i }
  | none =>
    { records := sessions.records ++ [{
        saved := some saved
        identity := aliases.headD ""
        identityAliases := aliases
        sourced := rfl }]
      recordByAlias := setKeys sessions.recordByAlias aliases sessions.records.length }

def reconcileUnifiedSessions (daemonSummaries : List SessionSummary)
    (savedSessions : List AgentConnectionSavedSessionInfo) : List UnifiedSessionRecord :=
  let sessions :=
    daemonSummaries.foldl (addDaemon canonicalSessionPath leasePath heartbeatByActiveId) {}
  (savedSessions.foldl (addSaved canonicalSessionPath) sessions).records

end Records

/-! ## Rows -/

inductive AgentsViewRowKind where
  | agent
  | subagentSummary
  | subagent
  | subagentCode
  deriving DecidableEq

structure AgentsViewRow where
  kind : AgentsViewRowKind
  summary : SessionSummary
  depth : ℕ
  selectable : Bool := true
  identity : String
  parentIdentity : Option String := none
  hasSpawnCode : Option Bool := none
  expanded : Option Bool := none
  code : Option String := none
  record : Option ℕ := none

def isSubagentSummary (summary : SessionSummary) : Bool :=
  match summary.runtimeKind with
  | some kind => kind = .subagent
  | none =>
    (summary.rlmChildId <|> summary.rlmParentNodeId <|> summary.parentActiveSessionId <|>
      summary.parentSessionId <|> summary.parentSessionPath).any (· ≠ "")

/-- The spawn code, unless it is blank. -/
def spawnCodeOf (summary : SessionSummary) : Option String :=
  summary.spawnCode.filter fun code => Chars.trim code.toList ≠ []

structure SpawnCodeGroup where
  spawnCode : Option String
  children : List ℕ

def addToGroup (groups : JsMap String SpawnCodeGroup) (code : Option String) (child : ℕ) :
    JsMap String SpawnCodeGroup :=
  let key := code.getD " no-spawn-code"
  match groups.get? key with
  | some group => groups.set key { group with children := group.children ++ [child] }
  | none => groups.set key ⟨code, [child]⟩

/-- The view's rows are the records, `summaries` what is shown of them. -/
structure AgentsView where
  canonicalSessionPath : String → String
  compareAgentsViewRows : ℕ → ℕ → Bool
  expandedSubagentParents : String → Bool
  programShownParents : String → Bool

def MAX_SPAWN_CODE_LINES : ℕ := 10

def buildSpawnCodeRows (parent : AgentsViewRow) (spawnCode : String) (depth groupIndex : ℕ) :
    List AgentsViewRow :=
  let makeRow := fun (code lineIndex : String) => ({
    kind := .subagentCode
    summary := parent.summary
    depth
    selectable := false
    identity := "code:" ++ parent.identity ++ ":" ++ toString groupIndex ++ ":" ++ lineIndex
    parentIdentity := some parent.identity
    code := some code } : AgentsViewRow)
  let allLines := (spawnCode.toList.rdropWhile Chars.isSpace).splitOn '\n'
  let lines := (allLines.take MAX_SPAWN_CODE_LINES).zipIdx.map fun (line, i) =>
    makeRow (String.ofList line) (toString i)
  let hidden := allLines.length - lines.length
  let more := if hidden = 0 then [] else
    [makeRow ("… +" ++ toString hidden ++ " more " ++
      if hidden = 1 then "line" else "lines") "more"]
  [makeRow "" "pad-top"] ++ (lines ++ more) ++ [makeRow "" "pad-bottom"]

section Rows

variable (canonicalSessionPath : String → String)

/-- Convert a merged row to the existing live-row shape. -/
def summaryForUnifiedRecord (record : UnifiedSessionRecord) : SessionSummary :=
  match record with
  | { daemon := some daemon, saved := none, .. } => daemon
  | { daemon := some daemon, saved := some saved, .. } =>
    { daemon with
      sessionFile := daemon.sessionFile <|> some (canonicalSessionPath saved.path)
      parentSessionPath := daemon.parentSessionPath <|> saved.parentSessionPath }
  | { daemon := none, saved := some saved, .. } =>
    { id := saved.id
      runtimeKind := some (if (nonempty? saved.parentSessionPath).isSome then .subagent
        else .topLevel)
      sessionId := saved.id
      sessionFile := some (canonicalSessionPath saved.path)
      parentSessionPath := saved.parentSessionPath }
  | { daemon := none, saved := none, sourced, .. } => nomatch sourced

def buildRowKeyMap (summaries : List SessionSummary) : JsMap String ℕ :=
  summaries.zipIdx.foldl (fun rowsByKey row =>
    setKeys rowsByKey (getSummaryKeys canonicalSessionPath row.1) row.2) .empty

def findParentRow (rowsByKey : JsMap String ℕ) (summary : SessionSummary) : Option ℕ :=
  (getParentKeys canonicalSessionPath summary).findSome? rowsByKey.get?

/-- The row a row is nested under. -/
def parentRow (summaries : List SessionSummary) (i : ℕ) : Option ℕ :=
  (summaries[i]?.filter isSubagentSummary).bind fun summary =>
    (findParentRow canonicalSessionPath (buildRowKeyMap canonicalSessionPath summaries)
      summary).filter (· ≠ i)

/-- `childrenByParent`. -/
def childRows (summaries : List SessionSummary) (i : ℕ) : List ℕ :=
  (List.range summaries.length).filter fun child =>
    parentRow canonicalSessionPath summaries child = some i

def rootRows (summaries : List SessionSummary) : List ℕ :=
  (List.range summaries.length).filter fun row =>
    parentRow canonicalSessionPath summaries row = none

end Rows

def createSubagentSummaryRow (parent : AgentsViewRow) (depth : ℕ) (hasSpawnCode expanded : Bool) :
    AgentsViewRow where
  kind := .subagentSummary
  summary := parent.summary
  depth
  identity := "subagents:" ++ parent.identity
  parentIdentity := some parent.identity
  hasSpawnCode := some hasSpawnCode
  expanded := some expanded

namespace AgentsView

variable (view : AgentsView) (records : List UnifiedSessionRecord)

def summaries : List SessionSummary :=
  records.map (summaryForUnifiedRecord view.canonicalSessionPath)

def sortRows (rows : List ℕ) : List ℕ := rows.mergeSort view.compareAgentsViewRows

def groupChildrenBySpawnCode (children : List ℕ) : List SpawnCodeGroup :=
  (children.foldl (fun groups child =>
    addToGroup groups (((view.summaries records)[child]?).bind spawnCodeOf) child) .empty).values

def baseRow (record : UnifiedSessionRecord) (i depth : ℕ) (parentIdentity : Option String) :
    AgentsViewRow where
  kind := if parentRow view.canonicalSessionPath (view.summaries records) i = none then .agent
    else .subagent
  summary := summaryForUnifiedRecord view.canonicalSessionPath record
  depth
  identity := record.identity
  parentIdentity
  record := some i

/-- The rows of one spawn cell. -/
def emitGroup (row : AgentsViewRow) (emit : ℕ → Option (List AgentsViewRow)) :
    SpawnCodeGroup × ℕ → Option (List AgentsViewRow)
  | (group, groupIndex) => (group.children.mapM emit).map fun rows =>
    (match group.spawnCode with
      | some code =>
        if view.programShownParents row.identity then
          buildSpawnCodeRows row code (row.depth + 1) groupIndex
        else []
      | none => []) ++ rows.flatten

/-- A row and what is below it; `none` if that is deeper than `fuel`. -/
def emit : ℕ → ℕ → Option String → ℕ → Option (List AgentsViewRow)
  | 0, _, _, _ => none
  | fuel + 1, depth, parentIdentity, i =>
    match records[i]? with
    | none => none
    | some record =>
      let row := view.baseRow records record i depth parentIdentity
      let children := childRows view.canonicalSessionPath (view.summaries records) i
      if children = [] then some [row]
      else
        let childHasSpawnCode := children.any fun child =>
          (((view.summaries records)[child]?).bind spawnCodeOf).isSome
        let expanded := view.expandedSubagentParents row.identity
        let summaryRow := createSubagentSummaryRow row (depth + 1) childHasSpawnCode expanded
        if expanded = false then some [row, summaryRow]
        else
          let groups := view.groupChildrenBySpawnCode records (view.sortRows children)
          (groups.zipIdx.mapM (view.emitGroup row (emit fuel (depth + 1) (some row.identity)))).map
            fun below => row :: summaryRow :: below.flatten

def buildAgentsViewRows : Option (List AgentsViewRow) :=
  ((view.sortRows (rootRows view.canonicalSessionPath (view.summaries records))).mapM
    (view.emit records records.length 0 none)).map List.flatten

end AgentsView

end Amide
