import Amide.Framework.JsMap
import Amide.Framework.JsonCodec

/-!
# Connections to a daemon (`modes/agent-connection/daemon-agent-connection.ts`)

What a `DaemonAgentConnection` does with the messages of the session it is attached to
(`handleDaemonMessage`): which of them are stale, what it keeps of a snapshot sent in chunks, and
what it tells its listeners.  A listener is told as soon as the message has been handled; what goes
on asynchronously after that (the recovery of a failed snapshot, the reconnection after an update)
is an action that is returned.

The state of a session and the rest of a snapshot besides its messages is only passed on, so its
type is a parameter.  Paths of logs and the texts of closed connections are left out, and so are the
timeouts of snapshots.
-/

namespace Amide

structure DaemonEventCursor where
  generation : String
  sequence : ℕ
  deriving DecidableEq

/-- The part of the metadata that a connection reads. -/
structure DaemonEventMeta where
  sequence : Option ℕ := none
  cursor : Option DaemonEventCursor := none

inductive SnapshotPurpose where
  | attach | replacement | resync
  deriving DecidableEq

structure ConnectionChild where
  id : String
  rest : List (String × Json) := []

/-- The events of a session, as far as a connection tells them apart. -/
inductive ConnectionSessionEvent where
  /-- `message_start` or `message_update` of an assistant message. -/
  | streaming (message : Json)
  /-- `message_end` of an assistant message, or `agent_end`. -/
  | streamed (event : Json)
  | rlmChildUpdate (child : ConnectionChild)
  | other (event : Json)

section Snapshots

variable (State : Type)

/-- A `DaemonSessionSnapshot`, whose messages may come in chunks. -/
structure DaemonSessionSnapshot where
  state : State
  messages : List Json := []
  streamingMessage : Option Json := none
  children : Option (List ConnectionChild) := none
  lastEventSequence : ℕ
  lastEventCursor : Option DaemonEventCursor := none

structure AgentConnectionSnapshot where
  state : State
  messages : List Json := []
  streamingMessage : Option Json := none
  children : Option (List ConnectionChild) := none
  lastEventSequence : Option ℕ := none
  lastEventCursor : Option DaemonEventCursor := none
  replay : Option Json := none

/-- `session_snapshot_begin`. -/
structure DaemonSnapshotBegin where
  snapshot : DaemonSessionSnapshot State
  messageCount : ℕ
  purpose : Option SnapshotPurpose := none

/-- The messages of a session that a connection handles. -/
inductive ConnectionMessage where
  | sessionEvent (event : ConnectionSessionEvent) (eventMeta : DaemonEventMeta)
  | sideQuestionEvent (id : String) (running : Bool) (event : Json)
  | sessionStatus (recap : Option String) (eventMeta : DaemonEventMeta)
  | sessionResynced (snapshot : DaemonSessionSnapshot State) (eventMeta : DaemonEventMeta)
  | sessionReplaced (state : State) (messages : List Json) (snapshotFollows : Bool)
      (eventMeta : DaemonEventMeta)
  | extensionUiRequest (request : Json) (eventMeta : DaemonEventMeta)
  | extensionError (error : Json) (eventMeta : DaemonEventMeta)
  | sessionClosed (reason : String) (eventMeta : DaemonEventMeta)
  | snapshotBegin (snapshotId : String) (start : DaemonSnapshotBegin State)
  | snapshotChunk (snapshotId : String) (index : ℕ) (messages : List Json)
  | snapshotEnd (snapshotId : String) (chunkCount lastEventSequence : ℕ)
      (lastEventCursor : Option DaemonEventCursor)
  | snapshotFailed (snapshotId error : String)
  | other (type : String)

/-- What listeners are told. -/
inductive ConnectionEvent where
  | sessionEvent (event : ConnectionSessionEvent)
  | sideQuestionEvent (event : Json)
  | sessionStatus (recap : Option String)
  | sessionResynced (snapshot : AgentConnectionSnapshot State)
  | sessionReplaced (state : State) (messages : List Json)
  | extensionUiRequest (request : Json)
  | extensionError (error : Json)
  | closed (reason : String)

/-- What handling a message leads to. -/
inductive ConnectionAction where
  | emit (event : ConnectionEvent State)
  | recoverFailedSnapshot (purpose : SnapshotPurpose) (error : String)
  | reconnectAfterUpdate

/-- A snapshot on its way, and what its promise is settled with. -/
structure DaemonSnapshotAssembly where
  start : Option (DaemonSnapshotBegin State) := none
  chunks : JsMap ℕ (List Json) := .empty
  settled : Option (Except String (DaemonSessionSnapshot State)) := none

structure DaemonAgentConnection where
  activeSessionId : String
  lastEventCursor : Option DaemonEventCursor := none
  retiredEventGenerations : List String := []
  lastEventSequence : Option ℕ := none
  childRosterSequence : Option ℕ := none
  latestSnapshot : Option (AgentConnectionSnapshot State) := none
  latestSnapshotIsFresh : Bool := false
  activeSideQuestionIds : List String := []
  snapshotAssemblies : JsMap String (DaemonSnapshotAssembly State) := .empty
  completedSnapshots : JsMap String (DaemonSessionSnapshot State) := .empty
  pendingReattachActiveSessionIds : List String := []
  ignoredSnapshotIds : List String := []

end Snapshots

def MAX_IGNORED_SNAPSHOT_IDS : ℕ := 128

def MAX_COMPLETED_SNAPSHOTS : ℕ := 128

def maxEventSequence : Option ℕ → Option ℕ → Option ℕ
  | none, observed => observed
  | current, none => current
  | some current, some observed => some (max current observed)

variable {State : Type}

def mapDaemonSessionSnapshot (snapshot : DaemonSessionSnapshot State) :
    AgentConnectionSnapshot State where
  state := snapshot.state
  messages := snapshot.messages
  streamingMessage := snapshot.streamingMessage
  children := snapshot.children
  lastEventSequence := some snapshot.lastEventSequence
  lastEventCursor := snapshot.lastEventCursor

namespace ConnectionMessage

/-- The metadata of a message that can have some. -/
def eventMeta : ConnectionMessage State → DaemonEventMeta
  | sessionEvent _ m | sessionStatus _ m | sessionResynced _ m | sessionReplaced _ _ _ m
  | extensionUiRequest _ m | extensionError _ m | sessionClosed _ m => m
  | _ => {}

def snapshotId? : ConnectionMessage State → Option String
  | snapshotBegin id _ | snapshotChunk id _ _ | snapshotEnd id _ _ _ | snapshotFailed id _ =>
      some id
  | _ => none

end ConnectionMessage

namespace DaemonAgentConnection

variable (c : DaemonAgentConnection State)

/-! ## Sequenced messages -/

def isStaleSequencedMessage (message : ConnectionMessage State) : Bool :=
  match message.eventMeta.cursor with
  | some cursor =>
    if cursor.generation ∈ c.retiredEventGenerations then true
    else
      match c.lastEventCursor with
      | some last => last.generation = cursor.generation && cursor.sequence ≤ last.sequence
      | none => false
  | none =>
    match message.eventMeta.sequence, c.lastEventSequence with
    | some sequence, some last => sequence ≤ last
    | _, _ => false

def observeEventCursor (cursor : DaemonEventCursor) : DaemonAgentConnection State :=
  match c.lastEventCursor with
  | none => { c with lastEventCursor := some cursor }
  | some current =>
    { c with
      retiredEventGenerations :=
        if current.generation = cursor.generation then c.retiredEventGenerations
        else if current.generation ∈ c.retiredEventGenerations then c.retiredEventGenerations
        else c.retiredEventGenerations ++ [current.generation]
      lastEventCursor :=
        if current.generation ≠ cursor.generation ∨ cursor.sequence > current.sequence then
          some cursor
        else some current }

def observeDaemonEventSequence (message : ConnectionMessage State) : DaemonAgentConnection State :=
  match message.eventMeta.cursor with
  | some cursor => { c.observeEventCursor cursor with lastEventSequence := some cursor.sequence }
  | none =>
    match message.eventMeta.sequence with
    | none => c
    | some sequence =>
      { c with
        lastEventSequence := maxEventSequence c.lastEventSequence (some sequence)
        lastEventCursor := c.lastEventCursor.map fun last =>
          { last with sequence := max last.sequence sequence } }

/-! ## Snapshots -/

def getSnapshotAssembly (snapshotId : String) : DaemonSnapshotAssembly State :=
  (c.snapshotAssemblies.get? snapshotId).getD {}

/-- Ids are forgotten from the oldest on. -/
def ignoreSnapshotId (snapshotId : String) : DaemonAgentConnection State :=
  let ids := if snapshotId ∈ c.ignoredSnapshotIds then c.ignoredSnapshotIds
    else c.ignoredSnapshotIds ++ [snapshotId]
  { c with ignoredSnapshotIds := ids.drop (ids.length - MAX_IGNORED_SNAPSHOT_IDS) }

/-- A rejected snapshot is kept for the one who waits for it, unless it was not asked for. -/
def rejectSnapshotAssembly (snapshotId : String) (assembly : DaemonSnapshotAssembly State)
    (error : String) : DaemonAgentConnection State :=
  if ∃ purpose ∈ assembly.start.bind DaemonSnapshotBegin.purpose, purpose ≠ .attach then
    { c with snapshotAssemblies := c.snapshotAssemblies.delete snapshotId }
  else
    { c with
      snapshotAssemblies := c.snapshotAssemblies.set snapshotId
        { assembly with settled := some (assembly.settled.getD (.error error)) } }

/-- The messages of `count` chunks of a snapshot, from `index` on. -/
def chunkMessages (snapshotId : String) (chunks : JsMap ℕ (List Json)) (index : ℕ) :
    ℕ → Except String (List Json)
  | 0 => .ok []
  | count + 1 =>
    match chunks.get? index with
    | none => .error s!"Snapshot {snapshotId} is missing chunk {index}"
    | some chunk => (chunkMessages snapshotId chunks (index + 1) count).map (chunk ++ ·)

/-- The snapshot that an end completes, or why it completes none. -/
def assembledSnapshot (snapshotId : String) (assembly : DaemonSnapshotAssembly State)
    (chunkCount lastEventSequence : ℕ) (lastEventCursor : Option DaemonEventCursor) :
    Except String (DaemonSnapshotBegin State × DaemonSessionSnapshot State) :=
  match assembly.start with
  | none => .error s!"Snapshot {snapshotId} ended before it began"
  | some start =>
    if assembly.chunks.size ≠ chunkCount then
      .error s!"Snapshot {snapshotId} ended with {assembly.chunks.size} of {chunkCount} chunks"
    else
      match chunkMessages snapshotId assembly.chunks 0 chunkCount with
      | .error error => .error error
      | .ok messages =>
        if messages.length ≠ start.messageCount then
          .error
            s!"Snapshot {snapshotId} contained {messages.length} of {start.messageCount} messages"
        else .ok (start, { start.snapshot with messages, lastEventSequence, lastEventCursor })

/-- What a connection takes over from a snapshot. -/
def observeSnapshot (snapshot : DaemonSessionSnapshot State) : DaemonAgentConnection State :=
  let observed := match snapshot.lastEventCursor with
    | some cursor => c.observeEventCursor cursor
    | none => c
  { observed with
    lastEventSequence := maxEventSequence c.lastEventSequence (some snapshot.lastEventSequence)
    latestSnapshot := some (mapDaemonSessionSnapshot snapshot)
    latestSnapshotIsFresh := true }

def applyReplacementSnapshot (snapshot : DaemonSessionSnapshot State) (replay : Option Json) :
    DaemonAgentConnection State :=
  { c.observeSnapshot snapshot with
    latestSnapshot := some { mapDaemonSessionSnapshot snapshot with replay }
    childRosterSequence :=
      if snapshot.children.isSome then some snapshot.lastEventSequence else none }

def completeSnapshotAssembly (snapshotId : String) (chunkCount lastEventSequence : ℕ)
    (lastEventCursor : Option DaemonEventCursor) :
    DaemonAgentConnection State × List (ConnectionAction State) :=
  let assembly := c.getSnapshotAssembly snapshotId
  match assembledSnapshot snapshotId assembly chunkCount lastEventSequence lastEventCursor with
  | .error error => (c.rejectSnapshotAssembly snapshotId assembly error, [])
  | .ok (start, snapshot) =>
    let observed := c.observeSnapshot snapshot
    let settled := { assembly with settled := some (assembly.settled.getD (.ok snapshot)) }
    match start.purpose.getD .attach with
    | .attach =>
      ({ observed with
          snapshotAssemblies := c.snapshotAssemblies.set snapshotId settled }, [])
    | purpose =>
      let completed := c.completedSnapshots.set snapshotId snapshot
      ({ observed with
          snapshotAssemblies := c.snapshotAssemblies.delete snapshotId
          completedSnapshots :=
            if c.activeSessionId ∈ c.pendingReattachActiveSessionIds then
              if completed.size > MAX_COMPLETED_SNAPSHOTS then
                match completed.keys.head? with
                | some oldest => completed.delete oldest
                | none => completed
              else completed
            else c.completedSnapshots },
        [if purpose = .replacement then .emit (.sessionReplaced snapshot.state snapshot.messages)
          else .emit (.sessionResynced (mapDaemonSessionSnapshot snapshot))])

/-- The recovery of a snapshot begins before anybody else hears of the failure. -/
def failSnapshot (snapshotId error : String) :
    DaemonAgentConnection State × List (ConnectionAction State) :=
  let assembly := c.getSnapshotAssembly snapshotId
  let failed := (c.rejectSnapshotAssembly snapshotId assembly error).ignoreSnapshotId snapshotId
  match (assembly.start.bind DaemonSnapshotBegin.purpose).getD .attach with
  | .attach => (failed, [])
  | purpose =>
    ({ failed with
        latestSnapshot := if purpose = .replacement then none else failed.latestSnapshot
        latestSnapshotIsFresh := false },
      [.recoverFailedSnapshot purpose error])

/-! ## Messages -/

def observeStreamingMessage (event : ConnectionSessionEvent) : DaemonAgentConnection State :=
  { c with
    latestSnapshot := c.latestSnapshot.map fun snapshot =>
      match event with
      | .streaming message => { snapshot with streamingMessage := some message }
      | .streamed _ => { snapshot with streamingMessage := none }
      | _ => snapshot }

def observeRlmChildUpdate (child : ConnectionChild) : DaemonAgentConnection State :=
  { c with
    latestSnapshot := c.latestSnapshot.map fun snapshot =>
      let children := snapshot.children.getD []
      { snapshot with
        children := some (match children.findIdx? fun candidate => candidate.id = child.id with
          | some index => children.set index child
          | none => children ++ [child]) } }

/-- The snapshot that a message brings is given the cursor of the message. -/
def stampSnapshot (snapshot : AgentConnectionSnapshot State) : AgentConnectionSnapshot State where
  __ := snapshot
  lastEventSequence := c.lastEventSequence <|> snapshot.lastEventSequence
  lastEventCursor := c.lastEventCursor <|> snapshot.lastEventCursor

/-- A message that is not stale. -/
def handleSequenced (withRecap : Option String → State → State) :
    ConnectionMessage State → DaemonAgentConnection State × List (ConnectionAction State)
  | .sessionEvent event eventMeta =>
    let c := c.observeStreamingMessage event
    let c := match event with
      | .rlmChildUpdate child =>
        { c with childRosterSequence := maxEventSequence c.childRosterSequence eventMeta.sequence
          : DaemonAgentConnection State }.observeRlmChildUpdate child
      | _ => c
    ({ c with latestSnapshotIsFresh := false }, [.emit (.sessionEvent event)])
  | .sideQuestionEvent id running event =>
    ({ c with
        activeSideQuestionIds :=
          if running then c.activeSideQuestionIds else c.activeSideQuestionIds.erase id },
      [.emit (.sideQuestionEvent event)])
  | .sessionStatus recap _ =>
    ({ c with
        latestSnapshot := c.latestSnapshot.map fun snapshot =>
          { snapshot with state := withRecap recap snapshot.state } },
      [.emit (.sessionStatus recap)])
  | .sessionResynced snapshot _ =>
    let latest := c.stampSnapshot (mapDaemonSessionSnapshot snapshot)
    ({ c with
        latestSnapshot := some latest
        childRosterSequence :=
          if snapshot.children.isSome then some snapshot.lastEventSequence
          else c.childRosterSequence
        latestSnapshotIsFresh := true },
      [.emit (.sessionResynced latest)])
  | .sessionReplaced state messages snapshotFollows _ =>
    if snapshotFollows then ({ c with latestSnapshotIsFresh := false }, [])
    else
      ({ c with
          latestSnapshot := some (c.stampSnapshot { state, messages })
          childRosterSequence := none
          latestSnapshotIsFresh := true },
        [.emit (.sessionReplaced state messages)])
  | .extensionUiRequest request _ => (c, [.emit (.extensionUiRequest request)])
  | .extensionError error _ => (c, [.emit (.extensionError error)])
  | .sessionClosed reason _ =>
    (c, [if reason = "update" then .reconnectAfterUpdate else .emit (.closed reason)])
  | _ => (c, [])

/-- A message that names the session `activeSessionId`. -/
def handleDaemonMessage (withRecap : Option String → State → State) (activeSessionId : String)
    (message : ConnectionMessage State) :
    DaemonAgentConnection State × List (ConnectionAction State) :=
  if activeSessionId ≠ c.activeSessionId then (c, [])
  else if ∃ id ∈ message.snapshotId?, id ∈ c.ignoredSnapshotIds then
    match message with
    | .snapshotEnd id _ _ _ | .snapshotFailed id _ =>
      ({ c with ignoredSnapshotIds := c.ignoredSnapshotIds.erase id }, [])
    | _ => (c, [])
  else
    match message with
    | .snapshotBegin id start =>
      ({ c with
          snapshotAssemblies := c.snapshotAssemblies.set id
            { c.getSnapshotAssembly id with start := some start } }, [])
    | .snapshotChunk id index messages =>
      let assembly := c.getSnapshotAssembly id
      ({ c with
          snapshotAssemblies := c.snapshotAssemblies.set id
            { assembly with chunks := assembly.chunks.set index messages } }, [])
    | .snapshotEnd id chunkCount lastEventSequence lastEventCursor =>
      c.completeSnapshotAssembly id chunkCount lastEventSequence lastEventCursor
    | .snapshotFailed id error => c.failSnapshot id error
    | message =>
      if c.isStaleSequencedMessage message then (c, [])
      else (c.observeDaemonEventSequence message).handleSequenced withRecap message

end DaemonAgentConnection

end Amide
