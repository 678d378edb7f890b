import Amide.Construction.Daemon.AgentConnection

/-!
# Requests of a connection (`modes/agent-connection/daemon-agent-connection.ts`)

What the requests of a `DaemonAgentConnection` do to the snapshot it keeps.  `reattachSession` turns
to another session and, when the daemon refuses, back to the one before; `getInitialSnapshot` asks
for a snapshot when the one that is kept is not fresh.

The session context that comes with an initial snapshot is left out, and so is `attach`, which
begins a connection or takes it up again.
-/

namespace Amide

variable {State : Type}

/-- What a connection goes back to when a reattach fails. -/
structure ReattachPreviousState (State : Type) where
  lastEventCursor : Option DaemonEventCursor
  lastEventSequence : Option ℕ
  latestSnapshot : Option (AgentConnectionSnapshot State)
  latestSnapshotIsFresh : Bool
  retiredEventGenerations : List String

/-- What was seen when a snapshot was asked for. -/
structure InitialSnapshotRequest where
  snapshotCursor : Option DaemonEventCursor
  snapshotSequence : Option ℕ
  deriving DecidableEq

namespace DaemonAgentConnection

variable (c : DaemonAgentConnection State)

/-- The snapshot that `getState`, `getMessages` and `getInitialSnapshot` answer from, if they need
not ask. -/
def cachedSnapshot : Option (AgentConnectionSnapshot State) :=
  if c.latestSnapshotIsFresh then c.latestSnapshot else none

/-- A command that may change the session has succeeded. -/
def invalidateCachedSnapshot : DaemonAgentConnection State :=
  { c with latestSnapshotIsFresh := false }

/-! ## Reattaching -/

def previousState : ReattachPreviousState State where
  lastEventCursor := c.lastEventCursor
  lastEventSequence := c.lastEventSequence
  latestSnapshot := c.latestSnapshot
  latestSnapshotIsFresh := c.latestSnapshotIsFresh
  retiredEventGenerations := c.retiredEventGenerations

/-- `reattachSession`, until the request is sent. -/
def beginReattach (targetActiveSessionId : String) : DaemonAgentConnection State :=
  { c with
    activeSessionId := targetActiveSessionId
    lastEventCursor := none
    lastEventSequence := none
    latestSnapshot := none
    latestSnapshotIsFresh := false
    retiredEventGenerations := []
    pendingReattachActiveSessionIds :=
      if targetActiveSessionId ∈ c.pendingReattachActiveSessionIds then
        c.pendingReattachActiveSessionIds
      else c.pendingReattachActiveSessionIds ++ [targetActiveSessionId] }

def endReattach (targetActiveSessionId : String) : DaemonAgentConnection State :=
  { c with
    pendingReattachActiveSessionIds :=
      c.pendingReattachActiveSessionIds.erase targetActiveSessionId }

/-- The daemon has reattached the connection, to the session it answers with.  Where it answers with
no snapshot, that comes as a stream (`awaitedSnapshot`). -/
def reattached (targetActiveSessionId activeSessionId : String)
    (result : Option (DaemonSessionSnapshot State × Option Json)) :
    DaemonAgentConnection State × List (ConnectionAction State) :=
  let c := { c with
    activeSessionId
    activeSideQuestionIds := [] }
  match result with
  | none => (c, [])
  | some (snapshot, replay) =>
    ((c.applyReplacementSnapshot snapshot replay).endReattach targetActiveSessionId,
      [.emit (.sessionReplaced snapshot.state snapshot.messages)])

/-- The stream that a reattach waits for has ended, in whatever way. -/
def awaitedSnapshot (targetActiveSessionId snapshotId : String) : DaemonAgentConnection State :=
  { c.endReattach targetActiveSessionId with
    snapshotAssemblies := c.snapshotAssemblies.delete snapshotId
    completedSnapshots := c.completedSnapshots.delete snapshotId }

/-- The daemon has refused to reattach the connection. -/
def failReattach (sourceActiveSessionId targetActiveSessionId : String)
    (previous : ReattachPreviousState State) : DaemonAgentConnection State :=
  { c.endReattach targetActiveSessionId with
    activeSessionId := sourceActiveSessionId
    lastEventCursor := previous.lastEventCursor
    lastEventSequence := previous.lastEventSequence
    latestSnapshot := previous.latestSnapshot
    latestSnapshotIsFresh := previous.latestSnapshotIsFresh
    retiredEventGenerations := previous.retiredEventGenerations }

/-! ## Asking for a snapshot -/

def initialSnapshotRequest : InitialSnapshotRequest where
  snapshotCursor := c.lastEventCursor
  snapshotSequence := c.lastEventSequence

/-- The answers to `get_connection_state` and `get_messages`. -/
def answerInitialSnapshot (request : InitialSnapshotRequest) (state : State)
    (messages : List Json) : DaemonAgentConnection State :=
  { c with
    latestSnapshot := some
      { state
        messages
        streamingMessage := c.latestSnapshot.bind AgentConnectionSnapshot.streamingMessage
        children := c.latestSnapshot.bind AgentConnectionSnapshot.children
        lastEventSequence := request.snapshotSequence
        lastEventCursor := request.snapshotCursor }
    latestSnapshotIsFresh := request = c.initialSnapshotRequest }

end DaemonAgentConnection

end Amide
