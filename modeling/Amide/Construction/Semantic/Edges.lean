import Amide.Framework.JsMap

/-!
# The semantic edges of ledgers (`core/semantic-edges.ts`)

`deriveSemanticEdges` folds the events of ledgers, one ledger after the other, to the edges
between model requests.  What leads to a request that has not yet been made is pending on its
session; the next turn of the session claims it and carries it until it commits, when it becomes
edges, or fails, when the session has it back.  A completed compaction delivers what is pending to
its last summary slice.
-/

namespace Amide

inductive SemanticEdgeType where
  | continuation
  | subagentCall
  | subagentReturn
  | compaction
  deriving DecidableEq

inductive CompactionStatus where
  | completed
  | failed
  | cancelled
  deriving DecidableEq

inductive SemanticEdgeLedgerEvent where
  | sessionRegistered (sessionId : String) (parentSessionId spawnedByRequestId : Option String)
  | requestStarted (requestId sessionId : String) (compactionId : Option String)
  | requestFinished (requestId : String)
  | requestFailed (requestId : String)
  | compactionBegun (compactionId sessionId : String)
  | compactionFinished (compactionId : String) (status : CompactionStatus)
  | childReturned (sessionId childSessionId requestId : String)

structure SemanticEdge where
  sourceRequestId : String
  targetRequestId : String
  type : SemanticEdgeType
  deriving DecidableEq

/-- An edge whose target is not yet known. -/
structure InboundEdge where
  source : String
  type : SemanticEdgeType
  deriving DecidableEq

def InboundEdge.into (target : String) (inbound : InboundEdge) : SemanticEdge :=
  ⟨inbound.source, target, inbound.type⟩

structure FoldSession where
  spawnedByRequestId : Option String := none
  spawnClaimed : Bool := false
  lastRequestId : Option String := none
  pending : List InboundEdge := []

structure FoldRequest where
  sessionId : String
  summary : Bool
  inbound : List InboundEdge

structure FoldCompaction where
  sessionId : String
  summaryRequestIds : List String := []

structure FoldState where
  sessions : JsMap String FoldSession := .empty
  inFlight : JsMap String FoldRequest := .empty
  compactions : JsMap String FoldCompaction := .empty
  returnedChildren : List String := []
  edges : List SemanticEdge := []

namespace FoldSession

variable (state : FoldSession)

/-- The spawn edge, while no request has claimed it. -/
def spawnEdges : List InboundEdge :=
  if state.spawnClaimed = true then []
  else (state.spawnedByRequestId.map fun source => ⟨source, .subagentCall⟩).toList

/-- What a turn of the session claims. -/
def claimable : List InboundEdge := state.pending ++ state.spawnEdges

def claimed : FoldSession :=
  { state with
    pending := []
    spawnClaimed := state.spawnClaimed || state.spawnedByRequestId.isSome }

/-- A request continues the last commit, unless something else leads from that to it. -/
def continuing (inbound : List InboundEdge) : List InboundEdge :=
  match state.lastRequestId with
  | none => inbound
  | some last =>
    if inbound.any (fun edge => edge.source = last) = true then inbound
    else inbound ++ [⟨last, .continuation⟩]

end FoldSession

namespace FoldState

variable (s : FoldState)

def session (sessionId : String) : FoldSession := (s.sessions.get? sessionId).getD {}

/-- The compactions once the request has been started: a slice belongs to its compaction if that
is of its session. -/
def withSlice (requestId sessionId compactionId : String) : JsMap String FoldCompaction :=
  match s.compactions.get? compactionId with
  | some compaction =>
    if compaction.sessionId = sessionId then
      s.compactions.set compactionId
        { compaction with summaryRequestIds := compaction.summaryRequestIds ++ [requestId] }
    else s.compactions
  | none => s.compactions

def startRequest (requestId sessionId : String) : Option String → FoldState
  | none =>
    let state := s.session sessionId
    { s with
      sessions := s.sessions.set sessionId state.claimed
      inFlight := s.inFlight.set requestId
        ⟨sessionId, false, state.continuing state.claimable⟩ }
  | some compactionId =>
    let state := s.session sessionId
    { s with
      sessions := s.sessions.set sessionId state
      inFlight := s.inFlight.set requestId ⟨sessionId, true, state.continuing []⟩
      compactions := s.withSlice requestId sessionId compactionId }

def finishRequest (requestId : String) : FoldState :=
  match s.inFlight.get? requestId with
  | none => s
  | some request =>
    { s with
      inFlight := s.inFlight.delete requestId
      edges := s.edges ++ request.inbound.map (InboundEdge.into requestId)
      sessions := s.sessions.set request.sessionId
        { s.session request.sessionId with lastRequestId := some requestId } }

def failRequest (requestId : String) : FoldState :=
  match s.inFlight.get? requestId with
  | none => s
  | some request =>
    let state := s.session request.sessionId
    { s with
      inFlight := s.inFlight.delete requestId
      sessions :=
        if request.summary = true then s.sessions
        else s.sessions.set request.sessionId
          { state with pending := request.inbound ++ state.pending } }

/-- The slice that a completed compaction delivers to: the last commit of its session, if that is
one of its own requests. -/
def slice? (compaction : FoldCompaction) : Option String :=
  (s.session compaction.sessionId).lastRequestId.filter fun last =>
    last ∈ compaction.summaryRequestIds

/-- The edges once what is pending has been delivered to the slice: it replaces the continuations
from its sources. -/
def delivered (pending : List InboundEdge) (slice : String) : List SemanticEdge :=
  s.edges.diff ((pending.map InboundEdge.source).eraseDups.map fun source =>
    ⟨source, slice, .continuation⟩) ++ pending.map (InboundEdge.into slice)

def finishCompaction (compactionId : String) (status : CompactionStatus) : FoldState :=
  let finished := { s with compactions := s.compactions.delete compactionId }
  if status ≠ .completed then finished
  else
    match s.compactions.get? compactionId with
    | none => finished
    | some compaction =>
      let state := s.session compaction.sessionId
      match s.slice? compaction with
      | none => { finished with sessions := s.sessions.set compaction.sessionId state }
      | some slice =>
        { finished with
          sessions := s.sessions.set compaction.sessionId
            { state with pending := [⟨slice, .compaction⟩] }
          edges := s.delivered state.pending slice }

def step : SemanticEdgeLedgerEvent → FoldState
  | .sessionRegistered sessionId _ spawnedByRequestId =>
    if s.sessions.has sessionId = true then s
    else { s with sessions := s.sessions.set sessionId { spawnedByRequestId } }
  | .requestStarted requestId sessionId compactionId =>
    s.startRequest requestId sessionId compactionId
  | .requestFinished requestId => s.finishRequest requestId
  | .requestFailed requestId => s.failRequest requestId
  | .compactionBegun compactionId sessionId =>
    { s with compactions := s.compactions.set compactionId { sessionId } }
  | .compactionFinished compactionId status => s.finishCompaction compactionId status
  | .childReturned sessionId childSessionId requestId =>
    if childSessionId ∈ s.returnedChildren then s
    else
      let state := s.session sessionId
      { s with
        returnedChildren := s.returnedChildren ++ [childSessionId]
        sessions := s.sessions.set sessionId
          { state with pending := state.pending ++ [⟨requestId, .subagentReturn⟩] } }

end FoldState

/-- The state of the fold after events. -/
def foldEvents (events : List SemanticEdgeLedgerEvent) : FoldState :=
  events.foldl FoldState.step {}

def deriveSemanticEdges (ledgers : List (List SemanticEdgeLedgerEvent)) : List SemanticEdge :=
  (foldEvents ledgers.flatten).edges

/-- The session is registered among the events. -/
def registeredIn (events : List SemanticEdgeLedgerEvent) (sessionId : String) : Bool :=
  events.any fun
    | .sessionRegistered registered _ _ => registered = sessionId
    | _ => false

@[simp] lemma foldEvents_nil : foldEvents [] = {} := rfl

@[simp] lemma foldEvents_concat (events : List SemanticEdgeLedgerEvent)
    (event : SemanticEdgeLedgerEvent) :
    foldEvents (events ++ [event]) = (foldEvents events).step event := by
  rw [foldEvents, List.foldl_append]
  rfl

end Amide
