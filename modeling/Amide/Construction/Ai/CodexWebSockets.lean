import Amide.Framework.Json
import Amide.Framework.Machine
import Amide.Construction.Daemon.AgentRoster

/-!
# WebSockets of the Codex provider (`packages/ai`, `providers/openai-codex-responses.ts`)

A session's socket is kept for its next request, which then need not send what the server has seen
already.  `acquireWebSocket` takes the cached socket when it is idle, and else connects one of its
own; what a request does with its socket in the end depends on how it came by it, which
`SocketHold` remembers.

An entry of the cache is an object there, and here its position in the list of all entries; so are
sockets and requests.  Connecting, and answering a request, take time: every await is a point where
others step in.
-/

namespace Amide

/-! ## Request bodies -/

/-- Of a request, every field but two, and these. -/
structure RequestBody where
  fields : List (String × Json)
  input : Option (List Json) := none
  previous_response_id : Option String := none

structure CachedWebSocketContinuationState where
  lastRequestBody : RequestBody
  lastResponseId : String
  lastResponseItems : List Json

def requestBodyWithoutInput (body : RequestBody) : Json := .obj body.fields

def responseInputsEqual (a b : List Json) : Bool :=
  Json.stringify (.arr a) = Json.stringify (.arr b)

def requestBodiesMatchExceptInput (a b : RequestBody) : Bool :=
  Json.stringify (requestBodyWithoutInput a) = Json.stringify (requestBodyWithoutInput b)

def getCachedWebSocketInputDelta (body : RequestBody)
    (continuation : CachedWebSocketContinuationState) : Option (List Json) :=
  if requestBodiesMatchExceptInput body continuation.lastRequestBody = false then none
  else
    let currentInput := body.input.getD []
    let baseline := continuation.lastRequestBody.input.getD [] ++ continuation.lastResponseItems
    if currentInput.length < baseline.length then none
    else if responseInputsEqual (currentInput.take baseline.length) baseline = false then none
    else some (currentInput.drop baseline.length)

/-! ## Sockets -/

inductive WebSocketReadyState where
  | connecting
  | open
  | closed
  deriving DecidableEq

structure CodexSocket where
  /-- The session it was connected for. -/
  sessionId : Option String
  readyState : WebSocketReadyState

structure CachedWebSocketConnection where
  socket : ℕ
  /-- The session that `release` and the timer of the entry know. -/
  sessionId : String
  busy : Bool
  /-- The timer is running. -/
  idleTimer : Bool := false
  continuation : Option CachedWebSocketContinuationState := none

/-- How a request has come by its socket. -/
inductive SocketHold where
  | single
  | fresh (entry : ℕ)
  | reused (entry : ℕ)

def SocketHold.entry? : SocketHold → Option ℕ
  | fresh i | reused i => some i
  | single => none

/-- Where a call of `acquireWebSocket` stands. -/
inductive SocketRequest where
  /-- It awaits the connection, which is then cached for the session, if there is one. -/
  | connecting (socket : ℕ) (cachedFor : Option String)
  | holding (socket : ℕ) (hold : SocketHold)
  | ended

structure CodexSockets where
  /-- Whether the runtime's sockets have a `readyState`. -/
  reportsReadyState : Bool := true
  sockets : List CodexSocket := []
  entries : List CachedWebSocketConnection := []
  websocketSessionCache : JsMap String ℕ := .empty
  requests : List SocketRequest := []

namespace CodexSockets

variable (s : CodexSockets)

def readyState (socket : ℕ) : Option WebSocketReadyState :=
  s.sockets[socket]?.map CodexSocket.readyState

def isWebSocketReusable (socket : ℕ) : Bool :=
  !s.reportsReadyState || s.readyState socket = some .open

def setReadyState (socket : ℕ) (readyState : WebSocketReadyState) : CodexSockets :=
  { s with sockets := s.sockets.modify socket fun socket => { socket with readyState } }

def closeWebSocketSilently (socket : ℕ) : CodexSockets := s.setReadyState socket .closed

def modifyEntry (entry : ℕ) (f : CachedWebSocketConnection → CachedWebSocketConnection) :
    CodexSockets :=
  { s with entries := s.entries.modify entry f }

def clearIdleTimer (entry : ℕ) : CodexSockets :=
  s.modifyEntry entry fun entry => { entry with idleTimer := false }

def scheduleSessionWebSocketExpiry (entry : ℕ) : CodexSockets :=
  s.modifyEntry entry fun entry => { entry with idleTimer := true }

def uncache (sessionId : String) : CodexSockets :=
  { s with websocketSessionCache := s.websocketSessionCache.delete sessionId }

def setRequest (request : ℕ) (phase : SocketRequest) : CodexSockets :=
  { s with requests := s.requests.set request phase }

def cached? (sessionId : String) : Option (ℕ × CachedWebSocketConnection) :=
  (s.websocketSessionCache.get? sessionId).bind fun i => s.entries[i]?.map (i, ·)

/-- `connectWebSocket`, up to its await; the constructor may throw. -/
def connectWebSocket (sessionId cachedFor : Option String) (constructs : Bool) : CodexSockets :=
  if constructs then
    { s with
      sockets := s.sockets ++ [⟨sessionId, .connecting⟩]
      requests := s.requests ++ [.connecting s.sockets.length cachedFor] }
  else { s with requests := s.requests ++ [.ended] }

def acquireWebSocket (sessionId : Option String) (constructs : Bool) : CodexSockets :=
  match nonempty? sessionId with
  | none => s.connectWebSocket none none constructs
  | some sessionId =>
    match s.cached? sessionId with
    | none => s.connectWebSocket (some sessionId) (some sessionId) constructs
    | some (i, cached) =>
      let s := s.clearIdleTimer i
      if cached.busy = false ∧ s.isWebSocketReusable cached.socket = true then
        { s.modifyEntry i fun entry => { entry with busy := true } with
          requests := s.requests ++ [.holding cached.socket (.reused i)] }
      else if cached.busy then s.connectWebSocket (some sessionId) none constructs
      else
        ((s.closeWebSocketSilently cached.socket).uncache sessionId).connectWebSocket
          (some sessionId) (some sessionId) constructs

/-- The socket has opened. -/
def connected (request socket : ℕ) (cachedFor : Option String) : CodexSockets :=
  let s := s.setReadyState socket .open
  match cachedFor with
  | none => s.setRequest request (.holding socket .single)
  | some sessionId =>
    { s.setRequest request (.holding socket (.fresh s.entries.length)) with
      entries := s.entries ++ [{ socket, sessionId, busy := true }]
      websocketSessionCache := s.websocketSessionCache.set sessionId s.entries.length }

/-- The socket fails before it has opened, or the signal aborts. -/
def failed (request socket : ℕ) : CodexSockets :=
  (s.closeWebSocketSilently socket).setRequest request .ended

/-- The entry is kept for the next request. -/
def keepEntry (i : ℕ) : CodexSockets :=
  (s.modifyEntry i fun entry => { entry with busy := false }).scheduleSessionWebSocketExpiry i

def releaseFresh (socket i : ℕ) (keep : Bool) : CodexSockets :=
  if keep = false ∨ s.isWebSocketReusable socket = false then
    let closed := (s.closeWebSocketSilently socket).clearIdleTimer i
    match s.entries[i]? with
    | some entry =>
      if s.websocketSessionCache.get? entry.sessionId = some i then closed.uncache entry.sessionId
      else closed
    | none => closed
  else s.keepEntry i

def releaseReused (socket i : ℕ) (keep : Bool) : CodexSockets :=
  if keep = false ∨ s.isWebSocketReusable socket = false then
    let closed := s.closeWebSocketSilently socket
    match s.entries[i]? with
    | some entry => closed.uncache entry.sessionId
    | none => closed
  else s.keepEntry i

def release (request socket : ℕ) (hold : SocketHold) (keep : Bool) : CodexSockets :=
  let s := match hold with
    | .single => s.closeWebSocketSilently socket
    | .fresh i => s.releaseFresh socket i keep
    | .reused i => s.releaseReused socket i keep
  s.setRequest request .ended

/-- The timer fires. -/
def idleTimeout (i : ℕ) (entry : CachedWebSocketConnection) : CodexSockets :=
  let s := s.clearIdleTimer i
  if entry.busy then s else (s.closeWebSocketSilently entry.socket).uncache entry.sessionId

def closeEntry (i : ℕ) : CodexSockets :=
  match s.entries[i]? with
  | some entry => (s.clearIdleTimer i).closeWebSocketSilently entry.socket
  | none => s

def closeOpenAICodexWebSocketSessions (sessionId : Option String) : CodexSockets :=
  match nonempty? sessionId with
  | some sessionId =>
    let s := match s.websocketSessionCache.get? sessionId with
      | some i => s.closeEntry i
      | none => s
    s.uncache sessionId
  | none =>
    { s.websocketSessionCache.values.foldl closeEntry s with websocketSessionCache := .empty }

end CodexSockets

inductive CodexSocketLabel where
  | acquire (sessionId : Option String) (constructs : Bool)
  | connected (request : ℕ)
  | failed (request : ℕ)
  | release (request : ℕ) (keep : Bool)
  | idleTimeout (entry : ℕ)
  | socketClosed (socket : ℕ)
  | closeSessions (sessionId : Option String)

namespace CodexSockets

/-- `none` where the label does not apply. -/
def step (s : CodexSockets) : CodexSocketLabel → Option CodexSockets
  | .acquire sessionId constructs => some (s.acquireWebSocket sessionId constructs)
  | .connected request =>
    match s.requests[request]? with
    | some (.connecting socket cachedFor) => some (s.connected request socket cachedFor)
    | _ => none
  | .failed request =>
    match s.requests[request]? with
    | some (.connecting socket _) => some (s.failed request socket)
    | _ => none
  | .release request keep =>
    match s.requests[request]? with
    | some (.holding socket hold) => some (s.release request socket hold keep)
    | _ => none
  | .idleTimeout i =>
    match s.entries[i]? with
    | some entry => if entry.idleTimer then some (s.idleTimeout i entry) else none
    | none => none
  | .socketClosed socket =>
    if s.readyState socket = some .open then some (s.setReadyState socket .closed) else none
  | .closeSessions sessionId => some (s.closeOpenAICodexWebSocketSessions sessionId)

end CodexSockets

def codexSocketMachine : Machine CodexSockets CodexSocketLabel where
  step s label s' := s.step label = some s'

end Amide
