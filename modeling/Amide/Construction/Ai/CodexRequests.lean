import Amide.Construction.Ai.CodexWebSockets

/-!
# Requests over the sockets of the Codex provider (`providers/openai-codex-responses.ts`)

`processWebSocketStream` acquires a socket, sends one request on it and reads the answer.  With
cached context the entry of the socket remembers the request and its answer, its continuation, and
the next request that gets the entry sends only what its input adds to them.

What has been sent on each socket is recorded beside the state of the provider, with the full
request it stands for and its answer.
-/

namespace Amide

inductive CodexTransport where
  | sse
  | websocket
  | websocketCached
  | auto
  deriving DecidableEq

def useCachedContext (transport : Option CodexTransport) : Bool :=
  transport = some .websocketCached || transport = some .auto

/-- What the entry remembers from then on, and the body that is sent. -/
def buildCachedWebSocketRequestBody (continuation : Option CachedWebSocketContinuationState)
    (body : RequestBody) : Option CachedWebSocketContinuationState × RequestBody :=
  match continuation with
  | none => (none, body)
  | some continuation =>
    match getCachedWebSocketInputDelta body continuation with
    | none => (none, body)
    | some delta =>
      if continuation.lastResponseId = "" then (none, body)
      else
        (some continuation, { body with
          previous_response_id := some continuation.lastResponseId, input := some delta })

/-- Of the finished `output`, its id and the items it is converted to. -/
structure CodexResponse where
  responseId : Option String
  responseItems : List Json

/-- The full request, what was sent of it, and the answer. -/
structure CodexExchange where
  fullBody : RequestBody
  requestBody : RequestBody
  response : Option CodexResponse := none

/-- A call of `processWebSocketStream`. -/
structure CodexCall where
  body : RequestBody
  transport : Option CodexTransport
  sent : Bool := false

/-- Calls are numbered as their requests for a socket are. -/
structure CodexRequests where
  sockets : CodexSockets
  calls : List CodexCall := []
  /-- On each socket, the last request first. -/
  exchanges : ℕ → List CodexExchange := fun _ => []

namespace CodexSockets

variable (s : CodexSockets) (hold : SocketHold)

def continuation : Option CachedWebSocketContinuationState :=
  hold.entry?.bind fun i => s.entries[i]?.bind CachedWebSocketConnection.continuation

def setContinuation (continuation : Option CachedWebSocketContinuationState) : CodexSockets :=
  match hold.entry? with
  | some i => s.modifyEntry i fun entry => { entry with continuation }
  | none => s

end CodexSockets

/-- The answer to the last request. -/
def answerLast (response : CodexResponse) : List CodexExchange → List CodexExchange
  | [] => []
  | last :: earlier => { last with response := some response } :: earlier

namespace CodexRequests

variable (s : CodexRequests)

/-- `processWebSocketStream`, up to its await. -/
def call (sessionId : Option String) (constructs : Bool) (body : RequestBody)
    (transport : Option CodexTransport) : CodexRequests :=
  { s with
    sockets := s.sockets.acquireWebSocket sessionId constructs
    calls := s.calls ++ [{ body, transport }] }

variable (request socket : ℕ) (hold : SocketHold)

def exchange (exchanges : List CodexExchange) : CodexRequests :=
  { s with exchanges := Function.update s.exchanges socket exchanges }

/-- The request is sent. -/
def send (call : CodexCall) : CodexRequests :=
  let (continuation, requestBody) :=
    if useCachedContext call.transport then
      buildCachedWebSocketRequestBody (s.sockets.continuation hold) call.body
    else (s.sockets.continuation hold, call.body)
  { s.exchange socket ({ fullBody := call.body, requestBody } :: s.exchanges socket) with
    sockets := s.sockets.setContinuation hold continuation
    calls := s.calls.set request { call with sent := true } }

def release (keep : Bool) : CodexRequests :=
  { s with sockets := s.sockets.release request socket hold keep }

/-- Sending fails, or the answer does. -/
def failed : CodexRequests :=
  { s with sockets := s.sockets.setContinuation hold none }.release request socket hold false

/-- The answer is there. -/
def completed (call : CodexCall) (aborted : Bool) (response : CodexResponse) : CodexRequests :=
  let s := s.exchange socket (answerLast response (s.exchanges socket))
  let s :=
    if aborted then s
    else
      match useCachedContext call.transport, nonempty? response.responseId with
      | true, some lastResponseId =>
        { s with
          sockets := s.sockets.setContinuation hold (some
            { lastRequestBody := call.body, lastResponseId
              lastResponseItems := response.responseItems }) }
      | _, _ => s
  s.release request socket hold (!aborted)

end CodexRequests

inductive CodexRequestLabel where
  | call (sessionId : Option String) (constructs : Bool) (body : RequestBody)
      (transport : Option CodexTransport)
  | send (request : ℕ)
  | failed (request : ℕ)
  | completed (request : ℕ) (aborted : Bool) (response : CodexResponse)
  /-- What happens to connections. -/
  | connection (label : CodexSocketLabel)

namespace CodexRequests

/-- The call that holds a socket. -/
def holding? (s : CodexRequests) (request : ℕ) : Option (ℕ × SocketHold × CodexCall) :=
  match s.sockets.requests[request]?, s.calls[request]? with
  | some (.holding socket hold), some call => some (socket, hold, call)
  | _, _ => none

/-- `none` where the label does not apply. -/
def step (s : CodexRequests) : CodexRequestLabel → Option CodexRequests
  | .call sessionId constructs body transport => some (s.call sessionId constructs body transport)
  | .send request =>
    match s.holding? request with
    | some (socket, hold, call) =>
      if call.sent then none else some (s.send request socket hold call)
    | none => none
  | .failed request =>
    match s.holding? request with
    | some (socket, hold, _) => some (s.failed request socket hold)
    | none => none
  | .completed request aborted response =>
    match s.holding? request with
    | some (socket, hold, call) =>
      if call.sent then some (s.completed request socket hold call aborted response) else none
    | none => none
  | .connection (.acquire ..) | .connection (.release ..) => none
  | .connection label => (s.sockets.step label).map fun sockets => { s with sockets }

end CodexRequests

def codexRequestMachine : Machine CodexRequests CodexRequestLabel where
  step s label s' := s.step label = some s'

end Amide
