import Amide.Construction.Session.Messages
import Amide.Framework.Effects

/-!
# The agent loop (`agent/src/agent-loop.ts`)

A run of the loop streams an assistant message, executes the tools that it calls, and goes on until
there are no more calls and no more messages to inject.  Everything it does that others can see or
answer is an effect (`LoopEffect`): an event given to the sink, a call of a hook, of the provider or
of a tool, a wait.  What the effects can do is `LoopWorld.Answers`: hooks, provider and tools answer
whatever they like, the sink may reject an event, and the abort signal may fire at every effect.

The variables of a run that its functions share are `LoopLocals`.  The hooks that only prepare the
request to the provider answer with nothing, since what the provider then says is up to it.
`while (true)` is bounded by fuel.
-/

namespace Amide

/-! ## Types -/

inductive ToolExecutionMode
  | sequential
  | parallel
  deriving DecidableEq

structure AgentTool where
  name : String
  executionMode : Option ToolExecutionMode
  prepareArguments : Bool

structure AgentToolResult where
  content : List UserBlock
  details : Option Json
  terminate : Option Bool

structure BeforeToolCallResult where
  block : Option Bool
  reason : Option String

structure AfterToolCallResult where
  content : Option (List UserBlock)
  details : Option Json
  isError : Option Bool
  terminate : Option Bool

/-- The events of a provider's stream; the nine kinds of updates are one. -/
inductive AssistantMessageEvent
  | start (part : AssistantMessage)
  | update (part : AssistantMessage)
  | done (message : AssistantMessage)
  | error (error : AssistantMessage)

inductive AgentEvent
  | agentStart
  | agentEnd (messages : List AgentMessage)
  | turnStart
  | turnEnd (message : AssistantMessage) (toolResults : List ToolResultMessage)
  | messageStart (message : AgentMessage)
  | messageUpdate (message : AssistantMessage) (assistantMessageEvent : AssistantMessageEvent)
  | messageEnd (message : AgentMessage)
  | toolExecutionStart (toolCallId toolName : String) (args : Json)
  | toolExecutionUpdate (toolCallId toolName : String) (args : Json)
      (partialResult : AgentToolResult)
  | toolExecutionEnd (toolCallId toolName : String) (result : AgentToolResult) (isError : Bool)

/-- What is thrown: an `Error` by its name and message. -/
structure LoopError where
  name : String
  message : String

/-- What a promise settles to. -/
abbrev Settlement (α : Type) := Except LoopError α

/-- The hooks are there or are not; those that a run calls when they are there. -/
structure AgentLoopConfig where
  api : String
  provider : String
  modelId : String
  tools : List AgentTool
  toolExecution : Option ToolExecutionMode
  transformContext : Bool
  getSystemPrompt : Bool
  getApiKey : Bool
  shouldStopAfterTurn : Bool
  shouldStopBeforeTurn : Bool
  getSteeringMessages : Bool
  getFollowUpMessages : Bool
  getContinuationMessages : Bool
  beforeToolCall : Bool
  afterToolCall : Bool

/-! ## Effects -/

/-- What a run calls: hooks, the provider's stream, tools. -/
inductive LoopCall
  | transformContext
  | convertToLlm
  | getApiKey
  | streamFunction
  | nextEvent
  | result
  | shouldStopAfterTurn
  | getSteeringMessages
  | getFollowUpMessages
  | getContinuationMessages
  | beforeToolCall (toolCall : ToolCall) (args : Json)
  | execute (toolCall : ToolCall) (args : Json)
  | afterToolCall (toolCall : ToolCall) (result : AgentToolResult) (isError : Bool)

/-- What the promise that a call returns settles to. -/
@[reducible] def LoopCall.Answer : LoopCall → Type
  | transformContext => Unit
  | convertToLlm => Unit
  | getApiKey => Unit
  | streamFunction => Unit
  | nextEvent => Option AssistantMessageEvent
  | result => AssistantMessage
  | shouldStopAfterTurn => Bool
  | getSteeringMessages => List AgentMessage
  | getFollowUpMessages => List AgentMessage
  | getContinuationMessages => List AgentMessage
  | beforeToolCall _ _ => Option BeforeToolCallResult
  | execute _ _ => AgentToolResult
  | afterToolCall _ _ _ => Option AfterToolCallResult

/-- The variables of a run: `currentContext.messages`, `newMessages`, and the `partialMessage` of
the response that is streamed, which is in the context as long as there is one. -/
structure LoopLocals where
  messages : List AgentMessage
  newMessages : List AgentMessage
  partialMessage : Option AssistantMessage

inductive LoopEffect
  | emit (event : AgentEvent)
  | isAborted
  /-- Waiting for a promise: whether an abort came first. -/
  | wait
  | call (call : LoopCall)
  /-- The partial results that a tool publishes. -/
  | updates (toolCall : ToolCall)
  | getSystemPrompt
  | shouldStopBeforeTurn
  | prepareArguments (toolCall : ToolCall)
  | validateToolArguments (toolCall : ToolCall)
  | now
  | read
  | write (locals : LoopLocals)

@[reducible] def LoopEffect.Answer : LoopEffect → Type
  | emit _ => Unit
  | isAborted => Bool
  | wait => Bool
  | call c => Settlement c.Answer
  | updates _ => List AgentToolResult
  | getSystemPrompt => Unit
  | shouldStopBeforeTurn => Bool
  | prepareArguments _ => Unit
  | validateToolArguments _ => Json
  | now => ℕ
  | read => LoopLocals
  | write _ => Unit

abbrev LoopProgram := Program LoopEffect LoopEffect.Answer LoopError

/-- The variables, the events that the sink was given, and whether the signal is aborted. -/
structure LoopWorld where
  locals : LoopLocals
  events : List AgentEvent
  aborted : Bool

namespace LoopWorld

def emitted (s : LoopWorld) (event : AgentEvent) : LoopWorld :=
  { s with events := s.events ++ [event] }

/-- The signal is aborted now, if `raised`, or was before. -/
def abort (s : LoopWorld) (raised : Bool) : LoopWorld :=
  { s with aborted := s.aborted || raised }

/-- What an effect can do. -/
inductive Answers : LoopWorld → (e : LoopEffect) → Except LoopError e.Answer → LoopWorld → Prop
  | emit {s : LoopWorld} {event : AgentEvent} {raised : Bool} (r : Except LoopError Unit) :
      Answers s (.emit event) r ((s.emitted event).abort raised)
  | isAborted {s : LoopWorld} {raised : Bool} :
      Answers s .isAborted (.ok (s.abort raised).aborted) (s.abort raised)
  | wait {s : LoopWorld} {raised abortFirst : Bool}
      (habort : abortFirst = true → (s.abort raised).aborted = true) :
      Answers s .wait (.ok abortFirst) (s.abort raised)
  | call {s : LoopWorld} {c : LoopCall} {raised : Bool}
      (r : Except LoopError (Settlement c.Answer)) :
      Answers s (.call c) r (s.abort raised)
  | updates {s : LoopWorld} {toolCall : ToolCall} {raised : Bool} (rs : List AgentToolResult) :
      Answers s (.updates toolCall) (.ok rs) (s.abort raised)
  | getSystemPrompt {s : LoopWorld} {raised : Bool} (r : Except LoopError Unit) :
      Answers s .getSystemPrompt r (s.abort raised)
  | shouldStopBeforeTurn {s : LoopWorld} {raised : Bool} (r : Except LoopError Bool) :
      Answers s .shouldStopBeforeTurn r (s.abort raised)
  | prepareArguments {s : LoopWorld} {toolCall : ToolCall} {raised : Bool}
      (r : Except LoopError Unit) : Answers s (.prepareArguments toolCall) r (s.abort raised)
  | validateToolArguments {s : LoopWorld} {toolCall : ToolCall} {raised : Bool}
      (r : Except LoopError Json) : Answers s (.validateToolArguments toolCall) r (s.abort raised)
  | now {s : LoopWorld} (time : ℕ) : Answers s .now (.ok time) s
  | read {s : LoopWorld} : Answers s .read (.ok s.locals) s
  | write {s : LoopWorld} {locals : LoopLocals} :
      Answers s (.write locals) (.ok ()) { s with locals }

end LoopWorld

namespace AgentLoop

/-! ### As programs -/

def emit (event : AgentEvent) : LoopProgram Unit := .effect (LoopEffect.emit event)

def isAborted : LoopProgram Bool := .effect LoopEffect.isAborted

def wait : LoopProgram Bool := .effect LoopEffect.wait

def call (c : LoopCall) : LoopProgram (Settlement c.Answer) := .effect (LoopEffect.call c)

def now : LoopProgram ℕ := .effect LoopEffect.now

def read : LoopProgram LoopLocals := .effect LoopEffect.read

def write (locals : LoopLocals) : LoopProgram Unit := .effect (LoopEffect.write locals)

def pushContext (message : AgentMessage) : LoopProgram Unit := do
  let locals ← read
  write { locals with messages := locals.messages ++ [message] }

def replaceLastInContext (message : AgentMessage) : LoopProgram Unit := do
  let locals ← read
  write { locals with messages := locals.messages.dropLast ++ [message] }

def pushNew (message : AgentMessage) : LoopProgram Unit := do
  let locals ← read
  write { locals with newMessages := locals.newMessages ++ [message] }

def setPartialMessage (part : Option AssistantMessage) : LoopProgram Unit := do
  let locals ← read
  write { locals with partialMessage := part }

/-! ## Aborting -/

def abortErrorMessage : String := "Request was aborted"

def createAbortError : LoopError := ⟨"Error", abortErrorMessage⟩

def isAbortError (error : LoopError) : Bool :=
  error.message == abortErrorMessage || error.name == "AbortError"

def throwIfAborted : LoopProgram Unit := do
  if ← isAborted then
    throw createAbortError

def raceWithAbort {α : Type} (operation : Settlement α) : LoopProgram α := do
  if ← isAborted then
    throw createAbortError
  if ← wait then
    throw createAbortError
  match operation with
  | .ok value => return value
  | .error error => throw error

/-- `none` where the operation was aborted. -/
def settlePostTurn {α : Type} (operation : LoopProgram α) : LoopProgram (Option α) := do
  match ← operation.attempt with
  | .ok value => return some value
  | .error error =>
    if (← isAborted) && isAbortError error then
      return none
    throw error

def pollMessagesUnlessAborted (present : Bool)
    (poll : LoopProgram (Settlement (List AgentMessage))) :
    LoopProgram (List AgentMessage) := do
  if !present then
    return []
  if ← isAborted then
    return []
  let operation ← poll
  raceWithAbort operation

def emptyUsage : Usage :=
  let zero := NumLit.ofNat 0
  { input := 0, output := 0, cacheRead := 0, cacheWrite := 0, totalTokens := 0,
    cost := ⟨zero, zero, zero, zero, zero⟩ }

def createAbortedAssistantMessage (config : AgentLoopConfig)
    (partialMessage : Option AssistantMessage) : LoopProgram AssistantMessage := do
  let timestamp ← now
  return {
    content := (partialMessage.map (·.content)).getD [.text { text := "" }]
    api := (partialMessage.map (·.api)).getD config.api
    provider := (partialMessage.map (·.provider)).getD config.provider
    model := (partialMessage.map (·.model)).getD config.modelId
    usage := (partialMessage.map (·.usage)).getD emptyUsage
    stopReason := .aborted
    errorMessage := some abortErrorMessage
    timestamp }

/-! ## Streaming a response -/

/-- The message takes the place of the partial one, or is announced now. -/
def finishMessage (finalMessage : AssistantMessage) : LoopProgram AssistantMessage := do
  if (← read).partialMessage.isSome then
    replaceLastInContext (.assistant finalMessage)
  else
    pushContext (.assistant finalMessage)
    emit (.messageStart (.assistant finalMessage))
  emit (.messageEnd (.assistant finalMessage))
  return finalMessage

def finishAbortedMessage (config : AgentLoopConfig) : LoopProgram AssistantMessage := do
  let finalMessage ← createAbortedAssistantMessage config (← read).partialMessage
  finishMessage finalMessage

/-- A call that is raced with the abort. -/
def raceCall (c : LoopCall) : LoopProgram c.Answer := do
  let operation ← call c
  raceWithAbort operation

/-- The stream's result, or the message of its last event where the abort came first. -/
def resultOr (terminalMessage : AssistantMessage) : LoopProgram AssistantMessage := do
  match ← (raceCall .result).attempt with
  | .ok finalMessage => return finalMessage
  | .error error =>
    if !(← isAborted) || !isAbortError error then
      throw error
    return terminalMessage

/-- The events of the stream, up to the one that ends it. -/
def streamEvents : ℕ → LoopProgram AssistantMessage
  | 0 => .spent
  | fuel + 1 => do
    match ← raceCall .nextEvent with
    | none =>
      finishMessage (← raceCall .result)
    | some (.start part) =>
      setPartialMessage (some part)
      pushContext (.assistant part)
      emit (.messageStart (.assistant part))
      streamEvents fuel
    | some (.update part) =>
      if (← read).partialMessage.isSome then
        setPartialMessage (some part)
        replaceLastInContext (.assistant part)
        emit (.messageUpdate part (.update part))
      streamEvents fuel
    | some (.done message) =>
      finishMessage (← resultOr message)
    | some (.error message) =>
      finishMessage (← resultOr message)

def runIf (condition : Bool) (p : LoopProgram Unit) : LoopProgram Unit :=
  if condition then p else pure ()

/-- A hook that may not be there. -/
def callIf {α : Type} (present : Bool) (hook : LoopProgram (Settlement α)) (otherwise : α) :
    LoopProgram (Settlement α) :=
  if present then hook else pure (.ok otherwise)

def requestResponse (config : AgentLoopConfig) : LoopProgram Unit := do
  throwIfAborted
  runIf config.transformContext (raceCall .transformContext)
  raceCall .convertToLlm
  runIf config.getApiKey (raceCall .getApiKey)
  runIf config.getSystemPrompt (.effect LoopEffect.getSystemPrompt)
  raceCall .streamFunction

def streamAssistantResponse (config : AgentLoopConfig) (fuel : ℕ) :
    LoopProgram AssistantMessage := do
  setPartialMessage none
  tryCatch
    (do
      requestResponse config
      streamEvents fuel)
    fun error => do
      if (← isAborted) && isAbortError error then
        finishAbortedMessage config
      else
        throw error

/-! ## Executing tools -/

inductive Preparation
  | immediate (result : AgentToolResult) (isError : Bool)
  | prepared (toolCall : ToolCall) (args : Json)

structure FinalizedToolCall where
  toolCall : ToolCall
  result : AgentToolResult
  isError : Bool

structure ExecutedToolCallBatch where
  messages : List ToolResultMessage
  terminate : Bool

def createErrorToolResult (message : String) : AgentToolResult :=
  ⟨[.text { text := message }], some (.obj []), none⟩

def shouldTerminateToolBatch (finalizedCalls : List FinalizedToolCall) : Bool :=
  0 < finalizedCalls.length &&
    finalizedCalls.all fun finalized => finalized.result.terminate == some true

/-- The arguments that a tool is to be called with. -/
def validatedArguments (tool : AgentTool) (toolCall : ToolCall) : LoopProgram Json := do
  runIf tool.prepareArguments (.effect (LoopEffect.prepareArguments toolCall))
  .effect (LoopEffect.validateToolArguments toolCall)

/-- Why the hook blocks the call, if it does. -/
def blockReason (config : AgentLoopConfig) (toolCall : ToolCall) (args : Json) :
    LoopProgram (Option String) := do
  if !config.beforeToolCall then
    return none
  match ← raceCall (.beforeToolCall toolCall args) with
  | some ⟨some true, reason⟩ =>
    return some ((reason.filter (· ≠ "")).getD "Tool execution was blocked")
  | _ => return none

def prepareToolCall (config : AgentLoopConfig) (toolCall : ToolCall) : LoopProgram Preparation :=
  match config.tools.find? fun tool => tool.name = toolCall.name with
  | none => return .immediate (createErrorToolResult s!"Tool {toolCall.name} not found") true
  | some tool =>
    tryCatch
      (do
        let args ← validatedArguments tool toolCall
        match ← blockReason config toolCall args with
        | some reason => return .immediate (createErrorToolResult reason) true
        | none => return .prepared toolCall args)
      fun error => return .immediate (createErrorToolResult error.message) true

/-- The partial results are given to the sink without waiting for it; what it makes of the first
that it rejects. -/
def emitUpdates (toolCall : ToolCall) : List AgentToolResult → LoopProgram (Settlement Unit)
  | [] => return .ok ()
  | partialResult :: partialResults => do
    if ← isAborted then
      emitUpdates toolCall partialResults
    else
      let first ← (emit (.toolExecutionUpdate toolCall.id toolCall.name toolCall.arguments
        partialResult)).attempt
      let rest ← emitUpdates toolCall partialResults
      return first.bind fun _ => rest

def executePreparedToolCall (toolCall : ToolCall) (args : Json) :
    LoopProgram (AgentToolResult × Bool) :=
  tryCatch
    (do
      throwIfAborted
      -- what the tool publishes while it runs comes before what it settles to
      let partialResults ←
        (Program.effect (LoopEffect.updates toolCall) : LoopProgram (List AgentToolResult))
      let updates ← emitUpdates toolCall partialResults
      let result ← raceCall (.execute toolCall args)
      match ← (raceWithAbort updates).attempt with
      | .ok _ => return (result, false)
      | .error error =>
        if !(← isAborted) || !isAbortError error then
          throw error
        return (result, false))
    fun error => do
      -- waiting for the updates; whether they were rejected is no matter here
      let _ ← (raceWithAbort (.ok ()) : LoopProgram Unit).attempt
      if ← isAborted then
        return (createErrorToolResult "Tool execution aborted", true)
      else
        return (createErrorToolResult error.message, true)

def finalizeExecutedToolCall (config : AgentLoopConfig) (toolCall : ToolCall)
    (executed : AgentToolResult × Bool) : LoopProgram FinalizedToolCall := do
  if !config.afterToolCall then
    return ⟨toolCall, executed.1, executed.2⟩
  tryCatch
    (do
      match ← raceCall (.afterToolCall toolCall executed.1 executed.2) with
      | none => return ⟨toolCall, executed.1, executed.2⟩
      | some after =>
        let result := ⟨after.content.getD executed.1.content,
          (after.details.filter (· ≠ .null)).or executed.1.details,
          after.terminate.or executed.1.terminate⟩
        return ⟨toolCall, result, after.isError.getD executed.2⟩)
    fun error => return ⟨toolCall, createErrorToolResult error.message, true⟩

def emitToolExecutionEnd (finalized : FinalizedToolCall) : LoopProgram Unit :=
  emit (.toolExecutionEnd finalized.toolCall.id finalized.toolCall.name finalized.result
    finalized.isError)

def createToolResultMessage (finalized : FinalizedToolCall) : LoopProgram ToolResultMessage := do
  let timestamp ← now
  return {
    toolCallId := finalized.toolCall.id
    toolName := finalized.toolCall.name
    content := finalized.result.content
    details := finalized.result.details
    isError := finalized.isError
    timestamp }

def emitToolResultMessage (message : ToolResultMessage) : LoopProgram Unit := do
  emit (.messageStart (.toolResult message))
  emit (.messageEnd (.toolResult message))

/-- The result of a call as a message, which is told of. -/
def answerToolCall (finalized : FinalizedToolCall) : LoopProgram ToolResultMessage := do
  let toolResultMessage ← createToolResultMessage finalized
  emitToolResultMessage toolResultMessage
  return toolResultMessage

def finishImmediate (finalized : FinalizedToolCall) : LoopProgram FinalizedToolCall := do
  emitToolExecutionEnd finalized
  return finalized

/-- A call that was prepared is executed and finalized. -/
def runPreparedToolCall (config : AgentLoopConfig) (toolCall : ToolCall) (args : Json) :
    LoopProgram FinalizedToolCall := do
  let executed ← executePreparedToolCall toolCall args
  let finalized ← finalizeExecutedToolCall config toolCall executed
  emitToolExecutionEnd finalized
  return finalized

/-- What a call comes to when it is executed on its own. -/
def executeToolCall (config : AgentLoopConfig) (toolCall : ToolCall) :
    LoopProgram FinalizedToolCall := do
  emit (.toolExecutionStart toolCall.id toolCall.name toolCall.arguments)
  match ← prepareToolCall config toolCall with
  | .immediate result isError => finishImmediate ⟨toolCall, result, isError⟩
  | .prepared toolCall args => runPreparedToolCall config toolCall args

/-- The calls up to an abort, one after the other. -/
def executeEachToolCall (config : AgentLoopConfig) :
    List ToolCall → LoopProgram (List (FinalizedToolCall × ToolResultMessage))
  | [] => return []
  | toolCall :: toolCalls => do
    if ← isAborted then
      return []
    let finalized ← executeToolCall config toolCall
    let toolResultMessage ← answerToolCall finalized
    if ← isAborted then
      return [(finalized, toolResultMessage)]
    let rest ← executeEachToolCall config toolCalls
    return (finalized, toolResultMessage) :: rest

def executeToolCallsSequential (config : AgentLoopConfig) (toolCalls : List ToolCall) :
    LoopProgram ExecutedToolCallBatch := do
  let executed ← executeEachToolCall config toolCalls
  return ⟨executed.map Prod.snd, shouldTerminateToolBatch (executed.map Prod.fst)⟩

/-- What is left to do of a call once it is prepared; it is to run with the others. -/
def startToolCall (config : AgentLoopConfig) (toolCall : ToolCall) :
    LoopProgram (LoopProgram FinalizedToolCall) := do
  emit (.toolExecutionStart toolCall.id toolCall.name toolCall.arguments)
  match ← prepareToolCall config toolCall with
  | .immediate result isError =>
    let finalized ← finishImmediate ⟨toolCall, result, isError⟩
    return pure finalized
  | .prepared toolCall args => return runPreparedToolCall config toolCall args

def startEachToolCall (config : AgentLoopConfig) :
    List ToolCall → LoopProgram (List (LoopProgram FinalizedToolCall))
  | [] => return []
  | toolCall :: toolCalls => do
    let finalizedCall ← startToolCall config toolCall
    let finalizedCalls ← startEachToolCall config toolCalls
    return finalizedCall :: finalizedCalls

def answerToolCalls : List FinalizedToolCall → LoopProgram (List ToolResultMessage)
  | [] => return []
  | finalized :: finalizedCalls => do
    let toolResultMessage ← answerToolCall finalized
    let rest ← answerToolCalls finalizedCalls
    return toolResultMessage :: rest

def executeToolCallsParallel (config : AgentLoopConfig) (fuel : ℕ) (toolCalls : List ToolCall) :
    LoopProgram ExecutedToolCallBatch := do
  let finalizedCalls ← startEachToolCall config toolCalls
  let orderedFinalizedCalls ← Program.all fuel finalizedCalls
  let messages ← answerToolCalls orderedFinalizedCalls
  return ⟨messages, shouldTerminateToolBatch orderedFinalizedCalls⟩

def executeToolCalls (config : AgentLoopConfig) (fuel : ℕ) (toolCalls : List ToolCall) :
    LoopProgram ExecutedToolCallBatch :=
  let hasSequentialToolCall := toolCalls.any fun tc =>
    ((config.tools.find? fun t => t.name = tc.name).bind (·.executionMode)) = some .sequential
  if config.toolExecution = some .sequential || hasSequentialToolCall then
    executeToolCallsSequential config toolCalls
  else
    executeToolCallsParallel config fuel toolCalls

/-! ## The loop -/

def emitMessage (message : AgentMessage) : LoopProgram Unit := do
  emit (.messageStart message)
  emit (.messageEnd message)

def emitMessages : List AgentMessage → LoopProgram Unit
  | [] => return
  | message :: messages => do
    emitMessage message
    emitMessages messages

def injectMessages : List AgentMessage → LoopProgram Unit
  | [] => return
  | message :: messages => do
    emitMessage message
    pushContext message
    pushNew message
    injectMessages messages

def pushToolResults : List ToolResultMessage → LoopProgram Unit
  | [] => return
  | result :: results => do
    pushContext (.toolResult result)
    pushNew (.toolResult result)
    pushToolResults results

def emitAgentEnd : LoopProgram Unit := do
  emit (.agentEnd (← read).newMessages)

def shouldStopBeforeTurn (config : AgentLoopConfig) (firstTurn : Bool) : LoopProgram Bool := do
  if firstTurn || !config.shouldStopBeforeTurn then
    return false
  (Program.effect LoopEffect.shouldStopBeforeTurn : LoopProgram Bool)

/-- What a turn leaves the loop with: whether there are more tool calls, and messages to inject. -/
structure TurnOutcome where
  hasMoreToolCalls : Bool
  pendingMessages : List AgentMessage

/-- After a turn; `none` where the run is over. -/
def afterTurn (config : AgentLoopConfig) (hasMoreToolCalls : Bool) :
    LoopProgram (Option TurnOutcome) := do
  if ← isAborted then
    emitAgentEnd
    return none
  let shouldStop ← callIf config.shouldStopAfterTurn (call .shouldStopAfterTurn) false
  match ← settlePostTurn (raceWithAbort shouldStop) with
  | none =>
    emitAgentEnd
    return none
  | some shouldStop =>
    if ← (if shouldStop then pure true else shouldStopBeforeTurn config false) then
      emitAgentEnd
      return none
    match ← settlePostTurn
        (pollMessagesUnlessAborted config.getSteeringMessages (call .getSteeringMessages)) with
    | none =>
      emitAgentEnd
      return none
    | some pendingMessages =>
      if ← (if pendingMessages.isEmpty then shouldStopBeforeTurn config false else pure false) then
        emitAgentEnd
        return none
      return some ⟨hasMoreToolCalls, pendingMessages⟩

/-- What follows the response of a turn. -/
def finishTurn (config : AgentLoopConfig) (fuel : ℕ) (message : AssistantMessage) :
    LoopProgram (Option TurnOutcome) := do
  if message.stopReason = .error || message.stopReason = .aborted then
    emit (.turnEnd message [])
    emitAgentEnd
    return none
  if message.toolCalls.isEmpty then
    emit (.turnEnd message [])
    afterTurn config false
  else
    let executedToolBatch ← executeToolCalls config fuel message.toolCalls
    pushToolResults executedToolBatch.messages
    emit (.turnEnd message executedToolBatch.messages)
    afterTurn config !executedToolBatch.terminate

def runTurn (config : AgentLoopConfig) (fuel : ℕ) (firstTurn : Bool)
    (pendingMessages : List AgentMessage) : LoopProgram (Option TurnOutcome) := do
  throwIfAborted
  runIf (!firstTurn) (emit .turnStart)
  injectMessages pendingMessages
  let message ← streamAssistantResponse config fuel
  pushNew (.assistant message)
  finishTurn config fuel message

/-- The inner loop; `none` where the run is over.  It has had a turn when it is left. -/
def runTurns (config : AgentLoopConfig) : ℕ → Bool → TurnOutcome → LoopProgram (Option Unit)
  | 0, _, _ => .spent
  | fuel + 1, firstTurn, ⟨hasMoreToolCalls, pendingMessages⟩ => do
    if hasMoreToolCalls || !pendingMessages.isEmpty then
      match ← runTurn config fuel firstTurn pendingMessages with
      | none => return none
      | some outcome => runTurns config fuel false outcome
    else
      return some ()

/-- What is left to do when the turns are over; `none` where the run is over. -/
def nextMessages (config : AgentLoopConfig) : LoopProgram (Option (List AgentMessage)) := do
  if ← shouldStopBeforeTurn config false then
    emitAgentEnd
    return none
  match ← settlePostTurn
      (pollMessagesUnlessAborted config.getFollowUpMessages (call .getFollowUpMessages)) with
  | none =>
    emitAgentEnd
    return none
  | some followUpMessages =>
    if !followUpMessages.isEmpty then
      return some followUpMessages
    if ← shouldStopBeforeTurn config false then
      emitAgentEnd
      return none
    let continuation ← callIf config.getContinuationMessages (call .getContinuationMessages) []
    match ← settlePostTurn (raceWithAbort continuation) with
    | none =>
      emitAgentEnd
      return none
    | some continuationMessages =>
      if !continuationMessages.isEmpty then
        return some continuationMessages
      emitAgentEnd
      return none

def runLoopFrom (config : AgentLoopConfig) : ℕ → Bool → List AgentMessage → LoopProgram Unit
  | 0, _, _ => .spent
  | fuel + 1, firstTurn, pendingMessages => do
    throwIfAborted
    match ← runTurns config fuel firstTurn ⟨true, pendingMessages⟩ with
    | none => return
    | some _ =>
      match ← nextMessages config with
      | none => return
      | some messages => runLoopFrom config fuel false messages

def runLoop (config : AgentLoopConfig) (fuel : ℕ) : LoopProgram Unit := do
  let pendingMessages ←
    pollMessagesUnlessAborted config.getSteeringMessages (call .getSteeringMessages)
  runLoopFrom config fuel true pendingMessages

/-- The context's messages come with the state that a run starts in. -/
def runAgentLoop (config : AgentLoopConfig) (fuel : ℕ) (prompts : List AgentMessage) :
    LoopProgram (List AgentMessage) := do
  let locals ← read
  write { locals with newMessages := prompts, messages := locals.messages ++ prompts }
  emit .agentStart
  emit .turnStart
  emitMessages prompts
  runLoop config fuel
  return (← read).newMessages

def runAgentLoopContinue (config : AgentLoopConfig) (fuel : ℕ) :
    LoopProgram (List AgentMessage) := do
  let locals ← read
  match locals.messages.getLast? with
  | none => throw ⟨"Error", "Cannot continue: no messages in context"⟩
  | some last =>
    if last.isAssistant then
      throw ⟨"Error", "Cannot continue from message role: assistant"⟩
    write { locals with newMessages := [] }
    emit .agentStart
    emit .turnStart
    runLoop config fuel
    return (← read).newMessages

end AgentLoop

/-! ## Runs -/

/-- A run starts from prompts, or goes on from the context. -/
inductive RunKind
  | prompt (prompts : List AgentMessage)
  | resume

def RunKind.program (kind : RunKind) (config : AgentLoopConfig) (fuel : ℕ) :
    LoopProgram (List AgentMessage) :=
  match kind with
  | prompt prompts => AgentLoop.runAgentLoop config fuel prompts
  | resume => AgentLoop.runAgentLoopContinue config fuel

/-- Before a run. -/
def LoopWorld.initial (context : List AgentMessage) (aborted : Bool) : LoopWorld :=
  ⟨⟨context, [], none⟩, [], aborted⟩

end Amide
