import Amide.Construction.Ai.Types
import Amide.Construction.Refinement.Edits

/-!
# Compact streams (`modes/daemon/compact-session-stream.ts`)

A worker sends each update of an assistant message as a delta, without the message it has grown to
(`createCompactAssistantDelta`); the supervisor keeps a message a session and applies the deltas to
it (`CompactAssistantStreamReconstructor`).

The content of a message under way is an array that may have holes, since a block is put at the
index its event names.  `parseStreamingJson`, which reads the arguments of a tool call from JSON
that may be cut off, is a parameter.
-/

namespace Amide

/-! ## Messages under way -/

/-- The content of a message that is being streamed. -/
abbrev StreamContent := List (Option AssistantBlock)

namespace StreamContent

/-- `content[index]`. -/
def block (content : StreamContent) (index : ℕ) : Option AssistantBlock := content[index]?.join

/-- `content[index] = block`, which may leave holes before it. -/
def assign (content : StreamContent) (index : ℕ) (block : AssistantBlock) : StreamContent :=
  if index < content.length then content.set index (some block)
  else content ++ List.replicate (index - content.length) none ++ [some block]

end StreamContent

/-- An assistant message; what it has besides its content is passed on. -/
structure StreamMessage where
  content : StreamContent := []
  rest : List (String × Json) := []

/-- The messages of events; the others have another role. -/
inductive StreamedMessage where
  | assistant (message : StreamMessage)
  | other (message : Json)

/-- `AssistantMessageEvent` without `partial`. -/
inductive CompactAssistantMessageEvent where
  | start
  | textStart (contentIndex : ℕ)
  | textDelta (contentIndex : ℕ) (delta : String)
  | textEnd (contentIndex : ℕ) (content : String)
  | thinkingStart (contentIndex : ℕ)
  | thinkingDelta (contentIndex : ℕ) (delta : String)
  | thinkingEnd (contentIndex : ℕ) (content : String)
  | toolcallStart (contentIndex : ℕ)
  | toolcallDelta (contentIndex : ℕ) (delta : String)
  | toolcallEnd (contentIndex : ℕ) (toolCall : ToolCall)
  | done (reason : StopReason) (message : StreamMessage)
  | error (reason : StopReason) (error : StreamMessage)

/-- An `AssistantMessageEvent`; the message that it carries along is its `partial`. -/
structure StreamUpdate where
  compact : CompactAssistantMessageEvent
  message : Option StreamMessage := none

inductive StreamSessionEvent where
  | messageStart (message : StreamedMessage)
  | messageUpdate (message : StreamedMessage) (assistantMessageEvent : StreamUpdate)
  | messageEnd (message : StreamedMessage)
  | other (type : String)

/-- The messages of a worker that are told apart here. -/
inductive DaemonOutbound where
  | sessionEvent (activeSessionId : String) (event : StreamSessionEvent) (eventMeta : Option Json)
  | sessionReplaced (activeSessionId : String)
  | sessionResynced (activeSessionId : String)
  | sessionClosed (activeSessionId : String)
  | other (type : String)

structure CompactAssistantDelta where
  activeSessionId : String
  assistantMessageEvent : CompactAssistantMessageEvent
  contentStart : Option AssistantBlock := none
  toolCallArguments : Option Json := none
  eventMeta : Option Json := none

/-! ## Encoding -/

/-- The arguments that the tool call has by now. -/
def compactToolCallArguments (message : StreamMessage) : CompactAssistantMessageEvent → Option Json
  | .toolcallDelta contentIndex _ =>
    match message.content.block contentIndex with
    | some (.toolCall content) => some content.arguments
    | _ => none
  | _ => none

/-- The block that a start event is about, emptied. -/
def compactContentStart (message : StreamMessage) :
    CompactAssistantMessageEvent → Option AssistantBlock
  | .textStart contentIndex =>
    match message.content.block contentIndex with
    | some (.text content) => some (.text { content with text := "" })
    | _ => none
  | .thinkingStart contentIndex =>
    match message.content.block contentIndex with
    | some (.thinking content) => some (.thinking { content with thinking := "" })
    | _ => none
  | .toolcallStart contentIndex =>
    match message.content.block contentIndex with
    | some (.toolCall content) => some (.toolCall { content with arguments := .obj [] })
    | _ => none
  | _ => none

/-- Arguments that are not truthy are left out. -/
def createCompactAssistantDelta : DaemonOutbound → Option CompactAssistantDelta
  | .sessionEvent activeSessionId (.messageUpdate (.assistant message) event) eventMeta =>
    some { activeSessionId, assistantMessageEvent := event.compact,
           contentStart := compactContentStart message event.compact,
           toolCallArguments :=
            (compactToolCallArguments message event.compact).filter fun a => truthy (some a),
           eventMeta }
  | _ => none

/-! ## Decoding -/

structure CompactAssistantStreamReconstructor where
  partialMessages : JsMap String StreamMessage := .empty
  toolCallJson : JsMap String String := .empty

namespace CompactAssistantStreamReconstructor

def toolCallKey (activeSessionId : String) (contentIndex : ℕ) : String :=
  activeSessionId ++ ":" ++ toString contentIndex

variable (r : CompactAssistantStreamReconstructor)

def seed (activeSessionId : String) (message : StreamMessage) :
    CompactAssistantStreamReconstructor :=
  { r with partialMessages := r.partialMessages.set activeSessionId message }

def clear (activeSessionId : String) : CompactAssistantStreamReconstructor where
  partialMessages := r.partialMessages.delete activeSessionId
  toolCallJson := r.toolCallJson.keys.foldl
    (fun json key => if key.startsWith (activeSessionId ++ ":") then json.delete key else json)
    r.toolCallJson

def observe : DaemonOutbound → CompactAssistantStreamReconstructor
  | .sessionEvent activeSessionId (.messageStart (.assistant message)) _ =>
    r.seed activeSessionId message
  | .sessionEvent activeSessionId (.messageEnd _) _ => r.clear activeSessionId
  | .sessionReplaced activeSessionId | .sessionResynced activeSessionId
  | .sessionClosed activeSessionId => r.clear activeSessionId
  | _ => r

/-- What a delta makes of the content and of the JSON of tool calls; `none` where `reconstruct`
returns early. -/
def applyDelta (parseStreamingJson : String → Json) (delta : CompactAssistantDelta)
    (content : StreamContent) (toolCallJson : JsMap String String) :
    Option (StreamContent × JsMap String String) :=
  match delta.assistantMessageEvent with
  | .textStart contentIndex =>
    some (content.assign contentIndex (delta.contentStart.getD (.text { text := "" })),
      toolCallJson)
  | .textDelta contentIndex text =>
    match content.block contentIndex with
    | some (.text c) =>
      some (content.assign contentIndex (.text { c with text := c.text ++ text }), toolCallJson)
    | _ => none
  | .textEnd contentIndex text =>
    match content.block contentIndex with
    | some (.text c) =>
      some (content.assign contentIndex (.text { c with text }), toolCallJson)
    | _ => none
  | .thinkingStart contentIndex =>
    some (content.assign contentIndex (delta.contentStart.getD (.thinking { thinking := "" })),
      toolCallJson)
  | .thinkingDelta contentIndex text =>
    match content.block contentIndex with
    | some (.thinking c) =>
      some (content.assign contentIndex (.thinking { c with thinking := c.thinking ++ text }),
        toolCallJson)
    | _ => none
  | .thinkingEnd contentIndex text =>
    match content.block contentIndex with
    | some (.thinking c) =>
      some (content.assign contentIndex (.thinking { c with thinking := text }), toolCallJson)
    | _ => none
  | .toolcallStart contentIndex =>
    match delta.contentStart with
    | some (.toolCall c) =>
      some (content.assign contentIndex (.toolCall c),
        toolCallJson.set (toolCallKey delta.activeSessionId contentIndex) "")
    | _ => none
  | .toolcallDelta contentIndex text =>
    match content.block contentIndex with
    | some (.toolCall c) =>
      match delta.toolCallArguments.filter fun a => truthy (some a) with
      | some arguments =>
        some (content.assign contentIndex (.toolCall { c with arguments }), toolCallJson)
      | none =>
        let key := toolCallKey delta.activeSessionId contentIndex
        let partialJson := (toolCallJson.get? key).getD "" ++ text
        some (content.assign contentIndex
            (.toolCall { c with arguments := parseStreamingJson partialJson }),
          toolCallJson.set key partialJson)
    | _ => none
  | .toolcallEnd contentIndex toolCall =>
    some (content.assign contentIndex (.toolCall toolCall),
      toolCallJson.delete (toolCallKey delta.activeSessionId contentIndex))
  | .start | .done .. | .error .. => none

def reconstruct (parseStreamingJson : String → Json) (delta : CompactAssistantDelta) :
    CompactAssistantStreamReconstructor × Option DaemonOutbound :=
  match r.partialMessages.get? delta.activeSessionId with
  | none => (r, none)
  | some message =>
    match applyDelta parseStreamingJson delta message.content r.toolCallJson with
    | none => (r, none)
    | some (content, toolCallJson) =>
      let message := { message with content }
      ({ partialMessages := r.partialMessages.set delta.activeSessionId message, toolCallJson },
        some (.sessionEvent delta.activeSessionId
          (.messageUpdate (.assistant message) { compact := delta.assistantMessageEvent })
          delta.eventMeta))

end CompactAssistantStreamReconstructor

end Amide
