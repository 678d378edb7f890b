import Amide.Framework.JsMap
import Amide.Construction.Ai.Types

/-!
# Messages for a provider

`transformMessages`: the first pass makes the messages of one model fit for another and renames
tool calls and their results, the second drops failed assistant messages and makes up a result for
each tool call that has none.

The normaliser of ids and the clock are arguments.
-/

namespace Amide

/-- The fields of `Model` the transformation reads. -/
structure Model where
  id : String
  api : String
  provider : String
  /-- `input.includes("image")`. -/
  acceptsImages : Bool

/-- A message; `other` stands for one of a role of its own, of which only that is read. -/
inductive Message where
  | user (m : UserMessage)
  | assistant (m : AssistantMessage)
  | toolResult (m : ToolResultMessage)
  | other (role : String) (fields : Json)

abbrev ToolCallIdNormalizer := String → Model → AssistantMessage → String

namespace TransformMessages

/-! ## Images -/

def nonVisionUserImagePlaceholder : String := "(image omitted: model does not support images)"

def nonVisionToolImagePlaceholder : String :=
  "(tool image omitted: model does not support images)"

/-- The loop of `replaceImagesWithPlaceholder`. -/
def replaceImages (placeholder : String) : Bool → List UserBlock → List UserBlock
  | _, [] => []
  | previousWasPlaceholder, .image _ :: rest =>
      if previousWasPlaceholder then replaceImages placeholder true rest
      else .text { text := placeholder } :: replaceImages placeholder true rest
  | _, .text c :: rest => .text c :: replaceImages placeholder (c.text = placeholder) rest

def replaceImagesWithPlaceholder (content : List UserBlock) (placeholder : String) :
    List UserBlock :=
  replaceImages placeholder false content

/-- What `downgradeUnsupportedImages` makes of one message. -/
def downgrade : Message → Message
  | .user { content := .blocks bs, timestamp } =>
      .user { content := .blocks (replaceImagesWithPlaceholder bs nonVisionUserImagePlaceholder)
              timestamp }
  | .toolResult m =>
      .toolResult { m with
        content := replaceImagesWithPlaceholder m.content nonVisionToolImagePlaceholder }
  | m => m

def downgradeUnsupportedImages (messages : List Message) (model : Model) : List Message :=
  if model.acceptsImages then messages else messages.map downgrade

/-! ## The first pass -/

def isSameModel (m : AssistantMessage) (model : Model) : Bool :=
  m.provider = model.provider && m.api = model.api && m.model = model.id

/-- A block, and the id it is renamed to, if it is a tool call that is. -/
def transformBlock (model : Model) (normalize : Option ToolCallIdNormalizer)
    (m : AssistantMessage) : AssistantBlock → List AssistantBlock × Option (String × String)
  | .thinking c =>
      let same := isSameModel m model
      if c.redacted = some true then (if same then [.thinking c] else [], none)
      else if same && c.thinkingSignature.getD "" ≠ "" then ([.thinking c], none)
      else if trim c.thinking = "" then ([], none)
      else if same then ([.thinking c], none)
      else ([.text { text := c.thinking }], none)
  | .text c => ([if isSameModel m model then .text c else .text { text := c.text }], none)
  | .toolCall c =>
      let same := isSameModel m model
      let call :=
        if !same && c.thoughtSignature.getD "" ≠ "" then { c with thoughtSignature := none }
        else c
      match normalize with
      | some normalizeToolCallId =>
        if same then ([.toolCall call], none)
        else
          let normalizedId := normalizeToolCallId c.id model m
          if normalizedId ≠ c.id then
            ([.toolCall { call with id := normalizedId }], some (c.id, normalizedId))
          else ([.toolCall call], none)
      | none => ([.toolCall call], none)

/-- The content of an assistant message, and `toolCallIdMap` after it. -/
def transformContent (model : Model) (normalize : Option ToolCallIdNormalizer)
    (m : AssistantMessage) :
    JsMap String String → List AssistantBlock → List AssistantBlock × JsMap String String
  | toolCallIdMap, [] => ([], toolCallIdMap)
  | toolCallIdMap, block :: rest =>
      let (blocks, renamed) := transformBlock model normalize m block
      let toolCallIdMap := renamed.elim toolCallIdMap fun r => toolCallIdMap.set r.1 r.2
      let (rest, toolCallIdMap) := transformContent model normalize m toolCallIdMap rest
      (blocks ++ rest, toolCallIdMap)

def transformMessage (model : Model) (normalize : Option ToolCallIdNormalizer)
    (toolCallIdMap : JsMap String String) : Message → Message × JsMap String String
  | .user m => (.user m, toolCallIdMap)
  | .toolResult m =>
      match toolCallIdMap.get? m.toolCallId with
      | some normalizedId =>
        if normalizedId ≠ "" && normalizedId ≠ m.toolCallId then
          (.toolResult { m with toolCallId := normalizedId }, toolCallIdMap)
        else (.toolResult m, toolCallIdMap)
      | none => (.toolResult m, toolCallIdMap)
  | .assistant m =>
      let (content, toolCallIdMap) := transformContent model normalize m toolCallIdMap m.content
      (.assistant { m with content }, toolCallIdMap)
  | .other role fields => (.other role fields, toolCallIdMap)

/-- `imageAwareMessages.map(...)`, from a state of `toolCallIdMap`. -/
def firstPass (model : Model) (normalize : Option ToolCallIdNormalizer) :
    JsMap String String → List Message → List Message
  | _, [] => []
  | toolCallIdMap, msg :: rest =>
      let (msg, toolCallIdMap) := transformMessage model normalize toolCallIdMap msg
      msg :: firstPass model normalize toolCallIdMap rest

/-- `transformed`. -/
def transformed (messages : List Message) (model : Model)
    (normalize : Option ToolCallIdNormalizer) : List Message :=
  firstPass model normalize JsMap.empty (downgradeUnsupportedImages messages model)

/-! ## The second pass -/

/-- The variables of the second pass. -/
structure PassState where
  result : List Message := []
  pendingToolCalls : List ToolCall := []
  existingToolResultIds : List String := []

/-- The result made up for a tool call without one. -/
def syntheticResult (timestamp : ℕ) (tc : ToolCall) : ToolResultMessage :=
  { toolCallId := tc.id, toolName := tc.name
    content := [.text { text := "No result provided" }], isError := true, timestamp }

/-- The results made up for the calls that have none; `now` is the clock. -/
def syntheticResults (now : ℕ) (pending : List ToolCall) (existing : List String) :
    List ToolResultMessage :=
  (pending.filter fun tc => !existing.contains tc.id).map (syntheticResult now)

def insertSyntheticToolResults (now : ℕ) (s : PassState) : PassState :=
  if s.pendingToolCalls ≠ [] then
    { result := s.result ++
        (syntheticResults now s.pendingToolCalls s.existingToolResultIds).map .toolResult
      pendingToolCalls := [], existingToolResultIds := [] }
  else s

def isFailed (m : AssistantMessage) : Bool := m.stopReason = .error || m.stopReason = .aborted

/-- The body of the second loop. -/
def passMessage (now : ℕ) (s : PassState) : Message → PassState
  | .assistant m =>
      let s := insertSyntheticToolResults now s
      if isFailed m then s
      else
        let s := if m.toolCalls ≠ [] then
            { s with pendingToolCalls := m.toolCalls, existingToolResultIds := [] }
          else s
        { s with result := s.result ++ [.assistant m] }
  | .toolResult m =>
      { s with existingToolResultIds := s.existingToolResultIds ++ [m.toolCallId]
               result := s.result ++ [.toolResult m] }
  | .user m =>
      let s := insertSyntheticToolResults now s
      { s with result := s.result ++ [.user m] }
  | .other role fields => { s with result := s.result ++ [.other role fields] }

def secondPass (now : ℕ) (messages : List Message) : List Message :=
  (insertSyntheticToolResults now (messages.foldl (passMessage now) {})).result

end TransformMessages

open TransformMessages in
def transformMessages (messages : List Message) (model : Model)
    (normalize : Option ToolCallIdNormalizer) (now : ℕ) : List Message :=
  secondPass now (transformed messages model normalize)

end Amide
