import Amide.Framework.JsonCodec

/-!
# Messages

The content blocks and messages of `ai/src/types.ts`: user, assistant and tool-result messages,
with every field the rest of the development reads or passes on.  The `JsonCodec` instances give
the form `JSON.stringify` writes them in: members in the order of the object literals, fields
that are `undefined` left out.

A JavaScript `number` is a `ℕ` where the code counts (tokens, milliseconds) and a number literal
where it measures money; the latter is only ever copied.
-/

namespace Amide

/-- White space and line ends, as `trim` takes them off. -/
def isTrimmed (c : Char) : Bool :=
  c.toNat ∈ [9, 10, 11, 12, 13, 32, 160, 5760, 8232, 8233, 8239, 8287, 12288, 65279] ||
    (8192 ≤ c.toNat && c.toNat ≤ 8202)

def trim (s : String) : String :=
  String.ofList (((s.toList.dropWhile isTrimmed).reverse.dropWhile isTrimmed).reverse)

structure TextContent where
  text : String
  textSignature : Option String := none
  deriving DecidableEq

structure ThinkingContent where
  thinking : String
  thinkingSignature : Option String := none
  redacted : Option Bool := none
  deriving DecidableEq

structure ImageContent where
  data : String
  mimeType : String
  deriving DecidableEq

structure ToolCall where
  id : String
  name : String
  arguments : Json
  thoughtSignature : Option String := none
  deriving DecidableEq

/-- `TextContent | ImageContent`. -/
inductive UserBlock where
  | text (c : TextContent)
  | image (c : ImageContent)
  deriving DecidableEq

/-- `TextContent | ThinkingContent | ToolCall`. -/
inductive AssistantBlock where
  | text (c : TextContent)
  | thinking (c : ThinkingContent)
  | toolCall (c : ToolCall)
  deriving DecidableEq

/-- `string | (TextContent | ImageContent)[]`. -/
inductive MessageContent where
  | string (s : String)
  | blocks (bs : List UserBlock)
  deriving DecidableEq

structure UsageCost where
  input : NumLit
  output : NumLit
  cacheRead : NumLit
  cacheWrite : NumLit
  total : NumLit
  deriving DecidableEq

structure Usage where
  input : ℕ
  output : ℕ
  cacheRead : ℕ
  cacheWrite : ℕ
  totalTokens : ℕ
  cost : UsageCost
  deriving DecidableEq

/-- No usage, for examples. -/
def plainUsage : Usage :=
  let zero := NumLit.ofNat 0
  { input := 0, output := 0, cacheRead := 0, cacheWrite := 0, totalTokens := 0,
    cost := ⟨zero, zero, zero, zero, zero⟩ }

inductive StopReason where
  | stop | length | toolUse | error | aborted
  deriving DecidableEq, Repr

structure UserMessage where
  content : MessageContent
  timestamp : ℕ
  deriving DecidableEq

structure AssistantMessage where
  content : List AssistantBlock
  api : String
  provider : String
  model : String
  responseModel : Option String := none
  responseId : Option String := none
  diagnostics : Option Json := none
  usage : Usage
  stopReason : StopReason
  stopReasonRaw : Option String := none
  errorMessage : Option String := none
  timestamp : ℕ
  deriving DecidableEq

structure ToolResultMessage where
  toolCallId : String
  toolName : String
  content : List UserBlock
  details : Option Json := none
  isError : Bool
  timestamp : ℕ
  deriving DecidableEq

/-- The tool call of a block, if it is one: `content.filter((c) => c.type === "toolCall")` is
`content.filterMap AssistantBlock.toolCall?`. -/
def AssistantBlock.toolCall? : AssistantBlock → Option ToolCall
  | .toolCall c => some c
  | _ => none

def AssistantMessage.toolCalls (m : AssistantMessage) : List ToolCall :=
  m.content.filterMap AssistantBlock.toolCall?

/-! ## JSON forms -/

open Json

instance : JsonCodec TextContent where
  toJson c := .obj ([("type", .str "text"), ("text", toJson c.text)] ++
    opt "textSignature" c.textSignature)
  ofJson j := do
    let text ← j.field "text"
    let textSignature ← j.optField "textSignature"
    some { text, textSignature }
  ofJson_toJson c := by simp [field, optField]

instance : JsonCodec ThinkingContent where
  toJson c := .obj ([("type", .str "thinking"), ("thinking", toJson c.thinking)] ++
    opt "thinkingSignature" c.thinkingSignature ++ opt "redacted" c.redacted)
  ofJson j := do
    let thinking ← j.field "thinking"
    let thinkingSignature ← j.optField "thinkingSignature"
    let redacted ← j.optField "redacted"
    some { thinking, thinkingSignature, redacted }
  ofJson_toJson c := by simp [field, optField]

instance : JsonCodec ImageContent where
  toJson c := .obj [("type", .str "image"), ("data", toJson c.data),
    ("mimeType", toJson c.mimeType)]
  ofJson j := do
    let data ← j.field "data"
    let mimeType ← j.field "mimeType"
    some { data, mimeType }
  ofJson_toJson c := by simp [field]

instance : JsonCodec ToolCall where
  toJson c := .obj ([("type", .str "toolCall"), ("id", toJson c.id), ("name", toJson c.name),
    ("arguments", toJson c.arguments)] ++ opt "thoughtSignature" c.thoughtSignature)
  ofJson j := do
    let id ← j.field "id"
    let name ← j.field "name"
    let arguments ← j.field "arguments"
    let thoughtSignature ← j.optField "thoughtSignature"
    some { id, name, arguments, thoughtSignature }
  ofJson_toJson c := by simp [field, optField]

/-- The `type` that tells the members of a union apart. -/
def typeOf (j : Json) : Option String := j.field "type"

@[simp] lemma typeOf_text (c : TextContent) : typeOf (toJson c) = some "text" := by
  simp [typeOf, toJson, field, ofJson]

@[simp] lemma typeOf_thinking (c : ThinkingContent) : typeOf (toJson c) = some "thinking" := by
  simp [typeOf, toJson, field, ofJson]

@[simp] lemma typeOf_image (c : ImageContent) : typeOf (toJson c) = some "image" := by
  simp [typeOf, toJson, field, ofJson]

@[simp] lemma typeOf_toolCall (c : ToolCall) : typeOf (toJson c) = some "toolCall" := by
  simp [typeOf, toJson, field, ofJson]

instance : JsonCodec UserBlock where
  toJson
    | .text c => toJson c
    | .image c => toJson c
  ofJson j :=
    match typeOf j with
    | some "text" => (ofJson j).map .text
    | some "image" => (ofJson j).map .image
    | _ => none
  ofJson_toJson b := by cases b <;> simp

instance : JsonCodec AssistantBlock where
  toJson
    | .text c => toJson c
    | .thinking c => toJson c
    | .toolCall c => toJson c
  ofJson j :=
    match typeOf j with
    | some "text" => (ofJson j).map .text
    | some "thinking" => (ofJson j).map .thinking
    | some "toolCall" => (ofJson j).map .toolCall
    | _ => none
  ofJson_toJson b := by cases b <;> simp

instance : JsonCodec MessageContent where
  toJson
    | .string s => .str s
    | .blocks bs => toJson bs
  ofJson
    | .str s => some (.string s)
    | j => (ofJson j).map .blocks
  ofJson_toJson c := by
    cases c with
    | string s => rfl
    | blocks bs =>
      have h : (ofJson (toJson bs) : Option (List UserBlock)) = some bs := by simp
      simpa [toJson] using h

instance : JsonCodec UsageCost where
  toJson c := .obj [("input", toJson c.input), ("output", toJson c.output),
    ("cacheRead", toJson c.cacheRead), ("cacheWrite", toJson c.cacheWrite),
    ("total", toJson c.total)]
  ofJson j := do
    let input ← j.field "input"
    let output ← j.field "output"
    let cacheRead ← j.field "cacheRead"
    let cacheWrite ← j.field "cacheWrite"
    let total ← j.field "total"
    some { input, output, cacheRead, cacheWrite, total }
  ofJson_toJson c := by simp [field]

instance : JsonCodec Usage where
  toJson u := .obj [("input", toJson u.input), ("output", toJson u.output),
    ("cacheRead", toJson u.cacheRead), ("cacheWrite", toJson u.cacheWrite),
    ("totalTokens", toJson u.totalTokens), ("cost", toJson u.cost)]
  ofJson j := do
    let input ← j.field "input"
    let output ← j.field "output"
    let cacheRead ← j.field "cacheRead"
    let cacheWrite ← j.field "cacheWrite"
    let totalTokens ← j.field "totalTokens"
    let cost ← j.field "cost"
    some { input, output, cacheRead, cacheWrite, totalTokens, cost }
  ofJson_toJson u := by simp [field]

instance : JsonCodec StopReason where
  toJson
    | .stop => .str "stop"
    | .length => .str "length"
    | .toolUse => .str "toolUse"
    | .error => .str "error"
    | .aborted => .str "aborted"
  ofJson
    | .str "stop" => some .stop
    | .str "length" => some .length
    | .str "toolUse" => some .toolUse
    | .str "error" => some .error
    | .str "aborted" => some .aborted
    | _ => none
  ofJson_toJson r := by cases r <;> rfl

instance : JsonCodec UserMessage where
  toJson m := .obj [("role", .str "user"), ("content", toJson m.content),
    ("timestamp", toJson m.timestamp)]
  ofJson j := do
    let content ← j.field "content"
    let timestamp ← j.field "timestamp"
    some { content, timestamp }
  ofJson_toJson m := by simp [field]

instance : JsonCodec AssistantMessage where
  toJson m := .obj ([("role", .str "assistant"), ("content", toJson m.content),
    ("api", toJson m.api), ("provider", toJson m.provider), ("model", toJson m.model)] ++
    opt "responseModel" m.responseModel ++ opt "responseId" m.responseId ++
    opt "diagnostics" m.diagnostics ++ [("usage", toJson m.usage),
    ("stopReason", toJson m.stopReason)] ++ opt "stopReasonRaw" m.stopReasonRaw ++
    opt "errorMessage" m.errorMessage ++ [("timestamp", toJson m.timestamp)])
  ofJson j := do
    let content ← j.field "content"
    let api ← j.field "api"
    let provider ← j.field "provider"
    let model ← j.field "model"
    let responseModel ← j.optField "responseModel"
    let responseId ← j.optField "responseId"
    let diagnostics ← j.optField "diagnostics"
    let usage ← j.field "usage"
    let stopReason ← j.field "stopReason"
    let stopReasonRaw ← j.optField "stopReasonRaw"
    let errorMessage ← j.optField "errorMessage"
    let timestamp ← j.field "timestamp"
    some { content, api, provider, model, responseModel, responseId, diagnostics, usage,
           stopReason, stopReasonRaw, errorMessage, timestamp }
  ofJson_toJson m := by simp [field, optField]

instance : JsonCodec ToolResultMessage where
  toJson m := .obj ([("role", .str "toolResult"), ("toolCallId", toJson m.toolCallId),
    ("toolName", toJson m.toolName), ("content", toJson m.content)] ++
    opt "details" m.details ++ [("isError", toJson m.isError), ("timestamp", toJson m.timestamp)])
  ofJson j := do
    let toolCallId ← j.field "toolCallId"
    let toolName ← j.field "toolName"
    let content ← j.field "content"
    let details ← j.optField "details"
    let isError ← j.field "isError"
    let timestamp ← j.field "timestamp"
    some { toolCallId, toolName, content, details, isError, timestamp }
  ofJson_toJson m := by simp [field, optField]

/-- The `role` that tells messages apart. -/
def roleOf (j : Json) : Option String := j.field "role"

@[simp] lemma roleOf_user (m : UserMessage) : roleOf (toJson m) = some "user" := by
  simp [roleOf, toJson, field, ofJson]

@[simp] lemma roleOf_assistant (m : AssistantMessage) : roleOf (toJson m) = some "assistant" := by
  simp [roleOf, toJson, field, ofJson]

@[simp] lemma roleOf_toolResult (m : ToolResultMessage) :
    roleOf (toJson m) = some "toolResult" := by
  simp [roleOf, toJson, field, ofJson]

end Amide
