import Amide.Construction.Ai.Types

/-!
# Anthropic streams (`providers/anthropic.ts`)

The event loop of `streamAnthropic` puts the content of the message together.  The blocks of the
server have indices, which a block keeps in a scratch field as long as it is streamed.

Usage, the stop reason and the identity of the response are left out; `other` stands for the events
that bear them.
-/

namespace Amide

/-- `content_block` of a start event. -/
inductive ContentBlockStart where
  | text
  | thinking
  | redactedThinking (data : String)
  | toolUse (id name : String) (input : Option Json)
  | other
  deriving DecidableEq

/-- `delta` of a delta event. -/
inductive ContentBlockDelta where
  | text (text : String)
  | thinking (thinking : String)
  | inputJson (partialJson : String)
  | signature (signature : String)
  | other

inductive AnthropicEvent where
  | start (index : ℕ) (contentBlock : ContentBlockStart)
  | delta (index : ℕ) (delta : ContentBlockDelta)
  | stop (index : ℕ)
  | other

/-- A block with the fields that it has while it is streamed. -/
structure StreamBlock where
  block : AssistantBlock
  index : Option ℕ
  partialJson : Option String := none

/-- What an event of the message's stream says of a block. -/
inductive BlockEvent where
  | textStart
  | thinkingStart
  | toolcallStart
  | textDelta (delta : String)
  | thinkingDelta (delta : String)
  | toolcallDelta (delta : String)
  | textEnd (content : String)
  | thinkingEnd (content : String)
  | toolcallEnd (toolCall : ToolCall)

/-- `parse` is what is done with a text that is not blank: `parseJsonWithRepair`, and `partialParse`
where it throws. -/
def parseStreamingJson (parse : String → Json) (partialJson : String) : Json :=
  if trim partialJson = "" then .obj [] else parse partialJson

section
variable (parse : String → Json)

/-- `toolName` is `fromClaudeCodeName` with the tools of the context, or the identity. -/
def startedBlock (toolName : String → String) (index : ℕ) :
    ContentBlockStart → Option (StreamBlock × BlockEvent)
  | .text => some ({ block := .text { text := "" }, index := some index }, .textStart)
  | .thinking =>
    some ({ block := .thinking { thinking := "", thinkingSignature := some "" }
            index := some index }, .thinkingStart)
  | .redactedThinking data =>
    some ({ block := .thinking { thinking := "[Reasoning redacted]", thinkingSignature := some data,
                                 redacted := some true }
            index := some index }, .thinkingStart)
  | .toolUse id name input =>
    some ({ block := .toolCall { id, name := toolName name, arguments := input.getD (.obj []) }
            index := some index
            partialJson := some "" }, .toolcallStart)
  | .other => none

/-- A delta of another kind than the block changes nothing. -/
def StreamBlock.addDelta (b : StreamBlock) (delta : ContentBlockDelta) :
    StreamBlock × Option BlockEvent :=
  match delta, b.block with
  | .text text, .text c =>
    ({ b with block := .text { c with text := c.text ++ text } }, some (.textDelta text))
  | .thinking thinking, .thinking c =>
    ({ b with block := .thinking { c with thinking := c.thinking ++ thinking } },
      some (.thinkingDelta thinking))
  | .inputJson partialJson, .toolCall c =>
    let buffer := b.partialJson.getD "" ++ partialJson
    ({ b with
        block := .toolCall { c with arguments := parseStreamingJson parse buffer }
        partialJson := some buffer }, some (.toolcallDelta partialJson))
  | .signature signature, .thinking c =>
    ({ b with block := .thinking { c with
        thinkingSignature := some (c.thinkingSignature.getD "" ++ signature) } }, none)
  | _, _ => (b, none)

def StreamBlock.finish (b : StreamBlock) : StreamBlock × BlockEvent :=
  match b.block with
  | .text c => ({ b with index := none }, .textEnd c.text)
  | .thinking c => ({ b with index := none }, .thinkingEnd c.thinking)
  | .toolCall c =>
    let c := { c with arguments := parseStreamingJson parse (b.partialJson.getD "") }
    ({ block := .toolCall c, index := none }, .toolcallEnd c)

/-- The blocks behind an event, and what is emitted with which `contentIndex`. -/
def handleAnthropicEvent (toolName : String → String) (blocks : List StreamBlock) :
    AnthropicEvent → List StreamBlock × Option (ℕ × BlockEvent)
  | .start index contentBlock =>
    match startedBlock toolName index contentBlock with
    | some (block, event) => (blocks ++ [block], some (blocks.length, event))
    | none => (blocks, none)
  | .delta index delta =>
    match blocks.findIdx? fun b => b.index = some index with
    | some i =>
      (blocks.modify i fun b => (b.addDelta parse delta).1,
        blocks[i]?.bind fun b => (b.addDelta parse delta).2.map (i, ·))
    | none => (blocks, none)
  | .stop index =>
    match blocks.findIdx? fun b => b.index = some index with
    | some i =>
      (blocks.modify i fun b => (b.finish parse).1, blocks[i]?.map fun b => (i, (b.finish parse).2))
    | none => (blocks, none)
  | .other => (blocks, none)

/-- The content of the message behind some events. -/
def streamedBlocks (toolName : String → String) (events : List AnthropicEvent) : List StreamBlock :=
  events.foldl (fun blocks event => (handleAnthropicEvent parse toolName blocks event).1) []

end

/-- What becomes of the blocks when the stream fails. -/
def failedBlocks (blocks : List StreamBlock) : List StreamBlock :=
  blocks.map fun b => { b with index := none, partialJson := none }

end Amide
