import Amide.Construction.Compaction.Compaction

/-!
# The summaries of a compaction

The half of `core/compaction/compaction.ts` that asks a model: `compact` makes one or two requests
and puts their answers together.  A request is what the source passes to `completeSimple`; the model
that answers it, and the text a conversation is written out as (`serializeConversation` of
`convertToLlm`), are arguments.  The result is given with the calls made for it, in their order.
-/

namespace Amide

/-! ## Prompts -/

def summarizationSystemPrompt : String :=
  "You are a context summarization assistant. Your task is to read a conversation between a user and an AI coding assistant, then produce a structured summary following the exact format specified.

Do NOT continue the conversation. Do NOT respond to any questions in the conversation. ONLY output the structured summary."

def summarizationPrompt : String :=
  "The messages above are a conversation to summarize. Create a structured context checkpoint summary that another LLM will use to continue the work.

Use this EXACT format:

## Goal
[What is the user trying to accomplish? Can be multiple items if the session covers different tasks.]

## Constraints & Preferences
- [Any constraints, preferences, or requirements mentioned by user]
- [Or \"(none)\" if none were mentioned]

## Progress
### Done
- [x] [Completed tasks/changes]

### In Progress
- [ ] [Current work]

### Blocked
- [Issues preventing progress, if any]

## Key Decisions
- **[Decision]**: [Brief rationale]

## Next Steps
1. [Ordered list of what should happen next]

## Critical Context
- [Any data, examples, or references needed to continue]
- [Or \"(none)\" if not applicable]

Keep each section concise. Preserve exact file paths, function names, and error messages."

def kernelPersistSummaryNote : String :=
  "Note: the Python kernel keeps running after this summary — every Python variable, import, and helper you defined stays available. The cells that defined them won't appear above, so record in the summary any names worth remembering so you reuse them instead of redefining them."

def updateSummarizationPrompt : String :=
  "The messages above are NEW conversation messages to incorporate into the existing summary provided in <previous-summary> tags.

Update the existing structured summary with new information. RULES:
- PRESERVE all existing information from the previous summary
- ADD new progress, decisions, and context from the new messages
- UPDATE the Progress section: move items from \"In Progress\" to \"Done\" when completed
- UPDATE \"Next Steps\" based on what was accomplished
- PRESERVE exact file paths, function names, and error messages
- If something is no longer relevant, you may remove it

Use this EXACT format:

## Goal
[Preserve existing goals, add new ones if the task expanded]

## Constraints & Preferences
- [Preserve existing, add new ones discovered]

## Progress
### Done
- [x] [Include previously done items AND newly completed items]

### In Progress
- [ ] [Current work - update based on progress]

### Blocked
- [Current blockers - remove if resolved]

## Key Decisions
- **[Decision]**: [Brief rationale] (preserve all previous, add new)

## Next Steps
1. [Update based on current state]

## Critical Context
- [Preserve important context, add new if needed]

Keep each section concise. Preserve exact file paths, function names, and error messages."

def turnPrefixSummarizationPrompt : String :=
  "This is the PREFIX of a turn that was too large to keep. The SUFFIX (recent work) is retained.

Summarize the prefix to provide context for the retained suffix:

## Original Request
[What did the user ask for in this turn?]

## Early Progress
- [Key decisions and work done in the prefix]

## Context for Suffix
- [Information needed to understand the retained recent work]

Be concise. Focus on what's needed to understand the kept suffix."

def buildSummarizationPrompt (customInstructions previousSummary : Option String) : String :=
  let basePrompt :=
    if previousSummary.getD "" ≠ "" then updateSummarizationPrompt else summarizationPrompt
  let instructions :=
    match customInstructions with
    | none | some "" => ""
    | some text => "\n\n<user-instructions>\nThe user provided these instructions for this summary. Follow them with high priority while keeping the section format above: emphasize what they ask to focus on, and preserve verbatim anything they ask to remember.\n"
        ++ text ++ "\n</user-instructions>"
  basePrompt ++ instructions ++ "\n\n" ++ kernelPersistSummaryNote

/-- How an earlier summary stands in a prompt. -/
def previousSummaryBlock (previousSummary : String) : String :=
  "<previous-summary>\n" ++ previousSummary ++ "\n</previous-summary>\n\n"

/-! ## Requests -/

/-- A call of `generateSummary` or `generateTurnPrefixSummary`. -/
inductive SummaryCall where
  | history (messages : List AgentMessage) (customInstructions previousSummary : Option String)
  | turnPrefix (messages : List AgentMessage)

structure SummaryRequest where
  systemPrompt : String
  promptText : String
  maxTokens : ℕ

structure SummaryResponse where
  content : List AssistantBlock
  stopReason : StopReason
  errorMessage : Option String := none
  usage : Usage

structure SummarySlice where
  summary : String
  usage : Option Usage := none

/-- The text of a response: its text blocks, one a line. -/
def SummaryResponse.text (r : SummaryResponse) : String :=
  "\n".intercalate (r.content.filterMap fun
    | .text c => some c.text
    | _ => none)

/-- The request of a call; `conversationText` writes messages out. -/
def SummaryCall.request (conversationText : List AgentMessage → String) (reserveTokens : ℕ) :
    SummaryCall → SummaryRequest
  | history messages customInstructions previousSummary =>
      { systemPrompt := summarizationSystemPrompt
        promptText := "<conversation>\n" ++ conversationText messages ++ "\n</conversation>\n\n" ++
          (match previousSummary with
            | none | some "" => ""
            | some summary => previousSummaryBlock summary) ++
          buildSummarizationPrompt customInstructions previousSummary
        maxTokens := 8 * reserveTokens / 10 }
  | turnPrefix messages =>
      { systemPrompt := summarizationSystemPrompt
        promptText := "<conversation>\n" ++ conversationText messages ++ "\n</conversation>\n\n" ++
          turnPrefixSummarizationPrompt
        maxTokens := reserveTokens / 2 }

/-- What a failed call is reported as. -/
def SummaryCall.failure : SummaryCall → String
  | history .. => "Summarization failed: "
  | turnPrefix _ => "Turn prefix summarization failed: "

/-- What the source gets from outside: the model's answers and the text of a conversation. -/
structure SummaryEnv where
  completeSimple : SummaryRequest → SummaryResponse
  conversationText : List AgentMessage → String

/-- `generateSummary` and `generateTurnPrefixSummary`. -/
def SummaryCall.run (env : SummaryEnv) (reserveTokens : ℕ) (call : SummaryCall) :
    Except String SummarySlice :=
  let response := env.completeSimple (call.request env.conversationText reserveTokens)
  if response.stopReason = .error then
    .error (call.failure ++ (match response.errorMessage with
      | none | some "" => "Unknown error"
      | some message => message))
  else .ok { summary := response.text, usage := some response.usage }

/-! ## File lists -/

/-- The UTF-16 code units of a string, which JavaScript compares strings by. -/
def utf16Units (s : String) : List ℕ :=
  s.toList.flatMap fun c =>
    if c.toNat < 0x10000 then [c.toNat]
    else [0xD800 + (c.toNat - 0x10000) / 0x400, 0xDC00 + (c.toNat - 0x10000) % 0x400]

/-- `sort()`. -/
def sortStrings (ss : List String) : List String :=
  ss.mergeSort fun a b => decide (utf16Units a ≤ utf16Units b)

structure FileLists where
  readFiles : List String
  modifiedFiles : List String
  deriving DecidableEq

def computeFileLists (fileOps : FileOperations) : FileLists :=
  let modified := fileOps.written.foldl addPath fileOps.edited
  { readFiles := sortStrings (fileOps.read.filter fun f => !modified.contains f)
    modifiedFiles := sortStrings modified }

def formatFileOperations (files : FileLists) : String :=
  let section_ (tag : String) (paths : List String) : List String :=
    if paths = [] then []
    else ["<" ++ tag ++ ">\n" ++ "\n".intercalate paths ++ "\n</" ++ tag ++ ">"]
  match section_ "read-files" files.readFiles ++ section_ "modified-files" files.modifiedFiles with
  | [] => ""
  | sections => "\n\n" ++ "\n\n".intercalate sections

/-! ## Compaction -/

/-- `usages` are the usages whose sum is the usage of the result. -/
structure CompactionResult where
  summary : String
  firstKeptEntryId : String
  tokensBefore : ℕ
  details : FileLists
  usages : List Usage

structure CompactionRun where
  calls : List SummaryCall
  result : Except String CompactionResult

/-- The end of `compact`, behind the calls. -/
def finishCompaction (preparation : CompactionPreparation) (summary : String)
    (slices : List SummarySlice) : Except String CompactionResult :=
  let files := computeFileLists preparation.fileOps
  if preparation.firstKeptEntryId = "" then
    .error "First kept entry has no UUID - session may need migration"
  else .ok {
    summary := summary ++ formatFileOperations files
    firstKeptEntryId := preparation.firstKeptEntryId
    tokensBefore := preparation.tokensBefore
    details := files
    usages := slices.filterMap SummarySlice.usage }

def compact (env : SummaryEnv) (preparation : CompactionPreparation)
    (customInstructions : Option String) : CompactionRun :=
  let run := SummaryCall.run env preparation.settings.reserveTokens
  let history :=
    SummaryCall.history preparation.messagesToSummarize customInstructions
      preparation.previousSummary
  if preparation.isSplitTurn && preparation.turnPrefixMessages ≠ [] then
    let turnPrefix := SummaryCall.turnPrefix preparation.turnPrefixMessages
    let hasHistory := decide (preparation.messagesToSummarize ≠ [])
    { calls := (if hasHistory then [history] else []) ++ [turnPrefix]
      result := do
        let historyResult ←
          if hasHistory then run history else pure { summary := "No prior history." }
        let turnPrefixResult ← run turnPrefix
        finishCompaction preparation
          (historyResult.summary ++ "\n\n---\n\n**Turn Context (split turn):**\n\n" ++
            turnPrefixResult.summary) [historyResult, turnPrefixResult] }
  else
    { calls := [history]
      result := do
        let result ← run history
        finishCompaction preparation result.summary [result] }

end Amide
