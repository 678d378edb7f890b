import Amide.Construction.Session.Context

/-!
# Context compaction

The pure half of `core/compaction/compaction.ts`: token estimates, the search for a cut point and
`prepareCompaction`.

Indices are natural numbers; the `-1` of `findTurnStartIndex` and of `prevCompactionIndex` is
`none`.  A `for` loop that runs downwards is a recursion on its index.  `keepRecentTokens` is only
compared with a natural number from below, so a natural number (its ceiling) stands for it.
-/

namespace Amide

/-! ## Token estimates -/

/-- `length` of a string: its UTF-16 code units, counted on the UTF-8 bytes. -/
def utf16Length (bytes : List UInt8) : ℕ :=
  (bytes.map fun b => if 128 ≤ b && b < 192 then 0 else if 240 ≤ b then 2 else 1).sum

def stringLength (s : String) : ℕ := utf16Length (Json.utf8 s)

def UserBlock.textChars : UserBlock → ℕ
  | .text c => stringLength c.text
  | .image _ => 0

def UserBlock.chars : UserBlock → ℕ
  | .text c => stringLength c.text
  | .image _ => 4800

def AssistantBlock.chars : AssistantBlock → ℕ
  | .text c => stringLength c.text
  | .thinking c => stringLength c.thinking
  | .toolCall c => stringLength c.name + utf16Length c.arguments.stringify

/-- The characters `estimateTokens` counts in a message. -/
def AgentMessage.chars : AgentMessage → ℕ
  | .user m =>
      match m.content with
      | .string s => stringLength s
      | .blocks bs => (bs.map UserBlock.textChars).sum
  | .assistant m => (m.content.map AssistantBlock.chars).sum
  | .toolResult m => (m.content.map UserBlock.chars).sum
  | .custom m =>
      match m.content with
      | .string s => stringLength s
      | .blocks bs => (bs.map UserBlock.chars).sum
  | .bashExecution m => stringLength m.command + stringLength m.output
  | .branchSummary m => stringLength m.summary
  | .compactionSummary m => stringLength m.summary
  | .hookMessage _ => 0

def estimateTokens (message : AgentMessage) : ℕ := (message.chars + 3) / 4

def calculateContextTokens (usage : Usage) : ℕ :=
  if usage.totalTokens ≠ 0 then usage.totalTokens
  else usage.input + usage.output + usage.cacheRead + usage.cacheWrite

def getAssistantUsage : AgentMessage → Option Usage
  | .assistant m =>
      if m.stopReason ≠ .aborted ∧ m.stopReason ≠ .error then some m.usage else none
  | _ => none

structure ContextUsageEstimate where
  tokens : ℕ
  usageTokens : ℕ
  trailingTokens : ℕ
  lastUsageIndex : Option ℕ

/-- The usage of the last message that has one, and its index, among the first `n` messages. -/
def getLastAssistantUsageInfo (messages : List AgentMessage) : ℕ → Option (Usage × ℕ)
  | 0 => none
  | i + 1 =>
    match messages[i]?.bind getAssistantUsage with
    | some usage => some (usage, i)
    | none => getLastAssistantUsageInfo messages i

def estimateContextTokens (messages : List AgentMessage) : ContextUsageEstimate :=
  match getLastAssistantUsageInfo messages messages.length with
  | none =>
      let estimated := (messages.map estimateTokens).sum
      ⟨estimated, 0, estimated, none⟩
  | some (usage, index) =>
      let usageTokens := calculateContextTokens usage
      let trailingTokens := ((messages.drop (index + 1)).map estimateTokens).sum
      ⟨usageTokens + trailingTokens, usageTokens, trailingTokens, some index⟩

/-! ## The cut point -/

/-- A message a compaction may cut in front of; tool results and unknown roles are not. -/
def AgentMessage.isCutPoint : AgentMessage → Bool
  | .toolResult _ | .hookMessage _ => false
  | _ => true

namespace SessionEntry

def message? (e : SessionEntry) : Option AgentMessage :=
  match e.body with
  | .message m => some m
  | _ => none

/-- Branch summaries and custom messages are user-role turn boundaries. -/
def isTurnBoundary (e : SessionEntry) : Bool :=
  match e.body with
  | .branchSummary _ | .customMessage _ => true
  | _ => false

def isCutPoint (e : SessionEntry) : Bool :=
  match e.body with
  | .message m => m.isCutPoint
  | _ => e.isTurnBoundary

def isTurnStart (e : SessionEntry) : Bool :=
  match e.body with
  | .message m => m.isUser || m.isBashExecution
  | _ => e.isTurnBoundary

end SessionEntry

def findValidCutPoints (entries : List SessionEntry) (startIndex endIndex : ℕ) : List ℕ :=
  (List.range' startIndex (endIndex - startIndex)).filter fun i =>
    entries[i]?.any SessionEntry.isCutPoint

/-- The loop of `findTurnStartIndex` over the indices below the given one. -/
def turnStartBelow (entries : List SessionEntry) (startIndex : ℕ) : ℕ → Option ℕ
  | 0 => none
  | i + 1 =>
    if i < startIndex then none
    else if entries[i]?.any SessionEntry.isTurnStart then some i
    else turnStartBelow entries startIndex i

def findTurnStartIndex (entries : List SessionEntry) (entryIndex startIndex : ℕ) : Option ℕ :=
  turnStartBelow entries startIndex (entryIndex + 1)

structure CutPointResult where
  firstKeptEntryIndex : ℕ
  turnStartIndex : Option ℕ
  isSplitTurn : Bool
  deriving Repr

/-- Where the estimates of the messages, summed from the end, reach `keepRecentTokens`. -/
def budgetIndex (entries : List SessionEntry) (startIndex keepRecentTokens : ℕ) : ℕ → ℕ → Option ℕ
  | 0, _ => none
  | i + 1, accumulatedTokens =>
    if i < startIndex then none
    else
      match entries[i]?.bind SessionEntry.message? with
      | none => budgetIndex entries startIndex keepRecentTokens i accumulatedTokens
      | some message =>
        let accumulatedTokens := accumulatedTokens + estimateTokens message
        if keepRecentTokens ≤ accumulatedTokens then some i
        else budgetIndex entries startIndex keepRecentTokens i accumulatedTokens

/-- The first cut point at or behind the budget index, and the first of all where there is none. -/
def chooseCut (firstCut : ℕ) (cuts : List ℕ) : Option ℕ → ℕ
  | none => firstCut
  | some i => ((firstCut :: cuts).find? (i ≤ ·)).getD firstCut

/-- The last loop of `findCutPoint`: back over bookkeeping entries. -/
def slideBack (entries : List SessionEntry) (startIndex : ℕ) : ℕ → ℕ
  | 0 => 0
  | i + 1 =>
    if i < startIndex then i + 1
    else if entries[i]?.any fun e => e.isCompaction || e.message?.isSome then i + 1
    else slideBack entries startIndex i

def findCutPoint (entries : List SessionEntry) (startIndex endIndex keepRecentTokens : ℕ) :
    CutPointResult :=
  match findValidCutPoints entries startIndex endIndex with
  | [] => ⟨startIndex, none, false⟩
  | firstCut :: cuts =>
    let cutIndex :=
      chooseCut firstCut cuts (budgetIndex entries startIndex keepRecentTokens endIndex 0)
    let cutIndex := slideBack entries startIndex cutIndex
    let isUserMessage := (entries[cutIndex]?.bind SessionEntry.message?).any AgentMessage.isUser
    let turnStartIndex :=
      if isUserMessage then none else findTurnStartIndex entries cutIndex startIndex
    ⟨cutIndex, turnStartIndex, !isUserMessage && turnStartIndex.isSome⟩

/-! ## File operations -/

/-- Three sets of paths, each in the order of insertion. -/
structure FileOperations where
  read : List String := []
  written : List String := []
  edited : List String := []
  deriving Repr

def addPath (paths : List String) (path : String) : List String :=
  if path ∈ paths then paths else paths ++ [path]

/-- What one tool call adds to the file operations. -/
def FileOperations.addCall (fileOps : FileOperations) (call : ToolCall) : FileOperations :=
  match call.arguments.get? "path" with
  | some (.str path) =>
      if path ≠ "" ∧ call.name = "edit" then
        { fileOps with edited := addPath fileOps.edited path }
      else fileOps
  | _ => fileOps

def extractFileOpsFromMessage (fileOps : FileOperations) : AgentMessage → FileOperations
  | .assistant m => m.toolCalls.foldl FileOperations.addCall fileOps
  | _ => fileOps

/-- The strings of an array member, if the member is an array. -/
def stringsAt (details : Json) (key : String) : List String :=
  match details.get? key with
  | some (.arr elems) => elems.filterMap fun j => (ofJson j : Option String)
  | _ => []

def extractFileOperations (messages : List AgentMessage)
    (prevCompaction : Option CompactionFields) :
    FileOperations :=
  let inherited : FileOperations :=
    match prevCompaction with
    | some ⟨_, _, _, _, some details, fromHook, _, _⟩ =>
        if fromHook = some true then {}
        else { read := (stringsAt details "readFiles").foldl addPath [],
               edited := (stringsAt details "modifiedFiles").foldl addPath [] }
    | _ => {}
  messages.foldl extractFileOpsFromMessage inherited

/-! ## Preparing a compaction -/

def getMessageFromEntry (e : SessionEntry) : Option AgentMessage :=
  match e.body with
  | .message m => some m
  | .customMessage m =>
      some (createCustomMessage m.customType m.content m.display m.details e.timestamp)
  | .branchSummary b => some (createBranchSummaryMessage b.summary b.fromId e.timestamp)
  | .compaction c =>
      some (createCompactionSummaryMessage c.summary c.tokensBefore e.timestamp
        c.customInstructions none)
  | _ => none

def getMessageFromEntryForCompaction (e : SessionEntry) : Option AgentMessage :=
  if e.isCompaction then none else getMessageFromEntry e

structure CompactionSettings where
  enabled : Bool
  reserveTokens : ℕ
  keepRecentTokens : ℕ
  deriving Repr

structure CompactionPreparation where
  firstKeptEntryId : String
  messagesToSummarize : List AgentMessage
  turnPrefixMessages : List AgentMessage
  isSplitTurn : Bool
  tokensBefore : ℕ
  previousSummary : Option String
  fileOps : FileOperations
  settings : CompactionSettings

/-- The last compaction of a path and its index, among the first `n` entries. -/
def lastCompaction (pathEntries : List SessionEntry) : ℕ → Option (ℕ × CompactionFields)
  | 0 => none
  | i + 1 =>
    match pathEntries[i]?.bind SessionEntry.compaction? with
    | some c => some (i, c)
    | none => lastCompaction pathEntries i

/-- Where the part of a path begins that its last compaction did not summarize. -/
def boundaryStart (pathEntries : List SessionEntry) : Option (ℕ × CompactionFields) → ℕ
  | none => 0
  | some (prevCompactionIndex, prevCompaction) =>
      (pathEntries.findIdx? fun e => e.id = prevCompaction.firstKeptEntryId).getD
        (prevCompactionIndex + 1)

/-- The messages of the entries from index `i` to before index `j`. -/
def messagesBetween (pathEntries : List SessionEntry) (i j : ℕ) : List AgentMessage :=
  ((pathEntries.take j).drop i).filterMap getMessageFromEntryForCompaction

/-- `none` where the source returns `undefined`, and where the walk of `buildSessionContext` over
the entries does not end. -/
def prepareCompaction (pathEntries : List SessionEntry) (settings : CompactionSettings) :
    Option CompactionPreparation :=
  if pathEntries.getLast?.any SessionEntry.isCompaction then none
  else do
    let prev := lastCompaction pathEntries pathEntries.length
    let previousSummary := prev.map fun p => p.2.summary
    let boundaryStart := boundaryStart pathEntries prev
    let context ← buildSessionContextOf pathEntries
    let tokensBefore := (estimateContextTokens context.messages).tokens
    let cutPoint :=
      findCutPoint pathEntries boundaryStart pathEntries.length settings.keepRecentTokens
    let firstKeptEntry ← pathEntries[cutPoint.firstKeptEntryIndex]?
    if firstKeptEntry.id = "" then none
    else
      let historyEnd :=
        if cutPoint.isSplitTurn then cutPoint.turnStartIndex.getD 0
        else cutPoint.firstKeptEntryIndex
      let messagesToSummarize := messagesBetween pathEntries boundaryStart historyEnd
      let turnPrefixMessages :=
        if cutPoint.isSplitTurn then
          messagesBetween pathEntries historyEnd cutPoint.firstKeptEntryIndex
        else []
      if messagesToSummarize = [] ∧ turnPrefixMessages = [] ∧ previousSummary.getD "" = "" then none
      else
        let fileOps := extractFileOperations messagesToSummarize (prev.map Prod.snd)
        let fileOps := turnPrefixMessages.foldl extractFileOpsFromMessage fileOps
        some { firstKeptEntryId := firstKeptEntry.id, messagesToSummarize, turnPrefixMessages,
               isSplitTurn := cutPoint.isSplitTurn, tokensBefore, previousSummary, fileOps,
               settings }

/-- What a preparation is made of. -/
lemma prepareCompaction_cases {pathEntries : List SessionEntry} {settings : CompactionSettings}
    {p : CompactionPreparation} (h : prepareCompaction pathEntries settings = some p) :
    let prev := lastCompaction pathEntries pathEntries.length
    let start := boundaryStart pathEntries prev
    let cut := findCutPoint pathEntries start pathEntries.length settings.keepRecentTokens
    (∃ kept, pathEntries[cut.firstKeptEntryIndex]? = some kept ∧ p.firstKeptEntryId = kept.id) ∧
      p.messagesToSummarize = messagesBetween pathEntries start
        (if cut.isSplitTurn then cut.turnStartIndex.getD 0 else cut.firstKeptEntryIndex) ∧
      p.turnPrefixMessages = (if cut.isSplitTurn then messagesBetween pathEntries
        (cut.turnStartIndex.getD 0) cut.firstKeptEntryIndex else []) ∧
      p.previousSummary = (prev.map fun p => p.2.summary) ∧
      p.fileOps = p.turnPrefixMessages.foldl extractFileOpsFromMessage
        (extractFileOperations p.messagesToSummarize (prev.map Prod.snd)) := by
  unfold prepareCompaction at h
  split_ifs at h
  simp only [bind, Option.bind_eq_some_iff] at h
  obtain ⟨context, -, kept, hkept, h⟩ := h
  split_ifs at h with _ hsplit
  all_goals
    cases h
    exact ⟨⟨kept, hkept, rfl⟩, by simp [hsplit], by simp [hsplit], rfl, rfl⟩

end Amide
