import Amide.Framework.LocalTime
import Amide.Construction.Ai.Types

/-!
# The agent's messages

`AgentMessage` is the union `core/messages.ts` builds by declaration merging: the three messages
of `Construction/Ai/Types.lean` and four of the coding agent's own.  An eighth constructor holds
the role `hookMessage` of version 2 session files, which `migrateV2ToV3` renames to `custom`.

The three `create…Message` functions turn entries of a session into messages; they stamp the
message with `new Date(timestamp).getTime()`, which nothing here reads.
-/

namespace Amide

open Json

/-! ## Time stamps -/

/-- The number of a day of the Gregorian calendar; that of 1970-01-01 is zero. -/
def daysFromCivil (y m d : ℤ) : ℤ :=
  let y' := if m ≤ 2 then y - 1 else y
  let monthFromMarch := if m ≤ 2 then m + 9 else m - 3
  365 * y' + y' / 4 - y' / 100 + y' / 400 + (153 * monthFromMarch + 2) / 5 + d - 719469

/-- A number of `n` digits, and what follows it. -/
def takeNumber (n : ℕ) (cs : List Char) : Option (ℤ × List Char) :=
  if (cs.take n).length = n ∧ (cs.take n).all Char.isDigit then
    some ((cs.take n).foldl (fun v c => v * 10 + (c.toNat - 48)) 0, cs.drop n)
  else none

/-- The number behind a separator, or one for a part that is left out. -/
def takePart (sep : Char) (n : ℕ) (absent : ℤ) (cs : List Char) : Option (ℤ × List Char) :=
  if cs.head? = some sep then takeNumber n cs.tail else some (absent, cs)

/-- `HH:mm`, in minutes. -/
def takeMinutes (cs : List Char) : Option (ℤ × List Char) := do
  let (h, cs) ← takeNumber 2 cs
  let (m, cs) ← takePart ':' 2 60 cs
  if m < 60 then some (h * 60 + m, cs) else none

/-- `:ss.sss`, in milliseconds. -/
def takeSeconds : List Char → Option (ℤ × List Char)
  | ':' :: cs => do
    let (s, cs) ← takeNumber 2 cs
    let (ms, cs) ← takePart '.' 3 0 cs
    if s < 60 then some (s * 1000 + ms, cs) else none
  | cs => some (0, cs)

/-- The minutes by which the clock of a text is ahead. -/
def readOffset : List Char → Option ℤ
  | ['Z'] => some 0
  | sign :: cs => do
    let (minutes, rest) ← takeMinutes cs
    if rest ≠ [] ∨ 24 * 60 ≤ minutes then none
    else if sign = '+' then some minutes
    else if sign = '-' then some (-minutes)
    else none
  | [] => none

/-- The time of day, on a clock that is not ahead. -/
def readTime : List Char → Option ℤ
  | [] => some 0
  | 'T' :: cs => do
    let (minutes, cs) ← takeMinutes cs
    let (ms, cs) ← takeSeconds cs
    let ahead ← readOffset cs
    let t := minutes * LocalTime.msPerMinute + ms
    if t ≤ LocalTime.msPerDay then some (t - ahead * LocalTime.msPerMinute) else none
  | _ => none

/-- `new Date(timestamp).getTime()` of a text in the date time format of the language, with a year
of four digits and an offset.  `none` is `NaN`; texts with other years, without an offset (on the
local clock) and in a format of the engine's own also have none here. -/
def getTime (timestamp : String) : Option ℤ := do
  let (y, cs) ← takeNumber 4 timestamp.toList
  let (m, cs) ← takePart '-' 2 1 cs
  let (d, cs) ← takePart '-' 2 1 cs
  let t ← readTime cs
  let day := daysFromCivil y m d * LocalTime.msPerDay
  if LocalTime.month day = m ∧ LocalTime.date day = d then some (day + t) else none

example : getTime "2026-03-01T01:00:00+01:00" = getTime "2026-03-01" := by decide

example : getTime "2026-02-29" = none ∧ getTime "1969-12-31T24:00Z" = some 0 := by decide

/-! ## Message types -/

structure BashExecutionMessage where
  command : String
  output : String
  exitCode : Option NumLit := none
  cancelled : Bool
  truncated : Bool
  fullOutputPath : Option String := none
  timestamp : ℕ
  excludeFromContext : Option Bool := none
  deriving DecidableEq

structure CustomMessage where
  customType : String
  content : MessageContent
  display : Bool
  details : Option Json := none
  timestamp : Option ℤ
  deriving DecidableEq

structure BranchSummaryMessage where
  summary : String
  fromId : String
  timestamp : Option ℤ
  deriving DecidableEq

structure CompactionSummaryMessage where
  summary : String
  tokensBefore : ℕ
  retainedMessageCount : Option ℕ := none
  customInstructions : Option String := none
  timestamp : Option ℤ
  deriving DecidableEq

inductive AgentMessage where
  | user (m : UserMessage)
  | assistant (m : AssistantMessage)
  | toolResult (m : ToolResultMessage)
  | bashExecution (m : BashExecutionMessage)
  | custom (m : CustomMessage)
  | branchSummary (m : BranchSummaryMessage)
  | compactionSummary (m : CompactionSummaryMessage)
  | hookMessage (m : CustomMessage)
  deriving DecidableEq

namespace AgentMessage

def isUser : AgentMessage → Bool
  | user _ => true
  | _ => false

def isBashExecution : AgentMessage → Bool
  | bashExecution _ => true
  | _ => false

def isAssistant : AgentMessage → Bool
  | assistant _ => true
  | _ => false

def isCompactionSummary : AgentMessage → Bool
  | compactionSummary _ => true
  | _ => false

end AgentMessage

/-! ## Messages made from entries -/

def createBranchSummaryMessage (summary fromId timestamp : String) : AgentMessage :=
  .branchSummary { summary, fromId, timestamp := getTime timestamp }

def createCompactionSummaryMessage (summary : String) (tokensBefore : ℕ) (timestamp : String)
    (customInstructions : Option String) (retainedMessageCount : Option ℕ) : AgentMessage :=
  .compactionSummary
    { summary, tokensBefore, retainedMessageCount, customInstructions,
      timestamp := getTime timestamp }

def createCustomMessage (customType : String) (content : MessageContent) (display : Bool)
    (details : Option Json) (timestamp : String) : AgentMessage :=
  .custom { customType, content, display, details, timestamp := getTime timestamp }

/-! ## JSON forms -/

instance : JsonCodec BashExecutionMessage where
  toJson m := .obj ([("role", .str "bashExecution"), ("command", toJson m.command),
    ("output", toJson m.output)] ++ opt "exitCode" m.exitCode ++
    [("cancelled", toJson m.cancelled), ("truncated", toJson m.truncated)] ++
    opt "fullOutputPath" m.fullOutputPath ++ [("timestamp", toJson m.timestamp)] ++
    opt "excludeFromContext" m.excludeFromContext)
  ofJson j := do
    let command ← j.field "command"
    let output ← j.field "output"
    let exitCode ← j.optField "exitCode"
    let cancelled ← j.field "cancelled"
    let truncated ← j.field "truncated"
    let fullOutputPath ← j.optField "fullOutputPath"
    let timestamp ← j.field "timestamp"
    let excludeFromContext ← j.optField "excludeFromContext"
    some { command, output, exitCode, cancelled, truncated, fullOutputPath, timestamp,
           excludeFromContext }
  ofJson_toJson m := by simp [field, optField]

/-- The members of a custom message behind its role. -/
def CustomMessage.members (m : CustomMessage) : List (String × Json) :=
  [("customType", toJson m.customType), ("content", toJson m.content),
    ("display", toJson m.display)] ++ opt "details" m.details ++
    [("timestamp", toJson m.timestamp)]

instance : JsonCodec CustomMessage where
  toJson m := .obj (("role", .str "custom") :: m.members)
  ofJson j := do
    let customType ← j.field "customType"
    let content ← j.field "content"
    let display ← j.field "display"
    let details ← j.optField "details"
    let timestamp ← j.field "timestamp"
    some { customType, content, display, details, timestamp }
  ofJson_toJson m := by simp [field, optField, CustomMessage.members]

instance : JsonCodec BranchSummaryMessage where
  toJson m := .obj [("role", .str "branchSummary"), ("summary", toJson m.summary),
    ("fromId", toJson m.fromId), ("timestamp", toJson m.timestamp)]
  ofJson j := do
    let summary ← j.field "summary"
    let fromId ← j.field "fromId"
    let timestamp ← j.field "timestamp"
    some { summary, fromId, timestamp }
  ofJson_toJson m := by simp [field]

instance : JsonCodec CompactionSummaryMessage where
  toJson m := .obj ([("role", .str "compactionSummary"), ("summary", toJson m.summary),
    ("tokensBefore", toJson m.tokensBefore)] ++
    opt "retainedMessageCount" m.retainedMessageCount ++
    opt "customInstructions" m.customInstructions ++ [("timestamp", toJson m.timestamp)])
  ofJson j := do
    let summary ← j.field "summary"
    let tokensBefore ← j.field "tokensBefore"
    let retainedMessageCount ← j.optField "retainedMessageCount"
    let customInstructions ← j.optField "customInstructions"
    let timestamp ← j.field "timestamp"
    some { summary, tokensBefore, retainedMessageCount, customInstructions, timestamp }
  ofJson_toJson m := by simp [field, optField]

@[simp] lemma roleOf_bashExecution (m : BashExecutionMessage) :
    roleOf (toJson m) = some "bashExecution" := by
  simp [roleOf, toJson, field, ofJson]

variable (m : CustomMessage)

@[simp] lemma roleOf_custom : roleOf (toJson m) = some "custom" := by
  simp [roleOf, toJson, field, ofJson, CustomMessage.members]

@[simp] lemma roleOf_branchSummary (m : BranchSummaryMessage) :
    roleOf (toJson m) = some "branchSummary" := by
  simp [roleOf, toJson, field, ofJson]

@[simp] lemma roleOf_compactionSummary (m : CompactionSummaryMessage) :
    roleOf (toJson m) = some "compactionSummary" := by
  simp [roleOf, toJson, field, ofJson]

/-- A custom message under its name in version 2 files. -/
def hookMessageJson (m : CustomMessage) : Json := .obj (("role", .str "hookMessage") :: m.members)

@[simp] lemma roleOf_hookMessageJson : roleOf (hookMessageJson m) = some "hookMessage" := by
  simp [roleOf, hookMessageJson, field, ofJson, CustomMessage.members]

@[simp] lemma ofJson_hookMessageJson :
    (ofJson (hookMessageJson m) : Option CustomMessage) = some m := by
  have h : (ofJson (toJson m) : Option CustomMessage) = some m := by simp
  simpa [ofJson, toJson, hookMessageJson, field, optField, CustomMessage.members] using h

instance : JsonCodec AgentMessage where
  toJson
    | .user m => toJson m
    | .assistant m => toJson m
    | .toolResult m => toJson m
    | .bashExecution m => toJson m
    | .custom m => toJson m
    | .branchSummary m => toJson m
    | .compactionSummary m => toJson m
    | .hookMessage m => hookMessageJson m
  ofJson j :=
    match roleOf j with
    | some "user" => (ofJson j).map .user
    | some "assistant" => (ofJson j).map .assistant
    | some "toolResult" => (ofJson j).map .toolResult
    | some "bashExecution" => (ofJson j).map .bashExecution
    | some "custom" => (ofJson j).map .custom
    | some "branchSummary" => (ofJson j).map .branchSummary
    | some "compactionSummary" => (ofJson j).map .compactionSummary
    | some "hookMessage" => (ofJson j).map .hookMessage
    | _ => none
  ofJson_toJson m := by cases m <;> simp

end Amide
