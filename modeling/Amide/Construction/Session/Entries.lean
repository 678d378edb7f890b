import Amide.Framework.LineLog
import Amide.Construction.Session.Messages

/-!
# Session entries

The lines of a session file: the header, and the fourteen kinds of entries of
`core/session-manager.ts`.  What the source repeats in each entry interface (`SessionEntryBase`)
is `SessionEntry` here, and the kind with its own fields is `EntryBody`.

Version 1 files have entries without an id and compactions that name the first kept entry by its
index (`firstKeptEntryIndex`); an id that is not there is the empty string, which
`migrateV1ToV2` replaces.

`sessionCodec` is the line codec `JSON.stringify` and `JSON.parse` make of them.
-/

namespace Amide

open Json

/-! ## Kinds of entries -/

structure GitContext where
  repoUrl : Option String := none
  commit : Option String := none
  branch : Option String := none
  deriving DecidableEq

inductive ServiceTier where
  | auto | default | flex | scale | priority | null
  deriving DecidableEq, Repr

/-- The last two occur in older files only. -/
inductive SessionStateStatus where
  | active | archived | crash | hidden | sleep
  deriving DecidableEq, Repr

inductive AgentTaskState where
  | needsInput | completed
  deriving DecidableEq, Repr

structure AgentStatus where
  summary : String
  taskState : Option AgentTaskState := none
  basedOnMessageCount : ℕ
  deriving DecidableEq

structure CompactionFields where
  summary : String
  firstKeptEntryId : String
  firstKeptEntryIndex : Option ℕ := none
  tokensBefore : ℕ
  details : Option Json := none
  fromHook : Option Bool := none
  customInstructions : Option String := none
  usage : Option Usage := none
  deriving DecidableEq

structure BranchSummaryFields where
  fromId : String
  summary : String
  details : Option Json := none
  fromHook : Option Bool := none
  usage : Option Usage := none
  deriving DecidableEq

inductive UsageOrigin where
  | spawnTask | agentMessage | directUser
  deriving DecidableEq, Repr

structure ChildUsageFields where
  targetId : String
  childUsage : Usage
  aggregateUsage : Usage
  origin : Option UsageOrigin := none
  deriving DecidableEq

structure CustomMessageFields where
  customType : String
  content : MessageContent
  display : Bool
  details : Option Json := none
  deriving DecidableEq

inductive EntryBody where
  | message (message : AgentMessage)
  | thinkingLevelChange (thinkingLevel : String)
  | serviceTierChange (serviceTier : ServiceTier)
  | modelChange (provider modelId : String)
  | compaction (c : CompactionFields)
  | branchSummary (b : BranchSummaryFields)
  | custom (customType : String) (data : Option Json)
  | childUsageAttributed (a : ChildUsageFields)
  | label (targetId : String) (label : Option String)
  | sessionInfo (name : Option String)
  | sessionState (status : SessionStateStatus)
  | agentStatus (status : AgentStatus)
  | gitState (git : GitContext)
  | customMessage (m : CustomMessageFields)
  deriving DecidableEq

structure SessionEntry where
  id : String
  parentId : Option String
  timestamp : String
  body : EntryBody
  deriving DecidableEq

structure SessionHeader where
  version : Option ℕ := none
  id : String
  timestamp : String
  cwd : String
  parentSession : Option String := none
  rlmDepth : Option ℕ := none
  git : Option GitContext := none
  deriving DecidableEq

inductive FileEntry where
  | session (header : SessionHeader)
  | entry (e : SessionEntry)
  deriving DecidableEq

namespace SessionEntry

/-- `entry.type === "message" && entry.message.role === "assistant"`. -/
def isAssistant (e : SessionEntry) : Bool :=
  match e.body with
  | .message m => m.isAssistant
  | _ => false

def isLabel (e : SessionEntry) : Bool :=
  match e.body with
  | .label _ _ => true
  | _ => false

def isGitState (e : SessionEntry) : Bool :=
  match e.body with
  | .gitState _ => true
  | _ => false

def compaction? (e : SessionEntry) : Option CompactionFields :=
  match e.body with
  | .compaction c => some c
  | _ => none

def isCompaction (e : SessionEntry) : Bool := e.compaction?.isSome

def branchSummary? (e : SessionEntry) : Option BranchSummaryFields :=
  match e.body with
  | .branchSummary b => some b
  | _ => none

end SessionEntry

variable (e : SessionEntry)

namespace FileEntry

def asEntry : FileEntry → Option SessionEntry
  | session _ => none
  | entry e => some e

def header? : FileEntry → Option SessionHeader
  | session h => some h
  | entry _ => none

@[simp] lemma asEntry_entry : (entry e).asEntry = some e := rfl

@[simp] lemma asEntry_session (h : SessionHeader) : (session h).asEntry = none := rfl

@[simp] lemma header?_entry : (entry e).header? = none := rfl

@[simp] lemma header?_session (h : SessionHeader) : (session h).header? = some h := rfl

end FileEntry

/-- `fileEntries.filter((e) => e.type !== "session")`. -/
def sessionEntries (fileEntries : List FileEntry) : List SessionEntry :=
  fileEntries.filterMap FileEntry.asEntry

@[simp] lemma sessionEntries_append (a b : List FileEntry) :
    sessionEntries (a ++ b) = sessionEntries a ++ sessionEntries b :=
  List.filterMap_append

@[simp] lemma sessionEntries_session_cons (h : SessionHeader) (es : List FileEntry) :
    sessionEntries (.session h :: es) = sessionEntries es := rfl

@[simp] lemma sessionEntries_entry_cons (es : List FileEntry) :
    sessionEntries (.entry e :: es) = e :: sessionEntries es := rfl

@[simp] lemma sessionEntries_nil : sessionEntries [] = [] := rfl

@[simp] lemma sessionEntries_map_entry (es : List SessionEntry) :
    sessionEntries (es.map .entry) = es := by
  simp [sessionEntries, List.filterMap_map, Function.comp_def]

/-! ## Plain entries

Entries with a text and nothing else to them, for examples. -/

def plainEntry (id : String) (parentId : Option String) (body : EntryBody) : SessionEntry :=
  { id, parentId, timestamp := "2026-01-01T00:00:00.000Z", body }

def userBody (text : String) : EntryBody :=
  .message (.user { content := .string text, timestamp := 0 })

def assistantBody (text : String) : EntryBody :=
  .message (.assistant
    { content := [.text { text }], api := "api", provider := "provider", model := "model",
      usage := plainUsage, stopReason := .stop, timestamp := 0 })

def plainHeader : SessionHeader :=
  { version := some 3, id := "session", timestamp := "2026-01-01T00:00:00.000Z", cwd := "/" }

def compactionBody (firstKeptEntryId : String) : EntryBody :=
  .compaction { summary := "so far", firstKeptEntryId, tokensBefore := 0 }

/-! ## JSON forms -/

instance : JsonCodec GitContext where
  toJson g := .obj (opt "repoUrl" g.repoUrl ++ opt "commit" g.commit ++ opt "branch" g.branch)
  ofJson j := do
    let repoUrl ← j.optField "repoUrl"
    let commit ← j.optField "commit"
    let branch ← j.optField "branch"
    some { repoUrl, commit, branch }
  ofJson_toJson g := by simp [optField]

instance : JsonCodec ServiceTier where
  toJson
    | .auto => .str "auto"
    | .default => .str "default"
    | .flex => .str "flex"
    | .scale => .str "scale"
    | .priority => .str "priority"
    | .null => .null
  ofJson
    | .str "auto" => some .auto
    | .str "default" => some .default
    | .str "flex" => some .flex
    | .str "scale" => some .scale
    | .str "priority" => some .priority
    | .null => some .null
    | _ => none
  ofJson_toJson t := by cases t <;> rfl

/-- The object of `SessionState`. -/
instance : JsonCodec SessionStateStatus where
  toJson
    | .active => .obj [("status", .str "active")]
    | .archived => .obj [("status", .str "archived")]
    | .crash => .obj [("status", .str "crash")]
    | .hidden => .obj [("status", .str "hidden")]
    | .sleep => .obj [("status", .str "sleep")]
  ofJson j :=
    match j.get? "status" with
    | some (.str "active") => some .active
    | some (.str "archived") => some .archived
    | some (.str "crash") => some .crash
    | some (.str "hidden") => some .hidden
    | some (.str "sleep") => some .sleep
    | _ => none
  ofJson_toJson t := by cases t <;> simp

instance : JsonCodec AgentTaskState where
  toJson
    | .needsInput => .str "needs_input"
    | .completed => .str "completed"
  ofJson
    | .str "needs_input" => some .needsInput
    | .str "completed" => some .completed
    | _ => none
  ofJson_toJson t := by cases t <;> rfl

instance : JsonCodec AgentStatus where
  toJson s := .obj ([("summary", toJson s.summary)] ++ opt "taskState" s.taskState ++
    [("basedOnMessageCount", toJson s.basedOnMessageCount)])
  ofJson j := do
    let summary ← j.field "summary"
    let taskState ← j.optField "taskState"
    let basedOnMessageCount ← j.field "basedOnMessageCount"
    some { summary, taskState, basedOnMessageCount }
  ofJson_toJson s := by simp [field, optField]

instance : JsonCodec UsageOrigin where
  toJson
    | .spawnTask => .str "spawn_task"
    | .agentMessage => .str "agent_message"
    | .directUser => .str "direct_user"
  ofJson
    | .str "spawn_task" => some .spawnTask
    | .str "agent_message" => some .agentMessage
    | .str "direct_user" => some .directUser
    | _ => none
  ofJson_toJson t := by cases t <;> rfl

namespace EntryBody

/-- The `type` of an entry of the kind. -/
def type : EntryBody → String
  | message _ => "message"
  | thinkingLevelChange _ => "thinking_level_change"
  | serviceTierChange _ => "service_tier_change"
  | modelChange _ _ => "model_change"
  | compaction _ => "compaction"
  | branchSummary _ => "branch_summary"
  | custom _ _ => "custom"
  | childUsageAttributed _ => "child_usage_attributed"
  | label _ _ => "label"
  | sessionInfo _ => "session_info"
  | sessionState _ => "session_state"
  | agentStatus _ => "agent_status"
  | gitState _ => "git_state"
  | customMessage _ => "custom_message"

/-- The members of the kind's own. -/
def members : EntryBody → List (String × Json)
  | message m => [("message", toJson m)]
  | thinkingLevelChange l => [("thinkingLevel", toJson l)]
  | serviceTierChange t => [("serviceTier", toJson t)]
  | modelChange p m => [("provider", toJson p), ("modelId", toJson m)]
  | compaction c => [("summary", toJson c.summary),
      ("firstKeptEntryId", toJson c.firstKeptEntryId)] ++
      opt "firstKeptEntryIndex" c.firstKeptEntryIndex ++
      [("tokensBefore", toJson c.tokensBefore)] ++ opt "details" c.details ++
      opt "fromHook" c.fromHook ++ opt "customInstructions" c.customInstructions ++
      opt "usage" c.usage
  | branchSummary b => [("fromId", toJson b.fromId), ("summary", toJson b.summary)] ++
      opt "details" b.details ++ opt "fromHook" b.fromHook ++ opt "usage" b.usage
  | custom t d => [("customType", toJson t)] ++ opt "data" d
  | childUsageAttributed a => [("targetId", toJson a.targetId),
      ("childUsage", toJson a.childUsage), ("aggregateUsage", toJson a.aggregateUsage)] ++
      opt "origin" a.origin
  | label t l => [("targetId", toJson t)] ++ opt "label" l
  | sessionInfo n => opt "name" n
  | sessionState s => [("state", toJson s)]
  | agentStatus s => [("status", toJson s)]
  | gitState g => [("git", toJson g)]
  | customMessage m => [("customType", toJson m.customType), ("content", toJson m.content),
      ("display", toJson m.display)] ++ opt "details" m.details

/-- The body of an entry's object, by its `type`. -/
def ofJson? (j : Json) : Option EntryBody :=
  match typeOf j with
  | some "message" => (j.field "message").map message
  | some "thinking_level_change" => (j.field "thinkingLevel").map thinkingLevelChange
  | some "service_tier_change" => (j.field "serviceTier").map serviceTierChange
  | some "model_change" => do
      let provider ← j.field "provider"
      let modelId ← j.field "modelId"
      some (modelChange provider modelId)
  | some "compaction" => do
      let summary ← j.field "summary"
      let firstKeptEntryId ← j.optField "firstKeptEntryId"
      let firstKeptEntryIndex ← j.optField "firstKeptEntryIndex"
      let tokensBefore ← j.field "tokensBefore"
      let details ← j.optField "details"
      let fromHook ← j.optField "fromHook"
      let customInstructions ← j.optField "customInstructions"
      let usage ← j.optField "usage"
      some (compaction { summary, firstKeptEntryId := firstKeptEntryId.getD "",
                         firstKeptEntryIndex, tokensBefore, details, fromHook,
                         customInstructions, usage })
  | some "branch_summary" => do
      let fromId ← j.field "fromId"
      let summary ← j.field "summary"
      let details ← j.optField "details"
      let fromHook ← j.optField "fromHook"
      let usage ← j.optField "usage"
      some (branchSummary { fromId, summary, details, fromHook, usage })
  | some "custom" => do
      let customType ← j.field "customType"
      let data ← j.optField "data"
      some (custom customType data)
  | some "child_usage_attributed" => do
      let targetId ← j.field "targetId"
      let childUsage ← j.field "childUsage"
      let aggregateUsage ← j.field "aggregateUsage"
      let origin ← j.optField "origin"
      some (childUsageAttributed { targetId, childUsage, aggregateUsage, origin })
  | some "label" => do
      let targetId ← j.field "targetId"
      let l ← j.optField "label"
      some (label targetId l)
  | some "session_info" => (j.optField "name").map sessionInfo
  | some "session_state" => (j.field "state").map sessionState
  | some "agent_status" => (j.field "status").map agentStatus
  | some "git_state" => (j.field "git").map gitState
  | some "custom_message" => do
      let customType ← j.field "customType"
      let content ← j.field "content"
      let display ← j.field "display"
      let details ← j.optField "details"
      some (customMessage { customType, content, display, details })
  | _ => none

end EntryBody

/-- The members of `SessionEntryBase` behind its `type`. -/
def SessionEntry.baseMembers (e : SessionEntry) : List (String × Json) :=
  [("id", toJson e.id), ("parentId", toJson e.parentId), ("timestamp", toJson e.timestamp)]

def SessionEntry.json (e : SessionEntry) : Json :=
  .obj ([("type", .str e.body.type)] ++ e.baseMembers ++ e.body.members)

lemma typeOf_json : typeOf e.json = some e.body.type := by
  obtain ⟨_, _, _, body⟩ := e
  cases body <;>
    simp [typeOf, SessionEntry.json, SessionEntry.baseMembers, EntryBody.members, EntryBody.type,
      field, ofJson]

lemma EntryBody.ofJson?_json : EntryBody.ofJson? e.json = some e.body := by
  rw [EntryBody.ofJson?, typeOf_json]
  obtain ⟨_, _, _, body⟩ := e
  cases body <;>
    simp [EntryBody.type, SessionEntry.json, SessionEntry.baseMembers, EntryBody.members, field,
      optField]

/-- A missing id reads as the empty string, a missing `parentId` as `null`. -/
instance : JsonCodec SessionEntry where
  toJson e := e.json
  ofJson j := do
    let id ← j.optField "id"
    let parentId ← j.optField "parentId"
    let timestamp ← j.field "timestamp"
    let body ← EntryBody.ofJson? j
    some { id := id.getD "", parentId := parentId.getD none, timestamp, body }
  ofJson_toJson e := by
    have hbody := EntryBody.ofJson?_json e
    obtain ⟨_, _, _, body⟩ := e
    cases body <;>
      simp_all [SessionEntry.json, SessionEntry.baseMembers, EntryBody.members, field, optField]

instance : JsonCodec SessionHeader where
  toJson h := .obj ([("type", .str "session")] ++ opt "version" h.version ++
    [("id", toJson h.id), ("timestamp", toJson h.timestamp), ("cwd", toJson h.cwd)] ++
    opt "parentSession" h.parentSession ++ opt "rlmDepth" h.rlmDepth ++ opt "git" h.git)
  ofJson j := do
    let version ← j.optField "version"
    let id ← j.field "id"
    let timestamp ← j.field "timestamp"
    let cwd ← j.field "cwd"
    let parentSession ← j.optField "parentSession"
    let rlmDepth ← j.optField "rlmDepth"
    let git ← j.optField "git"
    some { version, id, timestamp, cwd, parentSession, rlmDepth, git }
  ofJson_toJson h := by simp [field, optField]

lemma typeOf_header (h : SessionHeader) : typeOf (toJson h) = some "session" := by
  simp [typeOf, toJson, field, ofJson]

instance : JsonCodec FileEntry where
  toJson
    | .session h => toJson h
    | .entry e => toJson e
  ofJson j :=
    match typeOf j with
    | some "session" => (ofJson j).map .session
    | _ => (ofJson j).map .entry
  ofJson_toJson f := by
    cases f with
    | session h => simp [typeOf_header]
    | entry e =>
      have htype : typeOf (toJson e) = some e.body.type := typeOf_json e
      have hne : e.body.type ≠ "session" := by cases e.body <;> simp [EntryBody.type]
      simp only [htype]
      split
      · rename_i h
        exact absurd (Option.some.inj h) hne
      · simp

/-- One line of a session file. -/
def sessionCodec : LineCodec FileEntry :=
  .json FileEntry fun
    | .session _ => rfl
    | .entry _ => rfl

end Amide
