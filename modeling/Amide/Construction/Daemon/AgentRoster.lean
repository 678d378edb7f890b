import Amide.Framework.JsMap

/-!
# The agent roster (`modes/daemon/agent-roster.ts`)

The supervisor's store of agents: the entries by agent id and two indexes into it, by active session
id and by session file.  Files are indexed under their canonical path, which is a parameter
(`canonicalPath`) and taken as stable: a file keeps its canonical path.  Another is the listener
that hears of each mutation (`onMutation`): it sees the entries as they are then, and its own state
is part of the store's (`heard`).

Of a session summary the store reads the four fields here.
-/

namespace Amide

inductive AgentRosterStatus
  | running
  | idle
  | inactive
  deriving DecidableEq

inductive StatusLabel
  | queued
  | recovering
  | failed
  deriving DecidableEq

inductive SessionActivity
  | working
  | idle
  deriving DecidableEq

structure AgentStatusInput where
  resident : Bool
  queuedChild : Bool
  busy : Bool

def classifyAgentStatus (input : AgentStatusInput) : AgentRosterStatus :=
  if input.queuedChild then .running
  else if !input.resident then .inactive
  else if input.busy then .running
  else .idle

structure RosterSessionSummary where
  activeSessionId : Option String := none
  sessionFile : Option String := none
  activity : SessionActivity := .idle
  isSessionActive : Bool := false
  deriving DecidableEq

/-- What `if (value)` lets through: an empty string is as good as none. -/
def nonempty? (value : Option String) : Option String := value.filter (· ≠ "")

def classifySessionRosterStatus (summary : RosterSessionSummary) (queuedChild : Bool) :
    AgentRosterStatus :=
  classifyAgentStatus
    { resident := (nonempty? summary.activeSessionId).isSome
      queuedChild
      busy := summary.activity = .working || summary.isSessionActive }

structure WorkerRosterEntry where
  agentId : String
  queuedChild : Bool := false
  seededCwd : Bool := false
  summary : RosterSessionSummary := {}
  deriving DecidableEq

structure AgentRosterEntry extends WorkerRosterEntry where
  status : AgentRosterStatus
  statusLabel : Option StatusLabel := none
  lastHeardFromAt : Option String := none
  workerId : Option String := none
  deriving DecidableEq

def classifyWorkerRosterEntry (entry : WorkerRosterEntry) : AgentRosterStatus :=
  classifySessionRosterStatus entry.summary entry.queuedChild

/-- The marks of `amend`: a mark that is there but undefined removes the field. -/
structure RosterMarks where
  statusLabel : Option (Option StatusLabel) := none
  lastHeardFromAt : Option (Option String) := none

inductive AgentRosterMutation
  | write (agentId : String)
  | delete (agentId : String)

/-- The store; `heard` is the state of its listener. -/
structure AgentRoster (σ : Type*) where
  entries : JsMap String AgentRosterEntry := .empty
  agentIdByActiveSessionId : JsMap String String := .empty
  agentIdBySessionFile : JsMap String String := .empty
  heard : σ

namespace AgentRoster

variable {σ : Type*}

def get (roster : AgentRoster σ) (agentId : String) : Option AgentRosterEntry :=
  roster.entries.get? agentId

def byActiveSessionId (roster : AgentRoster σ) (activeSessionId : String) :
    Option AgentRosterEntry :=
  (roster.agentIdByActiveSessionId.get? activeSessionId).bind roster.entries.get?

def bySessionFile (roster : AgentRoster σ) (canonicalPath : String) : Option AgentRosterEntry :=
  (roster.agentIdBySessionFile.get? canonicalPath).bind roster.entries.get?

/-- The two halves of `dropIndexes`. -/
def dropActiveSessionId (roster : AgentRoster σ) (entry : AgentRosterEntry) : AgentRoster σ :=
  match nonempty? entry.summary.activeSessionId with
  | some activeSessionId =>
    if roster.agentIdByActiveSessionId.get? activeSessionId = some entry.agentId then
      { roster with
        agentIdByActiveSessionId := roster.agentIdByActiveSessionId.delete activeSessionId }
    else roster
  | none => roster

section

variable (canonicalPath : String → String)

def dropSessionFile (roster : AgentRoster σ) (entry : AgentRosterEntry) : AgentRoster σ :=
  match nonempty? entry.summary.sessionFile with
  | some sessionFile =>
    let file := canonicalPath sessionFile
    if roster.agentIdBySessionFile.get? file = some entry.agentId then
      { roster with agentIdBySessionFile := roster.agentIdBySessionFile.delete file }
    else roster
  | none => roster

def dropIndexes (roster : AgentRoster σ) (entry : AgentRosterEntry) : AgentRoster σ :=
  (roster.dropActiveSessionId entry).dropSessionFile canonicalPath entry

variable (onMutation : JsMap String AgentRosterEntry → AgentRosterMutation → σ → σ)

def emit (roster : AgentRoster σ) (mutation : AgentRosterMutation) : AgentRoster σ :=
  { roster with heard := onMutation roster.entries mutation roster.heard }

def delete (roster : AgentRoster σ) (agentId : String) : AgentRoster σ :=
  match roster.entries.get? agentId with
  | none => roster
  | some entry =>
    let roster := roster.dropIndexes canonicalPath entry
    let roster := { roster with entries := roster.entries.delete agentId }
    roster.emit onMutation (.delete agentId)

/-- The entry a write stores. -/
def stored (entry : WorkerRosterEntry) (workerId : Option String)
    (statusLabel : Option StatusLabel) : AgentRosterEntry :=
  { entry with
    status := classifyWorkerRosterEntry entry
    statusLabel := if entry.queuedChild then some .queued else statusLabel
    workerId }

/-- The part of `write` that takes the agent's previous entry out of the indexes. -/
def dropPrevious (roster : AgentRoster σ) (agentId : String) : AgentRoster σ :=
  match roster.entries.get? agentId with
  | some previous => roster.dropIndexes canonicalPath previous
  | none => roster

/-- The part of `write` that indexes the session file: who had the file is deleted. -/
def takeSessionFile (roster : AgentRoster σ) (entry : AgentRosterEntry) : AgentRoster σ :=
  match nonempty? entry.summary.sessionFile with
  | some sessionFile =>
    let file := canonicalPath sessionFile
    let roster :=
      match roster.agentIdBySessionFile.get? file with
      | some existingAgentId =>
        if existingAgentId ≠ entry.agentId then
          roster.delete canonicalPath onMutation existingAgentId
        else roster
      | none => roster
    { roster with agentIdBySessionFile := roster.agentIdBySessionFile.set file entry.agentId }
  | none => roster

/-- The part of `write` that indexes the active session id: whoever had it keeps its entry. -/
def takeActiveSessionId (roster : AgentRoster σ) (entry : AgentRosterEntry) : AgentRoster σ :=
  match nonempty? entry.summary.activeSessionId with
  | some activeSessionId =>
    { roster with
      agentIdByActiveSessionId :=
        roster.agentIdByActiveSessionId.set activeSessionId entry.agentId }
  | none => roster

def write (roster : AgentRoster σ) (entry : WorkerRosterEntry) (workerId : Option String)
    (statusLabel : Option StatusLabel) : AgentRosterEntry × AgentRoster σ :=
  let stored := stored entry workerId statusLabel
  let roster := roster.dropPrevious canonicalPath entry.agentId
  let roster := roster.takeSessionFile canonicalPath onMutation stored
  let roster := roster.takeActiveSessionId stored
  let roster := { roster with entries := roster.entries.set entry.agentId stored }
  (stored, roster.emit onMutation (.write entry.agentId))

/-- The entry with the marks set; `amend` changes it in place. -/
def marked (entry : AgentRosterEntry) (marks : RosterMarks) : AgentRosterEntry :=
  { entry with
    statusLabel := marks.statusLabel.getD entry.statusLabel
    lastHeardFromAt := marks.lastHeardFromAt.getD entry.lastHeardFromAt }

def amend (roster : AgentRoster σ) (agentId : String) (marks : RosterMarks) : AgentRoster σ :=
  match roster.entries.get? agentId with
  | none => roster
  | some entry =>
    let roster := { roster with entries := roster.entries.set agentId (marked entry marks) }
    roster.emit onMutation (.write agentId)

end

end AgentRoster

end Amide
