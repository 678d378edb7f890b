import Amide.Framework.Machine
import Amide.Construction.Session.Manager

/-!
# Runs of a session manager

The operations on an open session as labels of a machine: a call names its operation, what the
operation takes from outside, and what it returned or threw.
-/

namespace Amide

inductive SessionOp where
  | appendMessage (message : AgentMessage)
  | appendThinkingLevelChange (thinkingLevel : String)
  | appendServiceTierChange (serviceTier : ServiceTier)
  | appendModelChange (provider modelId : String)
  | appendCompaction (c : CompactionFields)
  | appendCustomEntry (customType : String) (data : Option Json)
  | appendSessionInfo (name : String)
  | appendSessionState (status : SessionStateStatus)
  | appendAgentStatus (status : AgentStatus)
  | appendGitState (git : GitContext)
  | appendCustomMessageEntry (m : CustomMessageFields)
  | appendChildUsageAttribution (a : ChildUsageFields)
  | appendLabelChange (targetId : String) (label : Option String)
  | branchWithSummary (branchFromId : Option String) (summary : String) (details : Option Json)
      (fromHook : Option Bool) (usage : Option Usage)
  | appendCustomEntryWithRollback (customType : String) (data : Option Json)
  | appendCustomMessageEntryWithRollback (m : CustomMessageFields)
  | flushNow
  | branch (branchFromId : String)
  | resetLeaf

namespace SessionOp

/-- The result of a call without the id it returns. -/
def void {α : Type} (r : Outcome α) : Outcome Unit := (r.1.map fun _ => (), r.2)

/-- An append without rollback makes the first of the three writes only. -/
def run (op : SessionOp) (stamp : Stamp) (o : RollbackOutcomes) (s : SessionState) : Outcome Unit :=
  match op with
  | appendMessage message => void (s.appendMessage message stamp o.append)
  | appendThinkingLevelChange l => void (s.appendThinkingLevelChange l stamp o.append)
  | appendServiceTierChange t => void (s.appendServiceTierChange t stamp o.append)
  | appendModelChange p m => void (s.appendModelChange p m stamp o.append)
  | appendCompaction c => void (s.appendCompaction c stamp o.append)
  | appendCustomEntry t d => void (s.appendCustomEntry t d stamp o.append)
  | appendSessionInfo n => void (s.appendSessionInfo n stamp o.append)
  | appendSessionState st => void (s.appendSessionState st stamp o.append)
  | appendAgentStatus st => void (s.appendAgentStatus st stamp o.append)
  | appendGitState g => void (s.appendGitState g stamp o.append)
  | appendCustomMessageEntry m => void (s.appendCustomMessageEntry m stamp o.append)
  | appendChildUsageAttribution a => void (s.appendChildUsageAttribution a stamp o.append)
  | appendLabelChange t l => void (s.appendLabelChange t l stamp o.append)
  | branchWithSummary b m d h u => void (s.branchWithSummary b m d h u stamp o.append)
  | appendCustomEntryWithRollback t d => void (s.appendCustomEntryWithRollback t d stamp o)
  | appendCustomMessageEntryWithRollback m =>
      void (s.appendCustomMessageEntryWithRollback m stamp o)
  | flushNow => s.flushNow o.append
  | branch id => s.branch id
  | resetLeaf => s.resetLeaf

/-- The operation undoes its append when it cannot be written. -/
def rollsBack : SessionOp → Bool
  | appendCustomEntryWithRollback _ _ | appendCustomMessageEntryWithRollback _ => true
  | _ => false

end SessionOp

/-- A call of an operation. -/
structure SessionCall where
  op : SessionOp
  stamp : Stamp
  outcomes : RollbackOutcomes
  result : Except SessionError Unit

/-- The machine whose runs are the sequences of calls on one session. -/
def sessionMachine : Machine SessionState SessionCall where
  step s c s' := c.op.run c.stamp c.outcomes s = (c.result, s')

/-! ## Plain calls

Calls with fixed ids, all of whose writes are done, for examples. -/

def plainEnv : SessionState.OpenEnv where
  sessionIds _ := "new"
  timestamp := "2026-01-02T00:00:00.000Z"
  git := none
  rootRlmDepth := 0
  migrationDraws _ _ := "drawn"
  resolvedRlmDepth := 0
  resolvedRlmDepth_lt := by norm_num

def plainCall (id : String) (op : SessionOp) : SessionCall where
  op := op
  stamp := ⟨fun _ => id, "2026-01-01T00:00:00.000Z"⟩
  outcomes := ⟨.done, .done, .done⟩
  result := .ok ()

/-- What a call makes of a state. -/
def SessionState.after (s : SessionState) (c : SessionCall) : SessionState :=
  (c.op.run c.stamp c.outcomes s).2

/-- A run prolonged by a call. -/
lemma run_after {G : SessionState → SessionCall → Prop} {s₀ s : SessionState}
    {calls : List SessionCall} (h : (sessionMachine.guard G).Run s₀ calls s) (c : SessionCall)
    (hok : (c.op.run c.stamp c.outcomes s).1 = c.result) (hc : G s c) :
    (sessionMachine.guard G).Run s₀ (calls ++ [c]) (s.after c) :=
  h.snoc ⟨Prod.ext hok rfl, hc⟩

/-- A new session on disk. -/
def diskSession : SessionState :=
  (SessionState.createSession "/" "/" true plainEnv.toSessionEnv fun _ => none).2

/-- A new session in memory. -/
def memorySession : SessionState :=
  (SessionState.createSession "/" "/" false plainEnv.toSessionEnv fun _ => none).2

abbrev say (id text : String) : SessionCall :=
  plainCall id (.appendMessage (.user { content := .string text, timestamp := 0 }))

abbrev answer (id text : String) : SessionCall :=
  plainCall id (.appendMessage (.assistant
    { content := [.text { text }], api := "api", provider := "provider", model := "model",
      usage := plainUsage, stopReason := .stop, timestamp := 0 }))

end Amide
