import Amide.Construction.Compaction.Compaction
import Amide.Construction.Session.Manager

/-!
# Summaries of the branch that is left

What `navigateTree` summarizes when it goes from one leaf to another: the entries of the old branch
back to the common ancestor (`collectEntriesForBranchSummary`), and of these the messages that fit
into the budget, from the newest on, with the operations on files (`prepareBranchEntries`).

The loop over the parents has no bound of its own, and is given a number of steps.
-/

namespace Amide

structure CollectEntriesResult where
  entries : List SessionEntry
  commonAncestorId : Option String

/-- The loop back to the common ancestor, the entries from the leaf on. -/
def collectWalk (byId : JsMap String SessionEntry) (commonAncestorId : Option String) :
    ℕ → Option String → Option (List SessionEntry)
  | _, none => some []
  | fuel, some current =>
    if current = "" ∨ some current = commonAncestorId then some []
    else
      match byId.get? current with
      | none => some []
      | some entry =>
        match fuel with
        | 0 => none
        | fuel + 1 => (collectWalk byId commonAncestorId fuel entry.parentId).map (entry :: ·)

/-- `none` if one of the walks does not end in so many steps. -/
def collectEntriesForBranchSummary (m : SessionManager) (fuel : ℕ) (oldLeafId : Option String)
    (targetId : String) : Option CollectEntriesResult :=
  match oldLeafId with
  | none => some ⟨[], none⟩
  | some oldLeafId =>
    if oldLeafId = "" then some ⟨[], none⟩
    else do
      let oldPath := (← m.getBranch (some oldLeafId)).map SessionEntry.id
      let targetPath ← m.getBranch (some targetId)
      let commonAncestorId := (targetPath.reverse.find? (·.id ∈ oldPath)).map SessionEntry.id
      let entries ← collectWalk m.byId commonAncestorId fuel (some oldLeafId)
      some ⟨entries.reverse, commonAncestorId⟩

/-! ## Preparing -/

structure BranchPreparation where
  messages : List AgentMessage := []
  fileOps : FileOperations := {}
  totalTokens : ℕ := 0

namespace BranchPreparation

/-- `getMessageFromEntry` of `branch-summarization.ts`. -/
def getMessageFromEntry (e : SessionEntry) : Option AgentMessage :=
  match e.body with
  | .message (.toolResult _) => none
  | .message m => some m
  | .customMessage m =>
      some (createCustomMessage m.customType m.content m.display m.details e.timestamp)
  | .branchSummary b => some (createBranchSummaryMessage b.summary b.fromId e.timestamp)
  | .compaction c =>
      some (createCompactionSummaryMessage c.summary c.tokensBefore e.timestamp
        c.customInstructions none)
  | _ => none

/-- The first pass: the files a summary lists, unless it comes from a hook. -/
def inheritFileOps (fileOps : FileOperations) (e : SessionEntry) : FileOperations :=
  match e.body with
  | .branchSummary b =>
    match b.details with
    | none => fileOps
    | some details =>
      if b.fromHook = some true then fileOps
      else { fileOps with
        read := (stringsAt details "readFiles").foldl addPath fileOps.read
        edited := (stringsAt details "modifiedFiles").foldl addPath fileOps.edited }
  | _ => fileOps

/-- Compactions and branch summaries are taken a little beyond the budget. -/
def isSummary (e : SessionEntry) : Bool :=
  match e.body with
  | .compaction _ | .branchSummary _ => true
  | _ => false

def add (p : BranchPreparation) (message : AgentMessage) : BranchPreparation :=
  { messages := message :: p.messages
    fileOps := extractFileOpsFromMessage p.fileOps message
    totalTokens := p.totalTokens + estimateTokens message }

/-- The second pass, over the entries from the newest on.  The message that does not fit ends it. -/
def takeEntries (tokenBudget : ℤ) (p : BranchPreparation) : List SessionEntry → BranchPreparation
  | [] => p
  | e :: es =>
    match getMessageFromEntry e with
    | none => takeEntries tokenBudget p es
    | some message =>
      if 0 < tokenBudget ∧ tokenBudget < (p.totalTokens + estimateTokens message : ℕ) then
        if isSummary e ∧ 10 * (p.totalTokens : ℤ) < 9 * tokenBudget then p.add message
        else { p with fileOps := extractFileOpsFromMessage p.fileOps message }
      else takeEntries tokenBudget (p.add message) es

end BranchPreparation

/-- A budget of zero or less is no limit. -/
def prepareBranchEntries (entries : List SessionEntry) (tokenBudget : ℤ) : BranchPreparation :=
  .takeEntries tokenBudget { fileOps := entries.foldl BranchPreparation.inheritFileOps {} }
    entries.reverse

end Amide
