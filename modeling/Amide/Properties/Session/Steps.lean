import Amide.Construction.Session.Operations
import Amide.Properties.Session.Loads

/-!
# What one call can do

Every operation of the machine either refuses and changes nothing, or moves the leaf, or flushes,
or appends one entry: `SessionOp.made` is the entry and `Pushed` relates the state before the
call to the one in which the entry is in memory and not yet written.  `CallStep` lists the
outcomes and `CallStep.of_run` shows the list complete; every invariant is derived from it.
-/

namespace Amide

namespace SessionOp

/-- The body of the entry an operation appends. -/
def body? : SessionOp → Option EntryBody
  | appendMessage message => some (.message message)
  | appendThinkingLevelChange l => some (.thinkingLevelChange l)
  | appendServiceTierChange t => some (.serviceTierChange t)
  | appendModelChange p m => some (.modelChange p m)
  | appendCompaction c => some (.compaction c)
  | appendCustomEntry t d => some (.custom t d)
  | appendSessionInfo n => some (.sessionInfo (some (trim n)))
  | appendSessionState st => some (.sessionState st)
  | appendAgentStatus st => some (.agentStatus st)
  | appendGitState g => some (.gitState g)
  | appendCustomMessageEntry m => some (.customMessage m)
  | appendChildUsageAttribution a => some (.childUsageAttributed a)
  | appendLabelChange t l => some (.label t l)
  | branchWithSummary b m d h u => some (.branchSummary
      { fromId := b.getD "root", summary := m, details := d, fromHook := h, usage := u })
  | appendCustomEntryWithRollback t d => some (.custom t d)
  | appendCustomMessageEntryWithRollback m => some (.customMessage m)
  | flushNow | branch _ | resetLeaf => none

/-- What an operation names is there. -/
def accepts (op : SessionOp) (m : SessionManager) : Bool :=
  match op with
  | appendChildUsageAttribution a => (m.byId.get? a.targetId).any SessionEntry.isAssistant
  | appendLabelChange t _ => m.byId.has t
  | branchWithSummary (some id) _ _ _ _ => m.byId.has id
  | branch id => m.byId.has id
  | _ => true

/-- The parent of the entry an operation appends. -/
def parentId (op : SessionOp) (m : SessionManager) : Option String :=
  match op with
  | branchWithSummary b _ _ _ _ => b
  | _ => m.leafId

/-- The entry an operation appends. -/
def made (op : SessionOp) (stamp : Stamp) (m : SessionManager) : Option SessionEntry :=
  if op.accepts m then
    op.body?.map fun body =>
      { id := generateId m.byId.has stamp.draws, parentId := op.parentId m,
        timestamp := stamp.timestamp, body }
  else none

end SessionOp

/-- `p` is `s` with the entry of the operation in memory. -/
structure Pushed (op : SessionOp) (stamp : Stamp) (s : SessionState) (e : SessionEntry)
    (p : SessionState) : Prop where
  entry : op.made stamp s.manager = some e
  state : ∃ byId : JsMap String SessionEntry,
    ((byId = s.manager.byId ∧ FileEntry.attribution? (.entry e) = none) ∨
      ∃ a target, e.body = .childUsageAttributed a ∧ s.manager.byId.get? a.targetId = some target ∧
        target.isAssistant = true ∧
        byId = s.manager.byId.set a.targetId (target.setUsage a.aggregateUsage)) ∧
    p = { s with manager := { s.manager with
      fileEntries := extendEntries s.manager.fileEntries e
      byId := byId.set e.id e
      leafId := some e.id } }

/-- What a call can return or throw, and the state it then leaves. -/
inductive CallStep (op : SessionOp) (stamp : Stamp) (o : RollbackOutcomes) (s : SessionState) :
    Except SessionError Unit → SessionState → Prop
  | refused (e : SessionError) : CallStep op stamp o s (.error e) s
  | leaf (hop : op.body? = none) (leafId : Option String)
      (h : ∀ id ∈ leafId, s.manager.byId.has id = true) :
      CallStep op stamp o s (.ok ()) (s.setLeaf leafId)
  | flushed (hop : op.body? = none) {r : Except SessionError Unit} {s' : SessionState}
      (h : s.flushNow o.append = (r, s')) : CallStep op stamp o s r s'
  | appended {e : SessionEntry} {p s' : SessionState} {r : Except SessionError Unit}
      (hop : op.rollsBack = false) (hp : Pushed op stamp s e p)
      (h : p.persistEntry o.append e = (r, s')) : CallStep op stamp o s r s'
  | labelled {e : SessionEntry} {p s' : SessionState} {targetId : String} {label : Option String}
      (hop : op.rollsBack = false) (hp : Pushed op stamp s e p)
      (hbody : e.body = .label targetId label)
      (h : p.persistEntry o.append e = (.ok (), s')) :
      CallStep op stamp o s (.ok ()) (s'.relabel targetId label stamp.timestamp)
  | kept {e : SessionEntry} {p s₁ s₂ : SessionState} (hop : op.rollsBack = true)
      (hp : Pushed op stamp s e p) (h : p.persistEntry o.append e = (.ok (), s₁))
      (hflush : s₁.flushNow o.flush = (.ok (), s₂)) : CallStep op stamp o s (.ok ()) s₂
  | undone {e : SessionEntry} {p s₁ : SessionState} {err : SessionError}
      (hop : op.rollsBack = true) (hp : Pushed op stamp s e p)
      (h : p.persistEntry o.append e = (.error err, s₁)) :
      CallStep op stamp o s (.error err) (s₁.rollback s.manager.leafId o.restore)
  | unflushed {e : SessionEntry} {p s₁ s₂ : SessionState} {err : SessionError}
      (hop : op.rollsBack = true) (hp : Pushed op stamp s e p)
      (h : p.persistEntry o.append e = (.ok (), s₁))
      (hflush : s₁.flushNow o.flush = (.error err, s₂)) :
      CallStep op stamp o s (.error err) (s₂.rollback s.manager.leafId o.restore)

variable {op : SessionOp} {stamp : Stamp} {s s' : SessionState} {o : RollbackOutcomes}
  {r : Except SessionError Unit}

namespace SessionState

/-- An append that only makes an entry of its kind. -/
theorem pushed_newEntry {body : EntryBody} (hacc : op.accepts s.manager = true)
    (hbody : op.body? = some body) (hpar : op.parentId s.manager = s.manager.leafId)
    (hattr : ∀ e : SessionEntry, e.body = body → FileEntry.attribution? (.entry e) = none) :
    Pushed op stamp s (s.newEntry stamp body) (s.push (s.newEntry stamp body)) where
  entry := by simp [SessionOp.made, hacc, hbody, hpar, newEntry]
  state := ⟨_, .inl ⟨rfl, hattr _ rfl⟩,
    by simp [push, extendEntries, hattr (s.newEntry stamp body) rfl]⟩

/-- An append from a leaf moved first. -/
theorem pushed_setLeaf {b : Option String} {m : String} {d : Option Json} {h : Option Bool}
    {u : Option Usage} (hb : ∀ id ∈ b, s.manager.byId.has id = true) {body : EntryBody}
    (hbody : (SessionOp.branchWithSummary b m d h u).body? = some body) :
    Pushed (.branchWithSummary b m d h u) stamp s ((s.setLeaf b).newEntry stamp body)
      ((s.setLeaf b).push ((s.setLeaf b).newEntry stamp body)) where
  entry := by
    have hacc : (SessionOp.branchWithSummary b m d h u).accepts s.manager = true := by
      cases b with
      | none => rfl
      | some id => exact hb id rfl
    simp [SessionOp.made, hacc, hbody, SessionOp.parentId, newEntry, setLeaf]
  state := by
    cases hbody
    exact ⟨_, .inl ⟨rfl, rfl⟩, rfl⟩

variable {s₁ : SessionState}

/-- Appending an entry that is pushed as `Pushed` says. -/
theorem callStep_append {e : SessionEntry} (hop : op.rollsBack = false)
    (hp : Pushed op stamp s e (s₁.push e))
    (h : SessionOp.void (s₁.appendEntry o.append e) = (r, s')) : CallStep op stamp o s r s' := by
  unfold appendEntry SessionOp.void at h
  cases hpersist : (s₁.push e).persistEntry o.append e with
  | mk r₁ s₂ =>
    rw [hpersist] at h
    cases r₁ with
    | ok _ | error err =>
      cases h
      exact .appended hop hp hpersist

lemma callStep_rollback {e : SessionEntry} (hop : op.rollsBack = true)
    (hp : Pushed op stamp s e (s₁.push e)) {append : WriteOutcome → SessionState → Outcome String}
    (happend : append o.append s = s₁.appendEntry o.append e)
    (h : SessionOp.void (s.appendEntryWithRollback append o) = (r, s')) :
    CallStep op stamp o s r s' := by
  unfold appendEntryWithRollback SessionOp.void at h
  rw [happend] at h
  unfold appendEntry at h
  cases hpersist : (s₁.push e).persistEntry o.append e with
  | mk r₁ s₂ =>
    rw [hpersist] at h
    cases r₁ with
    | error err =>
      cases h
      exact .undone hop hp hpersist
    | ok _ =>
      simp only at h
      cases hflush : s₂.flushNow o.flush with
      | mk r₂ s₃ =>
        rw [hflush] at h
        cases r₂ with
        | ok _ =>
          cases h
          exact .kept hop hp hpersist hflush
        | error err =>
          cases h
          exact .unflushed hop hp hpersist hflush

end SessionState

open SessionState in
/-- **The outcomes of a call.** -/
theorem CallStep.of_run (h : op.run stamp o s = (r, s')) : CallStep op stamp o s r s' := by
  have hplain : ∀ body : EntryBody, op.accepts s.manager = true → op.body? = some body →
      op.parentId s.manager = s.manager.leafId →
      (∀ e : SessionEntry, e.body = body → FileEntry.attribution? (.entry e) = none) →
      Pushed op stamp s (s.newEntry stamp body) (s.push (s.newEntry stamp body)) :=
    fun body hacc hbody hpar hattr => pushed_newEntry hacc hbody hpar hattr
  cases op with
  | flushNow => exact .flushed rfl h
  | resetLeaf =>
    cases h
    exact .leaf rfl none (by simp)
  | branch id =>
    simp only [SessionOp.run, branch] at h
    split_ifs at h with hid
    · cases h
      exact .leaf rfl (some id) (by simpa using hid)
    · cases h
      exact .refused _
  | appendChildUsageAttribution a =>
    simp only [SessionOp.run, appendChildUsageAttribution] at h
    split at h
    · rename_i id parentId timestamp m hget
      refine callStep_append rfl ?_ h
      exact {
        entry := by
          simp [SessionOp.made, SessionOp.accepts, hget, SessionEntry.isAssistant,
            AgentMessage.isAssistant, SessionOp.body?, SessionOp.parentId, newEntry,
            JsMap.has_set_of_get?_some hget]
        state := ⟨_, .inr ⟨a, _, rfl, hget, rfl, rfl⟩, rfl⟩ }
    · cases h
      exact .refused _
  | appendLabelChange t l =>
    simp only [SessionOp.run, appendLabelChange] at h
    split_ifs at h with hid
    · have hp := hplain (.label t l) hid rfl rfl (fun e he => by
        obtain ⟨_, _, _, _⟩ := e
        cases he
        rfl)
      unfold appendBody appendEntry SessionOp.void at h
      cases hpersist : (s.push (s.newEntry stamp (.label t l))).persistEntry o.append
          (s.newEntry stamp (.label t l)) with
      | mk r₁ s₁ =>
        rw [hpersist] at h
        cases r₁ with
        | ok _ =>
          cases h
          exact .labelled rfl hp rfl hpersist
        | error err =>
          cases h
          exact .appended rfl hp hpersist
    · cases h
      exact .refused _
  | branchWithSummary b m d hk u =>
    simp only [SessionOp.run, branchWithSummary] at h
    cases b with
    | none => exact callStep_append rfl (pushed_setLeaf (by simp) rfl) h
    | some id =>
      simp only at h
      split_ifs at h with hid
      · exact callStep_append rfl (pushed_setLeaf (by simpa using hid) rfl) h
      · cases h
        exact .refused _
  | appendCustomEntryWithRollback t d | appendCustomMessageEntryWithRollback m =>
    exact callStep_rollback rfl (hplain _ rfl rfl rfl fun e he => by
      obtain ⟨_, _, _, _⟩ := e
      cases he
      rfl) rfl h
  | _ =>
    exact callStep_append rfl (hplain _ rfl rfl rfl fun e he => by
      obtain ⟨_, _, _, _⟩ := e
      cases he
      rfl) h

end Amide
