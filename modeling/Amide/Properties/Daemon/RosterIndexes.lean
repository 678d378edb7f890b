import Amide.Construction.Daemon.AgentRoster
import Amide.Framework.KeyIndex
import Amide.Framework.Machine

/-!
# What the roster's indexes find

`write`, `delete` and `amend` take a roster from state to state.  In every state reached the file
index is faithful, the index of active session ids names only agents that have the id, and a
listener that copies what it hears of holds the entries (`kept_of_run`).  What can be lost is an
active session id that two agents have: the id is taken over by the one written last, and goes with
it although the other stays.  The indexes are exact in all states of a run precisely when no step
does that (`exact_iff_hidesNone`).
-/

namespace Amide

namespace AgentRoster

open KeyIndex Option

/-! ## Keys -/

section

variable (canonicalPath : String → String)

/-- The active session id of an agent, if it has one; an empty one is none. -/
def activeKey (entry : AgentRosterEntry) : Option String := nonempty? entry.summary.activeSessionId

/-- The canonical path of an agent's session file. -/
def fileKey (entry : AgentRosterEntry) : Option String :=
  (nonempty? entry.summary.sessionFile).map canonicalPath

end

variable {σ : Type*} {canonicalPath : String → String}
  {onMutation : JsMap String AgentRosterEntry → AgentRosterMutation → σ → σ}
  {roster : AgentRoster σ} {entry : AgentRosterEntry} {m : JsMap String AgentRosterEntry}

/-! ## The halves of a drop -/

lemma dropActiveSessionId_eq (roster : AgentRoster σ) (entry : AgentRosterEntry) :
    roster.dropActiveSessionId entry = { roster with
        agentIdByActiveSessionId :=
          release activeKey roster.agentIdByActiveSessionId entry.agentId entry } := by
  rw [dropActiveSessionId, release, activeKey]
  cases nonempty? entry.summary.activeSessionId with
  | none => rfl
  | some activeSessionId =>
    dsimp only
    split <;> rfl

lemma dropSessionFile_eq (roster : AgentRoster σ) (entry : AgentRosterEntry) :
    roster.dropSessionFile canonicalPath entry = { roster with
        agentIdBySessionFile :=
          release (fileKey canonicalPath) roster.agentIdBySessionFile entry.agentId entry } := by
  rw [dropSessionFile, release, fileKey]
  cases nonempty? entry.summary.sessionFile with
  | none => rfl
  | some sessionFile =>
    dsimp only [map_some]
    split <;> rfl

lemma dropIndexes_eq (roster : AgentRoster σ) (entry : AgentRosterEntry) :
    roster.dropIndexes canonicalPath entry = { roster with
        agentIdByActiveSessionId :=
          release activeKey roster.agentIdByActiveSessionId entry.agentId entry
        agentIdBySessionFile :=
          release (fileKey canonicalPath) roster.agentIdBySessionFile entry.agentId entry } := by
  rw [dropIndexes, dropActiveSessionId_eq, dropSessionFile_eq]

/-! ## An agent leaves the indexes -/

/-- The indexes are those of the entries `m`, as far as the active session ids go soundly. -/
structure Indexes (canonicalPath : String → String) (roster : AgentRoster σ)
    (m : JsMap String AgentRosterEntry) : Prop where
  keyed : ∀ id e, m.get? id = some e → e.agentId = id
  active : Sound activeKey roster.agentIdByActiveSessionId m
  file : Faithful (fileKey canonicalPath) roster.agentIdBySessionFile m

/-- The roster without an agent in its indexes; its entry stays. -/
def withdrawn (canonicalPath : String → String) (roster : AgentRoster σ)
    (m : JsMap String AgentRosterEntry) (agentId : String) : AgentRoster σ :=
  { roster with
    agentIdByActiveSessionId :=
      withdraw activeKey roster.agentIdByActiveSessionId m agentId
    agentIdBySessionFile :=
      withdraw (fileKey canonicalPath) roster.agentIdBySessionFile m agentId }

variable {agentId : String}

lemma withdrawn_of_none (h : m.get? agentId = none) :
    roster.withdrawn canonicalPath m agentId = roster := by
  rw [withdrawn, withdraw, withdraw, h]

lemma keyed_delete (h : ∀ id e, m.get? id = some e → e.agentId = id) (agentId id : String)
    (e : AgentRosterEntry) (he : (m.delete agentId).get? id = some e) : e.agentId = id := by
  exact h id e (JsMap.of_get?_delete he)

section
variable (h : roster.Indexes canonicalPath m)
include h

lemma Indexes.withdrawn (agentId : String) :
    (roster.withdrawn canonicalPath m agentId).Indexes canonicalPath (m.delete agentId) where
  keyed := keyed_delete h.keyed agentId
  active := h.active.withdraw agentId
  file := h.file.withdraw agentId

lemma Indexes.dropIndexes (he : m.get? agentId = some entry) :
    roster.dropIndexes canonicalPath entry = roster.withdrawn canonicalPath m agentId := by
  obtain rfl := h.keyed agentId entry he
  rw [dropIndexes_eq, AgentRoster.withdrawn, withdraw, withdraw, he]

/-- A delete takes an agent out of the indexes and of the entries. -/
lemma Indexes.delete (he : roster.entries.get? agentId = some entry)
    (hm : m.get? agentId = some entry) :
    roster.delete canonicalPath onMutation agentId = { roster.withdrawn canonicalPath m agentId with
        entries := roster.entries.delete agentId
        heard := onMutation (roster.entries.delete agentId) (.delete agentId) roster.heard } := by
  rw [AgentRoster.delete, he]
  dsimp only
  rw [h.dropIndexes hm]
  rfl

end

lemma Indexes.dropPrevious (h : roster.Indexes canonicalPath roster.entries) (agentId : String) :
    roster.dropPrevious canonicalPath agentId =
      roster.withdrawn canonicalPath roster.entries agentId := by
  rw [AgentRoster.dropPrevious]
  cases he : roster.entries.get? agentId with
  | some previous => exact h.dropIndexes he
  | none => rw [withdrawn_of_none he]

/-! ## The mirror -/

/-- A listener that copies the entry a write names and removes the one a delete names. -/
def mirror (entries : JsMap String AgentRosterEntry) (mutation : AgentRosterMutation)
    (copy : JsMap String AgentRosterEntry) : JsMap String AgentRosterEntry :=
  match mutation with
  | .write agentId =>
    match entries.get? agentId with
    | some entry => copy.set agentId entry
    | none => copy
  | .delete agentId => copy.delete agentId

lemma mirror_write_set (entries copy : JsMap String AgentRosterEntry) (agentId : String)
    (entry : AgentRosterEntry) :
    mirror (entries.set agentId entry) (.write agentId) copy = copy.set agentId entry := by
  simp only [mirror, JsMap.get?_set_self]

/-! ## A write -/

/-- The other agent that has the session file of an entry. -/
def holder (canonicalPath : String → String) (roster : AgentRoster σ) (entry : AgentRosterEntry) :
    Option String :=
  ((fileKey canonicalPath entry).bind roster.agentIdBySessionFile.get?).filter (· ≠ entry.agentId)

lemma holder_eq_some (h : roster.holder canonicalPath entry = some agentId) :
    agentId ≠ entry.agentId ∧ ∃ file, fileKey canonicalPath entry = some file ∧
        roster.agentIdBySessionFile.get? file = some agentId := by
  rw [holder, filter_eq_some_iff, bind_eq_some_iff] at h
  exact ⟨of_decide_eq_true h.2, h.1⟩

/-- Whoever has the session file of an entry leaves. -/
lemma mem_left_of_named {file : String} (hfile : fileKey canonicalPath entry = some file)
    (hnamed : roster.agentIdBySessionFile.get? file = some agentId) :
    agentId ∈ entry.agentId :: (roster.holder canonicalPath entry).toList := by
  rw [holder, hfile, bind_some, hnamed, filter_some]
  by_cases hself : agentId = entry.agentId
  · rw [hself]
    exact List.mem_cons_self
  · rw [if_pos (decide_eq_true hself)]
    exact List.mem_cons_of_mem _ (List.mem_singleton_self agentId)

lemma holder_withdrawn (h : roster.Indexes canonicalPath m) :
    (roster.withdrawn canonicalPath m entry.agentId).holder canonicalPath entry =
      roster.holder canonicalPath entry := by
  rw [holder, holder]
  cases fileKey canonicalPath entry with
  | none => rfl
  | some file =>
    show ((withdraw (fileKey canonicalPath) roster.agentIdBySessionFile m entry.agentId).get?
        file).filter _ = (roster.agentIdBySessionFile.get? file).filter _
    rw [h.file.sound.get?_withdraw, filter_filter]
    simp

lemma takeActiveSessionId_eq (roster : AgentRoster σ) (entry : AgentRosterEntry) :
    roster.takeActiveSessionId entry = { roster with
        agentIdByActiveSessionId :=
          claim activeKey roster.agentIdByActiveSessionId entry.agentId entry } := by
  rw [takeActiveSessionId, claim, activeKey]
  cases nonempty? entry.summary.activeSessionId <;> rfl

/-- The roster without the other agent that has the session file. -/
def evicted (canonicalPath : String → String)
    (onMutation : JsMap String AgentRosterEntry → AgentRosterMutation → σ → σ)
    (roster : AgentRoster σ) (entry : AgentRosterEntry) : AgentRoster σ :=
  match roster.holder canonicalPath entry with
  | some existingAgentId => roster.delete canonicalPath onMutation existingAgentId
  | none => roster

lemma takeSessionFile_eq (roster : AgentRoster σ) (entry : AgentRosterEntry) :
    roster.takeSessionFile canonicalPath onMutation entry =
      { roster.evicted canonicalPath onMutation entry with
        agentIdBySessionFile :=
          claim (fileKey canonicalPath)
            (roster.evicted canonicalPath onMutation entry).agentIdBySessionFile
            entry.agentId entry } := by
  rw [takeSessionFile, claim, evicted, holder, fileKey]
  cases nonempty? entry.summary.sessionFile with
  | none => rfl
  | some sessionFile =>
    dsimp only [map_some, bind_some]
    cases roster.agentIdBySessionFile.get? (canonicalPath sessionFile) with
    | none => rfl
    | some existingAgentId =>
      rw [filter_some]
      by_cases hother : existingAgentId = entry.agentId
      · simp [hother]
      · simp [hother]

/-- The roster a write has cleared for its entry: the agent itself and the other one with its
session file have left. -/
def cleared (canonicalPath : String → String)
    (onMutation : JsMap String AgentRosterEntry → AgentRosterMutation → σ → σ)
    (roster : AgentRoster σ) (entry : AgentRosterEntry) : AgentRoster σ :=
  (roster.withdrawn canonicalPath roster.entries entry.agentId).evicted
    canonicalPath onMutation entry

lemma Indexes.write (h : roster.Indexes canonicalPath roster.entries) (entry : WorkerRosterEntry)
    (workerId : Option String) (statusLabel : Option StatusLabel) :
    (roster.write canonicalPath onMutation entry workerId statusLabel).2 =
      let stored := stored entry workerId statusLabel
      let cleared := roster.cleared canonicalPath onMutation stored
      { entries := cleared.entries.set entry.agentId stored
        agentIdByActiveSessionId :=
          claim activeKey cleared.agentIdByActiveSessionId entry.agentId stored
        agentIdBySessionFile :=
          claim (fileKey canonicalPath) cleared.agentIdBySessionFile entry.agentId stored
        heard :=
          onMutation (cleared.entries.set entry.agentId stored) (.write entry.agentId)
            cleared.heard } := by
  rw [AgentRoster.write]
  rw [h.dropPrevious, takeSessionFile_eq, takeActiveSessionId_eq]
  rfl

/-- What a write clears: the agents that leave are gone from the entries and from the indexes, and
the mirror has heard so. -/
structure Cleared (canonicalPath : String → String)
    (roster cleared : AgentRoster (JsMap String AgentRosterEntry)) (agentId : String)
    (left : List String) : Prop where
  indexes : cleared.Indexes canonicalPath (cleared.entries.delete agentId)
  entries : ∀ id, (cleared.entries.delete agentId).get? id =
    if id ∈ left then none else roster.entries.get? id
  active : ∀ x, cleared.agentIdByActiveSessionId.get? x =
    (roster.agentIdByActiveSessionId.get? x).filter (· ∉ left)
  file : ∀ f, cleared.agentIdBySessionFile.get? f =
    (roster.agentIdBySessionFile.get? f).filter (· ∉ left)
  heard : cleared.heard = cleared.entries

/-- What holds of every roster reached. -/
structure Kept (canonicalPath : String → String)
    (roster : AgentRoster (JsMap String AgentRosterEntry)) : Prop where
  indexes : roster.Indexes canonicalPath roster.entries
  heard : roster.heard = roster.entries

lemma Kept.cleared {roster : AgentRoster (JsMap String AgentRosterEntry)}
    (h : roster.Kept canonicalPath) (entry : AgentRosterEntry) :
    Cleared canonicalPath roster (roster.cleared canonicalPath mirror entry) entry.agentId
      (entry.agentId :: (roster.holder canonicalPath entry).toList) := by
  have hout := h.indexes.withdrawn entry.agentId
  have hactive := h.indexes.active.get?_withdraw entry.agentId
  have hfile := h.indexes.file.sound.get?_withdraw entry.agentId
  rw [AgentRoster.cleared, evicted, holder_withdrawn h.indexes]
  cases hholder : roster.holder canonicalPath entry with
  | none =>
    exact {
      indexes := hout
      entries := fun id => by simp [withdrawn, JsMap.get?_delete, eq_comm]
      active := fun x => by simp [withdrawn, hactive]
      file := fun f => by simp [withdrawn, hfile]
      heard := h.heard }
  | some existing =>
    -- The agent with the file is another one, so its entry is still there.
    obtain ⟨hne, file, -, hnamed⟩ := holder_eq_some hholder
    obtain ⟨v, hv, -⟩ := h.indexes.file.sound file existing hnamed
    have hm : (roster.entries.delete entry.agentId).get? existing = some v := by
      rw [JsMap.get?_delete, if_neg hne.symm, hv]
    have hboth := hout.withdrawn existing
    have hactive' := hout.active.get?_withdraw existing
    have hfile' := hout.file.sound.get?_withdraw existing
    dsimp only
    rw [hout.delete (show (roster.withdrawn _ _ _).entries.get? existing = some v from hv) hm]
    rw [JsMap.delete_comm] at hboth
    exact {
      indexes := ⟨hboth.keyed, hboth.active, hboth.file⟩
      entries := by
        intro id
        show ((roster.entries.delete existing).delete entry.agentId).get? id = _
        rw [JsMap.get?_delete, JsMap.get?_delete]
        split_ifs <;> grind
      active := by
        intro x
        refine (hactive' x).trans ?_
        rw [show (roster.withdrawn _ _ _).agentIdByActiveSessionId.get? x = _ from hactive x,
          filter_filter]
        congr 1
        simp [Bool.and_comm]
      file := by
        intro f
        refine (hfile' f).trans ?_
        rw [show (roster.withdrawn _ _ _).agentIdBySessionFile.get? f = _ from hfile f,
          filter_filter]
        congr 1
        simp [Bool.and_comm]
      heard := congrArg (fun copy : JsMap String AgentRosterEntry => copy.delete existing) h.heard }

/-! ## Runs of the roster -/

inductive RosterOperation
  | write (entry : WorkerRosterEntry) (workerId : Option String) (statusLabel : Option StatusLabel)
  | delete (agentId : String)
  | amend (agentId : String) (marks : RosterMarks)

section

variable (canonicalPath : String → String)

def perform (roster : AgentRoster (JsMap String AgentRosterEntry)) :
    RosterOperation → AgentRoster (JsMap String AgentRosterEntry)
  | .write entry workerId statusLabel =>
    (roster.write canonicalPath mirror entry workerId statusLabel).2
  | .delete agentId => roster.delete canonicalPath mirror agentId
  | .amend agentId marks => roster.amend mirror agentId marks

/-- A roster that a mirror listens to. -/
def machine : Machine (AgentRoster (JsMap String AgentRosterEntry)) RosterOperation where
  step roster operation roster' := roster' = roster.perform canonicalPath operation

end

variable {roster roster' : AgentRoster (JsMap String AgentRosterEntry)}

section
variable (h : roster.Kept canonicalPath)
include h

lemma Kept.write (entry : WorkerRosterEntry) (workerId : Option String)
    (statusLabel : Option StatusLabel) :
    ((roster.write canonicalPath mirror entry workerId statusLabel).2).Kept canonicalPath := by
  have hcleared := h.cleared (stored entry workerId statusLabel)
  rw [h.indexes.write]
  refine ⟨⟨?_, hcleared.indexes.active.claim _, hcleared.indexes.file.claim ?_⟩, ?_⟩
  · intro id e he
    rw [JsMap.get?_set] at he
    split_ifs at he with hid
    · cases he
      exact hid
    · refine hcleared.indexes.keyed id e ?_
      rw [JsMap.get?_delete]
      exact (if_neg hid).trans he
  · -- Who had the file has left.
    intro file hfile
    rw [hcleared.file]
    cases hnamed : roster.agentIdBySessionFile.get? file with
    | none => rfl
    | some id =>
      have hleft := mem_left_of_named hfile hnamed
      rw [filter_some, if_neg (by simpa [or_iff_not_imp_left] using hleft)]
  · dsimp only
    rw [mirror_write_set, hcleared.heard]

lemma Kept.delete_eq (agentId : String) : roster.delete canonicalPath mirror agentId =
      { roster.withdrawn canonicalPath roster.entries agentId with
        entries := roster.entries.delete agentId
        heard := roster.heard.delete agentId } := by
  cases he : roster.entries.get? agentId with
  | some entry => exact h.indexes.delete he he
  | none =>
    have hheard : roster.heard.get? agentId = none := by rw [h.heard, he]
    rw [AgentRoster.delete, he, withdrawn_of_none he, JsMap.delete_of_get?_none he,
      JsMap.delete_of_get?_none hheard]

lemma Kept.delete (agentId : String) :
    (roster.delete canonicalPath mirror agentId).Kept canonicalPath := by
  rw [h.delete_eq]
  have hindexes := h.indexes.withdrawn agentId
  exact ⟨⟨hindexes.keyed, hindexes.active, hindexes.file⟩,
    congrArg (fun copy : JsMap String AgentRosterEntry => copy.delete agentId) h.heard⟩

lemma Kept.amend (agentId : String) (marks : RosterMarks) :
    (roster.amend mirror agentId marks).Kept canonicalPath := by
  rw [AgentRoster.amend]
  cases he : roster.entries.get? agentId with
  | none => exact h
  | some entry =>
    dsimp only [emit]
    refine ⟨⟨?_, h.indexes.active.replace he rfl, h.indexes.file.replace he rfl⟩, ?_⟩
    · intro id e hid
      rw [JsMap.get?_set] at hid
      split_ifs at hid with heq
      · cases hid
        exact (h.indexes.keyed agentId entry he).trans heq
      · exact h.indexes.keyed id e hid
    · rw [mirror_write_set, h.heard]

end

lemma Kept.perform (h : roster.Kept canonicalPath) (operation : RosterOperation) :
    (roster.perform canonicalPath operation).Kept canonicalPath := by
  cases operation with
  | write entry workerId statusLabel => exact h.write entry workerId statusLabel
  | delete agentId => exact h.delete agentId
  | amend agentId marks => exact h.amend agentId marks

/-- The roster a daemon starts with. -/
def start : AgentRoster (JsMap String AgentRosterEntry) := { heard := .empty }

lemma kept_start : start.Kept canonicalPath where
  indexes :=
    { keyed := by simp [start]
      active := by simp [start, Sound]
      file := ⟨by simp [start, Sound], by simp [start]⟩ }
  heard := rfl

/-! ## Exact indexes -/

/-- The indexes find what the entries have, and the mirror holds the entries. -/
structure Exact (canonicalPath : String → String)
    (roster : AgentRoster (JsMap String AgentRosterEntry)) : Prop where
  activeFound : ∀ x e, roster.byActiveSessionId x = some e →
    e ∈ roster.entries.values ∧ activeKey e = some x
  activeFinds : ∀ x, ∀ e ∈ roster.entries.values, activeKey e = some x →
    ∃ found, roster.byActiveSessionId x = some found
  fileFound : ∀ file e, roster.bySessionFile file = some e →
    e ∈ roster.entries.values ∧ fileKey canonicalPath e = some file
  fileFinds : ∀ file, ∀ e ∈ roster.entries.values, fileKey canonicalPath e = some file →
    roster.bySessionFile file = some e
  fileUnique : ∀ file, ∀ e ∈ roster.entries.values, ∀ e' ∈ roster.entries.values,
    fileKey canonicalPath e = some file → fileKey canonicalPath e' = some file → e = e'
  mirror : roster.heard = roster.entries

/-- In the states reached, what is left to ask is that every active session id is indexed. -/
theorem Kept.exact_iff (h : roster.Kept canonicalPath) : roster.Exact canonicalPath ↔
      ∀ x, CoversAt activeKey roster.agentIdByActiveSessionId roster.entries x := by
  constructor
  · intro hexact x id e he hkey
    obtain ⟨found, hfound⟩ := hexact.activeFinds x e (JsMap.mem_values_iff.mpr ⟨id, he⟩) hkey
    obtain ⟨id', hid', -⟩ := bind_eq_some_iff.mp hfound
    exact ⟨id', hid'⟩
  · intro hcovers
    refine ⟨?_, ?_, ?_, ?_, ?_, h.heard⟩
    · intro x e he
      exact h.indexes.active.find he
    · intro x e he hkey
      obtain ⟨id, hid⟩ := JsMap.mem_values_iff.mp he
      obtain ⟨id', hid'⟩ := hcovers x id e hid hkey
      obtain ⟨found, hfound, -⟩ := h.indexes.active x id' hid'
      exact ⟨found, bind_eq_some_iff.mpr ⟨id', hid', hfound⟩⟩
    · intro file e he
      exact h.indexes.file.sound.find he
    · intro file e he hkey
      exact h.indexes.file.find he hkey
    · intro file e he e' he' hkey hkey'
      -- The index finds one agent for a file.
      have hfound := h.indexes.file.find he hkey
      rw [h.indexes.file.find he' hkey'] at hfound
      exact (Option.some.inj hfound).symm

/-! ## Steps that hide no agent -/

/-- The agents a step takes out of the indexes. -/
def leaving (canonicalPath : String → String)
    (roster : AgentRoster (JsMap String AgentRosterEntry)) : RosterOperation → List String
  | .write entry workerId statusLabel =>
    entry.agentId :: (roster.holder canonicalPath (stored entry workerId statusLabel)).toList
  | .delete agentId => [agentId]
  | .amend _ _ => []

/-- The active session id a step writes. -/
def RosterOperation.written : RosterOperation → Option String
  | .write entry _ _ => nonempty? entry.summary.activeSessionId
  | _ => none

/-- No step takes an agent out of the indexes that is found under an active session id which an
agent that stays has as well, unless it writes this id. -/
def HidesNone (canonicalPath : String → String)
    (roster : AgentRoster (JsMap String AgentRosterEntry)) (operation : RosterOperation) : Prop :=
  ∀ x, operation.written ≠ some x → ∀ id ∈ roster.leaving canonicalPath operation,
    roster.agentIdByActiveSessionId.get? x = some id →
      ∀ id' e, roster.entries.get? id' = some e → activeKey e = some x →
        id' ∈ roster.leaving canonicalPath operation

/-- A step that takes agents out of the indexes keeps an id covered exactly if it hides none. -/
theorem Kept.covers_perform_iff (h : roster.Kept canonicalPath)
    (hcovers : ∀ x, CoversAt activeKey roster.agentIdByActiveSessionId roster.entries x)
    (operation : RosterOperation) :
    roster.HidesNone canonicalPath operation ↔
      ∀ x, CoversAt activeKey (roster.perform canonicalPath operation).agentIdByActiveSessionId
        (roster.perform canonicalPath operation).entries x := by
  cases operation with
  | write entry workerId statusLabel =>
    have hcleared := h.cleared (stored entry workerId statusLabel)
    refine forall_congr' fun x => ?_
    rw [AgentRoster.perform, h.indexes.write]
    by_cases hx : activeKey (stored entry workerId statusLabel) = some x
    · refine iff_of_true (fun hne => absurd hx hne) ?_
      exact coversAt_claim_of_key hx
    · refine (forall_prop_of_true hx).trans ?_
      rw [coversAt_claim_iff hx]
      exact (coversAt_iff_of_left (hcovers x) (hcleared.active x) hcleared.entries).symm
  | delete agentId =>
    refine forall_congr' fun x => ?_
    rw [AgentRoster.perform, h.delete_eq]
    refine (forall_prop_of_true (some_ne_none x).symm).trans ?_
    have hactive :
        (withdraw activeKey roster.agentIdByActiveSessionId roster.entries agentId).get? x =
          (roster.agentIdByActiveSessionId.get? x).filter (· ∉ [agentId]) := by
      simpa using h.indexes.active.get?_withdraw agentId x
    refine (coversAt_iff_of_left (hcovers x) hactive ?_).symm
    intro id
    simp [JsMap.get?_delete, eq_comm]
  | amend agentId marks =>
    -- The marks of an agent are no key of it.
    refine iff_of_true (by simp [HidesNone, leaving]) fun x => ?_
    rw [AgentRoster.perform, AgentRoster.amend]
    cases he : roster.entries.get? agentId with
    | none => exact hcovers x
    | some entry => exact (hcovers x).replace he rfl


/-- A step from an exact roster leads to an exact one precisely if it hides no agent. -/
theorem Kept.exact_perform_iff (h : roster.Kept canonicalPath) (hexact : roster.Exact canonicalPath)
    (operation : RosterOperation) :
    roster.HidesNone canonicalPath operation ↔
      (roster.perform canonicalPath operation).Exact canonicalPath := by
  rw [h.covers_perform_iff (h.exact_iff.mp hexact), (h.perform operation).exact_iff]

lemma exact_start : start.Exact canonicalPath :=
  kept_start.exact_iff.mpr fun x id e he => by simp [start] at he

/-- **What the indexes of the roster find.**  In all states of a run they find exactly what the
entries have, at most one entry for a file, and the mirror holds the entries, precisely if no step
of the run hides an agent. -/
theorem exact_iff_hidesNone (canonicalPath : String → String) (operations : List RosterOperation) :
    ((machine canonicalPath).guard (HidesNone canonicalPath)).Run start operations roster ↔
      ((machine canonicalPath).staying (Exact canonicalPath)).Run start operations roster := by
  refine Machine.guard_run_iff_staying_run (Kept canonicalPath) kept_start exact_start ?_ ?_
  · rintro roster operation _ hkept rfl
    exact hkept.perform operation
  · rintro roster operation _ hkept hexact rfl
    exact hkept.exact_perform_iff hexact operation

/-! ## An agent that is hidden -/

/-- An agent with an active session id. -/
def resident (agentId activeSessionId : String) : WorkerRosterEntry :=
  { agentId, summary := { activeSessionId := some activeSessionId } }

/-- Two agents are written with one active session id, and the second is deleted. -/
def sharing : List RosterOperation :=
  [.write (resident "a" "s") none none, .write (resident "b" "s") none none, .delete "b"]

/-- The first agent still has its id, and is not found under it. -/
theorem not_exact_shared :
    ¬∀ operations roster, (machine id).Run start operations roster → roster.Exact id := by
  intro h
  have hrun : (machine id).Run start sharing (sharing.foldl (perform id) start) :=
    Machine.Run.of_foldl (fun _ _ => rfl) start sharing
  obtain ⟨found, hfound⟩ := (h sharing _ hrun).activeFinds "s" (stored (resident "a" "s") none none)
    (JsMap.mem_values_iff.mpr ⟨"a", by decide +kernel⟩) rfl
  have hnone : (sharing.foldl (perform id) start).byActiveSessionId "s" = none := by decide +kernel
  cases hfound

end AgentRoster

end Amide
