import Amide.Properties.Session.Steps

/-!
# Invariants of the manager in memory

The index is the index of the entries and the leaf is in it (`Indexed`); the header in front is of
the current version and the attributions are folded (`Settled`).  Persisting an entry changes
nothing of this (`persistEntry_sameEntries`), so it is enough to look at the entry being pushed and
at a rollback, which takes exactly that entry out again (`Pushed.rollback_eq`).
-/

namespace Amide

open SessionState

/-! ## What persisting leaves alone -/

/-- The two states differ in the flushed flag and the files only. -/
def SameEntries (s s' : SessionState) : Prop :=
  s'.manager = { s.manager with flushed := s'.manager.flushed }

lemma SameEntries.refl (s : SessionState) : SameEntries s s := rfl

variable {s₁ : SessionState}

lemma SameEntries.trans {s₂ s₃ : SessionState} (h : SameEntries s₁ s₂) (h' : SameEntries s₂ s₃) :
    SameEntries s₁ s₃ := by
  unfold SameEntries at *
  rw [h', h]

variable {s s' : SessionState} {r : Except SessionError Unit} {o : WriteOutcome}

lemma rewriteFile_sameEntries (h : s.rewriteFile o = (r, s')) :
    s'.manager = s.manager := by
  unfold rewriteFile at h
  split at h
  · cases h
    rfl
  · split at h <;>
    · cases h
      rfl

lemma rewriteAll_sameEntries (h : s.rewriteAll o = (r, s')) :
    SameEntries s s' := by
  unfold rewriteAll at h
  split at h
  · rename_i s₁ hrw
    cases h
    simp [SameEntries, setFlushed, rewriteFile_sameEntries hrw]
  · rename_i s₁ hrw
    cases h
    simp [SameEntries, rewriteFile_sameEntries hrw]

lemma flushNow_sameEntries (h : s.flushNow o = (r, s')) :
    SameEntries s s' := by
  unfold flushNow at h
  split at h
  · cases h
    exact .refl s
  · split_ifs at h
    · cases h
      exact .refl s
    · exact rewriteAll_sameEntries h

variable {e : SessionEntry}

lemma appendLine_sameEntries {path : String} {content : List UInt8}
    (h : s.appendLine o path content e = (r, s')) : s'.manager = s.manager := by
  unfold appendLine at h
  split at h <;>
  · cases h
    rfl

lemma persistEntry_sameEntries (h : s.persistEntry o e = (r, s')) :
    SameEntries s s' := by
  unfold persistEntry at h
  split at h
  · cases h
    exact .refl s
  · split_ifs at h
    · cases h
      rfl
    · split at h
      · simp [SameEntries, appendLine_sameEntries h]
      · exact rewriteAll_sameEntries h

/-- No write is cut. -/
def allDone : RollbackOutcomes := ⟨.done, .done, .done⟩

lemma rewriteAll_done (s : SessionState) : (s.rewriteAll .done).1 = .ok () := by
  unfold rewriteAll rewriteFile
  cases s.manager.target <;> rfl

lemma flushNow_done (s : SessionState) : (s.flushNow .done).1 = .ok () := by
  unfold flushNow
  split
  · rfl
  · split_ifs
    · rfl
    · exact rewriteAll_done s

lemma persistEntry_done (s : SessionState) (e : SessionEntry) :
    (s.persistEntry .done e).1 = .ok () := by
  unfold persistEntry
  split
  · rfl
  · split_ifs
    · rfl
    · split
      · rfl
      · exact rewriteAll_done s

variable {o : RollbackOutcomes} {err : SessionError}

lemma ne_allDone_of_persistEntry
    (h : s.persistEntry o.append e = (.error err, s')) : o ≠ allDone := by
  rintro rfl
  have hok := persistEntry_done s e
  rw [allDone, h] at *
  cases hok

lemma ne_allDone_of_flushNow (h : s.flushNow o.flush = (.error err, s')) :
    o ≠ allDone := by
  rintro rfl
  have hok := flushNow_done s
  rw [allDone, h] at *
  cases hok

/-! ## Pushing an entry -/

lemma generateId_notMem {has : String → Bool} {draws : Draws}
    (hfall : has (draws 100) = false) : has (generateId has draws) = false := by
  unfold generateId
  split
  · rename_i i hfind
    simpa using List.find?_some hfind
  · exact hfall

section Pushed

variable {op : SessionOp} {stamp : Stamp} {s p : SessionState} {e : SessionEntry}

section
variable (hp : Pushed op stamp s e p)
include hp

lemma Pushed.files : p.files = s.files := by
  obtain ⟨_, -, rfl⟩ := hp.state
  rfl

lemma Pushed.target : p.manager.target = s.manager.target := by
  obtain ⟨_, -, rfl⟩ := hp.state
  rfl

lemma Pushed.flushed : p.manager.flushed = s.manager.flushed := by
  obtain ⟨_, -, rfl⟩ := hp.state
  rfl

lemma Pushed.fileEntries : p.manager.fileEntries = extendEntries s.manager.fileEntries e := by
  obtain ⟨_, -, rfl⟩ := hp.state
  rfl

lemma Pushed.leafId : p.manager.leafId = some e.id := by
  obtain ⟨_, -, rfl⟩ := hp.state
  rfl

lemma Pushed.eq : ∃ body, op.body? = some body ∧ op.accepts s.manager = true ∧
    e = { id := generateId s.manager.byId.has stamp.draws, parentId := op.parentId s.manager,
          timestamp := stamp.timestamp, body } := by
  have h := hp.entry
  unfold SessionOp.made at h
  split_ifs at h with hacc
  obtain ⟨body, hbody, rfl⟩ := Option.map_eq_some_iff.mp h
  exact ⟨body, hbody, hacc, rfl⟩

lemma Pushed.id_eq : e.id = generateId s.manager.byId.has stamp.draws := by
  obtain ⟨_, -, -, rfl⟩ := hp.eq
  rfl

lemma Pushed.body_eq : op.body? = some e.body := by
  obtain ⟨_, hbody, -, rfl⟩ := hp.eq
  exact hbody

/-- The operations with a rollback append no attributions. -/
theorem Pushed.attribution?_of_rollsBack (hop : op.rollsBack = true) :
    FileEntry.attribution? (.entry e) = none := by
  have hbody := hp.body_eq
  obtain ⟨_, _, _, body⟩ := e
  cases op with
  | appendCustomEntryWithRollback t d | appendCustomMessageEntryWithRollback m =>
    cases hbody
    rfl
  | _ => cases hop

/-- A rollback takes out exactly the entry the append brought in. -/
theorem Pushed.rollback_eq (hop : op.rollsBack = true) (hsame : SameEntries p s₁)
    (hleaf : ∀ id ∈ s.manager.leafId, s.manager.byId.has id = true)
    (hfresh : s.manager.byId.has e.id = false) (restore : WriteOutcome) :
    s₁.rollback s.manager.leafId restore =
      restoreFile restore (({ s with files := s₁.files } : SessionState).setFlushed false) := by
  have hattr := hp.attribution?_of_rollsBack hop
  have hne : some e.id ≠ s.manager.leafId := by
    intro h
    have := hleaf e.id h.symm
    simp [hfresh] at this
  have hget : s.manager.byId.get? e.id = none := JsMap.has_eq_false_iff.mp hfresh
  obtain ⟨byId, hcase, rfl⟩ := hp.state
  have hbyId : byId = s.manager.byId := by
    rcases hcase with ⟨h, -⟩ | ⟨a, target, hbody, -⟩
    · exact h
    · obtain ⟨_, _, _, body⟩ := e
      cases hbody
      cases hattr
  subst hbyId
  unfold rollback
  rw [hsame]
  simp only [if_neg hne, extendEntries, hattr, JsMap.delete_set_of_get?_none hget,
    List.dropLast_concat, setFlushed]

end

end Pushed

/-! ## The index -/

/-- The index of a manager is the index of its entries, and its leaf is in it. -/
structure Indexed (m : SessionManager) : Prop where
  byId : m.byId = JsMap.index SessionEntry.id m.getEntries
  leaf : ∀ id ∈ m.leafId, m.byId.has id = true

variable {entries : List FileEntry}

/-- Setting the usage of an entry replaces the entry in the index. -/
theorem index_setUsage {targetId : String} {target : SessionEntry} (usage : Usage)
    (hget : (JsMap.index SessionEntry.id (sessionEntries entries)).get? targetId = some target)
    (hassist : target.isAssistant = true) :
    JsMap.index SessionEntry.id (sessionEntries (setUsage targetId usage entries)) =
      (JsMap.index SessionEntry.id (sessionEntries entries)).set targetId
        (target.setUsage usage) := by
  induction entries using List.reverseRecOn with
  | nil => simp at hget
  | append_singleton entries f ih =>
    cases f with
    | session h =>
      have hkeep : setUsage targetId usage (entries ++ [.session h]) =
          setUsage targetId usage entries ++ [.session h] :=
        AssignLast.assign_concat_of_key_none entries rfl
      rw [hkeep]
      simp only [sessionEntries_append, sessionEntries_session_cons, sessionEntries_nil,
        List.append_nil] at hget ⊢
      exact ih hget
    | entry e =>
      simp only [sessionEntries_append, sessionEntries_entry_cons, sessionEntries_nil,
        JsMap.index_append_singleton, JsMap.get?_set] at hget
      by_cases he : e.id = targetId
      · -- the entry at the end is the target
        rw [if_pos he] at hget
        obtain rfl := Option.some.inj hget
        have hlast : setUsage targetId usage (entries ++ [.entry e]) =
            entries ++ [(FileEntry.entry e).withUsage usage] :=
          AssignLast.assign_one_concat usage entries
            (by simp [FileEntry.assistantId?, hassist, he])
        rw [hlast, withUsage_entry]
        simp [JsMap.index_append_singleton, he]
      · rw [if_neg he] at hget
        have hkeep : setUsage targetId usage (entries ++ [.entry e]) =
            setUsage targetId usage entries ++ [.entry e] := by
          cases ha : e.isAssistant with
          | false =>
            exact AssignLast.assign_concat_of_key_none entries (assistantId?_entry_of_false ha)
          | true =>
            exact AssignLast.assign_concat_of_none entries (k := e.id)
              (by simp [FileEntry.assistantId?, ha]) (by simp [AssignLast.one, he])
        rw [hkeep]
        simp only [sessionEntries_append, sessionEntries_entry_cons, sessionEntries_nil,
          JsMap.index_append_singleton, ih hget]
        exact JsMap.set_comm_of_get?_some (Ne.symm he) hget _ _

variable {op : SessionOp} {stamp : Stamp} {p : SessionState}

/-- Pushing an entry keeps the index. -/
theorem Pushed.indexed (hp : Pushed op stamp s e p) (h : Indexed s.manager) :
    Indexed p.manager := by
  obtain ⟨byId, hcase, rfl⟩ := hp.state
  refine ⟨?_, by simp [JsMap.has]⟩
  rcases hcase with ⟨rfl, hattr⟩ | ⟨a, target, hbody, hget, hassist, rfl⟩
  · simp only [SessionManager.getEntries, extendEntries, hattr, sessionEntries_append,
      sessionEntries_entry_cons, sessionEntries_nil, JsMap.index_append_singleton]
    rw [h.byId]
    rfl
  · have hattr : FileEntry.attribution? (.entry e) = some (a.targetId, a.aggregateUsage) := by
      obtain ⟨_, _, _, body⟩ := e
      cases hbody
      rfl
    simp only [SessionManager.getEntries, extendEntries, hattr, sessionEntries_append,
      sessionEntries_entry_cons, sessionEntries_nil, JsMap.index_append_singleton]
    rw [h.byId] at hget ⊢
    rw [index_setUsage a.aggregateUsage hget hassist]
    rfl

lemma Pushed.has_byId (hp : Pushed op stamp s e p) {id : String}
    (h : s.manager.byId.has id = true) : p.manager.byId.has id = true := by
  obtain ⟨byId, hcase, rfl⟩ := hp.state
  have hbyId : byId.has id = true := by
    rcases hcase with ⟨rfl, -⟩ | ⟨a, target, -, hget, -, rfl⟩
    · exact h
    · rwa [JsMap.has_set_of_get?_some hget]
  obtain ⟨v, hv⟩ := JsMap.has_iff.mp hbyId
  rw [JsMap.has_iff]
  simp only [JsMap.get?_set]
  split_ifs
  · exact ⟨e, rfl⟩
  · exact ⟨v, hv⟩

lemma Pushed.parentId_has (hp : Pushed op stamp s e p) (hidx : Indexed s.manager) :
    ∀ id ∈ e.parentId, s.manager.byId.has id = true := by
  obtain ⟨body, -, hacc, rfl⟩ := hp.eq
  intro id hid
  cases op with
  | branchWithSummary b m d h u =>
    cases b with
    | none => cases hid
    | some b =>
      obtain rfl : b = id := Option.some.inj hid
      exact hacc
  | _ => exact hidx.leaf id hid

/-! ## The entries -/

/-- The entries in memory: a header of the current version in front, the attributions folded. -/
structure Settled (entries : List FileEntry) : Prop where
  header : ∃ h rest, entries = .session h :: rest ∧
    currentSessionVersion ≤ h.version.getD 1 ∧ lacksDepth h = false
  folded : applyChildUsageAttributions entries = entries

lemma Settled.loaded (h : Settled entries) : Loaded entries where
  header := by
    obtain ⟨hd, rest, rfl, -⟩ := h.header
    exact ⟨hd, rest, rfl⟩
  folded := h.folded

lemma Settled.extend (h : Settled entries) (he : Untargeted entries e) :
    Settled (extendEntries entries e) where
  header := by
    obtain ⟨hd, rest, rfl, hver, hdepth⟩ := h.header
    unfold extendEntries
    split
    · exact ⟨hd, rest ++ [.entry e], rfl, hver, hdepth⟩
    · exact ⟨hd, _, rfl, hver, hdepth⟩
  folded := applyChildUsageAttributions_extendEntries h.folded he

/-! ## Calls -/

/-- The two managers agree on the entries, the index, the leaf and the file they are written to. -/
structure SameTree (m m' : SessionManager) : Prop where
  fileEntries : m'.fileEntries = m.fileEntries
  byId : m'.byId = m.byId
  leafId : m'.leafId = m.leafId
  target : m'.target = m.target

lemma SameEntries.sameTree (h : SameEntries s s') : SameTree s.manager s'.manager := by
  rw [h]
  exact ⟨rfl, rfl, rfl, rfl⟩

lemma SameTree.trans {m₁ m₂ m₃ : SessionManager} (h : SameTree m₁ m₂) (h' : SameTree m₂ m₃) :
    SameTree m₁ m₃ where
  fileEntries := h'.fileEntries.trans h.fileEntries
  byId := h'.byId.trans h.byId
  leafId := h'.leafId.trans h.leafId
  target := h'.target.trans h.target

lemma SameTree.indexed {m m' : SessionManager} (h : SameTree m m') (hi : Indexed m) :
    Indexed m' where
  byId := by rw [h.byId, hi.byId, SessionManager.getEntries, SessionManager.getEntries,
    h.fileEntries]
  leaf := by rw [h.byId, h.leafId]; exact hi.leaf

variable (targetId : String)

lemma relabel_sameTree (label : Option String) (timestamp : String) (s : SessionState) :
    SameTree s.manager (s.relabel targetId label timestamp).manager := by
  unfold relabel
  split <;> exact ⟨rfl, rfl, rfl, rfl⟩

@[simp] lemma relabel_files (label : Option String) (timestamp : String) (s : SessionState) :
    (s.relabel targetId label timestamp).files = s.files := by
  unfold relabel
  split <;> rfl

@[simp] lemma relabel_flushed (label : Option String) (timestamp : String) (s : SessionState) :
    (s.relabel targetId label timestamp).manager.flushed = s.manager.flushed := by
  unfold relabel
  split <;> rfl

lemma restoreFile_sameTree (o : WriteOutcome) (s : SessionState) :
    SameTree s.manager (restoreFile o s).manager := by
  unfold restoreFile
  split
  · rename_i s' h
    exact (flushNow_sameEntries h).sameTree
  · rename_i s' h
    exact (flushNow_sameEntries h).sameTree.trans ⟨rfl, rfl, rfl, rfl⟩

/-- A rolled back append leaves the tree as it was. -/
theorem Pushed.rollback_sameTree (hp : Pushed op stamp s e p) (hop : op.rollsBack = true)
    (hsame : SameEntries p s₁) (hidx : Indexed s.manager)
    (hfall : s.manager.byId.has (stamp.draws 100) = false) (restore : WriteOutcome) :
    SameTree s.manager (s₁.rollback s.manager.leafId restore).manager := by
  have hfresh : s.manager.byId.has e.id = false := by
    rw [hp.id_eq]
    exact generateId_notMem hfall
  rw [hp.rollback_eq hop hsame hidx.leaf hfresh restore]
  have hflag : SameTree s.manager
      (({ s with files := s₁.files } : SessionState).setFlushed false).manager :=
    ⟨rfl, rfl, rfl, rfl⟩
  exact hflag.trans (restoreFile_sameTree restore _)

/-- What a call does to the tree: nothing, or it moves the leaf, or one entry is pushed. -/
theorem CallStep.tree (h : CallStep op stamp o s r s') (hidx : Indexed s.manager)
    (hfall : o ≠ allDone → s.manager.byId.has (stamp.draws 100) = false) :
    SameTree s.manager s'.manager ∨ (∃ leafId, (∀ id ∈ leafId, s.manager.byId.has id = true) ∧
        SameTree (s.setLeaf leafId).manager s'.manager) ∨
      ∃ e p, Pushed op stamp s e p ∧ SameTree p.manager s'.manager := by
  cases h with
  | refused e => exact .inl ⟨rfl, rfl, rfl, rfl⟩
  | leaf hop leafId h => exact .inr (.inl ⟨leafId, h, rfl, rfl, rfl, rfl⟩)
  | flushed hop h => exact .inl (flushNow_sameEntries h).sameTree
  | appended hop hp h => exact .inr (.inr ⟨_, _, hp, (persistEntry_sameEntries h).sameTree⟩)
  | labelled hop hp hbody h =>
    exact .inr (.inr ⟨_, _, hp,
      (persistEntry_sameEntries h).sameTree.trans (relabel_sameTree _ _ _ _)⟩)
  | kept hop hp h hflush =>
    exact .inr (.inr ⟨_, _, hp,
      (persistEntry_sameEntries h).sameTree.trans (flushNow_sameEntries hflush).sameTree⟩)
  | undone hop hp h =>
    have hcut := ne_allDone_of_persistEntry h
    exact .inl (hp.rollback_sameTree hop (persistEntry_sameEntries h) hidx (hfall hcut) _)
  | unflushed hop hp h hflush =>
    have hcut := ne_allDone_of_flushNow hflush
    exact .inl (hp.rollback_sameTree hop
      ((persistEntry_sameEntries h).trans (flushNow_sameEntries hflush)) hidx (hfall hcut) _)

lemma setLeaf_indexed {leafId : Option String} (h : Indexed s.manager)
    (hleaf : ∀ id ∈ leafId, s.manager.byId.has id = true) : Indexed (s.setLeaf leafId).manager :=
  ⟨h.byId, hleaf⟩

/-- Every call keeps the index. -/
theorem CallStep.indexed (h : CallStep op stamp o s r s') (hidx : Indexed s.manager)
    (hfall : o ≠ allDone → s.manager.byId.has (stamp.draws 100) = false) :
    Indexed s'.manager := by
  rcases h.tree hidx hfall with hsame | ⟨leafId, hleaf, hsame⟩ | ⟨e, p, hp, hsame⟩
  · exact hsame.indexed hidx
  · exact hsame.indexed (setLeaf_indexed hidx hleaf)
  · exact hsame.indexed (hp.indexed hidx)

section
variable (h : CallStep op stamp o s r s') (hidx : Indexed s.manager)
  (hfall : o ≠ allDone → s.manager.byId.has (stamp.draws 100) = false)
include h hidx hfall

/-- Every call keeps the entries settled, if no attribution among them names a new assistant
entry. -/
theorem CallStep.settled (hset : Settled s.manager.fileEntries)
    (huntargeted : ∀ e ∈ op.made stamp s.manager, Untargeted s.manager.fileEntries e) :
    Settled s'.manager.fileEntries := by
  rcases h.tree hidx hfall with hsame | ⟨leafId, -, hsame⟩ | ⟨e, p, hp, hsame⟩
  · rwa [hsame.fileEntries]
  · rwa [hsame.fileEntries]
  · rw [hsame.fileEntries, hp.fileEntries]
    exact hset.extend (huntargeted e hp.entry)

lemma CallStep.target_eq : s'.manager.target = s.manager.target := by
  rcases h.tree hidx hfall with hsame | ⟨leafId, -, hsame⟩ | ⟨e, p, hp, hsame⟩
  · exact hsame.target
  · exact hsame.target
  · rw [hsame.target, hp.target]

end

end Amide
