import Amide.Properties.Session.Invariants

/-!
# What is on disk

While the manager counts as flushed, the session file loads as the entries in memory (`OnDisk`).
A call keeps that if the two ways it can be lost do not occur in it: a line appended behind one
that was never ended, and an append without rollback that fails with a part of its line written.
-/

namespace Amide

open SessionState LineCodec

/-- A flushed manager's file loads as the entries in memory; with `T`, and ends at a line
boundary. -/
def OnDisk (T : Prop) (path : String) (s : SessionState) : Prop :=
  s.manager.flushed = true → ∃ content, s.files path = some content ∧
    (T → Terminated content) ∧ LoadsAs content s.manager.fileEntries

/-- The entry is not held back for want of an assistant message. -/
def writesEntry (m : SessionManager) (e : SessionEntry) : Bool :=
  m.hasAssistant || e.isAssistant || e.persistsWithoutAssistant

variable {T : Prop} {path : String} {s : SessionState}

lemma OnDisk.of_not_flushed (h : s.manager.flushed = false) : OnDisk T path s := by
  intro hflushed
  simp [h] at hflushed

lemma OnDisk.weaken (h : OnDisk True path s) : OnDisk T path s := by
  intro hflushed
  obtain ⟨content, hfile, hterm, hload⟩ := h hflushed
  exact ⟨content, hfile, fun _ => hterm trivial, hload⟩

variable {s' : SessionState}

lemma OnDisk.of_sameTree (h : OnDisk T path s)
    (htree : s'.manager.fileEntries = s.manager.fileEntries)
    (hflushed : s'.manager.flushed = s.manager.flushed) (hfiles : s'.files = s.files) :
    OnDisk T path s' := by
  unfold OnDisk
  rw [htree, hflushed, hfiles]
  exact h

/-! ## Writes -/

variable {e : SessionEntry} {op : SessionOp} {stamp : Stamp} {p : SessionState}

section Writes

variable {T : Prop} {path : String} {s s' : SessionState} {o : WriteOutcome}
  {r : Except SessionError Unit}

/-- Rewriting the file either brings it up to date or leaves everything as it was. -/
theorem rewriteAll_cases (htarget : s.manager.target = some path)
    (h : s.rewriteAll o = (r, s')) :
    (r = .ok () ∧ s' = (s.writeFile path (fileContent s.manager.fileEntries)).setFlushed true) ∨
      (o ≠ .done ∧ r = .error .writeFailed ∧ s' = s) := by
  unfold rewriteAll rewriteFile at h
  rw [htarget] at h
  cases o with
  | done =>
    cases h
    exact .inl ⟨rfl, rfl⟩
  | cut k =>
    cases h
    exact .inr ⟨by simp, rfl, rfl⟩

lemma onDisk_rewritten (hload : Loaded s.manager.fileEntries) : OnDisk True path
      ((s.writeFile path (fileContent s.manager.fileEntries)).setFlushed true) := fun _ =>
  ⟨fileContent s.manager.fileEntries, by simp [setFlushed, writeFile],
    fun _ => terminated_fileContent _, loadsAs_fileContent hload⟩

lemma flushNow_onDisk (htarget : s.manager.target = some path)
    (hload : Loaded s.manager.fileEntries) (hdisk : OnDisk T path s)
    (h : s.flushNow o = (r, s')) :
    OnDisk T path s' ∧ (r = .ok () → s'.manager.flushed = true) := by
  unfold flushNow at h
  rw [htarget] at h
  simp only at h
  split_ifs at h with hflushed
  · cases h
    simp only [Bool.and_eq_true] at hflushed
    exact ⟨hdisk, fun _ => hflushed.1⟩
  · rcases rewriteAll_cases htarget h with ⟨rfl, rfl⟩ | ⟨-, rfl, rfl⟩
    · exact ⟨(onDisk_rewritten hload).weaken, fun _ => rfl⟩
    · exact ⟨hdisk, by simp⟩

lemma restoreFile_onDisk (htarget : s.manager.target = some path)
    (hload : Loaded s.manager.fileEntries) (hflushed : s.manager.flushed = false) :
    OnDisk T path (restoreFile o s) := by
  unfold restoreFile
  split
  · rename_i s' h
    exact (flushNow_onDisk htarget hload (.of_not_flushed hflushed) h).1
  · exact .of_not_flushed rfl

lemma hasAssistant_extendEntries {entries : List FileEntry} :
    (sessionEntries (extendEntries entries e)).any SessionEntry.isAssistant =
      ((sessionEntries entries).any SessionEntry.isAssistant || e.isAssistant) := by
  have hany : ∀ es : List FileEntry, (sessionEntries es).any SessionEntry.isAssistant =
      (es.map FileEntry.assistantId?).any Option.isSome := by
    intro es
    induction es with
    | nil => rfl
    | cons f es ih =>
      cases f with
      | session h => simpa [FileEntry.assistantId?] using ih
      | entry e' =>
        cases ha : e'.isAssistant <;> simp_all [FileEntry.assistantId?]
  have hkeys : ∀ t u, (setUsage t u entries).map FileEntry.assistantId? =
      entries.map FileEntry.assistantId? := fun t u =>
    AssignLast.map_assign _ assistantId?_withUsage _ _
  rw [hany, hany, extendEntries]
  split
  · cases ha : e.isAssistant <;> simp [FileEntry.assistantId?, ha]
  · rw [List.map_append, hkeys]
    cases ha : e.isAssistant <;> simp [FileEntry.assistantId?, ha]

lemma Pushed.writesEntry_eq (hp : Pushed op stamp s e p) :
    (p.manager.hasAssistant || e.persistsWithoutAssistant) = writesEntry s.manager e := by
  unfold SessionManager.hasAssistant writesEntry SessionManager.hasAssistant
  rw [hp.fileEntries, hasAssistant_extendEntries]

/-- What persisting a pushed entry does: it is held back, or the file is written anew, or a line
is appended. -/
theorem Pushed.persistEntry_cases (hp : Pushed op stamp s e p)
    (htarget : s.manager.target = some path) (h : p.persistEntry o e = (r, s')) :
    (writesEntry s.manager e = false ∧ r = .ok () ∧ s' = p.setFlushed false) ∨
      (writesEntry s.manager e = true ∧ (s.manager.flushed = false ∨ s.files path = none) ∧
        p.rewriteAll o = (r, s')) ∨
      (writesEntry s.manager e = true ∧ s.manager.flushed = true ∧
        ∃ content, s.files path = some content ∧ p.appendLine o path content e = (r, s')) := by
  unfold persistEntry at h
  rw [hp.target, htarget] at h
  simp only [hp.flushed, hp.files] at h
  rw [← hp.writesEntry_eq]
  split_ifs at h with hheld
  · cases h
    simp only [Bool.and_eq_true, Bool.not_eq_true'] at hheld
    exact .inl ⟨by simp [hheld], rfl, rfl⟩
  · have hwrites : (p.manager.hasAssistant || e.persistsWithoutAssistant) = true := by
      simp only [Bool.and_eq_true, Bool.not_eq_true', not_and, Bool.not_eq_false] at hheld
      cases ha : p.manager.hasAssistant with
      | true => simp
      | false => simp [hheld ha]
    cases hflushed : s.manager.flushed with
    | false =>
      rw [hflushed] at h
      exact .inr (.inl ⟨hwrites, .inl rfl, h⟩)
    | true =>
      cases hfile : s.files path with
      | none =>
        rw [hflushed, hfile] at h
        exact .inr (.inl ⟨hwrites, .inr rfl, h⟩)
      | some content =>
        rw [hflushed, hfile] at h
        exact .inr (.inr ⟨hwrites, rfl, content, rfl, h⟩)

/-- Persisting a pushed entry keeps the file in step if a line is appended at a line boundary only
and an append that fails has written the whole of its line. -/
theorem Pushed.persistEntry_onDisk (hp : Pushed op stamp s e p)
    (htarget : s.manager.target = some path) (hset : Settled s.manager.fileEntries)
    (he : Untargeted s.manager.fileEntries e) (hdisk : OnDisk T path s)
    (hbound : s.manager.flushed = true → writesEntry s.manager e = true →
      ∀ content ∈ s.files path, Terminated content)
    (huncut : r ≠ .ok () → s.manager.flushed = true → writesEntry s.manager e = true →
      ∀ written, o = .cut written → (sessionCodec.line (.entry e)).length ≤ written)
    (h : p.persistEntry o e = (r, s')) :
    OnDisk True path s' ∧
      (r = .ok () → writesEntry s.manager e = true → s'.manager.flushed = true) := by
  have hload : Loaded p.manager.fileEntries := by
    rw [hp.fileEntries]
    exact (hset.extend he).loaded
  have hne : s.manager.fileEntries ≠ [] := hset.loaded.ne_nil
  rcases hp.persistEntry_cases htarget h with
    ⟨hheld, rfl, rfl⟩ | ⟨hwrites, hnot, hrw⟩ | ⟨hwrites, hflushed, content, hfile, hline⟩
  · exact ⟨.of_not_flushed rfl, by simp [hheld]⟩
  · rcases rewriteAll_cases (hp.target.trans htarget) hrw with ⟨rfl, rfl⟩ | ⟨-, rfl, rfl⟩
    · exact ⟨onDisk_rewritten hload, fun _ _ => rfl⟩
    · refine ⟨fun hflushed => ?_, by simp⟩
      rw [hp.flushed] at hflushed
      obtain ⟨content, hfile, -⟩ := hdisk hflushed
      rcases hnot with hnot | hnot
      · simp [hflushed] at hnot
      · simp [hfile] at hnot
  · have hterm := hbound hflushed hwrites content hfile
    obtain ⟨content', hfile', -, hloads⟩ := hdisk hflushed
    obtain rfl : content = content' := Option.mem_unique hfile hfile'
    have hloads' := loadsAs_append_line hterm hloads hne he
    have hterm' : Terminated (content ++ sessionCodec.line (.entry e)) :=
      terminated_append hterm (sessionCodec.terminated_line _)
    rw [← hp.fileEntries] at hloads'
    cases o with
    | done =>
      cases hline
      exact ⟨fun _ => ⟨_, by simp [writeFile], fun _ => hterm', hloads'⟩,
        fun _ _ => hp.flushed.trans hflushed⟩
    | cut written =>
      cases hline
      have hwhole := take_line_of_length_le (huncut (by simp) hflushed hwrites written rfl)
      exact ⟨fun _ => ⟨_, by simp [writeFile, hwhole], fun _ => hterm', hloads'⟩, by simp⟩

end Writes

/-! ## Calls -/

/-- A call of which nothing is left half done: an append without rollback is not cut short, no
attribution in the session names a new assistant entry, and, where a write may fail, the last
resort of `generateId` draws no id that is taken. -/
structure UncutCall (s : SessionState) (c : SessionCall) : Prop where
  uncut : c.op.rollsBack = false → ∀ e ∈ c.op.made c.stamp s.manager,
    s.manager.flushed = true → writesEntry s.manager e = true →
    ∀ written, c.outcomes.append = .cut written → (sessionCodec.line (.entry e)).length ≤ written
  untargeted : ∀ e ∈ c.op.made c.stamp s.manager, Untargeted s.manager.fileEntries e
  fallback : c.outcomes ≠ allDone → s.manager.byId.has (c.stamp.draws 100) = false

/-- A call under which the file stays in step with the entries: what is more, each line it appends
goes to a file of whole lines. -/
structure CleanCall (path : String) (s : SessionState) (c : SessionCall) : Prop
    extends UncutCall s c where
  boundary : ∀ e ∈ c.op.made c.stamp s.manager, s.manager.flushed = true →
    writesEntry s.manager e = true → ∀ content ∈ s.files path, Terminated content

/-- A session whose file is in step: what a clean call keeps. -/
structure Durable (T : Prop) (path : String) (s : SessionState) : Prop where
  target : s.manager.target = some path
  indexed : Indexed s.manager
  settled : Settled s.manager.fileEntries
  onDisk : OnDisk T path s

lemma Pushed.rollback_onDisk {s₁ : SessionState} (hp : Pushed op stamp s e p)
    (hop : op.rollsBack = true) (hsame : SameEntries p s₁) (h : Durable T path s)
    (hfall : s.manager.byId.has (stamp.draws 100) = false) (restore : WriteOutcome) :
    OnDisk T path (s₁.rollback s.manager.leafId restore) := by
  have hfresh : s.manager.byId.has e.id = false := by
    rw [hp.id_eq]
    exact generateId_notMem hfall
  rw [hp.rollback_eq hop hsame h.indexed.leaf hfresh restore]
  exact restoreFile_onDisk h.target h.settled.loaded rfl

/-- A clean call keeps the file in step, and an append that returns and is not held back leaves
everything on disk. -/
theorem CallStep.onDisk {o : RollbackOutcomes} {r : Except SessionError Unit}
    (hcall : CallStep op stamp o s r s') (h : Durable T path s)
    (hclean : CleanCall path s ⟨op, stamp, o, r⟩) :
    OnDisk T path s' ∧ (r = .ok () → ∀ e ∈ op.made stamp s.manager,
      op.rollsBack = true ∨ writesEntry s.manager e = true → s'.manager.flushed = true) := by
  have hentry : op.body? = none → op.made stamp s.manager = none := by
    intro hop
    unfold SessionOp.made
    split_ifs <;> simp [hop]
  have hsettled : ∀ {e : SessionEntry} {p : SessionState}, Pushed op stamp s e p →
      Loaded p.manager.fileEntries := fun hp => by
    rw [hp.fileEntries]
    exact (h.settled.extend (hclean.untargeted _ hp.entry)).loaded
  have hpersist : ∀ {e : SessionEntry} {p s₁ : SessionState} {r₁ : Except SessionError Unit},
      Pushed op stamp s e p → p.persistEntry o.append e = (r₁, s₁) →
      (op.rollsBack = true → r₁ = .ok ()) → OnDisk True path s₁ ∧
        (r₁ = .ok () → writesEntry s.manager e = true → s₁.manager.flushed = true) := by
    intro e p s₁ r₁ hp hpers hok
    refine hp.persistEntry_onDisk h.target h.settled (hclean.untargeted _ hp.entry) h.onDisk
      (hclean.boundary _ hp.entry) (fun hr => ?_) hpers
    cases hop : op.rollsBack with
    | true => exact absurd (hok hop) hr
    | false => exact hclean.uncut hop _ hp.entry
  cases hcall with
  | refused err => exact ⟨h.onDisk, by simp⟩
  | leaf hop leafId hleaf => exact ⟨h.onDisk, by simp [hentry hop]⟩
  | flushed hop hflush =>
    exact ⟨(flushNow_onDisk h.target h.settled.loaded h.onDisk hflush).1, by simp [hentry hop]⟩
  | appended hop hp hpers =>
    obtain ⟨hdisk, hflushed⟩ := hpersist hp hpers (by simp [hop])
    refine ⟨hdisk.weaken, fun hr e' he' hwrites => ?_⟩
    obtain rfl := Option.mem_unique hp.entry he'
    exact hflushed hr (by simpa [hop] using hwrites)
  | labelled hop hp hbody hpers =>
    obtain ⟨hdisk, hflushed⟩ := hpersist hp hpers (by simp [hop])
    refine ⟨hdisk.weaken.of_sameTree (relabel_sameTree _ _ _ _).fileEntries
      (relabel_flushed _ _ _ _) (relabel_files _ _ _ _), fun hr e' he' hwrites => ?_⟩
    obtain rfl := Option.mem_unique hp.entry he'
    rw [relabel_flushed]
    exact hflushed rfl (by simpa [hop] using hwrites)
  | kept hop hp hpers hflush =>
    obtain ⟨hdisk, -⟩ := hpersist hp hpers fun _ => rfl
    have htree := (persistEntry_sameEntries hpers).sameTree
    obtain ⟨hdisk', hflushed⟩ := flushNow_onDisk
      ((htree.target.trans hp.target).trans h.target) (htree.fileEntries ▸ hsettled hp) hdisk hflush
    exact ⟨hdisk'.weaken, fun _ _ _ _ => hflushed rfl⟩
  | undone hop hp hpers =>
    have hcut := ne_allDone_of_persistEntry hpers
    exact ⟨hp.rollback_onDisk hop (persistEntry_sameEntries hpers) h (hclean.fallback hcut) _,
      by simp⟩
  | unflushed hop hp hpers hflush =>
    have hcut := ne_allDone_of_flushNow hflush
    exact ⟨hp.rollback_onDisk hop
      ((persistEntry_sameEntries hpers).trans (flushNow_sameEntries hflush)) h
      (hclean.fallback hcut) _, by simp⟩

/-- **A clean call keeps a session durable.** -/
theorem Durable.step {c : SessionCall} (h : Durable T path s) (hclean : CleanCall path s c)
    (hstep : sessionMachine.step s c s') : Durable T path s' := by
  have hcall : CallStep c.op c.stamp c.outcomes s c.result s' := .of_run hstep
  exact {
    target := (hcall.target_eq h.indexed hclean.fallback).trans h.target
    indexed := hcall.indexed h.indexed hclean.fallback
    settled := hcall.settled h.indexed hclean.fallback h.settled hclean.untargeted
    onDisk := (hcall.onDisk h hclean).1 }

end Amide
