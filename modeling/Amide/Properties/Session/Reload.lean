import Amide.Properties.Session.WriteFailures

/-!
# Reloading a session

What a manager keeps next to its entries (the index, the labels, the leaf) it keeps call by call,
and a reload makes it anew from the entries in one pass.  The labels of a manager are those its
label entries make one after the other (`Labelled`), and the leaf is the last entry behind an
append; so a reload behind an append that is on disk gives back the whole manager. -/

namespace Amide

open SessionState SessionManager

/-! ## Labels -/

/-- The labels and the times they were set, by the entry they stand on. -/
abbrev Labels := JsMap String String × JsMap String String

def SessionManager.labels (m : SessionManager) : Labels := (m.labelsById, m.labelTimestampsById)

/-- What one entry does to the labels. -/
def Labels.step (l : Labels) (e : SessionEntry) : Labels :=
  match e.body with
  | .label targetId none | .label targetId (some "") => (l.1.delete targetId, l.2.delete targetId)
  | .label targetId (some label) => (l.1.set targetId label, l.2.set targetId e.timestamp)
  | _ => l

def labelsOf (es : List SessionEntry) : Labels := es.foldl Labels.step (JsMap.empty, JsMap.empty)

/-- The labels of a manager are the ones its entries make. -/
def Labelled (m : SessionManager) : Prop := m.labels = labelsOf m.getEntries

variable {e : SessionEntry}

lemma Labels.step_of_not_isLabel (l : Labels) (h : e.isLabel = false) : l.step e = l := by
  obtain ⟨_, _, _, body⟩ := e
  cases body with
  | label t x => cases h
  | _ => rfl

lemma Labels.step_setUsage (l : Labels) (usage : Usage) (e : SessionEntry) :
    l.step (e.setUsage usage) = l.step e := by
  obtain ⟨_, _, _, body⟩ := e
  cases body with
  | message m => cases m <;> rfl
  | _ => rfl

/-- Attributions have no part in the labels. -/
lemma labelsOf_extendEntries (entries : List FileEntry) (e : SessionEntry) :
    labelsOf (sessionEntries (extendEntries entries e)) =
      (labelsOf (sessionEntries entries)).step e := by
  have hmap (es : List SessionEntry) : labelsOf es =
      (es.map fun e (l : Labels) => l.step e).foldl (fun l f => f l)
        (JsMap.empty, JsMap.empty) := by
    rw [labelsOf, List.foldl_map]
  rw [hmap, map_extendEntries fun usage e => funext fun l => l.step_setUsage usage e,
    List.foldl_append, ← hmap]
  rfl

lemma labels_indexEntry (m : SessionManager) (e : SessionEntry) :
    (m.indexEntry e).labels = m.labels.step e := by
  obtain ⟨_, _, _, body⟩ := e
  cases body with
  | label t x =>
    unfold indexEntry Labels.step
    split <;> simp_all [labels]
  | _ => rfl

lemma labels_buildIndex (m : SessionManager) : m.buildIndex.labels = labelsOf m.getEntries := by
  have hfold (m : SessionManager) (es : List SessionEntry) :
      (es.foldl indexEntry m).labels = es.foldl Labels.step m.labels := by
    induction es generalizing m with
    | nil => rfl
    | cons e es ih => rw [List.foldl_cons, ih, labels_indexEntry, List.foldl_cons]
  exact hfold _ _

lemma labels_relabel (targetId : String) (label : Option String) (timestamp : String)
    (s : SessionState) (hbody : e.body = .label targetId label) (htime : e.timestamp = timestamp) :
    (s.relabel targetId label timestamp).manager.labels = s.manager.labels.step e := by
  obtain ⟨id, parentId, _, _⟩ := e
  unfold relabel Labels.step
  split <;> simp_all [labels]

variable {s s' : SessionState}

lemma SameEntries.labels (h : SameEntries s s') : s'.manager.labels = s.manager.labels := by
  rw [h]
  rfl

variable {op : SessionOp} {stamp : Stamp} {p : SessionState}

lemma Pushed.labels (hp : Pushed op stamp s e p) : p.manager.labels = s.manager.labels := by
  obtain ⟨_, -, rfl⟩ := hp.state
  rfl

/-! ## Calls none of whose writes fails -/

/-- All writes of the call are done, and no attribution in the session names its entry, should it
bring a new assistant message. -/
structure WrittenCall (s : SessionState) (c : SessionCall) : Prop where
  done : c.outcomes = allDone
  untargeted : ∀ e ∈ c.op.made c.stamp s.manager, Untargeted s.manager.fileEntries e

lemma WrittenCall.uncut {c : SessionCall} (h : WrittenCall s c) : UncutCall s c where
  uncut _ _ _ _ _ written hcut := by
    rw [h.done] at hcut
    cases hcut
  untargeted := h.untargeted
  fallback hfail := absurd h.done hfail

variable {o : WriteOutcome} {r : Except SessionError Unit}

/-- An append without rollback, other than of a label, leaves the labels as they are. -/
lemma Pushed.labelled_of_persistEntry (hp : Pushed op stamp s e p) (hlabel : e.isLabel = false)
    (h : p.persistEntry o e = (r, s')) (hs : Labelled s.manager) : Labelled s'.manager := by
  have hsame := persistEntry_sameEntries h
  unfold Labelled getEntries at hs ⊢
  rw [hsame.labels, hsame.sameTree.fileEntries, hp.labels, hp.fileEntries,
    labelsOf_extendEntries, Labels.step_of_not_isLabel _ hlabel, hs]

variable {label : Option String}

/-- A label entry is in the maps once it is written. -/
lemma Pushed.labelled_relabel {targetId : String}
    (hp : Pushed op stamp s e p) (hbody : e.body = .label targetId label)
    (h : p.persistEntry o e = (r, s')) (hs : Labelled s.manager) :
    Labelled (s'.relabel targetId label stamp.timestamp).manager := by
  have hsame := persistEntry_sameEntries h
  have htime : e.timestamp = stamp.timestamp := by
    obtain ⟨_, -, -, rfl⟩ := hp.eq
    rfl
  unfold Labelled getEntries at hs ⊢
  rw [labels_relabel targetId label stamp.timestamp s' hbody htime,
    (relabel_sameTree targetId label stamp.timestamp s').fileEntries, hsame.labels,
    hsame.sameTree.fileEntries, hp.labels, hp.fileEntries, labelsOf_extendEntries, hs]

lemma SameEntries.labelled (h : SameEntries s s') (hs : Labelled s.manager) :
    Labelled s'.manager := by
  unfold Labelled getEntries at hs ⊢
  rw [h.labels, h.sameTree.fileEntries, hs]

/-- A label append that is done has changed the maps. -/
lemma appendLabelChange_labelled {targetId : String}
    (hs : Labelled s.manager)
    (h : (SessionOp.appendLabelChange targetId label).run stamp allDone s = (r, s')) :
    Labelled s'.manager := by
  simp only [SessionOp.run, appendLabelChange] at h
  split_ifs at h with hid
  · have hp : Pushed (.appendLabelChange targetId label) stamp s
        (s.newEntry stamp (.label targetId label))
        (s.push (s.newEntry stamp (.label targetId label))) :=
      pushed_newEntry hid rfl rfl fun e he => by
        obtain ⟨_, _, _, _⟩ := e
        cases he
        rfl
    unfold appendBody appendEntry SessionOp.void at h
    cases hpersist : (s.push (s.newEntry stamp (.label targetId label))).persistEntry
        allDone.append (s.newEntry stamp (.label targetId label)) with
    | mk r₁ s₁ =>
      have hdone := persistEntry_done (s.push (s.newEntry stamp (.label targetId label)))
        (s.newEntry stamp (.label targetId label))
      rw [show allDone.append = .done from rfl] at hpersist h
      rw [hpersist] at hdone h
      cases r₁ with
      | error _ => cases hdone
      | ok _ =>
        cases h
        exact hp.labelled_relabel rfl hpersist hs
  · cases h
    exact hs

lemma body?_ne_label (hop : ∀ t l, op ≠ .appendLabelChange t l) {t : String} {l : Option String} :
    op.body? ≠ some (.label t l) := by
  cases op with
  | appendLabelChange t' l' => exact absurd rfl (hop t' l')
  | _ => exact nofun

/-- **A call keeps the labels in step.** -/
lemma Labelled.step {c : SessionCall} (hs : Labelled s.manager) (hc : WrittenCall s c)
    (hstep : sessionMachine.step s c s') : Labelled s'.manager := by
  obtain ⟨op, stamp, outcomes, result⟩ := c
  obtain rfl : outcomes = allDone := hc.done
  by_cases hop : ∃ t l, op = .appendLabelChange t l
  · obtain ⟨t, l, rfl⟩ := hop
    exact appendLabelChange_labelled hs hstep
  · have hlabel : ∀ {e p}, Pushed op stamp s e p → e.isLabel = false := by
      intro e p hp
      have hbody := hp.body_eq
      obtain ⟨_, _, _, body⟩ := e
      cases body with
      | label t l => exact absurd hbody (body?_ne_label fun t l h => hop ⟨t, l, h⟩)
      | _ => rfl
    have hcall : CallStep op stamp allDone s result s' := .of_run hstep
    cases hcall with
    | refused _ => exact hs
    | leaf _ leafId _ => exact hs
    | flushed _ h => exact (flushNow_sameEntries h).labelled hs
    | appended _ hp h => exact hp.labelled_of_persistEntry (hlabel hp) h hs
    | labelled _ hp hbody h => exact hp.labelled_relabel hbody h hs
    | kept _ hp h hflush =>
      exact (flushNow_sameEntries hflush).labelled (hp.labelled_of_persistEntry (hlabel hp) h hs)
    | undone _ _ h => exact absurd rfl (ne_allDone_of_persistEntry h)
    | unflushed _ _ _ h => exact absurd rfl (ne_allDone_of_flushNow h)

/-! ## Opening and creating -/

lemma labelled_indexed (s : SessionState) : Labelled s.indexed.manager := by
  obtain ⟨-, -, hentries, -⟩ := buildIndex_spec s.manager
  change s.manager.buildIndex.labels = labelsOf s.manager.buildIndex.getEntries
  rw [labels_buildIndex, getEntries, getEntries, hentries]

lemma labelled_newSession {env : SessionEnv} (h : s.newSession env = (.ok (), s')) :
    Labelled s'.manager := by
  simp only [newSession] at h
  split at h
  · cases h
  · obtain ⟨-, rfl⟩ := Prod.mk.inj h
    rfl

variable {path : String}

lemma labelled_startSession {env : SessionEnv} (h : s.startSession path env = (.ok (), s')) :
    Labelled s'.manager := by
  unfold startSession at h
  split at h
  · cases h
  · rename_i s₁ hnew
    cases h
    have hnew : Labelled s₁.manager := labelled_newSession hnew
    exact hnew

lemma labelled_useEntries {entries : List FileEntry} {env : OpenEnv}
    (h : s.useEntries entries env o = (.ok (), s')) : Labelled s'.manager := by
  simp only [useEntries] at h
  split_ifs at h
  · split at h
    · cases h
    · cases h
      exact labelled_indexed _
  · cases h
    exact labelled_indexed _

lemma labelled_openSession {dir cwd : String} {env : OpenEnv} {files : Files}
    (h : openSession path dir cwd env o files = (.ok (), s)) : Labelled s.manager := by
  simp only [openSession, setSessionFile] at h
  split at h
  · exact labelled_startSession h
  · split at h
    · split at h
      · cases h
      · rename_i s₁ hstart
        exact (rewriteAll_sameEntries h).labelled (labelled_startSession hstart)
    · exact labelled_useEntries h

lemma Started.labelled {T : Prop} (h : Started T path s) : Labelled s.manager := by
  cases h with
  | created h _ => exact labelled_newSession h
  | opened h _ _ => exact labelled_openSession h

/-! ## The reload -/

/-- An append that returns leaves its entry in front of the leaf. -/
lemma CallStep.leafId_of_made {o : RollbackOutcomes} (h : CallStep op stamp o s r s')
    (hok : r = .ok ()) (he : op.made stamp s.manager = some e) :
    s'.manager.leafId = s'.manager.getEntries.getLast?.map SessionEntry.id := by
  have hbody : op.body? ≠ none := fun hnone => by
    simp [SessionOp.made, hnone] at he
  have pushed {e p} (hp : Pushed op stamp s e p) (hsame : SameTree p.manager s'.manager) :
      s'.manager.leafId = s'.manager.getEntries.getLast?.map SessionEntry.id := by
    rw [hsame.leafId, hp.leafId, ← List.getLast?_map, getEntries,
      hsame.fileEntries, hp.fileEntries, map_extendEntries id_setUsage]
    simp
  cases h with
  | refused _ => cases hok
  | leaf hop | flushed hop => exact absurd hop hbody
  | appended _ hp h => exact pushed hp (persistEntry_sameEntries h).sameTree
  | labelled _ hp _ h =>
    exact pushed hp ((persistEntry_sameEntries h).sameTree.trans (relabel_sameTree _ _ _ _))
  | kept _ hp h hflush =>
    exact pushed hp
      ((persistEntry_sameEntries h).sameTree.trans (flushNow_sameEntries hflush).sameTree)
  | undone => cases hok
  | unflushed => cases hok

/-- **A reload gives back the manager.**  After calls none of whose writes failed, the last of them
an append that is on disk, opening the file gives the header and the entries, the index, the labels,
the leaf and the context the manager holds. -/
theorem reopen_eq_of_written_run {path : String} {s₀ s s' : SessionState}
    {calls : List SessionCall} {c : SessionCall} (hstart : Started True path s₀)
    (hrun : (sessionMachine.guard WrittenCall).Run s₀ calls s) (hc : WrittenCall s c)
    (hstep : sessionMachine.step s c s') (hok : c.result = .ok ())
    (hmade : (c.op.made c.stamp s.manager).isSome = true) (hwritten : s'.manager.flushed = true)
    (dir cwd : String) (env : OpenEnv) (o : WriteOutcome) :
    ∃ s'', openSession path dir cwd env o s'.files = (.ok (), s'') ∧
      s''.manager.fileEntries = s'.manager.fileEntries ∧ s''.manager.byId = s'.manager.byId ∧
      s''.manager.labelsById = s'.manager.labelsById ∧
      s''.manager.labelTimestampsById = s'.manager.labelTimestampsById ∧
      s''.manager.leafId = s'.manager.leafId ∧
      s''.manager.buildSessionContext = s'.manager.buildSessionContext := by
  have hrun' : (sessionMachine.guard UncutCall).Run s₀ calls s :=
    hrun.guard_mono fun _ _ h => h.uncut
  have hdur := hstart.durable.run_uncut hrun'
  have hdur' : Durable True path s' := hdur.step (hdur.clean hc.uncut) hstep
  have hlabelled : Labelled s.manager :=
    hrun.invariant (I := fun s => Labelled s.manager) hstart.labelled
      fun _ _ _ hi hstep => hi.step hstep.2 hstep.1
  have hlabelled' := hlabelled.step hc hstep
  obtain ⟨e, he⟩ := Option.isSome_iff_exists.mp hmade
  have hcall : CallStep c.op c.stamp c.outcomes s c.result s' := .of_run hstep
  have hleaf := hcall.leafId_of_made hok he
  obtain ⟨content, hfile, -, hloads⟩ := hdur'.onDisk hwritten
  obtain ⟨s'', hopen, -, hentries, -, hbyId, hleaf'⟩ :=
    openSession_of_settled hfile hloads hdur'.settled dir cwd env o
  have hlabels : s''.manager.labels = s'.manager.labels := by
    rw [labelled_openSession hopen, hlabelled', getEntries, getEntries, hentries]
  have hbyId' : s''.manager.byId = s'.manager.byId := by
    rw [hbyId, hdur'.indexed.byId, getEntries]
  have hleafId : s''.manager.leafId = s'.manager.leafId := by
    rw [hleaf', hleaf, getEntries]
  refine ⟨s'', hopen, hentries, hbyId', congrArg Prod.fst hlabels, congrArg Prod.snd hlabels,
    hleafId, ?_⟩
  rw [SessionManager.buildSessionContext, SessionManager.buildSessionContext, hentries, hbyId',
    hleafId]

lemma writtenCall_plain {id : String} {op : SessionOp}
    (h : attributions s.manager.fileEntries = []) : WrittenCall s (plainCall id op) where
  done := rfl
  untargeted e _ _ := by simp [h]

/-- A labelled question with its answer, and the leaf back at the question. -/
def rewound : SessionState :=
  (((diskSession.after (say "a" "one")).after (answer "b" "two")).after
    (plainCall "l" (.appendLabelChange "a" (some "start")))).after (plainCall "x" (.branch "a"))

/-- Another question behind the first. -/
theorem reopen_eq_of_written_run_rewound :
    ∃ s', openSession "//new.jsonl" "/" "/" plainEnv .done (rewound.after (say "c" "three")).files =
        (.ok (), s') ∧
      s'.manager.fileEntries = (rewound.after (say "c" "three")).manager.fileEntries ∧
      s'.manager.labelsById = (rewound.after (say "c" "three")).manager.labelsById ∧
      s'.manager.leafId = some "c" ∧ s'.manager.buildSessionContext =
        (rewound.after (say "c" "three")).manager.buildSessionContext := by
  have h₁ := run_after (.nil : (sessionMachine.guard WrittenCall).Run diskSession [] _)
    (say "a" "one") rfl (writtenCall_plain rfl)
  have h₂ := run_after h₁ (answer "b" "two") rfl (writtenCall_plain rfl)
  have h₃ := run_after h₂ (plainCall "l" (.appendLabelChange "a" (some "start"))) rfl
    (writtenCall_plain rfl)
  have h₄ := run_after h₃ (plainCall "x" (.branch "a")) rfl (writtenCall_plain rfl)
  have hcreate : createSession "/" "/" true plainEnv.toSessionEnv (fun _ => none) =
      (.ok (), diskSession) := rfl
  obtain ⟨s', hopen, hentries, -, hlabels, -, hleaf, hcontext⟩ :=
    reopen_eq_of_written_run (.created hcreate rfl) h₄ (writtenCall_plain rfl)
      (Prod.ext rfl rfl : sessionMachine.step rewound (say "c" "three") _) rfl rfl rfl "/" "/"
      plainEnv .done
  exact ⟨s', hopen, hentries, hlabels, hleaf, hcontext⟩

end Amide
