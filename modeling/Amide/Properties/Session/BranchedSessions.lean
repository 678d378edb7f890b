import Amide.Construction.Session.Branching
import Amide.Properties.Session.Trees

/-!
# Sessions made of one branch

`createBranchedSession` keeps the entries of a branch that are no labels, with the parents they
had, and writes the labels anew at the end.  An entry whose parent was a label is cut off from
what stands in front of it, so the conversation is preserved exactly when there is none
(`createBranchedSession_preserves_iff`).
-/

namespace Amide

open SessionState ParentTree SessionManager List

/-! ## Labels of a running session -/

/-- No entry is labelled with the empty string. -/
def LabelsNonempty (m : SessionManager) : Prop :=
  ∀ id l, m.labelsById.get? id = some l → l ≠ ""

variable {s s' : SessionState}

lemma SameEntries.labelsById (h : SameEntries s s') :
    s'.manager.labelsById = s.manager.labelsById := by
  rw [h]

variable {e : SessionEntry} {op : SessionOp} {stamp : Stamp}

lemma Pushed.labelsById {p : SessionState}
    (hp : Pushed op stamp s e p) : p.manager.labelsById = s.manager.labelsById := by
  obtain ⟨_, -, rfl⟩ := hp.state
  rfl

lemma restoreFile_labelsById (o : WriteOutcome) (s : SessionState) :
    (restoreFile o s).manager.labelsById = s.manager.labelsById := by
  unfold restoreFile
  split
  · rename_i s' h
    exact (flushNow_sameEntries h).labelsById
  · rename_i s' h
    exact (flushNow_sameEntries h).labelsById

lemma rollback_labelsById (leafId : Option String) (o : WriteOutcome) (s : SessionState) :
    (s.rollback leafId o).manager.labelsById = s.manager.labelsById := by
  unfold rollback
  split
  · rfl
  · split_ifs
    · rfl
    · exact restoreFile_labelsById _ _

lemma labelsNonempty_of_newSession {env : SessionEnv} (h : s.newSession env = (.ok (), s')) :
    LabelsNonempty s'.manager := by
  simp only [newSession] at h
  split at h
  · cases h
  · obtain ⟨-, rfl⟩ := Prod.mk.inj h
    intro id l hl
    simp at hl

lemma relabel_labelsNonempty (h : LabelsNonempty s.manager) (targetId : String)
    (label : Option String) (timestamp : String) :
    LabelsNonempty (s.relabel targetId label timestamp).manager := by
  unfold relabel
  split
  · intro id l hl
    exact h id l (JsMap.of_get?_delete hl)
  · intro id l hl
    exact h id l (JsMap.of_get?_delete hl)
  · rename_i l' hne
    intro id l hl
    simp only [JsMap.get?_set] at hl
    split_ifs at hl
    · cases hl
      exact fun h => hne (by rw [h])
    · exact h id l hl

lemma CallStep.labelsNonempty {o : RollbackOutcomes}
    {r : Except SessionError Unit} (hcall : CallStep op stamp o s r s')
    (h : LabelsNonempty s.manager) : LabelsNonempty s'.manager := by
  have hsame : ∀ {t t' : SessionState}, t'.manager.labelsById = t.manager.labelsById →
      LabelsNonempty t.manager → LabelsNonempty t'.manager := by
    intro t t' heq ht
    rwa [LabelsNonempty, heq]
  cases hcall with
  | refused e => exact h
  | leaf hop leafId hleaf => exact h
  | flushed hop hflush => exact hsame (flushNow_sameEntries hflush).labelsById h
  | appended hop hp hpers =>
    exact hsame ((persistEntry_sameEntries hpers).labelsById.trans hp.labelsById) h
  | labelled hop hp hbody hpers =>
    exact relabel_labelsNonempty
      (hsame ((persistEntry_sameEntries hpers).labelsById.trans hp.labelsById) h) _ _ _
  | kept hop hp hpers hflush =>
    exact hsame ((flushNow_sameEntries hflush).labelsById.trans
      ((persistEntry_sameEntries hpers).labelsById.trans hp.labelsById)) h
  | undone hop hp hpers =>
    exact hsame ((rollback_labelsById _ _ _).trans
      ((persistEntry_sameEntries hpers).labelsById.trans hp.labelsById)) h
  | unflushed hop hp hpers hflush =>
    exact hsame ((rollback_labelsById _ _ _).trans ((flushNow_sameEntries hflush).labelsById.trans
      ((persistEntry_sameEntries hpers).labelsById.trans hp.labelsById))) h

/-! ## The label entries made -/

/-- The draws for the label entries from the `i`-th on: none is empty, and a whole UUID drawn as
a last resort is none of the ids taken and nothing drawn before. -/
structure FreshDraws (draws : ℕ → Draws) (i : ℕ) (taken : List String) : Prop where
  nonempty : ∀ j n, draws j n ≠ ""
  fallback : ∀ j, i ≤ j → draws j 100 ∉ taken
  distinct : ∀ j k, j < k → draws k 100 ≠ draws j 100 ∧ ∀ n, draws k 100 ≠ shortId (draws j n)

variable {draws : ℕ → Draws} {i : ℕ} {taken : List String}

lemma FreshDraws.subset {taken' : List String} (h : FreshDraws draws i taken)
    (hsub : taken' ⊆ taken) : FreshDraws draws i taken' where
  nonempty := h.nonempty
  fallback j hj hmem := h.fallback j hj (hsub hmem)
  distinct := h.distinct

lemma generateId_cases (has : String → Bool) (draws : Draws) :
    (∃ n, generateId has draws = shortId (draws n)) ∨ generateId has draws = draws 100 := by
  unfold generateId
  split
  · exact .inl ⟨_, rfl⟩
  · exact .inr rfl

lemma FreshDraws.next (h : FreshDraws draws i taken) (has : String → Bool) :
    FreshDraws draws (i + 1) (taken ++ [generateId has (draws i)]) where
  nonempty := h.nonempty
  fallback j hj hmem := by
    rcases mem_append.mp hmem with hmem | hmem
    · exact h.fallback j (by omega) hmem
    · have heq := mem_singleton.mp hmem
      obtain ⟨hwhole, hshort⟩ := h.distinct i j (by omega)
      rcases generateId_cases has (draws i) with ⟨n, hn⟩ | hn
      · exact hshort n (heq.trans hn)
      · exact hwhole (heq.trans hn)
  distinct := h.distinct

lemma FreshDraws.notMem (h : FreshDraws draws i taken) :
    generateId taken.contains (draws i) ∉ taken := by
  have hfall : taken.contains (draws i 100) = false := by
    simpa using h.fallback i le_rfl
  simpa using generateId_notMem hfall

variable {ls : List LabelToWrite} {parentId : Option String}

lemma isLabel_of_mem_makeLabelEntries
    (h : e ∈ makeLabelEntries draws i taken parentId ls) : e.isLabel = true := by
  induction ls generalizing i taken parentId with
  | nil => simp [makeLabelEntries] at h
  | cons l ls ih =>
    rcases mem_cons.mp h with rfl | h
    · rfl
    · exact ih h

/-- The label entries prolong a path. -/
theorem makeLabelEntries_path {base : List SessionEntry}
    (hdraws : FreshDraws draws i (base.map SessionEntry.id))
    (hpath : RootPath SessionEntry.id SessionEntry.parentId base)
    (hnd : (base.map SessionEntry.id).Nodup) (hids : ∀ e ∈ base, e.id ≠ "") :
    ∀ es, base ++ makeLabelEntries draws i (base.map SessionEntry.id)
        (base.getLast?.map SessionEntry.id) ls = es →
      RootPath SessionEntry.id SessionEntry.parentId es ∧ (es.map SessionEntry.id).Nodup ∧
        ∀ e ∈ es, e.id ≠ "" := by
  induction ls generalizing i base with
  | nil =>
    rintro es rfl
    simpa [makeLabelEntries] using And.intro hpath ⟨hnd, hids⟩
  | cons l ls ih =>
    rintro es rfl
    have hnew := hdraws.notMem
    have hnext := hdraws.next (base.map SessionEntry.id).contains
    generalize hid : generateId (base.map SessionEntry.id).contains (draws i) = id at hnew hnext
    have hne : id ≠ "" := hid ▸ generateId_ne_empty (hdraws.nonempty i)
    let e : SessionEntry :=
      ⟨id, base.getLast?.map SessionEntry.id, l.timestamp, .label l.targetId (some l.label)⟩
    have hpath' : RootPath SessionEntry.id SessionEntry.parentId (base ++ [e]) := hpath.snoc rfl
    have hnd' : ((base ++ [e]).map SessionEntry.id).Nodup := by
      rw [map_append, map_singleton, ← concat_eq_append]
      exact hnd.concat hnew
    have hids' : ∀ x ∈ base ++ [e], x.id ≠ "" := by
      intro x hx
      rcases mem_append.mp hx with hx | hx
      · exact hids x hx
      · rw [mem_singleton.mp hx]
        exact hne
    have hstep := ih (by simpa using hnext) hpath' hnd' hids' _ rfl
    simpa [makeLabelEntries, hid, e] using hstep

/-! ## The labels after the index is built -/

lemma foldl_indexEntry_labels_of_not {es : List SessionEntry} (m : SessionManager)
    (h : ∀ e ∈ es, e.isLabel = false) :
    (es.foldl indexEntry m).labelsById = m.labelsById := by
  induction es generalizing m with
  | nil => rfl
  | cons e es ih =>
    rw [foldl_cons, ih _ fun x hx => h x (by simp [hx])]
    have he := h e (by simp)
    obtain ⟨_, _, _, body⟩ := e
    cases body with
    | label t l => cases he
    | _ => rfl

lemma foldl_indexEntry_makeLabelEntries (m : SessionManager)
    (h : ∀ l ∈ ls, l.label ≠ "") :
    ((makeLabelEntries draws i taken parentId ls).foldl indexEntry m).labelsById =
      (ls.map fun l => (l.targetId, l.label)).foldl (fun b p => b.set p.1 p.2) m.labelsById := by
  induction ls generalizing m i taken parentId with
  | nil => rfl
  | cons l ls ih =>
    have hl := h l (by simp)
    rw [makeLabelEntries, foldl_cons, ih _ fun x hx => h x (by simp [hx])]
    simp only [map_cons, foldl_cons]
    unfold indexEntry
    split
    · rename_i heq
      simp at heq
    · rename_i heq
      simp only [EntryBody.label.injEq, Option.some.injEq] at heq
      exact absurd heq.2 hl
    · rename_i heq
      simp only [EntryBody.label.injEq, Option.some.injEq] at heq
      rw [heq.1, heq.2]
    · rename_i hneither
      exact absurd rfl (hneither l.targetId l.label)

/-! ## The branched session -/

/-- The entries a session has but for its labels. -/
def SessionManager.keptEntries (m : SessionManager) : List SessionEntry :=
  m.getEntries.filter fun e => !e.isLabel

/-- The conversation up to `leafId` is what the branched session holds: the context is the same,
the kept entries hang together and have the labels they had. -/
structure BranchPreserved (m : SessionManager) (leafId : String) (m' : SessionManager) : Prop where
  context : m'.buildSessionContext =
    Amide.buildSessionContext m.fileEntries (some (some leafId)) m.byId
  parents : ∀ e ∈ m'.keptEntries, ∀ p ∈ e.parentId, ∃ q ∈ m'.keptEntries, q.id = p
  labels : ∀ e ∈ m'.keptEntries, m'.labelsById.get? e.id = m.labelsById.get? e.id

/-- No entry of the path that is kept hangs on a label. -/
def NoLabelParent (path : List SessionEntry) : Prop :=
  ∀ e ∈ path, e.isLabel = false → ∀ q ∈ path, q.isLabel = true → e.parentId ≠ some q.id

variable {path : List SessionEntry}

/-- Then the labels of the path are its end. -/
theorem labels_last (hpath : RootPath SessionEntry.id SessionEntry.parentId path)
    (h : NoLabelParent path) :
    path = path.filter (fun e => !e.isLabel) ++ path.filter SessionEntry.isLabel := by
  induction hpath with
  | nil => rfl
  | @snoc path e hpath hpar ih =>
    have ih := ih fun x hx hl q hq => h x (by simp [hx]) hl q (by simp [hq])
    cases he : e.isLabel with
    | true =>
      conv_lhs => rw [ih]
      simp [he]
    | false =>
      -- the entry before `e` is no label, so none of the path is one
      have hnone : path.filter SessionEntry.isLabel = [] := by
        by_contra hne
        obtain ⟨q, hq⟩ := Option.isSome_iff_exists.mp (getLast?_isSome.mpr hne)
        have hlast : path.getLast? = some q := by
          rw [ih, getLast?_append, hq, Option.some_or]
        obtain ⟨hmem, hlabel⟩ := mem_filter.mp (mem_of_getLast? hq)
        exact h e (by simp) he q (by simp [hmem]) hlabel (by simp [hpar, hlast])
      conv_lhs => rw [ih]
      simp [he, hnone]

/-- Labels at the end of a path stand for nothing. -/
theorem contextOfPath_append_labels {kept labels : List SessionEntry}
    (hnd : ((kept ++ labels).map SessionEntry.id).Nodup)
    (hkept : ∀ e ∈ kept, e.isLabel = false) (hlabels : ∀ e ∈ labels, e.isLabel = true) :
    contextOfPath (kept ++ labels) = contextOfPath kept := by
  have hf : KeepsOrSilences fun e => if e.isLabel then none else some e := {
    keeps := by
      intro e e' he
      split_ifs at he
      · cases he
      · cases he
        exact ⟨rfl, rfl, rfl⟩
    silences := by
      intro e he
      simp only [ite_eq_left_iff, reduceCtorEq, imp_false, not_not] at he
      exact silent_of_isLabel he }
  have hfilter : (kept ++ labels).filterMap (fun e => if e.isLabel then none else some e) =
      kept := by
    have hk : kept.filterMap (fun e => if e.isLabel then none else some e) = kept :=
      (filterMap_congr fun e he => by simp [hkept e he]).trans filterMap_some
    have hl : labels.filterMap (fun e => if e.isLabel then none else some e) = [] :=
      filterMap_eq_nil_iff.mpr fun e he => by simp [hlabels e he]
    rw [filterMap_append, hk, hl, append_nil]
  rw [← contextOfPath_filterMap hf hnd ?_, hfilter]
  intro pre e c post heq hbody x hx _
  have hne : e.isLabel = false := by simp [SessionEntry.isLabel, hbody]
  rcases append_eq_append_iff.mp heq with ⟨a, rfl, hrest⟩ | ⟨a, rfl, hrest⟩
  · -- the compaction would be one of the labels
    have := hlabels e (by simp [hrest])
    simp [hne] at this
  · simp [hkept x (by simp [hx])]

/-- What a branched session that is returned holds. -/
theorem createBranchedSession_spec {leafId : String} {env : BranchEnv} {o : WriteOutcome}
    {file : Option String} (h : s.createBranchedSession leafId env o = some (.ok file, s')) :
    ∃ path id newFile, s.manager.getBranch (some leafId) = some path ∧
      s'.manager = { (s.manager.branched env path id newFile).buildIndex with
        flushed := s'.manager.flushed } := by
  obtain ⟨path, hbranch, h⟩ := Option.map_eq_some_iff.mp h
  by_cases hnil : path = []
  · rw [if_pos hnil] at h
    cases h
  · rw [if_neg hnil] at h
    simp only at h
    split at h
    · cases h
    · rename_i id newFile htarget
      refine ⟨path, id, newFile, hbranch, ?_⟩
      split_ifs at h
      · split at h
        · rename_i s'' hrw
          cases h
          exact rewriteAll_sameEntries hrw
        · cases h
      · cases h
        rfl
      · cases h
        rfl

section Branched

variable {m : SessionManager} {env : BranchEnv} {path : List SessionEntry} {id : String}
  {newFile : Option String}

/-- The label entries of the branched session. -/
def SessionManager.newLabels (m : SessionManager) (env : BranchEnv) (kept : List SessionEntry) :
    List SessionEntry :=
  makeLabelEntries env.labelDraws 0 (kept.map SessionEntry.id) (kept.getLast?.map SessionEntry.id)
    (m.labelsToWrite (kept.map SessionEntry.id))

lemma getEntries_branched (hids : ∀ e ∈ path, e.id ≠ "") :
    (m.branched env path id newFile).getEntries = path.filter (fun e => !e.isLabel) ++
        m.newLabels env (path.filter fun e => !e.isLabel) := by
  have hlast : ((path.filter fun e => !e.isLabel).map SessionEntry.id).getLast?.filter (· ≠ "") =
      (path.filter fun e => !e.isLabel).getLast?.map SessionEntry.id := by
    rw [getLast?_map]
    cases h : (path.filter fun e => !e.isLabel).getLast? with
    | none => rfl
    | some e =>
      have he : e ∈ path := mem_of_mem_filter (mem_of_getLast? h)
      simp [Option.filter, hids e he]
  simp only [getEntries, branched, sessionEntries_session_cons,
    sessionEntries_map_entry, branchedEntries, hlast]
  rfl

lemma keptEntries_branched (hids : ∀ e ∈ path, e.id ≠ "") :
    (m.branched env path id newFile).keptEntries = path.filter fun e => !e.isLabel := by
  have hnone : (m.newLabels env (path.filter fun e => !e.isLabel)).filter
      (fun e => !e.isLabel) = [] := by
    rw [filter_eq_nil_iff]
    intro e he
    simp [isLabel_of_mem_makeLabelEntries he]
  rw [keptEntries, getEntries_branched hids, filter_append, hnone, append_nil, filter_filter]
  simp

/-- The kept entries are labelled as they were. -/
theorem labelsById_branched (hids : ∀ e ∈ path, e.id ≠ "") (hlabels : LabelsNonempty m)
    (he : e ∈ path.filter fun e => !e.isLabel) :
    (m.branched env path id newFile).buildIndex.labelsById.get? e.id = m.labelsById.get? e.id := by
  have hne : ∀ l ∈ m.labelsToWrite ((path.filter fun e => !e.isLabel).map SessionEntry.id),
      l.label ≠ "" := by
    intro l hl
    obtain ⟨p, hp, rfl⟩ := List.mem_map.mp hl
    exact hlabels p.1 p.2 (JsMap.mem_entries_iff.mp (mem_of_mem_filter hp))
  have hpairs : (m.labelsToWrite ((path.filter fun e => !e.isLabel).map SessionEntry.id)).map
      (fun l => (l.targetId, l.label)) = m.labelsById.entries.filter fun p =>
        ((path.filter fun e => !e.isLabel).map SessionEntry.id).contains p.1 := by
    simp [labelsToWrite, Function.comp_def]
  have hkept : ((path.filter fun e => !e.isLabel).map SessionEntry.id).contains e.id = true := by
    rw [contains_iff_mem]
    exact mem_map_of_mem he
  rw [buildIndex, getEntries_branched hids, foldl_append,
    newLabels, foldl_indexEntry_makeLabelEntries _ hne,
    foldl_indexEntry_labels_of_not _ (by simp), hpairs,
    JsMap.get?_foldl_set (m.labelsById.nodup.sublist (filter_sublist.map _)),
    JsMap.lookup_filter hkept, JsMap.get?_empty, Option.or_none]
  rfl

/-- The branched session is a tree, and one path of it. -/
theorem tree_branched
    (hpath : RootPath SessionEntry.id SessionEntry.parentId (path.filter fun e => !e.isLabel))
    (hnd : (path.map SessionEntry.id).Nodup) (hids : ∀ e ∈ path, e.id ≠ "")
    (hdraws : FreshDraws env.labelDraws 0 (path.map SessionEntry.id)) :
    Tree (m.branched env path id newFile).buildIndex ∧
      RootPath SessionEntry.id SessionEntry.parentId
        (m.branched env path id newFile).buildIndex.getEntries := by
  have hsub : ((path.filter fun e => !e.isLabel).map SessionEntry.id).Sublist
      (path.map SessionEntry.id) := filter_sublist.map _
  obtain ⟨hroot, hnd', hids'⟩ := makeLabelEntries_path (hdraws.subset hsub.subset) hpath
    (hnd.sublist hsub) (fun e he => hids e (mem_of_mem_filter he))
    ((path.filter fun e => !e.isLabel) ++ m.newLabels env (path.filter fun e => !e.isLabel)) rfl
  have hentries : (m.branched env path id newFile).buildIndex.getEntries =
      (m.branched env path id newFile).getEntries := by
    rw [getEntries, (buildIndex_spec _).2.2.1, getEntries]
  have hnew := hentries.trans (@getEntries_branched m env _ _ _ hids)
  refine ⟨⟨buildIndex_indexed _, ?_, ?_⟩, ?_⟩
  · rw [hnew]
    exact hroot.grown hnd'
  · rw [hnew]
    exact hids'
  · rw [hnew]
    exact hroot

end Branched

lemma noLabelParent_of_parents {kept : List SessionEntry}
    (hkept : kept = path.filter fun e => !e.isLabel) (hnd : (path.map SessionEntry.id).Nodup)
    (h : ∀ e ∈ kept, ∀ p ∈ e.parentId, ∃ q ∈ kept, q.id = p) : NoLabelParent path := by
  intro e he hlabel q hq hqlabel hpar
  obtain ⟨q', hq', hid⟩ := h e (by simp [hkept, he, hlabel]) q.id hpar
  rw [hkept] at hq'
  obtain ⟨hq'mem, hq'label⟩ := mem_filter.mp hq'
  obtain rfl : q' = q := inj_on_of_nodup_map hnd hq'mem hq hid
  simp [hqlabel] at hq'label

/-- A path whose labels are its end is preserved. -/
theorem branchPreserved_of_noLabelParent {m : SessionManager} {env : BranchEnv} {id leafId : String}
    {newFile : Option String} (htree : Tree m) (hlabels : LabelsNonempty m)
    (hpath : RootPath SessionEntry.id SessionEntry.parentId path) (hsub : path.Sublist m.getEntries)
    (hlast : path.getLast?.map SessionEntry.id = some leafId)
    (hdraws : FreshDraws env.labelDraws 0 (path.map SessionEntry.id)) (h : NoLabelParent path) :
    BranchPreserved m leafId (m.branched env path id newFile).buildIndex := by
  have hnd : (path.map SessionEntry.id).Nodup :=
    htree.grown.nodup.sublist (hsub.map SessionEntry.id)
  have hids : ∀ e ∈ path, e.id ≠ "" := fun e he => htree.nonempty e (hsub.subset he)
  have hsplit := labels_last hpath h
  have hkeptPath : RootPath SessionEntry.id SessionEntry.parentId
      (path.filter fun e => !e.isLabel) := by
    rw [hsplit] at hpath
    exact hpath.left_of_append
  have hkeptNodup : ((path.filter fun e => !e.isLabel).map SessionEntry.id).Nodup :=
    hnd.sublist (filter_sublist.map _)
  have hkeptLabel : ∀ e ∈ path.filter (fun e => !e.isLabel), e.isLabel = false := by
    simp
  obtain ⟨htree', hpath'⟩ := @tree_branched m env path id newFile hkeptPath hnd hids hdraws
  obtain ⟨-, hleaf', hentries', -⟩ := buildIndex_spec (m.branched env path id newFile)
  have hentries : (m.branched env path id newFile).buildIndex.getEntries =
      (path.filter fun e => !e.isLabel) ++ m.newLabels env (path.filter fun e => !e.isLabel) := by
    rw [getEntries, hentries']
    exact getEntries_branched hids
  have hkept : (m.branched env path id newFile).buildIndex.keptEntries =
      path.filter fun e => !e.isLabel := by
    rw [keptEntries, getEntries, hentries']
    exact keptEntries_branched hids
  refine ⟨?_, ?_, ?_⟩
  · have hnew := htree'.context_eq hpath' (List.Sublist.refl _)
    have hold := htree.context_eq hpath hsub
    rw [hlast] at hold
    have hnd' := htree'.grown.nodup
    rw [hentries] at hnew hnd'
    rw [SessionManager.buildSessionContext, hleaf', hold, getEntries_branched hids, hnew,
      contextOfPath_append_labels hnd' hkeptLabel fun e he => isLabel_of_mem_makeLabelEntries he]
    conv_rhs => rw [hsplit]
    rw [contextOfPath_append_labels (hsplit ▸ hnd) hkeptLabel fun e he =>
      (mem_filter.mp he).2]
  · rw [hkept]
    intro e he p hp
    exact List.mem_map.mp ((hkeptPath.grown hkeptNodup).parent_mem he p hp)
  · rw [hkept]
    exact fun e he => labelsById_branched hids hlabels he

/-- **When a branched session preserves the conversation.** -/
theorem createBranchedSession_preserves_iff {dir cwd leafId : String} {persist : Bool}
    {env : SessionEnv} {files : Files} {s₀ s : SessionState} {calls : List SessionCall}
    (hcreate : createSession dir cwd persist env files = (.ok (), s₀))
    (hrun : (sessionMachine.guard FreshId).Run s₀ calls s)
    (hleaf : s.manager.byId.has leafId = true) (benv : BranchEnv) (o : WriteOutcome) :
    ∃ path r s', s.manager.getBranch (some leafId) = some path ∧
      s.createBranchedSession leafId benv o = some (r, s') ∧
      (FreshDraws benv.labelDraws 0 (path.map SessionEntry.id) → (∃ file, r = .ok file) →
        (BranchPreserved s.manager leafId s'.manager ↔ NoLabelParent path)) := by
  have htree : Tree s.manager := (tree_of_newSession hcreate).run hrun
  have hlabels : LabelsNonempty s.manager :=
    hrun.invariant (I := fun s => LabelsNonempty s.manager) (labelsNonempty_of_newSession hcreate)
      fun _ _ _ hi hstep => CallStep.labelsNonempty (.of_run hstep.1) hi
  obtain ⟨e, he, rfl⟩ := List.mem_map.mp (htree.indexed.has_iff.mp hleaf)
  obtain ⟨path, hpath, hsub, hlast, hbranch⟩ := htree.exists_branch he
  obtain ⟨⟨r, s'⟩, hrun'⟩ : ∃ out, s.createBranchedSession e.id benv o = some out := by
    unfold createBranchedSession
    rw [hbranch]
    exact ⟨_, rfl⟩
  refine ⟨path, r, s', hbranch, hrun', ?_⟩
  rintro hdraws ⟨file, rfl⟩
  obtain ⟨path', id, newFile, hbranch', hm⟩ := createBranchedSession_spec hrun'
  obtain rfl : path = path' := Option.mem_unique hbranch hbranch'
  have hnd : (path.map SessionEntry.id).Nodup :=
    htree.grown.nodup.sublist (hsub.map SessionEntry.id)
  have hids : ∀ e ∈ path, e.id ≠ "" := fun e he => htree.nonempty e (hsub.subset he)
  constructor
  · intro h
    refine noLabelParent_of_parents ?_ hnd h.parents
    have hentries := (buildIndex_spec (s.manager.branched benv path id newFile)).2.2.1
    rw [hm, keptEntries, getEntries, hentries]
    exact keptEntries_branched hids
  · intro h
    have hkeeps : BranchPreserved s.manager e.id
        (s.manager.branched benv path id newFile).buildIndex :=
      branchPreserved_of_noLabelParent htree hlabels hpath hsub (by simp [hlast]) hdraws h
    rw [hm]
    exact ⟨hkeeps.context, hkeeps.parents, hkeeps.labels⟩

/-! ### Two small sessions -/

instance (path : List SessionEntry) : Decidable (NoLabelParent path) :=
  inferInstanceAs (Decidable (∀ e ∈ path, e.isLabel = false →
    ∀ q ∈ path, q.isLabel = true → e.parentId ≠ some q.id))

/-- The `i`-th label entry always draws `i + 9` letters. -/
def plainBranchEnv : BranchEnv where
  toSessionEnv := plainEnv.toSessionEnv
  labelDraws i _ := String.ofList (List.replicate (i + 9) 'l')
  resolvedRlmDepth := 0

lemma freshDraws_plain (h : ∀ id ∈ taken, id.length < 9) :
    FreshDraws plainBranchEnv.labelDraws 0 taken where
  nonempty j n hempty := by
    have := congrArg String.length hempty
    simp [plainBranchEnv] at this
  fallback j _ hmem := by
    have := h _ hmem
    simp [plainBranchEnv] at this
  distinct j k hjk := by
    refine ⟨fun heq => ?_, fun n heq => ?_⟩
    · have := congrArg String.length heq
      simp [plainBranchEnv] at this
      omega
    · have hlen := congrArg String.length heq
      have hshort : (shortId (plainBranchEnv.labelDraws j n)).length ≤ 8 := by
        simp only [shortId, String.length_ofList]
        exact length_take_le _ _
      simp [plainBranchEnv] at hlen hshort
      omega

abbrev labelCall : SessionCall := plainCall "c" (.appendLabelChange "a" (some "start"))

/-- A session whose first message is labelled at its end. -/
def labelledAtEnd : SessionState :=
  ((memorySession.after (say "a" "one")).after (say "b" "two")).after labelCall

lemma run_labelledAtEnd : (sessionMachine.guard FreshId).Run memorySession
    [say "a" "one", say "b" "two", labelCall] labelledAtEnd := by
  have h₁ := run_plainCall (.nil : Machine.Run _ memorySession [] _) (say "a" "one").op rfl
    (by decide : "a" ≠ "") (by decide)
  have h₂ := run_plainCall h₁ (say "b" "two").op rfl (by decide : "b" ≠ "") (by decide)
  exact run_plainCall h₂ labelCall.op rfl (by decide : "c" ≠ "") (by decide)

/-- The branch of the second message, which the label does not stand in. -/
theorem createBranchedSession_preserves_labelledAtEnd :
    ∃ s', labelledAtEnd.createBranchedSession "b" plainBranchEnv .done = some (.ok none, s') ∧
      BranchPreserved labelledAtEnd.manager "b" s'.manager := by
  have hcreate : createSession "/" "/" false plainEnv.toSessionEnv (fun _ => none) =
      (.ok (), memorySession) := rfl
  have hpath : labelledAtEnd.manager.getBranch (some "b") =
      some [plainEntry "a" none (userBody "one"), plainEntry "b" (some "a") (userBody "two")] := by
    decide
  have hok : (labelledAtEnd.createBranchedSession "b" plainBranchEnv .done).map Prod.fst =
      some (.ok none) := rfl
  obtain ⟨path, r, s', hbranch, hbranched, hiff⟩ := createBranchedSession_preserves_iff hcreate
    run_labelledAtEnd (by decide : labelledAtEnd.manager.byId.has "b" = true) plainBranchEnv .done
  obtain rfl := Option.mem_unique hpath hbranch
  rw [hbranched] at hok
  obtain rfl : r = .ok none := Option.some.inj hok
  exact ⟨s', hbranched, (hiff (freshDraws_plain (by decide)) ⟨none, rfl⟩).mpr (by decide)⟩

/-- A session whose first message is labelled before the second comes in. -/
def labelledBetween : SessionState :=
  ((memorySession.after (say "a" "one")).after labelCall).after (say "b" "two")

/-- **A label on the branch cuts it.**  The second message hangs on the label, which is not kept:
the context of the branched session has lost the first message. -/
theorem labelledBetween_not_preserved :
    (sessionMachine.guard FreshId).Run memorySession [say "a" "one", labelCall, say "b" "two"]
      labelledBetween ∧
    ∃ s', labelledBetween.createBranchedSession "b" plainBranchEnv .done = some (.ok none, s') ∧
      s'.manager.buildSessionContext ≠ Amide.buildSessionContext
        labelledBetween.manager.fileEntries (some (some "b")) labelledBetween.manager.byId ∧
      ∃ e ∈ s'.manager.keptEntries, ∃ p ∈ e.parentId,
        p ∉ s'.manager.keptEntries.map SessionEntry.id := by
  constructor
  · have h₁ := run_plainCall (.nil : Machine.Run _ memorySession [] _) (say "a" "one").op rfl
      (by decide : "a" ≠ "") (by decide)
    have h₂ := run_plainCall h₁ labelCall.op rfl (by decide : "c" ≠ "") (by decide)
    exact run_plainCall h₂ (say "b" "two").op rfl (by decide : "b" ≠ "") (by decide)
  · exact ⟨_, rfl, by decide, plainEntry "b" (some "c") (userBody "two"), by decide, "c", rfl,
      by decide⟩

end Amide
