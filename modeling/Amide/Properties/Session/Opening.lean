import Amide.Properties.Session.Durability

/-!
# Opening a session

Opening a file brings it into step with the entries in memory: they are the ones the file loads
as, or, after a migration, the file has been rewritten from them.  A file with settled entries is
opened without a write (`openSession_of_settled`).
-/

namespace Amide

open SessionState LineCodec
open SessionManager (getEntries indexEntry target)

/-! ## The index -/

variable (m : SessionManager)

lemma indexEntry_spec (e : SessionEntry) :
    (m.indexEntry e).byId = m.byId.set e.id e ∧ (m.indexEntry e).leafId = some e.id ∧
      (m.indexEntry e).fileEntries = m.fileEntries ∧ (m.indexEntry e).target = m.target := by
  unfold indexEntry
  split <;> exact ⟨rfl, rfl, rfl, rfl⟩

lemma foldl_indexEntry_spec (es : List SessionEntry) : (es.foldl indexEntry m).byId =
        es.foldl (fun byId e => byId.set e.id e) m.byId ∧
      (es.foldl indexEntry m).leafId = (es.getLast?.map SessionEntry.id).or m.leafId ∧
      (es.foldl indexEntry m).fileEntries = m.fileEntries ∧
      (es.foldl indexEntry m).target = m.target := by
  induction es using List.reverseRecOn with
  | nil => exact ⟨rfl, rfl, rfl, rfl⟩
  | append_singleton es e ih =>
    obtain ⟨hbyId, -, hentries, htarget⟩ := ih
    simp only [List.foldl_append, List.foldl_cons, List.foldl_nil]
    obtain ⟨hbyId', hleaf', hentries', htarget'⟩ := indexEntry_spec (es.foldl indexEntry m) e
    exact ⟨by rw [hbyId', hbyId], by rw [hleaf']; simp, hentries'.trans hentries,
      htarget'.trans htarget⟩

lemma buildIndex_spec : m.buildIndex.byId = JsMap.index SessionEntry.id m.getEntries ∧
      m.buildIndex.leafId = m.getEntries.getLast?.map SessionEntry.id ∧
      m.buildIndex.fileEntries = m.fileEntries ∧ m.buildIndex.target = m.target := by
  obtain ⟨hbyId, hleaf, hentries, htarget⟩ := foldl_indexEntry_spec
    { m with byId := JsMap.empty, labelsById := JsMap.empty, labelTimestampsById := JsMap.empty,
             leafId := none } m.getEntries
  exact ⟨hbyId, by rw [SessionManager.buildIndex, hleaf, Option.or_none], hentries, htarget⟩

/-- A manager that is read from its entries, with the last of them as its leaf. -/
theorem indexed_of_last {m : SessionManager}
    (hbyId : m.byId = JsMap.index SessionEntry.id m.getEntries)
    (hleaf : m.leafId = m.getEntries.getLast?.map SessionEntry.id) : Indexed m where
  byId := hbyId
  leaf id hid := by
    rw [hleaf] at hid
    obtain ⟨e, he, rfl⟩ := Option.map_eq_some_iff.mp hid
    rw [hbyId, ← Bool.not_eq_false, JsMap.has_eq_false_iff, JsMap.get?_index_eq_none_iff]
    exact fun h => h e (List.mem_of_getLast? he) rfl

lemma buildIndex_indexed : Indexed m.buildIndex := by
  obtain ⟨hbyId, hleaf, hentries, -⟩ := buildIndex_spec m
  have hsame : m.buildIndex.getEntries = m.getEntries := by
    rw [getEntries, getEntries, hentries]
  exact indexed_of_last (hsame ▸ hbyId) (hsame ▸ hleaf)

/-! ## Migration -/

lemma applyChildUsageAttributions_session_cons (h : SessionHeader) (rest : List FileEntry) :
    applyChildUsageAttributions (.session h :: rest) =
      .session h :: assignUsages (attributions rest) rest := by
  rw [applyChildUsageAttributions_eq_assign]
  rfl

lemma assistantId?_migrateEntryToV3 (f : FileEntry) :
    (migrateEntryToV3 f).assistantId? = f.assistantId? := by
  unfold migrateEntryToV3
  split <;> rfl

lemma attribution?_migrateEntryToV3 (f : FileEntry) :
    (migrateEntryToV3 f).attribution? = f.attribution? := by
  unfold migrateEntryToV3
  split <;> rfl

lemma withUsage_migrateEntryToV3 (u : Usage) (f : FileEntry) :
    (migrateEntryToV3 f).withUsage u = migrateEntryToV3 (f.withUsage u) := by
  cases f with
  | session h => rfl
  | entry e =>
    obtain ⟨_, _, _, body⟩ := e
    cases body with
    | message m => cases m <;> rfl
    | _ => rfl

variable (entries : List FileEntry)

lemma applyChildUsageAttributions_migrateV2ToV3 :
    applyChildUsageAttributions (migrateV2ToV3 entries) =
      migrateV2ToV3 (applyChildUsageAttributions entries) := by
  have hattr : attributions (migrateV2ToV3 entries) = attributions entries := by
    unfold attributions migrateV2ToV3
    rw [List.filterMap_map]
    exact List.filterMap_congr fun f _ => attribution?_migrateEntryToV3 f
  rw [applyChildUsageAttributions_eq_assign, hattr, applyChildUsageAttributions_eq_assign]
  exact AssignLast.assign_map assistantId?_migrateEntryToV3 withUsage_migrateEntryToV3 _ _

lemma generateId_free (draws : Draws) : generateId (fun _ => false) draws = shortId (draws 0) :=
  rfl

lemma migrateFirstKept_attribution? (e : SessionEntry) :
    FileEntry.attribution? (.entry (migrateFirstKept entries e)) =
      FileEntry.attribution? (.entry e) := by
  obtain ⟨_, _, _, body⟩ := e
  cases body with
  | compaction c =>
    unfold migrateFirstKept
    simp only
    split <;> rfl
  | _ => rfl

lemma migrateFirstKept_id (e : SessionEntry) : (migrateFirstKept entries e).id = e.id := by
  unfold migrateFirstKept
  split
  · split <;> rfl
  · rfl

/-- What the loop of `migrateV1ToV2` adds to the entries it has done: the attributions stay, and
the ids are drawn. -/
theorem migrateV1ToV2From_spec (draws : ℕ → Draws) (todo : List FileEntry) :
    ∀ (done : List FileEntry) (prevId : Option String),
      ∃ new, migrateV1ToV2From draws done prevId todo = done ++ new ∧
        attributions new = attributions todo ∧
        (∀ f ∈ new, ∀ id ∈ f.assistantId?, ∃ i, id = shortId (draws i 0)) ∧
        (∀ h rest, todo = .session h :: rest →
          ∃ rest', new = .session { h with version := some 2 } :: rest') := by
  induction todo with
  | nil => exact fun done _ => ⟨[], by simp [migrateV1ToV2From], rfl, by simp, by simp⟩
  | cons f todo ih =>
    intro done prevId
    cases f with
    | session h =>
      obtain ⟨new, heq, hattr, hids, -⟩ :=
        ih (done ++ [.session { h with version := some 2 }]) prevId
      refine ⟨.session { h with version := some 2 } :: new, ?_, ?_, ?_, ?_⟩
      · rw [migrateV1ToV2From, heq]
        simp
      · exact hattr
      · intro f hf
        rcases List.mem_cons.mp hf with rfl | hf
        · simp [FileEntry.assistantId?]
        · exact hids f hf
      · rintro h' rest' heq'
        cases heq'
        exact ⟨new, rfl⟩
    | entry e =>
      simp only [migrateV1ToV2From]
      generalize hmig : migrateFirstKept _ _ = e'
      have hid : e'.id = shortId (draws done.length 0) := by
        rw [← hmig, migrateFirstKept_id, generateId_free]
      have hattr' : FileEntry.attribution? (.entry e') = FileEntry.attribution? (.entry e) := by
        rw [← hmig, migrateFirstKept_attribution?]
        obtain ⟨id, parentId, timestamp, body⟩ := e
        cases body <;> rfl
      obtain ⟨new, heq, hattr, hids, -⟩ := ih (done ++ [.entry e'])
        (some (generateId (fun _ => false) (draws done.length)))
      refine ⟨.entry e' :: new, by rw [heq]; simp, ?_, ?_, by simp⟩
      · simp only [attributions, List.filterMap_cons, hattr'] at hattr ⊢
        rw [hattr]
      · intro f hf id hid'
        rcases List.mem_cons.mp hf with rfl | hf
        · simp only [FileEntry.assistantId?] at hid'
          split_ifs at hid'
          · exact ⟨done.length, by rw [← hid]; exact (Option.some.inj hid').symm⟩
          · cases hid'
        · exact hids f hf id hid'

/-- No id drawn for an entry of a version 1 file is the target of an attribution in the file. -/
def MigrationDrawsClean (draws : ℕ → Draws) (entries : List FileEntry) : Prop :=
  sessionVersion entries < 2 → ∀ i, shortId (draws i 0) ∉ (attributions entries).map Prod.fst

variable {entries : List FileEntry}

/-- Migrated entries have a header of the current version in front and their attributions
folded. -/
theorem migrate_spec {draws : ℕ → Draws} (h : Loaded entries)
    (hdraws : MigrationDrawsClean draws entries) :
    ∃ hd rest, (migrateToCurrentVersion draws entries).1 = .session hd :: rest ∧
      currentSessionVersion ≤ hd.version.getD 1 ∧
      assignUsages (attributions rest) rest = rest ∧
      ((migrateToCurrentVersion draws entries).2 = false → .session hd :: rest = entries) := by
  obtain ⟨⟨hd, rest, rfl⟩, hfold⟩ := h
  have hversion : sessionVersion (.session hd :: rest) = hd.version.getD 1 := rfl
  rw [applyChildUsageAttributions_session_cons, List.cons.injEq] at hfold
  unfold migrateToCurrentVersion
  by_cases hcur : currentSessionVersion ≤ sessionVersion (.session hd :: rest)
  · simp only [if_pos hcur]
    exact ⟨hd, rest, rfl, hversion ▸ hcur, hfold.2, fun _ => rfl⟩
  · have hlt3 : sessionVersion (.session hd :: rest) < 3 := Nat.lt_of_not_le hcur
    simp only [if_neg hcur, if_pos hlt3]
    -- the entries of version 2, their attributions folded
    have hv2 : ∃ hd₂ rest₂, (if sessionVersion (.session hd :: rest) < 2 then
          migrateV1ToV2 draws (.session hd :: rest) else .session hd :: rest) =
        .session hd₂ :: rest₂ ∧ assignUsages (attributions rest₂) rest₂ = rest₂ := by
      by_cases hlt2 : sessionVersion (.session hd :: rest) < 2
      · obtain ⟨new, heq, hattr, hids, hhead⟩ :=
          migrateV1ToV2From_spec draws (.session hd :: rest) [] none
        obtain ⟨rest₂, rfl⟩ := hhead hd rest rfl
        rw [if_pos hlt2]
        refine ⟨_, rest₂, heq, AssignLast.assign_of_notMem fun f hf id hid => ?_⟩
        obtain ⟨i, rfl⟩ := hids f (by simp [hf]) id hid
        rw [AssignLast.latest_eq_none_iff]
        have hattr' : attributions rest₂ = attributions (.session hd :: rest) := hattr
        rw [hattr']
        exact hdraws hlt2 i
      · rw [if_neg hlt2]
        exact ⟨hd, rest, rfl, hfold.2⟩
    obtain ⟨hd₂, rest₂, heq, hfold₂⟩ := hv2
    have hfold₂' : applyChildUsageAttributions (.session hd₂ :: rest₂) = .session hd₂ :: rest₂ := by
      rw [applyChildUsageAttributions_session_cons, hfold₂]
    have hfold₃ := applyChildUsageAttributions_migrateV2ToV3 (.session hd₂ :: rest₂)
    rw [hfold₂'] at hfold₃
    have hcons : migrateV2ToV3 (.session hd₂ :: rest₂) =
        .session { hd₂ with version := some 3 } :: migrateV2ToV3 rest₂ := rfl
    rw [hcons, applyChildUsageAttributions_session_cons, List.cons.injEq] at hfold₃
    exact ⟨{ hd₂ with version := some 3 }, migrateV2ToV3 rest₂, by rw [heq, hcons], Nat.le_refl 3,
      hfold₃.2, by simp⟩

/-- The depth of the header is settled, and nothing else changes. -/
theorem resolveDepth_spec {depth : ℕ} (hlt : depth < 2 ^ 53) (hd : SessionHeader)
    (rest : List FileEntry) :
    ∃ hd', (resolveDepth depth (.session hd :: rest)).1 = .session hd' :: rest ∧
      hd'.version = hd.version ∧ lacksDepth hd' = false ∧
      ((resolveDepth depth (.session hd :: rest)).2 = false → hd' = hd) := by
  simp only [resolveDepth]
  by_cases hlacks : lacksDepth hd = true
  · rw [if_pos hlacks]
    have hvalid : decide (depth < 2 ^ 53) = true := decide_eq_true hlt
    exact ⟨_, rfl, rfl, by simp only [lacksDepth, Option.any_some, hvalid, Bool.not_true,
      Bool.and_false], by simp⟩
  · rw [if_neg hlacks]
    exact ⟨hd, rfl, rfl, by simpa using hlacks, fun _ => rfl⟩

/-! ## Opening -/

lemma settled_newHeader (h : SessionHeader) (hver : h.version = some currentSessionVersion)
    (hpar : h.parentSession = none) : Settled [.session h] where
  header := ⟨h, [], rfl, by simp [hver], by simp [lacksDepth, hpar]⟩
  folded := rfl

variable {s s' : SessionState} {env : SessionEnv}

/-- A new session has a header and nothing else. -/
theorem newSession_spec (h : s.newSession env = (.ok (), s')) :
    s'.files = s.files ∧ Settled s'.manager.fileEntries ∧ Indexed s'.manager ∧
      s'.manager.flushed = false ∧ s'.manager.persist = s.manager.persist ∧
      s'.manager.getEntries = [] := by
  simp only [newSession] at h
  split at h
  · cases h
  · obtain ⟨-, rfl⟩ := Prod.mk.inj h
    exact ⟨rfl, settled_newHeader _ rfl rfl, ⟨rfl, by simp⟩, rfl, rfl, rfl⟩

variable {path : String}

lemma startSession_spec (hpersist : s.manager.persist = true)
    (h : s.startSession path env = (.ok (), s')) :
    s'.manager.target = some path ∧ Settled s'.manager.fileEntries ∧ Indexed s'.manager ∧
      s'.manager.flushed = false := by
  unfold startSession at h
  split at h
  · cases h
  · rename_i s₁ hnew
    cases h
    obtain ⟨-, hset, hidx, hflushed, hp, -⟩ := newSession_spec hnew
    exact ⟨by simp [target, setPath, hp, hpersist], hset, ⟨hidx.byId, hidx.leaf⟩, hflushed⟩

lemma indexed_spec (s : SessionState) : s.indexed.files = s.files ∧
    s.indexed.manager.fileEntries = s.manager.fileEntries ∧
    s.indexed.manager.target = s.manager.target ∧ Indexed s.indexed.manager := by
  obtain ⟨-, -, hentries, htarget⟩ := buildIndex_spec s.manager
  have hidx := buildIndex_indexed s.manager
  exact ⟨rfl, hentries, htarget, ⟨hidx.byId, hidx.leaf⟩⟩

variable {content : List UInt8}

lemma loaded_of_loadsAs (h : LoadsAs content entries) (hne : entries ≠ []) : Loaded entries := by
  unfold LoadsAs at h
  generalize parseEntriesFromBuffer content = parsed at h
  cases parsed with
  | nil => exact absurd h.symm hne
  | cons f fs =>
    cases f with
    | entry e => exact absurd h.symm hne
    | session hd =>
      change applyChildUsageAttributions (.session hd :: fs) = entries at h
      refine ⟨?_, by rw [← h, applyChildUsageAttributions_idem]⟩
      rw [← h, applyChildUsageAttributions_session_cons]
      exact ⟨hd, _, rfl⟩

/-- The entries of a file, used: the file is in step with them afterwards. -/
theorem useEntries_durable {T : Prop} {env : OpenEnv} {o : WriteOutcome}
    (htarget : s.manager.target = some path) (hloaded : Loaded entries)
    (hdraws : MigrationDrawsClean env.migrationDraws entries) (hfile : s.files path = some content)
    (hloads : LoadsAs content entries) (hterm : T → Terminated content)
    (h : s.useEntries entries env o = (.ok (), s')) : Durable T path s' := by
  obtain ⟨hd, rest, hmig, hver, hfold, hsame⟩ := migrate_spec hloaded hdraws
  obtain ⟨hd', hres, hver', hdepth, hsame'⟩ := resolveDepth_spec env.resolvedRlmDepth_lt hd rest
  have hset : Settled (.session hd' :: rest) :=
    ⟨⟨hd', rest, rfl, hver' ▸ hver, hdepth⟩,
      by rw [applyChildUsageAttributions_session_cons, hfold]⟩
  simp only [useEntries, hmig, hres] at h
  split_ifs at h with hchanged
  · -- something changed: the file is rewritten
    split at h
    · cases h
    · rename_i s₁ hwritten
      cases h
      have hmem := rewriteFile_sameEntries hwritten
      obtain ⟨hfiles, hentries, htarget', hidx⟩ := indexed_spec s₁
      rw [hmem] at hentries htarget'
      refine ⟨htarget'.trans htarget, hidx, hentries ▸ hset, fun _ => ?_⟩
      unfold rewriteFile at hwritten
      have htarget₀ : target { s.manager with
          fileEntries := .session hd' :: rest
          sessionId := ((entries.findSome? FileEntry.header?).map SessionHeader.id).getD
            (env.sessionIds 0) } = some path := htarget
      rw [htarget₀] at hwritten
      cases o with
      | done =>
        cases hwritten
        refine ⟨fileContent (.session hd' :: rest), ?_, fun _ => terminated_fileContent _, ?_⟩
        · exact Function.update_self ..
        · rw [hentries]
          exact loadsAs_fileContent hset.loaded
      | cut written => cases hwritten
  · -- nothing changed: the entries are those the file loads as
    cases h
    simp only [Bool.or_eq_true, not_or, Bool.not_eq_true] at hchanged
    have heq : FileEntry.session hd' :: rest = entries := by
      rw [hsame' hchanged.2]
      exact hsame hchanged.1
    have hentries := (indexed_spec { s with manager := { s.manager with
      fileEntries := .session hd' :: rest
      sessionId := ((entries.findSome? FileEntry.header?).map SessionHeader.id).getD
        (env.sessionIds 0) } })
    refine ⟨hentries.2.2.1.trans htarget, hentries.2.2.2, hentries.2.1 ▸ hset, fun _ => ?_⟩
    refine ⟨content, hfile, hterm, ?_⟩
    rw [hentries.2.1]
    exact heq ▸ hloads

/-- **Opening a file brings it into step.** -/
theorem openSession_durable {T : Prop} {dir cwd : String} {env : OpenEnv} {o : WriteOutcome}
    {files : Files}
    (hdraws : MigrationDrawsClean env.migrationDraws (loadEntriesFromFile files path))
    (hterm : T → ∀ content ∈ files path, Terminated content)
    (h : openSession path dir cwd env o files = (.ok (), s)) : Durable T path s := by
  simp only [openSession, setSessionFile] at h
  cases hfile : files path with
  | none =>
    simp only [setPath, hfile] at h
    obtain ⟨htarget, hset, hidx, hflushed⟩ := startSession_spec rfl h
    exact ⟨htarget, hidx, hset, .of_not_flushed hflushed⟩
  | some content =>
    simp only [setPath, hfile] at h
    have hloads : LoadsAs content (loadEntriesFromFile files path) := by
      rw [loadEntriesFromFile, hfile]
      rfl
    cases hload : loadEntriesFromFile files path with
    | nil =>
      simp only [hload] at h
      split at h
      · cases h
      · rename_i s₁ hstart
        obtain ⟨htarget, hset, hidx, -⟩ := startSession_spec rfl hstart
        have hsame := (rewriteAll_sameEntries h).sameTree
        rcases rewriteAll_cases htarget h with ⟨-, rfl⟩ | ⟨-, herr, -⟩
        · exact ⟨hsame.target.trans htarget, hsame.indexed hidx, hset,
            (onDisk_rewritten hset.loaded).weaken⟩
        · cases herr
    | cons f fs =>
      rw [hload] at hloads hdraws
      simp only [hload] at h
      refine useEntries_durable ?_ (loaded_of_loadsAs hloads (by simp)) hdraws ?_ hloads
        (fun ht => hterm ht content hfile) h
      · rfl
      · exact hfile

/-- A file that loads as settled entries is opened without a write. -/
theorem openSession_of_settled {files : Files} (hfile : files path = some content)
    (hloads : LoadsAs content entries) (hset : Settled entries) (dir cwd : String) (env : OpenEnv)
    (o : WriteOutcome) :
    ∃ s, openSession path dir cwd env o files = (.ok (), s) ∧ s.files = files ∧
      s.manager.fileEntries = entries ∧ s.manager.flushed = true ∧
      s.manager.byId = JsMap.index SessionEntry.id (sessionEntries entries) ∧
      s.manager.leafId = (sessionEntries entries).getLast?.map SessionEntry.id := by
  obtain ⟨hd, rest, rfl, hver, hdepth⟩ := hset.header
  have hload := hloads.load hfile
  have hversion : sessionVersion (.session hd :: rest) = hd.version.getD 1 := rfl
  have hmig : migrateToCurrentVersion env.migrationDraws (.session hd :: rest) =
      (.session hd :: rest, false) := by
    rw [migrateToCurrentVersion, hversion, if_pos hver]
  have hres : resolveDepth env.resolvedRlmDepth (.session hd :: rest) =
      (.session hd :: rest, false) := by
    rw [resolveDepth, hdepth]
    rfl
  simp only [openSession, setSessionFile, setPath, hfile, hload, useEntries, hmig, hres,
    Bool.or_self, Bool.false_eq_true, if_false]
  exact ⟨_, rfl, rfl, (indexed_spec _).2.1, rfl, (buildIndex_spec _).1, (buildIndex_spec _).2.1⟩

end Amide
