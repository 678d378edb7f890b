import Amide.Construction.Session.Branching
import Amide.Properties.Compaction.Partition
import Amide.Properties.Session.Trees
import Amide.Properties.Session.WriteFailures

/-!
# Forks of a session

`forkFrom` takes the git states out of a session and hangs their children on what stays
(`ParentTree.Pruning`).  The tree of the fork is sound; what a fork can lose is the place where a
compaction starts, if that is a git state, and the branch, since a fork is read from its last
entry (`forkFrom_preserves_iff`).
-/

namespace Amide

open SessionState ParentTree LineCodec List
open SessionManager (getEntries)
open SessionEntry (compaction? isGitState)

/-! ## Live parents -/

variable {e : SessionEntry} {path : List SessionEntry}
variable (entries : List SessionEntry) {id : String}

section LiveParents

variable {entries : List SessionEntry}

lemma droppedParent_concat (e : SessionEntry) : droppedParent (entries ++ [e]) =
      if e.isGitState then (droppedParent entries).set e.id e.parentId
      else droppedParent entries := by
  simp [droppedParent]

lemma droppedParent_get?_of_notMem (h : id ∉ entries.map SessionEntry.id) :
    (droppedParent entries).get? id = none := by
  induction entries using reverseRecOn with
  | nil => rfl
  | append_singleton entries e ih =>
    simp only [map_append, map_singleton, mem_append, mem_singleton, not_or] at h
    rw [droppedParent_concat]
    split_ifs
    · rw [JsMap.get?_set, if_neg (Ne.symm h.2), ih h.1]
    · exact ih h.1

section
variable (hnd : (entries.map SessionEntry.id).Nodup)
include hnd

lemma droppedParent_get? (he : e ∈ entries) :
    (droppedParent entries).get? e.id = if e.isGitState then some e.parentId else none := by
  induction entries using reverseRecOn with
  | nil => simp at he
  | append_singleton entries x ih =>
    rw [map_append, nodup_append] at hnd
    rw [droppedParent_concat]
    rcases mem_append.mp he with he | he
    · have hne : x.id ≠ e.id := (hnd.2.2 _ (mem_map_of_mem he) _ (by simp)).symm
      have ih := ih hnd.1 he
      cases x.isGitState with
      | true => simpa [hne] using ih
      | false => simpa using ih
    · obtain rfl := mem_singleton.mp he
      have hnone : (droppedParent entries).get? e.id = none :=
        droppedParent_get?_of_notMem fun hmem => hnd.2.2 _ hmem _ (by simp) rfl
      cases he : e.isGitState <;> simp [hnone]

lemma size_droppedParent : (droppedParent entries).size = (entries.filter isGitState).length := by
  induction entries using reverseRecOn with
  | nil => rfl
  | append_singleton entries e ih =>
    rw [map_append, nodup_append] at hnd
    have ih := ih hnd.1
    have hnone : (droppedParent entries).get? e.id = none :=
      droppedParent_get?_of_notMem fun hmem => hnd.2.2 _ hmem _ (by simp) rfl
    rw [JsMap.size] at ih
    rw [droppedParent_concat]
    cases hg : e.isGitState with
    | true => simp [JsMap.size, JsMap.entries_set_of_get?_none hnone, hg, ih]
    | false => simpa [JsMap.size, hg] using ih

/-- From the last entry of a path the search for a live parent ends at the last that is no git
state, if it may take a step for each git state on the path. -/
theorem liveParent_getLast (hpath : RootPath SessionEntry.id SessionEntry.parentId path)
    (hsub : path ⊆ entries) {n : ℕ} (hn : (path.filter isGitState).length ≤ n) :
    liveParent (droppedParent entries) n (path.getLast?.map SessionEntry.id) =
      some ((path.filter fun e => !e.isGitState).getLast?.map SessionEntry.id) := by
  induction hpath generalizing n with
  | nil => simp [liveParent]
  | @snoc path e hpath hpar ih =>
    have he := droppedParent_get? hnd (hsub (by simp) : e ∈ entries)
    have ih := @ih fun x hx => hsub (by simp [hx])
    cases hg : e.isGitState with
    | false =>
      cases n <;> simp [liveParent, he, hg]
    | true =>
      obtain ⟨n, rfl⟩ : ∃ k, n = k + 1 := by
        simp only [filter_append, length_append, filter_cons, hg, if_true,
          filter_nil, length_cons, length_nil] at hn
        exact ⟨n - 1, by omega⟩
      have hn' : (path.filter isGitState).length ≤ n := by
        simp only [filter_append, length_append, filter_cons, hg, if_true,
          filter_nil, length_cons, length_nil] at hn
        omega
      simpa [liveParent, he, hg, hpar] using ih hn'

end

/-- `liveParent` with the steps `forkedEntries` gives it. -/
def liveId (entries : List SessionEntry) (id : Option String) : Option String :=
  (liveParent (droppedParent entries) ((droppedParent entries).size + 1) id).join

/-- An entry of a fork, `none` for a git state. -/
def forkedEntry (entries : List SessionEntry) (e : SessionEntry) : Option SessionEntry :=
  if e.isGitState then none else some { e with parentId := liveId entries e.parentId }

lemma liveParent_eq (hnd : (entries.map SessionEntry.id).Nodup)
    (hpath : RootPath SessionEntry.id SessionEntry.parentId path) (hsub : path.Sublist entries) :
    liveParent (droppedParent entries) ((droppedParent entries).size + 1)
        (path.getLast?.map SessionEntry.id) =
      some (liveId entries (path.getLast?.map SessionEntry.id)) ∧
    liveId entries (path.getLast?.map SessionEntry.id) =
      (path.filter fun e => !e.isGitState).getLast?.map SessionEntry.id := by
  have hlen : (path.filter isGitState).length ≤ (droppedParent entries).size + 1 := by
    rw [size_droppedParent hnd]
    exact Nat.le_succ_of_le (hsub.filter _).length_le
  have h := liveParent_getLast hnd hpath hsub.subset hlen
  simp [liveId, h]

section
variable (hgrown : Grown SessionEntry.id SessionEntry.parentId entries)
include hgrown

lemma liveId_parentId (he : e ∈ entries) :
    liveParent (droppedParent entries) ((droppedParent entries).size + 1) e.parentId =
        some (liveId entries e.parentId) ∧
      (e.isGitState = true → liveId entries (some e.id) = liveId entries e.parentId) := by
  obtain ⟨path, hpath, hsub, hlast⟩ := hgrown.exists_rootPath he
  obtain ⟨init, rfl, hinit, hpar⟩ := hpath.exists_init hlast
  have hsub' : init.Sublist entries := (sublist_append_left _ _).trans hsub
  obtain ⟨hsome, heq⟩ := liveParent_eq hgrown.nodup hinit hsub'
  obtain ⟨-, heq'⟩ := liveParent_eq hgrown.nodup hpath hsub
  refine ⟨by rw [hpar, hsome], fun hg => ?_⟩
  rw [hpar, heq]
  simpa [hg] using heq'

/-- A fork prunes the tree of its source. -/
theorem pruning_forkedEntry :
    Pruning SessionEntry.id SessionEntry.parentId SessionEntry.id SessionEntry.parentId
      (forkedEntry entries) (liveId entries) entries where
  live_none := by simp [liveId, liveParent]
  key_eq e _ e' he' := by
    unfold forkedEntry at he'
    split_ifs at he'
    · cases he'
    · cases he'
      rfl
  parent_eq e _ e' he' := by
    unfold forkedEntry at he'
    split_ifs at he'
    · cases he'
    · cases he'
      rfl
  stays e he hstays := by
    have hg : e.isGitState = false := by
      by_contra hg
      exact hstays (by simp [forkedEntry, hg])
    simp [liveId, liveParent, droppedParent_get? hgrown.nodup he, hg]
  goes e he hgoes := by
    have hg : e.isGitState = true := by
      by_contra hg
      simp [forkedEntry, hg] at hgoes
    exact (liveId_parentId hgrown he).2 hg

lemma forkedEntries_eq :
    forkedEntries entries = some (entries.filterMap (forkedEntry entries)) := by
  have hmapM : ∀ es ⊆ entries, (es.filter fun e => !e.isGitState).mapM
      (fun e => (liveParent (droppedParent entries) ((droppedParent entries).size + 1)
        e.parentId).map fun parentId => { e with parentId }) =
      some (es.filterMap (forkedEntry entries)) := by
    intro es hes
    induction es with
    | nil => rfl
    | cons e es ih =>
      have ih := ih fun x hx => hes (by simp [hx])
      have hlive := (liveId_parentId hgrown (hes (by simp) : e ∈ entries)).1
      cases hg : e.isGitState with
      | true => simpa [hg, forkedEntry] using ih
      | false => simp [hg, forkedEntry, hlive, ih]
  exact hmapM entries (Subset.refl _)

end

end LiveParents

lemma keepsOrSilences_forkedEntry : KeepsOrSilences (forkedEntry entries) where
  keeps e e' he' := by
    unfold forkedEntry at he'
    split_ifs at he'
    · cases he'
    · cases he'
      exact ⟨rfl, rfl, rfl⟩
  silences e he := by
    unfold forkedEntry at he
    split_ifs at he with hg
    exact silent_of_isGitState hg

/-! ## The file of a fork -/

/-- What becomes of the line of an entry. -/
def forkedLine (entries : List SessionEntry) : FileEntry → Option FileEntry
  | .session _ => none
  | .entry e => (forkedEntry entries e).map .entry

lemma filterMap_forkedLine (es : List FileEntry) : es.filterMap (forkedLine entries) =
      ((sessionEntries es).filterMap (forkedEntry entries)).map .entry := by
  induction es with
  | nil => rfl
  | cons f es ih =>
    cases f with
    | session h =>
      exact ih
    | entry e =>
      cases he : forkedEntry entries e with
      | none | some e' => simpa [forkedLine, he] using ih

section ForkedLine

variable (entries : List SessionEntry)

/-- A line that is dropped is a header or a git state, one that is kept differs in its parent. -/
theorem forkedLine_cases (f : FileEntry) :
    (forkedLine entries f = none ∧ f.assistantId? = none ∧ f.attribution? = none) ∨
      ∃ id parentId parentId' timestamp body, f = .entry ⟨id, parentId, timestamp, body⟩ ∧
        forkedLine entries f = some (.entry ⟨id, parentId', timestamp, body⟩) := by
  cases f with
  | session h => exact .inl ⟨rfl, rfl, rfl⟩
  | entry e =>
    obtain ⟨_, _, _, body⟩ := e
    cases body with
    | gitState g => exact .inl ⟨rfl, rfl, rfl⟩
    | _ => exact .inr ⟨_, _, _, _, _, rfl, rfl⟩

/-- Nothing of the attributions and of what they are folded into is lost. -/
theorem assignUsages_forkedLine {es : List FileEntry}
    (h : assignUsages (attributions es) es = es) :
    assignUsages (attributions (es.filterMap (forkedLine entries)))
      (es.filterMap (forkedLine entries)) = es.filterMap (forkedLine entries) := by
  have hattr : attributions (es.filterMap (forkedLine entries)) = attributions es := by
    rw [attributions, attributions, filterMap_filterMap]
    refine filterMap_congr fun f _ => ?_
    rcases forkedLine_cases entries f with ⟨hf, -, hnone⟩ |
      ⟨id, parentId, parentId', timestamp, body, rfl, hf⟩
    · simp [hf, hnone]
    · cases body <;> rfl
  rw [hattr, assignUsages, AssignLast.assign_filterMap, ← assignUsages, h]
  · intro f hf
    rcases forkedLine_cases entries f with ⟨-, hnone, -⟩ | ⟨_, _, _, _, _, rfl, hf'⟩
    · exact hnone
    · rw [hf] at hf'
      cases hf'
  · intro f f' hf
    rcases forkedLine_cases entries f with ⟨hf', -⟩ | ⟨_, _, _, _, body, rfl, hf'⟩
    · rw [hf] at hf'
      cases hf'
    · rw [hf] at hf'
      cases hf'
      rfl
  · intro u f f' hf
    rcases forkedLine_cases entries f with ⟨hf', -⟩ | ⟨_, _, _, _, body, rfl, hf'⟩
    · rw [hf] at hf'
      cases hf'
    · rw [hf] at hf'
      cases body with
      | gitState g => cases hf
      | message m =>
        cases m <;>
        · cases hf
          rfl
      | _ =>
        cases hf
        rfl

end ForkedLine

lemma settled_fork {h : SessionHeader} {rest : List FileEntry} {entries : List SessionEntry}
    (hset : Settled (.session h :: rest)) {newHeader : SessionHeader}
    (hver : newHeader.version = some currentSessionVersion) {depth : ℕ} (hlt : depth < 2 ^ 53)
    (hdepth : newHeader.rlmDepth = some depth) :
    Settled (.session newHeader :: rest.filterMap (forkedLine entries)) where
  header := by
    refine ⟨newHeader, _, rfl, by simp [hver], ?_⟩
    have hvalid : decide (depth < 2 ^ 53) = true := decide_eq_true hlt
    simp only [lacksDepth, hdepth, Option.any_some, hvalid, Bool.not_true, Bool.and_false]
  folded := by
    have hfold := hset.folded
    rw [applyChildUsageAttributions_session_cons, List.cons.injEq] at hfold
    rw [applyChildUsageAttributions_session_cons, assignUsages_forkedLine entries hfold.2]

/-! ## What a fork preserves -/

/-- The fork holds the conversation of its source, and everything in it refers to entries of the
fork. -/
structure ForkPreserved (source fork : SessionManager) : Prop where
  context : fork.buildSessionContext = source.buildSessionContext
  parents : ∀ e ∈ fork.getEntries, ∀ p ∈ e.parentId, p ∈ fork.getEntries.map SessionEntry.id
  firstKept : ∀ e ∈ fork.getEntries, ∀ c ∈ e.compaction?,
    c.firstKeptEntryId ∈ fork.getEntries.map SessionEntry.id

/-- No compaction starts at a git state, and the session reads the same from its last entry that is
no git state as from its last entry. -/
structure ForkKeeps (m : SessionManager) : Prop where
  firstKept : ∀ e ∈ m.getEntries, ∀ c ∈ e.compaction?, ∀ g ∈ m.getEntries,
    g.isGitState = true → g.id ≠ c.firstKeptEntryId
  lastKept : Amide.buildSessionContext m.fileEntries
      (some ((m.getEntries.filter fun e => !e.isGitState).getLast?.map SessionEntry.id)) m.byId =
    m.buildSessionContext

/-- The first entry a compaction keeps is there. -/
def FirstKeptResolve (m : SessionManager) : Prop :=
  ∀ e ∈ m.getEntries, ∀ c ∈ e.compaction?, c.firstKeptEntryId ∈ m.getEntries.map SessionEntry.id

/-- `fork` is read from the file that a fork of the entries writes. -/
structure IsForkOf (entries : List SessionEntry) (fork : SessionManager) : Prop where
  entries : fork.getEntries = entries.filterMap (forkedEntry entries)
  byId : fork.byId = JsMap.index SessionEntry.id fork.getEntries
  leafId : fork.leafId = fork.getEntries.getLast?.map SessionEntry.id

/-- What a fork that is returned holds. -/
theorem forkFrom_spec {sourcePath targetCwd dir : String} {env : ForkEnv} {o : WriteOutcome}
    {files : Files} {entries : List FileEntry} (hset : Settled entries)
    (hload : loadEntriesFromFile files sourcePath = entries)
    (hgrown : Grown SessionEntry.id SessionEntry.parentId (sessionEntries entries)) :
    ∃ r files', forkFrom sourcePath targetCwd dir env o files = some (r, files') ∧
      (∀ fork, r = .ok fork → IsForkOf (sessionEntries entries) fork) ∧
      (o = .done → (createUniqueSessionFileTarget files dir env.sessionIds).isSome = true →
        ∃ fork, r = .ok fork) := by
  obtain ⟨hd, rest, rfl, hver, -⟩ := hset.header
  have hversion : sessionVersion (.session hd :: rest) = hd.version.getD 1 := rfl
  have hmig : migrateToCurrentVersion env.migrationDraws (.session hd :: rest) =
      (.session hd :: rest, false) := by
    rw [migrateToCurrentVersion, hversion, if_pos hver]
  have hheader : ((FileEntry.session hd :: rest).findSome? FileEntry.header?).isNone = false := rfl
  rw [sessionEntries_session_cons] at hgrown ⊢
  unfold forkFrom
  simp only [hload, hmig, hheader, Bool.false_eq_true, if_false, sessionEntries_session_cons,
    forkedEntries_eq hgrown, Option.map_some]
  cases htarget : createUniqueSessionFileTarget files dir env.sessionIds with
  | none => exact ⟨_, _, rfl, by simp, by simp⟩
  | some target =>
    obtain ⟨newSessionId, newSessionFile⟩ := target
    cases o with
    | cut written => exact ⟨_, _, rfl, by simp, by simp⟩
    | done =>
      have hlines := filterMap_forkedLine (sessionEntries rest) rest
      have hfork := @settled_fork hd rest (sessionEntries rest) hset
        { version := some currentSessionVersion, id := newSessionId, timestamp := env.timestamp,
          cwd := targetCwd, parentSession := some sourcePath
          rlmDepth := some env.sourceRlmDepth, git := env.git } rfl _ env.sourceRlmDepth_lt rfl
      rw [hlines] at hfork
      obtain ⟨s, hopen, -, hentries, -, hbyId, hleaf⟩ := openSession_of_settled
        (Function.update_self newSessionFile _ files) (loadsAs_write hfork.loaded) hfork dir
        targetCwd env.toOpenEnv .done
      simp only [hopen]
      refine ⟨_, _, rfl, fun fork heq => ?_, fun _ _ => ⟨s.manager, rfl⟩⟩
      cases heq
      have hget : s.manager.getEntries =
          (sessionEntries rest).filterMap (forkedEntry (sessionEntries rest)) := by
        rw [getEntries, hentries, sessionEntries_session_cons, sessionEntries_map_entry]
      refine ⟨hget, ?_, ?_⟩
      · rw [hbyId, getEntries, hentries]
      · rw [hleaf, getEntries, hentries]

section Fork

variable {source fork : SessionManager}

lemma map_id_filterMap_forkedEntry (entries es : List SessionEntry) :
    (es.filterMap (forkedEntry entries)).map SessionEntry.id =
      (es.filter fun e => !e.isGitState).map SessionEntry.id := by
  induction es with
  | nil => rfl
  | cons e es ih => cases hg : e.isGitState <;> simp [forkedEntry, hg, ih]

section
variable (h : IsForkOf source.getEntries fork)
include h

lemma IsForkOf.ids : fork.getEntries.map SessionEntry.id =
    (source.getEntries.filter fun e => !e.isGitState).map SessionEntry.id := by
  rw [h.entries, map_id_filterMap_forkedEntry]

lemma IsForkOf.tree (htree : Tree source) : Tree fork where
  indexed := indexed_of_last h.byId h.leafId
  grown := h.entries ▸
    (pruning_forkedEntry htree.grown).grown htree.grown (Subset.refl _)
  nonempty e he := by
    have hid : e.id ∈ (source.getEntries.filter fun e => !e.isGitState).map SessionEntry.id :=
      h.ids ▸ mem_map_of_mem he
    obtain ⟨x, hx, heq⟩ := List.mem_map.mp hid
    exact heq ▸ htree.nonempty x (mem_of_mem_filter hx)

/-- Unless a compaction starts at a git state, the fork reads as the source does from its last
entry that is no git state. -/
theorem IsForkOf.context (htree : Tree source)
    (hkept : ∀ e ∈ source.getEntries, ∀ c ∈ e.compaction?, ∀ g ∈ source.getEntries,
      g.isGitState = true → g.id ≠ c.firstKeptEntryId) :
    fork.buildSessionContext = Amide.buildSessionContext source.fileEntries
      (some ((source.getEntries.filter fun e => !e.isGitState).getLast?.map SessionEntry.id))
      source.byId := by
  obtain ⟨path, hpath, hsub, hlast⟩ : ∃ path,
      RootPath SessionEntry.id SessionEntry.parentId path ∧ path.Sublist source.getEntries ∧
        path.getLast? = (source.getEntries.filter fun e => !e.isGitState).getLast? := by
    cases hlast : (source.getEntries.filter fun e => !e.isGitState).getLast? with
    | none => exact ⟨[], .nil, nil_sublist _, rfl⟩
    | some e =>
      exact htree.grown.exists_rootPath (mem_of_mem_filter (mem_of_getLast? hlast))
  have hpruning := pruning_forkedEntry htree.grown
  have hforked := (h.tree htree).context_eq (hpruning.rootPath hpath hsub.subset)
    (h.entries ▸ hsub.filterMap _)
  have hsource := htree.context_eq hpath hsub
  have hleaf : (path.filterMap (forkedEntry source.getEntries)).getLast?.map SessionEntry.id =
      fork.leafId := by
    rw [h.leafId, ← getLast?_map, ← getLast?_map, h.ids, map_id_filterMap_forkedEntry,
      getLast?_map, getLast?_map, ← hlast]
    cases hp : path.getLast? with
    | none => simp [getLast?_eq_none_iff.mp hp]
    | some e =>
      have hg : e.isGitState = false := by
        have := mem_of_getLast? (hlast.symm.trans hp)
        simpa using (mem_filter.mp this).2
      obtain ⟨init, rfl⟩ := getLast?_eq_some_iff.mp hp
      simp [hg]
  rw [hlast] at hsource
  rw [SessionManager.buildSessionContext, ← hleaf, hforked, hsource,
    contextOfPath_filterMap (keepsOrSilences_forkedEntry _)
      (htree.grown.nodup.sublist (hsub.map SessionEntry.id))]
  rintro pre e c post rfl hbody x hx hid hnone
  have hg : x.isGitState = true := by
    by_contra hg
    simp [forkedEntry, hg] at hnone
  exact hkept e (hsub.subset (by simp)) c (compaction?_of_body hbody) x
    (hsub.subset (by simp [hx])) hg hid

/-- **What a fork preserves.** -/
theorem IsForkOf.preserved_iff (htree : Tree source) (hresolve : FirstKeptResolve source) :
    ForkPreserved source fork ↔ ForkKeeps source := by
  have hcomp : ∀ e e', forkedEntry source.getEntries e = some e' →
      e'.compaction? = e.compaction? := by
    intro e e' he
    unfold compaction?
    rw [((keepsOrSilences_forkedEntry _).keeps e e' he).2.2]
  constructor
  · intro hp
    have hkept : ∀ e ∈ source.getEntries, ∀ c ∈ e.compaction?, ∀ g ∈ source.getEntries,
        g.isGitState = true → g.id ≠ c.firstKeptEntryId := by
      intro e he c hc g hg hgit heq
      -- the compaction stays, so its first kept entry is one that stays
      cases hf : forkedEntry source.getEntries e with
      | none =>
        have hsilent := ((keepsOrSilences_forkedEntry _).silences e hf).not_isCompaction
        rw [SessionEntry.isCompaction, hc] at hsilent
        cases hsilent
      | some e' =>
        have hmem : e' ∈ fork.getEntries := h.entries ▸ mem_filterMap.mpr ⟨e, he, hf⟩
        have hid := hp.firstKept e' hmem c (hcomp e e' hf ▸ hc)
        rw [h.ids, ← heq] at hid
        obtain ⟨x, hx, hxid⟩ := List.mem_map.mp hid
        obtain ⟨hxmem, hxgit⟩ := mem_filter.mp hx
        obtain rfl := inj_on_of_nodup_map htree.grown.nodup hxmem hg hxid
        simp [hgit] at hxgit
    exact ⟨hkept, (h.context htree hkept).symm.trans hp.context⟩
  · intro hk
    refine ⟨(h.context htree hk.firstKept).trans hk.lastKept, fun e he p hp => ?_,
      fun e' he' c hc => ?_⟩
    · exact (h.tree htree).grown.parent_mem he p hp
    · rw [h.entries] at he'
      obtain ⟨e, he, hf⟩ := mem_filterMap.mp he'
      rw [hcomp e e' hf] at hc
      obtain ⟨x, hx, hid⟩ := List.mem_map.mp (hresolve e he c hc)
      rw [h.ids, ← hid]
      refine mem_map_of_mem (mem_filter.mpr ⟨hx, ?_⟩)
      by_contra hg
      exact hk.firstKept e he c hc x hx (by simpa using hg) hid

end

end Fork

/-! ## Stored sessions -/

/-- A call after which the session can be forked: it is not cut short, its id is new, and a
compaction starts where `prepareCompaction` says for entries of the session. -/
structure ForkableCall (s : SessionState) (c : SessionCall) : Prop where
  uncut : UncutCall s c
  fresh : FreshId s c
  prepared : ∀ fields, c.op = .appendCompaction fields → ∃ path settings p,
    path ⊆ s.manager.getEntries ∧ prepareCompaction path settings = some p ∧
      fields.firstKeptEntryId = p.firstKeptEntryId

lemma mem_of_prepareCompaction {settings : CompactionSettings} {p : CompactionPreparation}
    (h : prepareCompaction path settings = some p) :
    p.firstKeptEntryId ∈ path.map SessionEntry.id := by
  obtain ⟨⟨kept, hkept, hid⟩, -⟩ := prepareCompaction_cases h
  rw [hid]
  exact mem_map_of_mem (mem_of_getElem? hkept)

lemma compaction?_setUsage (usage : Usage) (e : SessionEntry) :
    (e.setUsage usage).compaction? = e.compaction? := by
  obtain ⟨_, _, _, body⟩ := e
  cases body with
  | message m => cases m <;> rfl
  | _ => rfl

variable {s : SessionState} {p : SessionState} {op : SessionOp} {stamp : Stamp}

/-- A pushed entry is a compaction only if the call appends one. -/
theorem Pushed.compaction?_eq
    (hp : Pushed op stamp s e p) {c : CompactionFields} (hc : e.compaction? = some c) :
    op = .appendCompaction c := by
  have hbody := hp.body_eq
  unfold compaction? at hc
  split at hc
  · rename_i c' heq
    cases op <;> simp_all [SessionOp.body?]
  · cases hc

lemma SameTree.firstKeptResolve {m m' : SessionManager} (h : SameTree m m')
    (hm : FirstKeptResolve m) : FirstKeptResolve m' := by
  have hsame : m'.getEntries = m.getEntries := by
    rw [getEntries, getEntries, h.fileEntries]
  unfold FirstKeptResolve
  rw [hsame]
  exact hm

lemma Pushed.firstKeptResolve
    (hp : Pushed op stamp s e p) (h : FirstKeptResolve s.manager)
    (hop : ∀ c, op = .appendCompaction c →
      c.firstKeptEntryId ∈ s.manager.getEntries.map SessionEntry.id) :
    FirstKeptResolve p.manager := by
  have hids := map_extendEntries id_setUsage s.manager.fileEntries e
  have hcompactions := map_extendEntries compaction?_setUsage s.manager.fileEntries e
  rw [← hp.fileEntries] at hids hcompactions
  intro x hx c hc
  have hmem : c.firstKeptEntryId ∈ s.manager.getEntries.map SessionEntry.id := by
    have hxc : x.compaction? ∈ (sessionEntries p.manager.fileEntries).map compaction? :=
      mem_map_of_mem hx
    rw [hcompactions] at hxc
    rcases mem_append.mp hxc with hxc | hxc
    · obtain ⟨y, hy, heq⟩ := List.mem_map.mp hxc
      exact h y hy c (heq.trans hc)
    · exact hop c (hp.compaction?_eq ((mem_singleton.mp hxc).symm.trans hc))
  rw [getEntries, hids]
  exact mem_append_left _ hmem

/-- A session at the path that can be forked whenever it is on disk. -/
structure Stored (path : String) (s : SessionState) : Prop where
  durable : Durable True path s
  tree : Tree s.manager
  firstKept : FirstKeptResolve s.manager

lemma Stored.step {path : String} {s' : SessionState} {c : SessionCall} (h : Stored path s)
    (hc : ForkableCall s c) (hstep : sessionMachine.step s c s') : Stored path s' where
  durable := h.durable.step (h.durable.clean hc.uncut) hstep
  tree := h.tree.step hc.fresh hstep
  firstKept := by
    have hcall : CallStep c.op c.stamp c.outcomes s c.result s' := .of_run hstep
    rcases hcall.tree h.tree.indexed fun _ => hc.fresh.fallback with
      hsame | ⟨leafId, -, hsame⟩ | ⟨e, p, hp, hsame⟩
    · exact hsame.firstKeptResolve h.firstKept
    · exact hsame.firstKeptResolve h.firstKept
    · refine hsame.firstKeptResolve (hp.firstKeptResolve h.firstKept fun fields hop => ?_)
      obtain ⟨path, settings, prep, hsub, hprep, heq⟩ := hc.prepared fields hop
      rw [heq]
      exact map_subset _ hsub (mem_of_prepareCompaction hprep)

variable {calls : List SessionCall} {s₀ : SessionState}

lemma Stored.run {dir cwd path : String} {env : SessionEnv} {files : Files}
    (hcreate : createSession dir cwd true env files = (.ok (), s₀))
    (hpath : s₀.manager.sessionFile = some path)
    (hrun : (sessionMachine.guard ForkableCall).Run s₀ calls s) : Stored path s := by
  have hempty : s₀.manager.getEntries = [] := (newSession_spec hcreate).2.2.2.2.2
  have hstored : Stored path s₀ :=
    ⟨(Started.created hcreate hpath).durable, tree_of_newSession hcreate,
      fun e he => by simp [hempty] at he⟩
  exact hrun.invariant hstored fun _ _ _ hi hstep => hi.step hstep.2 hstep.1

/-- The session opened again. -/
theorem Stored.exists_open {path : String} (h : Stored path s) (hflushed : s.manager.flushed = true)
    (dir cwd : String) (env : OpenEnv) (o : WriteOutcome) :
    ∃ source, openSession path dir cwd env o s.files = (.ok (), source) ∧
      source.manager.fileEntries = s.manager.fileEntries ∧
      source.manager.byId = JsMap.index SessionEntry.id s.manager.getEntries ∧
      source.manager.leafId = s.manager.getEntries.getLast?.map SessionEntry.id := by
  obtain ⟨content, hfile, -, hloads⟩ := h.durable.onDisk hflushed
  obtain ⟨source, hopen, -, hentries, -, hbyId, hleaf⟩ := openSession_of_settled hfile hloads
    h.durable.settled dir cwd env o
  exact ⟨source, hopen, hentries, hbyId, hleaf⟩

/-- **When a fork preserves the conversation.** -/
theorem forkFrom_preserves_iff {dir cwd path : String} {env : SessionEnv} {files : Files}
    {s₀ s : SessionState} {calls : List SessionCall}
    (hcreate : createSession dir cwd true env files = (.ok (), s₀))
    (hpath : s₀.manager.sessionFile = some path)
    (hrun : (sessionMachine.guard ForkableCall).Run s₀ calls s)
    (hflushed : s.manager.flushed = true) (dir' cwd' : String) (env' : OpenEnv) (o' : WriteOutcome)
    (forkCwd forkDir : String) (forkEnv : ForkEnv) (o : WriteOutcome) :
    ∃ source r files', openSession path dir' cwd' env' o' s.files = (.ok (), source) ∧
      forkFrom path forkCwd forkDir forkEnv o s.files = some (r, files') ∧
      (∀ fork, r = .ok fork → (ForkPreserved source.manager fork ↔ ForkKeeps source.manager)) ∧
      (o = .done →
        (createUniqueSessionFileTarget s.files forkDir forkEnv.sessionIds).isSome = true →
        ∃ fork, r = .ok fork) := by
  have hstored := Stored.run hcreate hpath hrun
  obtain ⟨content, hfile, -, hloads⟩ := hstored.durable.onDisk hflushed
  obtain ⟨source, hopen, hentries, hbyId, hleaf⟩ := hstored.exists_open hflushed dir' cwd' env' o'
  obtain ⟨r, files', hfork, hspec, hok⟩ := forkFrom_spec hstored.durable.settled
    (hloads.load hfile) hstored.tree.grown
  refine ⟨source, r, files', hopen, hfork, fun fork hr => ?_, hok⟩
  have hsame : source.manager.getEntries = s.manager.getEntries := by
    rw [getEntries, getEntries, hentries]
  have htree : Tree source.manager :=
    ⟨indexed_of_last (hsame ▸ hbyId) (hsame ▸ hleaf), hsame ▸ hstored.tree.grown,
      hsame ▸ hstored.tree.nonempty⟩
  have hresolve : FirstKeptResolve source.manager := by
    unfold FirstKeptResolve
    rw [hsame]
    exact hstored.firstKept
  exact IsForkOf.preserved_iff (hsame ▸ hspec fork hr) htree hresolve

/-! ### Two small sessions -/

/-- A new session whose file is `//new.jsonl`. -/
def plainForkEnv : ForkEnv where
  toOpenEnv := plainEnv
  sourceRlmDepth := 0
  sourceRlmDepth_lt := plainEnv.resolvedRlmDepth_lt

lemma run_forkable
    (h : (sessionMachine.guard ForkableCall).Run s₀ calls s) (op : SessionOp)
    (hok : (op.run (plainCall id op).stamp (plainCall id op).outcomes s).1 = .ok ()) (hne : id ≠ "")
    (hnew : s.manager.byId.has id = false) (hattr : attributions s.manager.fileEntries = [])
    (hprep : ∀ fields, op = .appendCompaction fields →
      ∃ path settings p, path ⊆ s.manager.getEntries ∧ prepareCompaction path settings = some p ∧
      fields.firstKeptEntryId = p.firstKeptEntryId) :
    (sessionMachine.guard ForkableCall).Run s₀ (calls ++ [plainCall id op])
      (s.after (plainCall id op)) := by
  refine h.snoc ⟨Prod.ext hok rfl, ?_, ⟨fun _ => hne, hnew⟩, hprep⟩
  refine ⟨fun _ _ _ _ _ => nofun, fun e _ _ => ?_, fun h => absurd rfl h⟩
  rw [hattr]
  simp

lemma run_answered : (sessionMachine.guard ForkableCall).Run diskSession
    [say "a" "one", answer "b" "two"] answered := by
  have h₁ := run_forkable (.nil : Machine.Run _ diskSession [] _) (say "a" "one").op rfl
    (by decide : "a" ≠ "") (by decide) (by decide) nofun
  exact run_forkable h₁ (answer "b" "two").op rfl (by decide : "b" ≠ "") (by decide) (by decide)
    nofun

/-- A git state stands behind the answer, and another question behind it. -/
def behindGitState : SessionState :=
  (answered.after (plainCall "g" (.appendGitState {}))).after (say "c" "three")

lemma run_behindGitState : (sessionMachine.guard ForkableCall).Run diskSession
    [say "a" "one", answer "b" "two", plainCall "g" (.appendGitState {}), say "c" "three"]
    behindGitState := by
  have h₁ := run_forkable run_answered (.appendGitState {}) rfl (by decide : "g" ≠ "") (by decide)
    (by decide) nofun
  exact run_forkable h₁ (say "c" "three").op rfl (by decide : "c" ≠ "") (by decide) (by decide)
    nofun

abbrev compactFrom (firstKeptEntryId : String) : SessionCall :=
  plainCall "k" (.appendCompaction { summary := "so far", firstKeptEntryId, tokensBefore := 0 })

lemma prepared_of_map {entries : List SessionEntry} {settings : CompactionSettings}
    (hprep : (prepareCompaction entries settings).map CompactionPreparation.firstKeptEntryId =
      some id) :
    ∀ fields, (compactFrom id).op = .appendCompaction fields →
      ∃ path settings p, path ⊆ entries ∧ prepareCompaction path settings = some p ∧
      fields.firstKeptEntryId = p.firstKeptEntryId := by
  intro fields hop
  obtain rfl := SessionOp.appendCompaction.inj hop
  obtain ⟨p, hp, hid⟩ := Option.map_eq_some_iff.mp hprep
  exact ⟨_, _, p, Subset.refl _, hp, hid.symm⟩

/-- A compaction keeps the last answer. -/
def compactedBehindGitState : SessionState :=
  (behindGitState.after (answer "d" "four")).after (compactFrom "d")

/-- A fork of this session. -/
theorem forkFrom_preserves_behindGitState :
    ∃ source fork files', openSession "//new.jsonl" "/" "/" plainEnv .done
        compactedBehindGitState.files = (.ok (), source) ∧
      forkFrom "//new.jsonl" "/" "forks" plainForkEnv .done compactedBehindGitState.files =
        some (.ok fork, files') ∧
      ForkPreserved source.manager fork := by
  have hcreate : createSession "/" "/" true plainEnv.toSessionEnv (fun _ => none) =
      (.ok (), diskSession) := rfl
  have h₁ := run_forkable run_behindGitState (answer "d" "four").op rfl (by decide : "d" ≠ "")
    (by decide) (by decide) nofun
  have hprep : (prepareCompaction (behindGitState.after (answer "d" "four")).manager.getEntries
      ⟨true, 0, 0⟩).map CompactionPreparation.firstKeptEntryId = some "d" := by decide
  have hrun := run_forkable h₁ (compactFrom "d").op rfl (by decide : "k" ≠ "") (by decide)
    (by decide) (prepared_of_map hprep)
  obtain ⟨source, r, files', hopen, hfork, hiff, hok⟩ := forkFrom_preserves_iff hcreate rfl
    hrun rfl "/" "/" plainEnv .done "/" "forks" plainForkEnv .done
  obtain ⟨fork, rfl⟩ := hok rfl rfl
  obtain ⟨source', hopen', hentries, hbyId, hleaf⟩ :=
    (Stored.run hcreate rfl hrun).exists_open rfl "/" "/" plainEnv .done
  obtain rfl : source = source' := (Prod.mk.inj (hopen.symm.trans hopen')).2
  have hget : source.manager.getEntries = compactedBehindGitState.manager.getEntries := by
    rw [getEntries, getEntries, hentries]
    rfl
  refine ⟨source, fork, files', hopen, hfork, (hiff fork rfl).mpr ⟨?_, ?_⟩⟩
  · rw [hget]
    decide
  · rw [SessionManager.buildSessionContext, hget, hentries, hbyId, hleaf]
    decide

/-- A session whose compaction keeps what follows a git state. -/
def compactedAtGitState : SessionState :=
  ((answered.after (plainCall "g" (.appendGitState {}))).after (say "c" "three")).after
    (plainCall "k" (.appendCompaction
      { summary := "so far", firstKeptEntryId := "g", tokensBefore := 0 }))

lemma run_compactedAtGitState : (sessionMachine.guard ForkableCall).Run diskSession
    [say "a" "one", answer "b" "two", plainCall "g" (.appendGitState {}), say "c" "three",
      compactFrom "g"] compactedAtGitState := by
  have hprep : (prepareCompaction behindGitState.manager.getEntries ⟨true, 0, 1⟩).map
      CompactionPreparation.firstKeptEntryId = some "g" := by decide
  exact run_forkable run_behindGitState (compactFrom "g").op rfl (by decide : "k" ≠ "") (by decide)
    (by decide) (prepared_of_map hprep)

/-- **A compaction that starts at a git state is cut off by a fork.**  What it kept is gone from
the context, and its first kept entry is not there. -/
theorem compactedAtGitState_not_preserved : (sessionMachine.guard ForkableCall).Run diskSession
      [say "a" "one", answer "b" "two", plainCall "g" (.appendGitState {}), say "c" "three",
        plainCall "k" (.appendCompaction
          { summary := "so far", firstKeptEntryId := "g", tokensBefore := 0 })]
      compactedAtGitState ∧
    ∃ source fork files', openSession "//new.jsonl" "/" "/" plainEnv .done
        compactedAtGitState.files = (.ok (), source) ∧
      forkFrom "//new.jsonl" "/" "forks" plainForkEnv .done compactedAtGitState.files =
        some (.ok fork, files') ∧
      fork.buildSessionContext ≠ source.manager.buildSessionContext ∧
      ∃ e ∈ fork.getEntries, ∃ c ∈ e.compaction?,
        c.firstKeptEntryId ∉ fork.getEntries.map SessionEntry.id := by
  refine ⟨run_compactedAtGitState, ?_⟩
  have hcreate : createSession "/" "/" true plainEnv.toSessionEnv (fun _ => none) =
      (.ok (), diskSession) := rfl
  have hstored := Stored.run hcreate rfl run_compactedAtGitState
  obtain ⟨content, hfile, -, hloads⟩ := hstored.durable.onDisk rfl
  obtain ⟨source, hopen, hentries, hbyId, hleaf⟩ := hstored.exists_open rfl "/" "/" plainEnv .done
  obtain ⟨r, files', hfork, hspec, hok⟩ := @forkFrom_spec "//new.jsonl" "/" "forks" plainForkEnv
    .done compactedAtGitState.files _ hstored.durable.settled (hloads.load hfile)
    hstored.tree.grown
  obtain ⟨fork, rfl⟩ := hok rfl rfl
  obtain ⟨hget, hforkById, hforkLeaf⟩ := hspec fork rfl
  refine ⟨source, fork, files', hopen, hfork, ?_, ?_⟩
  · have hlast : lookupId fork.byId fork.leafId =
        some (plainEntry "k" (some "c") (compactionBody "g")) := by
      rw [hforkLeaf, hforkById, hget]
      decide
    rw [SessionManager.buildSessionContext, buildSessionContext_of_lookup hlast, hforkById, hget,
      SessionManager.buildSessionContext, hentries, hbyId, hleaf]
    decide
  · rw [hget]
    decide

end Amide
