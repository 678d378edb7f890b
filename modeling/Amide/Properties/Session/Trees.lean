import Amide.Framework.ParentTree
import Amide.Properties.Session.Opening
import Amide.Properties.Session.Paths

/-!
# The tree of a session

The entries of a session that was made by the operations of the manager form a grown tree
(`Tree`), as long as the ids drawn are new; so the walk from any entry ends at a root, and a branch
is a path of the tree.  The context of a path does not change when entries are taken out of it
that stand for nothing, unless its last compaction names one of them as the first entry it kept
(`contextOfPath_filterMap`).
-/

namespace Amide

open SessionState ParentTree SessionEntry
open SessionManager (getEntries)

/-! ## Runs -/

/-- The ids a call draws are not empty, and the last of them is not taken. -/
structure FreshId (s : SessionState) (c : SessionCall) : Prop where
  nonempty : ∀ i, c.stamp.draws i ≠ ""
  fallback : s.manager.byId.has (c.stamp.draws 100) = false

lemma shortId_ne_empty {uuid : String} (h : uuid ≠ "") : shortId uuid ≠ "" := by
  intro hshort
  apply h
  have htake : uuid.toList.take 8 = [] := by
    simpa [shortId] using congrArg String.toList hshort
  simpa using htake

lemma generateId_ne_empty {has : String → Bool} {draws : Draws} (h : ∀ i, draws i ≠ "") :
    generateId has draws ≠ "" := by
  unfold generateId
  split
  · exact shortId_ne_empty (h _)
  · exact h _

/-- The entries are a grown tree, indexed by their ids. -/
structure Tree (m : SessionManager) : Prop where
  indexed : Indexed m
  grown : Grown SessionEntry.id parentId m.getEntries
  nonempty : ∀ e ∈ m.getEntries, e.id ≠ ""

variable {id : String}

lemma Indexed.has_iff {m : SessionManager} (h : Indexed m) :
    m.byId.has id = true ↔ id ∈ m.getEntries.map SessionEntry.id := by
  rw [h.byId, ← Bool.not_eq_false, JsMap.has_eq_false_iff, JsMap.get?_index_eq_none_iff]
  simp only [List.mem_map, not_forall, not_not, exists_prop]

variable {e : SessionEntry}

lemma Pushed.tree {op : SessionOp} {stamp : Stamp} {s p : SessionState}
    (hp : Pushed op stamp s e p) (h : Tree s.manager) (hnonempty : ∀ i, stamp.draws i ≠ "")
    (hfall : s.manager.byId.has (stamp.draws 100) = false) : Tree p.manager where
  indexed := hp.indexed h.indexed
  grown := by
    have hnew : e.id ∉ s.manager.getEntries.map SessionEntry.id := by
      rw [← h.indexed.has_iff, hp.id_eq, generateId_notMem hfall]
      exact Bool.false_ne_true
    have hpar : ∀ id ∈ e.parentId, id ∈ s.manager.getEntries.map SessionEntry.id :=
      fun id hid => h.indexed.has_iff.mp (hp.parentId_has h.indexed id hid)
    refine (h.grown.snoc hnew hpar).congr ?_
    rw [getEntries, hp.fileEntries, map_extendEntries (by simp)]
    simp [getEntries]
  nonempty := by
    have hids : ∀ id ∈ p.manager.getEntries.map SessionEntry.id, id ≠ "" := by
      rw [getEntries, hp.fileEntries, map_extendEntries id_setUsage]
      intro id hid
      rcases List.mem_append.mp hid with hid | hid
      · obtain ⟨x, hx, rfl⟩ := List.mem_map.mp hid
        exact h.nonempty x hx
      · rw [List.mem_singleton.mp hid, hp.id_eq]
        exact generateId_ne_empty hnonempty
    exact fun x hx => hids _ (List.mem_map_of_mem hx)

lemma SameTree.tree {m m' : SessionManager} (h : SameTree m m') (ht : Tree m) : Tree m' := by
  have hsame : m'.getEntries = m.getEntries := by
    rw [getEntries, getEntries, h.fileEntries]
  exact ⟨h.indexed ht.indexed, hsame ▸ ht.grown, hsame ▸ ht.nonempty⟩

variable {s s' : SessionState}

/-- Every call keeps the tree. -/
theorem Tree.step {c : SessionCall} (h : Tree s.manager)
    (hfresh : FreshId s c) (hstep : sessionMachine.step s c s') : Tree s'.manager := by
  have hcall : CallStep c.op c.stamp c.outcomes s c.result s' := .of_run hstep
  rcases hcall.tree h.indexed fun _ => hfresh.fallback with
    hsame | ⟨leafId, hleaf, hsame⟩ | ⟨e, p, hp, hsame⟩
  · exact hsame.tree h
  · exact hsame.tree ⟨setLeaf_indexed h.indexed hleaf, h.grown, h.nonempty⟩
  · exact hsame.tree (hp.tree h hfresh.nonempty hfresh.fallback)

lemma tree_of_newSession {env : SessionEnv}
    (h : s.newSession env = (.ok (), s')) : Tree s'.manager := by
  obtain ⟨-, -, hidx, -, -, hentries⟩ := newSession_spec h
  exact ⟨hidx, hentries ▸ .nil, by simp [hentries]⟩

variable {calls : List SessionCall} {s₀ s : SessionState}

lemma Tree.run
    (hrun : (sessionMachine.guard FreshId).Run s₀ calls s) (h : Tree s₀.manager) :
    Tree s.manager :=
  hrun.invariant (I := fun s => Tree s.manager) h fun _ _ _ hi hstep => hi.step hstep.2 hstep.1

/-- A run prolonged by a plain call. -/
theorem run_plainCall
    (h : (sessionMachine.guard FreshId).Run s₀ calls s) (op : SessionOp)
    (hok : (op.run (plainCall id op).stamp (plainCall id op).outcomes s).1 = .ok ()) (hne : id ≠ "")
    (hnew : s.manager.byId.has id = false) :
    (sessionMachine.guard FreshId).Run s₀ (calls ++ [plainCall id op])
      (s.after (plainCall id op)) :=
  run_after h _ hok ⟨fun _ => hne, hnew⟩

/-! ## Branches -/

lemma buildSessionContext_of_lookup {entries : List FileEntry} {leafId : Option String}
    {byId : JsMap String SessionEntry} (h : lookupId byId leafId = some e) :
    Amide.buildSessionContext entries (some leafId) byId =
      (rootPath byId (some e)).map contextOfPath := by
  cases leafId with
  | none => cases h
  | some id => simp [Amide.buildSessionContext, h]


variable {path : List SessionEntry}

section Branches

variable {m : SessionManager}

lemma Tree.lookupId_eq (h : Tree m) (he : e ∈ m.getEntries) :
    lookupId m.byId (some e.id) = some e := by
  rw [h.indexed.byId]
  exact lookupId_index h.grown.nodup he (h.nonempty e he)

lemma Tree.chained (h : Tree m) (hpath : RootPath SessionEntry.id parentId path)
    (hsub : path ⊆ m.getEntries) : Chained m.byId path := by
  induction hpath with
  | nil => exact .nil
  | @snoc path e hpath hpar ih =>
    refine (ih fun x hx => hsub (by simp [hx])).snoc ?_
    rw [hpar]
    cases hlast : path.getLast? with
    | none => rfl
    | some a =>
      have ha : a ∈ path := List.mem_of_getLast? hlast
      exact h.lookupId_eq (hsub (by simp [ha]))

section
variable (h : Tree m) (hpath : RootPath SessionEntry.id parentId path)
  (hsub : path.Sublist m.getEntries)
include h hpath hsub

lemma Tree.rootPath_eq : rootPath m.byId path.getLast? = some path := by
  refine (h.chained hpath hsub.subset).rootPath ?_
  rw [h.indexed.byId, JsMap.size_index _ h.grown.nodup]
  exact hsub.length_le

/-- The context of a leaf is the context of its path. -/
theorem Tree.context_eq :
    Amide.buildSessionContext m.fileEntries (some (path.getLast?.map SessionEntry.id)) m.byId =
      some (contextOfPath path) := by
  cases hlast : path.getLast? with
  | none =>
    rw [List.getLast?_eq_none_iff.mp hlast]
    rfl
  | some e =>
    have he : e ∈ m.getEntries := hsub.subset (List.mem_of_getLast? hlast)
    rw [Option.map_some, buildSessionContext_of_lookup (h.lookupId_eq he), ← hlast,
      h.rootPath_eq hpath hsub, Option.map_some]

end

/-- The branch of an entry. -/
theorem Tree.exists_branch (h : Tree m) (he : e ∈ m.getEntries) :
    ∃ path, RootPath SessionEntry.id parentId path ∧ path.Sublist m.getEntries ∧
      path.getLast? = some e ∧ m.getBranch (some e.id) = some path := by
  obtain ⟨path, hpath, hsub, hlast⟩ := h.grown.exists_rootPath he
  refine ⟨path, hpath, hsub, hlast, ?_⟩
  rw [SessionManager.getBranch, Option.some_or, Amide.getBranch, h.lookupId_eq he, ← hlast,
    h.rootPath_eq hpath hsub]

end Branches

/-! ## Entries that stand for nothing -/

/-- An entry that contributes neither a message nor a setting. -/
structure Silent (e : SessionEntry) : Prop where
  message : e.contextMessage? = none
  settings : ∀ s : PathSettings, s.step e = s

lemma silent_of_isLabel (h : e.isLabel = true) : Silent e := by
  obtain ⟨_, _, _, body⟩ := e
  cases body with
  | label t l => exact ⟨rfl, fun _ => rfl⟩
  | _ => cases h

lemma silent_of_isGitState (h : e.isGitState = true) : Silent e := by
  obtain ⟨_, _, _, body⟩ := e
  cases body with
  | gitState g => exact ⟨rfl, fun _ => rfl⟩
  | _ => cases h

lemma Silent.not_isCompaction (h : Silent e) : e.isCompaction = false := by
  cases hc : e.isCompaction with
  | false => rfl
  | true =>
    obtain ⟨c, hbody⟩ : ∃ c, e.body = .compaction c := by
      unfold isCompaction compaction? at hc
      split at hc
      · exact ⟨_, ‹_›⟩
      · simp at hc
    have := congrArg PathSettings.compaction (h.settings {})
    simp [PathSettings.step, hbody] at this

/-- The settings but for the last compaction. -/
def PathSettings.shown (s : PathSettings) : String × ServiceTier × Option ModelRef :=
  (s.thinkingLevel, s.serviceTier, s.model)

lemma pathSettings_concat (es : List SessionEntry) (e : SessionEntry) :
    pathSettings (es ++ [e]) = (pathSettings es).step e := by
  simp [pathSettings]

lemma step_shown {s s' : PathSettings} {e' : SessionEntry} (hs : s.shown = s'.shown)
    (hbody : e.body = e'.body) : (s.step e).shown = (s'.step e').shown := by
  simp only [PathSettings.shown, Prod.mk.injEq] at hs ⊢
  unfold PathSettings.step
  rw [hbody]
  split <;> simp [hs]

/-- What a filter of entries keeps of one: all but its parent. -/
structure KeepsOrSilences (f : SessionEntry → Option SessionEntry) : Prop where
  keeps : ∀ e, ∀ e' ∈ f e, e'.id = e.id ∧ e'.timestamp = e.timestamp ∧ e'.body = e.body
  silences : ∀ e, f e = none → Silent e

section FilterMap

variable {f : SessionEntry → Option SessionEntry} (hf : KeepsOrSilences f)
include hf

lemma contextMessages_filterMap (es : List SessionEntry) :
    contextMessages (es.filterMap f) = contextMessages es := by
  rw [contextMessages, contextMessages, List.filterMap_filterMap]
  refine List.filterMap_congr fun e _ => ?_
  cases he : f e with
  | none => exact (hf.silences e he).message.symm
  | some e' =>
    obtain ⟨-, htime, hbody⟩ := hf.keeps e e' he
    simp [contextMessage?, htime, hbody]

lemma isCompaction_of_keeps {e' : SessionEntry} (he : f e = some e') :
    e'.isCompaction = e.isCompaction := by
  unfold isCompaction compaction?
  rw [(hf.keeps e e' he).2.2]

lemma shown_filterMap (es : List SessionEntry) :
    (pathSettings (es.filterMap f)).shown = (pathSettings es).shown := by
  induction es using List.reverseRecOn with
  | nil => rfl
  | append_singleton es e ih =>
    rw [List.filterMap_append, pathSettings_concat]
    cases he : f e with
    | none => simpa [he, (hf.silences e he).settings] using ih
    | some e' =>
      simp only [List.filterMap_cons, he, List.filterMap_nil, pathSettings_concat]
      exact step_shown ih (hf.keeps e e' he).2.2

variable {es : List SessionEntry}

lemma free_filterMap (h : ∀ e ∈ es, e.isCompaction = false) :
    ∀ e ∈ es.filterMap f, e.isCompaction = false := by
  intro e' he'
  obtain ⟨e, he, hfe⟩ := List.mem_filterMap.mp he'
  rw [isCompaction_of_keeps hf hfe]
  exact h e he

lemma map_id_filterMap_sublist (es : List SessionEntry) :
    ((es.filterMap f).map SessionEntry.id).Sublist (es.map SessionEntry.id) := by
  induction es with
  | nil => simp
  | cons e es ih =>
    cases he : f e with
    | none => simpa [he] using ih.trans (List.sublist_cons_self _ _)
    | some e' => simpa [he, (hf.keeps e e' he).1] using ih

/-- Scanning for an id that is not one of those taken out. -/
theorem fromFirstKept_filterMap (hid : ∀ e ∈ es, e.id = id → f e ≠ none) :
    fromFirstKept id (es.filterMap f) = (fromFirstKept id es).filterMap f := by
  induction es with
  | nil => rfl
  | cons e es ih =>
    have ih := ih fun x hx => hid x (by simp [hx])
    unfold fromFirstKept at ih ⊢
    by_cases he : e.id = id
    · cases hfe : f e with
      | none => exact absurd hfe (hid e (by simp) he)
      | some e' => simp [hfe, (hf.keeps e e' hfe).1, he]
    · cases hfe : f e with
      | none => simpa [hfe, he] using ih
      | some e' => simpa [hfe, (hf.keeps e e' hfe).1, he] using ih

/-- **Silent entries can be taken out of a path**, unless a compaction on it names one of those
before it as the first it kept. -/
theorem contextOfPath_filterMap (hnd : (path.map SessionEntry.id).Nodup)
    (hkept : ∀ pre e c post, path = pre ++ e :: post → e.body = .compaction c →
      ∀ x ∈ pre, x.id = c.firstKeptEntryId → f x ≠ none) :
    contextOfPath (path.filterMap f) = contextOfPath path := by
  have hset := shown_filterMap hf path
  simp only [PathSettings.shown, Prod.mk.injEq] at hset
  obtain ⟨hl, ht, hm⟩ := hset
  have hmsgs : pathMessages (path.filterMap f) = pathMessages path := by
    rcases exists_lastCompaction path with hfree | ⟨pre, e, c, post, rfl, hbody, hpost⟩
    · rw [pathMessages_of_free hfree, pathMessages_of_free (free_filterMap hf hfree),
        contextMessages_filterMap hf]
    · have hnd' := hnd.sublist (map_id_filterMap_sublist hf _)
      obtain ⟨e', he'⟩ : ∃ e', f e = some e' := by
        cases he : f e with
        | none =>
          have := (hf.silences e he).not_isCompaction
          simp [isCompaction_of_body hbody] at this
        | some e' => exact ⟨e', rfl⟩
      obtain ⟨hid, htime, hbody'⟩ := hf.keeps e e' he'
      simp only [List.filterMap_append, List.filterMap_cons, he'] at hnd' ⊢
      rw [pathMessages_of_split hnd hbody hpost,
        pathMessages_of_split hnd' (hbody'.trans hbody) (free_filterMap hf hpost),
        fromFirstKept_filterMap hf (hkept pre e c post rfl hbody), contextMessages_filterMap hf,
        contextMessages_filterMap hf, htime]
  simp [contextOfPath, hmsgs, hl, ht, hm]

end FilterMap

end Amide
