import Amide.Framework.KeyedList
import Amide.Construction.Session.Context

/-!
# Paths of entries

`RootToLeaf` says of a list of entries what `buildSessionContext` sees when it is given that list
alone: every entry hangs on the one before it.  On such a list the walk visits the whole list, so
the context of the list is the context of the path (`buildSessionContextOf_rootToLeaf`).  The
second half describes the messages of a path by where its last compaction stands.
-/

namespace Amide

open List

/-! ## Chains of parents -/

/-- A path from a root to a leaf.  The root's parent is null, or an entry that is not there. -/
structure RootToLeaf (path : List SessionEntry) : Prop where
  nodup : (path.map SessionEntry.id).Nodup
  root : ∀ e ∈ path.head?, ∀ p ∈ e.parentId, p = "" ∨ p ∉ path.map SessionEntry.id
  linked : path.IsChain fun a b => a.id ≠ "" ∧ b.parentId = some a.id

instance (path : List SessionEntry) : Decidable (RootToLeaf path) :=
  decidable_of_iff ((path.map SessionEntry.id).Nodup ∧
      (∀ e ∈ path.head?, ∀ p ∈ e.parentId, p = "" ∨ p ∉ path.map SessionEntry.id) ∧
      path.IsChain fun a b => a.id ≠ "" ∧ b.parentId = some a.id)
    ⟨fun h => ⟨h.1, h.2.1, h.2.2⟩, fun h => ⟨h.nodup, h.root, h.linked⟩⟩

variable {path : List SessionEntry} {rest : List SessionEntry}

lemma RootToLeaf.prefix (h : RootToLeaf (path ++ rest)) :
    RootToLeaf path where
  nodup := by
    have hnd := h.nodup
    rw [map_append] at hnd
    exact hnd.of_append_left
  root := by
    cases path with
    | nil => simp
    | cons a path =>
      intro e he p hp
      rcases h.root e he p hp with h0 | h0
      · exact .inl h0
      · exact .inr fun hmem => h0 (by simp only [map_append, mem_append]; exact .inl hmem)
  linked := h.linked.left_of_append

variable {e : SessionEntry}

lemma lookupId_index (hnd : (path.map SessionEntry.id).Nodup) (he : e ∈ path) (hid : e.id ≠ "") :
    lookupId (JsMap.index SessionEntry.id path) (some e.id) = some e := by
  simp [lookupId, hid, JsMap.get?_index_of_mem _ hnd he]

lemma lookupId_index_eq_none {p : Option String}
    (h : ∀ q ∈ p, q = "" ∨ q ∉ path.map SessionEntry.id) :
    lookupId (JsMap.index SessionEntry.id path) p = none := by
  cases p with
  | none => rfl
  | some q =>
    rcases h q rfl with rfl | hq
    · rfl
    · have hnone : (JsMap.index SessionEntry.id path).get? q = none := by
        rw [JsMap.get?_index_eq_none_iff]
        rintro a ha rfl
        exact hq (mem_map_of_mem ha)
      simp [lookupId, hnone]

/-- The parent of each entry is looked up to the entry before it. -/
inductive Chained (byId : JsMap String SessionEntry) : List SessionEntry → Prop
  | nil : Chained byId []
  | snoc {path : List SessionEntry} {e : SessionEntry} : Chained byId path →
      lookupId byId e.parentId = path.getLast? → Chained byId (path ++ [e])

variable {byId : JsMap String SessionEntry}

/-- From the end of a chained path the walk visits that path. -/
theorem Chained.walk (h : Chained byId path) :
    Amide.walk byId path.length path.getLast? = some path.reverse := by
  induction h with
  | nil => rfl
  | snoc h hpar ih => simp [Amide.walk, hpar, ih]

lemma Chained.rootPath (h : Chained byId path)
    (hsize : path.length ≤ byId.size) : Amide.rootPath byId path.getLast? = some path := by
  have hwalk := walk_mono (Nat.le_succ_of_le hsize) h.walk
  rw [Amide.rootPath, hwalk, Option.map_some, reverse_reverse]

lemma RootToLeaf.chained (h : RootToLeaf (path ++ rest)) :
    Chained (JsMap.index SessionEntry.id (path ++ rest)) path := by
  induction path using reverseRecOn generalizing rest with
  | nil => exact .nil
  | append_singleton path e ih =>
    rw [append_assoc, singleton_append] at h ⊢
    refine (ih h).snoc ?_
    cases hlast : path.getLast? with
    | none =>
      -- `e` is the root
      rw [getLast?_eq_none_iff] at hlast
      subst hlast
      exact lookupId_index_eq_none (h.root e rfl)
    | some a =>
      obtain ⟨pre, rfl⟩ := getLast?_eq_some_iff.mp hlast
      have hlink : a.id ≠ "" ∧ e.parentId = some a.id := by
        have hchain := h.linked
        rw [append_assoc] at hchain
        exact isChain_cons_cons.mp hchain.right_of_append |>.1
      rw [hlink.2]
      exact lookupId_index h.nodup (by simp) hlink.1

lemma buildSessionContextOf_rootToLeaf (h : RootToLeaf path) :
    buildSessionContextOf path = some (contextOfPath path) := by
  have hleaf : (path.map FileEntry.entry).getLast?.bind FileEntry.asEntry = path.getLast? := by
    rw [getLast?_map]
    cases path.getLast? <;> rfl
  have hchained := @RootToLeaf.chained path [] (by rwa [append_nil])
  rw [append_nil] at hchained
  simp only [buildSessionContextOf, buildSessionContext, reduceCtorEq, if_false, Option.join_none,
    lookupId, Option.none_or, hleaf]
  rw [hchained.rootPath (JsMap.size_index _ h.nodup).ge]
  rfl

/-! ## The last compaction -/

/-- A path is free of compactions, or its last one splits it in two. -/
theorem exists_lastCompaction (path : List SessionEntry) : (∀ e ∈ path, e.isCompaction = false) ∨
      ∃ pre e c post, path = pre ++ e :: post ∧ e.body = .compaction c ∧
        ∀ x ∈ post, x.isCompaction = false := by
  induction path using reverseRecOn with
  | nil => exact .inl (by simp)
  | append_singleton path e ih =>
    cases he : e.compaction? with
    | some c =>
      refine .inr ⟨path, e, c, [], rfl, ?_, by simp⟩
      unfold SessionEntry.compaction? at he
      split at he
      · rename_i hbody
        rw [hbody, Option.some.inj he]
      · cases he
    | none =>
      have hnot : e.isCompaction = false := by simp [SessionEntry.isCompaction, he]
      rcases ih with hfree | ⟨pre, a, c, post, rfl, hbody, hpost⟩
      · refine .inl fun x hx => ?_
        rcases mem_append.mp hx with hx | hx
        · exact hfree x hx
        · rwa [mem_singleton.mp hx]
      · refine .inr ⟨pre, a, c, post ++ [e], by simp, hbody, fun x hx => ?_⟩
        rcases mem_append.mp hx with hx | hx
        · exact hpost x hx
        · rwa [mem_singleton.mp hx]

variable {c : CompactionFields}

lemma compaction?_of_body (h : e.body = .compaction c) : e.compaction? = some c := by
  simp [SessionEntry.compaction?, h]

lemma isCompaction_of_body (h : e.body = .compaction c) : e.isCompaction = true := by
  simp [SessionEntry.isCompaction, compaction?_of_body h]

lemma contextMessage?_of_isCompaction (h : e.isCompaction = true) : e.contextMessage? = none := by
  unfold SessionEntry.isCompaction SessionEntry.compaction? at h
  split at h
  · rename_i hbody
    simp [SessionEntry.contextMessage?, hbody]
  · simp at h

lemma step_compaction_of_not (s : PathSettings) (h : e.isCompaction = false) :
    (s.step e).compaction = s.compaction := by
  unfold PathSettings.step
  split <;> try rfl
  rename_i hbody
  simp [isCompaction_of_body hbody] at h

lemma foldl_step_compaction_of_not {es : List SessionEntry} (s : PathSettings)
    (h : ∀ e ∈ es, e.isCompaction = false) :
    (es.foldl PathSettings.step s).compaction = s.compaction := by
  induction es generalizing s with
  | nil => rfl
  | cons e es ih =>
    rw [foldl_cons, ih _ fun x hx => h x (by simp [hx]),
      step_compaction_of_not s (h e (by simp))]

lemma pathSettings_compaction_of_free (h : ∀ e ∈ path, e.isCompaction = false) :
    (pathSettings path).compaction = none :=
  foldl_step_compaction_of_not {} h

variable {pre post : List SessionEntry}

lemma pathSettings_compaction_of_split
    (hbody : e.body = .compaction c) (hpost : ∀ x ∈ post, x.isCompaction = false) :
    (pathSettings (pre ++ e :: post)).compaction = some (e, c) := by
  rw [pathSettings, foldl_append, foldl_cons, foldl_step_compaction_of_not _ hpost]
  simp [PathSettings.step, hbody]

@[simp] lemma contextMessages_append (a b : List SessionEntry) :
    contextMessages (a ++ b) = contextMessages a ++ contextMessages b :=
  filterMap_append

lemma contextMessages_cons_of_isCompaction (es : List SessionEntry) (h : e.isCompaction = true) :
    contextMessages (e :: es) = contextMessages es := by
  simp [contextMessages, contextMessage?_of_isCompaction h]

lemma pathMessages_of_free (h : ∀ e ∈ path, e.isCompaction = false) :
    pathMessages path = contextMessages path := by
  simp [pathMessages, pathSettings_compaction_of_free h]

/-- The messages of a path whose last compaction is known. -/
theorem pathMessages_of_split
    (hnd : ((pre ++ e :: post).map SessionEntry.id).Nodup) (hbody : e.body = .compaction c)
    (hpost : ∀ x ∈ post, x.isCompaction = false) :
    pathMessages (pre ++ e :: post) =
      createCompactionSummaryMessage c.summary c.tokensBefore e.timestamp c.customInstructions
          (some (contextMessages (fromFirstKept c.firstKeptEntryId pre)).length) ::
        contextMessages (fromFirstKept c.firstKeptEntryId pre) ++ contextMessages post := by
  have hidx : (pre ++ e :: post).findIdx (fun x => x.isCompaction && x.id = e.id) = pre.length := by
    have hpre : ∀ x ∈ pre, x.id ≠ e.id := fun x hx => KeyedList.key_ne_of_mem_left hnd hx
    rw [findIdx_append, findIdx_eq_length_of_false, if_neg (lt_irrefl _), findIdx_cons]
    · simp [isCompaction_of_body hbody]
    · intro x hx
      simp [hpre x hx]
  have hdrop : (pre ++ e :: post).drop (pre.length + 1) = post := by
    rw [← drop_drop, drop_left]
    rfl
  simp only [pathMessages, pathSettings_compaction_of_split hbody hpost, hidx, take_left, hdrop]

end Amide
