import Amide.Framework.ParentForest
import Amide.Construction.Session.SessionTree
import Amide.Properties.Session.CrashConsistency
import Amide.Properties.Session.Trees

/-!
# The tree that is shown

`getTree` keeps one node for each id, so of entries with one id only the last is shown; and it only
comes to what hangs below a root, so entries that lead back to themselves are not shown.  Otherwise
its result is a forest of all entries, in which the children of each are in the order of time if
all of them have one (`getTree_faithful_iff`).  The sessions that the operations make are of this
kind.
-/

namespace Amide

open ParentForest SessionState SessionEntry List
open SessionTreeFlatNode (entry)

/-! ## Parents -/

/-- The node an entry is put under, if it is not among the roots. -/
def SessionEntry.treeParent (e : SessionEntry) (ids : List String) : Option String :=
  e.parentId.filter fun p => p ≠ e.id ∧ p ∈ ids

/-- The parent of a node in the tree of some entries. -/
def treeParentOf (entries : List SessionEntry) (id : String) : Option String :=
  ((JsMap.index SessionEntry.id entries).get? id).bind fun e =>
    e.treeParent (entries.map SessionEntry.id)

variable {ids : List String} {e : SessionEntry} {p : String}

lemma treeParent_eq_some_iff :
    e.treeParent ids = some p ↔ e.parentId = some p ∧ p ≠ e.id ∧ p ∈ ids := by
  rw [treeParent, Option.filter_eq_some_iff]
  simp

lemma treeParent_eq_none_iff : e.treeParent ids = none ↔
      e.parentId = none ∨ e.parentId = some e.id ∨ ∃ p, e.parentId = some p ∧ p ∉ ids := by
  rw [treeParent]
  cases hpar : e.parentId with
  | none => simp
  | some p =>
    by_cases hself : p = e.id
    · simp [hself]
    · by_cases hmem : p ∈ ids <;> simp [hself, hmem]

/-- No two entries have one id, and no parents lead from an entry back to itself. -/
structure SoundLinks (entries : List SessionEntry) : Prop where
  nodup : (entries.map SessionEntry.id).Nodup
  acyclic : Acyclic (treeParentOf entries)

/-- Of two entries with one parent each has a time. -/
def DatedSiblings (dates : DateEngine) (entries : List SessionEntry) : Prop :=
  ∀ e ∈ entries, ∀ e' ∈ entries, e.id ≠ e'.id → ∀ p,
    e.treeParent (entries.map SessionEntry.id) = some p →
      e'.treeParent (entries.map SessionEntry.id) = some p → (dates.getTime e.timestamp).isSome

section Parents

variable {entries : List SessionEntry}

lemma treeParentOf_of_mem (hnodup : (entries.map SessionEntry.id).Nodup)
    (he : e ∈ entries) :
    treeParentOf entries e.id = e.treeParent (entries.map SessionEntry.id) := by
  rw [treeParentOf, JsMap.get?_index_of_mem _ hnodup he, Option.bind_some]

lemma bounded_treeParentOf : Bounded (treeParentOf entries) (entries.map SessionEntry.id) := by
  intro c p h
  obtain ⟨e, he, hp⟩ := Option.bind_eq_some_iff.mp h
  obtain ⟨hmem, rfl⟩ := JsMap.mem_of_get?_index _ he
  exact ⟨mem_map_of_mem hmem, (treeParent_eq_some_iff.mp hp).2.2⟩

lemma exists_of_treeParentOf {c p : String} (h : treeParentOf entries c = some p) :
    ∃ e ∈ entries, e.id = c ∧ e.treeParent (entries.map SessionEntry.id) = some p := by
  obtain ⟨e, he, hp⟩ := Option.bind_eq_some_iff.mp h
  obtain ⟨hmem, rfl⟩ := JsMap.mem_of_get?_index _ he
  exact ⟨e, hmem, rfl, hp⟩

/-- What a tree is made of. -/
def SessionEntry.link (e : SessionEntry) : String × Option String := (e.id, e.parentId)

lemma map_fst_link (entries : List SessionEntry) :
    (entries.map link).map Prod.fst = entries.map SessionEntry.id := by
  rw [map_map]
  rfl

lemma treeParentOf_eq_some_iff (hnodup : (entries.map SessionEntry.id).Nodup) {c p : String} :
    treeParentOf entries c = some p ↔
      (c, some p) ∈ entries.map link ∧ p ≠ c ∧ p ∈ entries.map SessionEntry.id := by
  constructor
  · intro h
    obtain ⟨e, he, rfl, hp⟩ := exists_of_treeParentOf h
    obtain ⟨hpar, hne, hmem⟩ := treeParent_eq_some_iff.mp hp
    exact ⟨List.mem_map.mpr ⟨e, he, by rw [link, hpar]⟩, hne, hmem⟩
  · rintro ⟨hlink, hne, hmem⟩
    obtain ⟨e, he, heq⟩ := List.mem_map.mp hlink
    obtain ⟨rfl, hpar⟩ := Prod.mk.inj heq
    rw [treeParentOf_of_mem hnodup he]
    exact treeParent_eq_some_iff.mpr ⟨hpar, hne, hmem⟩

/-- An entry with a new id below one of the entries, or none, keeps the links sound, unless an
entry already names the new id as its parent. -/
lemma SoundLinks.snoc (h : SoundLinks entries) {entries' : List SessionEntry}
    (hlinks : entries'.map link = entries.map link ++ [e.link])
    (hnew : e.id ∉ entries.map SessionEntry.id)
    (hpar : ∀ p ∈ e.parentId, p ∈ entries.map SessionEntry.id)
    (hunnamed : ∀ x ∈ entries, x.parentId ≠ some e.id) : SoundLinks entries' := by
  have hids : entries'.map SessionEntry.id = entries.map SessionEntry.id ++ [e.id] := by
    have hfst := congrArg (List.map Prod.fst) hlinks
    rwa [map_append, map_fst_link, map_fst_link] at hfst
  have hnodup : (entries'.map SessionEntry.id).Nodup := by
    rw [hids, nodup_append_comm]
    exact nodup_cons.mpr ⟨hnew, h.nodup⟩
  have hold : ∀ c ∈ entries.map SessionEntry.id,
      treeParentOf entries' c = treeParentOf entries c := by
    intro c hc
    have hce : c ≠ e.id := fun heq => hnew (heq ▸ hc)
    ext p
    rw [treeParentOf_eq_some_iff hnodup, treeParentOf_eq_some_iff h.nodup, hlinks, hids]
    simp only [mem_append, mem_singleton, link, Prod.mk.injEq, hce, false_and, or_false]
    refine and_congr_right fun hlink => and_congr_right fun _ => or_iff_left ?_
    rintro rfl
    obtain ⟨x, hx, heq⟩ := List.mem_map.mp hlink
    exact hunnamed x hx (Prod.mk.inj heq).2
  refine ⟨hnodup, (forall_level_iff bounded_treeParentOf).mp ?_⟩
  have hlevels := (forall_level_iff bounded_treeParentOf).mpr h.acyclic
  have hkeep {k : ℕ} {i : String} (hlevel : Level (treeParentOf entries) k i)
      (hi : i ∈ entries.map SessionEntry.id) : Level (treeParentOf entries') k i := by
    induction hlevel with
    | root hroot => exact .root (by rw [hold _ hi, hroot])
    | child hp _ ih => exact .child (by rw [hold _ hi, hp]) (ih (bounded_treeParentOf _ _ hp).2)
  intro i hi
  rw [hids, mem_append, mem_singleton] at hi
  rcases hi with hi | rfl
  · obtain ⟨k, hk⟩ := hlevels i hi
    exact ⟨k, hkeep hk hi⟩
  · cases hroot : treeParentOf entries' e.id with
    | none => exact ⟨0, .root hroot⟩
    | some p =>
      obtain ⟨hlink, -, -⟩ := (treeParentOf_eq_some_iff hnodup).mp hroot
      rw [hlinks, mem_append, mem_singleton] at hlink
      rcases hlink with hlink | heq
      · exact absurd (map_fst_link entries ▸ mem_map_of_mem (f := Prod.fst) hlink) hnew
      · have hp := hpar p (Prod.mk.inj heq).2.symm
        obtain ⟨k, hk⟩ := hlevels p hp
        exact ⟨k + 1, (hkeep hk hp).child hroot⟩

end Parents

/-! ## Linking -/

namespace SessionTree

variable (tree : SessionTree)

@[simp] lemma childrenOf_addRoot (id p : String) :
    (tree.addRoot id).childrenOf p = tree.childrenOf p := rfl

@[simp] lemma childrenOf_addChild (parentId id p : String) :
    (tree.addChild parentId id).childrenOf p =
      if parentId = p then tree.childrenOf p ++ [id] else tree.childrenOf p := by
  rw [childrenOf, addChild, JsMap.get?_set]
  split_ifs with h
  · rw [h, Option.getD_some]
  · rfl

lemma linkNode_eq {tree : SessionTree} (hnodes : ∀ id, tree.nodes.has id = true ↔ id ∈ ids)
    (e : SessionEntry) :
    tree.linkNode e = match e.treeParent ids with
      | none => tree.addRoot e.id
      | some p => tree.addChild p e.id := by
  cases htarget : e.treeParent ids with
  | some p =>
    obtain ⟨hpar, hself, hmem⟩ := treeParent_eq_some_iff.mp htarget
    simp [linkNode, hpar, hself, (hnodes p).mpr hmem]
  | none =>
    rcases treeParent_eq_none_iff.mp htarget with hpar | hpar | ⟨p, hpar, hmem⟩
    · simp [linkNode, hpar]
    · simp [linkNode, hpar]
    · have hmissing : tree.nodes.has p = false := by
        rw [← Bool.not_eq_true, hnodes]
        exact hmem
      simp [linkNode, hpar, hmissing]

/-- The entries that have been linked are among the roots and the children. -/
lemma foldl_linkNode (es : List SessionEntry) {tree : SessionTree}
    (hnodes : ∀ id, tree.nodes.has id = true ↔ id ∈ ids) :
    (es.foldl linkNode tree).nodes = tree.nodes ∧ (es.foldl linkNode tree).roots =
        tree.roots ++ (es.filter (·.treeParent ids = none)).map SessionEntry.id ∧
      ∀ p, (es.foldl linkNode tree).childrenOf p =
        tree.childrenOf p ++ (es.filter (·.treeParent ids = some p)).map SessionEntry.id := by
  induction es generalizing tree with
  | nil => simp
  | cons e es ih =>
    rw [foldl_cons, linkNode_eq hnodes]
    cases hpar : e.treeParent ids with
    | none =>
      obtain ⟨hn, hr, hc⟩ := @ih (tree.addRoot e.id) hnodes
      refine ⟨hn, ?_, fun p => ?_⟩
      · rw [hr, filter_cons_of_pos (by simpa using hpar)]
        simp [addRoot]
      · rw [hc, filter_cons_of_neg (by simp [hpar]), childrenOf_addRoot]
    | some q =>
      obtain ⟨hn, hr, hc⟩ := @ih (tree.addChild q e.id) hnodes
      refine ⟨hn, ?_, fun p => ?_⟩
      · rw [hr, filter_cons_of_neg (by simp [hpar])]
        rfl
      · rw [hc, childrenOf_addChild]
        by_cases hp : q = p
        · rw [if_pos hp, filter_cons_of_pos (by simpa [hp] using hpar)]
          simp
        · rw [if_neg hp, filter_cons_of_neg (by simpa [hpar] using hp)]

/-! ## Sorting -/

variable (dates : DateEngine)

lemma sortedChildren_perm (p : String) :
    (tree.sortedChildren dates p).Perm (tree.childrenOf p) := by
  rw [sortedChildren]
  split_ifs
  · exact mergeSort_perm _ _
  · exact dates.arrange_perm _ _

/-- Two nodes with times, in their order. -/
def InOrder (a b : String) : Prop :=
  ∃ s t, tree.time dates a = some s ∧ tree.time dates b = some t ∧ s ≤ t

lemma pairwise_sortedChildren
    (h : ∀ c ∈ tree.childrenOf p, (tree.time dates c).isSome) :
    (tree.sortedChildren dates p).Pairwise (tree.InOrder dates) := by
  have hsorted := @pairwise_mergeSort _
    (fun a b => decide ((tree.time dates a).getD 0 - (tree.time dates b).getD 0 ≤ 0))
    (fun a b c hab hbc => by simp only [decide_eq_true_eq] at *; omega)
    (fun a b => by simp only [Bool.or_eq_true, decide_eq_true_eq]; omega) (tree.childrenOf p)
  have hperm := tree.sortedChildren_perm dates p
  rw [sortedChildren, if_pos (all_eq_true.mpr h)] at hperm ⊢
  refine hsorted.imp_of_mem fun {a b} ha hb hle => ?_
  obtain ⟨s, hs⟩ := Option.isSome_iff_exists.mp (h a (hperm.mem_iff.mp ha))
  obtain ⟨t, ht⟩ := Option.isSome_iff_exists.mp (h b (hperm.mem_iff.mp hb))
  have hle := of_decide_eq_true hle
  rw [hs, ht, Option.getD_some, Option.getD_some] at hle
  exact ⟨s, t, hs, ht, sub_nonpos.mp hle⟩

lemma childrenOf_sortChildren (id p : String) : (tree.sortChildren dates id).childrenOf p =
      if id = p then tree.sortedChildren dates p else tree.childrenOf p := by
  rw [childrenOf, sortChildren, JsMap.get?_set]
  split_ifs with h
  · rw [h, Option.getD_some]
  · rfl

/-- A tree that the pass over another one may leave: some nodes have their children in another
order. -/
structure Halfway (tree tree' : SessionTree) : Prop where
  nodes : tree'.nodes = tree.nodes
  roots : tree'.roots = tree.roots
  children : ∀ p, (tree'.childrenOf p).Perm (tree.childrenOf p)

lemma Halfway.refl : Halfway tree tree := ⟨rfl, rfl, fun _ => .refl _⟩

variable {tree' : SessionTree}

section
variable {dates} {tree : SessionTree} (h : Halfway tree tree')
include h

lemma Halfway.time : tree'.time dates = tree.time dates := by
  funext id
  rw [SessionTree.time, SessionTree.time, h.nodes]

lemma Halfway.sortChildren (id : String) : Halfway tree (tree'.sortChildren dates id) := by
  refine ⟨h.nodes, h.roots, fun p => ?_⟩
  rw [childrenOf_sortChildren]
  split_ifs
  · exact (tree'.sortedChildren_perm dates p).trans (h.children p)
  · exact h.children p

/-- What the pass returns. -/
lemma Halfway.sortNodes {fuel : ℕ} {stack : List String} {sorted : SessionTree}
    (hsort : tree'.sortNodes dates fuel stack = some sorted) : Halfway tree sorted := by
  induction fuel generalizing stack tree' with
  | zero =>
    cases stack with
    | nil => exact Option.some.inj hsort ▸ h
    | cons id stack => cases hsort
  | succ fuel ih =>
    cases stack with
    | nil => exact Option.some.inj hsort ▸ h
    | cons id stack => exact ih (h.sortChildren id) hsort

/-- A pass that visits no node twice, as a stack does with the children sorted from the start. -/
lemma Halfway.sortNodes_of_stackWalk {fuel : ℕ} {stack visited : List String}
    (hwalk : stackWalk (tree.sortedChildren dates) fuel stack = some visited)
    (hnodup : visited.Nodup) (hsame : ∀ p ∈ visited, tree'.childrenOf p = tree.childrenOf p) :
    ∃ sorted, tree'.sortNodes dates fuel stack = some sorted ∧ ∀ p, sorted.childrenOf p =
      if p ∈ visited then tree.sortedChildren dates p else tree'.childrenOf p := by
  induction fuel generalizing stack visited tree' with
  | zero =>
    cases stack with
    | nil => exact ⟨tree', rfl, by cases hwalk; simp⟩
    | cons id stack => cases hwalk
  | succ fuel ih =>
    cases stack with
    | nil => exact ⟨tree', rfl, by cases hwalk; simp⟩
    | cons id stack =>
      obtain ⟨rest, hrest, rfl⟩ := Option.map_eq_some_iff.mp hwalk
      obtain ⟨hid, hnodup⟩ := nodup_cons.mp hnodup
      have hone : tree'.sortedChildren dates id = tree.sortedChildren dates id := by
        rw [sortedChildren, sortedChildren, h.time, hsame id mem_cons_self]
      have hchildren (p : String) : (tree'.sortChildren dates id).childrenOf p =
          if id = p then tree.sortedChildren dates p else tree'.childrenOf p := by
        rw [childrenOf_sortChildren]
        split_ifs with hp
        · exact hp ▸ hone
        · rfl
      obtain ⟨sorted, hsorted, hall⟩ := ih (h.sortChildren id)
        ((hchildren id).trans (if_pos rfl) ▸ hrest) hnodup fun p hp => by
          rw [hchildren, if_neg (by rintro rfl; exact hid hp), hsame p (mem_cons_of_mem _ hp)]
      refine ⟨sorted, hsorted, fun p => ?_⟩
      rw [hall, hchildren]
      by_cases hp : id = p
      · subst hp
        rw [if_neg hid, if_pos rfl, if_pos mem_cons_self]
      · simp [hp, Ne.symm hp]

end

end SessionTree

/-! ## The tree of a session -/

/-- The entries of the nodes below the roots, each node once, are the entries of the session; each
stands under its parent or, when its parent is null, itself or not there, among the roots; and
children are in the order of time. -/
structure FaithfulTree (dates : DateEngine) (m : SessionManager) (tree : SessionTree) : Prop where
  once : ∃ fuel ids, walkAll tree.childrenOf fuel tree.roots = some ids ∧ ids.Nodup ∧
    (ids.filterMap fun id => (tree.nodes.get? id).map entry).Perm m.getEntries
  roots : ∀ e ∈ m.getEntries, e.id ∈ tree.roots ↔ e.parentId = none ∨ e.parentId = some e.id ∨
      ∃ p, e.parentId = some p ∧ p ∉ m.getEntries.map SessionEntry.id
  parents : ∀ e ∈ m.getEntries, ∀ p, e.id ∈ tree.childrenOf p ↔
    e.parentId = some p ∧ p ≠ e.id ∧ p ∈ m.getEntries.map SessionEntry.id
  ordered : ∀ p, (tree.childrenOf p).Pairwise (tree.InOrder dates)

section LinkTree

variable {m : SessionManager} {p c : String} (dates : DateEngine)

lemma map_id_getFlatTree (m : SessionManager) :
    (m.getFlatTree.map fun node => node.entry.id) = m.getEntries.map SessionEntry.id := by
  rw [SessionManager.getFlatTree, map_map]
  rfl

lemma linkTree_spec (m : SessionManager) :
    m.linkTree.nodes = JsMap.index (fun node => node.entry.id) m.getFlatTree ∧
      m.linkTree.roots = (m.getEntries.filter
        (·.treeParent (m.getEntries.map SessionEntry.id) = none)).map SessionEntry.id ∧
      ∀ p, m.linkTree.childrenOf p = (m.getEntries.filter
        (·.treeParent (m.getEntries.map SessionEntry.id) = some p)).map SessionEntry.id := by
  have hnodes (id : String) :
      (JsMap.index (fun node => node.entry.id) m.getFlatTree).has id = true ↔
        id ∈ m.getEntries.map SessionEntry.id := by
    rw [← map_id_getFlatTree, ← Bool.not_eq_false, JsMap.has_eq_false_iff,
      JsMap.get?_index_eq_none_iff]
    simp only [mem_map, not_forall, not_not, exists_prop]
  exact @SessionTree.foldl_linkNode _ m.getEntries
    { nodes := JsMap.index (fun node => node.entry.id) m.getFlatTree, roots := [],
      children := .empty } hnodes

lemma mem_linkTree_roots (hnodup : (m.getEntries.map SessionEntry.id).Nodup) :
    c ∈ m.linkTree.roots ↔
      c ∈ m.getEntries.map SessionEntry.id ∧ treeParentOf m.getEntries c = none := by
  rw [(linkTree_spec m).2.1, mem_map]
  constructor
  · rintro ⟨e, he, rfl⟩
    rw [mem_filter] at he
    exact ⟨mem_map_of_mem he.1, by
      rw [treeParentOf_of_mem hnodup he.1]
      exact of_decide_eq_true he.2⟩
  · rintro ⟨hmem, hnone⟩
    obtain ⟨e, he, rfl⟩ := List.mem_map.mp hmem
    rw [treeParentOf_of_mem hnodup he] at hnone
    exact ⟨e, mem_filter.mpr ⟨he, decide_eq_true hnone⟩, rfl⟩

lemma mem_linkTree_children (hnodup : (m.getEntries.map SessionEntry.id).Nodup) :
    c ∈ m.linkTree.childrenOf p ↔ treeParentOf m.getEntries c = some p := by
  rw [(linkTree_spec m).2.2, mem_map]
  constructor
  · rintro ⟨e, he, rfl⟩
    rw [mem_filter] at he
    rw [treeParentOf_of_mem hnodup he.1]
    exact of_decide_eq_true he.2
  · intro h
    obtain ⟨e, he, rfl, hp⟩ := exists_of_treeParentOf h
    exact ⟨e, mem_filter.mpr ⟨he, decide_eq_true hp⟩, rfl⟩

lemma nodup_filter_map_id {es : List SessionEntry} (hnodup : (es.map SessionEntry.id).Nodup)
    (f : SessionEntry → Bool) : ((es.filter f).map SessionEntry.id).Nodup :=
  hnodup.sublist (filter_sublist.map _)

section
variable (hnodup : (m.getEntries.map SessionEntry.id).Nodup)
include hnodup

lemma lists_linkTree :
    ParentForest.Lists m.linkTree.childrenOf (treeParentOf m.getEntries) := fun p =>
  ⟨(linkTree_spec m).2.2 p ▸ nodup_filter_map_id hnodup _, fun _ => mem_linkTree_children hnodup⟩

lemma lists_sortedChildren :
    ParentForest.Lists (m.linkTree.sortedChildren dates) (treeParentOf m.getEntries) := fun p => by
  have hperm := m.linkTree.sortedChildren_perm dates p
  exact ⟨hperm.nodup_iff.mpr (lists_linkTree hnodup p).1, fun c => by
    rw [hperm.mem_iff, mem_linkTree_children hnodup]⟩

/-- With distinct ids the pass comes to every node below a root. -/
lemma exists_stackWalk :
    ∃ fuel visited, stackWalk (m.linkTree.sortedChildren dates) fuel m.linkTree.roots.reverse =
      some visited ∧ visited.Nodup ∧
        ∀ i, i ∈ visited ↔ ∃ r ∈ m.linkTree.roots, Under (treeParentOf m.getEntries) r i := by
  have hreversed : ParentForest.Lists (fun i => (m.linkTree.sortedChildren dates i).reverse)
      (treeParentOf m.getEntries) := fun p => by
    obtain ⟨hnd, hmem⟩ := lists_sortedChildren dates hnodup p
    exact ⟨nodup_reverse.mpr hnd, fun c => by rw [mem_reverse, hmem]⟩
  have hroots (r : String) (hr : r ∈ m.linkTree.roots.reverse) :
      r ∈ m.getEntries.map SessionEntry.id ∧ treeParentOf m.getEntries r = none :=
    (mem_linkTree_roots hnodup).mp (mem_reverse.mp hr)
  have hdist : m.linkTree.roots.reverse.Nodup := by
    rw [nodup_reverse, (linkTree_spec m).2.1]
    exact nodup_filter_map_id hnodup _
  obtain ⟨ls, hls, hnd, hmem⟩ := walks_spec hdist (fun r hr => .root (hroots r hr).2)
    fun r hr => walk_spec bounded_treeParentOf hreversed (.root (hroots r hr).2) (hroots r hr).1
      (Nat.le_add_left _ 0)
  exact ⟨_, ls.flatten, stackWalk_of_walks hls, hnd, fun i => by
    rw [hmem]
    simp only [mem_reverse]⟩

end

/-- A node of the tree shows the entry with its id. -/
lemma id_of_get?_nodes {id : String} {node : SessionTreeFlatNode}
    (h : m.linkTree.nodes.get? id = some node) :
    node.entry.id = id ∧ node.entry ∈ m.getEntries := by
  rw [(linkTree_spec m).1] at h
  obtain ⟨hmem, hid⟩ := JsMap.mem_of_get?_index _ h
  obtain ⟨e, he, rfl⟩ := List.mem_map.mp hmem
  exact ⟨hid, he⟩

lemma get?_nodes_of_mem (hnodup : (m.getEntries.map SessionEntry.id).Nodup)
    (he : e ∈ m.getEntries) :
    (m.linkTree.nodes.get? e.id).map entry = some e := by
  rw [(linkTree_spec m).1]
  have hnode : (⟨e, m.labelsById.get? e.id, m.labelTimestampsById.get? e.id⟩ :
      SessionTreeFlatNode) ∈ m.getFlatTree := List.mem_map.mpr ⟨e, he, rfl⟩
  rw [JsMap.get?_index_of_mem (fun node : SessionTreeFlatNode => node.entry.id)
    (map_id_getFlatTree m ▸ hnodup) hnode]
  rfl

/-- The entries that some nodes show have the ids of the nodes. -/
lemma map_id_shown_sublist (m : SessionManager) (ids : List String) : ((ids.filterMap fun id =>
      (m.linkTree.nodes.get? id).map entry).map SessionEntry.id).Sublist
        ids := by
  induction ids with
  | nil => exact .slnil
  | cons id ids ih =>
    cases hnode : m.linkTree.nodes.get? id with
    | none => simpa [hnode] using ih.cons id
    | some node => simpa [hnode, (id_of_get?_nodes hnode).1] using ih

/-- With sound links the walk shows all entries. -/
lemma once_of_soundLinks (h : SoundLinks m.getEntries) {tree : SessionTree}
    (htree : SessionTree.Halfway m.linkTree tree) :
    ∃ fuel ids, walkAll tree.childrenOf fuel tree.roots = some ids ∧ ids.Nodup ∧
      (ids.filterMap fun id => (tree.nodes.get? id).map entry).Perm
        m.getEntries := by
  have hlists : ParentForest.Lists tree.childrenOf (treeParentOf m.getEntries) := fun p => by
    obtain ⟨hnd, hmem⟩ := lists_linkTree h.nodup p
    exact ⟨(htree.children p).nodup_iff.mpr hnd, fun c => by rw [(htree.children p).mem_iff, hmem]⟩
  have hroots : tree.roots.Nodup := by
    rw [htree.roots, (linkTree_spec m).2.1]
    exact nodup_filter_map_id h.nodup _
  obtain ⟨ids, hwalk, hnodup, hmem⟩ := exists_walkAll bounded_treeParentOf hlists hroots
    fun i => by rw [htree.roots, mem_linkTree_roots h.nodup]
  have hids : ids.Perm (m.getEntries.map SessionEntry.id) := by
    refine (perm_ext_iff_of_nodup hnodup h.nodup).mpr fun i => ?_
    rw [hmem, and_iff_left_iff_imp]
    exact (forall_level_iff bounded_treeParentOf).mpr h.acyclic i
  refine ⟨_, ids, hwalk, hnodup, ?_⟩
  have hentries : (m.getEntries.map SessionEntry.id).filterMap
      (fun id => (tree.nodes.get? id).map entry) = m.getEntries := by
    rw [filterMap_map, htree.nodes]
    refine (filterMap_congr fun e he => ?_).trans filterMap_some
    exact get?_nodes_of_mem h.nodup he
  exact (hids.filterMap _).trans (.of_eq hentries)

/-- A tree that shows all entries once comes of sound links. -/
lemma soundLinks_of_once {tree : SessionTree} (htree : SessionTree.Halfway m.linkTree tree)
    (honce : ∃ fuel ids, walkAll tree.childrenOf fuel tree.roots = some ids ∧ ids.Nodup ∧
      (ids.filterMap fun id => (tree.nodes.get? id).map entry).Perm
        m.getEntries) : SoundLinks m.getEntries := by
  obtain ⟨fuel, ids, hwalk, hnodup, hperm⟩ := honce
  rw [htree.nodes] at hperm
  have hsub := map_id_shown_sublist m ids
  have hdist : (m.getEntries.map SessionEntry.id).Nodup :=
    (hperm.map SessionEntry.id).nodup_iff.mp (hnodup.sublist hsub)
  refine ⟨hdist, (forall_level_iff bounded_treeParentOf).mp fun i hi => ?_⟩
  obtain ⟨e, he, rfl⟩ := List.mem_map.mp hi
  have hmem : e.id ∈ ids := hsub.subset (mem_map_of_mem (hperm.mem_iff.mpr he))
  obtain ⟨ls, hls, rfl⟩ := Option.map_eq_some_iff.mp hwalk
  obtain ⟨l, hl, hmem⟩ := mem_flatten.mp hmem
  obtain ⟨r, hr, hw⟩ := exists_of_mem_forall₂ (Option.mapM_eq_some_iff.mp hls) hl
  rw [htree.roots, mem_linkTree_roots hdist] at hr
  refine exists_level_iff.mpr ⟨r, hr.2, under_of_mem_walk (fun p c hc => ?_) hw hmem⟩
  exact (mem_linkTree_children hdist).mp ((htree.children p).mem_iff.mp hc)

lemma time_linkTree (hnodup : (m.getEntries.map SessionEntry.id).Nodup)
    (he : e ∈ m.getEntries) : m.linkTree.time dates e.id = dates.getTime e.timestamp := by
  obtain ⟨node, hnode, rfl⟩ := Option.map_eq_some_iff.mp (get?_nodes_of_mem hnodup he)
  rw [SessionTree.time, hnode, Option.bind_some]

/-- Children in an order of time have times, unless there is only one. -/
lemma datedSiblings_of_ordered {tree : SessionTree} (htree : SessionTree.Halfway m.linkTree tree)
    (hnodup : (m.getEntries.map SessionEntry.id).Nodup)
    (hordered : ∀ p, (tree.childrenOf p).Pairwise (tree.InOrder dates)) :
    DatedSiblings dates m.getEntries := by
  intro e he e' he' hne p hp hp'
  have hmem {x : SessionEntry} (hx : x ∈ m.getEntries)
      (hxp : x.treeParent (m.getEntries.map SessionEntry.id) = some p) :
      x.id ∈ tree.childrenOf p := by
    rw [(htree.children p).mem_iff, mem_linkTree_children hnodup, treeParentOf_of_mem hnodup hx,
        hxp]
  have hboth : (tree.childrenOf p).Pairwise fun a b =>
      (tree.time dates a).isSome ∧ (tree.time dates b).isSome :=
    (hordered p).imp fun ⟨_, _, hs, ht, _⟩ => ⟨Option.isSome_of_eq_some hs,
      Option.isSome_of_eq_some ht⟩
  have hsymm : Std.Symm fun a b => (tree.time dates a).isSome ∧ (tree.time dates b).isSome :=
    ⟨fun _ _ => And.symm⟩
  have htime := (hboth.forall (hmem he hp) (hmem he' hp') hne).1
  rwa [htree.time, time_linkTree dates hnodup he] at htime

/-- Siblings with times are sorted, and so is a single child. -/
lemma ordered_of_datedSiblings (hnodup : (m.getEntries.map SessionEntry.id).Nodup)
    (hdated : DatedSiblings dates m.getEntries) (p : String) :
    (m.linkTree.sortedChildren dates p).Pairwise (m.linkTree.InOrder dates) := by
  by_cases hall : ∀ c ∈ m.linkTree.childrenOf p, (m.linkTree.time dates c).isSome
  · exact m.linkTree.pairwise_sortedChildren dates hall
  simp only [not_forall] at hall
  obtain ⟨c, hc, hnone⟩ := hall
  obtain ⟨e, he, rfl, hp⟩ := exists_of_treeParentOf ((mem_linkTree_children hnodup).mp hc)
  rw [time_linkTree dates hnodup he] at hnone
  have honly : ∀ c ∈ m.linkTree.childrenOf p, c = e.id := by
    intro c hc
    obtain ⟨e', he', rfl, hp'⟩ := exists_of_treeParentOf ((mem_linkTree_children hnodup).mp hc)
    by_contra hne
    exact hnone (hdated e he e' he' (Ne.symm hne) p hp hp')
  obtain ⟨hnd, -⟩ := lists_sortedChildren dates hnodup p
  refine hnd.imp_of_mem fun {a b} ha hb hne => absurd ?_ hne
  have hperm := m.linkTree.sortedChildren_perm dates p
  rw [honly a (hperm.mem_iff.mp ha), honly b (hperm.mem_iff.mp hb)]

/-- The tree shows all of a session. -/
def ShowsTree (dates : DateEngine) (m : SessionManager) : Prop :=
  ∃ fuel tree, m.getTree dates fuel = some tree ∧ FaithfulTree dates m tree

lemma showsTree_iff : ShowsTree dates m ↔
    SoundLinks m.getEntries ∧ DatedSiblings dates m.getEntries := by
  constructor
  · rintro ⟨fuel, tree, htree, hfaithful⟩
    have hhalf := (SessionTree.Halfway.refl m.linkTree).sortNodes htree
    have hlinks := soundLinks_of_once hhalf hfaithful.once
    exact ⟨hlinks, datedSiblings_of_ordered dates hhalf hlinks.nodup hfaithful.ordered⟩
  · rintro ⟨h, hdated⟩
    obtain ⟨fuel, visited, hwalk, hnodup, hvisited⟩ := exists_stackWalk dates h.nodup
    obtain ⟨tree, htree, hchildren⟩ :=
      (SessionTree.Halfway.refl m.linkTree).sortNodes_of_stackWalk hwalk hnodup fun _ _ => rfl
    have hhalf := (SessionTree.Halfway.refl m.linkTree).sortNodes htree
    refine ⟨fuel, tree, htree, once_of_soundLinks h hhalf, fun e he => ?_, fun e he p => ?_,
      fun p => ?_⟩
    · rw [hhalf.roots, mem_linkTree_roots h.nodup, treeParentOf_of_mem h.nodup he,
        treeParent_eq_none_iff, and_iff_right (mem_map_of_mem he)]
    · rw [← treeParent_eq_some_iff, ← treeParentOf_of_mem h.nodup he,
        ← mem_linkTree_children h.nodup, (hhalf.children p).mem_iff]
    · -- a node with children is an entry, and the pass has come to it
      have horder : tree.InOrder dates = m.linkTree.InOrder dates := by
        funext a b
        rw [SessionTree.InOrder, SessionTree.InOrder, hhalf.time]
      rw [horder, hchildren]
      split_ifs with hmem
      · exact ordered_of_datedSiblings dates h.nodup hdated p
      · have hnone : m.linkTree.childrenOf p = [] := by
          refine eq_nil_iff_forall_not_mem.mpr fun c hc => hmem ?_
          have hp := (bounded_treeParentOf c p ((mem_linkTree_children h.nodup).mp hc)).2
          obtain ⟨r, hroot, hunder⟩ := exists_level_iff.mp
            ((forall_level_iff bounded_treeParentOf).mpr h.acyclic p hp)
          refine (hvisited p).mpr ⟨r, (mem_linkTree_roots h.nodup).mpr ⟨?_, hroot⟩, hunder⟩
          rcases hunder.cases_head with rfl | ⟨c, hc, -⟩
          · exact hp
          · exact (bounded_treeParentOf c r hc).2
        rw [hnone]
        exact .nil

end LinkTree

/-! ## Runs -/

/-- The last id a call draws is not taken, and no entry names the new id as its parent; entries
with the parent of the new one have times, and so has then the call. -/
structure PlacedCall (dates : DateEngine) (s : SessionState) (c : SessionCall) : Prop where
  fallback : s.manager.byId.has (c.stamp.draws 100) = false
  unnamed : ∀ e ∈ s.manager.getEntries,
    e.parentId ≠ some (generateId s.manager.byId.has c.stamp.draws)
  dated : ∀ e ∈ s.manager.getEntries, ∀ p ∈ e.parentId, c.op.parentId s.manager = some p →
    (dates.getTime e.timestamp).isSome ∧ (dates.getTime c.stamp.timestamp).isSome

/-- What the order of siblings depends on. -/
def SessionEntry.sibling (e : SessionEntry) : String × Option String × String :=
  (e.id, e.parentId, e.timestamp)

variable {dates : DateEngine}

lemma DatedSiblings.snoc {entries entries' : List SessionEntry} (h : DatedSiblings dates entries)
    (hsiblings : entries'.map sibling = entries.map sibling ++ [e.sibling])
    (hunnamed : ∀ x ∈ entries, x.parentId ≠ some e.id)
    (hdated : ∀ x ∈ entries, ∀ p ∈ x.parentId, e.parentId = some p →
      (dates.getTime x.timestamp).isSome ∧ (dates.getTime e.timestamp).isSome) :
    DatedSiblings dates entries' := by
  have hids : entries'.map SessionEntry.id = entries.map SessionEntry.id ++ [e.id] := by
    have hfst := congrArg (List.map Prod.fst) hsiblings
    rwa [map_append, map_map, map_map] at hfst
  have hcases : ∀ x ∈ entries', (∃ y ∈ entries, y.sibling = x.sibling) ∨ e.sibling = x.sibling := by
    intro x hx
    have hmem := hsiblings ▸ mem_map_of_mem (f := sibling) hx
    rcases mem_append.mp hmem with hmem | hmem
    · exact .inl (List.mem_map.mp hmem)
    · exact .inr (mem_singleton.mp hmem).symm
  intro x hx x' hx' hne p hp hp'
  obtain ⟨hpar, hpx, hmem⟩ := treeParent_eq_some_iff.mp hp
  obtain ⟨hpar', hpx', -⟩ := treeParent_eq_some_iff.mp hp'
  rw [hids, mem_append, mem_singleton] at hmem
  rcases hcases x hx, hcases x' hx' with ⟨⟨y, hy, heq⟩ | heq, ⟨y', hy', heq'⟩ | heq'⟩ <;>
    simp only [sibling, Prod.mk.injEq] at heq heq' <;>
    obtain ⟨hid, hparent, htime⟩ := heq <;> obtain ⟨hid', hparent', htime'⟩ := heq'
  · have hold : p ∈ entries.map SessionEntry.id :=
      hmem.resolve_right fun hpe => hunnamed y hy (hpe ▸ hparent.trans hpar)
    rw [← htime]
    refine h y hy y' hy' (by rwa [hid, hid']) p ?_ ?_
    · exact treeParent_eq_some_iff.mpr ⟨hparent.trans hpar, hid ▸ hpx, hold⟩
    · exact treeParent_eq_some_iff.mpr ⟨hparent'.trans hpar', hid' ▸ hpx', hold⟩
  · exact htime ▸ (hdated y hy p (hparent.trans hpar) (hparent'.trans hpar')).1
  · exact htime ▸ (hdated y' hy' p (hparent'.trans hpar') (hparent.trans hpar)).2
  · exact absurd (hid.symm.trans hid') hne

/-- A session whose tree shows all of it. -/
structure SoundTree (dates : DateEngine) (m : SessionManager) : Prop where
  indexed : Indexed m
  links : SoundLinks m.getEntries
  dated : DatedSiblings dates m.getEntries

lemma SameTree.soundTree {m m' : SessionManager} (h : SameTree m m') (hm : SoundTree dates m) :
    SoundTree dates m' := by
  have hsame : m'.getEntries = m.getEntries := by
    rw [SessionManager.getEntries, SessionManager.getEntries, h.fileEntries]
  exact ⟨h.indexed hm.indexed, hsame ▸ hm.links, hsame ▸ hm.dated⟩

lemma SoundTree.step {s s' : SessionState} {c : SessionCall} (h : SoundTree dates s.manager)
    (hc : PlacedCall dates s c) (hstep : sessionMachine.step s c s') :
    SoundTree dates s'.manager := by
  have hcall : CallStep c.op c.stamp c.outcomes s c.result s' := .of_run hstep
  rcases hcall.tree h.indexed fun _ => hc.fallback with
    hsame | ⟨leafId, hleaf, hsame⟩ | ⟨e, p, hp, hsame⟩
  · exact hsame.soundTree h
  · exact hsame.soundTree ⟨setLeaf_indexed h.indexed hleaf, h.links, h.dated⟩
  · have hunnamed : ∀ x ∈ s.manager.getEntries, x.parentId ≠ some e.id := hp.id_eq ▸ hc.unnamed
    have hmade : e.parentId = c.op.parentId s.manager ∧ e.timestamp = c.stamp.timestamp := by
      obtain ⟨_, -, -, rfl⟩ := hp.eq
      exact ⟨rfl, rfl⟩
    have hextend {β : Type} {g : SessionEntry → β} (hg : ∀ usage x, g (x.setUsage usage) = g x) :
        p.manager.getEntries.map g = s.manager.getEntries.map g ++ [g e] := by
      rw [SessionManager.getEntries, hp.fileEntries, map_extendEntries hg]
      rfl
    refine hsame.soundTree ⟨hp.indexed h.indexed, h.links.snoc (hextend ?_) ?_ ?_ hunnamed,
      h.dated.snoc (hextend ?_) hunnamed ?_⟩
    · intro usage x
      rw [link, id_setUsage, parentId_setUsage]
      rfl
    · rw [← h.indexed.has_iff, hp.id_eq, generateId_notMem hc.fallback]
      exact Bool.false_ne_true
    · exact fun q hq => h.indexed.has_iff.mp (hp.parentId_has h.indexed q hq)
    · intro usage x
      obtain ⟨_, _, _, body⟩ := x
      cases body with
      | message m => cases m <;> rfl
      | _ => rfl
    · rw [hmade.1, hmade.2]
      exact hc.dated

/-- **The tree of a session** is a forest of all its entries, each once, under its parent and in
the order of time, exactly when the ids are distinct, no parents lead from an entry back to itself
and siblings have times; and it stays one when entries are added under ids that are new and named
by no entry, and with times where they have siblings. -/
theorem getTree_faithful_iff (dates : DateEngine) (s₀ : SessionState) :
    (ShowsTree dates s₀.manager ↔
      SoundLinks s₀.manager.getEntries ∧ DatedSiblings dates s₀.manager.getEntries) ∧
    (SoundTree dates s₀.manager → ∀ {s : SessionState} {calls : List SessionCall},
      (sessionMachine.guard (PlacedCall dates)).Run s₀ calls s → ShowsTree dates s.manager) := by
  refine ⟨showsTree_iff dates, fun h₀ _ _ hrun => (showsTree_iff dates).mpr ?_⟩
  have h : SoundTree dates _ := hrun.invariant (I := fun s => SoundTree dates s.manager) h₀
    fun _ _ _ hi hstep => hi.step hstep.2 hstep.1
  exact ⟨h.links, h.dated⟩

/-- Dates in the format of the language. -/
def plainDates : DateEngine := ⟨getTime, fun _ ids => ids, fun _ _ => .refl _⟩

/-- A later answer to the first message, with the time of an earlier clock. -/
abbrev sayAgain : SessionCall :=
  { say "c" "three" with stamp := ⟨fun _ => "c", "2026-01-01T00:30:00+01:00"⟩ }

/-- Two messages follow the first, the later one with the earlier time. -/
def siblingSession : SessionState :=
  (((memorySession.after (say "a" "one")).after (say "b" "two")).after
    (plainCall "d" (.branch "a"))).after sayAgain

theorem getTree_faithful_siblings : siblingSession.manager.linkTree.childrenOf "a" = ["b", "c"] ∧
    siblingSession.manager.linkTree.InOrder plainDates "c" "b" ∧
    ShowsTree plainDates siblingSession.manager := by
  have hsound : SoundTree plainDates memorySession.manager := by
    have hnew := newSession_spec (Prod.ext rfl rfl : SessionState.createSession "/" "/" false
      plainEnv.toSessionEnv (fun _ => none) = (.ok (), memorySession))
    have hentries : memorySession.manager.getEntries = [] := hnew.2.2.2.2.2
    refine ⟨hnew.2.2.1, hentries ▸ ⟨nodup_nil, ?_⟩, hentries ▸ fun _ he => nomatch he⟩
    exact (forall_level_iff bounded_treeParentOf).mp (by simp)
  have h₁ := run_after .nil (say "a" "one") rfl
    (⟨rfl, by decide, by decide⟩ : PlacedCall plainDates memorySession _)
  have h₂ := run_after h₁ (say "b" "two") rfl ⟨rfl, by decide, by decide⟩
  have h₃ := run_after h₂ (plainCall "d" (.branch "a")) rfl ⟨rfl, by decide, by decide⟩
  have h₄ := run_after h₃ sayAgain rfl ⟨rfl, by decide, by decide⟩
  exact ⟨by decide, ⟨_, _, rfl, rfl, by decide⟩, (getTree_faithful_iff plainDates _).2 hsound h₄⟩

/-- Two entries that name each other as parents. -/
def circledSession : List FileEntry :=
  [.session plainHeader, .entry (plainEntry "a" (some "b") (assistantBody "hello")),
    .entry (plainEntry "b" (some "a") (assistantBody "hello"))]

lemma settled_circledSession : Settled circledSession where
  header := ⟨plainHeader, _, rfl, Nat.le_refl 3, rfl⟩
  folded := rfl

/-- The tree of a file with these two entries has no roots, however dates are read. -/
theorem getTree_loses_circle :
    ∃ s, openSession "f" "/" "/" plainEnv .done (fileAtF (fileContent circledSession)) =
        (.ok (), s) ∧
      s.manager.getEntries.length = 2 ∧ s.manager.linkTree.roots = [] ∧
      ∀ dates, ¬ ShowsTree dates s.manager := by
  obtain ⟨s, hopen, -, hfile, -⟩ := openSession_of_settled (fileAtF_self _)
    (loadsAs_fileContent settled_circledSession.loaded) settled_circledSession "/" "/" plainEnv
    .done
  have hentries : s.manager.getEntries = sessionEntries circledSession := by
    rw [SessionManager.getEntries, hfile]
  refine ⟨s, hopen, by rw [hentries]; rfl, ?_, ?_⟩
  · rw [(linkTree_spec _).2.1, hentries]
    decide
  · intro dates hshows
    rw [showsTree_iff, hentries] at hshows
    obtain ⟨h, -⟩ := hshows
    have hba : treeParentOf (sessionEntries circledSession) "a" = some "b" := by decide
    have hab : treeParentOf (sessionEntries circledSession) "b" = some "a" := by decide
    exact h.acyclic "a" (.tail (.single hab) hba)

end Amide
