import Amide.Framework.Fallible
import Mathlib.Data.Set.Finite.List

/-!
# Forests given by parent links

Each node has a parent or none.  The links from a node lead to a root (`Level`), or they go round in
a circle; among finitely many nodes all of them lead to roots exactly when there is no circle
(`forall_level_iff`).

A walk visits a node and what is below each of its children (`walk`), and so, from the roots on,
every node from which the links lead to a root, once (`exists_walkAll`).  The nodes on a circle, and
those below them, it does not come to.  A stack of nodes left to visit does the same
(`stackWalk_of_walks`).
-/

namespace ParentForest

open List

variable {α : Type*} {parent : α → Option α} {nodes : List α} {i j c c' : α} {k m n : ℕ}

/-- The links lead from the node to a root in so many steps. -/
inductive Level (parent : α → Option α) : ℕ → α → Prop
  | root {i : α} : parent i = none → Level parent 0 i
  | child {i p : α} {k : ℕ} : parent i = some p → Level parent k p → Level parent (k + 1) i

/-- The links lead from the second node to the first. -/
def Under (parent : α → Option α) : α → α → Prop :=
  Relation.ReflTransGen fun p c => parent c = some p

/-- No links lead from a node back to itself. -/
def Acyclic (parent : α → Option α) : Prop :=
  ∀ i, ¬ Relation.TransGen (fun p c => parent c = some p) i i

/-- The links stay among the nodes. -/
def Bounded (parent : α → Option α) (nodes : List α) : Prop :=
  ∀ c p, parent c = some p → c ∈ nodes ∧ p ∈ nodes

lemma Level.unique (h : Level parent k i) (h' : Level parent m i) : k = m := by
  induction h generalizing m with
  | root hroot =>
    cases h' with
    | root => rfl
    | child hpar => rw [hroot] at hpar; cases hpar
  | child hpar _ ih =>
    cases h' with
    | root hroot => rw [hroot] at hpar; cases hpar
    | child hpar' h' =>
      rw [hpar] at hpar'
      cases hpar'
      rw [ih h']

/-- What is below a node has a higher level. -/
theorem Level.le_of_under (h : Level parent k i) (h' : Level parent m j)
    (hunder : Under parent i j) : k ≤ m ∧ (k = m → i = j) := by
  induction hunder generalizing m with
  | refl => exact ⟨(h.unique h').le, fun _ => rfl⟩
  | tail _ hpar ih =>
    cases h' with
    | root hroot => rw [hroot] at hpar; cases hpar
    | child hpar' h' =>
      rw [hpar] at hpar'
      cases hpar'
      have hle := (ih h').1
      exact ⟨by omega, fun heq => by omega⟩

/-- A node lies below one node of a level at most. -/
theorem eq_of_under (h : Level parent k c) (h' : Level parent k c') (hm : Level parent m j)
    (hunder : Under parent c j) (hunder' : Under parent c' j) : c = c' := by
  induction hunder generalizing m with
  | refl =>
    obtain rfl := h.unique hm
    exact ((h'.le_of_under hm hunder').2 rfl).symm
  | tail hunder hpar ih =>
    cases hm with
    | root hroot => rw [hroot] at hpar; cases hpar
    | child hpar' hm =>
      rw [hpar] at hpar'
      cases hpar'
      rcases hunder'.cases_tail with rfl | ⟨p, hunder', hp⟩
      · have hle := (h.le_of_under hm hunder).1
        have := h'.unique (hm.child hpar)
        omega
      · rw [hpar] at hp
        cases hp
        exact ih hm hunder'

/-- The nodes that lead to a root are distinct. -/
theorem Level.exists_path (hbound : Bounded parent nodes) (h : Level parent k i) (hi : i ∈ nodes) :
    ∃ path : List α, path.length = k + 1 ∧ path.Nodup ∧
      ∀ j ∈ path, j ∈ nodes ∧ ∃ m ≤ k, Level parent m j := by
  induction h with
  | @root i hroot => exact ⟨[i], rfl, nodup_singleton i, by simpa using ⟨hi, .root hroot⟩⟩
  | @child i p k hpar hp ih =>
    obtain ⟨path, hlen, hnodup, hpath⟩ := ih (hbound i p hpar).2
    refine ⟨i :: path, by rw [length_cons, hlen], nodup_cons.mpr ⟨?_, hnodup⟩, ?_⟩
    · intro hmem
      obtain ⟨-, m, hle, hm⟩ := hpath i hmem
      have := hm.unique (hp.child hpar)
      omega
    · intro j hj
      rcases mem_cons.mp hj with rfl | hj
      · exact ⟨hi, k + 1, le_rfl, hp.child hpar⟩
      · obtain ⟨hmem, m, hle, hm⟩ := hpath j hj
        exact ⟨hmem, m, hle.trans (Nat.le_succ k), hm⟩

lemma Level.lt (hbound : Bounded parent nodes) (h : Level parent k i) (hi : i ∈ nodes) :
    k < nodes.length := by
  obtain ⟨path, hlen, hnodup, hpath⟩ := h.exists_path hbound hi
  have hsub : path ⊆ nodes := fun j hj => (hpath j hj).1
  have hle := (hnodup.subperm hsub).length_le
  omega

/-- Below a node the levels grow. -/
theorem Level.lt_of_transGen (h : Level parent k i) (h' : Level parent m j)
    (hbelow : Relation.TransGen (fun p c => parent c = some p) i j) : k < m := by
  induction hbelow generalizing m with
  | single hpar => exact Nat.lt_of_succ_le ((h.child hpar).unique h').le
  | tail _ hpar ih =>
    cases h' with
    | root hroot => rw [hroot] at hpar; cases hpar
    | child hpar' h' =>
      rw [hpar] at hpar'
      cases hpar'
      exact Nat.lt_succ_of_lt (ih h')

/-- Links along which a measure falls lead to a root, in no more steps than the measure is. -/
theorem exists_level_of_falling (measure : α → ℕ)
    (h : ∀ c ∈ nodes, ∀ p, parent c = some p → p ∈ nodes ∧ measure p < measure c) (hi : i ∈ nodes) :
    ∃ k ≤ measure i, Level parent k i := by
  induction hn : measure i using Nat.strong_induction_on generalizing i with
  | _ n ih =>
    cases hpar : parent i with
    | none => exact ⟨0, Nat.zero_le n, .root hpar⟩
    | some p =>
      obtain ⟨hp, hlt⟩ := h i hi p hpar
      obtain ⟨k, hk, hlevel⟩ := ih (measure p) (hn ▸ hlt) hp rfl
      exact ⟨k + 1, by omega, hlevel.child hpar⟩

/-- **Among finitely many nodes** all lead to a root exactly when there is no circle. -/
theorem forall_level_iff (hbound : Bounded parent nodes) :
    (∀ i ∈ nodes, ∃ k, Level parent k i) ↔ Acyclic parent := by
  constructor
  · intro h i hcircle
    obtain ⟨c, -, hpar⟩ := Relation.TransGen.tail'_iff.mp hcircle
    obtain ⟨k, hk⟩ := h i (hbound i c hpar).1
    exact lt_irrefl k (hk.lt_of_transGen hk hcircle)
  · intro h i hi
    let Above : {i // i ∈ nodes} → {i // i ∈ nodes} → Prop := fun p c =>
      Relation.TransGen (fun p c => parent c = some p) p.1 c.1
    have : IsTrans {i // i ∈ nodes} Above := ⟨fun _ _ _ => Relation.TransGen.trans⟩
    have : Std.Irrefl Above := ⟨fun i => h i.1⟩
    have : Finite {i // i ∈ nodes} := nodes.finite_toSet
    have hwf : WellFounded Above := Finite.wellFounded_of_trans_of_irrefl Above
    suffices hlevel : ∀ i : {i // i ∈ nodes}, ∃ k, Level parent k i.1 from hlevel ⟨i, hi⟩
    intro i
    induction i using hwf.induction with
    | _ i ih =>
      cases hpar : parent i.1 with
      | none => exact ⟨0, .root hpar⟩
      | some p =>
        obtain ⟨k, hk⟩ := ih ⟨p, (hbound i.1 p hpar).2⟩ (.single hpar)
        exact ⟨k + 1, hk.child hpar⟩

/-- A node with a level lies below a root, and one below a root has a level. -/
theorem exists_level_iff : (∃ k, Level parent k i) ↔ ∃ r, parent r = none ∧ Under parent r i := by
  constructor
  · rintro ⟨k, h⟩
    induction h with
    | @root i hroot => exact ⟨i, hroot, .refl⟩
    | child hpar _ ih =>
      obtain ⟨r, hroot, hunder⟩ := ih
      exact ⟨r, hroot, hunder.tail hpar⟩
  · rintro ⟨r, hroot, hunder⟩
    induction hunder with
    | refl => exact ⟨0, .root hroot⟩
    | tail _ hpar ih =>
      obtain ⟨k, h⟩ := ih
      exact ⟨k + 1, h.child hpar⟩

/-! ## Walks -/

/-- A node, and then what is below it; `none` if it is not that deep. -/
def walk (children : α → List α) : ℕ → α → Option (List α)
  | 0, _ => none
  | fuel + 1, i => ((children i).mapM (walk children fuel)).map fun below => i :: below.flatten

/-- All that is below the roots. -/
def walkAll (children : α → List α) (fuel : ℕ) (roots : List α) : Option (List α) :=
  (roots.mapM (walk children fuel)).map List.flatten

/-- The children of each node, in some order. -/
def Lists (children : α → List α) (parent : α → Option α) : Prop :=
  ∀ i, (children i).Nodup ∧ ∀ c, c ∈ children i ↔ parent c = some i

section Walk

variable {children : α → List α} {fuel : ℕ} {roots l : List α}

/-- What is below some nodes of one level. -/
lemma walks_spec (hnodup : nodes.Nodup) (hlevel : ∀ c ∈ nodes, Level parent k c)
    (hwalk : ∀ c ∈ nodes, ∃ l, walk children fuel c = some l ∧ l.Nodup ∧
      ∀ j, j ∈ l ↔ Under parent c j) :
    ∃ ls, nodes.mapM (walk children fuel) = some ls ∧ ls.flatten.Nodup ∧
      ∀ j, j ∈ ls.flatten ↔ ∃ c ∈ nodes, Under parent c j := by
  induction nodes with
  | nil => exact ⟨[], rfl, nodup_nil, by simp⟩
  | cons c nodes ih =>
    rw [forall_mem_cons] at hlevel hwalk
    rw [nodup_cons] at hnodup
    obtain ⟨ls, hls, hdist, hmem⟩ := ih hnodup.2 hlevel.2 hwalk.2
    obtain ⟨⟨l, hl, hdist', hmem'⟩, -⟩ := hwalk
    refine ⟨l :: ls, ?_, ?_, fun j => ?_⟩
    · rw [mapM_cons, hl, hls]
      rfl
    · rw [flatten_cons, nodup_append]
      refine ⟨hdist', hdist, ?_⟩
      rintro j hj _ hj' rfl
      obtain ⟨c', hc', hunder'⟩ := (hmem j).mp hj'
      have hunder := (hmem' j).mp hj
      obtain ⟨m, hm⟩ : ∃ m, Level parent m j := by
        obtain ⟨r, hroot, hr⟩ := exists_level_iff.mp ⟨k, hlevel.1⟩
        exact exists_level_iff.mpr ⟨r, hroot, hr.trans hunder⟩
      exact hnodup.1 (eq_of_under hlevel.1 (hlevel.2 c' hc') hm hunder hunder' ▸ hc')
    · rw [flatten_cons, mem_append, hmem', hmem]
      simp

lemma walk_spec (hbound : Bounded parent nodes) (hchild : Lists children parent)
    (h : Level parent k i) (hi : i ∈ nodes) (hfuel : nodes.length ≤ k + fuel) :
    ∃ l, walk children fuel i = some l ∧ l.Nodup ∧ ∀ j, j ∈ l ↔ Under parent i j := by
  induction fuel generalizing i k with
  | zero => exact absurd (h.lt hbound hi) (by omega)
  | succ fuel ih =>
    obtain ⟨hnodup, hmem⟩ := hchild i
    have hlevel : ∀ c ∈ children i, Level parent (k + 1) c := fun c hc => h.child ((hmem c).mp hc)
    obtain ⟨ls, hls, hdist, hls'⟩ := walks_spec hnodup hlevel fun c hc =>
      ih (hlevel c hc) (hbound c i ((hmem c).mp hc)).1 (by omega)
    refine ⟨i :: ls.flatten, by rw [walk, hls, Option.map_some],
      nodup_cons.mpr ⟨?_, hdist⟩, fun j => ?_⟩
    · intro hmem'
      obtain ⟨c, hc, hunder⟩ := (hls' i).mp hmem'
      have := ((hlevel c hc).le_of_under h hunder).1
      omega
    · rw [mem_cons, hls']
      constructor
      · rintro (rfl | ⟨c, hc, hunder⟩)
        · exact .refl
        · exact hunder.head ((hmem c).mp hc)
      · intro hunder
        rcases hunder.cases_head with rfl | ⟨c, hc, hunder⟩
        · exact .inl rfl
        · exact .inr ⟨c, (hmem c).mpr hc, hunder⟩

/-- **A walk from the roots** comes to every node from which the links lead to a root, once. -/
theorem exists_walkAll (hbound : Bounded parent nodes) (hchild : Lists children parent)
    (hnodup : roots.Nodup) (hroots : ∀ i, i ∈ roots ↔ i ∈ nodes ∧ parent i = none) :
    ∃ l, walkAll children nodes.length roots = some l ∧ l.Nodup ∧
      ∀ i, i ∈ l ↔ i ∈ nodes ∧ ∃ k, Level parent k i := by
  have hlevel : ∀ r ∈ roots, Level parent 0 r := fun r hr => .root ((hroots r).mp hr).2
  obtain ⟨ls, hls, hdist, hmem⟩ := walks_spec hnodup hlevel fun r hr =>
    walk_spec hbound hchild (hlevel r hr) ((hroots r).mp hr).1 (Nat.le_add_left _ 0)
  refine ⟨ls.flatten, by rw [walkAll, hls, Option.map_some], hdist, fun i => ?_⟩
  rw [hmem, exists_level_iff]
  constructor
  · rintro ⟨r, hr, hunder⟩
    obtain ⟨hmem', hroot⟩ := (hroots r).mp hr
    refine ⟨?_, r, hroot, hunder⟩
    rcases hunder.cases_tail with rfl | ⟨p, -, hpar⟩
    · exact hmem'
    · exact (hbound i p hpar).1
  · rintro ⟨hi, r, hroot, hunder⟩
    refine ⟨r, (hroots r).mpr ⟨?_, hroot⟩, hunder⟩
    rcases hunder.cases_head with rfl | ⟨c, hpar, -⟩
    · exact hi
    · exact (hbound c r hpar).2

/-- More depth than a walk needs does not change it. -/
theorem walk_mono {m : ℕ} (h : walk children fuel i = some l) (hle : fuel ≤ m) :
    walk children m i = some l := by
  induction fuel generalizing m i l with
  | zero => cases h
  | succ fuel ih =>
    obtain ⟨m, rfl⟩ := Nat.exists_eq_succ_of_ne_zero (Nat.ne_of_gt (Nat.zero_lt_of_lt hle))
    obtain ⟨ls, hls, rfl⟩ := Option.map_eq_some_iff.mp h
    have hls' : (children i).mapM (walk children m) = some ls := by
      rw [Option.mapM_eq_some_iff] at hls ⊢
      exact hls.imp fun _ _ hw => ih hw (Nat.le_of_succ_le_succ hle)
    rw [walk, hls', Option.map_some]

/-- All that a walk comes to is below where it began. -/
theorem under_of_mem_walk (hchild : ∀ i, ∀ c ∈ children i, parent c = some i)
    (h : walk children fuel i = some l) (hj : j ∈ l) : Under parent i j := by
  induction fuel generalizing i l with
  | zero => cases h
  | succ fuel ih =>
    obtain ⟨ls, hls, rfl⟩ := Option.map_eq_some_iff.mp h
    rcases mem_cons.mp hj with rfl | hj
    · exact .refl
    · obtain ⟨l, hl, hj⟩ := mem_flatten.mp hj
      obtain ⟨c, hc, hw⟩ := exists_of_mem_forall₂ (Option.mapM_eq_some_iff.mp hls) hl
      exact (ih hw hj).head (hchild i c hc)

/-! ### With a stack -/

/-- Visits the nodes on a stack, and puts the children of each on it, the last on top. -/
def stackWalk (children : α → List α) : ℕ → List α → Option (List α)
  | _, [] => some []
  | 0, _ :: _ => none
  | fuel + 1, i :: stack =>
    (stackWalk children fuel ((children i).reverse ++ stack)).map (i :: ·)

/-- **A stack** visits what the walks from its nodes visit, the children from the last to the
first. -/
theorem stackWalk_of_walks {stack : List α} {ls : List (List α)}
    (h : stack.mapM (walk (fun i => (children i).reverse) fuel) = some ls) :
    stackWalk children ls.flatten.length stack = some ls.flatten := by
  rw [Option.mapM_eq_some_iff] at h
  induction hn : ls.flatten.length generalizing stack ls fuel with
  | zero =>
    cases h with
    | nil => rfl
    | @cons i l stack ls hwalk _ =>
      cases fuel with
      | zero => cases hwalk
      | succ fuel =>
        obtain ⟨below, -, rfl⟩ := Option.map_eq_some_iff.mp hwalk
        cases hn
  | succ n ih =>
    cases h with
    | nil => cases hn
    | @cons i l stack ls hwalk hstack =>
      cases fuel with
      | zero => cases hwalk
      | succ fuel =>
        obtain ⟨below, hbelow, rfl⟩ := Option.map_eq_some_iff.mp hwalk
        -- what is below the node comes next, then the rest of the stack
        have hnext : List.Forall₂
            (fun c l => walk (fun i => (children i).reverse) (fuel + 1) c = some l)
            ((children i).reverse ++ stack) (below ++ ls) := by
          refine rel_append ?_ hstack
          exact (Option.mapM_eq_some_iff.mp hbelow).imp fun _ _ hw => walk_mono hw fuel.le_succ
        have hflat : (below ++ ls).flatten = below.flatten ++ ls.flatten := flatten_append
        have hlen : (below ++ ls).flatten.length = n := by
          rw [flatten_cons, cons_append, length_cons, ← hflat] at hn
          exact Nat.succ.inj hn
        rw [stackWalk, ih hnext hlen, hflat]
        rfl

end Walk

end ParentForest
