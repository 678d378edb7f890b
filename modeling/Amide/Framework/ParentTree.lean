import Mathlib.Data.List.Sublists

/-!
# Trees kept as lists of nodes

A tree that only ever grows, as the list of its nodes in the order in which they came in: each
node has a key and the key of its parent, which stands in front of it (`Grown`).  A path from a
root is a list in which the parent of each node is the node before it (`RootPath`); every node of
a grown tree ends one, and the path is a sublist of the tree (`Grown.exists_rootPath`).

Nodes can be taken out of a tree by hanging the rest on the nearest ancestor that stays; then the
path to a node that stays is its old path without the nodes taken out (`Pruning.rootPath`).
-/

namespace ParentTree

open List

variable {α κ : Type*} (key : α → κ) (parent : α → Option κ)

/-- No key occurs twice and every parent stands in front of its children. -/
inductive Grown : List α → Prop
  | nil : Grown []
  | snoc {as : List α} {a : α} : Grown as → key a ∉ as.map key →
      (∀ p ∈ parent a, p ∈ as.map key) → Grown (as ++ [a])

/-- A path from a root. -/
inductive RootPath : List α → Prop
  | nil : RootPath []
  | snoc {path : List α} {a : α} : RootPath path → parent a = path.getLast?.map key →
      RootPath (path ++ [a])

variable {key parent} {as : List α}

lemma Grown.nodup (h : Grown key parent as) : (as.map key).Nodup := by
  induction h with
  | nil => simp
  | snoc h hnew hpar ih =>
    rw [map_append, map_singleton, ← concat_eq_append]
    exact ih.concat hnew

lemma Grown.parent_mem (h : Grown key parent as) {a : α} (ha : a ∈ as) :
    ∀ p ∈ parent a, p ∈ as.map key := by
  induction h with
  | nil => simp at ha
  | snoc h hnew hpar ih =>
    intro p hp
    rw [map_append, mem_append]
    rcases mem_append.mp ha with ha | ha
    · exact .inl (ih ha p hp)
    · rw [mem_singleton.mp ha] at hp
      exact .inl (hpar p hp)

/-- Every node ends a path from a root. -/
theorem Grown.exists_rootPath (h : Grown key parent as) {a : α} (ha : a ∈ as) :
    ∃ path, RootPath key parent path ∧ path.Sublist as ∧ path.getLast? = some a := by
  induction h generalizing a with
  | nil => simp at ha
  | @snoc as b h hnew hpar ih =>
    rcases mem_append.mp ha with ha | ha
    · obtain ⟨path, hpath, hsub, hlast⟩ := ih ha
      exact ⟨path, hpath, hsub.trans (sublist_append_left _ _), hlast⟩
    · rw [mem_singleton.mp ha]
      cases hp : parent b with
      | none =>
        exact ⟨[b], RootPath.nil.snoc (by simp [hp]), sublist_append_right _ _, rfl⟩
      | some p =>
        obtain ⟨c, hc, rfl⟩ := List.mem_map.mp (hpar p hp)
        obtain ⟨path, hpath, hsub, hlast⟩ := ih hc
        exact ⟨path ++ [b], hpath.snoc (by simp [hp, hlast]), hsub.append (List.Sublist.refl _),
          by simp⟩

variable {path : List α}

lemma RootPath.exists_init (h : RootPath key parent path) {a : α}
    (hlast : path.getLast? = some a) :
    ∃ init, path = init ++ [a] ∧ RootPath key parent init ∧ parent a = init.getLast?.map key := by
  cases h with
  | nil => simp at hlast
  | @snoc init b h hpar =>
    rw [getLast?_append, getLast?_singleton, Option.some_or] at hlast
    cases hlast
    exact ⟨init, rfl, h, hpar⟩

lemma RootPath.left_of_append {rest : List α} (h : RootPath key parent (path ++ rest)) :
    RootPath key parent path := by
  induction rest using reverseRecOn with
  | nil => rwa [append_nil] at h
  | append_singleton rest a ih =>
    obtain ⟨init, heq, hinit, -⟩ := @RootPath.exists_init _ _ _ _ _ h a (by simp)
    rw [← append_assoc] at heq
    exact ih ((append_inj' heq rfl).1 ▸ hinit)

lemma RootPath.map {f : α → α} (hkey : ∀ a, key (f a) = key a)
    (hpar : ∀ a, parent (f a) = parent a) (h : RootPath key parent path) :
    RootPath key parent (path.map f) := by
  induction h with
  | nil => exact .nil
  | @snoc path a h hlast ih =>
    rw [map_append, map_singleton]
    refine ih.snoc ?_
    rw [hpar, hlast, getLast?_map, Option.map_map]
    exact congrArg (path.getLast?.map ·) (funext fun b => (hkey b).symm)

/-- A path from a root without a repeated key is a tree. -/
theorem RootPath.grown (h : RootPath key parent path) (hnd : (path.map key).Nodup) :
    Grown key parent path := by
  induction h with
  | nil => exact .nil
  | @snoc path a h hpar ih =>
    rw [map_append, map_singleton, nodup_append] at hnd
    refine (ih hnd.1).snoc (fun hmem => hnd.2.2 _ hmem _ (by simp) rfl) fun p hp => ?_
    rw [hpar] at hp
    obtain ⟨b, hb, rfl⟩ := Option.map_eq_some_iff.mp hp
    exact mem_map_of_mem (mem_of_getLast? hb)

variable {bs : List α}

/-- Only keys and parents matter. -/
theorem Grown.congr (h : Grown key parent as)
    (heq : bs.map (fun a => (key a, parent a)) = as.map fun a => (key a, parent a)) :
    Grown key parent bs := by
  induction h generalizing bs with
  | nil =>
    rw [map_eq_nil_iff.mp heq]
    exact .nil
  | @snoc as a h hnew hparent ih =>
    rw [map_append] at heq
    obtain ⟨bs, tail, rfl, hinit, htail⟩ := map_eq_append_iff.mp heq
    obtain ⟨b, rfl, hb⟩ := map_eq_singleton_iff.mp htail
    obtain ⟨hkey, hpar⟩ := Prod.mk.inj hb
    have hkeys : bs.map key = as.map key := by
      simpa [map_map, Function.comp_def] using congrArg (List.map Prod.fst) hinit
    refine (ih hinit).snoc ?_ ?_
    · rwa [hkey, hkeys]
    · rwa [hpar, hkeys]

/-! ## Taking nodes out -/

section Pruning

variable {β : Type*} {key' : β → κ} {parent' : β → Option κ} {f : α → Option β}
  {live : Option κ → Option κ}

/-- `f` keeps nodes of a tree under their keys and takes the others out; each node kept hangs on
what `live` makes of its parent, the nearest ancestor that stays. -/
structure Pruning (key : α → κ) (parent : α → Option κ) (key' : β → κ) (parent' : β → Option κ)
    (f : α → Option β) (live : Option κ → Option κ) (as : List α) : Prop where
  live_none : live none = none
  key_eq : ∀ a ∈ as, ∀ b ∈ f a, key' b = key a
  parent_eq : ∀ a ∈ as, ∀ b ∈ f a, parent' b = live (parent a)
  stays : ∀ a ∈ as, f a ≠ none → live (some (key a)) = some (key a)
  goes : ∀ a ∈ as, f a = none → live (some (key a)) = live (parent a)

namespace Pruning

variable (h : Pruning key parent key' parent' f live as)
include h

lemma keys_subset (hsub : bs ⊆ as) {k : κ} (hk : k ∈ (bs.filterMap f).map key') :
    k ∈ bs.map key := by
  obtain ⟨b, hb, rfl⟩ := List.mem_map.mp hk
  obtain ⟨a, ha, hf⟩ := mem_filterMap.mp hb
  rw [h.key_eq a (hsub ha) b hf]
  exact mem_map_of_mem ha

/-- What `live` makes of the key of the last node of a path: the last one that stays. -/
theorem live_getLast (hpath : RootPath key parent path) (hsub : path ⊆ as) :
    live (path.getLast?.map key) = (path.filterMap f).getLast?.map key' := by
  induction hpath with
  | nil => simpa using h.live_none
  | @snoc path a hpath hpar ih =>
    have ha : a ∈ as := hsub (by simp)
    have ih := ih fun x hx => hsub (by simp [hx])
    cases hf : f a with
    | none => simp [hf, h.goes a ha hf, hpar, ih]
    | some b => simp [hf, h.stays a ha (by simp [hf]), h.key_eq a ha b hf]

/-- **The path without the nodes taken out.** -/
theorem rootPath (hpath : RootPath key parent path) (hsub : path ⊆ as) :
    RootPath key' parent' (path.filterMap f) := by
  induction hpath with
  | nil => exact .nil
  | @snoc path a hpath hpar ih =>
    have ha : a ∈ as := hsub (by simp)
    have hsub' : path ⊆ as := fun x hx => hsub (by simp [hx])
    cases hf : f a with
    | none => simpa [hf] using ih hsub'
    | some b =>
      rw [filterMap_append]
      simp only [filterMap_cons, hf, filterMap_nil]
      refine (ih hsub').snoc ?_
      rw [h.parent_eq a ha b hf, hpar, h.live_getLast hpath hsub']

/-- `live` leads to a node that stays. -/
theorem live_mem (hbs : Grown key parent bs) (hsub : bs ⊆ as) :
    ∀ p ∈ bs.map key, ∀ q ∈ live (some p), q ∈ (bs.filterMap f).map key' := by
  induction hbs with
  | nil => simp
  | @snoc bs c hbs hnew hpar ih =>
    have hc : c ∈ as := hsub (by simp)
    have ih := ih fun x hx => hsub (by simp [hx])
    intro p hp q hq
    rw [filterMap_append, map_append, mem_append]
    rw [map_append, map_singleton, mem_append, mem_singleton] at hp
    rcases hp with hp | rfl
    · exact .inl (ih p hp q hq)
    · cases hf : f c with
      | some b =>
        rw [h.stays c hc (by simp [hf])] at hq
        exact .inr (by simp [hf, h.key_eq c hc b hf, Option.some.inj hq])
      | none =>
        rw [h.goes c hc hf] at hq
        cases hp : parent c with
        | none => simp [hp, h.live_none] at hq
        | some p =>
          rw [hp] at hq
          exact .inl (ih p (hpar p hp) q hq)

/-- **The tree without the nodes taken out.** -/
theorem grown (hbs : Grown key parent bs) (hsub : bs ⊆ as) :
    Grown key' parent' (bs.filterMap f) := by
  induction hbs with
  | nil => exact .nil
  | @snoc bs c hbs hnew hpar ih =>
    have hc : c ∈ as := hsub (by simp)
    have hsub' : bs ⊆ as := fun x hx => hsub (by simp [hx])
    cases hf : f c with
    | none => simpa [hf] using ih hsub'
    | some b =>
      rw [filterMap_append]
      simp only [filterMap_cons, hf, filterMap_nil]
      refine (ih hsub').snoc (fun hmem => hnew ?_) fun q hq => ?_
      · rw [← h.key_eq c hc b hf]
        exact h.keys_subset hsub' hmem
      · rw [h.parent_eq c hc b hf] at hq
        cases hp : parent c with
        | none => simp [hp, h.live_none] at hq
        | some p =>
          rw [hp] at hq
          exact h.live_mem hbs hsub' p (hpar p hp) q hq

end Pruning

end Pruning

end ParentTree
