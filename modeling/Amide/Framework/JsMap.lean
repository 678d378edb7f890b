import Mathlib.Algebra.GroupWithZero.Nat
import Mathlib.Data.List.Nodup
import Mathlib.Data.List.Induction

/-!
# Maps that remember insertion order

`JsMap κ ν` is a finite map whose bindings keep the order in which their keys first came in:
binding a key again replaces its value in place, and a deleted key that comes back goes to the
end.  No key is bound twice, which the structure carries as a field.
-/

/-- An insertion-ordered finite map. -/
structure JsMap (κ ν : Type*) where
  entries : List (κ × ν)
  nodup : (entries.map Prod.fst).Nodup

namespace JsMap

open List

variable {κ ν : Type*} [DecidableEq κ]

/-! ## The operations on bindings -/

def lookup (k : κ) : List (κ × ν) → Option ν
  | [] => none
  | (k', v) :: rest => if k' = k then some v else lookup k rest

def insert (k : κ) (v : ν) : List (κ × ν) → List (κ × ν)
  | [] => [(k, v)]
  | (k', v') :: rest => if k' = k then (k, v) :: rest else (k', v') :: insert k v rest

variable {k : κ} {l : List (κ × ν)}

lemma lookup_eq_none_iff : lookup k l = none ↔ k ∉ l.map Prod.fst := by
  induction l with
  | nil => simp [lookup]
  | cons p l ih =>
    obtain ⟨k', v⟩ := p
    by_cases h : k' = k
    · simp [lookup, h]
    · simp [lookup, h, ih, Ne.symm h]

variable {v : ν}

lemma mem_of_lookup (h : lookup k l = some v) : (k, v) ∈ l := by
  induction l with
  | nil => simp [lookup] at h
  | cons p l ih =>
    obtain ⟨k', v'⟩ := p
    simp only [lookup] at h
    split_ifs at h with hk
    · simp_all
    · exact mem_cons_of_mem _ (ih h)

lemma lookup_of_mem (hl : (l.map Prod.fst).Nodup) (h : (k, v) ∈ l) : lookup k l = some v := by
  induction l with
  | nil => simp at h
  | cons p l ih =>
    obtain ⟨k', v'⟩ := p
    simp only [map_cons, nodup_cons] at hl
    rcases mem_cons.mp h with h | h
    · cases h
      simp [lookup]
    · have hne : k' ≠ k := by
        rintro rfl
        exact hl.1 (mem_map_of_mem (f := Prod.fst) h)
      simp [lookup, hne, ih hl.2 h]

lemma lookup_insert (k k' : κ) (v : ν) (l : List (κ × ν)) :
    lookup k' (insert k v l) = if k = k' then some v else lookup k' l := by
  induction l with
  | nil => simp [insert, lookup]
  | cons p l ih =>
    obtain ⟨k₀, v₀⟩ := p
    by_cases h₀ : k₀ = k
    · subst h₀
      by_cases h : k₀ = k' <;> simp [insert, lookup, h]
    · by_cases h : k = k'
      · subst h
        simp [insert, lookup, h₀, ih]
      · have hrest : lookup k' (insert k v l) = lookup k' l := by rw [ih, if_neg h]
        simp [insert, lookup, h₀, h, hrest]

lemma keys_insert (k : κ) (v : ν) (l : List (κ × ν)) : (insert k v l).map Prod.fst =
      if k ∈ l.map Prod.fst then l.map Prod.fst else l.map Prod.fst ++ [k] := by
  induction l with
  | nil => simp [insert]
  | cons p l ih =>
    obtain ⟨k', v'⟩ := p
    by_cases h : k' = k
    · simp [insert, h]
    · simp only [insert, h, if_false, map_cons, ih, mem_cons, Ne.symm h, false_or]
      split_ifs <;> simp

lemma insert_of_notMem (h : k ∉ l.map Prod.fst) (v : ν) : insert k v l = l ++ [(k, v)] := by
  induction l with
  | nil => rfl
  | cons p l ih =>
    simp only [map_cons, mem_cons, not_or] at h
    simp [insert, Ne.symm h.1, ih h.2]

lemma insert_insert (k : κ) (v w : ν) (l : List (κ × ν)) :
    insert k w (insert k v l) = insert k w l := by
  induction l with
  | nil => simp [insert]
  | cons p l ih =>
    obtain ⟨k', v'⟩ := p
    by_cases h : k' = k <;> simp [insert, h, ih]

variable {k' : κ}

/-- Replacing a value and binding another key commute. -/
theorem insert_comm (hne : k ≠ k') (v w : ν) (hk : k ∈ l.map Prod.fst) :
    insert k' w (insert k v l) = insert k v (insert k' w l) := by
  induction l with
  | nil => simp at hk
  | cons p l ih =>
    obtain ⟨k₀, v₀⟩ := p
    by_cases h : k₀ = k
    · subst h
      simp [insert, hne]
    · have hk : k ∈ l.map Prod.fst := by
        rcases mem_cons.mp hk with hk | hk
        · exact absurd hk.symm h
        · exact hk
      by_cases h' : k₀ = k'
      · simp [insert, h', Ne.symm hne]
      · simp [insert, h, h', ih hk]

/-! ## The map -/

def empty : JsMap κ ν := ⟨[], by simp⟩

def get? (m : JsMap κ ν) (k : κ) : Option ν := lookup k m.entries

def has (m : JsMap κ ν) (k : κ) : Bool := (m.get? k).isSome

def set (m : JsMap κ ν) (k : κ) (v : ν) : JsMap κ ν where
  entries := insert k v m.entries
  nodup := by
    rw [keys_insert]
    split_ifs with h
    · exact m.nodup
    · rw [← concat_eq_append]
      exact m.nodup.concat h

def delete (m : JsMap κ ν) (k : κ) : JsMap κ ν where
  entries := m.entries.filter fun p => p.1 ≠ k
  nodup := m.nodup.sublist (filter_sublist.map _)

def keys (m : JsMap κ ν) : List κ := m.entries.map Prod.fst

def values (m : JsMap κ ν) : List ν := m.entries.map Prod.snd

def size (m : JsMap κ ν) : ℕ := m.entries.length

omit [DecidableEq κ] in
@[ext] lemma ext {m m' : JsMap κ ν} (h : m.entries = m'.entries) : m = m' := by
  cases m
  cases m'
  cases h
  rfl

instance [DecidableEq ν] : DecidableEq (JsMap κ ν) := fun m m' =>
  decidable_of_iff (m.entries = m'.entries) ⟨JsMap.ext, fun h => h ▸ rfl⟩

@[simp] lemma get?_empty (k : κ) : (empty : JsMap κ ν).get? k = none := rfl

variable (m : JsMap κ ν)

@[simp] lemma get?_set (k k' : κ) (v : ν) :
    (m.set k v).get? k' = if k = k' then some v else m.get? k' :=
  lookup_insert k k' v m.entries

lemma get?_set_self (k : κ) (v : ν) : (m.set k v).get? k = some v := by simp

lemma mem_entries_iff {m : JsMap κ ν} : (k, v) ∈ m.entries ↔ m.get? k = some v :=
  ⟨lookup_of_mem m.nodup, mem_of_lookup⟩

lemma mem_values_iff {m : JsMap κ ν} : v ∈ m.values ↔ ∃ k, m.get? k = some v := by
  simp only [values, mem_map, Prod.exists, exists_eq_right, mem_entries_iff]

lemma get?_delete (k k' : κ) : (m.delete k).get? k' = if k = k' then none else m.get? k' := by
  by_cases h : k = k'
  · subst h
    rw [if_pos rfl, get?, lookup_eq_none_iff]
    simp [delete]
  · rw [if_neg h]
    cases hv : m.get? k' with
    | none =>
      rw [get?, lookup_eq_none_iff] at hv ⊢
      exact fun hk => hv ((filter_sublist.map Prod.fst).subset hk)
    | some v =>
      rw [← mem_entries_iff] at hv ⊢
      exact mem_filter.mpr ⟨hv, by simpa using Ne.symm h⟩

lemma of_get?_delete {m : JsMap κ ν} (h : (m.delete k).get? k' = some v) : m.get? k' = some v := by
  rw [get?_delete] at h
  split_ifs at h
  exact h

lemma has_iff {m : JsMap κ ν} : m.has k = true ↔ ∃ v, m.get? k = some v :=
  Option.isSome_iff_exists

lemma has_eq_false_iff {m : JsMap κ ν} : m.has k = false ↔ m.get? k = none := by
  simp [has]

lemma has_iff_mem_keys {m : JsMap κ ν} : m.has k = true ↔ k ∈ m.keys := by
  rw [← Bool.not_eq_false, has_eq_false_iff, get?, lookup_eq_none_iff, not_not]
  rfl

lemma has_set_iff {m : JsMap κ ν} : (m.set k v).has k' = true ↔ k = k' ∨ m.has k' = true := by
  rw [has, get?_set]
  split_ifs with h
  · simp [h]
  · simp [h, has]

lemma has_delete_iff {m : JsMap κ ν} : (m.delete k).has k' = true ↔ k ≠ k' ∧ m.has k' = true := by
  rw [has, get?_delete]
  split_ifs with h
  · simp [h]
  · simp [h, has]

/-- Binding a bound key again binds no new key. -/
theorem has_set_of_get?_some {m : JsMap κ ν} (h : m.get? k = some v) (w : ν) :
    (m.set k w).has = m.has := by
  funext k'
  simp only [has, get?_set]
  split_ifs with hk
  · simp [← hk, h]
  · rfl

lemma entries_set_of_get?_none {m : JsMap κ ν} (h : m.get? k = none) (v : ν) :
    (m.set k v).entries = m.entries ++ [(k, v)] :=
  insert_of_notMem (lookup_eq_none_iff.mp h) v

/-- A new value takes the place of the old one. -/
theorem exists_entries_set {m : JsMap κ ν} {w : ν} (h : m.get? k = some w) :
    ∃ l₁ l₂, m.entries = l₁ ++ (k, w) :: l₂ ∧ ∀ v, (m.set k v).entries = l₁ ++ (k, v) :: l₂ := by
  suffices hinsert : ∀ entries, lookup k entries = some w → ∃ l₁ l₂, entries = l₁ ++ (k, w) :: l₂ ∧
      ∀ v, insert k v entries = l₁ ++ (k, v) :: l₂ from hinsert m.entries h
  clear h
  intro entries h
  induction entries with
  | nil => cases h
  | cons entry entries ih =>
    obtain ⟨k', v'⟩ := entry
    rw [lookup] at h
    by_cases hk : k' = k
    · rw [if_pos hk, Option.some.injEq] at h
      subst hk h
      exact ⟨[], entries, rfl, fun v => by rw [insert, if_pos rfl]; rfl⟩
    · rw [if_neg hk] at h
      obtain ⟨l₁, l₂, heq, hinsert⟩ := ih h
      exact ⟨(k', v') :: l₁, l₂, by rw [heq]; rfl, fun v => by rw [insert, if_neg hk, hinsert]; rfl⟩

@[simp] lemma set_set (k : κ) (v w : ν) : (m.set k v).set k w = m.set k w :=
  JsMap.ext (insert_insert k v w m.entries)

lemma set_comm_of_get?_some {m : JsMap κ ν} {u : ν} (hne : k ≠ k') (h : m.get? k = some u)
    (v w : ν) : (m.set k v).set k' w = (m.set k' w).set k v :=
  JsMap.ext (insert_comm hne v w (mem_map_of_mem (mem_of_lookup h)))

/-- Deleting a key that is not bound changes nothing. -/
theorem delete_of_get?_none {m : JsMap κ ν} (h : m.get? k = none) : m.delete k = m := by
  apply JsMap.ext
  show m.entries.filter (fun p => p.1 ≠ k) = m.entries
  rw [filter_eq_self]
  intro p hp
  simp only [ne_eq, decide_not, Bool.not_eq_true', decide_eq_false_iff_not]
  rintro rfl
  exact lookup_eq_none_iff.mp h (mem_map_of_mem (f := Prod.fst) hp)

lemma delete_comm (k k' : κ) : (m.delete k).delete k' = (m.delete k').delete k := by
  apply JsMap.ext
  show (m.entries.filter _).filter _ = (m.entries.filter _).filter _
  exact filter_comm _ _ _

/-- Deleting a key that has just come in gives the map back. -/
theorem delete_set_of_get?_none {m : JsMap κ ν} (h : m.get? k = none) (v : ν) :
    (m.set k v).delete k = m := by
  have hsame : m.entries.filter (fun p => p.1 ≠ k) = m.entries :=
    congrArg entries (delete_of_get?_none h)
  simp only [delete, entries_set_of_get?_none h, filter_append, hsame]
  simp

lemma entries_foldl_delete (ks : List κ) (m : JsMap κ ν) :
    (ks.foldl delete m).entries = m.entries.filter fun p => p.1 ∉ ks := by
  induction ks generalizing m with
  | nil => simp
  | cons k ks ih =>
    rw [foldl_cons, ih, delete, filter_filter]
    congr 1
    simp [Bool.and_comm]

/-- Deleting all keys leaves nothing. -/
theorem foldl_delete_keys : m.keys.foldl delete m = empty := by
  apply JsMap.ext
  rw [entries_foldl_delete]
  show m.entries.filter _ = []
  rw [filter_eq_nil_iff]
  intro p hp
  have hkey : p.1 ∈ m.keys := mem_map_of_mem hp
  simpa using hkey

/-! ## Binding a list of keys -/

/-- With distinct keys each is bound to its own value. -/
theorem get?_foldl_set (hl : (l.map Prod.fst).Nodup) (m : JsMap κ ν) (k : κ) :
    (l.foldl (fun m p => m.set p.1 p.2) m).get? k = (lookup k l).or (m.get? k) := by
  induction l generalizing m with
  | nil => rfl
  | cons p l ih =>
    obtain ⟨k', v⟩ := p
    simp only [map_cons, nodup_cons] at hl
    rw [foldl_cons, ih hl.2, get?_set]
    by_cases hk : k' = k
    · subst hk
      simp [lookup, lookup_eq_none_iff.mpr hl.1]
    · simp [lookup, hk]

lemma entries_foldl_set {m : JsMap κ ν} (hl : ((m.entries ++ l).map Prod.fst).Nodup) :
    (l.foldl (fun m p => m.set p.1 p.2) m).entries = m.entries ++ l := by
  induction l generalizing m with
  | nil => rw [foldl_nil, append_nil]
  | cons p l ih =>
    have hassoc : m.entries ++ p :: l = (m.entries ++ [(p.1, p.2)]) ++ l := by simp
    have hnone : m.get? p.1 = none := by
      rw [get?, lookup_eq_none_iff]
      intro hmem
      rw [map_append, map_cons, nodup_append] at hl
      exact hl.2.2 _ hmem _ (by simp) rfl
    rw [hassoc, ← entries_set_of_get?_none hnone] at hl ⊢
    rw [foldl_cons, ih hl]

/-- Binding the bindings of a map one after the other rebuilds it. -/
theorem foldl_set_empty : m.entries.foldl (fun m p => m.set p.1 p.2) empty = m := by
  apply JsMap.ext
  have hnodup : (((empty : JsMap κ ν).entries ++ m.entries).map Prod.fst).Nodup := m.nodup
  rw [entries_foldl_set hnodup]
  rfl

/-! ## Assigning what may be absent -/

/-- Binds a key, or unbinds it. -/
def assign (m : JsMap κ ν) (k : κ) : Option ν → JsMap κ ν
  | some v => m.set k v
  | none => m.delete k

@[simp] lemma get?_assign (k k' : κ) (v : Option ν) :
    (m.assign k v).get? k' = if k = k' then v else m.get? k' := by
  cases v with
  | none => exact get?_delete m k k'
  | some v => exact get?_set m k k' v

/-- Keys that are assigned one after the other, each what `f` has for it. -/
theorem get?_foldl_assign (f : κ → Option ν) (ks : List κ) (m : JsMap κ ν) (k : κ) :
    (ks.foldl (fun m k => m.assign k (f k)) m).get? k = if k ∈ ks then f k else m.get? k := by
  induction ks generalizing m with
  | nil => simp
  | cons k' ks ih =>
    rw [foldl_cons, ih, get?_assign]
    by_cases hmem : k ∈ ks
    · rw [if_pos hmem, if_pos (mem_cons_of_mem k' hmem)]
    · rw [if_neg hmem]
      by_cases hk : k' = k
      · rw [if_pos hk, if_pos (hk ▸ mem_cons_self), hk]
      · rw [if_neg hk, if_neg]
        rw [mem_cons, not_or]
        exact ⟨Ne.symm hk, hmem⟩

lemma lookup_filter {q : κ → Bool} (hk : q k = true) (l : List (κ × ν)) :
    lookup k (l.filter fun p => q p.1) = lookup k l := by
  induction l with
  | nil => rfl
  | cons p l ih =>
    obtain ⟨k', v⟩ := p
    by_cases h : k' = k
    · simp [lookup, h, hk]
    · cases hq : q k' with
      | true | false => simp [lookup, h, hq, ih]

/-! ## Sums over the bindings -/

section Sum

variable (f : κ → ν → ℕ)

omit [DecidableEq κ] in
/-- The sum of a measure over the bindings. -/
def sum (m : JsMap κ ν) : ℕ := (m.entries.map fun p => f p.1 p.2).sum

lemma sum_set_of_get?_none {m : JsMap κ ν} (h : m.get? k = none) (v : ν) :
    (m.set k v).sum f = m.sum f + f k v := by
  rw [sum, entries_set_of_get?_none h, map_append, sum_append]
  simp [sum]

lemma sum_delete {m : JsMap κ ν} (h : m.get? k = some v) :
    (m.delete k).sum f + f k v = m.sum f := by
  have hsum : ∀ l : List (κ × ν), (l.map Prod.fst).Nodup → lookup k l = some v →
      ((l.filter fun p => p.1 ≠ k).map fun p => f p.1 p.2).sum + f k v =
        (l.map fun p => f p.1 p.2).sum := by
    intro l
    induction l with
    | nil => simp [lookup]
    | cons p l ih =>
      obtain ⟨k', v'⟩ := p
      intro hnodup hlookup
      rw [map_cons, nodup_cons] at hnodup
      by_cases hk : k' = k
      · subst hk
        have hfilter : l.filter (fun p => p.1 ≠ k') = l := by
          rw [filter_eq_self]
          intro p hp
          have hne : p.1 ≠ k' := by
            intro heq
            exact hnodup.1 (List.mem_map.mpr ⟨p, hp, heq⟩)
          simpa using hne
        rw [lookup, if_pos rfl] at hlookup
        cases hlookup
        rw [filter_cons_of_neg (by simp), hfilter, map_cons, sum_cons, Nat.add_comm]
      · rw [lookup, if_neg hk] at hlookup
        rw [filter_cons_of_pos (by simpa using hk), map_cons, map_cons,
          sum_cons, sum_cons, Nat.add_assoc, ih hnodup.2 hlookup]
  exact hsum m.entries m.nodup h

end Sum

/-! ## Indexing a list -/

section Index

variable {α : Type*} (key : α → κ)

/-- The index of a list by a key: the last element with a key is the one found. -/
def index (as : List α) : JsMap κ α := as.foldl (fun m a => m.set (key a) a) empty

@[simp] lemma index_nil : index key ([] : List α) = empty := rfl

lemma index_append_singleton (as : List α) (a : α) :
    index key (as ++ [a]) = (index key as).set (key a) a := by
  simp [index]

variable {as : List α}

lemma mem_of_get?_index {a : α} (h : (index key as).get? k = some a) : a ∈ as ∧ key a = k := by
  induction as using reverseRecOn with
  | nil => simp at h
  | append_singleton as b ih =>
    rw [index_append_singleton, get?_set] at h
    split_ifs at h with hb
    · cases h
      exact ⟨by simp, hb⟩
    · obtain ⟨ha, hk⟩ := ih h
      exact ⟨by simp [ha], hk⟩

lemma get?_index_eq_none_iff : (index key as).get? k = none ↔ ∀ a ∈ as, key a ≠ k := by
  induction as using reverseRecOn with
  | nil => simp
  | append_singleton as b ih =>
    rw [index_append_singleton, get?_set]
    by_cases hb : key b = k
    · simp only [hb, if_true, reduceCtorEq, mem_append, mem_singleton, false_iff]
      intro h
      exact h b (.inr rfl) hb
    · simp only [hb, if_false, ih, mem_append, mem_singleton]
      exact ⟨fun h a ha => ha.elim (h a) (fun he => he ▸ hb), fun h a ha => h a (.inl ha)⟩

/-- With distinct keys the index finds every element. -/
theorem get?_index_of_mem (hnd : (as.map key).Nodup) {a : α} (ha : a ∈ as) :
    (index key as).get? (key a) = some a := by
  cases h : (index key as).get? (key a) with
  | none => exact absurd rfl ((get?_index_eq_none_iff key).mp h a ha)
  | some b =>
    obtain ⟨hb, hk⟩ := mem_of_get?_index key h
    rw [inj_on_of_nodup_map hnd hb ha hk]

lemma size_index (hnd : (as.map key).Nodup) : (index key as).size = as.length := by
  induction as using reverseRecOn with
  | nil => rfl
  | append_singleton as a ih =>
    rw [map_append, nodup_append] at hnd
    have hnone : (index key as).get? (key a) = none := by
      rw [get?_index_eq_none_iff]
      exact fun b hb => hnd.2.2 _ (mem_map_of_mem hb) _ (by simp)
    have ih := ih hnd.1
    rw [size] at ih
    rw [index_append_singleton, size, entries_set_of_get?_none hnone, length_append, ih]
    simp

lemma keys_index (as : List α) : (index key as).keys = (index key as).values.map key := by
  rw [keys, values, map_map]
  refine map_congr_left fun p hp => ?_
  exact (mem_of_get?_index key (mem_entries_iff.mp hp)).2.symm

/-- The index has the list itself exactly when its keys are distinct. -/
theorem values_index_iff : (index key as).values = as ↔ (as.map key).Nodup := by
  constructor
  · intro h
    have hkeys := keys_index key as
    rw [h] at hkeys
    exact hkeys ▸ (index key as).nodup
  · intro hnd
    induction as using reverseRecOn with
    | nil => rfl
    | append_singleton as a ih =>
      rw [map_append, nodup_append] at hnd
      have hnone : (index key as).get? (key a) = none := by
        rw [get?_index_eq_none_iff]
        exact fun b hb => hnd.2.2 _ (mem_map_of_mem hb) _ (by simp)
      have ih := ih hnd.1
      rw [values] at ih
      rw [index_append_singleton, values, entries_set_of_get?_none hnone, map_append, ih]
      rfl

end Index

end JsMap
