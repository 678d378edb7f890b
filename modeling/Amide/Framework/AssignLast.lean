import Mathlib.Data.List.Basic
import Mathlib.Data.List.Induction

/-!
# Assignments to the last element with a key

A list some of whose elements carry a key, and an update that gives, for each key it has a value
for, that value to the last element with the key.  Updates compose (`assign_assign`), so that a
sequence of single assignments is one update (`foldl_assignOne`), and an update does not see what
is appended behind the keys it assigns (`assign_concat_of_key_none`, `assign_concat_of_none`).
-/

namespace AssignLast

variable {α κ ν : Type*} [DecidableEq κ] (key : α → Option κ) (put : ν → α → α)

/-- An element in front of the given ones, with its value if it is the last with its key. -/
def assignHead (f : κ → Option ν) (a : α) (as : List α) : α :=
  match key a with
  | none => a
  | some k =>
    if some k ∈ as.map key then a else (f k).elim a (put · a)

def assign (f : κ → Option ν) : List α → List α
  | [] => []
  | a :: as => assignHead key put f a as :: assign f as

/-- The assignment of one value. -/
def one (k : κ) (v : ν) : κ → Option ν := fun k' => if k' = k then some v else none

/-- The last value each key is given. -/
def latest (kvs : List (κ × ν)) : κ → Option ν :=
  kvs.foldl (fun f kv k => (one kv.1 kv.2 k).or (f k)) fun _ => none

lemma latest_concat (kvs : List (κ × ν)) (kv : κ × ν) :
    latest (kvs ++ [kv]) = fun k => (one kv.1 kv.2 k).or (latest kvs k) := by
  simp [latest]

variable {k : κ}

lemma latest_eq_none_iff {kvs : List (κ × ν)} : latest kvs k = none ↔ k ∉ kvs.map Prod.fst := by
  induction kvs using List.reverseRecOn with
  | nil => simp [latest]
  | append_singleton kvs kv ih =>
    rw [latest_concat]
    by_cases h : k = kv.1
    · simp [one, h]
    · simp [one, h, ih]

variable {key put}

@[simp] lemma assign_nil (f : κ → Option ν) : assign key put f [] = [] := rfl

@[simp] lemma assign_cons (f : κ → Option ν) (a : α) (as : List α) :
    assign key put f (a :: as) = assignHead key put f a as :: assign key put f as := rfl

variable {f : κ → Option ν}
variable (as : List α)

lemma assignHead_of_key_none {a : α} (h : key a = none) : assignHead key put f a as = a := by
  simp [assignHead, h]

lemma assignHead_of_key_some {a : α} (h : key a = some k) : assignHead key put f a as =
      if some k ∈ as.map key then a else (f k).elim a (put · a) := by
  simp [assignHead, h]

variable (key put) in
lemma assignHead_eq_or (f : κ → Option ν) (a : α) (as : List α) :
    assignHead key put f a as = a ∨ ∃ v, assignHead key put f a as = put v a := by
  cases hk : key a with
  | none => exact .inl (assignHead_of_key_none as hk)
  | some k =>
    rw [assignHead_of_key_some as hk]
    cases f k with
    | none => exact .inl (ite_self a)
    | some v =>
      by_cases hmem : some k ∈ as.map key
      · exact .inl (if_pos hmem)
      · exact .inr ⟨v, if_neg hmem⟩

/-- An update changes values only. -/
theorem map_assign {β : Type*} (g : α → β) (hg : ∀ v a, g (put v a) = g a) (f : κ → Option ν)
    (as : List α) : (assign key put f as).map g = as.map g := by
  induction as with
  | nil => rfl
  | cons a as ih =>
    rcases assignHead_eq_or key put f a as with h | ⟨v, h⟩
    · simp [h, ih]
    · simp [h, ih, hg]

lemma filterMap_assign {β : Type*} (g : α → Option β) (hg : ∀ v a, g (put v a) = g a)
    (f : κ → Option ν) (as : List α) :
    (assign key put f as).filterMap g = as.filterMap g := by
  have hid : ∀ bs : List α, bs.filterMap g = (bs.map g).filterMap id := fun bs => by
    rw [List.filterMap_map, Function.id_comp]
  rw [hid, hid, map_assign g hg f as]

lemma assign_assign (hkey : ∀ v a, key (put v a) = key a)
    (hput : ∀ v w a, put v (put w a) = put v a) (f g : κ → Option ν) (as : List α) :
    assign key put f (assign key put g as) = assign key put (fun k => (f k).or (g k)) as := by
  induction as with
  | nil => rfl
  | cons a as ih =>
    have hkeys : (assign key put g as).map key = as.map key := map_assign key hkey g as
    rw [assign_cons, assign_cons, assign_cons, ih]
    cases hk : key a with
    | none => rw [assignHead_of_key_none as hk, assignHead_of_key_none _ hk,
        assignHead_of_key_none as hk]
    | some k =>
      have hk' : key (assignHead key put g a as) = some k := by
        rcases assignHead_eq_or key put g a as with h | ⟨v, h⟩
        · rw [h, hk]
        · rw [h, hkey, hk]
      rw [assignHead_of_key_some _ hk', hkeys, assignHead_of_key_some as hk,
        assignHead_of_key_some as hk]
      by_cases hmem : some k ∈ as.map key
      · simp only [if_pos hmem]
      · simp only [if_neg hmem]
        cases hf : f k <;> cases hg : g k <;> simp [hput]

lemma assign_self (hkey : ∀ v a, key (put v a) = key a)
    (hput : ∀ v w a, put v (put w a) = put v a) (f : κ → Option ν) (as : List α) :
    assign key put f (assign key put f as) = assign key put f as := by
  simp [assign_assign hkey hput]

/-- An update commutes with a filter that keeps every element with a key, its key and what the
update does to it. -/
theorem assign_filterMap {g : α → Option α} (hdrop : ∀ a, g a = none → key a = none)
    (hkey : ∀ a b, g a = some b → key b = key a)
    (hput : ∀ v a b, g a = some b → g (put v a) = some (put v b)) (f : κ → Option ν)
    (as : List α) :
    assign key put f (as.filterMap g) = (assign key put f as).filterMap g := by
  have hmem : ∀ (k : κ) (as : List α), some k ∈ (as.filterMap g).map key ↔ some k ∈ as.map key := by
    intro k as
    induction as with
    | nil => rfl
    | cons a as ih =>
      cases ha : g a with
      | none => simp [ha, hdrop a ha, ih]
      | some b => simp [ha, hkey a b ha, ih]
  induction as with
  | nil => rfl
  | cons a as ih =>
    cases ha : g a with
    | none =>
      rw [assign_cons, assignHead_of_key_none as (hdrop a ha)]
      simpa [ha] using ih
    | some b =>
      have hhead : g (assignHead key put f a as) =
          some (assignHead key put f b (as.filterMap g)) := by
        cases hk : key a with
        | none =>
          rw [assignHead_of_key_none as hk, ha, assignHead_of_key_none _ ((hkey a b ha).trans hk)]
        | some k =>
          rw [assignHead_of_key_some as hk, assignHead_of_key_some _ ((hkey a b ha).trans hk)]
          simp only [hmem]
          by_cases hmem' : some k ∈ as.map key
          · simp only [if_pos hmem', ha]
          · simp only [if_neg hmem']
            cases f k with
            | none => exact ha
            | some v => exact hput v a b ha
      rw [assign_cons, List.filterMap_cons, List.filterMap_cons, ha, hhead]
      rw [assign_cons, ih]

/-- An update commutes with a map that keeps keys and values apart from it. -/
theorem assign_map {g : α → α} (hkey : ∀ a, key (g a) = key a)
    (hput : ∀ v a, put v (g a) = g (put v a)) (f : κ → Option ν) (as : List α) :
    assign key put f (as.map g) = (assign key put f as).map g := by
  rw [← List.filterMap_eq_map]
  refine assign_filterMap (fun a h => ?_) (fun a b h => ?_) (fun v a b h => ?_) f as
  · cases h
  · rw [← Option.some.inj h, hkey]
  · rw [← Option.some.inj h, hput]
    rfl

lemma assign_of_notMem {as : List α} (h : ∀ a ∈ as, ∀ k ∈ key a, f k = none) :
    assign key put f as = as := by
  induction as with
  | nil => rfl
  | cons a as ih =>
    have ih := ih fun b hb => h b (by simp [hb])
    have ha : assignHead key put f a as = a := by
      unfold assignHead
      cases hk : key a with
      | none => rfl
      | some k => simp [h a (by simp) k hk]
    rw [assign_cons, ha, ih]

lemma assign_concat_of_key_none {b : α} (h : key b = none) :
    assign key put f (as ++ [b]) = assign key put f as ++ [b] := by
  induction as with
  | nil => simp [assignHead_of_key_none [] h]
  | cons a as ih => simp [ih, assignHead, h]

lemma assign_concat_of_none {b : α} (hb : key b = some k) (h : f k = none) :
    assign key put f (as ++ [b]) = assign key put f as ++ [b] := by
  induction as with
  | nil => simp [assignHead, hb, h]
  | cons a as ih =>
    have ha : assignHead key put f a (as ++ [b]) = assignHead key put f a as := by
      unfold assignHead
      cases hk : key a with
      | none => rfl
      | some k' =>
        by_cases hkk : k' = k
        · subst hkk
          simp [h]
        · simp [hb, hkk]
    rw [List.cons_append, assign_cons, assign_cons, ha, ih, List.cons_append]

/-- An assignment to the key of the last element reaches that element only. -/
theorem assign_one_concat {b : α} (v : ν) (as : List α) (hb : key b = some k) :
    assign key put (one k v) (as ++ [b]) = as ++ [put v b] := by
  induction as with
  | nil => simp [assignHead, hb, one]
  | cons a as ih =>
    have ha : assignHead key put (one k v) a (as ++ [b]) = a := by
      cases hk : key a with
      | none => exact assignHead_of_key_none _ hk
      | some k' =>
        rw [assignHead_of_key_some _ hk]
        by_cases hkk : k' = k <;> simp [hb, hkk, one]
    rw [List.cons_append, assign_cons, ha, ih, List.cons_append]

/-- Single assignments in sequence are one update: the last for a key counts. -/
theorem foldl_assignOne (hkey : ∀ v a, key (put v a) = key a)
    (hput : ∀ v w a, put v (put w a) = put v a) (kvs : List (κ × ν)) (as : List α) :
    kvs.foldl (fun as kv => assign key put (one kv.1 kv.2) as) as =
      assign key put (latest kvs) as := by
  induction kvs using List.reverseRecOn with
  | nil => exact (assign_of_notMem fun _ _ _ _ => rfl).symm
  | append_singleton kvs kv ih =>
    rw [List.foldl_append, List.foldl_cons, List.foldl_nil, ih, assign_assign hkey hput,
      latest_concat]

end AssignLast
