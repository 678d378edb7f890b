import Mathlib.Data.List.InsertIdx
import Mathlib.Data.List.Nodup

/-!
# The order of a list without duplicates

`[a, b].Sublist l` says that `a` stands before `b` in `l`.  Of two elements one stands before the
other, and where nothing is listed twice only one does.  What is put in at the place of the `k`-th
element with a property is the `k`-th of those with it (`filter_insertIdx_idxOf`).
-/

namespace ListOrder

open List

variable {α : Type*} {a b x : α} {l l' : List α} {p : α → Bool} {k : ℕ}

lemma pair_sublist_or (hne : a ≠ b) (ha : a ∈ l) (hb : b ∈ l) :
    [a, b].Sublist l ∨ [b, a].Sublist l := by
  obtain ⟨before, after, rfl⟩ := append_of_mem ha
  rcases mem_append.mp hb with hb | hb
  · refine .inr (List.Sublist.append (singleton_sublist.mpr hb) ?_)
    exact singleton_sublist.mpr mem_cons_self
  · rcases mem_cons.mp hb with rfl | hb
    · exact absurd rfl hne
    · exact .inl (((singleton_sublist.mpr hb).cons_cons a).trans
        (sublist_append_right before _))

lemma not_pair_sublist (hnodup : l.Nodup) (h : [a, b].Sublist l) : ¬ [b, a].Sublist l := by
  induction l with
  | nil => cases h
  | cons c l ih =>
    obtain ⟨hc, hnodup⟩ := nodup_cons.mp hnodup
    intro h'
    cases h with
    | cons _ h =>
      cases h' with
      | cons _ h' => exact ih hnodup h h'
      | cons_cons _ h' => exact hc (h.subset (mem_cons_of_mem a (mem_singleton_self b)))
    | cons_cons _ h =>
      cases h' with
      | cons _ h' => exact hc (h'.subset (mem_cons_of_mem b (mem_singleton_self a)))
      | cons_cons _ h' => exact hc (singleton_sublist.mp h)

/-- Of what does not stand behind an element, the rest stands before it. -/
theorem pair_sublist_of_not (hne : a ≠ b) (ha : a ∈ l) (hb : b ∈ l) (h : ¬ [b, a].Sublist l) :
    [a, b].Sublist l :=
  (pair_sublist_or hne ha hb).resolve_right h

/-! ## Putting an element in -/

lemma filter_insertIdx_of_false (hx : p x = false) (l : List α) (k : ℕ) :
    (l.insertIdx k x).filter p = l.filter p := by
  induction l generalizing k with
  | nil =>
    cases k with
    | zero => simp [hx]
    | succ k => rfl
  | cons y l ih =>
    cases k with
    | zero => rw [insertIdx_zero, filter_cons_of_neg (by simp [hx])]
    | succ k => rw [insertIdx_succ_cons, filter_cons, filter_cons, ih]

lemma insertIdx_eq_append (h : k ≤ l.length) (x : α) :
    l.insertIdx k x = l.take k ++ x :: l.drop k := by
  induction l generalizing k with
  | nil =>
    rw [length_nil, Nat.le_zero] at h
    rw [h]
    rfl
  | cons y l ih =>
    cases k with
    | zero => rfl
    | succ k => rw [insertIdx_succ_cons, ih (Nat.le_of_succ_le_succ h), take_succ_cons,
        drop_succ_cons, cons_append]

/-- Swapping what has not the property leaves those that have it as they are. -/
theorem filter_set_of_false {i : ℕ} (hi : ∀ y, l[i]? = some y → p y = false) (hx : p x = false) :
    (l.set i x).filter p = l.filter p := by
  induction l generalizing i with
  | nil => rfl
  | cons y l ih =>
    cases i with
    | zero =>
      have hy := hi y rfl
      rw [set_cons_zero, filter_cons_of_neg (by simp [hx]),
        filter_cons_of_neg (by simp [hy])]
    | succ i =>
      have hrest : ∀ z, l[i]? = some z → p z = false := fun z hz => hi z (by simpa using hz)
      rw [set_cons_succ, filter_cons, filter_cons, ih hrest]

lemma filter_insertIdx_idxOf [BEq α] [LawfulBEq α] (hnodup : l.Nodup)
    (h : (l.filter p)[k]? = some x) (ha : p a = true) :
    (l.insertIdx (l.idxOf x) a).filter p = (l.filter p).insertIdx k a := by
  induction l generalizing k with
  | nil => cases h
  | cons y l ih =>
    obtain ⟨hy, hnodup⟩ := nodup_cons.mp hnodup
    have hrest {k : ℕ} (h : (l.filter p)[k]? = some x) : (y == x) = false := by
      rw [beq_eq_false_iff_ne]
      rintro rfl
      exact hy (mem_of_mem_filter (mem_of_getElem? h))
    by_cases hp : p y = true
    · rw [filter_cons_of_pos hp] at h ⊢
      cases k with
      | zero =>
        cases h
        rw [idxOf_cons_self, insertIdx_zero, insertIdx_zero,
          filter_cons_of_pos ha, filter_cons_of_pos hp]
      | succ k =>
        have h' : (l.filter p)[k]? = some x := by simpa using h
        rw [idxOf_cons, hrest h', cond_false, insertIdx_succ_cons,
          filter_cons_of_pos hp, ih hnodup h', insertIdx_succ_cons]
    · rw [filter_cons_of_neg hp] at h ⊢
      rw [idxOf_cons, hrest h, cond_false, insertIdx_succ_cons, filter_cons_of_neg hp, ih hnodup h]

/-- What is put in before the first element with the property comes behind one that no element up to
it has. -/
theorem pair_sublist_insertIdx_findIdx {before after : List α} (hbefore : ∀ c ∈ before, p c = false)
    (ha : p a = false) : [a, b].Sublist
      ((before ++ a :: after).insertIdx ((before ++ a :: after).findIdx p) b) := by
  induction before with
  | nil =>
    rw [nil_append, findIdx_cons, ha, cond_false, insertIdx_succ_cons]
    refine (singleton_sublist.mpr ?_).cons_cons a
    rw [insertIdx_eq_append findIdx_le_length]
    exact mem_append_right _ mem_cons_self
  | cons c before ih =>
    obtain ⟨hc, hbefore⟩ := forall_mem_cons.mp hbefore
    rw [cons_append, findIdx_cons, hc, cond_false, insertIdx_succ_cons]
    exact (ih hbefore).cons c

/-! ## An element with what is in front of it -/

section Splits

variable {P : List α → α → Prop}

lemma exists_split_concat_iff : (∃ before a after, l ++ [x] = before ++ a :: after ∧ P before a) ↔
    (∃ before a after, l = before ++ a :: after ∧ P before a) ∨ P l x := by
  constructor
  · rintro ⟨before, a, after, hsplit, h⟩
    rcases eq_nil_or_concat after with rfl | ⟨after, last, rfl⟩
    · obtain ⟨rfl, hlast⟩ := append_inj' hsplit rfl
      cases hlast
      exact .inr h
    · rw [concat_eq_append, ← cons_append, ← append_assoc] at hsplit
      exact .inl ⟨before, a, after, (append_inj' hsplit rfl).1, h⟩
  · rintro (⟨before, a, after, rfl, h⟩ | h)
    · exact ⟨before, a, after ++ [x], by simp, h⟩
    · exact ⟨l, x, [], rfl, h⟩

lemma forall_split_concat_iff : (∀ before a after, l ++ [x] = before ++ a :: after → P before a) ↔
    (∀ before a after, l = before ++ a :: after → P before a) ∧ P l x := by
  have hnot := (exists_split_concat_iff (l := l) (x := x) (P := fun before a => ¬ P before a)).not
  push Not at hnot
  exact hnot

end Splits

end ListOrder
