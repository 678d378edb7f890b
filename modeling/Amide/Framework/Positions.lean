import Mathlib.Data.List.Basic
import Mathlib.Tactic.Common

/-!
# Positions of a list

What stands where, once an element has been put behind a list, in place of another or has been
changed (`getElem?_concat_iff`, `getElem?_set_cases`, `getElem?_modify_cases`), and what such a
change makes of a filtered list and of a count.
-/

namespace Positions

open List

variable {α : Type*} {l : List α} {a b : α} {f : α → α} {i j : ℕ}

lemma getElem?_concat_iff : (l ++ [a])[i]? = some b ↔ l[i]? = some b ∨ i = l.length ∧ b = a := by
  rcases Nat.lt_trichotomy i l.length with hlt | rfl | hgt
  · rw [getElem?_append_left hlt]
    simp [Nat.ne_of_lt hlt]
  · simp [eq_comm]
  · rw [getElem?_eq_none (by rw [length_append]; exact hgt),
      getElem?_eq_none (Nat.le_of_lt hgt)]
    simp [Nat.ne_of_gt hgt]

lemma getElem?_set_cases (h : (l.set i a)[j]? = some b) :
    i = j ∧ b = a ∨ i ≠ j ∧ l[j]? = some b := by
  rw [getElem?_set] at h
  split_ifs at h with hij hlt
  · exact .inl ⟨hij, (Option.some.inj h).symm⟩
  · exact .inr ⟨hij, h⟩

lemma getElem?_modify_cases (ha : l[i]? = some a) (h : (l.modify i f)[j]? = some b) :
    i = j ∧ b = f a ∨ i ≠ j ∧ l[j]? = some b := by
  rcases eq_or_ne i j with rfl | hij
  · rw [getElem?_modify_eq, ha] at h
    exact .inl ⟨rfl, (Option.some.inj h).symm⟩
  · rw [getElem?_modify_ne _ _ hij] at h
    exact .inr ⟨hij, h⟩

/-! ## A list that is changed at one position -/

variable {β : Type*} {g : α → Option β} {y z : β}

lemma exists_modify (h : l[i]? = some a) (f : α → α) :
    ∃ l₁ l₂, l = l₁ ++ a :: l₂ ∧ l.modify i f = l₁ ++ f a :: l₂ := by
  obtain ⟨hi, rfl⟩ := List.getElem?_eq_some_iff.mp h
  exact ⟨l.take i, l.drop (i + 1), (take_append_drop i l).symm.trans (by simp),
    modify_eq_take_cons_drop hi⟩

lemma filterMap_modify (h : ∀ a, g (f a) = g a) : (l.modify i f).filterMap g = l.filterMap g := by
  cases hi : l[i]? with
  | none => rw [modify_eq_self (List.getElem?_eq_none_iff.mp hi)]
  | some a =>
    obtain ⟨l₁, l₂, rfl, heq⟩ := exists_modify hi f
    rw [heq, filterMap_append, filterMap_append, filterMap_cons, filterMap_cons, h]

/-- What is put in where nothing was. -/
lemma filterMap_modify_perm (hi : l[i]? = some a) (hnone : g a = none)
    (hsome : g (f a) = some y) : ((l.modify i f).filterMap g).Perm (l.filterMap g ++ [y]) := by
  obtain ⟨l₁, l₂, rfl, heq⟩ := exists_modify hi f
  rw [heq, filterMap_append, filterMap_append, filterMap_cons_none hnone, filterMap_cons_some hsome]
  exact perm_middle.trans (perm_append_singleton _ _).symm

/-- What takes the place of something else. -/
lemma length_filterMap_modify (hi : l[i]? = some a) (hsome : g a = some z)
    (hsome' : g (f a) = some y) : ((l.modify i f).filterMap g).length = (l.filterMap g).length := by
  obtain ⟨l₁, l₂, rfl, heq⟩ := exists_modify hi f
  rw [heq, filterMap_append, filterMap_append, filterMap_cons_some hsome,
    filterMap_cons_some hsome']
  simp

lemma countP_modify (p : α → Bool) (h : l[i]? = some a) (f : α → α) :
    (l.modify i f).countP p + (p a).toNat = l.countP p + (p (f a)).toNat := by
  obtain ⟨l₁, l₂, rfl, heq⟩ := exists_modify h f
  rw [heq, countP_append, countP_append, countP_cons, countP_cons]
  cases p a <;> cases p (f a) <;> simp [Nat.add_assoc]

end Positions
