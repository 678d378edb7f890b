import Mathlib.Data.List.Nodup
import Mathlib.Data.List.TakeWhile

/-!
# Lists with distinct keys

A search by key in a list none of whose keys occurs twice: where the search stops, and what the
stretches before and after that place are.
-/

namespace KeyedList

open List

variable {α κ : Type*} [DecidableEq κ] {key : α → κ}
variable {pre post : List α} {a : α}

/-- Scanning for the key of an element leads to that element. -/
theorem dropWhile_key_append (hnd : ((pre ++ a :: post).map key).Nodup) :
    (pre ++ a :: post).dropWhile (fun b => key b ≠ key a) = a :: post := by
  induction pre with
  | nil => simp
  | cons b pre ih =>
    simp only [cons_append, map_cons, nodup_cons] at hnd
    have hb : key b ≠ key a := fun h => hnd.1 (h ▸ mem_map_of_mem (by simp))
    simp only [cons_append, dropWhile_cons, hb, ne_eq, not_false_eq_true, decide_true, if_true]
    exact ih hnd.2

lemma dropWhile_key_of_notMem {l : List α} {k : κ} (h : ∀ a ∈ l, key a ≠ k) :
    l.dropWhile (fun b => key b ≠ k) = [] := by
  rw [dropWhile_eq_nil_iff]
  intro a ha
  simp [h a ha]

/-- A scan by index for the key of an element stops at that element. -/
theorem findIdx?_key_append (hnd : ((pre ++ a :: post).map key).Nodup) :
    (pre ++ a :: post).findIdx? (fun b => key b = key a) = some pre.length := by
  induction pre with
  | nil => simp [findIdx?_cons]
  | cons b pre ih =>
    simp only [cons_append, map_cons, nodup_cons] at hnd
    have hb : key b ≠ key a := fun h => hnd.1 (h ▸ mem_map_of_mem (by simp))
    simp [findIdx?_cons, hb, ih hnd.2]

omit [DecidableEq κ] in
lemma key_ne_of_mem_left {b : α} (hnd : ((pre ++ a :: post).map key).Nodup) (hb : b ∈ pre) :
    key b ≠ key a := by
  rw [map_append, map_cons, nodup_append] at hnd
  exact hnd.2.2 _ (mem_map_of_mem hb) _ (by simp)

omit [DecidableEq κ] in
lemma key_ne_of_mem_right {b : α} (hnd : ((pre ++ a :: post).map key).Nodup) (hb : b ∈ post) :
    key b ≠ key a := by
  rw [map_append, map_cons, nodup_append, nodup_cons] at hnd
  exact fun h => hnd.2.1.1 (h ▸ mem_map_of_mem hb)

/-- An element is taken out by its key. -/
theorem perm_cons_filter_key {l : List α} (hnd : (l.map key).Nodup) (ha : a ∈ l) :
    l.Perm (a :: l.filter fun b => key b ≠ key a) := by
  obtain ⟨pre, post, rfl⟩ := mem_iff_append.mp ha
  have hpre : pre.filter (fun b => key b ≠ key a) = pre :=
    filter_eq_self.mpr fun b hb => decide_eq_true (key_ne_of_mem_left hnd hb)
  have hpost : post.filter (fun b => key b ≠ key a) = post :=
    filter_eq_self.mpr fun b hb => decide_eq_true (key_ne_of_mem_right hnd hb)
  rw [filter_append, filter_cons, hpre, hpost]
  simp

end KeyedList
