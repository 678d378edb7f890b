import Mathlib.Data.List.Basic

/-!
# Lines of a stream

What a separator ends of a list (`Lines.ended`) and what is left behind the last one
(`Lines.unended`) make up `List.splitOn`.  Of a list that comes in two parts they follow from those
of the first part and from the second one (`Lines.append_unended`).
-/

namespace Lines

open List

variable {α : Type*} [DecidableEq α] (x : α) {line rest s t : List α}

/-- The pieces that end in the separator. -/
def ended (s : List α) : List (List α) := (s.splitOn x).dropLast

/-- What stands behind the last separator. -/
def unended (s : List α) : List α := (s.splitOn x).getLast (splitOn_ne_nil x s)

lemma ended_append_unended (s : List α) : ended x s ++ [unended x s] = s.splitOn x :=
  dropLast_append_getLast _

variable {x}

lemma ended_of_notMem (h : x ∉ s) : ended x s = [] := by
  rw [ended, splitOn_eq_singleton h]
  rfl

lemma unended_of_notMem (h : x ∉ s) : unended x s = s := by
  simp only [unended, splitOn_eq_singleton h, getLast_singleton]

lemma ended_line (h : x ∉ line) : ended x (line ++ x :: rest) = line :: ended x rest := by
  rw [ended, splitOn_append_cons_self_of_not_mem h, dropLast_cons_of_ne_nil (splitOn_ne_nil x rest)]
  rfl

lemma unended_line (h : x ∉ line) : unended x (line ++ x :: rest) = unended x rest := by
  simp only [unended, splitOn_append_cons_self_of_not_mem h, getLast_cons (splitOn_ne_nil x rest)]

lemma findIdx?_of_notMem (h : x ∉ s) : s.findIdx? (· = x) = none := by
  rw [findIdx?_eq_none_iff]
  intro y hy
  rw [decide_eq_false_iff_not]
  rintro rfl
  exact h hy

lemma findIdx?_line (h : x ∉ line) : (line ++ x :: rest).findIdx? (· = x) = some line.length := by
  have hhere : (x :: rest).findIdx? (· = x) = some 0 := by
    rw [findIdx?_cons, decide_eq_true rfl, if_pos rfl]
  rw [findIdx?_append, findIdx?_of_notMem h, hhere, Option.map_some, Nat.zero_add]
  rfl

/-- A list is one line that is not ended, or a line that is and more. -/
theorem notMem_or_exists_line (x : α) (s : List α) :
    x ∉ s ∨ ∃ line rest, x ∉ line ∧ s = line ++ x :: rest := by
  by_cases hmem : x ∈ s
  · obtain ⟨line, rest, rfl, hline⟩ := eq_append_cons_of_mem hmem
    exact .inr ⟨line, rest, hline, rfl⟩
  · exact .inl hmem

lemma append_unended (x : α) (s t : List α) : ended x (s ++ t) =
      ended x s ++ ended x (unended x s ++ t) ∧
    unended x (s ++ t) = unended x (unended x s ++ t) := by
  induction hlen : s.length using Nat.strongRecOn generalizing s with
  | _ n ih =>
    rcases notMem_or_exists_line x s with hmem | ⟨line, rest, hline, rfl⟩
    · rw [ended_of_notMem hmem, unended_of_notMem hmem]
      exact ⟨rfl, rfl⟩
    · have hshorter : rest.length < n := by
        rw [← hlen, length_append, length_cons]
        omega
      obtain ⟨hended, hunended⟩ := ih _ hshorter rest rfl
      rw [append_assoc, cons_append, ended_line hline, ended_line hline,
        unended_line hline, unended_line hline, hended, hunended]
      exact ⟨rfl, rfl⟩

lemma notMem_unended (x : α) (s : List α) : x ∉ unended x s := by
  induction hlen : s.length using Nat.strongRecOn generalizing s with
  | _ n ih =>
    rcases notMem_or_exists_line x s with hmem | ⟨line, rest, hline, rfl⟩
    · rwa [unended_of_notMem hmem]
    · rw [unended_line hline]
      refine ih _ ?_ rest rfl
      rw [← hlen, length_append, length_cons]
      omega

end Lines
