import Mathlib.Data.List.Infix

/-!
# The first occurrence of a pattern

`indexOf pattern s` is where `pattern` occurs first in `s`.  That an occurrence behind `before` is
the first one does not depend on what follows it (`First`), so a search that has found something
finds the same when the text grows (`indexOf_append`).

`splitBy` divides a list around a pattern, looking for each occurrence behind the one before: it
counts occurrences that do not overlap (`two_lt_length_splitAround`).
-/

namespace Occurrence

open List

variable {α : Type*} [DecidableEq α] {pattern before after s : List α}

def indexOf (pattern : List α) : List α → Option ℕ
  | [] => if pattern = [] then some 0 else none
  | c :: rest =>
    if pattern.isPrefixOf (c :: rest) then some 0 else (indexOf pattern rest).map (· + 1)

lemma length_add_le_of_indexOf {i : ℕ} (h : indexOf pattern s = some i) :
    i + pattern.length ≤ s.length := by
  induction s generalizing i with
  | nil =>
    rw [indexOf] at h
    split_ifs at h with hpattern
    · cases h
      simp [hpattern]
  | cons c rest ih =>
    rw [indexOf] at h
    split_ifs at h with hbegins
    · cases h
      simpa using (List.isPrefixOf_iff_prefix.1 hbegins).length_le
    · obtain ⟨j, hj, rfl⟩ := Option.map_eq_some_iff.1 h
      have hle := ih hj
      rw [length_cons]
      omega

omit [DecidableEq α] in
/-- An occurrence of `pattern` behind `before` is the first there is. -/
def First (pattern before : List α) : Prop := ¬ pattern <:+: before ++ pattern.dropLast

omit [DecidableEq α] in
lemma First.pattern_ne_nil (h : First pattern before) : pattern ≠ [] := by
  rintro rfl
  exact h nil_infix

omit [DecidableEq α] in
lemma First.of_append {a : List α} (h : First pattern (a ++ before)) : First pattern before := by
  intro hinside
  refine h ?_
  rw [append_assoc]
  exact infix_append_of_infix_right hinside

omit [DecidableEq α] in
lemma First.notMem (h : First pattern before) : ¬ pattern <:+: before :=
  fun hinside => h (infix_append_of_infix_left hinside)

omit [DecidableEq α] in
/-- No occurrence begins where `before` does. -/
lemma First.not_prefix {c : α} (h : First pattern (c :: before)) (after : List α) :
    ¬ pattern <+: c :: before ++ (pattern ++ after) := by
  intro hbegins
  have hpos := length_pos_of_ne_nil h.pattern_ne_nil
  refine h (IsPrefix.isInfix (prefix_of_prefix_length_le hbegins ?_ ?_))
  · rw [prefix_append_right_inj]
    exact (List.dropLast_prefix pattern).trans (prefix_append _ _)
  · rw [length_append, length_cons, length_dropLast]
    omega

/-- What follows the first occurrence does not matter to the search. -/
theorem indexOf_append (h : First pattern before) (after : List α) :
    indexOf pattern (before ++ (pattern ++ after)) = some before.length := by
  induction before with
  | nil =>
    obtain ⟨c, rest, rfl⟩ := exists_cons_of_ne_nil h.pattern_ne_nil
    rw [nil_append, cons_append, indexOf, if_pos]
    · rfl
    · exact isPrefixOf_iff_prefix.2 (prefix_append (c :: rest) after)
  | cons c before ih =>
    have hnot := h.not_prefix after
    rw [← isPrefixOf_iff_prefix] at hnot
    rw [cons_append] at hnot ⊢
    have hrest : First pattern before := First.of_append (a := [c]) h
    rw [indexOf, if_neg hnot, ih hrest]
    rfl

lemma First.unique {before' after' : List α} (h : First pattern before)
    (h' : First pattern before')
    (heq : before ++ (pattern ++ after) = before' ++ (pattern ++ after')) :
    before = before' ∧ after = after' := by
  have hidx := indexOf_append h after
  rw [heq, indexOf_append h' after'] at hidx
  obtain ⟨hbefore, hafter⟩ := append_inj heq (Option.some.inj hidx).symm
  exact ⟨hbefore, append_cancel_left hafter⟩

lemma exists_of_indexOf {i : ℕ} (hne : pattern ≠ []) (h : indexOf pattern s = some i) :
    ∃ before after, s = before ++ (pattern ++ after) ∧ before.length = i ∧
      First pattern before := by
  have hpos := length_pos_of_ne_nil hne
  induction s generalizing i with
  | nil =>
    rw [indexOf, if_neg hne] at h
    cases h
  | cons c rest ih =>
    rw [indexOf] at h
    split_ifs at h with hbegins
    · cases h
      obtain ⟨after, hafter⟩ := isPrefixOf_iff_prefix.1 hbegins
      refine ⟨[], after, hafter.symm, rfl, fun hinside => ?_⟩
      have hle := hinside.length_le
      rw [nil_append, length_dropLast] at hle
      omega
    · obtain ⟨j, hj, rfl⟩ := Option.map_eq_some_iff.1 h
      obtain ⟨before, after, rfl, rfl, hfirst⟩ := ih hj
      refine ⟨c :: before, after, rfl, rfl, fun hinside => ?_⟩
      rw [cons_append] at hinside
      rcases infix_cons_iff.1 hinside with hhead | htail
      · refine hbegins (List.isPrefixOf_iff_prefix.2 (hhead.trans ?_))
        rw [cons_prefix_cons, prefix_append_right_inj]
        exact ⟨rfl, (List.dropLast_prefix pattern).trans (prefix_append _ _)⟩
      · exact hfirst htail

lemma indexOf_eq_none_iff (hne : pattern ≠ []) : indexOf pattern s = none ↔ ¬ pattern <:+: s := by
  induction s with
  | nil =>
    rw [indexOf, if_neg hne]
    simpa using hne
  | cons c rest ih =>
    rw [indexOf, infix_cons_iff, not_or]
    split_ifs with hbegins
    · simpa using fun hnot => absurd (List.isPrefixOf_iff_prefix.1 hbegins) hnot
    · rw [Option.map_eq_none_iff, ih]
      exact ⟨fun h => ⟨fun hp => hbegins (List.isPrefixOf_iff_prefix.2 hp), h⟩, fun h => h.2⟩

lemma exists_first (hne : pattern ≠ []) (h : pattern <:+: s) :
    ∃ before after, s = before ++ (pattern ++ after) ∧ First pattern before := by
  obtain ⟨i, hi⟩ := Option.ne_none_iff_exists'.1 (mt (indexOf_eq_none_iff hne).1 (not_not.2 h))
  obtain ⟨before, after, hsplit, -, hfirst⟩ := exists_of_indexOf hne hi
  exact ⟨before, after, hsplit, hfirst⟩

/-! ## Every occurrence -/

omit [DecidableEq α] in
/-- A pattern that is not empty occurs at the index `i`. -/
def OccursAt (pattern s : List α) (i : ℕ) : Prop := pattern <+: s.drop i

instance (pattern s : List α) (i : ℕ) : Decidable (OccursAt pattern s i) :=
  inferInstanceAs (Decidable (pattern <+: s.drop i))

/-- The pieces of `s` between the occurrences of a pattern that is not empty, each looked for behind
the one before.  The first `skip` elements belong to an occurrence, and `piece` is what the next
piece begins with, in reverse. -/
def splitAround (pattern : List α) : ℕ → List α → List α → List (List α)
  | _, piece, [] => [piece.reverse]
  | skip + 1, piece, _ :: rest => splitAround pattern skip piece rest
  | 0, piece, c :: rest =>
    if pattern.isPrefixOf (c :: rest) then
      piece.reverse :: splitAround pattern (pattern.length - 1) [] rest
    else splitAround pattern 0 (c :: piece) rest

/-- `split`: around an empty pattern each element is a piece. -/
def splitBy (pattern s : List α) : List (List α) :=
  if pattern = [] then s.map fun c => [c] else splitAround pattern 0 [] s

omit [DecidableEq α] in
lemma occursAt_drop {n i : ℕ} : OccursAt pattern (s.drop n) i ↔ OccursAt pattern s (n + i) := by
  rw [OccursAt, OccursAt, drop_drop]

omit [DecidableEq α] in
lemma not_occursAt_nil (hne : pattern ≠ []) (i : ℕ) : ¬ OccursAt pattern [] i := by
  rw [OccursAt, drop_nil]
  exact fun h => hne (prefix_nil.1 h)

lemma occursAt_of_indexOf {i : ℕ} (hne : pattern ≠ []) (h : indexOf pattern s = some i) :
    OccursAt pattern s i := by
  obtain ⟨before, after, rfl, rfl, -⟩ := exists_of_indexOf hne h
  rw [OccursAt, drop_left]
  exact prefix_append _ _

lemma length_splitAround_pos (skip : ℕ) (piece s : List α) :
    0 < (splitAround pattern skip piece s).length := by
  induction s generalizing skip piece with
  | nil =>
    cases skip with
    | zero | succ skip => exact Nat.one_pos
  | cons c rest ih =>
    cases skip with
    | succ skip => exact ih skip piece
    | zero =>
      rw [splitAround]
      split_ifs
      · exact Nat.succ_pos _
      · exact ih 0 (c :: piece)

/-- How many pieces there are does not depend on what the first one begins with. -/
lemma length_splitAround (skip : ℕ) (piece s : List α) : (splitAround pattern skip piece s).length =
      (splitAround pattern 0 [] (s.drop skip)).length := by
  induction s generalizing skip piece with
  | nil =>
    cases skip with
    | zero => rfl
    | succ skip => rfl
  | cons c rest ih =>
    cases skip with
    | succ skip => exact ih skip piece
    | zero =>
      rw [drop_zero, splitAround, splitAround]
      split_ifs with hbegins
      · rfl
      · rw [ih 0 (c :: piece), ih 0 [c]]

lemma length_splitAround_of_occursHere {c : α} {rest : List α} (hne : pattern ≠ [])
    (hbegins : pattern <+: c :: rest) (piece : List α) :
    (splitAround pattern 0 piece (c :: rest)).length =
      (splitAround pattern 0 [] ((c :: rest).drop pattern.length)).length + 1 := by
  have hpos := length_pos_of_ne_nil hne
  rw [splitAround, if_pos (List.isPrefixOf_iff_prefix.2 hbegins), length_cons, length_splitAround]
  have hdrop : (c :: rest).drop pattern.length = rest.drop (pattern.length - 1) := by
    rw [← Nat.succ_pred_eq_of_pos hpos]
    rfl
  rw [hdrop]

lemma length_splitAround_of_not_occursHere {c : α} {rest : List α}
    (hbegins : ¬ pattern <+: c :: rest) (piece : List α) :
    (splitAround pattern 0 piece (c :: rest)).length = (splitAround pattern 0 [] rest).length := by
  rw [splitAround, if_neg (mt isPrefixOf_iff_prefix.1 hbegins), length_splitAround, drop_zero]

lemma one_lt_length_splitAround (hne : pattern ≠ []) :
    1 < (splitAround pattern 0 [] s).length ↔ ∃ i, OccursAt pattern s i := by
  induction s with
  | nil =>
    refine ⟨fun h => absurd h (lt_irrefl 1), ?_⟩
    rintro ⟨i, hi⟩
    exact absurd hi (not_occursAt_nil hne i)
  | cons c rest ih =>
    by_cases hbegins : pattern <+: c :: rest
    · rw [length_splitAround_of_occursHere hne hbegins]
      exact ⟨fun _ => ⟨0, hbegins⟩, fun _ => Nat.succ_lt_succ (length_splitAround_pos _ _ _)⟩
    · rw [length_splitAround_of_not_occursHere hbegins, ih]
      constructor
      · rintro ⟨i, hi⟩
        exact ⟨i + 1, hi⟩
      · rintro ⟨i, hi⟩
        cases i with
        | zero => exact absurd hi hbegins
        | succ i => exact ⟨i, hi⟩

/-- **Three pieces and more** are there just when one occurrence lies behind another. -/
theorem two_lt_length_splitAround (hne : pattern ≠ []) : 2 < (splitAround pattern 0 [] s).length ↔
      ∃ i j, OccursAt pattern s i ∧ OccursAt pattern s j ∧ i + pattern.length ≤ j := by
  induction s with
  | nil =>
    refine ⟨fun h => absurd (show 2 < 1 from h) (by decide), ?_⟩
    rintro ⟨i, -, hi, -⟩
    exact absurd hi (not_occursAt_nil hne i)
  | cons c rest ih =>
    by_cases hbegins : pattern <+: c :: rest
    · rw [length_splitAround_of_occursHere hne hbegins, Nat.succ_lt_succ_iff,
        one_lt_length_splitAround hne]
      constructor
      · rintro ⟨j, hj⟩
        exact ⟨0, pattern.length + j, hbegins, occursAt_drop.1 hj, by omega⟩
      · rintro ⟨i, j, -, hj, hle⟩
        refine ⟨j - pattern.length, occursAt_drop.2 ?_⟩
        rwa [Nat.add_sub_cancel' (by omega)]
    · rw [length_splitAround_of_not_occursHere hbegins, ih]
      constructor
      · rintro ⟨i, j, hi, hj, hle⟩
        exact ⟨i + 1, j + 1, hi, hj, by omega⟩
      · rintro ⟨i, j, hi, hj, hle⟩
        cases i with
        | zero => exact absurd hi hbegins
        | succ i =>
          cases j with
          | zero => exact absurd hj hbegins
          | succ j => exact ⟨i, j, hi, hj, by omega⟩

end Occurrence
