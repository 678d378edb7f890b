import Amide.Construction.Compaction.Compaction

/-!
# Where a compaction cuts

The bounds `findCutPoint` keeps: the cut lies in the range it was given, and the turn a cut splits
starts between the beginning of the range and the cut.  The accumulated estimates only decide
which cut point is taken, so the bounds hold for every `keepRecentTokens`.
-/

namespace Amide

variable {entries : List SessionEntry} {startIndex endIndex keepRecentTokens : ℕ}

lemma mem_findValidCutPoints {i : ℕ} (h : i ∈ findValidCutPoints entries startIndex endIndex) :
    startIndex ≤ i ∧ i < endIndex := by
  rw [findValidCutPoints, List.mem_filter, List.mem_range'_1] at h
  omega

lemma turnStartBelow_bounds {n i : ℕ} (h : turnStartBelow entries startIndex n = some i) :
    startIndex ≤ i ∧ i < n := by
  induction n with
  | zero => cases h
  | succ n ih =>
    unfold turnStartBelow at h
    split_ifs at h with hlt hstart
    · cases h
      omega
    · have := ih h
      omega

lemma chooseCut_mem (firstCut : ℕ) (cuts : List ℕ) (budget : Option ℕ) :
    chooseCut firstCut cuts budget ∈ firstCut :: cuts := by
  cases budget with
  | none => simp [chooseCut]
  | some i =>
    have hchoose : chooseCut firstCut cuts (some i) =
        ((firstCut :: cuts).find? (i ≤ ·)).getD firstCut := rfl
    rw [hchoose]
    cases hfind : (firstCut :: cuts).find? (i ≤ ·) with
    | none => exact List.mem_cons_self
    | some j => exact List.mem_of_find?_eq_some hfind

lemma slideBack_le (cut : ℕ) : slideBack entries startIndex cut ≤ cut := by
  induction cut with
  | zero => exact Nat.le_refl _
  | succ i ih =>
    unfold slideBack
    split_ifs
    · exact Nat.le_refl _
    · exact Nat.le_refl _
    · omega

lemma le_slideBack {cut : ℕ} (h : startIndex ≤ cut) :
    startIndex ≤ slideBack entries startIndex cut := by
  induction cut with
  | zero => exact h
  | succ i ih =>
    unfold slideBack
    split_ifs with hlt hstop
    · exact h
    · exact h
    · exact ih (Nat.le_of_not_lt hlt)

/-- The bounds of a cut. -/
theorem findCutPoint_bounds (entries : List SessionEntry)
    (startIndex endIndex keepRecentTokens : ℕ) :
    startIndex ≤ (findCutPoint entries startIndex endIndex keepRecentTokens).firstKeptEntryIndex ∧
      ((findCutPoint entries startIndex endIndex keepRecentTokens).isSplitTurn = true →
        ∃ t, (findCutPoint entries startIndex endIndex keepRecentTokens).turnStartIndex = some t ∧
          startIndex ≤ t ∧
          t ≤ (findCutPoint entries startIndex endIndex keepRecentTokens).firstKeptEntryIndex) := by
  unfold findCutPoint
  cases hcuts : findValidCutPoints entries startIndex endIndex with
  | nil => simp
  | cons firstCut cuts =>
    have hmem : ∀ i ∈ firstCut :: cuts, startIndex ≤ i := fun i hi =>
      (mem_findValidCutPoints (hcuts ▸ hi)).1
    refine ⟨le_slideBack (hmem _ (chooseCut_mem _ _ _)), fun hsplit => ?_⟩
    simp only [Bool.and_eq_true, Bool.not_eq_true', Option.isSome_iff_exists] at hsplit
    obtain ⟨-, t, ht⟩ := hsplit
    refine ⟨t, ht, ?_⟩
    split_ifs at ht
    have := turnStartBelow_bounds ht
    simp only
    omega

end Amide
