import Amide.Properties.Tui.StrippedText

/-!
# The cached extractor is the plain one

Whatever positions of a string it has been asked for, and in whatever order, the cached extractor
answers as `extractAnsiCode` does (`extractAnsiCodes_eq`): an end that it keeps is the one that a
search from there finds (`CachesEnds`).
-/

namespace Amide

open StdinBuffer (ESC)

variable {str s : CodeUnits} {pos i : ℕ} {state : AnsiScanState} {allowBel : Bool}

/-- What is cached for a position is what the plain search finds there. -/
def CachesEnds (str : CodeUnits) (ends : JsMap ℕ (Option ℕ)) : Prop :=
  ∀ pos cached, ends.get? pos = some cached → cached = (extractAnsi (str.drop pos)).map (pos + ·)

lemma CachesEnds.set {ends : JsMap ℕ (Option ℕ)} (h : CachesEnds str ends) {cached : Option ℕ}
    (hcached : cached = (extractAnsi (str.drop i)).map (i + ·)) :
    CachesEnds str (ends.set i cached) := by
  intro pos cached' hget
  rw [JsMap.get?_set] at hget
  split_ifs at hget with heq
  · cases hget
    rw [← heq]
    exact hcached
  · exact h pos cached' hget

lemma map_length (i : ℕ) (length : Option ℕ) :
    length.map (i + 2 + ·) = (length.map (· + 2)).map (i + ·) := by
  rw [Option.map_map]
  exact congrArg (length.map ·) (funext fun n => by simp; omega)

section
variable {next : UInt16} (rest : CodeUnits)

lemma extractAnsi_osc (h : (next = 93 || next = 95) = true) :
    extractAnsi (ESC :: next :: rest) = (controlStringLength true rest).map (· + 2) := by
  have hcsi : next ≠ 91 := by rintro rfl; cases h
  rw [extractAnsi, if_neg (not_not.mpr rfl), if_neg hcsi, if_pos h]

lemma extractAnsi_dcs (h : (next = 80 || next = 94 || next = 88) = true) :
    extractAnsi (ESC :: next :: rest) = (controlStringLength false rest).map (· + 2) := by
  have hcsi : next ≠ 91 := by rintro rfl; cases h
  have hosc : ¬(next = 93 || next = 95) = true := by
    simp only [Bool.or_eq_true, decide_eq_true_eq] at h
    rcases h with (rfl | rfl) | rfl <;> decide
  rw [extractAnsi, if_neg (not_not.mpr rfl), if_neg hcsi, if_neg hosc, if_pos h]

end

lemma cachesEnds_cacheControlStringEnds (hs : str.drop i = s) :
    CachesEnds str (cacheControlStringEnds i s) := by
  fun_induction cacheControlStringEnds i s with
  | case1 i c next rest ends hesc ih | case4 i c next rest ends hesc hosc hdcs ih =>
    exact ih (by rw [← List.tail_drop, hs]; rfl)
  | case2 i c next rest ends hesc hosc ih =>
    refine (ih (by rw [← List.tail_drop, hs]; rfl)).set ?_
    rw [hs, not_not.mp hesc, extractAnsi_osc rest hosc, cachedEnd_eq, map_length]
  | case3 i c next rest ends hesc hosc hdcs ih =>
    refine (ih (by rw [← List.tail_drop, hs]; rfl)).set ?_
    rw [hs, not_not.mp hesc, extractAnsi_dcs rest hdcs, cachedEnd_eq, map_length]
  | case5 =>
    intro pos cached hget
    cases hget

/-! ## Queries -/

def AnsiScanState.Sound (str : CodeUnits) (state : AnsiScanState) : Prop :=
  ∀ ends, state.controlStringEnds = some ends → CachesEnds str ends

section
variable (hstate : state.Sound str)
include hstate

lemma extractControlStringEnd_eq (hplain : extractAnsi (str.drop pos) =
      (controlStringLength allowBel (str.drop (pos + 2))).map (· + 2)) :
    (extractControlStringEnd str pos allowBel state).1 =
        (extractAnsi (str.drop pos)).map (pos + ·) ∧
      (extractControlStringEnd str pos allowBel state).2.Sound str := by
  unfold extractControlStringEnd
  split
  · rename_i cached hcached
    obtain ⟨ends, hends, hget⟩ := Option.bind_eq_some_iff.mp hcached
    exact ⟨hstate ends hends pos cached hget, hstate⟩
  · rw [hplain, ← map_length]
    cases controlStringLength allowBel (str.drop (pos + 2)) with
    | some length => exact ⟨rfl, hstate⟩
    | none =>
      refine ⟨rfl, fun ends hends => ?_⟩
      cases hends
      exact cachesEnds_cacheControlStringEnds rfl

lemma extractAnsiEndAt_eq (pos : ℕ) :
    (extractAnsiEndAt str pos state).1 = (extractAnsi (str.drop pos)).map (pos + ·) ∧
      (extractAnsiEndAt str pos state).2.Sound str := by
  unfold extractAnsiEndAt
  split
  · rename_i c next rest hdrop
    have hrest : rest = str.drop (pos + 2) := by rw [← List.drop_drop, hdrop]; rfl
    split_ifs with hesc hcsi hosc hdcs
    · rw [hdrop, extractAnsi, if_pos hesc]
      exact ⟨rfl, hstate⟩
    · rw [hdrop, extractAnsi, if_neg hesc, if_pos hcsi, map_length]
      exact ⟨rfl, hstate⟩
    · refine extractControlStringEnd_eq hstate ?_
      rw [hdrop, not_not.mp hesc, extractAnsi_osc rest hosc, hrest]
    · refine extractControlStringEnd_eq hstate ?_
      rw [hdrop, not_not.mp hesc, extractAnsi_dcs rest hdcs, hrest]
    · rw [hdrop, extractAnsi, if_neg hesc, if_neg hcsi, if_neg hosc, if_neg hdcs]
      exact ⟨rfl, hstate⟩
  · rename_i hshort
    refine ⟨?_, hstate⟩
    rcases hdrop : str.drop pos with _ | ⟨c, _ | ⟨next, rest⟩⟩
    · rfl
    · rfl
    · exact absurd hdrop (hshort c next rest)

lemma extractAnsiCodes_of_sound (positions : List ℕ) :
    extractAnsiCodes str state positions = positions.map (extractAnsiCode str) := by
  induction positions generalizing state with
  | nil => rfl
  | cons pos positions ih =>
    obtain ⟨hend, hnext⟩ := extractAnsiEndAt_eq hstate pos
    rw [List.map_cons, ← ih hnext]
    change Option.map _ (extractAnsiEndAt str pos state).1 :: _ = _
    rw [hend, Option.map_map, extractAnsiCode]
    congr 2
    funext length
    simp

end

/-- **The cached extractor answers as the plain one.** -/
theorem extractAnsiCodes_eq (str : CodeUnits) (positions : List ℕ) :
    extractAnsiCodes str {} positions = positions.map (extractAnsiCode str) :=
  extractAnsiCodes_of_sound (by nofun) positions

end Amide
