import Amide.Construction.Tools.EditDiff
import Amide.Framework.Fallible

/-!
# Edits of a text are applied at unique places

An edit is refused if its text occurs more than once, but only occurrences that do not overlap are
counted, and they are counted after both sides have been normalized.  Where neither hides a repeat
(`HidesNoRepeat`), an edit that is applied has a single place (`occursOnce_iff_hidesNoRepeat`).
-/

namespace Amide

open Occurrence (OccursAt indexOf splitBy)

variable {nfkc : CodeUnits → CodeUnits} {content : CodeUnits} {edits : List TextEdit}
  {path : String} {result : AppliedEditsResult}

/-- Every edit is found as it stands. -/
def MatchesExactly (nfkc : CodeUnits → CodeUnits) (content : CodeUnits) (edits : List TextEdit) :
    Prop :=
  ∀ edit ∈ edits, (fuzzyFindText nfkc content edit.normalized.oldText).usedFuzzyMatch = false

/-- Two occurrences of a text that do not overlap; an empty one occurs between the code units. -/
def Repeats (text content : CodeUnits) : Prop :=
  if text = [] then 2 < content.length
  else ∃ i j, OccursAt text content i ∧ OccursAt text content j ∧ i + text.length ≤ j

lemma repeats_iff {text : CodeUnits} :
    Repeats text content ↔ 2 < (splitBy text content).length := by
  rw [Repeats, splitBy]
  split_ifs with hnil
  · rw [List.length_map]
  · exact (Occurrence.two_lt_length_splitAround hnil).symm

/-- No two occurrences of a text overlap, and if it repeats, so it does after normalizing. -/
def HidesNoRepeat (nfkc : CodeUnits → CodeUnits) (content text : CodeUnits) : Prop :=
  (∀ i j, OccursAt text content i → OccursAt text content j → i < j → i + text.length ≤ j) ∧
    (Repeats text content →
      Repeats (normalizeForFuzzyMatch nfkc text) (normalizeForFuzzyMatch nfkc content))

/-! ## What an applied edit has passed -/

lemma matchEdits_ok {base : CodeUnits} {totalEdits i : ℕ} {matched : List MatchedEdit}
    (h : matchEdits nfkc base path totalEdits i edits = .ok matched) :
    ∀ edit ∈ edits, (fuzzyFindText nfkc base edit.oldText).found = true ∧
      countOccurrences nfkc base edit.oldText ≤ 1 := by
  induction edits generalizing i matched with
  | nil => exact fun edit hedit => nomatch hedit
  | cons edit edits ih =>
    rw [matchEdits] at h
    dsimp only at h
    split_ifs at h with hfound hcount
    obtain ⟨rest, hrest, -⟩ := Except.of_bind h
    intro edit' hedit'
    rcases List.mem_cons.1 hedit' with rfl | hedit'
    · exact ⟨Bool.of_not_eq_false hfound, not_lt.1 hcount⟩
    · exact ih hrest edit' hedit'

lemma baseContentFor_of_exact (h : MatchesExactly nfkc content edits) :
    baseContentFor nfkc content (edits.map TextEdit.normalized) = content := by
  rw [baseContentFor, if_neg]
  rw [List.any_map, Bool.not_eq_true, List.any_eq_false]
  exact fun edit hedit => Bool.not_eq_true _ ▸ h edit hedit

/-- An edit that has been applied has a text, which is found and not counted more than once. -/
lemma applied_edit (happlied : applyEditsToNormalizedContent nfkc content edits path = .ok result)
    (hexact : MatchesExactly nfkc content edits) {edit : TextEdit} (hedit : edit ∈ edits) :
    edit.normalized.oldText ≠ [] ∧
      (fuzzyFindText nfkc content edit.normalized.oldText).found = true ∧
      countOccurrences nfkc content edit.normalized.oldText ≤ 1 := by
  have hmem : edit.normalized ∈ edits.map TextEdit.normalized := List.mem_map_of_mem hedit
  rw [applyEditsToNormalizedContent] at happlied
  split at happlied
  · cases happlied
  · rename_i hnone
    obtain ⟨matched, hmatched, -⟩ := Except.of_bind happlied
    rw [baseContentFor_of_exact hexact] at hmatched
    have hempty := List.findIdx?_eq_none_iff.1 hnone edit.normalized hmem
    refine ⟨fun hnil => ?_, matchEdits_ok hmatched edit.normalized hmem⟩
    rw [hnil] at hempty
    cases hempty

lemma exists_occursAt_of_found {text : CodeUnits} (hne : text ≠ [])
    (hfound : (fuzzyFindText nfkc content text).found = true)
    (hexact : (fuzzyFindText nfkc content text).usedFuzzyMatch = false) :
    ∃ i, OccursAt text content i := by
  rw [fuzzyFindText] at hfound hexact
  split at hfound
  · rename_i i hi
    exact ⟨i, Occurrence.occursAt_of_indexOf hne hi⟩
  · rename_i hnone
    rw [hnone] at hexact
    dsimp only at hfound hexact
    split at hfound
    · cases hfound
    · rename_i j hj
      rw [hj] at hexact
      cases hexact

/-! ## One place -/

/-- Where no repeat is hidden, a text that is there and is not counted more than once has one
place. -/
lemma existsUnique_iff_hidesNoRepeat {text : CodeUnits} (hne : text ≠ [])
    (hfound : ∃ i, OccursAt text content i) (hcount : countOccurrences nfkc content text ≤ 1) :
    (∃! i, OccursAt text content i) ↔ HidesNoRepeat nfkc content text := by
  have hnorepeat : ¬Repeats (normalizeForFuzzyMatch nfkc text)
      (normalizeForFuzzyMatch nfkc content) := by
    rw [countOccurrences] at hcount
    rw [repeats_iff]
    omega
  rw [HidesNoRepeat, Repeats, if_neg hne]
  constructor
  · rintro ⟨k, -, hunique⟩
    refine ⟨fun i j hi hj hlt => ?_, fun hrepeat => ?_⟩
    · rw [hunique i hi, hunique j hj] at hlt
      exact absurd hlt (lt_irrefl k)
    · obtain ⟨i, j, hi, hj, hle⟩ := hrepeat
      rw [hunique i hi, hunique j hj] at hle
      have hpos := List.length_pos_of_ne_nil hne
      omega
  · rintro ⟨hdisj, hseen⟩
    have hsame : ∀ i j, OccursAt text content i → OccursAt text content j → ¬ i < j := by
      intro i j hi hj hlt
      exact hnorepeat (hseen ⟨i, j, hi, hj, hdisj i j hi hj hlt⟩)
    obtain ⟨k, hk⟩ := hfound
    refine ⟨k, hk, fun i hi => ?_⟩
    exact le_antisymm (not_lt.1 (hsame k i hk hi)) (not_lt.1 (hsame i k hi hk))

/-- **An applied edit has one place** just when no repeat of its text is hidden. -/
theorem occursOnce_iff_hidesNoRepeat
    (happlied : applyEditsToNormalizedContent nfkc content edits path = .ok result)
    (hexact : MatchesExactly nfkc content edits) :
    (∀ edit ∈ edits, ∃! i, OccursAt edit.normalized.oldText content i) ↔
      ∀ edit ∈ edits, HidesNoRepeat nfkc content edit.normalized.oldText := by
  refine forall₂_congr fun edit hedit => ?_
  obtain ⟨hne, hfound, hcount⟩ := applied_edit happlied hexact hedit
  exact existsUnique_iff_hidesNoRepeat hne
    (exists_occursAt_of_found hne hfound (hexact edit hedit)) hcount

theorem occursOnce_iff_hidesNoRepeat_abc :
    (∀ edit ∈ [TextEdit.mk (asciiUnits "b") (asciiUnits "x")],
      ∃! i, OccursAt edit.normalized.oldText (asciiUnits "abc") i) ↔
    ∀ edit ∈ [TextEdit.mk (asciiUnits "b") (asciiUnits "x")],
      HidesNoRepeat id (asciiUnits "abc") edit.normalized.oldText := by
  have happlied : applyEditsToNormalizedContent id (asciiUnits "abc")
      [⟨asciiUnits "b", asciiUnits "x"⟩] "f" = .ok ⟨asciiUnits "abc", asciiUnits "axc"⟩ := by
    decide +kernel
  refine occursOnce_iff_hidesNoRepeat happlied fun edit hedit => ?_
  rw [List.mem_singleton.1 hedit]
  decide +kernel

/-- In `aaa`, `aa` is replaced although it occurs twice. -/
theorem edit_applied_at_repeat :
    applyEditsToNormalizedContent id (asciiUnits "aaa") [⟨asciiUnits "aa", asciiUnits "b"⟩] "f" =
        .ok ⟨asciiUnits "aaa", asciiUnits "ba"⟩ ∧
      MatchesExactly id (asciiUnits "aaa") [⟨asciiUnits "aa", asciiUnits "b"⟩] ∧
      ¬ ∀ edit ∈ [TextEdit.mk (asciiUnits "aa") (asciiUnits "b")],
        ∃! i, OccursAt edit.normalized.oldText (asciiUnits "aaa") i := by
  refine ⟨by decide +kernel, ?_, fun h => ?_⟩
  · intro edit hedit
    rw [List.mem_singleton.1 hedit]
    decide +kernel
  · obtain ⟨k, -, hunique⟩ := h _ (List.mem_singleton_self _)
    have hzero := hunique 0 (by decide +kernel)
    have hone := hunique 1 (by decide +kernel)
    exact absurd (hzero.trans hone.symm) (by decide)

end Amide
