import Amide.Properties.Tools.UniqueEdits

/-!
# Edits are made at once

Where edits are applied, the content is divided at the places found for them, and at each place the
one text stands for the other (`Spliced`): that the replacements are made one after the other, from
the last to the first, does not show.  Nor does the order in which the edits are given, when all of
them are found as they stand (`applyEdits_simultaneous`).
-/

namespace Amide

open List

open Occurrence (OccursAt indexOf)
open TextEdit (normalized)

/-! ## Replacing from the end -/

/-- A place in a content, and what comes to stand there. -/
structure Splice where
  matchIndex : ℕ
  matchLength : ℕ
  newText : CodeUnits

def MatchedEdit.splice (edit : MatchedEdit) : Splice :=
  ⟨edit.matchIndex, edit.matchLength, edit.newText⟩

namespace Splice

def replace (s : Splice) (content : CodeUnits) : CodeUnits :=
  content.take s.matchIndex ++ s.newText ++ content.drop (s.matchIndex + s.matchLength)

def Before (s t : Splice) : Prop := s.matchIndex + s.matchLength ≤ t.matchIndex

instance : IsTrans Splice Before :=
  ⟨fun s t u hst htu => by
    rw [Before] at *
    omega⟩

end Splice

/-- From a position on, a content and the one in which each place has its new text, and nothing else
is changed. -/
inductive Spliced : ℕ → List Splice → CodeUnits → CodeUnits → Prop
  | done {start : ℕ} {rest : CodeUnits} : Spliced start [] rest rest
  | place {start : ℕ} {kept oldText rest rest' : CodeUnits} {s : Splice} {ss : List Splice}
      (hindex : s.matchIndex = start + kept.length) (hlength : s.matchLength = oldText.length)
      (hrest : Spliced (s.matchIndex + s.matchLength) ss rest rest') :
    Spliced start (s :: ss) (kept ++ (oldText ++ rest)) (kept ++ (s.newText ++ rest'))

variable (matched : List MatchedEdit)

section Replacing

variable {content : CodeUnits} {start : ℕ} {splices : List Splice}

lemma foldr_replace (content : CodeUnits) : matched.foldr MatchedEdit.replace content =
      (matched.map MatchedEdit.splice).foldr Splice.replace content := by
  rw [foldr_map]
  rfl

lemma findOverlap_eq_none_iff :
    findOverlap matched = none ↔ (matched.map MatchedEdit.splice).Pairwise Splice.Before := by
  rw [← isChain_iff_pairwise]
  induction matched with
  | nil => simp [findOverlap]
  | cons previous matched ih =>
    cases matched with
    | nil => simp [findOverlap]
    | cons current rest =>
      rw [map_cons, map_cons, isChain_cons_cons, ← map_cons, ← ih, findOverlap]
      split_ifs with hover
      · refine ⟨fun h => (nomatch h), fun h => ?_⟩
        exact absurd h.1 (not_le.mpr hover)
      · rw [iff_and_self]
        exact fun _ => not_lt.mp hover

/-- The replacements that are made from the last place to the first do not disturb each other. -/
lemma spliced_foldr (hdisj : splices.Pairwise Splice.Before)
    (hinside : ∀ s ∈ splices, start ≤ s.matchIndex ∧ s.matchIndex + s.matchLength ≤ content.length)
    (hstart : start ≤ content.length) :
    ∃ rest, splices.foldr Splice.replace content = content.take start ++ rest ∧
      Spliced start splices (content.drop start) rest := by
  induction splices generalizing start with
  | nil => exact ⟨content.drop start, (take_append_drop start content).symm, .done⟩
  | cons s splices ih =>
    rw [pairwise_cons] at hdisj
    obtain ⟨hidx, hend⟩ := hinside s mem_cons_self
    obtain ⟨rest, hrest, hspliced⟩ := ih hdisj.2
      (fun t ht => ⟨hdisj.1 t ht, (hinside t (mem_cons_of_mem s ht)).2⟩) hend
    have hkept : content.take start ++ (content.drop start).take (s.matchIndex - start) =
        content.take s.matchIndex := by
      rw [← take_add, Nat.add_sub_cancel' hidx]
    refine ⟨(content.drop start).take (s.matchIndex - start) ++ (s.newText ++ rest), ?_, ?_⟩
    · have htake : (content.take (s.matchIndex + s.matchLength)).length =
          s.matchIndex + s.matchLength := length_take_of_le hend
      rw [foldr_cons, hrest, Splice.replace, ← append_assoc, hkept,
        take_append_of_le_length (by omega), take_take,
        Nat.min_eq_left (Nat.le_add_right _ _), drop_append_of_le_length (by omega),
        drop_eq_nil_of_le (by omega), nil_append, append_assoc]
    · have hold : content.drop start = (content.drop start).take (s.matchIndex - start) ++
          ((content.drop s.matchIndex).take s.matchLength ++
            content.drop (s.matchIndex + s.matchLength)) := by
        rw [← drop_drop (i := s.matchLength), take_append_drop,
          show content.drop s.matchIndex = (content.drop start).drop (s.matchIndex - start) by
            rw [drop_drop, Nat.add_sub_cancel' hidx], take_append_drop]
      have hlengths : ((content.drop start).take (s.matchIndex - start)).length =
            s.matchIndex - start ∧
          ((content.drop s.matchIndex).take s.matchLength).length = s.matchLength := by
        simp only [length_take, length_drop]
        omega
      have hplace := @Spliced.place start ((content.drop start).take (s.matchIndex - start))
        ((content.drop s.matchIndex).take s.matchLength) _ rest s splices (by omega) (by omega)
        hspliced
      rwa [← hold] at hplace

end Replacing

/-! ## What is found -/

/-- The place of an edit in the content it is looked for in. -/
def spliceOf (nfkc : CodeUnits → CodeUnits) (base : CodeUnits) (edit : TextEdit) : Splice where
  matchIndex := (fuzzyFindText nfkc base edit.oldText).index.toNat
  matchLength := (fuzzyFindText nfkc base edit.oldText).matchLength
  newText := edit.newText

/-- The edits are applied at the places listed, in line. -/
structure Applies (nfkc : CodeUnits → CodeUnits) (base : CodeUnits) (edits : List TextEdit)
    (splices : List Splice) : Prop where
  nonempty : ∀ edit ∈ edits, edit.oldText ≠ []
  found : ∀ edit ∈ edits, (fuzzyFindText nfkc base edit.oldText).found = true
  once : ∀ edit ∈ edits, countOccurrences nfkc base edit.oldText ≤ 1
  perm : splices.Perm (edits.map (spliceOf nfkc base))
  disjoint : splices.Pairwise Splice.Before

section Applying

variable {nfkc : CodeUnits → CodeUnits} {content base : CodeUnits} {edits : List TextEdit}
  {splices : List Splice} {path : String} {totalEdits i : ℕ}

lemma splice_of_matchEdits {matched : List MatchedEdit}
    (h : matchEdits nfkc base path totalEdits i edits = .ok matched) :
    matched.map MatchedEdit.splice = edits.map (spliceOf nfkc base) := by
  induction edits generalizing i matched with
  | nil =>
    cases h
    rfl
  | cons edit edits ih =>
    rw [matchEdits] at h
    dsimp only at h
    split_ifs at h
    obtain ⟨rest, hrest, hok⟩ := Except.of_bind h
    cases hok
    rw [map_cons, map_cons, ih hrest]
    rfl

lemma exists_matchEdits
    (hfound : ∀ edit ∈ edits, (fuzzyFindText nfkc base edit.oldText).found = true)
    (honce : ∀ edit ∈ edits, countOccurrences nfkc base edit.oldText ≤ 1) :
    ∃ matched, matchEdits nfkc base path totalEdits i edits = .ok matched := by
  induction edits generalizing i with
  | nil => exact ⟨[], rfl⟩
  | cons edit edits ih =>
    rw [forall_mem_cons] at hfound honce
    obtain ⟨rest, hrest⟩ := @ih (i + 1) hfound.2 honce.2
    rw [matchEdits]
    rw [if_neg (by simp [hfound.1]), if_neg (not_lt.mpr honce.1), hrest]
    exact ⟨_, rfl⟩

/-- The order in which places are sorted. -/
lemma pairwise_sorted :
    ((matched.mergeSort fun a b => a.matchIndex ≤ b.matchIndex).map MatchedEdit.splice).Pairwise
      fun s t => s.matchIndex ≤ t.matchIndex := by
  rw [pairwise_map]
  have hsorted := @pairwise_mergeSort _
    (fun a b : MatchedEdit => decide (a.matchIndex ≤ b.matchIndex))
    (fun a b c hab hbc => by simp only [decide_eq_true_eq] at *; omega)
    (fun a b => by simp only [Bool.or_eq_true, decide_eq_true_eq]; omega) matched
  exact hsorted.imp fun h => of_decide_eq_true h

lemma applies_of_ok {result : AppliedEditsResult}
    (h : applyEditsToNormalizedContent nfkc content edits path = .ok result) :
    ∃ splices, Applies nfkc result.baseContent (edits.map normalized) splices ∧
      result.baseContent = baseContentFor nfkc content (edits.map normalized) ∧
      result.newContent = splices.foldr Splice.replace result.baseContent ∧
      result.baseContent ≠ result.newContent := by
  rw [applyEditsToNormalizedContent] at h
  dsimp only at h
  split at h
  · cases h
  · rename_i hnone
    obtain ⟨matched, hmatched, h⟩ := Except.of_bind h
    split at h
    · cases h
    · rename_i hoverlap
      split_ifs at h with hchanged
      cases h
      have hok := matchEdits_ok hmatched
      refine ⟨_, ⟨fun edit hedit hnil => ?_, fun edit hedit => (hok edit hedit).1,
        fun edit hedit => (hok edit hedit).2, ?_, (findOverlap_eq_none_iff _).mp hoverlap⟩, rfl,
        foldr_replace _ _, hchanged⟩
      · have hempty := findIdx?_eq_none_iff.mp hnone edit hedit
        rw [hnil] at hempty
        cases hempty
      · rw [← splice_of_matchEdits hmatched]
        exact (mergeSort_perm matched _).map _

/-- Places that are not empty are found in line whatever the order of the edits. -/
lemma ok_of_applies (h : Applies nfkc base (edits.map normalized) splices)
    (hbase : baseContentFor nfkc content (edits.map normalized) = base)
    (hlen : ∀ s ∈ splices, 0 < s.matchLength)
    (hchanged : base ≠ splices.foldr Splice.replace base) :
    applyEditsToNormalizedContent nfkc content edits path =
      .ok ⟨base, splices.foldr Splice.replace base⟩ := by
  obtain ⟨matched, hmatched⟩ := @exists_matchEdits nfkc base _ path
    (edits.map normalized).length 0 h.found h.once
  have hnone : (edits.map normalized).findIdx? (fun edit => edit.oldText.length = 0) =
      none := findIdx?_eq_none_iff.mpr fun edit hedit =>
    decide_eq_false fun hzero => h.nonempty edit hedit (length_eq_zero_iff.mp hzero)
  have hsorted : (matched.mergeSort fun a b => a.matchIndex ≤ b.matchIndex).map
      MatchedEdit.splice = splices := by
    have hperm : ((matched.mergeSort fun a b => a.matchIndex ≤ b.matchIndex).map
        MatchedEdit.splice).Perm splices := by
      refine ((mergeSort_perm matched _).map _).trans ?_
      rw [splice_of_matchEdits hmatched]
      exact h.perm.symm
    -- behind a place that is not empty no other one begins at the same index
    have hstrict : splices.Pairwise fun s t => s.matchIndex < t.matchIndex :=
      h.disjoint.imp_of_mem fun {s t} hs _ hbefore =>
        lt_of_lt_of_le (Nat.lt_add_of_pos_right (hlen s hs)) hbefore
    refine hperm.eq_of_pairwise (fun s t hs ht hst hts => ?_) (pairwise_sorted matched)
      (hstrict.imp fun hlt => hlt.le)
    have hnodup : (splices.map Splice.matchIndex).Nodup := by
      rw [List.Nodup, pairwise_map]
      exact hstrict.imp fun hlt => hlt.ne
    exact inj_on_of_nodup_map hnodup (hperm.mem_iff.mp hs) ht (le_antisymm hst hts)
  rw [applyEditsToNormalizedContent]
  rw [hnone]
  dsimp only
  rw [hbase, hmatched]
  dsimp only [bind, Except.bind]
  rw [(findOverlap_eq_none_iff _).mpr (hsorted ▸ h.disjoint)]
  rw [foldr_replace, hsorted, if_neg hchanged]

end Applying

/-! ## Any order -/

/-- The place at which the text of an edit is found as it stands. -/
structure ExactMatch (content : CodeUnits) (edit : TextEdit) (s : Splice) : Prop where
  index : indexOf edit.normalized.oldText content = some s.matchIndex
  length : s.matchLength = edit.normalized.oldText.length
  nonempty : edit.normalized.oldText ≠ []
  newText : s.newText = edit.normalized.newText

/-- The edits, made at once at the places where their texts are found in the content. -/
def SimultaneouslyReplaced (content : CodeUnits) (edits : List TextEdit) (newContent : CodeUnits) :
    Prop :=
  ∃ found splices, List.Forall₂ (ExactMatch content) edits found ∧ splices.Perm found ∧
    splices.Pairwise Splice.Before ∧ Spliced 0 splices content newContent

section Order

variable {nfkc : CodeUnits → CodeUnits} {content : CodeUnits} {edits edits' : List TextEdit}
  {splices : List Splice} {path : String}

lemma MatchesExactly.perm (h : MatchesExactly nfkc content edits) (hperm : edits'.Perm edits) :
    MatchesExactly nfkc content edits' := fun edit hedit => h edit (hperm.mem_iff.mp hedit)

lemma Applies.perm_edits (h : Applies nfkc content edits splices) (hperm : edits'.Perm edits) :
    Applies nfkc content edits' splices where
  nonempty edit hedit := h.nonempty edit (hperm.mem_iff.mp hedit)
  found edit hedit := h.found edit (hperm.mem_iff.mp hedit)
  once edit hedit := h.once edit (hperm.mem_iff.mp hedit)
  perm := h.perm.trans (hperm.map _).symm
  disjoint := h.disjoint

lemma exactMatch_spliceOf {edit : TextEdit} (hne : edit.normalized.oldText ≠ [])
    (hfound : (fuzzyFindText nfkc content edit.normalized.oldText).found = true)
    (hexact : (fuzzyFindText nfkc content edit.normalized.oldText).usedFuzzyMatch = false) :
    ExactMatch content edit (spliceOf nfkc content edit.normalized) := by
  cases hidx : indexOf edit.normalized.oldText content with
  | some i =>
    have hres : fuzzyFindText nfkc content edit.normalized.oldText =
        ⟨true, i, edit.normalized.oldText.length, false, content⟩ := by
      rw [fuzzyFindText, hidx]
    exact ⟨by rw [hidx, spliceOf, hres]; rfl, by rw [spliceOf, hres], hne, rfl⟩
  | none =>
    obtain ⟨i, hi⟩ := exists_occursAt_of_found hne hfound hexact
    exact absurd (hi.isInfix.trans (drop_suffix i content).isInfix)
      ((Occurrence.indexOf_eq_none_iff hne).mp hidx)

/-- Applied edits that are found as they stand are made at once. -/
lemma simultaneouslyReplaced_of_applies (hexact : MatchesExactly nfkc content edits)
    (h : Applies nfkc content (edits.map normalized) splices) :
    SimultaneouslyReplaced content edits (splices.foldr Splice.replace content) ∧
      ∀ s ∈ splices, 0 < s.matchLength := by
  have hmatch : List.Forall₂ (ExactMatch content) edits
      (edits.map fun edit => spliceOf nfkc content edit.normalized) := by
    rw [forall₂_map_right_iff, forall₂_same]
    exact fun edit hedit => exactMatch_spliceOf (h.nonempty _ (mem_map_of_mem hedit))
      (h.found _ (mem_map_of_mem hedit)) (hexact edit hedit)
  have hperm : splices.Perm (edits.map fun edit => spliceOf nfkc content edit.normalized) := by
    have hperm := h.perm
    rwa [map_map] at hperm
  have hplaces : ∀ s ∈ splices, s.matchIndex + s.matchLength ≤ content.length ∧
      0 < s.matchLength := by
    intro s hs
    obtain ⟨edit, -, hm⟩ := exists_of_mem_forall₂ hmatch (hperm.mem_iff.mp hs)
    rw [hm.length]
    exact ⟨Occurrence.length_add_le_of_indexOf hm.index, length_pos_of_ne_nil hm.nonempty⟩
  obtain ⟨rest, hrest, hspliced⟩ := @spliced_foldr content 0 splices h.disjoint
    (fun s hs => ⟨Nat.zero_le _, (hplaces s hs).1⟩) (Nat.zero_le _)
  rw [take_zero, nil_append] at hrest
  rw [drop_zero, ← hrest] at hspliced
  exact ⟨⟨_, splices, hmatch, hperm, h.disjoint, hspliced⟩, fun s hs => (hplaces s hs).2⟩

/-- **Edits that are found as they stand** are made at once or refused, and the order in which they
are given decides neither which nor what comes of it. -/
theorem applyEdits_simultaneous (hexact : MatchesExactly nfkc content edits) (path : String) :
    (∀ edits', edits'.Perm edits →
      ∃ message, applyEditsToNormalizedContent nfkc content edits' path = .error message) ∨
    ∃ newContent, SimultaneouslyReplaced content edits newContent ∧ ∀ edits', edits'.Perm edits →
        applyEditsToNormalizedContent nfkc content edits' path = .ok ⟨content, newContent⟩ := by
  by_cases hok : ∃ edits', edits'.Perm edits ∧
      ∃ result, applyEditsToNormalizedContent nfkc content edits' path = .ok result
  · obtain ⟨edits₁, hperm₁, result, hresult⟩ := hok
    obtain ⟨splices, happlies, hbase, hnew, hchanged⟩ := applies_of_ok hresult
    rw [baseContentFor_of_exact (hexact.perm hperm₁)] at hbase
    rw [hbase] at happlies hnew hchanged
    have happlies' := happlies.perm_edits (hperm₁.symm.map normalized)
    obtain ⟨hreplaced, hlength⟩ := simultaneouslyReplaced_of_applies hexact happlies'
    refine .inr ⟨_, hreplaced, fun edits' hperm => ?_⟩
    exact ok_of_applies (happlies'.perm_edits (hperm.map normalized))
      (baseContentFor_of_exact (hexact.perm hperm)) hlength (hnew ▸ hchanged)
  · refine .inl fun edits' hperm => ?_
    cases hresult : applyEditsToNormalizedContent nfkc content edits' path with
    | error message => exact ⟨message, rfl⟩
    | ok result => exact absurd ⟨edits', hperm, result, hresult⟩ hok

/-- Two edits of `abc`, the later place first. -/
theorem applyEdits_simultaneous_abc :
    (∀ edits', edits'.Perm [TextEdit.mk (asciiUnits "c") (asciiUnits "yy"),
        TextEdit.mk (asciiUnits "a") []] →
      ∃ message, applyEditsToNormalizedContent id (asciiUnits "abc") edits' "f" = .error message) ∨
    ∃ newContent, SimultaneouslyReplaced (asciiUnits "abc")
        [TextEdit.mk (asciiUnits "c") (asciiUnits "yy"), TextEdit.mk (asciiUnits "a") []]
        newContent ∧
      ∀ edits', edits'.Perm [TextEdit.mk (asciiUnits "c") (asciiUnits "yy"),
          TextEdit.mk (asciiUnits "a") []] →
        applyEditsToNormalizedContent id (asciiUnits "abc") edits' "f" =
          .ok ⟨asciiUnits "abc", newContent⟩ :=
  applyEdits_simultaneous (by
    intro edit hedit
    simp only [mem_cons, not_mem_nil, or_false] at hedit
    rcases hedit with rfl | rfl
    · decide +kernel
    · decide +kernel) "f"

end Order

end Amide
