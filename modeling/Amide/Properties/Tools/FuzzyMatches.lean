import Amide.Properties.Tools.SimultaneousEdits

/-!
# Places found in normalized texts

When an edit needs it, the edits are looked for in the normalized content, where a text that is
still not found as it stands is looked for in what this normalizes to.  The places refer to the same
content because it is normalized already (`fuzzyMatches_inBase`).

That normalizing twice is normalizing once does not follow from the composition being idempotent and
leaving the ASCII characters alone (`normalize_not_idempotent`): it also has to leave alone what
remains of a composed text without some of its end, and composed texts around an ASCII character
(`NfkcLaws`).
-/

namespace Amide

open List

open Occurrence (OccursAt indexOf)

/-- The characters that `normalizeForFuzzyMatch` puts or splits at. -/
def joints : List UInt16 := [newlineCode, 32, 34, 39, 45]

/-- What normal forms are documented to be: stable, closed under substrings, and closed under
joining texts around characters that compose with nothing. -/
structure NfkcLaws (nfkc : CodeUnits → CodeUnits) : Prop where
  idempotent : ∀ text, nfkc (nfkc text) = nfkc text
  substring : ∀ part text, part <:+: text → nfkc text = text → nfkc part = part
  join : ∀ before after c, c ∈ joints → nfkc before = before → nfkc after = after →
    nfkc (before ++ c :: after) = before ++ c :: after

/-! ## Punctuation -/

section Punctuation

variable {c : UInt16}

lemma isWhitespaceUnit_of_wide (hlo : 0x2002 ≤ c) (hhi : c ≤ 0x200a) :
    isWhitespaceUnit c = true := by
  have hless : (0x2000 : UInt16) ≤ 0x2002 := by decide
  have hlo' : (0x2000 : UInt16) ≤ c := UInt16.le_trans hless hlo
  simp [isWhitespaceUnit, hlo', hhi]

/-- A character is kept, or replaced by one that is kept; only white space becomes a space. -/
lemma normalizePunctuation_cases (c : UInt16) :
    normalizePunctuation c = c ∨ normalizePunctuation c ∈ [(34 : UInt16), 39, 45] ∨
      normalizePunctuation c = 32 ∧ isWhitespaceUnit c = true := by
  rw [normalizePunctuation]
  split_ifs with h₁ h₂ h₃ h₄
  · exact .inr (.inl (by decide))
  · exact .inr (.inl (by decide))
  · exact .inr (.inl (by decide))
  · refine .inr (.inr ⟨rfl, ?_⟩)
    rcases h₄ with rfl | ⟨hlo, hhi⟩ | rfl | rfl | rfl
    · rfl
    · exact isWhitespaceUnit_of_wide hlo hhi
    · rfl
    · rfl
    · rfl
  · exact .inl rfl

lemma normalizePunctuation_mem_joints (h : normalizePunctuation c ≠ c) :
    normalizePunctuation c ∈ joints := by
  rcases normalizePunctuation_cases c with hc | hc | ⟨hc, -⟩
  · exact absurd hc h
  · simp only [mem_cons, not_mem_nil, or_false] at hc
    rcases hc with hc | hc | hc <;>
    · rw [hc]
      decide
  · rw [hc]
    decide

@[simp] lemma normalizePunctuation_idem (c : UInt16) :
    normalizePunctuation (normalizePunctuation c) = normalizePunctuation c := by
  rcases normalizePunctuation_cases c with hc | hc | ⟨hc, -⟩
  · rw [hc, hc]
  · simp only [mem_cons, not_mem_nil, or_false] at hc
    rcases hc with hc | hc | hc <;>
    · rw [hc]
      decide
  · rw [hc]
    decide

lemma isWhitespaceUnit_normalizePunctuation (h : isWhitespaceUnit c = false) :
    isWhitespaceUnit (normalizePunctuation c) = false := by
  rcases normalizePunctuation_cases c with hc | hc | ⟨-, hspace⟩
  · rw [hc, h]
  · simp only [mem_cons, not_mem_nil, or_false] at hc
    rcases hc with hc | hc | hc <;>
    · rw [hc]
      decide
  · rw [h] at hspace
    cases hspace

lemma normalizePunctuation_eq_newline_iff :
    normalizePunctuation c = newlineCode ↔ c = newlineCode := by
  constructor
  · intro h
    rcases normalizePunctuation_cases c with hc | hc | ⟨hc, -⟩
    · rw [← hc, h]
    · rw [h] at hc
      exact absurd hc (by decide)
    · rw [h] at hc
      exact absurd hc (by decide)
  · rintro rfl
    rfl

end Punctuation

/-! ## Composed texts -/

section Composed

variable {nfkc : CodeUnits → CodeUnits} (hlaws : NfkcLaws nfkc)
include hlaws

lemma NfkcLaws.map_punctuation {text : CodeUnits} (h : nfkc text = text) :
    nfkc (text.map normalizePunctuation) = text.map normalizePunctuation := by
  induction hn : text.length using Nat.strong_induction_on generalizing text with
  | _ n ih =>
    -- up to the first character that is replaced nothing changes
    cases hfind : text.find? (fun c => normalizePunctuation c ≠ c) with
    | none =>
      have hsame : text.map normalizePunctuation = text := by
        refine (map_congr_left fun c hc => ?_).trans text.map_id
        simpa using find?_eq_none.mp hfind c hc
      rw [hsame, h]
    | some c =>
      obtain ⟨hc, before, after, rfl, hbefore⟩ := find?_eq_some_iff_append.mp hfind
      have hsame : before.map normalizePunctuation = before := by
        refine (map_congr_left fun x hx => ?_).trans before.map_id
        simpa using hbefore x hx
      have hbefore' : nfkc before = before :=
        hlaws.substring before _ (prefix_append before (c :: after)).isInfix h
      have hafter : nfkc after = after := hlaws.substring after _ ⟨before ++ [c], [], by simp⟩ h
      have hmapped := ih after.length (by rw [← hn]; simp; omega) hafter rfl
      rw [map_append, map_cons, hsame]
      exact hlaws.join before _ _ (normalizePunctuation_mem_joints (of_decide_eq_true hc))
        hbefore' hmapped

lemma NfkcLaws.intercalate {lines : List CodeUnits} (hne : lines ≠ [])
    (h : ∀ line ∈ lines, nfkc line = line) :
    nfkc ([newlineCode].intercalate lines) = [newlineCode].intercalate lines := by
  induction lines with
  | nil => exact absurd rfl hne
  | cons line lines ih =>
    rw [forall_mem_cons] at h
    cases lines with
    | nil => simpa using h.1
    | cons line' lines =>
      exact hlaws.join line _ _ (by decide) h.1 (ih (cons_ne_nil _ _) h.2)

end Composed

/-! ## Lines -/

/-- A line of the normalized text. -/
def normalizeLine (line : CodeUnits) : CodeUnits :=
  (line.rdropWhile isWhitespaceUnit).map normalizePunctuation

section Lines

variable {line : CodeUnits} {lines : List CodeUnits}

lemma map_intercalate (lines : List CodeUnits) :
    ([newlineCode].intercalate lines).map normalizePunctuation =
      [newlineCode].intercalate (lines.map (List.map normalizePunctuation)) := by
  induction lines with
  | nil => rfl
  | cons line lines ih =>
    cases lines with
    | nil => simp
    | cons line' lines =>
      rw [intercalate_cons_cons, map_append, map_append, ih]
      exact (intercalate_cons_cons ..).symm

lemma normalizeForFuzzyMatch_eq (nfkc : CodeUnits → CodeUnits) (text : CodeUnits) :
    normalizeForFuzzyMatch nfkc text =
      [newlineCode].intercalate (((nfkc text).splitOn newlineCode).map normalizeLine) := by
  rw [normalizeForFuzzyMatch, map_intercalate, map_map]
  rfl

lemma infix_intercalate (h : line ∈ lines) : line <:+: [newlineCode].intercalate lines := by
  induction lines with
  | nil => cases h
  | cons line' lines ih =>
    cases lines with
    | nil =>
      rw [mem_singleton.mp h, intercalate_singleton]
    | cons line'' lines =>
      rw [intercalate_cons_cons]
      rcases mem_cons.mp h with rfl | h
      · rw [append_assoc]
        exact (prefix_append _ _).isInfix
      · exact (ih h).trans (suffix_append _ _).isInfix

lemma newline_notMem_of_mem_splitOn {text : CodeUnits} (h : line ∈ text.splitOn newlineCode) :
    newlineCode ∉ line := by
  induction text generalizing line with
  | nil =>
    rw [splitOn_nil, mem_singleton] at h
    rw [h]
    exact not_mem_nil
  | cons c text ih =>
    rw [splitOn_cons_eq_if_modifyHead] at h
    split_ifs at h with hc
    · rcases mem_cons.mp h with rfl | h
      · exact not_mem_nil
      · exact ih h
    · obtain ⟨first, rest, hsplit⟩ :=
        exists_cons_of_ne_nil (splitOn_ne_nil newlineCode text)
      rw [hsplit] at h ih
      rcases mem_cons.mp h with rfl | h
      · rw [mem_cons, not_or]
        exact ⟨fun heq => hc (beq_iff_eq.mpr heq.symm), ih mem_cons_self⟩
      · exact ih (mem_cons_of_mem first h)

/-- Nothing is left to normalize in a line. -/
lemma normalizeLine_idem (line : CodeUnits) :
    normalizeLine (normalizeLine line) = normalizeLine line := by
  have htrimmed : (normalizeLine line).rdropWhile isWhitespaceUnit = normalizeLine line := by
    rw [rdropWhile_eq_self_iff]
    intro hne
    have hline : line.rdropWhile isWhitespaceUnit ≠ [] := fun hnil => by
      rw [normalizeLine, hnil] at hne
      exact hne rfl
    have hlast : (normalizeLine line).getLast hne = normalizePunctuation
        ((line.rdropWhile isWhitespaceUnit).getLast hline) := getLast_map _
    rw [hlast, isWhitespaceUnit_normalizePunctuation
      (Bool.not_eq_true _ ▸ rdropWhile_last_not isWhitespaceUnit line hline)]
    exact Bool.false_ne_true
  rw [normalizeLine, htrimmed, normalizeLine, map_map]
  exact map_congr_left fun c _ => normalizePunctuation_idem c

lemma newline_notMem_normalizeLine (h : newlineCode ∉ line) : newlineCode ∉ normalizeLine line := by
  intro hmem
  obtain ⟨c, hc, heq⟩ := List.mem_map.mp hmem
  rw [normalizePunctuation_eq_newline_iff] at heq
  exact h (heq ▸ (List.rdropWhile_prefix _ line).subset hc)

end Lines

/-! ## Normalizing twice -/

/-- A normalized text is composed, and its lines are normalized. -/
lemma normalizeForFuzzyMatch_idem {nfkc : CodeUnits → CodeUnits} (hlaws : NfkcLaws nfkc)
    (text : CodeUnits) : normalizeForFuzzyMatch nfkc (normalizeForFuzzyMatch nfkc text) =
      normalizeForFuzzyMatch nfkc text := by
  have hne : ((nfkc text).splitOn newlineCode).map normalizeLine ≠ [] := by
    rw [Ne, map_eq_nil_iff]
    exact splitOn_ne_nil newlineCode _
  have hcomposed : nfkc (normalizeForFuzzyMatch nfkc text) = normalizeForFuzzyMatch nfkc text := by
    rw [normalizeForFuzzyMatch_eq]
    refine hlaws.intercalate hne fun line hline => ?_
    obtain ⟨piece, hpiece, rfl⟩ := List.mem_map.mp hline
    have hinfix : piece <:+: nfkc text := by
      have h := infix_intercalate hpiece
      rwa [intercalate_splitOn] at h
    refine hlaws.map_punctuation (hlaws.substring _ _ ?_ (hlaws.idempotent text))
    exact (List.rdropWhile_prefix _ piece).isInfix.trans hinfix
  have hlines : (normalizeForFuzzyMatch nfkc text).splitOn newlineCode =
      ((nfkc text).splitOn newlineCode).map normalizeLine := by
    rw [normalizeForFuzzyMatch_eq]
    refine splitOn_intercalate newlineCode (fun line hline => ?_) hne
    obtain ⟨piece, hpiece, rfl⟩ := List.mem_map.mp hline
    exact newline_notMem_normalizeLine (newline_notMem_of_mem_splitOn hpiece)
  rw [normalizeForFuzzyMatch_eq, hcomposed, hlines, map_map, normalizeForFuzzyMatch_eq]
  refine congrArg _ (map_congr_left fun line _ => ?_)
  exact normalizeLine_idem line

/-! ## Places -/

/-- A place in a content whose text normalizes to what the text of an edit does. -/
structure FuzzyPlace (nfkc : CodeUnits → CodeUnits) (base : CodeUnits) (edit : TextEdit)
    (s : Splice) : Prop where
  inside : s.matchIndex + s.matchLength ≤ base.length
  text : normalizeForFuzzyMatch nfkc ((base.drop s.matchIndex).take s.matchLength) =
    normalizeForFuzzyMatch nfkc edit.oldText
  newText : s.newText = edit.newText

section Places

variable {nfkc : CodeUnits → CodeUnits} {content base : CodeUnits} {edits : List TextEdit}
  {edit : TextEdit}

lemma take_drop_of_indexOf {pattern : CodeUnits} {i : ℕ} (h : indexOf pattern base = some i) :
    (base.drop i).take pattern.length = pattern := by
  by_cases hne : pattern = []
  · rw [hne]
    rfl
  · obtain ⟨after, hafter⟩ := Occurrence.occursAt_of_indexOf hne h
    rw [← hafter, take_left]

/-- What is found in a content that is normalized already is a place in it. -/
lemma fuzzyPlace_spliceOf (hbase : normalizeForFuzzyMatch nfkc base = base)
    (hidem : ∀ text, normalizeForFuzzyMatch nfkc (normalizeForFuzzyMatch nfkc text) =
      normalizeForFuzzyMatch nfkc text)
    (hfound : (fuzzyFindText nfkc base edit.oldText).found = true) :
    (fuzzyFindText nfkc base edit.oldText).contentForReplacement = base ∧
      FuzzyPlace nfkc base edit (spliceOf nfkc base edit) := by
  cases hexact : indexOf edit.oldText base with
  | some i =>
    have hres : fuzzyFindText nfkc base edit.oldText =
        ⟨true, i, edit.oldText.length, false, base⟩ := by rw [fuzzyFindText, hexact]
    rw [hres]
    refine ⟨rfl, ?_, ?_, rfl⟩
    · rw [spliceOf, hres]
      exact Occurrence.length_add_le_of_indexOf hexact
    · rw [spliceOf, hres, Int.toNat_natCast, take_drop_of_indexOf hexact]
  | none =>
    cases hfuzzy : indexOf (normalizeForFuzzyMatch nfkc edit.oldText) base with
    | none =>
      rw [fuzzyFindText, hexact] at hfound
      simp only [hbase, hfuzzy] at hfound
      cases hfound
    | some i =>
      have hres : fuzzyFindText nfkc base edit.oldText =
          ⟨true, i, (normalizeForFuzzyMatch nfkc edit.oldText).length, true, base⟩ := by
        rw [fuzzyFindText, hexact]
        simp only [hbase, hfuzzy]
      rw [hres]
      refine ⟨rfl, ?_, ?_, rfl⟩
      · rw [spliceOf, hres]
        exact Occurrence.length_add_le_of_indexOf hfuzzy
      · rw [spliceOf, hres, Int.toNat_natCast, take_drop_of_indexOf hfuzzy, hidem]

/-- **Fuzzy matches** are places in the content that is changed: normalizing twice is normalizing
once, what is found for an edit is a place in the normalized content whose text normalizes to that
of the edit, and the replacements are made at these places. -/
theorem fuzzyMatches_inBase (hlaws : NfkcLaws nfkc) :
    (∀ text, normalizeForFuzzyMatch nfkc (normalizeForFuzzyMatch nfkc text) =
      normalizeForFuzzyMatch nfkc text) ∧
    ∀ content edits path, (∃ edit ∈ edits,
        (fuzzyFindText nfkc content edit.normalized.oldText).usedFuzzyMatch = true) →
      let base := normalizeForFuzzyMatch nfkc content
      baseContentFor nfkc content (edits.map TextEdit.normalized) = base ∧
      (∀ edit ∈ edits, (fuzzyFindText nfkc base edit.normalized.oldText).found = true →
        (fuzzyFindText nfkc base edit.normalized.oldText).contentForReplacement = base ∧
          FuzzyPlace nfkc base edit.normalized (spliceOf nfkc base edit.normalized)) ∧
      ∀ result, applyEditsToNormalizedContent nfkc content edits path = .ok result →
        result.baseContent = base ∧ ∃ found splices,
          List.Forall₂ (fun edit => FuzzyPlace nfkc base edit.normalized) edits found ∧
          splices.Perm found ∧ splices.Pairwise Splice.Before ∧
          Spliced 0 splices base result.newContent := by
  have hidem := normalizeForFuzzyMatch_idem hlaws
  refine ⟨hidem, fun content edits path hfuzzy => ?_⟩
  intro base
  have hbase : baseContentFor nfkc content (edits.map TextEdit.normalized) = base := by
    obtain ⟨edit, hedit, hused⟩ := hfuzzy
    rw [baseContentFor, if_pos]
    exact any_eq_true.mpr ⟨edit.normalized, mem_map_of_mem hedit, hused⟩
  have hplace (edit : TextEdit) := @fuzzyPlace_spliceOf nfkc base edit (hidem content) hidem
  refine ⟨hbase, fun edit _ => hplace edit.normalized, fun result hresult => ?_⟩
  obtain ⟨splices, happlies, hresultBase, hnew, -⟩ := applies_of_ok hresult
  rw [hbase] at hresultBase
  rw [hresultBase] at happlies hnew
  have hfound : List.Forall₂ (fun edit => FuzzyPlace nfkc base edit.normalized) edits
      (edits.map fun edit => spliceOf nfkc base edit.normalized) := by
    rw [forall₂_map_right_iff, forall₂_same]
    exact fun edit hedit =>
      (hplace edit.normalized (happlies.found _ (mem_map_of_mem hedit))).2
  have hperm : splices.Perm (edits.map fun edit => spliceOf nfkc base edit.normalized) := by
    have hperm := happlies.perm
    rwa [map_map] at hperm
  obtain ⟨rest, hrest, hspliced⟩ := @spliced_foldr base 0 splices happlies.disjoint
    (fun s hs => by
      obtain ⟨edit, -, hs⟩ := exists_of_mem_forall₂ hfound (hperm.mem_iff.mp hs)
      exact ⟨Nat.zero_le _, hs.inside⟩) (Nat.zero_le _)
  rw [take_zero, nil_append] at hrest
  rw [drop_zero, ← hrest, ← hnew] at hspliced
  exact ⟨hresultBase, _, splices, hfound, hperm, happlies.disjoint, hspliced⟩

end Places

/-! ## Two compositions -/

/-- On texts of ASCII characters and no-break spaces, the composition. -/
def nfkcSpaces (text : CodeUnits) : CodeUnits := text.map fun c => if c = 0xa0 then 32 else c

lemma nfkcLaws_spaces : NfkcLaws nfkcSpaces where
  idempotent text := by
    rw [nfkcSpaces, nfkcSpaces, map_map]
    refine map_congr_left fun c _ => ?_
    by_cases hc : c = 0xa0
    · rw [hc]
      rfl
    · simp [hc]
  substring part text hpart htext := by
    obtain ⟨before, after, rfl⟩ := hpart
    rw [nfkcSpaces, map_append, map_append] at htext
    have hlen : (before.map fun c => if c = (0xa0 : UInt16) then 32 else c).length =
        before.length := length_map _
    have hfirst := (append_inj htext (by simp)).1
    exact (append_inj hfirst hlen).2
  join before after c hc hbefore hafter := by
    have hkept : (if c = 0xa0 then 32 else c) = c := by
      rw [if_neg]
      rintro rfl
      exact absurd hc (by decide)
    rw [nfkcSpaces, map_append, map_cons, hkept]
    exact congrArg₂ _ hbefore (congrArg _ hafter)

/-- A text with a plain space is found in one with a no-break space. -/
theorem fuzzyMatches_inBase_spaces :
    applyEditsToNormalizedContent nfkcSpaces [97, 0xa0, 98] [⟨[97, 32, 98], [99]⟩] "f" =
        .ok ⟨[97, 32, 98], [99]⟩ ∧
      ∃ found splices, List.Forall₂ (fun edit : TextEdit =>
          FuzzyPlace nfkcSpaces [97, 32, 98] edit.normalized) [⟨[97, 32, 98], [99]⟩] found ∧
        splices.Perm found ∧ splices.Pairwise Splice.Before ∧
        Spliced 0 splices [97, 32, 98] [99] := by
  have hresult : applyEditsToNormalizedContent nfkcSpaces [97, 0xa0, 98]
      [⟨[97, 32, 98], [99]⟩] "f" = .ok ⟨[97, 32, 98], [99]⟩ := by decide +kernel
  have hplaces := ((fuzzyMatches_inBase nfkcLaws_spaces).2 [97, 0xa0, 98]
    [⟨[97, 32, 98], [99]⟩] "f" ⟨_, mem_singleton_self _, by decide +kernel⟩).2.2 _ hresult
  have hbase : normalizeForFuzzyMatch nfkcSpaces [97, 0xa0, 98] = [97, 32, 98] := by
    decide +kernel
  exact ⟨hresult, hplaces.2⟩

/-- A composition of a hyphen with an overlay, and of nothing else. -/
def composeOverlay (text : CodeUnits) : CodeUnits := if text = [45, 0x338] then [0x2260] else text

/-- It is idempotent and leaves texts without an overlay alone; but a minus sign is not composed,
and the hyphen it becomes is. -/
theorem normalize_not_idempotent :
    (∀ text, composeOverlay (composeOverlay text) = composeOverlay text) ∧
      (∀ text, 0x338 ∉ text → composeOverlay text = text) ∧
      normalizeForFuzzyMatch composeOverlay [0x2212, 0x338] = [45, 0x338] ∧
      normalizeForFuzzyMatch composeOverlay [45, 0x338] = [0x2260] := by
  refine ⟨fun text => ?_, fun text htext => ?_, by decide +kernel, by decide +kernel⟩
  · by_cases h : text = [45, 0x338]
    · rw [h]
      decide
    · have hkept : composeOverlay text = text := if_neg h
      rw [hkept, hkept]
  · refine if_neg ?_
    rintro rfl
    exact htext (by simp)

end Amide
