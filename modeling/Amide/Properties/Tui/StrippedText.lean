import Amide.Construction.Tui.Utils

/-!
# Stripped text

`stripAnsi` leaves no escape but before a line terminator or at the end (`Stripped`), so that it has
nothing to do a second time.  Where it takes a string for the same sequences as `visibleWidth` does
(`readAlike`), what it leaves is as wide as the string.
-/

namespace Amide

open List

open StdinBuffer (ESC)

/-- What the pass over common sequences leaves of a sequence is nothing, or one sequence. -/
def readWhole (sequence : CodeUnits) : Bool :=
  let left := withoutCommonCsi sequence
  left.isEmpty || extractAnsi left = some left.length

/-- Each sequence is one without the common ones inside of it, and each escape that begins none is,
without the common ones behind it, before a line terminator or the end. -/
def readAlike (str : CodeUnits) : Bool :=
  match str with
  | [] => true
  | c :: rest =>
    if c ≠ ESC then readAlike rest
    else
      match extractAnsi (c :: rest) with
      | some length =>
        readWhole ((c :: rest).take length) && readAlike (rest.drop (length - 1))
      | none => (withoutCommonCsi rest).head?.all isLineTerminator && readAlike rest
termination_by str.length
decreasing_by all_goals simp; try omega

/-- A printable ASCII character is a cluster one column wide. -/
structure UnicodeTables.Laws (tables : UnicodeTables) : Prop where
  segment_ascii : ∀ s, isPrintableAscii s → tables.segment s = s.map fun c => [c]
  zeroWidth_ascii : ∀ c, isPrintableAscii [c] → tables.zeroWidthRegex [c] = false
  base_ascii : ∀ c, isPrintableAscii [c] → tables.withoutLeadingNonPrinting [c] = [c]
  width_ascii : ∀ c, isPrintableAscii [c] → tables.eastAsianWidth c.toNat = 1

structure KeepsColumns (tables : UnicodeTables) (str : CodeUnits) : Prop where
  width : visibleWidth tables (stripAnsi str) = visibleWidth tables str
  again : stripAnsi (stripAnsi str) = stripAnsi str

variable {body rest sequence s t : CodeUnits} {c : UInt16} {n : ℕ} {allowBel hasIntermediate : Bool}

/-! ## Sequences -/

lemma controlStringLength_cons (allowBel : Bool) (c : UInt16) (rest : CodeUnits) :
    controlStringLength allowBel (c :: rest) = if allowBel && c = BEL then some 1
      else if c = ESC && rest.head? = some 92 then some 2
      else (controlStringLength allowBel rest).map (· + 1) := rfl

/-- The cache has the end that the search finds. -/
lemma cachedEnd_eq (allowBel : Bool) (rest : CodeUnits) :
    cachedEnd allowBel rest = controlStringLength allowBel rest := by
  induction rest with
  | nil => rfl
  | cons c rest ih =>
    rw [controlStringLength_cons, ← ih, cachedEnd, cachedEnd, nextTerminators]
    rcases nextTerminators rest with ⟨nextBel, nextSt⟩
    by_cases hbel : c = BEL
    · have hesc : BEL ≠ ESC := by decide
      cases allowBel <;> cases nextBel <;> cases nextSt <;> simp [hbel, hesc]
    · by_cases hst : (decide (c = ESC) && decide (rest.head? = some 92)) = true
      · cases allowBel <;> cases nextBel <;> cases nextSt <;> simp [hbel, hst]
      · cases allowBel <;> cases nextBel <;> cases nextSt <;> simp [hbel, hst]
        split_ifs <;> rfl

/-- A whole control string, behind its introducer. -/
inductive ControlString (allowBel : Bool) : CodeUnits → Prop
  | bel (hbel : allowBel = true) : ControlString allowBel [BEL]
  | st : ControlString allowBel [ESC, 92]
  | cons {c : UInt16} {body : CodeUnits} (hbel : (allowBel && decide (c = BEL)) = false)
      (hst : (decide (c = ESC) && decide (body.head? = some 92)) = false)
      (h : ControlString allowBel body) : ControlString allowBel (c :: body)

lemma ControlString.head?_append (h : ControlString allowBel body) (t : CodeUnits) :
    (body ++ t).head? = body.head? := by
  cases h <;> rfl

lemma ControlString.length_append (h : ControlString allowBel body) (t : CodeUnits) :
    controlStringLength allowBel (body ++ t) = some body.length := by
  induction h with
  | bel hbel => simp [controlStringLength_cons, hbel]
  | st => simp [controlStringLength_cons, ESC, BEL]
  | cons hbel hst h ih =>
    rw [cons_append, controlStringLength_cons, h.head?_append, hbel, hst, ih]
    rfl

lemma exists_controlString (h : controlStringLength allowBel s = some n) :
    ∃ body rest, ControlString allowBel body ∧ s = body ++ rest ∧ body.length = n := by
  induction s generalizing n with
  | nil => cases h
  | cons c s ih =>
    rw [controlStringLength_cons] at h
    split_ifs at h with hbel hst
    · obtain ⟨rfl, hc⟩ : allowBel = true ∧ c = BEL := by simpa using hbel
      exact ⟨[BEL], s, .bel rfl, hc ▸ rfl, by simpa using h⟩
    · obtain ⟨rfl, hhead⟩ : c = ESC ∧ s.head? = some 92 := by simpa using hst
      obtain ⟨rest, rfl⟩ := head?_eq_some_iff.mp hhead
      exact ⟨[ESC, 92], rest, .st, rfl, by simpa using h⟩
    · obtain ⟨m, hm, rfl⟩ := Option.map_eq_some_iff.mp h
      obtain ⟨body, rest, hbody, rfl, rfl⟩ := ih hm
      rw [hbody.head?_append] at hst
      exact ⟨c :: body, rest, .cons (Bool.eq_false_iff.mpr hbel) (Bool.eq_false_iff.mpr hst) hbody,
        rfl, rfl⟩

lemma ControlString.exists_last (h : ControlString allowBel body) :
    ∃ before last, body = before ++ [last] ∧ (last = BEL ∨ last = 92) := by
  induction h with
  | bel _ => exact ⟨[], BEL, rfl, .inl rfl⟩
  | st => exact ⟨[ESC], 92, rfl, .inr rfl⟩
  | @cons c _ _ _ _ ih =>
    obtain ⟨before, last, rfl, hlast⟩ := ih
    exact ⟨c :: before, last, rfl, hlast⟩

/-- A whole CSI sequence, behind its bracket. -/
inductive CsiBody : Bool → CodeUnits → Prop
  | final {hasIntermediate : Bool} {c : UInt16} (hc : 0x40 ≤ c ∧ c ≤ 0x7E) :
      CsiBody hasIntermediate [c]
  | parameter {c : UInt16} {body : CodeUnits} (hc : 0x30 ≤ c ∧ c ≤ 0x3F) (h : CsiBody false body) :
      CsiBody false (c :: body)
  | intermediate {hasIntermediate : Bool} {c : UInt16} {body : CodeUnits}
      (hc : 0x20 ≤ c ∧ c ≤ 0x2F) (h : CsiBody true body) : CsiBody hasIntermediate (c :: body)

lemma csiLength_cons (hasIntermediate : Bool) (byte : UInt16) (rest : CodeUnits) :
    csiLength hasIntermediate (byte :: rest) =
      if 0x30 ≤ byte && byte ≤ 0x3F && !hasIntermediate then
        (csiLength hasIntermediate rest).map (· + 1)
      else if 0x20 ≤ byte && byte ≤ 0x2F then (csiLength true rest).map (· + 1)
      else if 0x40 ≤ byte && byte ≤ 0x7E then some 1
      else none := rfl

lemma CsiBody.length_append (h : CsiBody hasIntermediate body) (t : CodeUnits) :
    csiLength hasIntermediate (body ++ t) = some body.length := by
  induction h with
  | @final hasIntermediate c hc =>
    have hparam : ¬c ≤ 0x3F := UInt16.not_le.mpr (UInt16.lt_of_lt_of_le (by decide) hc.1)
    have hintermediate : ¬c ≤ 0x2F := UInt16.not_le.mpr (UInt16.lt_of_lt_of_le (by decide) hc.1)
    simp [csiLength_cons, hparam, hintermediate, hc]
  | parameter hc h ih => simp [csiLength_cons, hc, ih]
  | @intermediate hasIntermediate c body hc h ih =>
    have hparam : ¬0x30 ≤ c := UInt16.not_le.mpr (UInt16.lt_of_le_of_lt hc.2 (by decide))
    simp [csiLength_cons, hparam, hc, ih]

lemma exists_csiBody (h : csiLength hasIntermediate s = some n) :
    ∃ body rest, CsiBody hasIntermediate body ∧ s = body ++ rest ∧ body.length = n := by
  induction s generalizing n hasIntermediate with
  | nil => cases h
  | cons c s ih =>
    rw [csiLength_cons] at h
    split_ifs at h with hparam hintermediate hfinal
    · obtain ⟨m, hm, rfl⟩ := Option.map_eq_some_iff.mp h
      obtain ⟨hc, rfl⟩ : (0x30 ≤ c ∧ c ≤ 0x3F) ∧ hasIntermediate = false := by
        simpa using hparam
      obtain ⟨body, rest, hbody, rfl, rfl⟩ := ih hm
      exact ⟨c :: body, rest, .parameter hc hbody, rfl, rfl⟩
    · obtain ⟨m, hm, rfl⟩ := Option.map_eq_some_iff.mp h
      obtain ⟨body, rest, hbody, rfl, rfl⟩ := ih hm
      exact ⟨c :: body, rest, .intermediate (by simpa using hintermediate) hbody, rfl, rfl⟩
    · exact ⟨[c], s, .final (by simpa using hfinal), rfl, by simpa using h⟩

lemma CsiBody.exists_last (h : CsiBody hasIntermediate body) :
    ∃ before last, body = before ++ [last] ∧ 0x40 ≤ last := by
  induction h with
  | @final _ c hc => exact ⟨[], c, rfl, hc.1⟩
  | @parameter c _ _ _ ih | @intermediate _ c _ _ _ ih =>
    obtain ⟨before, last, rfl, hlast⟩ := ih
    exact ⟨c :: before, last, rfl, hlast⟩

lemma CsiBody.le_of_mem (h : CsiBody hasIntermediate body) : ∀ c ∈ body, 0x20 ≤ c := by
  induction h with
  | final hc => exact forall_mem_singleton.mpr (UInt16.le_trans (by decide) hc.1)
  | parameter hc _ ih => exact forall_mem_cons.mpr ⟨UInt16.le_trans (by decide) hc.1, ih⟩
  | intermediate hc _ ih => exact forall_mem_cons.mpr ⟨hc.1, ih⟩

/-- A whole escape sequence. -/
inductive AnsiSequence : CodeUnits → Prop
  | csi {body : CodeUnits} (h : CsiBody false body) : AnsiSequence (ESC :: 91 :: body)
  | control {next : UInt16} {allowBel : Bool} {body : CodeUnits}
      (hnext : (next, allowBel) ∈ [(93, true), (95, true), (80, false), (94, false), (88, false)])
      (h : ControlString allowBel body) : AnsiSequence (ESC :: next :: body)

lemma extractAnsi_of_ne (h : c ≠ ESC) (rest : CodeUnits) : extractAnsi (c :: rest) = none := by
  cases rest with
  | nil => rfl
  | cons next rest => rw [extractAnsi, if_pos h]

lemma AnsiSequence.extractAnsi_append (h : AnsiSequence sequence) (t : CodeUnits) :
    extractAnsi (sequence ++ t) = some sequence.length := by
  cases h with
  | csi h =>
    have hlen := h.length_append t
    simp [extractAnsi, hlen]
  | control hnext h =>
    have hlen := h.length_append t
    simp only [mem_cons, Prod.mk.injEq, not_mem_nil, or_false] at hnext
    rcases hnext with ⟨rfl, rfl⟩ | ⟨rfl, rfl⟩ | ⟨rfl, rfl⟩ | ⟨rfl, rfl⟩ | ⟨rfl, rfl⟩ <;>
      simp [extractAnsi, hlen]

lemma exists_sequence (h : extractAnsi s = some n) :
    ∃ sequence rest, AnsiSequence sequence ∧ s = sequence ++ rest ∧ sequence.length = n := by
  rcases s with _ | ⟨c, _ | ⟨next, s⟩⟩
  · cases h
  · cases h
  · rw [extractAnsi] at h
    split_ifs at h with hesc hcsi hosc hdcs
    · obtain ⟨m, hm, rfl⟩ := Option.map_eq_some_iff.mp h
      obtain ⟨body, rest, hbody, rfl, rfl⟩ := exists_csiBody hm
      rw [not_not] at hesc
      exact ⟨ESC :: 91 :: body, rest, .csi hbody, by rw [hesc, hcsi]; rfl, rfl⟩
    · obtain ⟨m, hm, rfl⟩ := Option.map_eq_some_iff.mp h
      obtain ⟨body, rest, hbody, rfl, rfl⟩ := exists_controlString hm
      rw [not_not] at hesc
      refine ⟨ESC :: next :: body, rest, .control (by simp at hosc ⊢; tauto) hbody, ?_, rfl⟩
      rw [hesc]
      rfl
    · obtain ⟨m, hm, rfl⟩ := Option.map_eq_some_iff.mp h
      obtain ⟨body, rest, hbody, rfl, rfl⟩ := exists_controlString hm
      rw [not_not] at hesc
      refine ⟨ESC :: next :: body, rest, .control (by simp at hdcs ⊢; tauto) hbody, ?_, rfl⟩
      rw [hesc]
      rfl

lemma AnsiSequence.exists_cons (h : AnsiSequence sequence) :
    ∃ next body, sequence = ESC :: next :: body := by
  cases h with
  | @csi body _ => exact ⟨91, body, rfl⟩
  | @control next _ body _ _ => exact ⟨next, body, rfl⟩

lemma AnsiSequence.front (h : AnsiSequence sequence) (rest : CodeUnits) :
    ∃ c s, sequence ++ rest = c :: s ∧ extractAnsi (c :: s) = some sequence.length ∧
      (c :: s).take sequence.length = sequence ∧ s.drop (sequence.length - 1) = rest := by
  have hext := h.extractAnsi_append rest
  have htake : (sequence ++ rest).take sequence.length = sequence := take_left
  obtain ⟨next, body, rfl⟩ := h.exists_cons
  exact ⟨ESC, next :: body ++ rest, rfl, hext, htake, drop_left⟩

/-- A string is read from the left, by whole sequences, lone escapes and other characters. -/
theorem sequences_induction {motive : CodeUnits → Prop} (nil : motive [])
    (other : ∀ c rest, c ≠ ESC → motive rest → motive (c :: rest))
    (sequence : ∀ sequence rest, AnsiSequence sequence → motive rest → motive (sequence ++ rest))
    (escape : ∀ rest, extractAnsi (ESC :: rest) = none → motive rest → motive (ESC :: rest))
    (str : CodeUnits) : motive str := by
  induction hlen : str.length using Nat.strongRecOn generalizing str with
  | _ length ih =>
    rcases str with _ | ⟨c, rest⟩
    · exact nil
    · have hrest := ih rest.length (by rw [← hlen]; exact Nat.lt_succ_self _) rest rfl
      by_cases hc : c = ESC
      · subst hc
        cases hext : extractAnsi (ESC :: rest) with
        | none => exact escape rest hext hrest
        | some n =>
          obtain ⟨found, after, hfound, heq, -⟩ := exists_sequence hext
          have hshorter : after.length < length := by
            obtain ⟨next, body, rfl⟩ := hfound.exists_cons
            rw [← hlen, heq, List.length_append, length_cons]
            omega
          rw [heq]
          exact sequence found after hfound (ih _ hshorter after rfl)
      · exact other c rest hc hrest

lemma withoutSequences_of_none (h : extractAnsi (c :: rest) = none) :
    withoutSequences (c :: rest) = c :: withoutSequences rest := by
  rw [withoutSequences, h]

lemma withoutSequences_sequence (h : AnsiSequence sequence) (rest : CodeUnits) :
    withoutSequences (sequence ++ rest) = withoutSequences rest := by
  obtain ⟨c, s, heq, hext, -, hdrop⟩ := h.front rest
  rw [heq, withoutSequences, hext]
  simp only [hdrop]

lemma stripRest_of_ne (h : c ≠ ESC) (rest : CodeUnits) :
    stripRest (c :: rest) = c :: stripRest rest := by
  rw [stripRest.eq_def]
  simp only [ne_eq, h, not_false_eq_true, if_true]

lemma stripRest_sequence (h : AnsiSequence sequence) (rest : CodeUnits) :
    stripRest (sequence ++ rest) = stripRest rest := by
  have hext := h.extractAnsi_append rest
  obtain ⟨next, body, rfl⟩ := h.exists_cons
  rw [cons_append, cons_append] at hext ⊢
  rw [stripRest.eq_def]
  simp [hext]

lemma readAlike_of_ne (h : c ≠ ESC) (rest : CodeUnits) :
    readAlike (c :: rest) = readAlike rest := by
  rw [readAlike, if_pos h]

lemma readAlike_sequence (h : AnsiSequence sequence) (rest : CodeUnits) :
    readAlike (sequence ++ rest) = (readWhole sequence && readAlike rest) := by
  have hext := h.extractAnsi_append rest
  obtain ⟨next, body, rfl⟩ := h.exists_cons
  rw [cons_append] at hext ⊢
  rw [readAlike, hext]
  simp

lemma readAlike_of_none (h : extractAnsi (ESC :: rest) = none) : readAlike (ESC :: rest) =
      ((withoutCommonCsi rest).head?.all isLineTerminator && readAlike rest) := by
  rw [readAlike, h]
  simp

/-! ## The common sequences -/

lemma isCommonParameter_iff : isCommonParameter c ↔ 0x30 ≤ c ∧ c ≤ 0x3F := by
  simp only [isCommonParameter, Bool.or_eq_true, Bool.and_eq_true, decide_eq_true_eq,
    ← UInt16.toNat_inj, UInt16.le_iff_toNat_le, UInt16.reduceToNat]
  omega

lemma commonCsiLength_append (h : ∃ d ∈ s, isCommonParameter d = false) (t : CodeUnits) :
    commonCsiLength (s ++ t) = commonCsiLength s := by
  induction s with
  | nil => obtain ⟨d, hd, -⟩ := h; cases hd
  | cons c s ih =>
    rw [cons_append, commonCsiLength, commonCsiLength]
    split_ifs with hc
    · obtain ⟨d, hd, hparam⟩ := h
      have hs : d ∈ s := by
        refine (mem_cons.mp hd).resolve_left ?_
        rintro rfl
        rw [hc] at hparam
        cases hparam
      rw [ih ⟨d, hs, hparam⟩]
    · rfl
    · rfl

lemma csiLength_of_common (h : commonCsiLength s = some n) : csiLength false s = some n := by
  induction s generalizing n with
  | nil => cases h
  | cons c s ih =>
    rw [commonCsiLength] at h
    split_ifs at h with hparam hfinal
    · obtain ⟨m, hm, rfl⟩ := Option.map_eq_some_iff.mp h
      rw [isCommonParameter_iff] at hparam
      simp [csiLength_cons, hparam, ih hm]
    · obtain ⟨hlow, hhigh⟩ : 0x40 ≤ c ∧ c ≤ 0x7E := by simpa using hfinal
      have hbody : CsiBody false [c] := .final ⟨hlow, hhigh⟩
      rw [← h]
      exact hbody.length_append s

lemma withoutCommonCsi_of_ne (h : c ≠ ESC) (rest : CodeUnits) :
    withoutCommonCsi (c :: rest) = c :: withoutCommonCsi rest := by
  rw [withoutCommonCsi, decide_eq_false h]
  rfl

lemma withoutCommonCsi_bracket (rest : CodeUnits) : withoutCommonCsi (ESC :: 91 :: rest) =
      match commonCsiLength rest with
      | some length => withoutCommonCsi (rest.drop length)
      | none => ESC :: withoutCommonCsi (91 :: rest) := by
  rw [withoutCommonCsi]
  cases hlen : commonCsiLength rest <;> simp [hlen]

lemma withoutCommonCsi_of_head (h : rest.head? ≠ some 91) :
    withoutCommonCsi (ESC :: rest) = ESC :: withoutCommonCsi rest := by
  rw [withoutCommonCsi, decide_eq_false h]
  rfl

lemma withoutCommonCsi_of_none (h : extractAnsi (ESC :: rest) = none) :
    withoutCommonCsi (ESC :: rest) = ESC :: withoutCommonCsi rest := by
  by_cases hhead : rest.head? = some 91
  · obtain ⟨body, rfl⟩ := head?_eq_some_iff.mp hhead
    have hcommon : commonCsiLength body = none := by
      by_contra hsome
      obtain ⟨n, hn⟩ := Option.ne_none_iff_exists'.mp hsome
      simp [extractAnsi, csiLength_of_common hn] at h
    rw [withoutCommonCsi_bracket, hcommon]
  · exact withoutCommonCsi_of_head hhead

/-- No match of a common sequence leads out of the string. -/
def CsiClosed (s : CodeUnits) : Prop :=
  ∀ before after, s = before ++ ESC :: after →
    after ≠ [] ∧ ∀ rest, after = 91 :: rest → ∃ c ∈ rest, isCommonParameter c = false

lemma CsiClosed.of_append (h : CsiClosed (s ++ t)) : CsiClosed t := by
  intro before after heq
  exact h (s ++ before) after (by rw [heq, append_assoc])

lemma CsiClosed.withoutCommonCsi_append (h : CsiClosed s) (t : CodeUnits) :
    withoutCommonCsi (s ++ t) = withoutCommonCsi s ++ withoutCommonCsi t := by
  induction hlen : s.length using Nat.strongRecOn generalizing s with
  | _ length ih =>
    rcases s with _ | ⟨c, s⟩
    · rw [withoutCommonCsi]
      rfl
    · have hrest := ih s.length (by rw [← hlen]; exact Nat.lt_succ_self _)
        (CsiClosed.of_append (s := [c]) h) rfl
      by_cases hc : c = ESC
      · subst hc
        obtain ⟨hne, hstop⟩ := h [] s rfl
        by_cases hhead : s.head? = some 91
        · obtain ⟨body, rfl⟩ := head?_eq_some_iff.mp hhead
          rw [cons_append, cons_append, withoutCommonCsi_bracket,
            withoutCommonCsi_bracket, commonCsiLength_append (hstop body rfl)]
          cases hcommon : commonCsiLength body with
          | none =>
            rw [← cons_append, hrest]
            rfl
          | some n =>
            obtain ⟨found, after, -, rfl, rfl⟩ := exists_csiBody (csiLength_of_common hcommon)
            have hshorter : after.length < length := by
              rw [← hlen, length_cons, length_cons, List.length_append]
              omega
            have hclosed : CsiClosed after := CsiClosed.of_append (s := ESC :: 91 :: found) h
            simp only [append_assoc, drop_left]
            exact ih _ hshorter hclosed rfl
        · have happended : (s ++ t).head? ≠ some 91 := by
            rwa [head?_append_of_ne_nil s hne]
          rw [cons_append, withoutCommonCsi_of_head hhead, withoutCommonCsi_of_head happended,
            hrest]
          rfl
      · rw [cons_append, withoutCommonCsi_of_ne hc, withoutCommonCsi_of_ne hc, hrest]
        rfl

lemma csiClosed_concat {last : UInt16} (hesc : last ≠ ESC)
    (hparam : isCommonParameter last = false) (hbracket : last = 91 → s.getLast? ≠ some ESC) :
    CsiClosed (s ++ [last]) := by
  intro before after heq
  rcases eq_nil_or_concat' after with rfl | ⟨middle, last', rfl⟩
  · exact absurd (append_inj_right' heq rfl) (by simpa using hesc)
  · rw [← cons_append, ← append_assoc] at heq
    obtain ⟨hs, hlast⟩ := append_inj' heq rfl
    obtain rfl : last = last' := by simpa using hlast
    refine ⟨append_ne_nil_of_right_ne_nil _ (cons_ne_nil _ _), fun rest hrest => ?_⟩
    rcases middle with _ | ⟨d, middle⟩
    · have hlast : last = 91 := by simpa using congrArg List.head? hrest
      refine absurd ?_ (hbracket hlast)
      rw [hs, getLast?_concat]
    · rw [cons_append, List.cons.injEq] at hrest
      exact ⟨last, hrest.2 ▸ mem_append_right _ (mem_singleton_self _), hparam⟩

lemma AnsiSequence.csiClosed (h : AnsiSequence sequence) : CsiClosed sequence := by
  cases h with
  | csi h =>
    obtain ⟨before, last, rfl, hlast⟩ := h.exists_last
    have hesc : ∀ c ∈ before, c ≠ ESC := by
      rintro c hc rfl
      exact absurd (h.le_of_mem ESC (mem_append_left _ hc)) (by decide)
    have hparam : isCommonParameter last = false := by
      rw [← Bool.not_eq_true, isCommonParameter_iff]
      exact fun h => absurd (UInt16.le_trans hlast h.2) (by decide)
    refine csiClosed_concat (s := ESC :: 91 :: before) ?_ hparam fun _ => ?_
    · rintro rfl
      exact absurd hlast (by decide)
    · intro hend
      rw [getLast?_cons_cons] at hend
      rcases mem_cons.mp (mem_of_getLast? hend) with hmem | hmem
      · cases hmem
      · exact hesc ESC hmem rfl
  | @control next _ body _ h =>
    obtain ⟨before, last, rfl, hlast⟩ := h.exists_last
    refine csiClosed_concat (s := ESC :: next :: before) ?_ ?_ fun h => ?_
    · rcases hlast with rfl | rfl <;> decide
    · rcases hlast with rfl | rfl <;> decide
    · rcases hlast with rfl | rfl <;> cases h

/-! ## What is stripped -/

/-- An escape stands before a line terminator or at the end. -/
inductive Stripped : CodeUnits → Prop
  | nil : Stripped []
  | last : Stripped [ESC]
  | other {c : UInt16} {s : CodeUnits} (hc : c ≠ ESC) (h : Stripped s) : Stripped (c :: s)
  | line {c : UInt16} {s : CodeUnits} (hc : isLineTerminator c) (h : Stripped (c :: s)) :
      Stripped (ESC :: c :: s)

lemma ne_of_isLineTerminator (h : isLineTerminator c) : c ≠ ESC := by
  rintro rfl
  exact absurd h (by decide)

lemma extractAnsi_line (h : isLineTerminator c) (rest : CodeUnits) :
    extractAnsi (ESC :: c :: rest) = none := by
  simp only [isLineTerminator, Bool.or_eq_true, decide_eq_true_eq] at h
  rcases h with ((rfl | rfl) | rfl) | rfl <;> rfl

lemma stripRest_line (h : isLineTerminator c) (rest : CodeUnits) :
    stripRest (ESC :: c :: rest) = ESC :: stripRest (c :: rest) := by
  rw [stripRest.eq_def]
  simp [extractAnsi_line h, h]

lemma stripRest_escape : stripRest [ESC] = [ESC] := by
  rw [stripRest.eq_def]
  rfl

lemma stripped_stripRest (input : CodeUnits) : Stripped (stripRest input) := by
  fun_induction stripRest input with
  | case1 => exact .nil
  | case2 c rest hc ih => exact .other hc ih
  | case3 c rest hc length _ ih => exact ih
  | case4 c hc _ =>
    rw [not_not] at hc
    exact hc ▸ .last
  | case5 c hc next after _ _ ih => exact ih
  | case6 c hc next after hnext _ ih =>
    rw [not_not] at hc
    have hline : isLineTerminator next := by simpa using hnext
    rw [stripRest_of_ne (ne_of_isLineTerminator hline)] at ih ⊢
    exact hc ▸ .line hline ih

lemma Stripped.withoutSequences_eq (h : Stripped s) : withoutSequences s = s := by
  induction h with
  | nil => rw [withoutSequences]
  | last =>
    rw [withoutSequences_of_none rfl, withoutSequences]
  | other hc _ ih => rw [withoutSequences_of_none (extractAnsi_of_ne hc _), ih]
  | line hc _ ih => rw [withoutSequences_of_none (extractAnsi_line hc _), ih]

lemma Stripped.stripRest_eq (h : Stripped s) : stripRest s = s := by
  induction h with
  | nil => rw [stripRest]
  | last => exact stripRest_escape
  | other hc _ ih => rw [stripRest_of_ne hc, ih]
  | line hc _ ih => rw [stripRest_line hc, ih]

lemma Stripped.withoutCommonCsi_eq (h : Stripped s) : withoutCommonCsi s = s := by
  induction h with
  | nil => rw [withoutCommonCsi]
  | last => rw [withoutCommonCsi_of_none rfl, withoutCommonCsi]
  | other hc _ ih => rw [withoutCommonCsi_of_ne hc, ih]
  | line hc _ ih => rw [withoutCommonCsi_of_none (extractAnsi_line hc _), ih]

lemma stripped_of_notMem (h : ESC ∉ s) : Stripped s := by
  induction s with
  | nil => exact .nil
  | cons c s ih =>
    obtain ⟨hc, hs⟩ := not_or.mp (mem_cons.not.mp h)
    exact .other (Ne.symm hc) (ih hs)

lemma stripAnsi_eq (str : CodeUnits) : stripAnsi str = stripRest (withoutCommonCsi str) := by
  rw [stripAnsi]
  split_ifs with hstr
  · have hstripped : Stripped str := stripped_of_notMem (by simpa using hstr)
    rw [hstripped.withoutCommonCsi_eq, hstripped.stripRest_eq]
  · dsimp only
    split_ifs with hinput
    · exact (stripped_of_notMem (by simpa using hinput)).stripRest_eq.symm
    · rfl

lemma stripped_stripAnsi (str : CodeUnits) : Stripped (stripAnsi str) := by
  rw [stripAnsi_eq]
  exact stripped_stripRest _

lemma stripAnsi_stripAnsi (str : CodeUnits) : stripAnsi (stripAnsi str) = stripAnsi str := by
  have hstripped := stripped_stripAnsi str
  rw [stripAnsi_eq (stripAnsi str), hstripped.withoutCommonCsi_eq, hstripped.stripRest_eq]

lemma stripRest_withoutCommonCsi (h : readAlike str) :
    stripRest (withoutCommonCsi str) = withoutSequences str := by
  induction str using sequences_induction with
  | nil => rw [withoutCommonCsi, stripRest, withoutSequences]
  | other c rest hc ih =>
    rw [readAlike_of_ne hc] at h
    rw [withoutCommonCsi_of_ne hc, stripRest_of_ne hc,
      withoutSequences_of_none (extractAnsi_of_ne hc _), ih h]
  | sequence sequence rest hseq ih =>
    rw [readAlike_sequence hseq, Bool.and_eq_true, readWhole] at h
    rw [hseq.csiClosed.withoutCommonCsi_append, withoutSequences_sequence hseq, ← ih h.2]
    rcases Bool.or_eq_true_iff.mp h.1 with hempty | hwhole
    · rw [List.isEmpty_iff.mp hempty, nil_append]
    · obtain ⟨left, after, hleft, heq, hlen⟩ := exists_sequence (of_decide_eq_true hwhole)
      have hafter : after = [] := by
        rw [heq, List.length_append] at hlen
        exact eq_nil_of_length_eq_zero (by omega)
      rw [heq, hafter, append_nil, stripRest_sequence hleft]
  | escape rest hnone ih =>
    rw [readAlike_of_none hnone, Bool.and_eq_true] at h
    rw [withoutCommonCsi_of_none hnone, withoutSequences_of_none hnone, ← ih h.2]
    cases hleft : withoutCommonCsi rest with
    | nil => rw [stripRest_escape, stripRest]
    | cons c left =>
      rw [hleft] at h
      rw [stripRest_line h.1]

/-! ## Tabs -/

lemma expandTabs_nil : expandTabs [] = [] := rfl

lemma expandTabs_cons (c : UInt16) (s : CodeUnits) :
    expandTabs (c :: s) = (if c = 9 then [32, 32, 32] else [c]) ++ expandTabs s :=
  flatMap_cons

lemma expandTabs_of_ne (h : c ≠ 9) (s : CodeUnits) : expandTabs (c :: s) = c :: expandTabs s := by
  rw [expandTabs_cons, if_neg h]
  rfl

lemma expandTabs_append (s t : CodeUnits) : expandTabs (s ++ t) = expandTabs s ++ expandTabs t :=
  flatMap_append

lemma expandTabs_of_notMem (h : 9 ∉ s) : expandTabs s = s := by
  induction s with
  | nil => rfl
  | cons c s ih =>
    obtain ⟨hc, hs⟩ := not_or.mp (mem_cons.not.mp h)
    rw [expandTabs_of_ne (Ne.symm hc), ih hs]

lemma head?_expandTabs (s : CodeUnits) :
    (expandTabs s).head? = s.head?.map fun c => if c = 9 then 32 else c := by
  cases s with
  | nil => rfl
  | cons c s =>
    rw [expandTabs_cons]
    split_ifs with hc
    · simp [hc]
    · simp [hc]

lemma Stripped.expandTabs (h : Stripped s) : Stripped (expandTabs s) := by
  induction h with
  | nil => exact .nil
  | last => exact .last
  | @other c s hc _ ih =>
    rw [expandTabs_cons]
    split_ifs
    · exact .other (by decide) (.other (by decide) (.other (by decide) ih))
    · exact .other hc ih
  | @line c s hc _ ih =>
    have htab : c ≠ 9 := by
      rintro rfl
      exact absurd hc (by decide)
    have hesc : ESC ≠ 9 := by decide
    rw [expandTabs_of_ne htab] at ih
    rw [expandTabs_of_ne hesc, expandTabs_of_ne htab]
    exact .line hc ih

lemma ControlString.expandTabs (h : ControlString allowBel body) :
    ControlString allowBel (expandTabs body) := by
  induction h with
  | bel hbel => exact .bel hbel
  | st => exact .st
  | @cons c body hbel hst h ih =>
    have hspace {body : CodeUnits} (h : ControlString allowBel body) :
        ControlString allowBel (32 :: body) :=
      .cons (by simp [BEL]) (by simp [ESC]) h
    rw [expandTabs_cons]
    split_ifs with hc
    · exact hspace (hspace (hspace ih))
    · have hhead : (Amide.expandTabs body).head? = some 92 → body.head? = some 92 := by
        rw [head?_expandTabs, Option.map_eq_some_iff]
        rintro ⟨d, hd, heq⟩
        split_ifs at heq
        · cases heq
        · rw [hd, heq]
      refine .cons hbel ?_ ih
      rw [Bool.and_eq_false_iff, decide_eq_false_iff_not, decide_eq_false_iff_not] at hst ⊢
      exact hst.imp_right (mt hhead)

lemma AnsiSequence.expandTabs (h : AnsiSequence sequence) : AnsiSequence (expandTabs sequence) := by
  cases h with
  | @csi body h =>
    have htab : 9 ∉ ESC :: 91 :: body := by
      intro hmem
      simp only [mem_cons] at hmem
      rcases hmem with hmem | hmem | hmem
      · cases hmem
      · cases hmem
      · exact absurd (h.le_of_mem 9 hmem) (by decide)
    rw [expandTabs_of_notMem htab]
    exact .csi h
  | @control next _ body hnext h =>
    have hesc : ESC ≠ 9 := by decide
    have htab : next ≠ 9 := by
      rintro rfl
      simp at hnext
    rw [expandTabs_of_ne hesc, expandTabs_of_ne htab]
    exact .control hnext h.expandTabs

lemma withoutSequences_expandTabs (h : readAlike str) :
    withoutSequences (expandTabs str) = expandTabs (withoutSequences str) := by
  induction str using sequences_induction with
  | nil => rw [expandTabs_nil, withoutSequences, expandTabs_nil]
  | other c rest hc ih =>
    have hspace (s : CodeUnits) : withoutSequences (32 :: s) = 32 :: withoutSequences s :=
      withoutSequences_of_none (extractAnsi_of_ne (by decide) s)
    rw [readAlike_of_ne hc] at h
    rw [withoutSequences_of_none (extractAnsi_of_ne hc rest), expandTabs_cons, expandTabs_cons,
      ← ih h]
    split_ifs
    · simp only [cons_append, nil_append, hspace]
    · exact withoutSequences_of_none (extractAnsi_of_ne hc _)
  | sequence sequence rest hseq ih =>
    rw [readAlike_sequence hseq, Bool.and_eq_true] at h
    rw [expandTabs_append, withoutSequences_sequence hseq.expandTabs,
      withoutSequences_sequence hseq, ih h.2]
  | escape rest hnone ih =>
    rw [readAlike_of_none hnone, Bool.and_eq_true] at h
    have hesc : ESC ≠ 9 := by decide
    have hexpanded : extractAnsi (ESC :: expandTabs rest) = none := by
      rcases rest with _ | ⟨c, rest⟩
      · rfl
      · by_cases hc : c = ESC
        · rw [hc, expandTabs_of_ne hesc]
          rfl
        · rw [withoutCommonCsi_of_ne hc] at h
          have hline : isLineTerminator c := h.1
          have htab : c ≠ 9 := by
            rintro rfl
            exact absurd hline (by decide)
          rw [expandTabs_of_ne htab]
          exact extractAnsi_line hline _
    rw [withoutSequences_of_none hnone, expandTabs_of_ne hesc, expandTabs_of_ne hesc,
      withoutSequences_of_none hexpanded, ih h.2]

/-! ## Widths -/

variable {tables : UnicodeTables}

lemma visibleText_eq (str : CodeUnits) : visibleText str = withoutSequences (expandTabs str) := by
  have htabs : (if str.contains 9 then expandTabs str else str) = expandTabs str := by
    split_ifs with h
    · rfl
    · exact (expandTabs_of_notMem (by simpa using h)).symm
  rw [visibleText, htabs]
  split_ifs with h
  · rfl
  · exact (stripped_of_notMem (by simpa using h)).withoutSequences_eq.symm

lemma graphemeWidth_ascii (laws : tables.Laws) (hc : isPrintableAscii [c]) :
    graphemeWidth tables [c] = 1 := by
  have hle : c.toNat ≤ 0x7E := by
    simp only [isPrintableAscii, all_cons, all_nil, Bool.and_true, Bool.and_eq_true,
      decide_eq_true_eq, UInt16.le_iff_toNat_le] at hc
    exact hc.2
  have hemoji : couldBeEmoji [c] = false := by
    have hselector : c ≠ 0xFE0F := by
      rintro rfl
      exact absurd hle (by decide)
    have hcp : (codePoints [c]).headD 0 = c.toNat := rfl
    simp only [couldBeEmoji, hcp, Bool.or_eq_false_iff, Bool.and_eq_false_iff,
      decide_eq_false_iff_not]
    refine ⟨⟨⟨⟨⟨?_, ?_⟩, ?_⟩, ?_⟩, ?_⟩, ?_⟩
    · left; omega
    · left; omega
    · left; omega
    · left; omega
    · simpa using Ne.symm hselector
    · simp
  have hregional : (decide (0x1F1E6 ≤ c.toNat) && decide (c.toNat ≤ 0x1F1FF)) = false := by
    rw [Bool.and_eq_false_iff, decide_eq_false_iff_not]
    left; omega
  rw [graphemeWidth, laws.zeroWidth_ascii c hc, hemoji, laws.base_ascii c hc]
  simp [codePoints, hregional, laws.width_ascii c hc]

lemma textWidth_ascii (laws : tables.Laws) (h : isPrintableAscii s) :
    textWidth tables s = s.length := by
  have hwidths : ∀ c ∈ s, graphemeWidth tables [c] = 1 := by
    intro c hc
    refine graphemeWidth_ascii laws ?_
    simpa [isPrintableAscii] using all_eq_true.mp h c hc
  rw [textWidth, laws.segment_ascii s h, map_map]
  calc (s.map (graphemeWidth tables ∘ fun c => [c])).sum
      = (s.map fun _ => 1).sum := congrArg List.sum (map_congr_left hwidths)
    _ = s.length := by simp

lemma visibleWidth_eq (laws : tables.Laws) (str : CodeUnits) :
    visibleWidth tables str = textWidth tables (visibleText str) := by
  rw [visibleWidth]
  split_ifs with hempty hascii
  · rw [eq_nil_of_length_eq_zero hempty]
    exact (textWidth_ascii (s := []) laws rfl).symm
  · have htab : 9 ∉ str := fun hmem => absurd (all_eq_true.mp hascii 9 hmem) (by decide)
    have hesc : ESC ∉ str := fun hmem => absurd (all_eq_true.mp hascii ESC hmem) (by decide)
    rw [visibleText_eq, expandTabs_of_notMem htab, (stripped_of_notMem hesc).withoutSequences_eq,
      textWidth_ascii laws hascii]
  · rfl

/-- What is left is as wide as a string that is read alike. -/
theorem keepsColumns_of_readAlike (laws : tables.Laws) (h : readAlike str) :
    KeepsColumns tables str := by
  have hstripped := stripped_stripAnsi str
  have htext : visibleText (stripAnsi str) = visibleText str := by
    calc visibleText (stripAnsi str)
        = withoutSequences (expandTabs (stripAnsi str)) := visibleText_eq _
      _ = expandTabs (stripAnsi str) := hstripped.expandTabs.withoutSequences_eq
      _ = expandTabs (withoutSequences str) := by
        rw [stripAnsi_eq, stripRest_withoutCommonCsi h]
      _ = visibleText str := by rw [visibleText_eq, withoutSequences_expandTabs h]
  exact
    { width := by rw [visibleWidth_eq laws, visibleWidth_eq laws, htext]
      again := stripAnsi_stripAnsi str }

/-- Characters on their own, of which only the control characters have no width. -/
def plainTables : UnicodeTables where
  segment s := s.map fun c => [c]
  zeroWidthRegex s := !s.isEmpty && s.all (· < 32)
  rgiEmojiRegex _ := false
  withoutLeadingNonPrinting s := s.dropWhile (· < 32)
  eastAsianWidth _ := 1

lemma plainTables_laws : plainTables.Laws := by
  have hlow {c : UInt16} (h : isPrintableAscii [c]) : ¬c < 32 := by
    rw [UInt16.not_lt]
    simp only [isPrintableAscii, all_cons, all_nil, Bool.and_true, Bool.and_eq_true,
      decide_eq_true_eq] at h
    exact h.1
  exact
    { segment_ascii := fun _ _ => rfl
      zeroWidth_ascii := fun c hc => by simp [plainTables, hlow hc]
      base_ascii := fun c hc => by simp [plainTables, hlow hc]
      width_ascii := fun _ _ => rfl }

theorem keepsColumns_of_readAlike_red :
    KeepsColumns plainTables [97, ESC, 91, 51, 49, 109, 98, ESC, 10, 99] :=
  keepsColumns_of_readAlike plainTables_laws (by
    simp [readAlike, readWhole, extractAnsi, csiLength, withoutCommonCsi, commonCsiLength,
      isCommonParameter, isLineTerminator, ESC])

/-- The escape before the `c` is dropped along with it, but only the escape has no width. -/
theorem not_keepsColumns_pair : ¬KeepsColumns plainTables [97, ESC, 99, 98] := by
  intro h
  have hstripped : stripAnsi [97, ESC, 99, 98] = [97, 98] := by
    simp [stripAnsi, withoutCommonCsi, stripRest, extractAnsi, isLineTerminator, ESC]
  have hvisible : visibleText [97, ESC, 99, 98] = [97, ESC, 99, 98] := by
    simp [visibleText, withoutSequences, extractAnsi, ESC]
  have hwidth := h.width
  rw [hstripped, visibleWidth_eq plainTables_laws [97, ESC, 99, 98], hvisible] at hwidth
  exact absurd hwidth (by decide)

end Amide
