import Amide.Properties.Tui.StyledText

/-!
# Wrapped text

A text of printable ASCII and the sequences that the tracker recognises keeps its ink when it is
wrapped: each line sets up the style that it continues with (`Laid`), over the pieces of a word that
is broken (`Breaks`), over the tokens of a line (`Wraps`) and over the lines of a text
(`wrapText_keeps`).
-/

namespace Amide

open List

open StdinBuffer (ESC)

variable {tables : UnicodeTables} {p : UInt16 → Bool} {s t sequence token line : CodeUnits}
  {c : UInt16} {style : Style} {tracker : AnsiCodeTracker} {width : ℕ}

/-! ## Spaces -/

def Spaces (s : CodeUnits) : Prop := ∀ c ∈ s, c = 32

lemma eq_space (hc : isPrintable c) (hspace : isWhitespaceUnit c) : c = 32 := by
  simp only [isPrintable, isWhitespaceUnit, Bool.or_eq_true, Bool.and_eq_true, decide_eq_true_eq,
    ← UInt16.toNat_inj, UInt16.le_iff_toNat_le, UInt16.reduceToNat] at hc hspace ⊢
  omega

/-- White space at the end is a space. -/
lemma Styled.of_concat (h : Styled isPrintable (t ++ [c])) (hc : isWhitespaceUnit c) :
    Styled isPrintable t ∧ c = 32 := by
  generalize hs : t ++ [c] = s at h
  induction h generalizing t with
  | nil => exact absurd hs (by simp)
  | @char d s hd hesc h ih =>
    rcases t with _ | ⟨d', t⟩
    · obtain ⟨rfl, -⟩ := hs
      exact ⟨.nil, eq_space hd hc⟩
    · rw [cons_append, List.cons.injEq] at hs
      obtain ⟨rfl, hs⟩ := hs
      obtain ⟨ht, hspace⟩ := ih hs
      exact ⟨.char hd hesc ht, hspace⟩
  | @sequence sequence s hseq h ih =>
    rcases eq_nil_or_concat' s with rfl | ⟨s, d, rfl⟩
    · -- the end of a sequence is no white space
      obtain ⟨-, before, last, rfl, hlast⟩ := hseq.exists_last
      rw [append_nil] at hs
      obtain ⟨-, hcl⟩ := append_inj' hs rfl
      rw [List.cons.injEq] at hcl
      rw [hcl.1, hlast] at hc
      cases hc
    · rw [← append_assoc] at hs
      obtain ⟨ht, hcd⟩ := append_inj' hs rfl
      obtain ⟨hstyled, hspace⟩ := ih (t := s) (by rw [hcd])
      rw [ht]
      exact ⟨.sequence hseq hstyled, hspace⟩

lemma Styled.of_append_whitespace (h : Styled isPrintable (s ++ t))
    (ht : ∀ c ∈ t, isWhitespaceUnit c) : Styled isPrintable s ∧ Spaces t := by
  induction t using reverseRecOn with
  | nil =>
    rw [append_nil] at h
    exact ⟨h, fun c hc => absurd hc not_mem_nil⟩
  | append_singleton t c ih =>
    rw [List.forall_mem_append, forall_mem_singleton] at ht
    rw [← append_assoc] at h
    obtain ⟨hst, hc⟩ := h.of_concat ht.2
    obtain ⟨hs, hspaces⟩ := ih hst ht.1
    exact ⟨hs, List.forall_mem_append.mpr ⟨hspaces, forall_mem_singleton.mpr hc⟩⟩

section
variable (h : Spaces s)
include h

lemma Spaces.ink_eq (style : Style) : ink style s = [] := by
  induction s with
  | nil =>
    rw [ink, shown_nil]
    rfl
  | cons c s ih =>
    obtain ⟨rfl, hs⟩ := forall_mem_cons.mp h
    rw [ink, shown_char (by decide)]
    exact ih hs

lemma Spaces.styleAfter_eq (style : Style) : styleAfter style s = style := by
  induction s with
  | nil => exact styleAfter_nil style
  | cons c s ih =>
    obtain ⟨rfl, hs⟩ := forall_mem_cons.mp h
    rw [styleAfter_char (by decide)]
    exact ih hs

lemma Spaces.updateTrackerFromText_eq (tracker : AnsiCodeTracker) :
    updateTrackerFromText s tracker = tracker := by
  induction s with
  | nil => rw [updateTrackerFromText]
  | cons c s ih =>
    obtain ⟨rfl, hs⟩ := forall_mem_cons.mp h
    rw [updateTrackerFromText_char (by decide)]
    exact ih hs

lemma Spaces.trimEnd_eq : trimEnd s = [] := by
  refine rdropWhile_eq_nil_iff.mpr fun c hc => ?_
  rw [h c hc]
  rfl

end

/-! ## Trimmed lines -/

section
variable (h : Styled isPrintable s)
include h

/-- Only spaces are trimmed. -/
lemma Styled.exists_trimEnd :
    ∃ spaces, Spaces spaces ∧ s = Amide.trimEnd s ++ spaces ∧ Styled isPrintable (trimEnd s) := by
  have happend : trimEnd s ++ s.rtakeWhile isWhitespaceUnit = s :=
    rdropWhile_append_rtakeWhile
  have hstyled := h
  rw [← happend] at hstyled
  obtain ⟨htrimmed, hspaces⟩ :=
    hstyled.of_append_whitespace fun c hc => mem_rtakeWhile_imp hc
  exact ⟨_, hspaces, happend.symm, htrimmed⟩

lemma Styled.trimmed : Styled isPrintable (trimEnd s) := h.exists_trimEnd.choose_spec.2.2

lemma Styled.ink_trimEnd (style : Style) : ink style (trimEnd s) = ink style s := by
  obtain ⟨spaces, hspaces, heq, htrimmed⟩ := h.exists_trimEnd
  rw [heq, htrimmed.ink_append, hspaces.ink_eq, append_nil, ← heq]

lemma Styled.columns_trimEnd_le : columns (trimEnd s) ≤ columns s := by
  obtain ⟨spaces, -, heq, htrimmed⟩ := h.exists_trimEnd
  calc columns (trimEnd s)
      ≤ columns (trimEnd s) + columns spaces := Nat.le_add_right _ _
    _ = columns s := by rw [← htrimmed.columns_append, ← heq]

lemma Styled.spaces_of_trimUnits (hblank : trimUnits s = []) : Spaces s := by
  have hwhitespace : ∀ c ∈ s, isWhitespaceUnit c := by
    rw [trimUnits, reverse_eq_nil_iff, dropWhile_eq_nil_iff] at hblank
    rw [← dropWhile_eq_nil_iff]
    by_contra hne
    have hwhite := hblank _ (mem_reverse.mpr (head_mem hne))
    rw [head_dropWhile_not isWhitespaceUnit hne] at hwhite
    cases hwhite
  exact ((nil_append s ▸ h).of_append_whitespace hwhitespace).2

end

/-! ## Lines -/

def FitsWidth (width : ℕ) (line : CodeUnits) : Prop :=
  Styled isPrintable line ∧ columns (trimEnd line) ≤ width

/-- The lines and the line begun behind them have the ink, and set up the style of what is next. -/
structure Laid (width : ℕ) (style : Style) (written : List (UInt16 × Style))
    (lines : List CodeUnits) (currentLine : CodeUnits) (tracker : AnsiCodeTracker) : Prop where
  shows : Shows tracker style
  fits : ∀ line ∈ lines, FitsWidth width line
  styled : Styled isPrintable currentLine
  style : styleAfter {} currentLine = style
  ink : lines.flatMap (ink {}) ++ ink {} currentLine = written

lemma Codes.styled (h : Codes s) : Styled isPrintable s :=
  h.mono fun _ hc => absurd hc Bool.false_ne_true

lemma Styled.columns_ended_le (h : Styled isPrintable s) (tracker : AnsiCodeTracker) :
    columns (trimEnd (s ++ tracker.getLineEndReset)) ≤ columns s := by
  have hreset := codes_getLineEndReset tracker
  calc columns (trimEnd (s ++ tracker.getLineEndReset))
      ≤ columns (s ++ tracker.getLineEndReset) := (h.append hreset.styled).columns_trimEnd_le
    _ = columns s := by rw [h.columns_append, hreset.columns, Nat.add_zero]

variable {tracker' : AnsiCodeTracker}

section
variable {written : List (UInt16 × Style)} {lines : List CodeUnits} {currentLine : CodeUnits}
  (h : Laid width style written lines currentLine tracker)
include h

lemma Laid.write (hs : Styled isPrintable s)
    (htracker : Shows tracker' (styleAfter style s)) :
    Laid width (styleAfter style s) (written ++ Amide.ink style s) lines (currentLine ++ s)
      tracker' where
  shows := htracker
  fits := h.fits
  styled := h.styled.append hs
  style := by rw [h.styled.styleAfter_append, h.style]
  ink := by rw [h.styled.ink_append, h.style, ← append_assoc, h.ink]

/-- A line ends, and the next one sets up the style again. -/
lemma Laid.newLine {ended : CodeUnits} (hended : Styled isPrintable ended)
    (hink : Amide.ink {} ended = Amide.ink {} currentLine)
    (hfits : columns (trimEnd (ended ++ tracker.getLineEndReset)) ≤ width) :
    Laid width style written (lines ++ [ended ++ tracker.getLineEndReset]) tracker.getActiveCodes
      tracker := by
  obtain ⟨hcodes, hstyle⟩ := h.shows.getActiveCodes
  have hreset := codes_getLineEndReset tracker
  refine
    { shows := h.shows
      fits := ?_
      styled := hcodes.styled
      style := hstyle
      ink := ?_ }
  · refine List.forall_mem_append.mpr ⟨h.fits, forall_mem_singleton.mpr ⟨?_, hfits⟩⟩
    exact hended.append hreset.styled
  · rw [flatMap_append, flatMap_singleton, hended.ink_append, hreset.ink, hcodes.ink,
      append_nil, append_nil, hink, h.ink]

end

/-! ## Words that are broken -/

lemma textPortion_sequence (h : AnsiSequence sequence) (rest : CodeUnits) :
    textPortion (sequence ++ rest) = [] := by
  obtain ⟨c, s, heq, hext, -⟩ := h.front rest
  rw [heq, textPortion, hext]
  rfl

lemma textPortion_char (hesc : c ≠ ESC) (rest : CodeUnits) :
    textPortion (c :: rest) = c :: textPortion rest := by
  rw [textPortion, extractAnsi_of_ne hesc]
  rfl

lemma wordSegments_sequence (h : AnsiSequence sequence) (rest : CodeUnits) :
    wordSegments tables (sequence ++ rest) = .ansi sequence :: wordSegments tables rest := by
  obtain ⟨c, s, heq, hext, htake, hdrop⟩ := h.front rest
  rw [heq, wordSegments, hext]
  simp only [htake, hdrop]

lemma Styled.textPortion (h : Styled isPrintable s) : isPrintableAscii (textPortion s) := by
  induction h with
  | nil => rfl
  | char hc hesc _ ih =>
    rw [textPortion_char hesc, isPrintableAscii, all_cons, Bool.and_eq_true]
    exact ⟨hc, ih⟩
  | sequence hseq _ _ =>
    rw [textPortion_sequence hseq.ansiSequence]
    rfl

/-- Each character is a segment. -/
lemma Styled.wordSegments_cons (h : Styled isPrintable s) (laws : tables.Laws) (hc : isPrintable c)
    (hesc : c ≠ ESC) :
    wordSegments tables (c :: s) = .grapheme [c] :: wordSegments tables s := by
  have hsegment : ∀ {c : UInt16} {s : CodeUnits}, isPrintable c → c ≠ ESC → Styled isPrintable s →
      wordSegments tables (c :: s) =
        (c :: Amide.textPortion s).map (fun c => WordSegment.grapheme [c]) ++
          wordSegments tables (s.drop (Amide.textPortion s).length) := by
    intro c s hc hesc h
    have hascii := (Styled.char hc hesc h).textPortion
    rw [textPortion_char hesc] at hascii
    rw [wordSegments, extractAnsi_of_ne hesc]
    simp only [laws.segment_ascii _ hascii, map_map]
    rfl
  rw [hsegment hc hesc h]
  cases h with
  | nil => rfl
  | char hd hdesc h =>
    rw [textPortion_char hdesc, hsegment hd hdesc h]
    rfl
  | sequence hseq h =>
    rw [textPortion_sequence hseq.ansiSequence]
    rfl

/-- What the loop has of a word that begins with the style. -/
structure Breaks (width : ℕ) (start : Style) (done : CodeUnits) (state : BreakState) : Prop extends
    Laid width (styleAfter start done) (ink start done) state.lines state.currentLine
      state.tracker where
  currentWidth : state.currentWidth = columns state.currentLine
  le : state.currentWidth ≤ width
  pos : columns done ≠ 0 → state.currentWidth ≠ 0

section
variable {start : Style} {done : CodeUnits} {state : BreakState}
  (h : Breaks width start done state) (hdone : Styled isPrintable done)
include h hdone

lemma Breaks.ansi (hseq : StyleSequence sequence) :
    Breaks width start (done ++ sequence) (state.add tables width (.ansi sequence)) := by
  have hcodes := hseq.codes
  have hshows : Shows (state.tracker.process sequence)
      (styleAfter (styleAfter start done) sequence) := by
    rw [hseq.styleAfter_eq]
    exact h.shows.process hseq
  have hwritten := h.write hcodes.styled hshows
  rw [← hdone.styleAfter_append, ← hdone.ink_append] at hwritten
  refine
    { hwritten with
      currentWidth := ?_
      le := h.le
      pos := ?_ }
  · rw [BreakState.add, h.styled.columns_append, hcodes.columns, ← h.currentWidth]
    rfl
  · rw [hdone.columns_append, hcodes.columns]
    exact h.pos

lemma Breaks.grapheme (laws : tables.Laws) (hwidth : 1 ≤ width) (hc : isPrintable c)
    (hesc : c ≠ ESC) :
    Breaks width start (done ++ [c]) (state.add tables width (.grapheme [c])) := by
  have hchar : Styled isPrintable [c] := .char hc hesc .nil
  have hcolumns : columns [c] = 1 := by rw [columns_char hesc, columns_nil]
  have hstyle (style : Style) : styleAfter style [c] = style := by
    rw [styleAfter_char hesc, styleAfter_nil]
  have hwrite {next : BreakState} (hnext : Laid width (styleAfter start done) (ink start done)
        next.lines next.currentLine next.tracker)
      (hcur : next.currentWidth = columns next.currentLine)
      (hle : next.currentWidth + 1 ≤ width) :
      Breaks width start (done ++ [c])
        { next with
          currentLine := next.currentLine ++ [c]
          currentWidth := next.currentWidth + 1 } := by
    have hwritten := hnext.write hchar (by rw [hstyle]; exact hnext.shows)
    rw [← hdone.styleAfter_append, ← hdone.ink_append] at hwritten
    refine
      { hwritten with
        currentWidth := ?_
        le := hle
        pos := fun _ => Nat.succ_ne_zero _ }
    rw [hnext.styled.columns_append, hcolumns, hcur]
  rw [BreakState.add, if_neg (cons_ne_nil _ _), hchar.visibleWidth_eq laws, hcolumns]
  dsimp only
  by_cases hfull : state.currentWidth + 1 > width
  · rw [if_pos hfull]
    have hfits : columns (trimEnd (state.currentLine ++ state.tracker.getLineEndReset)) ≤ width :=
      (h.styled.columns_ended_le state.tracker).trans (h.currentWidth ▸ h.le)
    exact hwrite (h.newLine h.styled rfl hfits) h.shows.getActiveCodes.1.columns.symm hwidth
  · rw [if_neg hfull]
    exact hwrite h.toLaid h.currentWidth (by omega)

lemma Breaks.word (laws : tables.Laws) (hwidth : 1 ≤ width) (hs : Styled isPrintable s) :
    Breaks width start (done ++ s)
      ((wordSegments tables s).foldl (BreakState.add tables width) state) := by
  induction hs generalizing done state with
  | nil =>
    rw [wordSegments, append_nil]
    exact h
  | @char c s hc hesc hs ih =>
    rw [hs.wordSegments_cons laws hc hesc, foldl_cons, append_cons]
    exact ih (h.grapheme hdone laws hwidth hc hesc) (hdone.append (.char hc hesc .nil))
  | @sequence sequence s hseq hs ih =>
    rw [wordSegments_sequence hseq.ansiSequence, foldl_cons, ← append_assoc]
    exact ih (h.ansi hdone hseq) (hdone.append hseq.codes.styled)

end

lemma exists_breakLongWord (laws : tables.Laws) (hwidth : 1 ≤ width) (hs : Styled isPrintable s)
    (hcolumns : columns s ≠ 0) (hshows : Shows tracker style) :
    ∃ lines currentLine tracker',
      breakLongWord tables s width tracker = (lines ++ [currentLine], tracker') ∧
      Laid width (styleAfter style s) (ink style s) lines currentLine tracker' ∧
      columns currentLine ≤ width ∧ columns currentLine ≠ 0 := by
  obtain ⟨hcodes, hstyle⟩ := hshows.getActiveCodes
  have hstart : Breaks width style [] { currentLine := tracker.getActiveCodes, tracker } :=
    { shows := by rwa [styleAfter_nil]
      fits := fun _ h => absurd h not_mem_nil
      styled := hcodes.styled
      style := by rw [styleAfter_nil, hstyle]
      ink := by rw [hcodes.ink, ink, shown_nil]; rfl
      currentWidth := hcodes.columns.symm
      le := Nat.zero_le _
      pos := fun h => absurd columns_nil h }
  have hword := hstart.word .nil laws hwidth hs
  have hpos := hword.pos hcolumns
  rw [hword.currentWidth] at hpos
  refine ⟨_, _, _, ?_, hword.toLaid, hword.currentWidth ▸ hword.le, hpos⟩
  have hne : ((wordSegments tables s).foldl (BreakState.add tables width)
      { currentLine := tracker.getActiveCodes, tracker }).currentLine ≠ [] := by
    intro hnil
    rw [hnil] at hpos
    exact hpos columns_nil
  rw [breakLongWord, if_neg hne]
  simp

/-! ## Tokens of a line -/

/-- The loop behind some tokens of a line.  Only spaces at the start may be too long for a line, and
a line that has nothing visible yet is the first one or begins behind a blank token. -/
structure Wraps (width : ℕ) (done : List CodeUnits) (state : WrapState) : Prop extends
    Laid width (styleAfter {} done.flatten) (ink {} done.flatten) state.wrapped state.currentLine
      state.tracker where
  length : state.currentVisibleLength = columns state.currentLine
  short : columns state.currentLine ≤ width ∨
    Spaces state.currentLine ∧ state.tracker.getLineEndReset = []
  begun : state.currentVisibleLength = 0 →
    (state.currentLine = [] ∧ state.tracker.getLineEndReset = []) ∨
      ∃ token ∈ done.getLast?, trimUnits token = []

lemma wraps_nil (width : ℕ) : Wraps width [] {} where
  shows := by
    rw [flatten_nil, styleAfter_nil]
    exact shows_default
  fits := fun _ h => absurd h not_mem_nil
  styled := .nil
  style := rfl
  ink := rfl
  length := columns_nil.symm
  short := .inl (columns_nil ▸ Nat.zero_le width)
  begun := fun _ => .inl ⟨rfl, rfl⟩

/-- A token is written behind the line begun. -/
lemma Laid.writeToken {done lines : List CodeUnits} {currentLine : CodeUnits}
    (h : Laid width (styleAfter {} done.flatten) (Amide.ink {} done.flatten) lines currentLine
      tracker)
    (hdone : Styled isPrintable done.flatten) (htoken : Styled isPrintable token)
    (htracker : Shows tracker' (styleAfter (styleAfter {} done.flatten) token)) :
    Laid width (styleAfter {} (done ++ [token]).flatten)
      (Amide.ink {} (done ++ [token]).flatten) lines (currentLine ++ token) tracker' := by
  rw [flatten_append, flatten_singleton, hdone.styleAfter_append, hdone.ink_append]
  exact h.write htoken htracker

section
variable {done : List CodeUnits} {state : WrapState} (h : Wraps width done state)
include h

lemma Wraps.columns_trimEnd_le : columns (trimEnd state.currentLine) ≤ width := by
  rcases h.short with hle | ⟨hspaces, -⟩
  · exact h.styled.columns_trimEnd_le.trans hle
  · rw [hspaces.trimEnd_eq, columns_nil]
    exact Nat.zero_le _

lemma Wraps.columns_ended_le :
    columns (trimEnd (state.currentLine ++ state.tracker.getLineEndReset)) ≤ width := by
  rcases h.short with hle | ⟨-, hreset⟩
  · exact (h.styled.columns_ended_le _).trans hle
  · rw [hreset, append_nil]
    exact h.columns_trimEnd_le

variable (hdone : Styled isPrintable done.flatten) (htoken : Styled isPrintable token)
include hdone htoken

lemma Wraps.addBroken (laws : tables.Laws) (hwidth : 1 ≤ width) (hcolumns : columns token ≠ 0) :
    Wraps width (done ++ [token]) (state.addBroken tables width token) := by
  obtain ⟨lines, currentLine, tracker', hbreak, hbroken, hle, hpos⟩ :=
    exists_breakLongWord laws hwidth htoken hcolumns h.shows
  have hwrapped : ∃ wrapped, (if state.currentLine = [] then state.wrapped
        else state.wrapped ++ [state.currentLine ++ state.tracker.getLineEndReset]) = wrapped ∧
      (∀ line ∈ wrapped, FitsWidth width line) ∧
      wrapped.flatMap (ink {}) = ink {} done.flatten := by
    refine ⟨_, rfl, ?_⟩
    split_ifs with hnil
    · have hink := h.ink
      rw [hnil, ink, shown_nil, filter_nil, append_nil] at hink
      exact ⟨h.fits, hink⟩
    · have hended := h.newLine h.styled rfl h.columns_ended_le
      have hink := hended.ink
      rw [h.shows.getActiveCodes.1.ink, append_nil] at hink
      exact ⟨hended.fits, hink⟩
  obtain ⟨wrapped, heq, hfits, hink⟩ := hwrapped
  have hstate : state.addBroken tables width token =
      { wrapped := wrapped ++ lines
        currentLine
        currentVisibleLength := columns currentLine
        tracker := tracker' } := by
    rw [WrapState.addBroken, hbreak, heq]
    simp [hbroken.styled.visibleWidth_eq laws]
  rw [hstate]
  refine
    { shows := ?_
      fits := List.forall_mem_append.mpr ⟨hfits, hbroken.fits⟩
      styled := hbroken.styled
      style := ?_
      ink := ?_
      length := rfl
      short := .inl hle
      begun := fun hzero => absurd hzero hpos }
  · rw [flatten_append, flatten_singleton, hdone.styleAfter_append]
    exact hbroken.shows
  · rw [flatten_append, flatten_singleton, hdone.styleAfter_append]
    exact hbroken.style
  · rw [flatMap_append, append_assoc, hink, hbroken.ink, flatten_append,
      flatten_singleton, hdone.ink_append]

/-- What one token does. -/
lemma Wraps.addToken (laws : tables.Laws) (hwidth : 1 ≤ width) (hcolumns : columns token ≠ 0)
    (hblank : ∀ last ∈ done.getLast?, trimUnits last = [] → trimUnits token ≠ []) :
    Wraps width (done ++ [token]) (state.addToken tables width token) := by
  have htracker := h.shows.updateTrackerFromText htoken
  have hnewLine := h.newLine h.styled.trimmed (h.styled.ink_trimEnd _)
    ((h.styled.trimmed.columns_ended_le _).trans h.columns_trimEnd_le)
  have hcodes := h.shows.getActiveCodes.1
  rw [WrapState.addToken, htoken.visibleWidth_eq laws]
  dsimp only
  by_cases hlong : (decide (columns token > width) && !decide (trimUnits token = [])) = true
  · rw [if_pos hlong]
    exact h.addBroken hdone htoken laws hwidth hcolumns
  have hle (hword : trimUnits token ≠ []) : columns token ≤ width := by
    by_contra hgt
    exact hlong (by simp [hword, Nat.lt_of_not_le hgt])
  split_ifs with hfull hspace
  · -- the line ends before spaces, which are dropped
    have hspaces : Spaces token := htoken.spaces_of_trimUnits (of_decide_eq_true hspace)
    have hdropped : styleAfter {} (done ++ [token]).flatten = styleAfter {} done.flatten ∧
        ink {} (done ++ [token]).flatten = ink {} done.flatten := by
      rw [flatten_append, flatten_singleton, hdone.styleAfter_append, hdone.ink_append,
        hspaces.styleAfter_eq, hspaces.ink_eq, append_nil]
      exact ⟨rfl, rfl⟩
    rw [hspaces.updateTrackerFromText_eq]
    refine
      { toLaid := by rw [hdropped.1, hdropped.2]; exact hnewLine
        length := hcodes.columns.symm
        short := .inl (hcodes.columns ▸ Nat.zero_le width)
        begun := fun _ => .inr ⟨token, getLast?_concat, of_decide_eq_true hspace⟩ }
  · -- the token begins the next line
    have hfits : columns token ≤ width := hle (by simpa using hspace)
    have hwritten := hnewLine.writeToken hdone htoken htracker
    have hlen : columns (state.tracker.getActiveCodes ++ token) = columns token := by
      rw [hcodes.columns_append, hcodes.columns, Nat.zero_add]
    exact
      { hwritten with
        length := hlen.symm
        short := .inl (hlen ▸ hfits)
        begun := fun hzero => absurd hzero hcolumns }
  · have hwritten := h.toLaid.writeToken hdone htoken htracker
    have hlen : columns (state.currentLine ++ token) =
        state.currentVisibleLength + columns token := by
      rw [h.styled.columns_append, h.length]
    refine
      { hwritten with
        length := hlen.symm
        short := ?_
        begun := fun hzero => absurd (Nat.eq_zero_of_add_eq_zero_left hzero) hcolumns }
    by_cases hfits : state.currentVisibleLength + columns token ≤ width
    · exact .inl (hlen ▸ hfits)
    · have hzero : state.currentVisibleLength = 0 := by
        by_contra hne
        exact hfull (by simp [Nat.lt_of_not_le hfits, Nat.pos_of_ne_zero hne])
      have hspace : trimUnits token = [] := by
        by_contra hword
        exact hfits (by rw [hzero, Nat.zero_add]; exact hle hword)
      rcases h.begun hzero with ⟨hnil, hreset⟩ | ⟨last, hlast, hempty⟩
      · have hspaces := htoken.spaces_of_trimUnits hspace
        rw [hnil, nil_append, hspaces.updateTrackerFromText_eq]
        exact .inr ⟨hspaces, hreset⟩
      · exact absurd hspace (hblank last hlast hempty)

end

/-! ## Tokens -/

lemma trimUnits_ne_nil (hmem : c ∈ s) (hc : isWhitespaceUnit c = false) : trimUnits s ≠ [] := by
  intro hblank
  have hdropped : s.dropWhile isWhitespaceUnit ≠ [] := by
    rw [Ne, dropWhile_eq_nil_iff]
    intro hall
    rw [hall c hmem] at hc
    cases hc
  have hwhite : ∀ d ∈ s.dropWhile isWhitespaceUnit, isWhitespaceUnit d := by
    rw [trimUnits, reverse_eq_nil_iff, dropWhile_eq_nil_iff] at hblank
    exact fun d hd => hblank d (mem_reverse.mpr hd)
  have hhead := hwhite _ (head_mem hdropped)
  rw [head_dropWhile_not isWhitespaceUnit hdropped] at hhead
  cases hhead

lemma trimUnits_append_ne_nil (h : trimUnits s ≠ []) (t : CodeUnits) : trimUnits (s ++ t) ≠ [] := by
  have hinside : ∃ c ∈ s, isWhitespaceUnit c = false := by
    by_contra hall
    push Not at hall
    refine h ?_
    have hdropped : s.dropWhile isWhitespaceUnit = [] :=
      dropWhile_eq_nil_iff.mpr fun c hc => by simpa using hall c hc
    rw [trimUnits, hdropped]
    rfl
  obtain ⟨c, hc, hwhite⟩ := hinside
  exact trimUnits_ne_nil (mem_append_left t hc) hwhite

/-- The loop that collects tokens, behind some text.  Of two tokens next to each other only one is
blank. -/
structure Collects (done : CodeUnits) (state : TokenState) : Prop where
  text : state.tokens.flatten ++ state.current ++ state.pendingAnsi = done
  tokens : ∀ token ∈ state.tokens, Styled isPrintable token ∧ columns token ≠ 0
  current : Styled isPrintable state.current
  pending : Codes state.pendingAnsi
  columns : state.current = [] ∧ state.tokens = [] ∧ state.inWhitespace = false ∨
    Amide.columns state.current ≠ 0 ∧
      (state.inWhitespace = false → trimUnits state.current ≠ [])
  alternate : state.tokens.IsChain fun last token => trimUnits last = [] → trimUnits token ≠ []
  last : state.inWhitespace → ∀ last ∈ state.tokens.getLast?, trimUnits last ≠ []

lemma collects_nil : Collects [] {} where
  text := rfl
  tokens := fun _ h => absurd h not_mem_nil
  current := .nil
  pending := .nil
  columns := .inl ⟨rfl, rfl, rfl⟩
  alternate := .nil
  last := fun h => absurd h Bool.false_ne_true

section
variable {done : CodeUnits} {state : TokenState} (h : Collects done state)
include h

lemma Collects.addAnsi (hseq : StyleSequence sequence) :
    Collects (done ++ sequence) { state with pendingAnsi := state.pendingAnsi ++ sequence } :=
  { h with
    text := by rw [← h.text, append_assoc _ state.pendingAnsi]
    pending := h.pending.append hseq.codes }

/-- The current token ends, when it is followed by one that is blank if it is not. -/
lemma Collects.alternate_concat (hcolumns : Amide.columns state.current ≠ 0) (t : CodeUnits) :
    (state.tokens ++ [state.current ++ t]).IsChain fun last token =>
      trimUnits last = [] → trimUnits token ≠ [] := by
  rw [isChain_append]
  refine ⟨h.alternate, .singleton _, fun last hlast token htoken hblank => ?_⟩
  rw [head?_cons, Option.mem_some_iff] at htoken
  subst htoken
  cases hspace : state.inWhitespace with
  | false =>
    rcases h.columns with ⟨hnil, -⟩ | ⟨-, hword⟩
    · rw [hnil] at hcolumns
      exact absurd columns_nil hcolumns
    · exact trimUnits_append_ne_nil (hword hspace) t
  | true => exact absurd hblank (h.last hspace last hlast)

/-- A character, with the sequences before it, behind a token that is begun or new. -/
lemma Collects.attach {tokens : List CodeUnits} {current : CodeUnits} (hc : isPrintable c)
    (hesc : c ≠ ESC) (htext : tokens.flatten ++ current = state.tokens.flatten ++ state.current)
    (htokens : ∀ token ∈ tokens, Styled isPrintable token ∧ Amide.columns token ≠ 0)
    (hcur : Styled isPrintable current)
    (halternate : tokens.IsChain fun last token => trimUnits last = [] → trimUnits token ≠ [])
    (hlast : c = 32 → ∀ last ∈ tokens.getLast?, trimUnits last ≠ []) :
    Collects (done ++ [c])
      { tokens
        current := current ++ state.pendingAnsi ++ [c]
        inWhitespace := c = 32 } := by
  have hchar : Styled isPrintable [c] := .char hc hesc .nil
  have hbefore := hcur.append h.pending.styled
  refine
    { text := ?_
      tokens := htokens
      current := hbefore.append hchar
      pending := .nil
      columns := .inr ⟨?_, fun hspace => ?_⟩
      alternate := halternate
      last := fun hspace => hlast (of_decide_eq_true hspace) }
  · rw [← h.text, ← htext]
    simp only [append_assoc, append_nil]
  · rw [hbefore.columns_append, columns_char hesc]
    omega
  · refine trimUnits_ne_nil (mem_append_right _ (mem_singleton_self c)) ?_
    by_contra hwhite
    exact absurd (eq_space hc (by simpa using hwhite)) (of_decide_eq_false hspace)

lemma Collects.addChar (hc : isPrintable c) (hesc : c ≠ ESC) :
    Collects (done ++ [c]) (state.addChar c) := by
  rw [TokenState.addChar]
  by_cases hswitch : ((decide (c = 32) != state.inWhitespace) && !state.current.isEmpty) = true
  · simp only [hswitch, if_true]
    rw [Bool.and_eq_true, bne_iff_ne, Bool.not_eq_true', isEmpty_eq_false_iff] at hswitch
    obtain ⟨hkind, hne⟩ := hswitch
    obtain ⟨hcolumns, hword⟩ := h.columns.resolve_left fun hnil => hne hnil.1
    have halternate := h.alternate_concat hcolumns []
    rw [append_nil] at halternate
    refine h.attach hc hesc ?_ ?_ .nil halternate fun hspace last hlast => ?_
    · rw [flatten_append, flatten_singleton, append_nil]
    · exact List.forall_mem_append.mpr ⟨h.tokens,
        forall_mem_singleton.mpr ⟨h.current, hcolumns⟩⟩
    · rw [getLast?_concat, Option.mem_some_iff] at hlast
      subst hlast
      exact hword (by simpa [hspace] using hkind)
  · simp only [hswitch, Bool.false_eq_true, if_false]
    refine h.attach hc hesc rfl h.tokens h.current h.alternate fun hspace last hlast => ?_
    rcases h.columns with ⟨-, hnil, -⟩ | ⟨hcolumns, -⟩
    · rw [hnil] at hlast
      cases hlast
    · have hne : state.current ≠ [] := by
        rintro hnil
        rw [hnil] at hcolumns
        exact hcolumns columns_nil
      refine h.last ?_ last hlast
      simpa [hspace, hne] using hswitch

end

lemma addText_char (hesc : c ≠ ESC) (rest : CodeUnits) (state : TokenState) :
    state.addText (c :: rest) = (state.addChar c).addText rest := by
  rw [TokenState.addText, extractAnsi_of_ne hesc]

lemma addText_sequence (h : AnsiSequence sequence) (rest : CodeUnits) (state : TokenState) :
    state.addText (sequence ++ rest) =
      { state with pendingAnsi := state.pendingAnsi ++ sequence }.addText rest := by
  obtain ⟨c, s, heq, hext, htake, hdrop⟩ := h.front rest
  rw [heq, TokenState.addText, hext]
  simp only [htake, hdrop]

lemma Collects.addText {done : CodeUnits} {state : TokenState} (h : Collects done state)
    (hs : Styled isPrintable s) : Collects (done ++ s) (state.addText s) := by
  induction hs generalizing done state with
  | nil =>
    rw [append_nil, TokenState.addText]
    exact h
  | @char c s hc hesc _ ih =>
    rw [addText_char hesc, append_cons]
    exact ih (h.addChar hc hesc)
  | @sequence sequence s hseq _ ih =>
    rw [addText_sequence hseq.ansiSequence, ← append_assoc]
    exact ih (h.addAnsi hseq)

lemma splitIntoTokens_spec (hs : Styled isPrintable s) (hcolumns : columns s ≠ 0) :
    (splitIntoTokensWithAnsi s).flatten = s ∧
      (∀ token ∈ splitIntoTokensWithAnsi s, Styled isPrintable token ∧ columns token ≠ 0) ∧
      (splitIntoTokensWithAnsi s).IsChain fun last token =>
        trimUnits last = [] → trimUnits token ≠ [] := by
  have h := collects_nil.addText hs
  rw [nil_append] at h
  rw [splitIntoTokensWithAnsi]
  generalize TokenState.addText s {} = state at h ⊢
  have htext := h.text
  rcases h.columns with ⟨hcur, htokens, -⟩ | ⟨hvis, -⟩
  · rw [hcur, htokens, flatten_nil, nil_append, nil_append] at htext
    rw [← htext, h.pending.columns] at hcolumns
    exact absurd rfl hcolumns
  · have hcur : columns (state.current ++ state.pendingAnsi) ≠ 0 := by
      rwa [h.current.columns_append, h.pending.columns, Nat.add_zero]
    have hne : state.current ++ state.pendingAnsi ≠ [] := by
      intro hnil
      rw [hnil] at hcur
      exact hcur columns_nil
    simp only [if_neg hne]
    refine ⟨?_, ?_, h.alternate_concat hvis _⟩
    · rw [flatten_append, flatten_singleton, ← append_assoc]
      exact htext
    · exact List.forall_mem_append.mpr ⟨h.tokens,
        forall_mem_singleton.mpr ⟨h.current.append h.pending.styled, hcur⟩⟩

/-! ## Lines of a text -/

lemma wraps_foldl (laws : tables.Laws) (hwidth : 1 ≤ width) {done tokens : List CodeUnits}
    {state : WrapState} (h : Wraps width done state) (hdone : Styled isPrintable done.flatten)
    (htokens : ∀ token ∈ tokens, Styled isPrintable token ∧ columns token ≠ 0)
    (halternate : (done ++ tokens).IsChain fun last token =>
      trimUnits last = [] → trimUnits token ≠ []) :
    Wraps width (done ++ tokens) (tokens.foldl (WrapState.addToken tables width) state) := by
  induction tokens generalizing done state with
  | nil =>
    rw [append_nil]
    exact h
  | cons token tokens ih =>
    obtain ⟨⟨htoken, hcolumns⟩, hrest⟩ := forall_mem_cons.mp htokens
    have hnext : Wraps width (done ++ [token]) (state.addToken tables width token) := by
      refine h.addToken hdone htoken laws hwidth hcolumns fun last hlast => ?_
      exact (isChain_append.mp halternate).2.2 last hlast token rfl
    rw [append_cons] at halternate ⊢
    refine ih hnext ?_ hrest halternate
    rw [flatten_append, flatten_singleton]
    exact hdone.append htoken

/-- The lines of one line, all of them trimmed. -/
lemma wrapSingleLine_spec (laws : tables.Laws) (hwidth : 1 ≤ width) (hs : Styled isPrintable s) :
    wrapSingleLine tables s width ≠ [] ∧
      (∀ line ∈ wrapSingleLine tables s width, Styled isPrintable line ∧ columns line ≤ width) ∧
      (wrapSingleLine tables s width).flatMap (ink {}) = ink {} s := by
  rw [wrapSingleLine, hs.visibleWidth_eq laws]
  split_ifs with hnil hfits
  · subst hnil
    refine ⟨cons_ne_nil _ _, forall_mem_singleton.mpr ⟨.nil, ?_⟩, by simp⟩
    rw [columns_nil]
    exact Nat.zero_le _
  · exact ⟨cons_ne_nil _ _, forall_mem_singleton.mpr ⟨hs, hfits⟩, by simp⟩
  · obtain ⟨hflat, htokens, halternate⟩ := splitIntoTokens_spec hs (by omega)
    have h := wraps_foldl laws hwidth (wraps_nil width) .nil htokens halternate
    rw [nil_append] at h
    have hink := h.ink
    rw [hflat] at hink
    generalize (splitIntoTokensWithAnsi s).foldl (WrapState.addToken tables width) {} = state
      at h hink ⊢
    have hwrapped : ∃ wrapped, (if state.currentLine = [] then state.wrapped
          else state.wrapped ++ [state.currentLine]) = wrapped ∧
        (∀ line ∈ wrapped, FitsWidth width line) ∧ wrapped.flatMap (Amide.ink {}) = ink {} s := by
      refine ⟨_, rfl, ?_⟩
      split_ifs with hempty
      · rw [hempty, Amide.ink, shown_nil, filter_nil, append_nil] at hink
        exact ⟨h.fits, hink⟩
      · refine ⟨List.forall_mem_append.mpr ⟨h.fits,
          forall_mem_singleton.mpr ⟨h.styled, h.columns_trimEnd_le⟩⟩, ?_⟩
        rw [flatMap_append, flatMap_singleton, hink]
    obtain ⟨wrapped, heq, hlines, hink⟩ := hwrapped
    have htrimmed : (wrapped.map trimEnd).flatMap (ink {}) = wrapped.flatMap (ink {}) := by
      rw [flatMap_map]
      exact flatMap_congr fun line hline => (hlines line hline).1.ink_trimEnd {}
    simp only [heq]
    split_ifs with hlen
    · refine ⟨?_, forall_mem_map.mpr fun line hline => ?_, htrimmed.trans hink⟩
      · exact ne_nil_of_length_pos (by rwa [length_map])
      · exact ⟨(hlines line hline).1.trimmed, (hlines line hline).2⟩
    · rw [eq_nil_of_length_eq_zero (by omega : wrapped.length = 0)] at hink
      refine ⟨cons_ne_nil _ _, forall_mem_singleton.mpr ⟨.nil, ?_⟩, ?_⟩
      · rw [columns_nil]
        exact Nat.zero_le _
      · rw [← hink, flatMap_singleton, Amide.ink, shown_nil]
        rfl

/-- A text of lines begins with its first line. -/
lemma Styled.of_line {rest : CodeUnits}
    (h : Styled (fun c => isPrintable c || c = 10) (line ++ 10 :: rest)) (hline : 10 ∉ line) :
    Styled isPrintable line ∧ Styled (fun c => isPrintable c || c = 10) rest := by
  generalize hs : line ++ 10 :: rest = s at h
  induction h generalizing line with
  | nil => exact absurd hs (by simp)
  | @char c s hc hesc h ih =>
    rcases line with _ | ⟨d, line⟩
    · obtain ⟨-, rfl⟩ := hs
      exact ⟨.nil, h⟩
    · rw [cons_append, List.cons.injEq] at hs
      obtain ⟨rfl, hs⟩ := hs
      rw [mem_cons, not_or] at hline
      obtain ⟨hstyled, hrest⟩ := ih hline.2 hs
      refine ⟨.char ?_ hesc hstyled, hrest⟩
      simpa [Ne.symm hline.1] using hc
  | @sequence sequence s hseq h ih =>
    -- a sequence has no line feed, so that it ends before the line does
    have hprefix : sequence <+: line := by
      refine (List.prefix_or_prefix_of_prefix (hs ▸ prefix_append sequence s)
        (prefix_append line (10 :: rest))).elim id fun hshort => ?_
      obtain ⟨more, rfl⟩ := hshort
      rw [append_assoc, append_cancel_left_eq] at hs
      rcases more with _ | ⟨d, more⟩
      · rw [append_nil]
      · rw [cons_append, List.cons.injEq] at hs
        exact absurd (hs.1 ▸ mem_append_right line mem_cons_self)
          hseq.exists_last.1
    obtain ⟨more, rfl⟩ := hprefix
    rw [append_assoc, append_cancel_left_eq] at hs
    rw [mem_append, not_or] at hline
    obtain ⟨hstyled, hrest⟩ := ih hline.2 hs
    exact ⟨.sequence hseq hstyled, hrest⟩

lemma Styled.of_notMem (h : Styled (fun c => isPrintable c || c = 10) s) (hs : 10 ∉ s) :
    Styled isPrintable s := by
  induction h with
  | nil => exact .nil
  | char hc hesc _ ih =>
    rw [mem_cons, not_or] at hs
    exact .char (by simpa [Ne.symm hs.1] using hc) hesc (ih hs.2)
  | sequence hseq _ ih =>
    rw [mem_append, not_or] at hs
    exact .sequence hseq (ih hs.2)

/-- What the loop over the lines of a text has behind some of it.  Only at the start there are no
lines yet. -/
structure WrapsLines (width : ℕ) (style : Style) (written : List (UInt16 × Style))
    (state : List CodeUnits × AnsiCodeTracker) : Prop where
  shows : Shows state.2 style
  fits : ∀ line ∈ state.1, Styled isPrintable line ∧ columns line ≤ width
  begins : state.1 = [] → style = {}
  ink : state.1.flatMap (ink {}) = written

section
variable {written : List (UInt16 × Style)} {state : List CodeUnits × AnsiCodeTracker}
  (h : WrapsLines width style written state) (laws : tables.Laws) (hwidth : 1 ≤ width)
include h laws hwidth

lemma WrapsLines.wrapInputLine (hs : Styled isPrintable s) :
    WrapsLines width (styleAfter style s) (written ++ Amide.ink style s)
      (wrapInputLine tables width state s) := by
  have hcodes : ∃ codes, (if state.1.length > 0 then state.2.getActiveCodes else []) = codes ∧
      Codes codes ∧ styleAfter {} codes = style := by
    refine ⟨_, rfl, ?_⟩
    split_ifs with hlines
    · exact h.shows.getActiveCodes
    · refine ⟨.nil, ?_⟩
      rw [styleAfter_nil, h.begins (eq_nil_of_length_eq_zero (by omega))]
  obtain ⟨codes, heq, hcodes, hstyle⟩ := hcodes
  obtain ⟨hne, hfits, hink⟩ := wrapSingleLine_spec laws hwidth (hcodes.styled.append hs)
  rw [hcodes.ink_append, hcodes.ink, hstyle, nil_append] at hink
  rw [Amide.wrapInputLine, heq]
  exact
    { shows := h.shows.updateTrackerFromText hs
      fits := List.forall_mem_append.mpr ⟨h.fits, hfits⟩
      begins := fun hnil => absurd (append_eq_nil_iff.mp hnil).2 hne
      ink := by rw [flatMap_append, hink, h.ink] }

lemma WrapsLines.foldl (hs : Styled (fun c => isPrintable c || c = 10) s) :
    WrapsLines width (styleAfter style s) (written ++ Amide.ink style s)
      ((s.splitOn 10).foldl (Amide.wrapInputLine tables width) state) := by
  induction hlen : s.length using Nat.strongRecOn generalizing s style written state with
  | _ n ih =>
    rcases Lines.notMem_or_exists_line 10 s with hmem | ⟨line, rest, hline, rfl⟩
    · rw [splitOn_eq_singleton hmem, foldl_cons, foldl_nil]
      exact h.wrapInputLine laws hwidth (hs.of_notMem hmem)
    · obtain ⟨hfirst, hrest⟩ := hs.of_line hline
      have hfeed : (10 : UInt16) ≠ ESC := by decide
      have hink : Amide.ink (styleAfter style line) (10 :: rest) =
          Amide.ink (styleAfter style line) rest := by
        rw [Amide.ink, shown_char hfeed]
        rfl
      rw [splitOn_append_cons_self_of_not_mem hline, foldl_cons,
        hfirst.styleAfter_append, hfirst.ink_append, styleAfter_char hfeed, hink,
        ← append_assoc]
      refine ih rest.length ?_ (h.wrapInputLine laws hwidth hfirst) hrest rfl
      rw [← hlen, length_append, length_cons]
      omega

end

lemma wrapsLines_nil (width : ℕ) : WrapsLines width {} [] ([], {}) where
  shows := shows_default
  fits := fun _ h => absurd h not_mem_nil
  begins := fun _ => rfl
  ink := rfl

/-- No line is too wide, and the ink of the lines, each read from nothing, is that of the text. -/
theorem wrapText_keeps (laws : tables.Laws) (hwidth : 1 ≤ width)
    (hs : Styled (fun c => isPrintable c || c = 10) s) :
    (∀ line ∈ wrapTextWithAnsi tables s width, visibleWidth tables line ≤ width) ∧
      (wrapTextWithAnsi tables s width).flatMap (ink {}) = ink {} s := by
  have hempty : visibleWidth tables [] ≤ width := Nat.zero_le width
  rw [wrapTextWithAnsi]
  split_ifs with hnil
  · subst hnil
    exact ⟨forall_mem_singleton.mpr hempty, append_nil _⟩
  · have h := (wrapsLines_nil width).foldl laws hwidth hs
    rw [nil_append] at h
    generalize (s.splitOn 10).foldl (wrapInputLine tables width) ([], {}) = state at h ⊢
    obtain ⟨result, tracker⟩ := state
    dsimp only
    split_ifs with hlength
    · refine ⟨fun line hline => ?_, h.ink⟩
      rw [(h.fits line hline).1.visibleWidth_eq laws]
      exact (h.fits line hline).2
    · have hink := h.ink
      rw [eq_nil_of_length_eq_zero (by omega : result.length = 0)] at hink
      refine ⟨forall_mem_singleton.mpr hempty, ?_⟩
      rw [← hink, flatMap_singleton, ink, shown_nil]
      rfl

/-- A red word and a plain one, of which the first one is broken. -/
theorem wrapText_keeps_red :
    (∀ line ∈ wrapTextWithAnsi plainTables [ESC, 91, 51, 49, 109, 97, 98, 99, 32, 10, 100] 2,
      visibleWidth plainTables line ≤ 2) ∧
      (wrapTextWithAnsi plainTables [ESC, 91, 51, 49, 109, 97, 98, 99, 32, 10, 100] 2).flatMap
        (ink {}) = ink {} [ESC, 91, 51, 49, 109, 97, 98, 99, 32, 10, 100] := by
  have hred : StyleSequence [ESC, 91, 51, 49, 109] :=
    @StyleSequence.sgr [[[51, 49]]] (cons_ne_nil _ _)
      (forall_mem_singleton.mpr (.code (by simp) rfl rfl))
  refine wrapText_keeps plainTables_laws (by decide) (.sequence hred ?_)
  repeat refine .char (by decide) (by decide) ?_
  exact .nil

end Amide
