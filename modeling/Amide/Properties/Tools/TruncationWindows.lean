import Amide.Properties.Tools.TailTruncation

/-!
# What truncation keeps

Both truncations keep as many whole lines as the limits allow, and count them rightly; of a last
line that is too long by itself the end is kept.  A line feed at the end of the text makes the last
line an empty one: it always fits, and where the line in front of it does not, nothing is left to
be seen (`truncation_windows_iff`).
-/

namespace Amide

open Utf8 List

variable {maxLines maxBytes count : ℕ} {text line : List Char}
  {out lines earlier kept kept' : List (List Char)}

/-! ## Bytes of joined lines -/

lemma byteLength_joinLines_cons (line : List Char) (lines : List (List Char)) :
    byteLength (joinLines (line :: lines)) =
      byteLength line + min 1 lines.length + byteLength (joinLines lines) := by
  cases lines with
  | nil => simp [joinLines]
  | cons line' lines =>
    have hlf : byteLength ['\n'] = 1 := by decide
    rw [joinLines, joinLines, intercalate_cons_cons, byteLength_append, byteLength_append, hlf,
      length_cons]
    omega

lemma byteLength_joinLines_concat (lines : List (List Char)) (line : List Char) :
    byteLength (joinLines (lines ++ [line])) =
      byteLength (joinLines lines) + (byteLength line + min 1 lines.length) := by
  induction lines with
  | nil => simp [joinLines]
  | cons line' lines ih =>
    rw [cons_append, byteLength_joinLines_cons, byteLength_joinLines_cons, ih,
      length_append, length_cons, length_cons, length_nil]
    omega

/-! ## Lines within the limits -/

/-- The lines are within both limits. -/
def Fits (maxLines maxBytes : ℕ) (lines : List (List Char)) : Prop :=
  lines.length ≤ maxLines ∧ byteLength (joinLines lines) ≤ maxBytes

lemma fits_nil : Fits maxLines maxBytes [] := ⟨Nat.zero_le _, Nat.zero_le _⟩

/-- The end of lines that fit fits. -/
lemma Fits.of_append (h : Fits maxLines maxBytes (kept ++ kept')) :
    Fits maxLines maxBytes kept' := by
  induction kept with
  | nil => exact h
  | cons line kept ih =>
    refine ih ⟨?_, ?_⟩
    · exact Nat.le_trans (Nat.le_succ _) h.1
    · have := h.2
      rw [cons_append, byteLength_joinLines_cons] at this
      omega

/-- The loop of `truncateTail` keeps as many lines as fit, if the last one does. -/
lemma keepLastLines_spec (hfits : Fits maxLines maxBytes out)
    (hcount : count = byteLength (joinLines out))
    (hlast : out = [] → ∀ line earlier, lines = line :: earlier → byteLength line ≤ maxBytes) :
    ∃ earlier, lines.reverse ++ out =
        earlier ++ (keepLastLines maxLines maxBytes out count lines).outputLinesArr ∧
      Fits maxLines maxBytes (keepLastLines maxLines maxBytes out count lines).outputLinesArr ∧
      ∀ front line, earlier = front ++ [line] → ¬ Fits maxLines maxBytes
        (line :: (keepLastLines maxLines maxBytes out count lines).outputLinesArr) := by
  induction lines generalizing out count with
  | nil => exact ⟨[], rfl, hfits, fun front line h => by simp at h⟩
  | cons line lines ih =>
    have hstop (hnot : ¬ Fits maxLines maxBytes (line :: out)) :
        ∃ earlier, (line :: lines).reverse ++ out = earlier ++ out ∧ Fits maxLines maxBytes out ∧
          ∀ front line', earlier = front ++ [line'] → ¬ Fits maxLines maxBytes (line' :: out) := by
      refine ⟨(line :: lines).reverse, rfl, hfits, fun front line' h => ?_⟩
      rw [reverse_cons] at h
      rw [← (append_inj' h rfl).2 |> singleton_inj.mp]
      exact hnot
    rw [keepLastLines_cons]
    split_ifs with hlines hbytes hempty
    · have hout := length_eq_zero_iff.mp hempty
      have hline := hlast hout line lines rfl
      subst hout
      rw [hcount] at hbytes
      simp [joinLines] at hbytes
      omega
    · refine hstop fun hfits' => ?_
      have := hfits'.2
      rw [byteLength_joinLines_cons] at this
      omega
    · rw [reverse_cons, append_assoc, singleton_append]
      refine ih ⟨hlines, ?_⟩ ?_ fun h => absurd h (cons_ne_nil _ _)
      · rw [byteLength_joinLines_cons]
        omega
      · rw [byteLength_joinLines_cons]
        omega
    · exact hstop fun hfits' => hlines hfits'.1

/-- The loop of `truncateHead` keeps as many lines as fit. -/
lemma keepFirstLines_spec (hfits : Fits maxLines maxBytes out)
    (hcount : count = byteLength (joinLines out)) :
    ∃ rest, out ++ lines =
        (keepFirstLines maxLines maxBytes out count lines).outputLinesArr ++ rest ∧
      Fits maxLines maxBytes (keepFirstLines maxLines maxBytes out count lines).outputLinesArr ∧
      ∀ line later, rest = line :: later → ¬ Fits maxLines maxBytes
        ((keepFirstLines maxLines maxBytes out count lines).outputLinesArr ++ [line]) := by
  induction lines generalizing out count with
  | nil => exact ⟨[], rfl, hfits, nofun⟩
  | cons line lines ih =>
    have hsep : (if out.length > 0 then 1 else 0) = min 1 out.length := by
      split_ifs <;> omega
    have hstop (hnot : ¬ Fits maxLines maxBytes (out ++ [line])) :
        ∃ rest, out ++ line :: lines = out ++ rest ∧ Fits maxLines maxBytes out ∧
          ∀ line' later, rest = line' :: later → ¬ Fits maxLines maxBytes (out ++ [line']) :=
      ⟨line :: lines, rfl, hfits, fun line' later h => by cases h; exact hnot⟩
    rw [keepFirstLines]
    simp only [hsep]
    split_ifs with hlines hbytes
    · refine hstop fun hfits' => ?_
      have := hfits'.2
      rw [byteLength_joinLines_concat] at this
      omega
    · have hsplit : out ++ line :: lines = (out ++ [line]) ++ lines := by simp
      rw [hsplit]
      refine ih ⟨by simpa using Nat.succ_le_of_lt hlines, ?_⟩ ?_
      · rw [byteLength_joinLines_concat]
        omega
      · rw [byteLength_joinLines_concat]
        omega
    · refine hstop fun hfits' => hlines ?_
      have := hfits'.1
      rw [length_append, length_singleton] at this
      omega

/-! ## Windows -/

section Results

variable (text : List Char) (result : TruncationResult)

/-- What is said of the text and of the output is so. -/
structure CountsRightly (outputLines : ℕ) : Prop where
  totalLines : result.totalLines = (splitLines text).length
  totalBytes : result.totalBytes = byteLength text
  outputLines : result.outputLines = outputLines
  outputBytes : result.outputBytes = byteLength result.content

/-- The first lines, as many as fit. -/
def HeadWindow (maxLines maxBytes : ℕ) : Prop :=
  ∃ kept rest, splitLines text = kept ++ rest ∧ result.content = joinLines kept ∧
    Fits maxLines maxBytes kept ∧
    (∀ line later, rest = line :: later → ¬ Fits maxLines maxBytes (kept ++ [line])) ∧
    CountsRightly text result kept.length

/-- The last lines, as many as fit. -/
def TailWindow (maxLines maxBytes : ℕ) : Prop :=
  ∃ earlier kept, splitLines text = earlier ++ kept ∧ result.content = joinLines kept ∧
    Fits maxLines maxBytes kept ∧
    (∀ front line, earlier = front ++ [line] → ¬ Fits maxLines maxBytes (line :: kept)) ∧
    CountsRightly text result kept.length

/-- The end of the last line, as many characters as fit. -/
def LastLineEnd (maxBytes : ℕ) : Prop :=
  ∃ earlier front c, splitLines text = earlier ++ [front ++ c :: result.content] ∧
    byteLength result.content ≤ maxBytes ∧ maxBytes < byteLength (c :: result.content) ∧
    CountsRightly text result 1

end Results

lemma truncateHead_window (text : List Char) (options : TruncationOptions) :
    HeadWindow text (truncateHead text options) (options.maxLines.getD DEFAULT_MAX_LINES)
      (options.maxBytes.getD DEFAULT_MAX_BYTES) := by
  generalize hlines : options.maxLines.getD DEFAULT_MAX_LINES = maxLines
  generalize hbytes : options.maxBytes.getD DEFAULT_MAX_BYTES = maxBytes
  have hspec := @keepFirstLines_spec maxLines maxBytes 0 [] (splitLines text) fits_nil rfl
  unfold truncateHead
  simp only [hlines, hbytes]
  generalize keepFirstLines maxLines maxBytes [] 0 (splitLines text) = kept at hspec ⊢
  split_ifs with hall hfirst
  · exact ⟨splitLines text, [], (append_nil _).symm, (joinLines_splitLines text).symm,
      ⟨hall.1, by rw [joinLines_splitLines]; exact hall.2⟩, nofun, rfl, rfl, rfl, rfl⟩
  · refine ⟨[], splitLines text, rfl, rfl, fits_nil, fun line later h hfits => ?_, rfl, rfl, rfl,
      rfl⟩
    rw [h] at hfirst
    have := hfits.2
    rw [nil_append, byteLength_joinLines_cons] at this
    simp only [headD_cons] at hfirst
    omega
  all_goals
    obtain ⟨rest, hsplit, hfits, hrest⟩ := hspec
    exact ⟨kept.outputLinesArr, rest, hsplit, rfl, hfits, hrest, rfl, rfl, rfl, rfl⟩

lemma truncateTail_totals (text : List Char) (options : TruncationOptions) :
    (truncateTail text options).totalLines = (splitLines text).length ∧
      (truncateTail text options).totalBytes = byteLength text := by
  unfold truncateTail
  dsimp only
  split_ifs <;> exact ⟨rfl, rfl⟩

section Tail

variable {options : TruncationOptions}

lemma truncateTail_tailWindow (hlast : splitLines text = earlier ++ [line])
    (hfits : byteLength line ≤ options.maxBytes.getD DEFAULT_MAX_BYTES) :
    TailWindow text (truncateTail text options) (options.maxLines.getD DEFAULT_MAX_LINES)
      (options.maxBytes.getD DEFAULT_MAX_BYTES) := by
  obtain ⟨hcont, hlines, hbytes, -⟩ := truncateTail_window text options
  obtain ⟨htotal, htotal'⟩ := truncateTail_totals text options
  generalize options.maxLines.getD DEFAULT_MAX_LINES = maxLines at *
  generalize options.maxBytes.getD DEFAULT_MAX_BYTES = maxBytes at *
  obtain ⟨rest, hsplit, hkept, hrest⟩ :=
    @keepLastLines_spec maxLines maxBytes 0 [] (splitLines text).reverse fits_nil rfl
      fun _ line' lines' h => by
        rw [hlast, reverse_append, reverse_singleton, singleton_append] at h
        cases h
        exact hfits
  rw [reverse_reverse, append_nil] at hsplit
  exact ⟨rest, _, hsplit, hcont, hkept, hrest, htotal, htotal', hlines, by
    rw [hbytes, hcont]⟩

lemma truncateTail_lastLineEnd (hlines : 0 < options.maxLines.getD DEFAULT_MAX_LINES)
    (hlast : splitLines text = earlier ++ [line])
    (hlong : options.maxBytes.getD DEFAULT_MAX_BYTES < byteLength line) :
    LastLineEnd text (truncateTail text options) (options.maxBytes.getD DEFAULT_MAX_BYTES) := by
  obtain ⟨hcont, houtput, hbytes, -⟩ := truncateTail_window text options
  obtain ⟨htotal, htotal'⟩ := truncateTail_totals text options
  generalize options.maxLines.getD DEFAULT_MAX_LINES = maxLines at *
  generalize options.maxBytes.getD DEFAULT_MAX_BYTES = maxBytes at *
  have hwindow : window maxLines maxBytes text =
      ⟨[tailWithin maxBytes line], byteLength (tailWithin maxBytes line), .bytes, true⟩ := by
    rw [window, hlast, reverse_append, reverse_singleton, singleton_append,
      keepLastLines_cons, if_pos (by simpa using hlines), if_pos (by simpa using hlong),
      if_pos length_nil]
  rw [hwindow] at hcont houtput hbytes
  have hjoin : joinLines [tailWithin maxBytes line] = tailWithin maxBytes line := by
    simp [joinLines]
  rw [hjoin] at hcont hbytes
  obtain ⟨front, c, hsplit, hc⟩ := exists_tailWithin hlong
  refine ⟨earlier, front, c, ?_, ?_, ?_, htotal, htotal', houtput, by rw [hbytes, hcont]⟩
  · rw [hlast, hcont, ← singleton_append (l := tailWithin maxBytes line), ← append_assoc, hsplit]
  · rw [hcont]
    exact byteLength_tailWithin_le maxBytes line
  · rw [hcont, byteLength_cons]
    exact hc

end Tail

/-! ## When something is shown -/

lemma byteLength_pos (h : line ≠ []) : 0 < byteLength line := by
  obtain ⟨c, rest, rfl⟩ := exists_cons_of_ne_nil h
  rw [byteLength_cons]
  have := c.utf8Size_pos
  omega

/-- The last line shows, unless it is empty: then the one in front of it does if both fit. -/
lemma content_ne_nil_iff {result : TruncationResult} (hlines : 0 < maxLines)
    (hlast : splitLines text = earlier ++ [line, []])
    (h : TailWindow text result maxLines maxBytes) :
    result.content ≠ [] ↔ 2 ≤ maxLines ∧ byteLength line < maxBytes := by
  obtain ⟨front, kept, hsplit, hcont, hfits, hnext, -⟩ := h
  have hboth : Fits maxLines maxBytes [line, []] ↔ 2 ≤ maxLines ∧ byteLength line < maxBytes := by
    rw [Fits, byteLength_joinLines_cons, byteLength_joinLines_cons]
    simp only [joinLines, length_cons, length_nil, intercalate_nil, byteLength_nil]
    omega
  rw [← hboth, hcont]
  have hnonempty (kept' : List (List Char)) : joinLines (kept' ++ [line, []]) ≠ [] := by
    intro hnil
    have hbytes := congrArg byteLength hnil
    rw [show kept' ++ [line, []] = (kept' ++ [line]) ++ [[]] by simp,
      byteLength_joinLines_concat] at hbytes
    simp at hbytes
  rw [hlast] at hsplit
  rcases append_eq_append_iff.mp hsplit with ⟨more, rfl, hmore⟩ | ⟨more, rfl, rfl⟩
  · -- at most the last two lines are kept
    rcases more with _ | ⟨line', _ | ⟨line'', more⟩⟩
    · cases hmore
      exact ⟨fun _ => hfits, fun _ => hnonempty []⟩
    · cases hmore
      refine ⟨fun hne => absurd (by simp [joinLines]) hne, fun hfits' => ?_⟩
      exact absurd hfits' (hnext _ _ rfl)
    · have hlen := congrArg List.length hmore
      have hkept : kept = [] := by
        rw [← length_eq_zero_iff]
        simp only [length_cons, length_nil, length_append] at hlen
        omega
      subst hkept
      rw [append_nil] at hmore
      refine absurd ?_ (hnext (earlier ++ [line]) [] (by rw [← hmore]; simp))
      refine ⟨hlines, ?_⟩
      simp [joinLines]
  · exact ⟨fun _ => hfits.of_append, fun _ => hnonempty more⟩

/-- Whole lines are kept from the front, and from the end or else the end of the last line; and a
text that says something is not cut down to nothing, if the limit leaves room for any character. -/
structure TruncatesMaximally (text : List Char) (options : TruncationOptions)
    (maxLines maxBytes : ℕ) : Prop where
  head : HeadWindow text (truncateHead text options) maxLines maxBytes
  tail : ∀ earlier line, splitLines text = earlier ++ [line] → byteLength line ≤ maxBytes →
    TailWindow text (truncateTail text options) maxLines maxBytes
  lastLine : ∀ earlier line, splitLines text = earlier ++ [line] → maxBytes < byteLength line →
    LastLineEnd text (truncateTail text options) maxBytes
  shown : 4 ≤ maxBytes → (∃ c ∈ text, c ≠ '\n') → (truncateTail text options).content ≠ []

/-- A text that ends with a line feed has two lines within the limits. -/
def EndsWithin (text : List Char) (maxLines maxBytes : ℕ) : Prop :=
  ∀ earlier line, splitLines text = earlier ++ [line, []] →
    2 ≤ maxLines ∧ byteLength line < maxBytes

/-- **When truncation keeps a maximal window.** -/
theorem truncation_windows_iff (text : List Char) (options : TruncationOptions)
    (hlines : 0 < options.maxLines.getD DEFAULT_MAX_LINES) :
    TruncatesMaximally text options (options.maxLines.getD DEFAULT_MAX_LINES)
        (options.maxBytes.getD DEFAULT_MAX_BYTES) ↔
      (4 ≤ options.maxBytes.getD DEFAULT_MAX_BYTES → (∃ c ∈ text, c ≠ '\n') →
        EndsWithin text (options.maxLines.getD DEFAULT_MAX_LINES)
          (options.maxBytes.getD DEFAULT_MAX_BYTES)) := by
  have hwindow {earlier : List (List Char)} {line : List Char}
      (hlast : splitLines text = earlier ++ [line, []]) :=
    content_ne_nil_iff hlines hlast (truncateTail_tailWindow
      (show splitLines text = (earlier ++ [line]) ++ [[]] by rw [hlast]; simp) (Nat.zero_le _))
  constructor
  · intro h hfour hchar earlier line hlast
    exact (hwindow hlast).mp (h.shown hfour hchar)
  · intro h
    refine ⟨truncateHead_window text options, fun _ _ => truncateTail_tailWindow,
      fun _ _ => truncateTail_lastLineEnd hlines, fun hfour hchar => ?_⟩
    obtain ⟨earlier, last, hlast⟩ := (eq_nil_or_concat' (splitLines text)).resolve_left
      (splitLines_ne_nil text)
    rcases eq_or_ne last [] with rfl | hne
    · rcases eq_nil_or_concat' earlier with rfl | ⟨earlier, line, rfl⟩
      · -- an empty text says nothing
        obtain ⟨c, hc, -⟩ := hchar
        rw [← joinLines_splitLines text, hlast] at hc
        simp [joinLines] at hc
      · rw [append_assoc] at hlast
        exact (hwindow hlast).mpr (h hfour hchar earlier line hlast)
    · rcases Nat.lt_or_ge (options.maxBytes.getD DEFAULT_MAX_BYTES) (byteLength last) with
        hlong | hfits
      · obtain ⟨_, front, c, -, -, hc, -⟩ := truncateTail_lastLineEnd hlines hlast hlong
        intro hnil
        rw [hnil, byteLength_cons, byteLength_nil] at hc
        have := c.utf8Size_le_four
        omega
      · obtain ⟨front, kept, hsplit, hcontent, -, hnext, -⟩ :=
          truncateTail_tailWindow hlast hfits
        rw [hcontent]
        rcases eq_nil_or_concat' kept with rfl | ⟨kept, line, rfl⟩
        · rw [append_nil] at hsplit
          refine absurd ?_ (hnext earlier last (hsplit ▸ hlast))
          exact ⟨hlines, by simpa [joinLines] using hfits⟩
        · rw [hlast, ← append_assoc] at hsplit
          obtain ⟨-, hline⟩ := append_inj' hsplit rfl
          intro hnil
          have hlength := congrArg byteLength hnil
          rw [byteLength_joinLines_concat, byteLength_nil, ← singleton_inj.mp hline] at hlength
          have := byteLength_pos hne
          omega

/-- Three lines, of which the last two fit. -/
theorem truncation_windows_iff_threeLines :
    TruncatesMaximally "one\ntwo\n".toList ⟨some 2, some 4⟩ 2 4 ↔
      (4 ≤ 4 → (∃ c ∈ "one\ntwo\n".toList, c ≠ '\n') → EndsWithin "one\ntwo\n".toList 2 4) :=
  truncation_windows_iff "one\ntwo\n".toList ⟨some 2, some 4⟩ (by decide)

/-- **A long line that is ended shows nothing.**  The empty line behind it fits, and no more. -/
theorem truncateTail_hides_line :
    (truncateTail "long line\n".toList ⟨some 10, some 4⟩).content = [] ∧
      ¬ TruncatesMaximally "long line\n".toList ⟨some 10, some 4⟩ 10 4 := by
  have hempty : (truncateTail "long line\n".toList ⟨some 10, some 4⟩).content = [] := by
    decide +kernel
  exact ⟨hempty, fun h => h.shown (by decide) ⟨'l', by decide, by decide⟩ hempty⟩

end Amide
