import Mathlib.Algebra.GroupWithZero.Nat
import Amide.Construction.Tools.Truncate

/-!
# What the tail truncation looks at

The lines that `truncateTail` keeps are those its loop has at the end, whether or not the text
fits (`truncateTail_window`).  The loop stops at the first line from behind that does not fit, and
so the lines before that one do not matter (`window_append`), nor does the beginning of a last
line that is too long by itself (`window_lastLine`).
-/

namespace Amide

open Utf8 List

lemma truncateStringToBytesFromEnd_eq (str : List Char) (maxBytes : ℕ) :
    truncateStringToBytesFromEnd str maxBytes = tailWithin maxBytes str := by
  rw [truncateStringToBytesFromEnd]
  split_ifs with h
  · exact (tailWithin_of_le h).symm
  · show decode ((encode str).drop (charStart (encode str) (byteLength str - maxBytes))) = _
    rw [drop_charStart (not_le.1 h), decode_encode]

/-! ## Lines -/

lemma splitLines_append_lf (text more : List Char) :
    splitLines (text ++ '\n' :: more) = splitLines text ++ splitLines more :=
  splitOn_append_cons_self text more

variable (text : List Char)

lemma splitLines_ne_nil : splitLines text ≠ [] := splitOn_ne_nil _ _

lemma splitLines_of_notMem {text : List Char} (h : '\n' ∉ text) : splitLines text = [text] :=
  splitOn_eq_singleton h

@[simp] lemma joinLines_splitLines : joinLines (splitLines text) = text :=
  intercalate_splitOn '\n'

/-- A text is made of a line, or of a shorter text, a line feed and a line. -/
lemma exists_lastLine :
    ∃ line, '\n' ∉ line ∧ (text = line ∨ ∃ front, text = front ++ '\n' :: line) := by
  induction text with
  | nil => exact ⟨[], not_mem_nil, .inl rfl⟩
  | cons c text ih =>
    obtain ⟨line, hline, rfl | ⟨front, rfl⟩⟩ := ih
    · rcases eq_or_ne c '\n' with rfl | hc
      · exact ⟨text, hline, .inr ⟨[], rfl⟩⟩
      · exact ⟨c :: text, by simp [hc.symm, hline], .inl rfl⟩
    · exact ⟨line, hline, .inr ⟨c :: front, rfl⟩⟩

/-- What is appended without a line feed goes to the last line. -/
theorem exists_splitLines_append :
    ∃ earlier line, ∀ more, '\n' ∉ more →
      splitLines (text ++ more) = earlier ++ [line ++ more] := by
  obtain ⟨line, hline, rfl | ⟨front, rfl⟩⟩ := exists_lastLine text
  · exact ⟨[], text, fun more hmore => splitLines_of_notMem (by simp [hline, hmore])⟩
  · refine ⟨splitLines front, line, fun more hmore => ?_⟩
    have hlast : '\n' ∉ line ++ more := by simp [hline, hmore]
    rw [append_assoc, cons_append, splitLines_append_lf, splitLines_of_notMem hlast]

lemma length_splitLines : (splitLines text).length = 1 + text.count '\n' := by
  induction text with
  | nil => rfl
  | cons c text ih =>
    rcases eq_or_ne c '\n' with rfl | hc
    · have hsplit : splitLines ('\n' :: text) = splitLines [] ++ splitLines text :=
        splitLines_append_lf [] text
      rw [hsplit, length_append, ih, count_cons_self]
      show 1 + _ = _
      omega
    · rw [splitLines, splitOn_cons_eq_if_modifyHead, if_neg (by simpa using hc),
        length_modifyHead, count_cons_of_ne hc]
      exact ih

/-- The bytes of lines, each with its line feed. -/
def linesBytes (lines : List (List Char)) : ℕ := (lines.map fun line => byteLength line + 1).sum

@[simp] lemma linesBytes_cons (line : List Char) (lines : List (List Char)) :
    linesBytes (line :: lines) = byteLength line + 1 + linesBytes lines := rfl

@[simp] lemma linesBytes_reverse (lines : List (List Char)) :
    linesBytes lines.reverse = linesBytes lines := by
  simp [linesBytes, sum_reverse]

lemma linesBytes_splitLines : linesBytes (splitLines text) = byteLength text + 1 := by
  have hjoin : ∀ lines, lines ≠ [] → linesBytes lines = byteLength (joinLines lines) + 1 := by
    intro lines hne
    induction lines with
    | nil => exact absurd rfl hne
    | cons line lines ih =>
      rcases lines with _ | ⟨line', lines⟩
      · simp [joinLines, linesBytes]
      · have hlf : byteLength ['\n'] = 1 := by decide
        rw [linesBytes_cons, ih (cons_ne_nil _ _), joinLines, joinLines,
          intercalate_cons_cons, byteLength_append, byteLength_append, hlf]
        omega
  rw [hjoin _ (splitLines_ne_nil text), joinLines_splitLines]

/-! ## The loop -/

section Loop

variable {maxLines maxBytes count : ℕ} {out lines earlier : List (List Char)} {line : List Char}

/-- The bytes that the next line takes. -/
lemma keepLastLines_cons : keepLastLines maxLines maxBytes out count (line :: lines) =
      if out.length < maxLines then
        if maxBytes < count + (byteLength line + min 1 out.length) then
          if out.length = 0 then
            ⟨[tailWithin maxBytes line], byteLength (tailWithin maxBytes line), .bytes, true⟩
          else ⟨out, count, .bytes, false⟩
        else
          keepLastLines maxLines maxBytes (line :: out)
            (count + (byteLength line + min 1 out.length)) lines
      else ⟨out, count, .lines, false⟩ := by
  have hsep : (if out.length > 0 then 1 else 0) = min 1 out.length := by
    split_ifs <;> omega
  simp only [keepLastLines, truncateStringToBytesFromEnd_eq, hsep, gt_iff_lt]

/-- When all lines fit, the loop keeps them. -/
lemma keepLastLines_all (hlines : out.length + lines.length ≤ maxLines)
    (hbytes : count + linesBytes lines + min 1 out.length ≤ maxBytes + 1) :
    ∃ count', keepLastLines maxLines maxBytes out count lines =
      ⟨lines.reverse ++ out, count', .lines, false⟩ := by
  induction lines generalizing out count with
  | nil => exact ⟨count, rfl⟩
  | cons line lines ih =>
    rw [length_cons] at hlines
    rw [linesBytes_cons] at hbytes
    rw [keepLastLines_cons, if_pos (by omega), if_neg (by omega)]
    rw [reverse_cons, append_assoc]
    apply ih
    · rw [length_cons]
      omega
    · omega

/-- What two loops keep is the same, but for why they stopped. -/
def KeptLines.SameLines (kept kept' : KeptLines) : Prop :=
  kept.outputLinesArr = kept'.outputLinesArr ∧ kept.lastLinePartial = kept'.lastLinePartial

/-- Before a line that does not fit behind the others, nothing matters. -/
lemma keepLastLines_append (hne : 0 < out.length ∨ lines ≠ [])
    (hbytes : maxBytes < count + linesBytes lines + min 1 out.length + byteLength line) :
    (keepLastLines maxLines maxBytes out count (lines ++ line :: earlier)).SameLines
      (keepLastLines maxLines maxBytes out count lines) := by
  induction lines generalizing out count with
  | nil =>
    have hout : 0 < out.length := hne.resolve_right (· rfl)
    have hnil : linesBytes [] = 0 := rfl
    rw [nil_append, keepLastLines_cons]
    split_ifs with h1 h2 h3
    · omega
    · exact ⟨rfl, rfl⟩
    · omega
    · exact ⟨rfl, rfl⟩
  | cons line' lines ih =>
    rw [linesBytes_cons] at hbytes
    rw [cons_append, keepLastLines_cons, keepLastLines_cons]
    split_ifs with h1 h2 h3
    · exact ⟨rfl, rfl⟩
    · exact ⟨rfl, rfl⟩
    · refine ih (.inl (Nat.succ_pos _)) ?_
      rw [length_cons]
      omega
    · exact ⟨rfl, rfl⟩

end Loop

/-! ## The lines kept -/

section Window

variable {maxLines maxBytes : ℕ} {text more line : List Char} {earlier : List (List Char)}

/-- What the loop of `truncateTail` makes of a text. -/
def window (maxLines maxBytes : ℕ) (text : List Char) : KeptLines :=
  keepLastLines maxLines maxBytes [] 0 (splitLines text).reverse

/-- A text that fits is kept. -/
theorem window_of_fits (hlines : (splitLines text).length ≤ maxLines)
    (hbytes : byteLength text ≤ maxBytes) :
    (window maxLines maxBytes text).outputLinesArr = splitLines text ∧
      (window maxLines maxBytes text).lastLinePartial = false := by
  obtain ⟨count, h⟩ : ∃ count, window maxLines maxBytes text =
      ⟨(splitLines text).reverse.reverse ++ [], count, .lines, false⟩ := by
    apply keepLastLines_all
    · simpa using hlines
    · rw [linesBytes_reverse, linesBytes_splitLines]
      simpa using hbytes
  rw [h]
  simp

lemma truncateTail_window (content : List Char) (options : TruncationOptions) :
    let kept := window (options.maxLines.getD DEFAULT_MAX_LINES)
      (options.maxBytes.getD DEFAULT_MAX_BYTES) content
    let result := truncateTail content options
    result.content = joinLines kept.outputLinesArr ∧
      result.outputLines = kept.outputLinesArr.length ∧
      result.outputBytes = byteLength (joinLines kept.outputLinesArr) ∧
      result.lastLinePartial = kept.lastLinePartial := by
  intro kept result
  by_cases hfits : (splitLines content).length ≤ options.maxLines.getD DEFAULT_MAX_LINES ∧
      byteLength content ≤ options.maxBytes.getD DEFAULT_MAX_BYTES
  · obtain ⟨hlines, hpartial⟩ := window_of_fits hfits.1 hfits.2
    have hres : result = truncateTail content options := rfl
    rw [truncateTail, if_pos hfits] at hres
    rw [hres, hlines, hpartial, joinLines_splitLines]
    exact ⟨rfl, rfl, rfl, rfl⟩
  · have hres : result = truncateTail content options := rfl
    rw [truncateTail, if_neg hfits] at hres
    rw [hres]
    exact ⟨rfl, rfl, rfl, rfl⟩

lemma window_zero (maxBytes : ℕ) (text : List Char) :
    window 0 maxBytes text = ⟨[], 0, .lines, false⟩ := by
  rw [window]
  cases (splitLines text).reverse with
  | nil => rfl
  | cons line lines => rfl

/-- Before a line that does not fit with the text behind it, nothing matters. -/
theorem window_append {front : List Char} (hfront : splitLines front = earlier ++ [line])
    (hbytes : maxBytes < byteLength line + 1 + byteLength text) :
    (window maxLines maxBytes (front ++ '\n' :: text)).SameLines
      (window maxLines maxBytes text) := by
  rw [window, window, splitLines_append_lf, hfront, reverse_append, reverse_append,
    reverse_singleton, singleton_append]
  apply keepLastLines_append
  · exact .inr (by simpa using splitLines_ne_nil text)
  · rw [linesBytes_reverse, linesBytes_splitLines, length_nil]
    omega

/-- Of a last line too long by itself the end is kept. -/
theorem window_lastLine (hlines : 0 < maxLines) (hmore : '\n' ∉ more)
    (hbytes : maxBytes < byteLength more) :
    window maxLines maxBytes (text ++ more) =
      ⟨[tailWithin maxBytes more], byteLength (tailWithin maxBytes more), .bytes, true⟩ := by
  obtain ⟨earlier, line, hsplit⟩ := exists_splitLines_append text
  rw [window, hsplit more hmore, reverse_append, reverse_singleton,
    singleton_append, keepLastLines_cons, if_pos (by simpa using hlines),
    if_pos (by rw [byteLength_append]; omega), if_pos length_nil,
        tailWithin_append line hbytes.le]

end Window

end Amide
