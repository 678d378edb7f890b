import Amide.Construction.Tools.DiffString
import Amide.Properties.Tools.FuzzyMatches
import Amide.Properties.Tui.PasteExpansion

/-!
# The numbers of a diff

Of a line diff whose parts are made of whole lines, every line is shown with its number: an added
one with that of the new content, a removed one and one of the context with that of the old content;
and the changed lines are all shown, in order (`generateDiffString_numbers`).  That the parts put
together give the contents is not enough, since a part could end in the middle of a line
(`diff_of_cut_line`).
-/

namespace Amide

open List

/-! ## Whole lines -/

/-- The text ends at a line boundary. -/
def EndsLine (value : CodeUnits) : Prop := value = [] ∨ ∃ before, value = before ++ [newlineCode]

/-- All texts but the last end at line boundaries. -/
def WholeLines (values : List CodeUnits) : Prop := ∀ value ∈ values.dropLast, EndsLine value

section Lines

variable {value rest line : CodeUnits} {values : List CodeUnits} {k : ℕ}

lemma rawLines_nil : rawLines [] = [] := by decide

/-- Behind a line boundary the lines begin anew. -/
lemma rawLines_append (h : EndsLine value) :
    rawLines (value ++ rest) = rawLines value ++ rawLines rest := by
  rcases h with rfl | ⟨before, rfl⟩
  · rw [nil_append, rawLines_nil, nil_append]
  · have hsplit (rest : CodeUnits) : (before ++ [newlineCode] ++ rest).splitOn newlineCode =
        before.splitOn newlineCode ++ rest.splitOn newlineCode := by
      rw [append_assoc, singleton_append, splitOn_append_cons_self]
    have hvalue : rawLines (before ++ [newlineCode]) = before.splitOn newlineCode := by
      have hnil := hsplit []
      rw [append_nil, splitOn_nil] at hnil
      rw [rawLines, hnil]
      simp
    have hne := splitOn_ne_nil newlineCode rest
    rw [hvalue, rawLines, hsplit, rawLines, getLast?_append_of_ne_nil _ hne]
    split_ifs
    · rw [dropLast_append_of_ne_nil hne]
    · rfl

lemma rawLines_flatten (h : WholeLines values) :
    rawLines values.flatten = values.flatMap rawLines := by
  induction values with
  | nil => exact rawLines_nil
  | cons value values ih =>
    cases values with
    | nil => simp
    | cons value' values =>
      rw [WholeLines, dropLast_cons_of_ne_nil (cons_ne_nil _ _), forall_mem_cons] at h
      rw [flatten_cons, rawLines_append h.1, ih h.2]
      rfl

lemma getElem?_of_rawLines (h : (rawLines value)[k]? = some line) :
    (value.splitOn newlineCode)[k]? = some line := by
  rw [rawLines] at h
  split_ifs at h
  · rw [getElem?_dropLast] at h
    split_ifs at h
    exact h
  · exact h

end Lines

/-! ## What is shown -/

/-- The texts of the parts of one side. -/
def sideTexts (shown : Change → Bool) (parts : List Change) : List CodeUnits :=
  (parts.filter shown).map Change.value

/-- What a diff by lines is: the parts of each side give its content, in whole lines. -/
structure DiffLinesLaws (diffLines : CodeUnits → CodeUnits → List Change) : Prop where
  old : ∀ oldContent newContent,
    (sideTexts (!·.added) (diffLines oldContent newContent)).flatten = oldContent
  new : ∀ oldContent newContent,
    (sideTexts (!·.removed) (diffLines oldContent newContent)).flatten = newContent
  oldLines : ∀ oldContent newContent,
    WholeLines (sideTexts (!·.added) (diffLines oldContent newContent))
  newLines : ∀ oldContent newContent,
    WholeLines (sideTexts (!·.removed) (diffLines oldContent newContent))

namespace DiffLine

/-- The line stands at its number, the first at `startLine`. -/
def Stands (oldLines newLines : List CodeUnits) (startLine : ℕ) : DiffLine → Prop
  | added lineNum line => startLine ≤ lineNum ∧ newLines[lineNum - startLine]? = some line
  | removed lineNum line | context lineNum line =>
      startLine ≤ lineNum ∧ oldLines[lineNum - startLine]? = some line
  | skipped => True

/-- The number of a line of the new content. -/
def newNum? : DiffLine → Option ℕ
  | added lineNum _ => some lineNum
  | _ => none

/-- The number of a line of the old content. -/
def oldNum? : DiffLine → Option ℕ
  | removed lineNum _ | context lineNum _ => some lineNum
  | _ => none

/-- A changed line, and whether it is an added one. -/
def change? : DiffLine → Option (Bool × CodeUnits)
  | added _ line => some (true, line)
  | removed _ line => some (false, line)
  | _ => none

end DiffLine

variable {l : DiffLine}

lemma filterMap_snoc_of_none {β : Type} (f : DiffLine → Option β) (output : List DiffLine)
    (h : f l = none) : (output ++ [l]).filterMap f = output.filterMap f := by
  rw [filterMap_append, filterMap_cons, h]
  exact append_nil _

/-- The changed lines of a part. -/
def Change.lines (part : Change) : List (Bool × CodeUnits) :=
  if part.isChange then (rawLines part.value).map fun line => (part.added, line) else []

/-! ## The loop -/

namespace DiffState

/-- How far the loop has come: the lines that are left of each side, the next of them with the
number that is due; and what has been shown stands at its number, in line. -/
structure At (oldLines newLines : List CodeUnits) (startLine : ℕ) (s : DiffState)
    (restOld restNew : List CodeUnits) : Prop where
  old : ∃ i, s.oldLineNum = startLine + i ∧ oldLines.drop i = restOld
  new : ∃ j, s.newLineNum = startLine + j ∧ newLines.drop j = restNew
  stands : ∀ l ∈ s.output, l.Stands oldLines newLines startLine
  oldNums : (s.output.filterMap DiffLine.oldNum?).Pairwise (· < ·) ∧
    ∀ n ∈ s.output.filterMap DiffLine.oldNum?, n < s.oldLineNum
  newNums : (s.output.filterMap DiffLine.newNum?).Pairwise (· < ·) ∧
    ∀ n ∈ s.output.filterMap DiffLine.newNum?, n < s.newLineNum

variable (contextLines : ℕ)

section At

variable {oldLines newLines restOld restNew lines : List CodeUnits} {startLine : ℕ}
  {s : DiffState} {line line' : CodeUnits}

/-- A number that is due, added to those before it. -/
lemma increasing_snoc {ns : List ℕ} {n : ℕ} (h : ns.Pairwise (· < ·) ∧ ∀ m ∈ ns, m < n) :
    (ns ++ [n]).Pairwise (· < ·) ∧ ∀ m ∈ ns ++ [n], m < n + 1 := by
  rw [pairwise_append]
  refine ⟨⟨h.1, pairwise_singleton _ _, fun m hm k hk => ?_⟩, fun m hm => ?_⟩
  · rw [mem_singleton.mp hk]
    exact h.2 m hm
  · rcases mem_append.mp hm with hm | hm
    · exact Nat.lt_succ_of_lt (h.2 m hm)
    · rw [mem_singleton.mp hm]
      exact Nat.lt_succ_self n

lemma increasing_mono {ns : List ℕ} {n m : ℕ} (h : ns.Pairwise (· < ·) ∧ ∀ k ∈ ns, k < n)
    (hle : n ≤ m) : ns.Pairwise (· < ·) ∧ ∀ k ∈ ns, k < m :=
  ⟨h.1, fun k hk => lt_of_lt_of_le (h.2 k hk) hle⟩

/-- The line that is due stands at its number. -/
lemma stands_of_drop {all rest : List CodeUnits} {i n : ℕ} (hn : n = startLine + i)
    (h : all.drop i = line :: rest) : startLine ≤ n ∧ all[n - startLine]? = some line := by
  refine ⟨by omega, ?_⟩
  have hget := congrArg (·[0]?) h
  simp only [getElem?_drop, Nat.add_zero, getElem?_cons_zero] at hget
  rw [hn, Nat.add_sub_cancel_left, hget]

lemma At.pushContext (h : At oldLines newLines startLine s (line :: restOld) (line' :: restNew)) :
    At oldLines newLines startLine (s.pushContext line) restOld restNew := by
  obtain ⟨i, hi, hold⟩ := h.old
  obtain ⟨j, hj, hnew⟩ := h.new
  refine ⟨⟨i + 1, ?_, ?_⟩, ⟨j + 1, ?_, ?_⟩, fun l hl => ?_, ?_, ?_⟩
  · rw [DiffState.pushContext, hi]
    rfl
  · rw [← drop_drop, hold]
    rfl
  · rw [DiffState.pushContext, hj]
    rfl
  · rw [← drop_drop, hnew]
    rfl
  · rcases mem_append.mp hl with hl | hl
    · exact h.stands l hl
    · rw [mem_singleton.mp hl]
      exact stands_of_drop hi hold
  · rw [DiffState.pushContext, filterMap_append]
    exact increasing_snoc h.oldNums
  · rw [DiffState.pushContext, filterMap_snoc_of_none _ _ rfl]
    exact increasing_mono h.newNums (Nat.le_succ _)

section
variable (h : At oldLines newLines startLine s (lines ++ restOld) (lines ++ restNew))
include h

lemma At.foldl_pushContext :
    At oldLines newLines startLine (lines.foldl DiffState.pushContext s) restOld restNew := by
  induction lines generalizing s with
  | nil => exact h
  | cons line lines ih => exact ih h.pushContext

lemma At.advance : At oldLines newLines startLine (s.advance lines.length) restOld restNew := by
  obtain ⟨i, hi, hold⟩ := h.old
  obtain ⟨j, hj, hnew⟩ := h.new
  refine ⟨⟨i + lines.length, ?_, ?_⟩, ⟨j + lines.length, ?_, ?_⟩, h.stands,
    increasing_mono h.oldNums (Nat.le_add_right _ _),
    increasing_mono h.newNums (Nat.le_add_right _ _)⟩
  · rw [DiffState.advance, hi, Nat.add_assoc]
  · rw [← drop_drop, hold, drop_left]
  · rw [DiffState.advance, hj, Nat.add_assoc]
  · rw [← drop_drop, hnew, drop_left]

lemma At.pushSkipped :
    At oldLines newLines startLine (s.pushSkipped lines.length) restOld restNew := by
  have hskipped : At oldLines newLines startLine { s with output := s.output ++ [.skipped] }
      (lines ++ restOld) (lines ++ restNew) := by
    refine ⟨h.old, h.new, fun l hl => ?_, ?_, ?_⟩
    · rcases mem_append.mp hl with hl | hl
      · exact h.stands l hl
      · rw [mem_singleton.mp hl]
        trivial
    · rw [filterMap_snoc_of_none _ _ rfl]
      exact h.oldNums
    · rw [filterMap_snoc_of_none _ _ rfl]
      exact h.newNums
  exact hskipped.advance

end

lemma At.pushAdded (h : At oldLines newLines startLine s restOld (line :: restNew)) :
    At oldLines newLines startLine (s.pushAdded line) restOld restNew := by
  obtain ⟨j, hj, hnew⟩ := h.new
  refine ⟨h.old, ⟨j + 1, ?_, ?_⟩, fun l hl => ?_, ?_, ?_⟩
  · rw [DiffState.pushAdded, hj]
    rfl
  · rw [← drop_drop, hnew]
    rfl
  · rcases mem_append.mp hl with hl | hl
    · exact h.stands l hl
    · rw [mem_singleton.mp hl]
      exact stands_of_drop hj hnew
  · rw [DiffState.pushAdded, filterMap_snoc_of_none _ _ rfl]
    exact h.oldNums
  · rw [DiffState.pushAdded, filterMap_append]
    exact increasing_snoc h.newNums

lemma At.pushRemoved (h : At oldLines newLines startLine s (line :: restOld) restNew) :
    At oldLines newLines startLine (s.pushRemoved line) restOld restNew := by
  obtain ⟨i, hi, hold⟩ := h.old
  refine ⟨⟨i + 1, ?_, ?_⟩, h.new, fun l hl => ?_, ?_, ?_⟩
  · rw [DiffState.pushRemoved, hi]
    rfl
  · rw [← drop_drop, hold]
    rfl
  · rcases mem_append.mp hl with hl | hl
    · exact h.stands l hl
    · rw [mem_singleton.mp hl]
      exact stands_of_drop hi hold
  · rw [DiffState.pushRemoved, filterMap_append]
    exact increasing_snoc h.oldNums
  · rw [DiffState.pushRemoved, filterMap_snoc_of_none _ _ rfl]
    exact h.newNums

lemma At.foldl_pushAdded (h : At oldLines newLines startLine s restOld (lines ++ restNew)) :
    At oldLines newLines startLine (lines.foldl DiffState.pushAdded s) restOld restNew := by
  induction lines generalizing s with
  | nil => exact h
  | cons line lines ih => exact ih h.pushAdded

lemma At.foldl_pushRemoved (h : At oldLines newLines startLine s (lines ++ restOld) restNew) :
    At oldLines newLines startLine (lines.foldl DiffState.pushRemoved s) restOld restNew := by
  induction lines generalizing s with
  | nil => exact h
  | cons line lines ih => exact ih h.pushRemoved

/-- An unchanged part, the context of which may be cut at either end or in the middle. -/
lemma At.unchangedPart (nextPartIsChange : Bool)
    (h : At oldLines newLines startLine s (lines ++ restOld) (lines ++ restNew)) :
    At oldLines newLines startLine
      (DiffState.unchangedPart contextLines s lines nextPartIsChange) restOld restNew := by
  suffices hbefore : ∀ s', At oldLines newLines startLine s' restOld restNew →
      At oldLines newLines startLine { s' with lastWasChange := false } restOld restNew by
    refine hbefore _ ?_
    have hsplit (n : ℕ) (rest : List CodeUnits) :
        lines ++ rest = lines.take n ++ (lines.drop n ++ rest) := by
      rw [← append_assoc, take_append_drop]
    -- what is skipped at the end, or nothing
    have hend : At oldLines newLines startLine
        ((lines.take contextLines).foldl DiffState.pushContext s)
        (lines.drop contextLines ++ restOld) (lines.drop contextLines ++ restNew) := by
      refine At.foldl_pushContext ?_
      rwa [← hsplit, ← hsplit]
    have hskipped : lines.length - (lines.take contextLines).length =
        (lines.drop contextLines).length := by
      rw [length_take, length_drop]
      omega
    split_ifs with hboth hshort hlead htrail
    · exact h.foldl_pushContext
    · -- the two ends and what is between them
      have hmiddle : lines.length - (lines.take contextLines).length -
          (lines.drop (lines.length - contextLines)).length =
            ((lines.drop contextLines).take (lines.length - 2 * contextLines)).length := by
        simp only [length_take, length_drop]
        omega
      have hlast : (lines.drop contextLines).drop (lines.length - 2 * contextLines) =
          lines.drop (lines.length - contextLines) := by
        rw [drop_drop]
        congr 1
        omega
      dsimp only
      rw [hmiddle]
      refine (At.pushSkipped ?_).foldl_pushContext
      rw [← hlast, ← append_assoc, ← append_assoc, take_append_drop]
      exact hend
    · dsimp only
      rw [hskipped]
      split_ifs with hsome
      · exact hend.pushSkipped
      · have hnil : lines.drop contextLines = [] :=
          eq_nil_of_length_eq_zero (Nat.eq_zero_of_not_pos hsome)
        rw [hnil] at hend
        exact hend
    · have hfront : lines.length - contextLines =
          (lines.take (lines.length - contextLines)).length := by
        rw [length_take]
        omega
      refine At.foldl_pushContext ?_
      rw [hsplit (lines.length - contextLines) restOld,
        hsplit (lines.length - contextLines) restNew] at h
      split_ifs with hsome
      · have hshown := h.pushSkipped
        rwa [← hfront] at hshown
      · rw [Nat.eq_zero_of_not_pos hsome] at h ⊢
        exact h
    · exact h.advance
  exact fun s' hs' => ⟨hs'.old, hs'.new, hs'.stands, hs'.oldNums, hs'.newNums⟩

lemma At.changedPart {part : Change}
    (h : At oldLines newLines startLine s
      (if part.added then restOld else rawLines part.value ++ restOld)
      (if part.added then rawLines part.value ++ restNew else restNew)) :
    At oldLines newLines startLine (s.changedPart part) restOld restNew := by
  have hbegun : At oldLines newLines startLine
      { s with firstChangedLine := s.firstChangedLine.or (some s.newLineNum) }
      (if part.added then restOld else rawLines part.value ++ restOld)
      (if part.added then rawLines part.value ++ restNew else restNew) :=
    ⟨h.old, h.new, h.stands, h.oldNums, h.newNums⟩
  suffices hpushed : At oldLines newLines startLine ((rawLines part.value).foldl
      (if part.added then DiffState.pushAdded else DiffState.pushRemoved)
      { s with firstChangedLine := s.firstChangedLine.or (some s.newLineNum) }) restOld restNew from
    ⟨hpushed.old, hpushed.new, hpushed.stands, hpushed.oldNums, hpushed.newNums⟩
  split_ifs at hbegun ⊢
  · exact hbegun.foldl_pushAdded
  · exact hbegun.foldl_pushRemoved

/-- The lines of one side. -/
def sideLines (shown : Change → Bool) (parts : List Change) : List CodeUnits :=
  (sideTexts shown parts).flatMap rawLines

lemma sideLines_cons (shown : Change → Bool) (part : Change) (parts : List Change) :
    sideLines shown (part :: parts) =
      (if shown part then rawLines part.value else []) ++ sideLines shown parts := by
  rw [sideLines, sideTexts, filter_cons]
  split_ifs <;> rfl

lemma At.diffParts (parts : List Change)
    (h : At oldLines newLines startLine s (sideLines (!·.added) parts)
      (sideLines (!·.removed) parts)) :
    At oldLines newLines startLine (DiffState.diffParts contextLines s parts) [] [] := by
  induction parts generalizing s with
  | nil => exact h
  | cons part parts ih =>
    rw [sideLines_cons, sideLines_cons] at h
    refine ih ?_
    rw [DiffState.diffPart]
    cases hkind : part.kind with
    | unchanged =>
      have hflags : part.isChange = false ∧ part.added = false ∧ part.removed = false := by
        simp [Change.isChange, Change.added, Change.removed, hkind]
      rw [if_neg (by rw [hflags.1]; exact Bool.false_ne_true)]
      refine At.unchangedPart contextLines _ ?_
      simpa [hflags] using h
    | added =>
      have hflags : part.isChange = true ∧ part.added = true ∧ part.removed = false := by
        simp [Change.isChange, Change.added, Change.removed, hkind]
      rw [if_pos hflags.1]
      refine At.changedPart ?_
      simpa [hflags] using h
    | removed =>
      have hflags : part.isChange = true ∧ part.added = false ∧ part.removed = true := by
        simp [Change.isChange, Change.added, Change.removed, hkind]
      rw [if_pos hflags.1]
      refine At.changedPart ?_
      simpa [hflags] using h

end At

/-! ### Every changed line -/

section Changes

variable {s : DiffState}

def changes (s : DiffState) : List (Bool × CodeUnits) := s.output.filterMap DiffLine.change?

variable (lines : List CodeUnits)

lemma changes_foldl_pushContext : (lines.foldl DiffState.pushContext s).changes = s.changes := by
  induction lines generalizing s with
  | nil => rfl
  | cons line lines ih => exact ih.trans (filterMap_snoc_of_none _ _ rfl)

lemma changes_pushSkipped (n : ℕ) : (s.pushSkipped n).changes = s.changes :=
  filterMap_snoc_of_none _ _ rfl

lemma changes_unchangedPart (raw : List CodeUnits) (next : Bool) :
    (DiffState.unchangedPart contextLines s raw next).changes = s.changes := by
  suffices hbefore : ∀ s' : DiffState, s'.changes = s.changes →
      ({ s' with lastWasChange := false } : DiffState).changes = s.changes by
    refine hbefore _ ?_
    split_ifs
    · exact changes_foldl_pushContext _
    · rw [changes_foldl_pushContext, changes_pushSkipped, changes_foldl_pushContext]
    · dsimp only
      split_ifs
      · rw [changes_pushSkipped, changes_foldl_pushContext]
      · exact changes_foldl_pushContext _
    · rw [changes_foldl_pushContext]
      split_ifs
      · exact changes_pushSkipped _
      · rfl
    · rfl
  exact fun s' hs' => hs'

lemma changes_foldl_pushAdded :
    (lines.foldl DiffState.pushAdded s).changes = s.changes ++ lines.map (true, ·) := by
  induction lines generalizing s with
  | nil => simp
  | cons line lines ih =>
    have hstep : (s.pushAdded line).changes = s.changes ++ [(true, line)] := filterMap_append
    rw [foldl_cons, ih, hstep, append_assoc]
    rfl

lemma changes_foldl_pushRemoved :
    (lines.foldl DiffState.pushRemoved s).changes = s.changes ++ lines.map (false, ·) := by
  induction lines generalizing s with
  | nil => simp
  | cons line lines ih =>
    have hstep : (s.pushRemoved line).changes = s.changes ++ [(false, line)] :=
      filterMap_append
    rw [foldl_cons, ih, hstep, append_assoc]
    rfl

lemma changes_diffPart (part : Change) (next : Bool) :
    (s.diffPart contextLines part next).changes = s.changes ++ part.lines := by
  rw [DiffState.diffPart, Change.lines]
  split_ifs with hchange
  · rw [DiffState.changedPart]
    cases hadded : part.added with
    | true => exact changes_foldl_pushAdded _
    | false => exact changes_foldl_pushRemoved _
  · rw [changes_unchangedPart, append_nil]

lemma changes_diffParts (parts : List Change) : (DiffState.diffParts contextLines s parts).changes =
      s.changes ++ parts.flatMap Change.lines := by
  induction parts generalizing s with
  | nil => simp [DiffState.diffParts]
  | cons part parts ih =>
    rw [DiffState.diffParts, ih, changes_diffPart, append_assoc, flatMap_cons]

end Changes

end DiffState

/-! ## The string -/

section Strings

variable {oldContent newContent : CodeUnits} {startLine w n : ℕ} {sign line : CodeUnits}

lemma newline_notMem_numbered (hsign : newlineCode ∉ sign) (hline : newlineCode ∉ line) :
    newlineCode ∉ sign ++ padStart (decimalUnits n) w ++ asciiUnits " " ++ line := by
  have hdigits : newlineCode ∉ decimalUnits n := fun hmem =>
    absurd (isDigit_of_mem_decimalUnits hmem) (by decide)
  have hpad : newlineCode ∉ padStart (decimalUnits n) w := by
    rw [padStart, mem_append]
    rintro (hmem | hmem)
    · exact absurd (eq_of_mem_replicate hmem) (by decide)
    · exact hdigits hmem
  have hblank : newlineCode ∉ asciiUnits " " := by decide
  simp only [mem_append, not_or]
  exact ⟨⟨⟨hsign, hpad⟩, hblank⟩, hline⟩

/-- A line of a content is shown on one line. -/
lemma newline_notMem_render
    (h : l.Stands (oldContent.splitOn newlineCode) (newContent.splitOn newlineCode) startLine) :
    newlineCode ∉ l.render w := by
  cases l with
  | added n line | removed n line | context n line =>
    exact newline_notMem_numbered (by decide)
      (newline_notMem_of_mem_splitOn (mem_of_getElem? h.2))
  | skipped =>
    rw [DiffLine.render, padStart, mem_append, mem_append, append_nil]
    rintro ((hmem | hmem) | hmem)
    · exact absurd hmem (by decide)
    · exact absurd (eq_of_mem_replicate hmem) (by decide)
    · exact absurd hmem (by decide)

/-- What stands among the lines that are not counted at the end stands among all. -/
lemma DiffLine.Stands.of_rawLines
    (h : l.Stands (rawLines oldContent) (rawLines newContent) startLine) :
    l.Stands (oldContent.splitOn newlineCode) (newContent.splitOn newlineCode) startLine := by
  cases l with
  | added n line | removed n line | context n line => exact ⟨h.1, getElem?_of_rawLines h.2⟩
  | skipped => trivial

end Strings

section Numbers

variable {diffLines : CodeUnits → CodeUnits → List Change}

/-- At the end no line of either side is left. -/
lemma at_diffState (hlaws : DiffLinesLaws diffLines) (oldContent newContent : CodeUnits)
    (contextLines startLine : ℕ) :
    DiffState.At (rawLines oldContent) (rawLines newContent) startLine
      (diffState diffLines oldContent newContent contextLines startLine) [] [] := by
  refine DiffState.At.diffParts contextLines _
    ⟨⟨0, rfl, ?_⟩, ⟨0, rfl, ?_⟩, ?_, ?_, ?_⟩
  · rw [drop_zero, DiffState.sideLines, ← rawLines_flatten (hlaws.oldLines _ _), hlaws.old]
  · rw [drop_zero, DiffState.sideLines, ← rawLines_flatten (hlaws.newLines _ _), hlaws.new]
  · exact fun l hl => absurd hl not_mem_nil
  · exact ⟨List.Pairwise.nil, fun n hn => absurd hn not_mem_nil⟩
  · exact ⟨List.Pairwise.nil, fun n hn => absurd hn not_mem_nil⟩

/-- The lines of the string are those the loop has pushed.  Each stands at its number, the numbers
of each side go up, and the changed lines are those of the parts. -/
theorem generateDiffString_numbers (hlaws : DiffLinesLaws diffLines)
    (oldContent newContent : CodeUnits) (contextLines startLine : ℕ) :
    let s := diffState diffLines oldContent newContent contextLines startLine
    let shown := s.output.map (DiffLine.render (lineNumWidth oldContent newContent startLine))
    let result := generateDiffString diffLines oldContent newContent contextLines startLine
    (result.diff.splitOn newlineCode = if s.output = [] then [[]] else shown) ∧
      (∀ l ∈ s.output, l.Stands (oldContent.splitOn newlineCode) (newContent.splitOn newlineCode)
        startLine) ∧
      (s.output.filterMap DiffLine.oldNum?).Pairwise (· < ·) ∧
      (s.output.filterMap DiffLine.newNum?).Pairwise (· < ·) ∧
      s.output.filterMap DiffLine.change? =
        (diffLines oldContent newContent).flatMap Change.lines := by
  intro s shown result
  have hat := at_diffState hlaws oldContent newContent contextLines startLine
  have hstands : ∀ l ∈ s.output, l.Stands (oldContent.splitOn newlineCode)
      (newContent.splitOn newlineCode) startLine := fun l hl => (hat.stands l hl).of_rawLines
  refine ⟨?_, hstands, hat.oldNums.1, hat.newNums.1, DiffState.changes_diffParts contextLines _⟩
  have hdiff : result.diff = [newlineCode].intercalate shown := rfl
  rw [hdiff]
  split_ifs with hnil
  · have hshown : shown = [] := map_eq_nil_iff.mpr hnil
    rw [hshown]
    rfl
  · refine splitOn_intercalate newlineCode (fun text htext => ?_)
      fun hshown => hnil (map_eq_nil_iff.mp hshown)
    obtain ⟨l, hl, rfl⟩ := List.mem_map.mp htext
    exact newline_notMem_render (hstands l hl)

/-- A diff with the given parts for one pair of contents, and everything changed elsewhere. -/
def partsAt (oldContent newContent : String) (parts : List Change) (old new : CodeUnits) :
    List Change :=
  if old = asciiUnits oldContent ∧ new = asciiUnits newContent then parts
  else [⟨.removed, old⟩, ⟨.added, new⟩]

def changedSecondLine : CodeUnits → CodeUnits → List Change :=
  partsAt "k\na\n" "k\nb\n"
    [⟨.unchanged, asciiUnits "k\n"⟩, ⟨.removed, asciiUnits "a\n"⟩, ⟨.added, asciiUnits "b\n"⟩]

/-- The parts of each side give the contents, but the unchanged one does not end a line. -/
def cutLine : CodeUnits → CodeUnits → List Change :=
  partsAt "a" "ab" [⟨.unchanged, asciiUnits "a"⟩, ⟨.added, asciiUnits "b"⟩]

/-- The laws hold when they hold of the one pair, each side being one part elsewhere. -/
lemma diffLinesLaws_partsAt {oldContent newContent : String} {parts : List Change}
    (hold : (sideTexts (!·.added) parts).flatten = asciiUnits oldContent)
    (hnew : (sideTexts (!·.removed) parts).flatten = asciiUnits newContent)
    (holdLines : WholeLines (sideTexts (!·.added) parts))
    (hnewLines : WholeLines (sideTexts (!·.removed) parts)) :
    DiffLinesLaws (partsAt oldContent newContent parts) := by
  have helse (old new : CodeUnits) : sideTexts (!·.added) [⟨.removed, old⟩, ⟨.added, new⟩] = [old] ∧
        sideTexts (!·.removed) [⟨.removed, old⟩, ⟨.added, new⟩] = [new] := ⟨rfl, rfl⟩
  have hsingle (value : CodeUnits) : WholeLines [value] :=
    fun _ hmem => absurd hmem not_mem_nil
  refine ⟨fun old new => ?_, fun old new => ?_, fun old new => ?_, fun old new => ?_⟩ <;>
    rw [partsAt] <;> split_ifs with hpair
  · rw [hold, hpair.1]
  · rw [(helse old new).1, flatten_singleton]
  · rw [hnew, hpair.2]
  · rw [(helse old new).2, flatten_singleton]
  · exact holdLines
  · exact hsingle old
  · exact hnewLines
  · exact hsingle new

theorem generateDiffString_numbers_secondLine :
    (generateDiffString changedSecondLine (asciiUnits "k\na\n") (asciiUnits "k\nb\n") 4 1).diff =
        asciiUnits " 1 k\n-2 a\n+2 b" ∧
      ((diffState changedSecondLine (asciiUnits "k\na\n") (asciiUnits "k\nb\n") 4 1).output
        |>.filterMap DiffLine.oldNum?).Pairwise (· < ·) := by
  have hlaws : DiffLinesLaws changedSecondLine :=
    diffLinesLaws_partsAt (by decide) (by decide)
      (fun value hvalue => .inr ⟨asciiUnits "k", mem_singleton.mp hvalue⟩)
      (fun value hvalue => .inr ⟨asciiUnits "k", mem_singleton.mp hvalue⟩)
  exact ⟨by decide +kernel, (generateDiffString_numbers hlaws _ _ 4 1).2.2.1⟩

/-- The parts give the contents, and the string shows a second line of a content that has one. -/
theorem diff_of_cut_line : (∀ old new, (sideTexts (!·.added) (cutLine old new)).flatten = old ∧
        (sideTexts (!·.removed) (cutLine old new)).flatten = new) ∧
      (generateDiffString cutLine (asciiUnits "a") (asciiUnits "ab") 4 1).diff =
        asciiUnits " 1 a\n+2 b" ∧
      (asciiUnits "ab").splitOn newlineCode = [asciiUnits "ab"] := by
  refine ⟨fun old new => ?_, by decide +kernel, by decide⟩
  rw [cutLine, partsAt]
  split_ifs with hpair
  · rw [hpair.1, hpair.2]
    decide
  · exact ⟨append_nil _, append_nil _⟩

end Numbers

end Amide
