import Amide.Construction.Tui.Fullscreen
import Amide.Framework.Machine

/-!
# The screen shows the painted frame

Whatever has been painted before, on terminals of whatever sizes, the screen shows the last lines of
the frame that is painted.  The cursor is where it should be as long as the frame is no longer than
the screen is high (`paints_iff`): a longer frame is cut, but the row of the cursor still counts the
lines that have been cut off.
-/

namespace Amide

open Terminal (run_append run_cons run_nil)
open FullscreenViewport

/-! ## Paints -/

inductive FullscreenEvent where
  | paint (p : FullscreenPaint)
  | reset

structure FullscreenState (Cell : Type) where
  viewport : FullscreenViewport
  terminal : Terminal Cell

section
variable {Cell : Type} [Inhabited Cell] (visibleWidth : CodeUnits → ℕ)
  (sliceByColumn : CodeUnits → ℕ → ℕ → Bool → CodeUnits) (shown : CodeUnits → List Cell)

/-- A terminal keeps what it shows as long as it keeps its size, and may show anything when it has
got another one. -/
inductive FullscreenStep (s : FullscreenState Cell) :
    FullscreenEvent → FullscreenState Cell → Prop
  | paint {terminal : Terminal Cell} (p : FullscreenPaint) (hheight : terminal.height = p.height)
      (hsame : p.width = s.viewport.prevWidth → p.height = s.viewport.prevHeight →
        terminal = s.terminal) :
      FullscreenStep s (.paint p)
        { viewport := (s.viewport.paint visibleWidth sliceByColumn p).1
          terminal := terminal.run shown (s.viewport.paint visibleWidth sliceByColumn p).2 }
  | reset : FullscreenStep s .reset { s with viewport := s.viewport.reset }

def painting : Machine (FullscreenState Cell) FullscreenEvent where
  step := FullscreenStep visibleWidth sliceByColumn shown

/-- A row that shows a line of a frame. -/
def frameRow (frame : List CodeUnits) (width row : ℕ) : List Cell :=
  shown (clampLine visibleWidth sliceByColumn width ((frame[row]?).getD []))

/-- The screen shows the last lines of the frame, and the cursor is on the row of its line. -/
structure Paints (p : FullscreenPaint) (t : Terminal Cell) : Prop where
  rows : ∀ row < p.height, t.rows row = frameRow visibleWidth sliceByColumn shown
    (p.frame.drop (p.frame.length - p.height)) p.width row
  cursor : ∀ pos ∈ p.cursorPos, t.row = pos.1 - (p.frame.length - p.height)

/-- What the viewport remembers is on the screen. -/
def Remembered (s : FullscreenState Cell) : Prop :=
  s.viewport.prevFrame ≠ [] → ∀ row < s.viewport.prevHeight, s.terminal.rows row =
    frameRow visibleWidth sliceByColumn shown s.viewport.prevFrame s.viewport.prevWidth row

end

/-- The cursor is in a frame that fits the screen, or in the last line. -/
def CursorUncut (p : FullscreenPaint) : Prop :=
  ∀ pos ∈ p.cursorPos, p.frame.length ≤ p.height ∨ pos.1 + 1 = p.frame.length

/-! ## Rows -/

variable {Cell : Type} [Inhabited Cell] {visibleWidth : CodeUnits → ℕ}
  {sliceByColumn : CodeUnits → ℕ → ℕ → Bool → CodeUnits} {shown : CodeUnits → List Cell}
  {t : Terminal Cell} {prevFrame frame : List CodeUnits} {width row col n : ℕ}
  {s s₀ s₁ s₂ : FullscreenState Cell} {p : FullscreenPaint} {events : List FullscreenEvent}

lemma run_moveTo (hrow : row < t.height) : t.run shown (moveTo row col) = { t with row, col } := by
  have hmin : min (0 + row) (t.height - 1) = row := by omega
  simp only [moveTo, run_cons, run_nil, Terminal.perform, hmin]

lemma rows_paintRow (hrow : row < t.height) :
    (t.run shown (paintRow visibleWidth sliceByColumn prevFrame frame width row)).rows =
      if prevFrame[row]? = some ((frame[row]?).getD []) then t.rows
      else Function.update t.rows row
        (frameRow visibleWidth sliceByColumn shown frame width row) := by
  dsimp only [paintRow]
  split_ifs
  · rfl
  · rw [run_append, run_moveTo hrow]
    simp only [run_cons, run_nil, Terminal.perform, Function.update_self, Function.update_idem,
      Terminal.overwrite_nil]
    rfl

/-- The rows that differ are painted, from the top on. -/
lemma rows_paintRows (hn : n ≤ t.height) (row : ℕ) : (t.run shown ((List.range n).flatMap
        (paintRow visibleWidth sliceByColumn prevFrame frame width))).rows row =
      if row < n ∧ prevFrame[row]? ≠ some ((frame[row]?).getD []) then
        frameRow visibleWidth sliceByColumn shown frame width row
      else t.rows row := by
  induction n with
  | zero => simp
  | succ n ih =>
    rw [List.range_succ, List.flatMap_append, List.flatMap_singleton, run_append,
      rows_paintRow (by rw [Terminal.height_run]; omega)]
    by_cases heq : row = n
    · subst heq
      by_cases hsame : prevFrame[row]? = some ((frame[row]?).getD [])
      · rw [if_pos hsame, ih (by omega), if_neg (fun h => h.2 hsame), if_neg (fun h => h.2 hsame)]
      · rw [if_neg hsame, if_pos ⟨Nat.lt_succ_self row, hsame⟩, Function.update_self]
    · have hlt : row < n + 1 ↔ row < n := by omega
      simp only [hlt, ← ih (by omega)]
      split_ifs
      · rfl
      · rw [Function.update_of_ne heq]

/-! ## One paint -/

lemma shownLines_eq : p.shownLines = p.frame.drop (p.frame.length - p.height) := by
  unfold FullscreenPaint.shownLines
  split_ifs
  · rfl
  · rw [Nat.sub_eq_zero_of_le (by omega), List.drop_zero]

/-- The rows that are not painted show what they should already. -/
lemma exists_painted (hs : Remembered visibleWidth sliceByColumn shown s)
    (hheight : t.height = p.height)
    (hsame : p.width = s.viewport.prevWidth → p.height = s.viewport.prevHeight → t = s.terminal) :
    ∃ painted : Terminal Cell, t.run shown (s.viewport.paint visibleWidth sliceByColumn p).2 =
        painted.run shown (positionCursor p) ∧
      painted.height = p.height ∧
      ∀ row < p.height, painted.rows row =
        frameRow visibleWidth sliceByColumn shown p.shownLines p.width row := by
  refine ⟨_, run_append, by rw [Terminal.height_run, hheight], fun row hrow => ?_⟩
  rw [run_append, rows_paintRows (by rw [Terminal.height_run, hheight])]
  by_cases hclears : s.viewport.clears p
  · exact if_pos ⟨hrow, by rw [if_pos hclears]; nofun⟩
  · rw [if_neg hclears, if_neg hclears]
    obtain ⟨hwidth, hprev, hframe⟩ : p.width = s.viewport.prevWidth ∧
        p.height = s.viewport.prevHeight ∧ s.viewport.prevFrame ≠ [] := by
      simpa [clears, List.length_eq_zero_iff] using hclears
    split_ifs with hpainted
    · rfl
    · have hline : s.viewport.prevFrame[row]? = some ((p.shownLines[row]?).getD []) := by
        by_contra hne
        exact hpainted ⟨hrow, hne⟩
      rw [run_nil, hsame hwidth hprev, hs hframe row (hprev ▸ hrow), frameRow, hline, hwidth]
      rfl

/-- The cursor is put where the line would be if none were cut off. -/
lemma run_positionCursor (hheight : t.height = p.height) :
    (t.run shown (positionCursor p)).rows = t.rows ∧
      ∀ pos ∈ p.cursorPos, (t.run shown (positionCursor p)).row = min pos.1 (p.height - 1) := by
  unfold positionCursor
  rcases hcursor : p.cursorPos with _ | ⟨row, col⟩
  · exact ⟨rfl, nofun⟩
  · have hle := p.le_row _ hcursor
    have hlt := p.row_lt _ hcursor
    simp only at hle hlt
    rw [run_moveTo (by omega)]
    refine ⟨rfl, fun pos hpos => ?_⟩
    cases hpos
    rfl

lemma paints_iff_of_remembered (hs : Remembered visibleWidth sliceByColumn shown s)
    (hheight : t.height = p.height)
    (hsame : p.width = s.viewport.prevWidth → p.height = s.viewport.prevHeight → t = s.terminal) :
    Paints visibleWidth sliceByColumn shown p
      (t.run shown (s.viewport.paint visibleWidth sliceByColumn p).2) ↔ CursorUncut p := by
  obtain ⟨painted, heq, hpainted, hrows⟩ := exists_painted hs hheight hsame
  obtain ⟨hkept, hcursor⟩ := run_positionCursor hpainted
  rw [heq]
  constructor
  · intro hpaints pos hpos
    have hrow := (hcursor pos hpos).symm.trans (hpaints.cursor pos hpos)
    have hle := p.le_row pos hpos
    have hlt := p.row_lt pos hpos
    omega
  · refine fun huncut => ⟨fun row hrow => ?_, fun pos hpos => ?_⟩
    · rw [hkept, hrows row hrow, shownLines_eq]
    · have huncut := huncut pos hpos
      have hle := p.le_row pos hpos
      have hlt := p.row_lt pos hpos
      rw [hcursor pos hpos]
      omega

/-! ## Runs -/

lemma Remembered.step (hs : Remembered visibleWidth sliceByColumn shown s) {event : FullscreenEvent}
    (hstep : (painting visibleWidth sliceByColumn shown).step s event s₁) :
    Remembered visibleWidth sliceByColumn shown s₁ := by
  cases hstep with
  | paint p hheight hsame =>
    intro _ row hrow
    obtain ⟨painted, heq, hpainted, hrows⟩ := exists_painted hs hheight hsame
    rw [heq, (run_positionCursor hpainted).1]
    exact hrows row hrow
  | reset => exact fun hframe => absurd rfl hframe

/-- **After each paint of a run the screen shows the frame**, and the cursor is on the row of its
line exactly if no lines have been cut off or it is in the last one. -/
theorem paints_iff (h₀ : s₀.viewport = {})
    (hrun : (painting visibleWidth sliceByColumn shown).Run s₀ events s₁)
    (hstep : (painting visibleWidth sliceByColumn shown).step s₁ (.paint p) s₂) :
    Paints visibleWidth sliceByColumn shown p s₂.terminal ↔ CursorUncut p := by
  have hs : Remembered visibleWidth sliceByColumn shown s₁ := by
    refine hrun.invariant (fun hframe => ?_) fun s event s' h hstep => h.step hstep
    rw [h₀] at hframe
    exact absurd rfl hframe
  cases hstep with
  | paint p hheight hsame => exact paints_iff_of_remembered hs hheight hsame

/-- The lines `a`, `b` and `c` on a screen of two rows, with the cursor in line `b` or `c`. -/
def threeLines (cursor : Fin 2) : FullscreenPaint where
  frame := [[97], [98], [99]]
  width := 80
  height := 2
  cursorPos := some (cursor + 1, 0)
  le_row := by simp
  row_lt := by simp; omega

/-- A paint behind a reset and another one, with the cursor in the last line. -/
theorem paints_afterReset : ∃ s₁ s₂ : FullscreenState UInt16,
    (painting List.length (fun line _ _ _ => line) id).Run ⟨{}, { height := 2 }⟩
      [.paint (threeLines 0), .reset, .paint (threeLines 0)] s₁ ∧
    (painting List.length (fun line _ _ _ => line) id).step s₁ (.paint (threeLines 1)) s₂ ∧
    Paints List.length (fun line _ _ _ => line) id (threeLines 1) s₂.terminal := by
  have h₁ : (painting List.length (fun line _ _ _ => line) id).Run
      (⟨{}, { height := 2 }⟩ : FullscreenState UInt16) [.paint (threeLines 0)] _ :=
    .single (.paint (threeLines 0) rfl fun _ _ => rfl)
  have h₂ := (h₁.snoc .reset).snoc (.paint (threeLines 0) rfl fun _ _ => rfl)
  refine ⟨_, _, h₂, .paint (threeLines 1) rfl fun _ _ => rfl, ?_⟩
  refine (paints_iff rfl h₂ (.paint (threeLines 1) rfl fun _ _ => rfl)).mpr fun pos hpos => ?_
  cases hpos
  exact .inr rfl

/-- Line `b` is in the top row, and the cursor is put on the row below. -/
theorem cursor_below : ¬∀ s : FullscreenState UInt16,
    (painting List.length (fun line _ _ _ => line) id).step ⟨{}, { height := 2 }⟩
      (.paint (threeLines 0)) s →
    Paints List.length (fun line _ _ _ => line) id (threeLines 0) s.terminal := by
  intro h
  have hpaints := h _ (.paint (threeLines 0) rfl fun _ _ => rfl)
  exact absurd (hpaints.cursor _ rfl) (by decide)

end Amide
