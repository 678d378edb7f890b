import Amide.Construction.Tui.Editor
import Amide.Framework.Terminal

/-!
# Painting the fullscreen viewport (`tui/src/fullscreen.ts`)

How a `FullscreenViewport` paints a composed frame.  What the viewport knows of its transcript and
of selections is left out, and so are the sequences that hold back the display.
-/

namespace Amide

structure FullscreenViewport where
  prevFrame : List CodeUnits := []
  prevWidth : ℕ := 0
  prevHeight : ℕ := 0

/-- What `paint` is given.  `extractCursorPosition` looks at the bottom `height` lines only. -/
structure FullscreenPaint where
  frame : List CodeUnits
  width : ℕ
  height : ℕ
  cursorPos : Option (ℕ × ℕ)
  le_row : ∀ pos ∈ cursorPos, frame.length - height ≤ pos.1
  row_lt : ∀ pos ∈ cursorPos, pos.1 < frame.length

def FullscreenPaint.shownLines (p : FullscreenPaint) : List CodeUnits :=
  if p.frame.length > p.height then p.frame.drop (p.frame.length - p.height) else p.frame

namespace FullscreenViewport

/-- `CSI row ; col H`, where the first row and column are 0. -/
def moveTo (row col : ℕ) : List (TerminalOp CodeUnits) :=
  [.home, .down row, .column col]

section
variable (visibleWidth : CodeUnits → ℕ) (sliceByColumn : CodeUnits → ℕ → ℕ → Bool → CodeUnits)

/-- An overwide line would wrap. -/
def clampLine (width : ℕ) (line : CodeUnits) : CodeUnits :=
  if visibleWidth line > width then sliceByColumn line 0 width true else line

def paintRow (prevFrame frame : List CodeUnits) (width row : ℕ) : List (TerminalOp CodeUnits) :=
  let line := (frame[row]?).getD []
  if prevFrame[row]? = some line then []
  else moveTo row 0 ++ [.eraseLine, .print (clampLine visibleWidth sliceByColumn width line)]

/-- Whether the screen is cleared first. -/
def clears (v : FullscreenViewport) (p : FullscreenPaint) : Prop :=
  p.width ≠ v.prevWidth ∨ p.height ≠ v.prevHeight ∨ v.prevFrame.length = 0

instance (v : FullscreenViewport) (p : FullscreenPaint) : Decidable (v.clears p) :=
  inferInstanceAs (Decidable (_ ∨ _))

def positionCursor (p : FullscreenPaint) : List (TerminalOp CodeUnits) :=
  match p.cursorPos with
  | some (row, col) => moveTo (min row (p.height - 1)) col
  | none => []

def paint (v : FullscreenViewport) (p : FullscreenPaint) :
    FullscreenViewport × List (TerminalOp CodeUnits) :=
  let prevFrame := if v.clears p then [] else v.prevFrame
  let rows := (List.range p.height).flatMap
    (paintRow visibleWidth sliceByColumn prevFrame p.shownLines p.width)
  ({ prevFrame := p.shownLines
     prevWidth := p.width
     prevHeight := p.height },
    (if v.clears p then [.eraseScreen, .home] else []) ++ rows ++ positionCursor p)

end

/-- The next `paint` clears and repaints the whole screen. -/
def reset (v : FullscreenViewport) : FullscreenViewport :=
  { v with prevFrame := [] }

end FullscreenViewport

end Amide
