import Amide.Construction.Tui.Editor
import Amide.Framework.Terminal

/-!
# Rendering (`tui/src/tui.ts`)

How a `TUI` draws a frame below the prompt of a shell (`doRender`): which part of it is written to
the terminal, and what is remembered of it.

Images, overlays and the fullscreen mode are left out, and so are the sequences that hide the cursor
or hold back the display.  Every line fits the width of the terminal, so the check that it does is
left out too.
-/

namespace Amide

open Terminal (writeLines eraseNext)

def CURSOR_MARKER : CodeUnits := 0x1b :: asciiUnits "_pi:c" ++ [7]

def SEGMENT_RESET : CodeUnits := 0x1b :: asciiUnits "[0m" ++ 0x1b :: asciiUnits "]8;;" ++ [7]

def normalizeTerminalOutput (line : CodeUnits) : CodeUnits :=
  line.flatMap fun c =>
    if c = 0xe33 then [0xe4d, 0xe32]
    else if c = 0xeb3 then [0xecd, 0xeb2]
    else if c = 9 then [32, 32, 32]
    else [c]

/-- What is drawn, and what the terminal is like when it is.  `force` and `preserveViewport` say
whether such a request has come since the last frame. -/
structure TuiFrame where
  lines : List CodeUnits
  width : ℕ
  height : ℕ
  force : Bool := false
  preserveViewport : Bool := false
  width_pos : 0 < width := by decide
  height_pos : 0 < height := by decide

structure TUI where
  clearOnShrink : Bool := false
  isTermuxSession : Bool := false
  previousLines : List CodeUnits := []
  /-- -1 forces a full clear. -/
  previousWidth : ℤ := 0
  previousHeight : ℕ := 0
  hardwareCursorRow : ℕ := 0
  maxLinesRendered : ℕ := 0
  previousViewportTop : ℕ := 0

/-- What is done with a frame. -/
inductive RenderPath where
  | full (clear preserveViewport : Bool)
  | unchanged
  /-- All changes are in deleted lines. -/
  | deletedTail
  | changed (firstChanged lastChanged : ℕ)

namespace TUI

/-! ## Lines -/

def applyLineResets (lines : List CodeUnits) : List CodeUnits :=
  lines.map fun line => normalizeTerminalOutput line ++ SEGMENT_RESET

/-- The lowest of the bottom `height` lines that has a cursor marker gives its place, and loses the
marker. -/
def extractCursorPosition (visibleWidth : CodeUnits → ℕ) (lines : List CodeUnits) (height : ℕ) :
    List CodeUnits × Option (ℕ × ℕ) :=
  let markerIndex row := Occurrence.indexOf CURSOR_MARKER ((lines[row]?).getD [])
  let viewportTop := lines.length - height
  let rows := (List.range' viewportTop (lines.length - viewportTop)).reverse
  match rows.find? fun row => (markerIndex row).isSome with
  | none => (lines, none)
  | some row =>
    let line := (lines[row]?).getD []
    let index := (markerIndex row).getD 0
    (lines.set row (line.take index ++ line.drop (index + CURSOR_MARKER.length)),
      some (row, visibleWidth (line.take index)))

/-- The first and the last line that differs. -/
def changedLines (previousLines newLines : List CodeUnits) : Option (ℕ × ℕ) :=
  let changed := (List.range (max newLines.length previousLines.length)).filter fun i =>
    (previousLines[i]?).getD [] ≠ (newLines[i]?).getD []
  if newLines.length > previousLines.length then
    some ((changed.head?).getD previousLines.length, newLines.length - 1)
  else
    match changed.head?, changed.getLast? with
    | some firstChanged, some lastChanged => some (firstChanged, lastChanged)
    | _, _ => none

variable (e : TUI)

/-- `requestRender` with `force`. -/
def forceRender : TUI :=
  { e with
    previousWidth := -1
    hardwareCursorRow := 0
    maxLinesRendered := 0 }

/-! ## The cursor -/

def moveRows (rowDelta : ℤ) : List (TerminalOp CodeUnits) :=
  if rowDelta > 0 then [.down rowDelta.toNat]
  else if rowDelta < 0 then [.up (-rowDelta).toNat]
  else []

def positionHardwareCursor (cursorPos : Option (ℕ × ℕ)) (totalLines : ℕ) :
    TUI × List (TerminalOp CodeUnits) :=
  match cursorPos with
  | none => (e, [])
  | some (row, col) =>
    if totalLines = 0 then (e, [])
    else
      let targetRow := min row (totalLines - 1)
      ({ e with hardwareCursorRow := targetRow },
        moveRows (targetRow - e.hardwareCursorRow) ++ [.column col])

/-- The cursor is positioned after a frame has been written. -/
def andPosition (ops : List (TerminalOp CodeUnits)) (cursorPos : Option (ℕ × ℕ))
    (totalLines : ℕ) : TUI × List (TerminalOp CodeUnits) :=
  let positioned := e.positionHardwareCursor cursorPos totalLines
  (positioned.1, ops ++ positioned.2)

/-! ## Full renders -/

def widthChanged (frame : TuiFrame) : Bool :=
  e.previousWidth ≠ 0 && e.previousWidth ≠ frame.width

def heightChanged (frame : TuiFrame) : Bool :=
  e.previousHeight ≠ 0 && e.previousHeight ≠ frame.height

def prevViewportTop (frame : TuiFrame) : ℕ :=
  if e.heightChanged frame then
    (if e.previousHeight > 0 then e.previousViewportTop + e.previousHeight else frame.height) -
      frame.height
  else e.previousViewportTop

/-- Only the visible viewport is written again, in place. -/
def repaintViewport (frame : TuiFrame) (newLines : List CodeUnits)
    (cursorPos : Option (ℕ × ℕ)) : TUI × List (TerminalOp CodeUnits) :=
  let windowStart := newLines.length - frame.height
  let visibleCount := newLines.length - windowStart
  let prevScreenRows := min frame.height e.previousLines.length
  let screenRow := min (prevScreenRows - 1) (e.hardwareCursorRow - e.prevViewportTop frame)
  let leftover := prevScreenRows - max visibleCount 1
  let ops := (if screenRow > 0 then [.up screenRow] else []) ++ [.carriageReturn] ++
    (if visibleCount = 0 then [.eraseLine] else []) ++
    writeLines true (newLines.drop windowStart) ++
    if visibleCount < prevScreenRows then
      eraseNext [.carriageReturn, .lineFeed] leftover ++ if leftover > 0 then [.up leftover] else []
    else []
  { e with
    hardwareCursorRow := newLines.length - 1
    maxLinesRendered := newLines.length
    previousViewportTop := windowStart
    previousLines := newLines
    previousWidth := frame.width
    previousHeight := frame.height : TUI }.andPosition ops cursorPos newLines.length

def fullRender (frame : TuiFrame) (newLines : List CodeUnits) (cursorPos : Option (ℕ × ℕ))
    (clear preserveViewport : Bool) : TUI × List (TerminalOp CodeUnits) :=
  if preserveViewport ∧ e.previousLines.length > 0 then
    e.repaintViewport frame newLines cursorPos
  else
    let renderStart :=
      if clear ∧ e.previousLines.length > 0 then newLines.length - frame.height else 0
    let ops := (if clear then [.eraseScreen, .home] else []) ++
      writeLines false (newLines.drop renderStart)
    { e with
      hardwareCursorRow := newLines.length - 1
      maxLinesRendered :=
        if clear then newLines.length else max e.maxLinesRendered newLines.length
      previousViewportTop := max frame.height newLines.length - frame.height
      previousLines := newLines
      previousWidth := frame.width
      previousHeight := frame.height : TUI }.andPosition ops cursorPos newLines.length

/-! ## Differential renders -/

/-- The deleted lines are erased, without scrolling. -/
def eraseDeleted (frame : TuiFrame) (newLines : List CodeUnits) (cursorPos : Option (ℕ × ℕ)) :
    TUI × List (TerminalOp CodeUnits) :=
  let prevViewportTop := e.prevViewportTop frame
  let targetRow := newLines.length - 1
  let extraLines := e.previousLines.length - newLines.length
  let ops := moveRows (targetRow - e.hardwareCursorRow) ++ [.carriageReturn] ++
    eraseNext [.down 1, .carriageReturn] extraLines ++ [.up extraLines]
  { e with
    hardwareCursorRow := targetRow
    previousLines := newLines
    previousWidth := frame.width
    previousHeight := frame.height
    previousViewportTop := prevViewportTop : TUI }.andPosition ops cursorPos newLines.length

/-- The lines from the first to the last that has changed are written again. -/
def writeChanged (frame : TuiFrame) (newLines : List CodeUnits) (cursorPos : Option (ℕ × ℕ))
    (firstChanged lastChanged : ℕ) : TUI × List (TerminalOp CodeUnits) :=
  let appendStart := newLines.length > e.previousLines.length ∧
    firstChanged = e.previousLines.length ∧ firstChanged > 0
  let prevViewportTop := e.prevViewportTop frame
  let prevViewportBottom := prevViewportTop + frame.height - 1
  let moveTargetRow := if appendStart then firstChanged - 1 else firstChanged
  let scroll := moveTargetRow - prevViewportBottom
  let currentScreenRow := min (frame.height - 1) (e.hardwareCursorRow - prevViewportTop)
  let moveToBottom := frame.height - 1 - currentScreenRow
  let scrolling :=
    if scroll > 0 then
      (if moveToBottom > 0 then [.down moveToBottom] else []) ++
        (List.replicate scroll [.carriageReturn, .lineFeed]).flatten
    else []
  let hardwareCursorRow := if scroll > 0 then moveTargetRow else e.hardwareCursorRow
  let renderEnd := min lastChanged (newLines.length - 1)
  let deleting := e.previousLines.length > newLines.length
  let moveDown := newLines.length - 1 - renderEnd
  let extraLines := e.previousLines.length - newLines.length
  let finalCursorRow := if deleting then max renderEnd (newLines.length - 1) else renderEnd
  let ops := scrolling ++ moveRows (moveTargetRow - hardwareCursorRow) ++
    (if appendStart then [.carriageReturn, .lineFeed] else [.carriageReturn]) ++
    writeLines true ((newLines.drop firstChanged).take (renderEnd + 1 - firstChanged)) ++
    if deleting then
      (if moveDown > 0 then [.down moveDown] else []) ++
        eraseNext [.carriageReturn, .lineFeed] extraLines ++ [.up extraLines]
    else []
  { e with
    hardwareCursorRow := finalCursorRow
    maxLinesRendered := max e.maxLinesRendered newLines.length
    previousViewportTop := max (prevViewportTop + scroll) (finalCursorRow + 1 - frame.height)
    previousLines := newLines
    previousWidth := frame.width
    previousHeight := frame.height : TUI }.andPosition ops cursorPos newLines.length

/-! ## Renders -/

def renderPath (frame : TuiFrame) (newLines : List CodeUnits) : RenderPath :=
  let prevViewportTop := e.prevViewportTop frame
  if e.previousLines.length = 0 ∧ !e.widthChanged frame ∧ !e.heightChanged frame then
    .full false false
  else if e.widthChanged frame then .full true false
  else if e.heightChanged frame ∧ !e.isTermuxSession then .full true false
  else if e.clearOnShrink ∧ newLines.length < e.maxLinesRendered then
    .full true frame.preserveViewport
  else
    match changedLines e.previousLines newLines with
    | none => .unchanged
    | some (firstChanged, lastChanged) =>
      if firstChanged ≥ newLines.length then
        if newLines.length - 1 < prevViewportTop ∨
            e.previousLines.length - newLines.length > frame.height then
          .full true frame.preserveViewport
        else .deletedTail
      else if firstChanged < prevViewportTop then
        let preserveScrollback := newLines.length > frame.height &&
          newLines.length ≥ e.previousLines.length
        .full true (preserveScrollback || frame.preserveViewport)
      else .changed firstChanged lastChanged

/-- The lines of a frame as they are written, and where the cursor goes. -/
def renderedLines (visibleWidth : CodeUnits → ℕ) (frame : TuiFrame) :
    List CodeUnits × Option (ℕ × ℕ) :=
  let extracted := extractCursorPosition visibleWidth frame.lines frame.height
  (applyLineResets extracted.1, extracted.2)

def doRender (visibleWidth : CodeUnits → ℕ) (frame : TuiFrame) :
    TUI × List (TerminalOp CodeUnits) :=
  let e := if frame.force then e.forceRender else e
  let newLines := (renderedLines visibleWidth frame).1
  let cursorPos := (renderedLines visibleWidth frame).2
  match e.renderPath frame newLines with
  | .full clear preserveViewport =>
    e.fullRender frame newLines cursorPos clear preserveViewport
  | .unchanged =>
    { e with
      previousViewportTop := e.prevViewportTop frame
      previousHeight := frame.height : TUI }.andPosition [] cursorPos newLines.length
  | .deletedTail => e.eraseDeleted frame newLines cursorPos
  | .changed firstChanged lastChanged =>
    e.writeChanged frame newLines cursorPos firstChanged lastChanged

end TUI

end Amide
