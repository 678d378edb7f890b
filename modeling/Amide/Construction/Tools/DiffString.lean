import Amide.Construction.Tools.EditDiff

/-!
# Diffs as text (`core/tools/edit-diff.ts`)

`generateDiffString` goes over the parts of a line diff with a line number for each side, and shows
the changed lines and some of the unchanged lines around them.  What it pushes is a list of
`DiffLine` here, and `render` is their text.

`diffLines` comes from the package `diff` and is a parameter.
-/

namespace Amide

inductive ChangeKind where
  | unchanged | added | removed
  deriving DecidableEq

/-- A part of a diff. -/
structure Change where
  kind : ChangeKind
  value : CodeUnits

namespace Change

def added (part : Change) : Bool := part.kind = .added

def removed (part : Change) : Bool := part.kind = .removed

def isChange (part : Change) : Bool := part.added || part.removed

end Change

/-- The lines of a text, without an empty one at its end. -/
def rawLines (value : CodeUnits) : List CodeUnits :=
  let raw := value.splitOn newlineCode
  if raw.getLast? = some [] then raw.dropLast else raw

inductive DiffLine where
  | added (lineNum : ℕ) (line : CodeUnits)
  | removed (lineNum : ℕ) (line : CodeUnits)
  | context (lineNum : ℕ) (line : CodeUnits)
  | skipped

/-- `padStart(width, " ")`. -/
def padStart (text : CodeUnits) (width : ℕ) : CodeUnits :=
  List.replicate (width - text.length) 32 ++ text

def DiffLine.render (lineNumWidth : ℕ) : DiffLine → CodeUnits
  | .added lineNum line =>
      asciiUnits "+" ++ padStart (decimalUnits lineNum) lineNumWidth ++ asciiUnits " " ++ line
  | .removed lineNum line =>
      asciiUnits "-" ++ padStart (decimalUnits lineNum) lineNumWidth ++ asciiUnits " " ++ line
  | .context lineNum line =>
      asciiUnits " " ++ padStart (decimalUnits lineNum) lineNumWidth ++ asciiUnits " " ++ line
  | .skipped => asciiUnits " " ++ padStart [] lineNumWidth ++ asciiUnits " ..."

structure DiffState where
  output : List DiffLine := []
  oldLineNum : ℕ
  newLineNum : ℕ
  lastWasChange : Bool := false
  firstChangedLine : Option ℕ := none

namespace DiffState

def pushAdded (s : DiffState) (line : CodeUnits) : DiffState :=
  { s with output := s.output ++ [.added s.newLineNum line], newLineNum := s.newLineNum + 1 }

def pushRemoved (s : DiffState) (line : CodeUnits) : DiffState :=
  { s with output := s.output ++ [.removed s.oldLineNum line], oldLineNum := s.oldLineNum + 1 }

def pushContext (s : DiffState) (line : CodeUnits) : DiffState :=
  { s with
    output := s.output ++ [.context s.oldLineNum line]
    oldLineNum := s.oldLineNum + 1
    newLineNum := s.newLineNum + 1 }

def advance (s : DiffState) (lines : ℕ) : DiffState :=
  { s with oldLineNum := s.oldLineNum + lines, newLineNum := s.newLineNum + lines }

def pushSkipped (s : DiffState) (skippedLines : ℕ) : DiffState :=
  ({ s with output := s.output ++ [.skipped] } : DiffState).advance skippedLines

def changedPart (s : DiffState) (part : Change) : DiffState :=
  let s := { s with firstChangedLine := s.firstChangedLine.or (some s.newLineNum) }
  let s := (rawLines part.value).foldl (if part.added then pushAdded else pushRemoved) s
  { s with lastWasChange := true }

def unchangedPart (contextLines : ℕ) (s : DiffState) (raw : List CodeUnits)
    (nextPartIsChange : Bool) : DiffState :=
  let s :=
    if s.lastWasChange && nextPartIsChange then
      if raw.length ≤ contextLines * 2 then raw.foldl pushContext s
      else
        let leadingLines := raw.take contextLines
        let trailingLines := raw.drop (raw.length - contextLines)
        let skippedLines := raw.length - leadingLines.length - trailingLines.length
        trailingLines.foldl pushContext
          ((leadingLines.foldl pushContext s).pushSkipped skippedLines)
    else if s.lastWasChange then
      let shownLines := raw.take contextLines
      let skippedLines := raw.length - shownLines.length
      let s := shownLines.foldl pushContext s
      if skippedLines > 0 then s.pushSkipped skippedLines else s
    else if nextPartIsChange then
      let skippedLines := raw.length - contextLines
      let s := if skippedLines > 0 then s.pushSkipped skippedLines else s
      (raw.drop skippedLines).foldl pushContext s
    else s.advance raw.length
  { s with lastWasChange := false }

def diffPart (contextLines : ℕ) (s : DiffState) (part : Change) (nextPartIsChange : Bool) :
    DiffState :=
  if part.isChange then s.changedPart part
  else unchangedPart contextLines s (rawLines part.value) nextPartIsChange

/-- The loop over the parts. -/
def diffParts (contextLines : ℕ) : DiffState → List Change → DiffState
  | s, [] => s
  | s, part :: parts =>
    diffParts contextLines (s.diffPart contextLines part (parts.head?.any Change.isChange)) parts

end DiffState

structure DiffString where
  diff : CodeUnits
  firstChangedLine : Option ℕ

section GenerateDiff

variable (diffLines : CodeUnits → CodeUnits → List Change) (oldContent newContent : CodeUnits)
  (contextLines startLine : ℕ)

/-- The state behind the last part. -/
def diffState : DiffState :=
  .diffParts contextLines { oldLineNum := startLine, newLineNum := startLine }
    (diffLines oldContent newContent)

def lineNumWidth : ℕ :=
  (decimalUnits (startLine + max (oldContent.splitOn newlineCode).length
    (newContent.splitOn newlineCode).length - 1)).length

def generateDiffString : DiffString :=
  let s := diffState diffLines oldContent newContent contextLines startLine
  let width := lineNumWidth oldContent newContent startLine
  { diff := [newlineCode].intercalate (s.output.map (DiffLine.render width))
    firstChangedLine := s.firstChangedLine }

end GenerateDiff

end Amide
