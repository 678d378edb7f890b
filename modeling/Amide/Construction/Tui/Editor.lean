import Amide.Construction.Tui.StdinBuffer
import Amide.Framework.JsMap
import Mathlib.Data.Nat.Digits.Lemmas

/-!
# The editor and its pastes (`tui/src/components/editor.ts`)

The text of an `Editor` under its operations.  A large paste is kept in a map, and a marker such as
`[paste #1 +12 lines]` stands for it in the text until the text is submitted.

What grapheme segmentation, word boundaries and the layout decide is given to an operation: how
much it deletes, or where the cursor goes.  Autocompletion and the display are left out, and so are
hidden prefixes of lines.

So that it can be said where a marker comes from, each code unit carries the paste with whose
marker it was inserted (`TextUnit.origin`), and the editor keeps a list of its pastes
(`Editor.record`).  No operation reads either.
-/

namespace Amide

open StdinBuffer (ESC isDigit)

/-! ## Text -/

structure TextUnit where
  code : UInt16
  /-- The paste with whose marker the unit was inserted, and its place in the marker. -/
  origin : Option (ℕ × ℕ) := none
  deriving DecidableEq

abbrev EditorText := List TextUnit

def newlineCode : UInt16 := 10

/-- Text that is part of no marker. -/
def plainText (s : CodeUnits) : EditorText :=
  s.map fun code => { code }

def codes (text : EditorText) : CodeUnits :=
  text.map TextUnit.code

def asciiUnits (s : String) : CodeUnits :=
  s.toList.map fun c => UInt16.ofNat c.toNat

/-- A number in decimal. -/
def decimalUnits (n : ℕ) : CodeUnits :=
  if n = 0 then [48] else (Nat.digits 10 n).reverse.map fun digit => UInt16.ofNat (48 + digit)

lemma decimalUnits_ne_nil (n : ℕ) : decimalUnits n ≠ [] := by
  rw [decimalUnits]
  split_ifs with hn
  · exact List.cons_ne_nil _ _
  · simpa [Nat.digits_ne_nil_iff_ne_zero] using hn

lemma isDigit_of_mem_decimalUnits {n : ℕ} {c : UInt16} (h : c ∈ decimalUnits n) :
    isDigit c = true := by
  rw [decimalUnits] at h
  split_ifs at h
  · rw [List.mem_singleton.1 h]
    rfl
  · obtain ⟨digit, hmem, rfl⟩ := List.mem_map.1 h
    have hlt : digit < 10 := Nat.digits_lt_base (by decide) (List.mem_reverse.1 hmem)
    interval_cases digit <;> rfl

/-- `\s` -/
def isWhitespaceUnit (c : UInt16) : Bool :=
  9 ≤ c && c ≤ 13 || c = 0x20 || c = 0xa0 || c = 0x1680 || 0x2000 ≤ c && c ≤ 0x200a ||
    c = 0x2028 || c = 0x2029 || c = 0x202f || c = 0x205f || c = 0x3000 || c = 0xfeff

def isWhitespaceChar (char : CodeUnits) : Bool :=
  char.any isWhitespaceUnit

def trimUnits (s : CodeUnits) : CodeUnits :=
  ((s.dropWhile isWhitespaceUnit).reverse.dropWhile isWhitespaceUnit).reverse

/-- `\r\n` and `\r` become `\n`, and a tab four spaces. -/
def normalizeText : CodeUnits → CodeUnits
  | [] => []
  | 13 :: 10 :: rest => 10 :: normalizeText rest
  | 13 :: rest => 10 :: normalizeText rest
  | 9 :: rest => 32 :: 32 :: 32 :: 32 :: normalizeText rest
  | c :: rest => c :: normalizeText rest

def splitTextLines (text : EditorText) : List EditorText :=
  text.splitOnP fun u => u.code = newlineCode

/-! ## Markers -/

/-- What follows `+123 lines]` or `1234 chars]`, without its sign. -/
def afterCount (unit : String) (s : CodeUnits) : Option CodeUnits :=
  if s.takeWhile isDigit = [] then none
  else (asciiUnits unit).isPrefixOf? (s.dropWhile isDigit)

/-- What follows a marker of the paste `id` that the text begins with: a match of
`\[paste #id( (\+\d+ lines|\d+ chars))?\]`. -/
def afterMarker (id : ℕ) (s : CodeUnits) : Option CodeUnits :=
  match (asciiUnits "[paste #" ++ decimalUnits id).isPrefixOf? s with
  | some (93 :: rest) => some rest
  | some (32 :: 43 :: rest) => afterCount " lines]" rest
  | some (32 :: rest) => afterCount " chars]" rest
  | _ => none

/-- Every marker of the paste `id` is replaced; the first `skip` units belong to one that has
been. -/
def replaceMarkers (id : ℕ) (content : CodeUnits) : ℕ → CodeUnits → CodeUnits
  | _, [] => []
  | skip + 1, _ :: rest => replaceMarkers id content skip rest
  | 0, c :: rest =>
    match afterMarker id (c :: rest) with
    | some after => content ++ replaceMarkers id content (rest.length - after.length) rest
    | none => c :: replaceMarkers id content 0 rest

/-! ## The editor -/

/-- A large paste that was made. -/
structure PasteRecord where
  id : ℕ
  marker : CodeUnits
  content : CodeUnits

structure EditorUndoSnapshot where
  lines : List EditorText
  cursorLine : ℕ
  cursorCol : ℕ
  pastes : JsMap ℕ CodeUnits
  pasteCounter : ℕ

inductive EditorAction where
  | kill | yank | typeWord
  deriving DecidableEq

structure Editor where
  lines : List EditorText := [[]]
  cursorLine : ℕ := 0
  cursorCol : ℕ := 0
  pastes : JsMap ℕ CodeUnits := .empty
  pasteCounter : ℕ := 0
  history : List CodeUnits := []
  /-- `none` for -1. -/
  historyIndex : Option ℕ := none
  /-- The entry to yank is the last one. -/
  killRing : List EditorText := []
  lastAction : Option EditorAction := none
  /-- The snapshot to return to is the first one. -/
  undoStack : List EditorUndoSnapshot := []
  record : List PasteRecord := []

namespace Editor

variable (e : Editor)

def currentLine : EditorText :=
  (e.lines[e.cursorLine]?).getD []

def lineAt (line : ℕ) : EditorText :=
  (e.lines[line]?).getD []

def setLine (line : EditorText) : Editor :=
  { e with lines := e.lines.set e.cursorLine line }

/-- The lines, joined with newlines. -/
def text : EditorText :=
  (List.intersperse [{ code := newlineCode }] e.lines).flatten

def expandPasteMarkers (text : CodeUnits) : CodeUnits :=
  e.pastes.entries.foldl (fun result paste => replaceMarkers paste.1 paste.2 0 result) text

def getExpandedText : CodeUnits :=
  e.expandPasteMarkers (codes e.text)

def pushUndoSnapshot : Editor :=
  { e with
    undoStack :=
      { lines := e.lines
        cursorLine := e.cursorLine
        cursorCol := e.cursorCol
        pastes := e.pastes
        pasteCounter := e.pasteCounter } :: e.undoStack }

/-! ## Insertion -/

/-- The text has been normalized. -/
def insertTextAtCursorInternal (text : EditorText) : Editor :=
  if text = [] then e
  else
    let beforeCursor := e.currentLine.take e.cursorCol
    let afterCursor := e.currentLine.drop e.cursorCol
    match splitTextLines text with
    | [] | [_] =>
      { e.setLine (beforeCursor ++ text ++ afterCursor) with
        cursorCol := e.cursorCol + text.length }
    | first :: second :: others =>
      let lastLine := (second :: others).getLastD []
      { e with
        lines := e.lines.take e.cursorLine ++ [beforeCursor ++ first] ++
          (second :: others).dropLast ++ [lastLine ++ afterCursor] ++
          e.lines.drop (e.cursorLine + 1)
        cursorLine := e.cursorLine + others.length + 1
        cursorCol := lastLine.length }

def insertTextAtCursor (text : CodeUnits) : Editor :=
  if text = [] then e
  else
    { e.pushUndoSnapshot with
      lastAction := none
      historyIndex := none }.insertTextAtCursorInternal (plainText (normalizeText text))

/-- A typed character; consecutive characters of a word are undone together. -/
def insertCharacter (char : CodeUnits) : Editor :=
  let e := if isWhitespaceChar char ∨ e.lastAction ≠ some .typeWord then e.pushUndoSnapshot else e
  { e.setLine (e.currentLine.take e.cursorCol ++ plainText char ++ e.currentLine.drop e.cursorCol)
    with
    cursorCol := e.cursorCol + char.length
    lastAction := some .typeWord
    historyIndex := none }

def addNewLine : Editor :=
  let e := { e with
    historyIndex := none
    lastAction := none }.pushUndoSnapshot
  { e with
    lines := e.lines.take e.cursorLine ++ [e.currentLine.take e.cursorCol,
      e.currentLine.drop e.cursorCol] ++ e.lines.drop (e.cursorLine + 1)
    cursorLine := e.cursorLine + 1
    cursorCol := 0 }

/-! ## Pastes -/

/-- `ESC [ code ; 5 u` at the beginning: the control character, and what follows. -/
def decodeControl (s : CodeUnits) : Option (UInt16 × CodeUnits) :=
  match s with
  | 0x1b :: 91 :: rest =>
    let digits := rest.takeWhile isDigit
    let cp := Nat.ofDigits 10 (digits.reverse.map fun c => c.toNat - 48)
    match digits, rest.dropWhile isDigit with
    | _ :: _, 59 :: 53 :: 117 :: after =>
      if 97 ≤ cp ∧ cp ≤ 122 then some (UInt16.ofNat (cp - 96), after)
      else if 65 ≤ cp ∧ cp ≤ 90 then some (UInt16.ofNat (cp - 64), after)
      else none
    | _, _ => none
  | _ => none

/-- Control characters that a terminal has encoded are decoded. -/
def decodeControls : ℕ → CodeUnits → CodeUnits
  | _, [] => []
  | skip + 1, _ :: rest => decodeControls skip rest
  | 0, c :: rest =>
    match decodeControl (c :: rest) with
    | some (decoded, after) => decoded :: decodeControls (rest.length - after.length) rest
    | none => c :: decodeControls 0 rest

/-- `\w` -/
def isWordUnit (c : UInt16) : Bool :=
  isDigit c || 65 ≤ c && c ≤ 90 || 97 ≤ c && c ≤ 122 || c = 95

/-- A path after a word gets a space. -/
def pastedText (pasted : CodeUnits) : CodeUnits :=
  let filteredText := (normalizeText (decodeControls 0 pasted)).filter fun c => c = 10 || 32 ≤ c
  let charBeforeCursor := if e.cursorCol = 0 then none else e.currentLine[e.cursorCol - 1]?
  match filteredText, charBeforeCursor with
  | first :: _, some before =>
    if (first = 47 ∨ first = 126 ∨ first = 46) ∧ isWordUnit before.code then 32 :: filteredText
    else filteredText
  | _, _ => filteredText

def pasteMarker (pasteId pastedLines totalChars : ℕ) : CodeUnits :=
  asciiUnits "[paste #" ++ decimalUnits pasteId ++
    if pastedLines > 10 then asciiUnits " +" ++ decimalUnits pastedLines ++ asciiUnits " lines]"
    else asciiUnits " " ++ decimalUnits totalChars ++ asciiUnits " chars]"

/-- The marker of the paste `serial`. -/
def markerUnits (serial : ℕ) (marker : CodeUnits) : EditorText :=
  marker.zipIdx.map fun p =>
    { code := p.1
      origin := some (serial, p.2) }

/-- A paste of more than ten lines, or of more than a thousand characters, is kept. -/
def handlePaste (pasted : CodeUnits) : Editor :=
  let e := { e with
    historyIndex := none
    lastAction := none }.pushUndoSnapshot
  let filteredText := e.pastedText pasted
  let pastedLines := (filteredText.splitOn 10).length
  if pastedLines > 10 ∨ filteredText.length > 1000 then
    let pasteId := e.pasteCounter + 1
    let marker := pasteMarker pasteId pastedLines filteredText.length
    { e with
      pasteCounter := pasteId
      pastes := e.pastes.set pasteId filteredText
      record := e.record ++ [{ id := pasteId, marker, content := filteredText }]
        : Editor }.insertTextAtCursorInternal (markerUnits e.record.length marker)
  else e.insertTextAtCursorInternal (plainText filteredText)

/-! ## Submission and history -/

/-- What is left, and what is submitted. -/
def submitValue : Editor × CodeUnits :=
  ({ history := e.history
     killRing := e.killRing
     record := e.record },
    trimUnits e.getExpandedText)

def setTextInternal (text : CodeUnits) : Editor :=
  let lines := splitTextLines (plainText text)
  { e with
    lines
    cursorLine := lines.length - 1
    cursorCol := (lines.getLastD []).length }

def setText (text : CodeUnits) : Editor :=
  let e := { e with
    lastAction := none
    historyIndex := none }
  let normalized := normalizeText text
  (if codes e.text ≠ normalized then e.pushUndoSnapshot else e).setTextInternal normalized

/-- `up` is the direction -1. -/
def navigateHistory (up : Bool) : Editor :=
  let e := { e with lastAction := none }
  let newIndex := match up, e.historyIndex with
    | true, none => some (some 0)
    | true, some index => some (some (index + 1))
    | false, none => none
    | false, some 0 => some none
    | false, some (index + 1) => some (some index)
  match newIndex with
  | none => e
  | some none => { e with historyIndex := none }.setTextInternal []
  | some (some index) =>
    match e.history[index]? with
    | none => e
    | some entry =>
      { if e.historyIndex = none then e.pushUndoSnapshot else e with
        historyIndex := some index : Editor }.setTextInternal entry

def addToHistory (text : CodeUnits) : Editor :=
  let trimmed := trimUnits text
  if trimmed = [] ∨ e.history.head? = some trimmed then e
  else { e with history := (trimmed :: e.history).take 100 }

/-! ## Deletion -/

/-- The line of the cursor joins the one before. -/
def joinPrevious : Editor :=
  let previousLine := e.lineAt (e.cursorLine - 1)
  { e with
    lines := (e.lines.set (e.cursorLine - 1) (previousLine ++ e.currentLine)).eraseIdx e.cursorLine
    cursorLine := e.cursorLine - 1
    cursorCol := previousLine.length }

/-- The next line joins that of the cursor. -/
def joinNext : Editor :=
  { e with
    lines := (e.lines.set e.cursorLine (e.currentLine ++ e.lineAt (e.cursorLine + 1))).eraseIdx
      (e.cursorLine + 1) }

/-- What is between two columns of the current line goes. -/
def cut (deleteFrom deleteTo : ℕ) : Editor :=
  { e.setLine (e.currentLine.take deleteFrom ++ e.currentLine.drop deleteTo) with
    cursorCol := deleteFrom }

/-- `graphemeLength` is the length of the last segment before the cursor. -/
def handleBackspace (graphemeLength : ℕ) : Editor :=
  let e := { e with
    historyIndex := none
    lastAction := none }
  if e.cursorCol > 0 then e.pushUndoSnapshot.cut (e.cursorCol - graphemeLength) e.cursorCol
  else if e.cursorLine > 0 then e.pushUndoSnapshot.joinPrevious
  else e

/-- `graphemeLength` is the length of the first segment after the cursor. -/
def handleForwardDelete (graphemeLength : ℕ) : Editor :=
  let e := { e with
    historyIndex := none
    lastAction := none }
  if e.cursorCol < e.currentLine.length then
    e.pushUndoSnapshot.cut e.cursorCol (e.cursorCol + graphemeLength)
  else if e.cursorLine + 1 < e.lines.length then e.pushUndoSnapshot.joinNext
  else e

/-- Consecutive kills make one entry. -/
def kill (text : EditorText) (prepend : Bool) : Editor :=
  { e with
    killRing :=
      if text = [] then e.killRing
      else
        match e.lastAction, e.killRing.getLast? with
        | some .kill, some last =>
          e.killRing.dropLast ++ [if prepend then text ++ last else last ++ text]
        | _, _ => e.killRing ++ [text]
    lastAction := some .kill }

def newlineText : EditorText :=
  plainText [newlineCode]

def deleteToStartOfLine : Editor :=
  let e := { e with historyIndex := none }
  if e.cursorCol > 0 then
    (e.pushUndoSnapshot.kill (e.currentLine.take e.cursorCol) true).cut 0 e.cursorCol
  else if e.cursorLine > 0 then (e.pushUndoSnapshot.kill newlineText true).joinPrevious
  else e

def deleteToEndOfLine : Editor :=
  let e := { e with historyIndex := none }
  if e.cursorCol < e.currentLine.length then
    (e.pushUndoSnapshot.kill (e.currentLine.drop e.cursorCol) false).cut e.cursorCol
      e.currentLine.length
  else if e.cursorLine + 1 < e.lines.length then
    (e.pushUndoSnapshot.kill newlineText false).joinNext
  else e

/-- `deleteFrom` is where `moveWordBackwards` goes. -/
def deleteWordBackwards (deleteFrom : ℕ) : Editor :=
  let e := { e with historyIndex := none }
  if e.cursorCol = 0 then
    if e.cursorLine > 0 then (e.pushUndoSnapshot.kill newlineText true).joinPrevious else e
  else
    (e.pushUndoSnapshot.kill ((e.currentLine.take e.cursorCol).drop deleteFrom) true).cut deleteFrom
      e.cursorCol

/-- `deleteTo` is where `moveWordForwards` goes. -/
def deleteWordForward (deleteTo : ℕ) : Editor :=
  let e := { e with historyIndex := none }
  if e.cursorCol ≥ e.currentLine.length then
    if e.cursorLine + 1 < e.lines.length then (e.pushUndoSnapshot.kill newlineText false).joinNext
    else e
  else
    (e.pushUndoSnapshot.kill ((e.currentLine.take deleteTo).drop e.cursorCol) false).cut e.cursorCol
      deleteTo

/-! ## Yank and undo -/

def splice (lines : List EditorText) (start deleteCount : ℕ) (line : EditorText) :
    List EditorText :=
  lines.take start ++ [line] ++ lines.drop (start + deleteCount)

def insertYankedText (text : EditorText) : Editor :=
  let e := { e with historyIndex := none }
  let before := e.currentLine.take e.cursorCol
  let after := e.currentLine.drop e.cursorCol
  match splitTextLines text with
  | [] | [_] =>
    { e.setLine (before ++ text ++ after) with cursorCol := e.cursorCol + text.length }
  | first :: second :: others =>
    let lastLine := (second :: others).getLastD []
    let lines := ((second :: others).dropLast.zipIdx 1).foldl
      (fun lines p => splice lines (e.cursorLine + p.2) 0 p.1)
      (e.lines.set e.cursorLine (before ++ first))
    let lastLineIndex := e.cursorLine + others.length + 1
    { e with
      lines := splice lines lastLineIndex 0 (lastLine ++ after)
      cursorLine := lastLineIndex
      cursorCol := lastLine.length }

/-- The text that was yanked last stands before the cursor. -/
def deleteYankedText : Editor :=
  match e.killRing.getLast? with
  | none | some [] => e
  | some yankedText =>
    let yankLines := splitTextLines yankedText
    if yankLines.length ≤ 1 then e.cut (e.cursorCol - yankedText.length) e.cursorCol
    else
      let startLine := e.cursorLine - (yankLines.length - 1)
      let startCol := (e.lineAt startLine).length - (yankLines.headD []).length
      { e with
        lines := splice e.lines startLine yankLines.length
          ((e.lineAt startLine).take startCol ++ e.currentLine.drop e.cursorCol)
        cursorLine := startLine
        cursorCol := startCol }

/-- The last entry becomes the first. -/
def rotated (ring : List EditorText) : List EditorText :=
  match ring.getLast? with
  | some last => if ring.length > 1 then last :: ring.dropLast else ring
  | none => ring

def yank : Editor :=
  match e.killRing.getLast? with
  | none => e
  | some text =>
    { e.pushUndoSnapshot.insertYankedText text with lastAction := some .yank }

def yankPop : Editor :=
  if e.lastAction ≠ some .yank ∨ e.killRing.length ≤ 1 then e
  else
    let e := e.pushUndoSnapshot.deleteYankedText
    let e := { e with killRing := rotated e.killRing }
    { e.insertYankedText ((e.killRing.getLast?).getD []) with lastAction := some .yank }

def undo : Editor :=
  match e.undoStack with
  | [] => { e with historyIndex := none }
  | snapshot :: undoStack =>
    { e with
      lines := snapshot.lines
      cursorLine := snapshot.cursorLine
      cursorCol := snapshot.cursorCol
      pastes := snapshot.pastes
      pasteCounter := snapshot.pasteCounter
      historyIndex := none
      lastAction := none
      undoStack }

end Editor

/-! ## Operations -/

inductive EditorInput where
  | insertCharacter (char : CodeUnits)
  | addNewLine
  | insertTextAtCursor (text : CodeUnits)
  | handlePaste (pasted : CodeUnits)
  | setText (text : CodeUnits)
  | addToHistory (text : CodeUnits)
  | navigateHistory (up : Bool)
  | handleBackspace (graphemeLength : ℕ)
  | handleForwardDelete (graphemeLength : ℕ)
  | deleteToStartOfLine
  | deleteToEndOfLine
  | deleteWordBackwards (deleteFrom : ℕ)
  | deleteWordForward (deleteTo : ℕ)
  | yank
  | yankPop
  | undo
  /-- Any movement of the cursor. -/
  | moveCursor (cursorLine cursorCol : ℕ)
  | submitValue

def Editor.handle (e : Editor) : EditorInput → Editor
  | .insertCharacter char => e.insertCharacter char
  | .addNewLine => e.addNewLine
  | .insertTextAtCursor text => e.insertTextAtCursor text
  | .handlePaste pasted => e.handlePaste pasted
  | .setText text => e.setText text
  | .addToHistory text => e.addToHistory text
  | .navigateHistory up => e.navigateHistory up
  | .handleBackspace graphemeLength => e.handleBackspace graphemeLength
  | .handleForwardDelete graphemeLength => e.handleForwardDelete graphemeLength
  | .deleteToStartOfLine => e.deleteToStartOfLine
  | .deleteToEndOfLine => e.deleteToEndOfLine
  | .deleteWordBackwards deleteFrom => e.deleteWordBackwards deleteFrom
  | .deleteWordForward deleteTo => e.deleteWordForward deleteTo
  | .yank => e.yank
  | .yankPop => e.yankPop
  | .undo => e.undo
  | .moveCursor cursorLine cursorCol =>
    { e with
      cursorLine
      cursorCol
      lastAction := none }
  | .submitValue => e.submitValue.1

end Amide
