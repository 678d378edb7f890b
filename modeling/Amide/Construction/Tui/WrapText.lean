import Amide.Construction.Tui.Editor
import Amide.Construction.Tui.Utils
import Mathlib.Data.List.DropRight

/-!
# Wrapped text (`tui/src/utils.ts`)

`wrapTextWithAnsi` breaks lines between words, and inside of the words that are too long.  An
`AnsiCodeTracker` follows the escape sequences, so that a line that continues another one can begin
with the codes of the style.

Strings are lists of code units, and a position in one is what stands from there on.
-/

namespace Amide

open StdinBuffer (ESC)

/-- `join(";")` -/
def join (parts : List CodeUnits) : CodeUnits := [59].intercalate parts

/-! ## Hyperlinks -/

inductive Osc8Terminator
  | bel
  | st

def Osc8Terminator.units : Osc8Terminator → CodeUnits
  | bel => [BEL]
  | st => [ESC, 92]

structure ActiveHyperlink where
  params : CodeUnits
  url : CodeUnits
  terminator : Osc8Terminator

/-- `none` is `undefined`, and `some none` is `null`. -/
def parseOsc8Hyperlink (ansiCode : CodeUnits) : Option (Option ActiveHyperlink) :=
  if ¬[ESC, 93, 56, 59] <+: ansiCode then none
  else
    let terminator : Osc8Terminator := if ansiCode.getLast? = some BEL then .bel else .st
    let body := (ansiCode.take (ansiCode.length - terminator.units.length)).drop 4
    match body.findIdx? (· = 59) with
    | none => none
    | some separatorIndex =>
      let params := body.take separatorIndex
      let url := body.drop (separatorIndex + 1)
      if url = [] then some none else some (some { params, url, terminator })

def formatOsc8Hyperlink (hyperlink : ActiveHyperlink) : CodeUnits :=
  [ESC, 93, 56, 59] ++ hyperlink.params ++ 59 :: hyperlink.url ++ hyperlink.terminator.units

def formatOsc8Close (terminator : Osc8Terminator) : CodeUnits :=
  [ESC, 93, 56, 59, 59] ++ terminator.units

/-! ## The tracker -/

structure AnsiCodeTracker where
  bold : Bool := false
  dim : Bool := false
  italic : Bool := false
  underline : Bool := false
  blink : Bool := false
  inverse : Bool := false
  hidden : Bool := false
  strikethrough : Bool := false
  fgColor : Option CodeUnits := none
  bgColor : Option CodeUnits := none
  activeHyperlink : Option ActiveHyperlink := none

/-- `Number.parseInt(part, 10)` of digits, where `none` is `NaN`. -/
def parseInt (part : CodeUnits) : Option ℕ :=
  if part = [] then none else some (part.foldl (fun n c => 10 * n + (c.toNat - 48)) 0)

/-- The colour code that begins with a `38` or a `48`, and the parts behind it. -/
def extendedColor (code : Option ℕ) (part : CodeUnits) (rest : List CodeUnits) :
    Option (CodeUnits × List CodeUnits) :=
  if code ≠ some 38 ∧ code ≠ some 48 then none
  else
    match rest with
    | mode :: n :: after =>
      if mode = [53] then some (join [part, mode, n], after)
      else if mode = [50] then
        match after with
        | g :: b :: after => some (join [part, mode, n, g, b], after)
        | _ => none
      else none
    | _ => none

lemma length_lt_of_extendedColor {code : Option ℕ} {part colorCode : CodeUnits}
    {rest after : List CodeUnits} (h : extendedColor code part rest = some (colorCode, after)) :
    after.length < rest.length := by
  unfold extendedColor at h
  split_ifs at h
  split at h
  · split_ifs at h
    · cases h
      simp only [List.length_cons]
      omega
    · split at h
      · cases h
        simp only [List.length_cons]
        omega
      · cases h
  · cases h

/-- `ansiCode.match(/\x1b\[([\d;]*)m/)?.[1]` -/
def sgrParams : CodeUnits → Option CodeUnits
  | [] => none
  | c :: rest =>
    let params := (rest.drop 1).takeWhile fun c => StdinBuffer.isDigit c || c = 59
    if c = ESC && rest.head? = some 91 && (rest.drop (1 + params.length)).head? = some 109 then
      some params
    else sgrParams rest

namespace AnsiCodeTracker

def reset (tracker : AnsiCodeTracker) : AnsiCodeTracker :=
  { activeHyperlink := tracker.activeHyperlink }

/-- The standard SGR codes. -/
def processCode (code : Option ℕ) (tracker : AnsiCodeTracker) : AnsiCodeTracker :=
  match code with
  | some 0 => tracker.reset
  | some 1 => { tracker with bold := true }
  | some 2 => { tracker with dim := true }
  | some 3 => { tracker with italic := true }
  | some 4 => { tracker with underline := true }
  | some 5 => { tracker with blink := true }
  | some 7 => { tracker with inverse := true }
  | some 8 => { tracker with hidden := true }
  | some 9 => { tracker with strikethrough := true }
  | some 21 => { tracker with bold := false }
  | some 22 => { tracker with bold := false, dim := false }
  | some 23 => { tracker with italic := false }
  | some 24 => { tracker with underline := false }
  | some 25 => { tracker with blink := false }
  | some 27 => { tracker with inverse := false }
  | some 28 => { tracker with hidden := false }
  | some 29 => { tracker with strikethrough := false }
  | some 39 => { tracker with fgColor := none }
  | some 49 => { tracker with bgColor := none }
  | some code =>
    if (30 ≤ code && code ≤ 37) || (90 ≤ code && code ≤ 97) then
      { tracker with fgColor := some (decimalUnits code) }
    else if (40 ≤ code && code ≤ 47) || (100 ≤ code && code ≤ 107) then
      { tracker with bgColor := some (decimalUnits code) }
    else tracker
  | none => tracker

def processParts (tracker : AnsiCodeTracker) (parts : List CodeUnits) : AnsiCodeTracker :=
  match parts with
  | [] => tracker
  | part :: rest =>
    let code := parseInt part
    match _h : extendedColor code part rest with
    | some (colorCode, after) =>
      let tracker :=
        if code = some 38 then { tracker with fgColor := some colorCode }
        else { tracker with bgColor := some colorCode }
      tracker.processParts after
    | none => (tracker.processCode code).processParts rest
termination_by parts.length
decreasing_by
  · exact Nat.lt_succ_of_lt (length_lt_of_extendedColor _h)
  · exact Nat.lt_succ_self _

def process (ansiCode : CodeUnits) (tracker : AnsiCodeTracker) : AnsiCodeTracker :=
  match parseOsc8Hyperlink ansiCode with
  | some hyperlink => { tracker with activeHyperlink := hyperlink }
  | none =>
    if ansiCode.getLast? ≠ some 109 then tracker
    else
      match sgrParams ansiCode with
      | none => tracker
      | some params =>
        if params = [] || params = [48] then tracker.reset
        else tracker.processParts (params.splitOn 59)

/-- The array of `getActiveCodes`. -/
def codes (tracker : AnsiCodeTracker) : List CodeUnits :=
  (if tracker.bold then [[49]] else []) ++ (if tracker.dim then [[50]] else []) ++
    (if tracker.italic then [[51]] else []) ++ (if tracker.underline then [[52]] else []) ++
    (if tracker.blink then [[53]] else []) ++ (if tracker.inverse then [[55]] else []) ++
    (if tracker.hidden then [[56]] else []) ++ (if tracker.strikethrough then [[57]] else []) ++
    tracker.fgColor.toList.filter (· ≠ []) ++ tracker.bgColor.toList.filter (· ≠ [])

def getActiveCodes (tracker : AnsiCodeTracker) : CodeUnits :=
  (if tracker.codes.length > 0 then [ESC, 91] ++ join tracker.codes ++ [109] else []) ++
    (match tracker.activeHyperlink with
      | some hyperlink => formatOsc8Hyperlink hyperlink
      | none => [])

def getLineEndReset (tracker : AnsiCodeTracker) : CodeUnits :=
  (if tracker.underline then [ESC, 91, 50, 52, 109] else []) ++ (match tracker.activeHyperlink with
      | some hyperlink => formatOsc8Close hyperlink.terminator
      | none => [])

end AnsiCodeTracker

def updateTrackerFromText (text : CodeUnits) (tracker : AnsiCodeTracker) : AnsiCodeTracker :=
  match text with
  | [] => tracker
  | c :: rest =>
    match extractAnsi (c :: rest) with
    | some length =>
      updateTrackerFromText (rest.drop (length - 1)) (tracker.process ((c :: rest).take length))
    | none => updateTrackerFromText rest tracker
termination_by text.length
decreasing_by all_goals simp; try omega

/-! ## Words -/

structure TokenState where
  tokens : List CodeUnits := []
  current : CodeUnits := []
  pendingAnsi : CodeUnits := []
  inWhitespace : Bool := false

namespace TokenState

/-- A visible character. -/
def addChar (char : UInt16) (state : TokenState) : TokenState :=
  let charIsSpace : Bool := char = 32
  let state :=
    if charIsSpace != state.inWhitespace && !state.current.isEmpty then
      { state with tokens := state.tokens ++ [state.current], current := [] }
    else state
  { state with
    current := state.current ++ state.pendingAnsi ++ [char]
    pendingAnsi := []
    inWhitespace := charIsSpace }

def addText (text : CodeUnits) (state : TokenState) : TokenState :=
  match text with
  | [] => state
  | c :: rest =>
    match extractAnsi (c :: rest) with
    | some length =>
      addText (rest.drop (length - 1))
        { state with pendingAnsi := state.pendingAnsi ++ (c :: rest).take length }
    | none => addText rest (state.addChar c)
termination_by text.length
decreasing_by all_goals simp; try omega

end TokenState

def splitIntoTokensWithAnsi (text : CodeUnits) : List CodeUnits :=
  let state := TokenState.addText text {}
  let current := state.current ++ state.pendingAnsi
  if current = [] then state.tokens else state.tokens ++ [current]

variable (tables : UnicodeTables)

inductive WordSegment
  | ansi (value : CodeUnits)
  | grapheme (value : CodeUnits)

/-- The string up to the next escape sequence. -/
def textPortion : CodeUnits → CodeUnits
  | [] => []
  | c :: rest => if (extractAnsi (c :: rest)).isSome then [] else c :: textPortion rest

def wordSegments (word : CodeUnits) : List WordSegment :=
  match word with
  | [] => []
  | c :: rest =>
    match extractAnsi (c :: rest) with
    | some length =>
      .ansi ((c :: rest).take length) :: wordSegments (rest.drop (length - 1))
    | none =>
      (tables.segment (c :: textPortion rest)).map .grapheme ++
        wordSegments (rest.drop (textPortion rest).length)
termination_by word.length
decreasing_by all_goals simp; try omega

structure BreakState where
  lines : List CodeUnits := []
  currentLine : CodeUnits
  currentWidth : ℕ := 0
  tracker : AnsiCodeTracker

def BreakState.add (width : ℕ) (state : BreakState) : WordSegment → BreakState
  | .ansi value =>
    { state with
      currentLine := state.currentLine ++ value
      tracker := state.tracker.process value }
  | .grapheme grapheme =>
    if grapheme = [] then state
    else
      let graphemeWidth := visibleWidth tables grapheme
      let state :=
        if state.currentWidth + graphemeWidth > width then
          { state with
            lines := state.lines ++ [state.currentLine ++ state.tracker.getLineEndReset]
            currentLine := state.tracker.getActiveCodes
            currentWidth := 0 }
        else state
      { state with
        currentLine := state.currentLine ++ grapheme
        currentWidth := state.currentWidth + graphemeWidth }

/-- The lines, and the tracker behind the word. -/
def breakLongWord (word : CodeUnits) (width : ℕ) (tracker : AnsiCodeTracker) :
    List CodeUnits × AnsiCodeTracker :=
  let state := (wordSegments tables word).foldl (BreakState.add tables width)
    { currentLine := tracker.getActiveCodes, tracker }
  let lines := if state.currentLine = [] then state.lines else state.lines ++ [state.currentLine]
  (if lines.length > 0 then lines else [[]], state.tracker)

/-! ## Lines -/

def trimEnd (line : CodeUnits) : CodeUnits := line.rdropWhile isWhitespaceUnit

structure WrapState where
  wrapped : List CodeUnits := []
  currentLine : CodeUnits := []
  currentVisibleLength : ℕ := 0
  tracker : AnsiCodeTracker := {}

namespace WrapState

/-- A token that is too long is broken. -/
def addBroken (width : ℕ) (token : CodeUnits) (state : WrapState) : WrapState :=
  let wrapped :=
    if state.currentLine = [] then state.wrapped
    else state.wrapped ++ [state.currentLine ++ state.tracker.getLineEndReset]
  let (broken, tracker) := breakLongWord tables token width state.tracker
  let currentLine := broken.getLast?.getD []
  { wrapped := wrapped ++ broken.dropLast
    currentLine
    currentVisibleLength := visibleWidth tables currentLine
    tracker }

def addToken (width : ℕ) (state : WrapState) (token : CodeUnits) : WrapState :=
  let tokenVisibleLength := visibleWidth tables token
  let isWhitespace : Bool := trimUnits token = []
  if tokenVisibleLength > width && !isWhitespace then state.addBroken tables width token
  else
    let totalNeeded := state.currentVisibleLength + tokenVisibleLength
    let tracker := updateTrackerFromText token state.tracker
    if totalNeeded > width && state.currentVisibleLength > 0 then
      let lineToWrap := trimEnd state.currentLine ++ state.tracker.getLineEndReset
      if isWhitespace then
        { wrapped := state.wrapped ++ [lineToWrap]
          currentLine := state.tracker.getActiveCodes
          currentVisibleLength := 0
          tracker }
      else
        { wrapped := state.wrapped ++ [lineToWrap]
          currentLine := state.tracker.getActiveCodes ++ token
          currentVisibleLength := tokenVisibleLength
          tracker }
    else
      { wrapped := state.wrapped
        currentLine := state.currentLine ++ token
        currentVisibleLength := state.currentVisibleLength + tokenVisibleLength
        tracker }

end WrapState

def wrapSingleLine (line : CodeUnits) (width : ℕ) : List CodeUnits :=
  if line = [] then [[]]
  else if visibleWidth tables line ≤ width then [line]
  else
    let state := (splitIntoTokensWithAnsi line).foldl (WrapState.addToken tables width) {}
    let wrapped :=
      if state.currentLine = [] then state.wrapped else state.wrapped ++ [state.currentLine]
    if wrapped.length > 0 then wrapped.map trimEnd else [[]]

/-- A line of the text, with the codes of the lines before it. -/
def wrapInputLine (width : ℕ) (state : List CodeUnits × AnsiCodeTracker) (inputLine : CodeUnits) :
    List CodeUnits × AnsiCodeTracker :=
  let (result, tracker) := state
  let activeCodes := if result.length > 0 then tracker.getActiveCodes else []
  (result ++ wrapSingleLine tables (activeCodes ++ inputLine) width,
    updateTrackerFromText inputLine tracker)

def wrapTextWithAnsi (text : CodeUnits) (width : ℕ) : List CodeUnits :=
  if text = [] then [[]]
  else
    let (result, _) := (text.splitOn 10).foldl (wrapInputLine tables width) ([], {})
    if result.length > 0 then result else [[]]

end Amide
