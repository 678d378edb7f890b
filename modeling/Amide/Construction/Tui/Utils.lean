import Amide.Construction.Tui.StdinBuffer
import Amide.Framework.JsMap
import Mathlib.Algebra.BigOperators.Group.List.Basic

/-!
# Visible text (`tui/src/utils.ts`)

`visibleWidth` skips the escape sequences that `extractAnsiEndAt` finds and adds up the widths of
the grapheme clusters of the rest.  `stripAnsi` drops sequences in two passes, of which the first
one knows only the common ones.

A position in a string is what stands from there on, and an end is the length up to it.  Clusters
and what Unicode says of characters are given (`UnicodeTables`).  The cache of widths is left out:
it holds what was computed before.  The cache of the ends of control strings is left out where no
position is looked at again, and is what `AnsiScanState` holds else.
-/

namespace Amide

open StdinBuffer (ESC)

def BEL : UInt16 := 7

/-! ## Escape sequences -/

/-- The search of `extractControlStringEnd`, behind the introducer. -/
def controlStringLength (allowBel : Bool) : CodeUnits → Option ℕ
  | [] => none
  | c :: rest =>
    if allowBel && c = BEL then some 1
    else if c = ESC && rest.head? = some 92 then some 2
    else (controlStringLength allowBel rest).map (· + 1)

/-- The loop over a CSI sequence, behind its bracket. -/
def csiLength (hasIntermediate : Bool) : CodeUnits → Option ℕ
  | [] => none
  | byte :: rest =>
    if 0x30 ≤ byte && byte ≤ 0x3F && !hasIntermediate then
      (csiLength hasIntermediate rest).map (· + 1)
    else if 0x20 ≤ byte && byte ≤ 0x2F then (csiLength true rest).map (· + 1)
    else if 0x40 ≤ byte && byte ≤ 0x7E then some 1
    else none

/-- `extractAnsiEndAt`: the length of the escape sequence that the string begins with. -/
def extractAnsi (str : CodeUnits) : Option ℕ :=
  match str with
  | c :: next :: rest =>
    if c ≠ ESC then none
    else if next = 91 then (csiLength false rest).map (· + 2)
    -- OSC and APC
    else if next = 93 || next = 95 then (controlStringLength true rest).map (· + 2)
    -- DCS, PM and SOS
    else if next = 80 || next = 94 || next = 88 then (controlStringLength false rest).map (· + 2)
    else none
  | _ => none

/-- `nextBel` and `nextSt` in the loop of `cacheControlStringEnds`, which runs from the end. -/
def nextTerminators : CodeUnits → Option ℕ × Option ℕ
  | [] => (none, none)
  | c :: rest =>
    let (nextBel, nextSt) := nextTerminators rest
    (if c = BEL then some 0 else nextBel.map (· + 1),
      if c = ESC && rest.head? = some 92 then some 0 else nextSt.map (· + 1))

/-- What `cacheControlStringEnds` puts for a control string, by what is behind its introducer. -/
def cachedEnd (allowBel : Bool) (rest : CodeUnits) : Option ℕ :=
  match nextTerminators rest with
  | (some nextBel, nextSt) =>
    if allowBel && nextSt.all (nextBel < ·) then some (nextBel + 1) else nextSt.map (· + 2)
  | (none, nextSt) => nextSt.map (· + 2)

/-! ## The cached extractor -/

structure AnsiCode where
  code : CodeUnits
  length : ℕ

def extractAnsiCode (str : CodeUnits) (pos : ℕ) : Option AnsiCode :=
  (extractAnsi (str.drop pos)).map fun length => ⟨(str.drop pos).take length, length⟩

structure AnsiScanState where
  controlStringEnds : Option (JsMap ℕ (Option ℕ)) := none

/-- The loop over the string from the position `i` on; `ends` has been filled from behind. -/
def cacheControlStringEnds (i : ℕ) : CodeUnits → JsMap ℕ (Option ℕ)
  | c :: next :: rest =>
    let ends := cacheControlStringEnds (i + 1) (next :: rest)
    if c ≠ ESC then ends
    else if next = 93 || next = 95 then ends.set i ((cachedEnd true rest).map (i + 2 + ·))
    else if next = 80 || next = 94 || next = 88 then
      ends.set i ((cachedEnd false rest).map (i + 2 + ·))
    else ends
  | _ => .empty

/-- A search that has found no end fills the cache from there on. -/
def extractControlStringEnd (str : CodeUnits) (pos : ℕ) (allowBel : Bool) (state : AnsiScanState) :
    Option ℕ × AnsiScanState :=
  match state.controlStringEnds.bind (·.get? pos) with
  | some cached => (cached, state)
  | none =>
    match controlStringLength allowBel (str.drop (pos + 2)) with
    | some length => (some (pos + 2 + length), state)
    | none => (none, { controlStringEnds := some (cacheControlStringEnds pos (str.drop pos)) })

def extractAnsiEndAt (str : CodeUnits) (pos : ℕ) (state : AnsiScanState) :
    Option ℕ × AnsiScanState :=
  match str.drop pos with
  | c :: next :: rest =>
    if c ≠ ESC then (none, state)
    else if next = 91 then ((csiLength false rest).map (pos + 2 + ·), state)
    else if next = 93 || next = 95 then extractControlStringEnd str pos true state
    else if next = 80 || next = 94 || next = 88 then extractControlStringEnd str pos false state
    else (none, state)
  | _ => (none, state)

/-- The answers of the function that `createAnsiCodeExtractor` makes, asked in this order. -/
def extractAnsiCodes (str : CodeUnits) : AnsiScanState → List ℕ → List (Option AnsiCode)
  | _, [] => []
  | state, pos :: positions =>
    let (last, state) := extractAnsiEndAt str pos state
    last.map (fun last => ⟨(str.drop pos).take (last - pos), last - pos⟩) ::
      extractAnsiCodes str state positions

/-! ## Widths -/

/-- `Intl.Segmenter`, the regular expressions with Unicode properties and `eastAsianWidth`. -/
structure UnicodeTables where
  segment : CodeUnits → List CodeUnits
  zeroWidthRegex : CodeUnits → Bool
  rgiEmojiRegex : CodeUnits → Bool
  withoutLeadingNonPrinting : CodeUnits → CodeUnits
  eastAsianWidth : ℕ → ℕ

def codePoints : CodeUnits → List ℕ
  | [] => []
  | [c] => [c.toNat]
  | c :: d :: rest =>
    if 0xD800 ≤ c && c ≤ 0xDBFF && 0xDC00 ≤ d && d ≤ 0xDFFF then
      (0x10000 + (c.toNat - 0xD800) * 0x400 + (d.toNat - 0xDC00)) :: codePoints rest
    else c.toNat :: codePoints (d :: rest)

def couldBeEmoji (segment : CodeUnits) : Bool :=
  let cp := (codePoints segment).headD 0
  (0x1F000 ≤ cp && cp ≤ 0x1FBFF) || (0x2300 ≤ cp && cp ≤ 0x23FF) ||
    (0x2600 ≤ cp && cp ≤ 0x27BF) || (0x2B50 ≤ cp && cp ≤ 0x2B55) ||
    segment.contains 0xFE0F || segment.length > 2

def isPrintableAscii (str : CodeUnits) : Bool := str.all fun code => 0x20 ≤ code && code ≤ 0x7E

variable (tables : UnicodeTables)

def graphemeWidth (segment : CodeUnits) : ℕ :=
  if tables.zeroWidthRegex segment then 0
  else if couldBeEmoji segment && tables.rgiEmojiRegex segment then 2
  else
    match (codePoints (tables.withoutLeadingNonPrinting segment)).head? with
    | none => 0
    | some cp =>
      if 0x1F1E6 ≤ cp && cp ≤ 0x1F1FF then 2
      else
        (codePoints (segment.drop 1)).foldl
          (fun width c =>
            if 0xFF00 ≤ c && c ≤ 0xFFEF then width + tables.eastAsianWidth c
            else if c = 0x0E33 || c = 0x0EB3 then width + 1
            else width)
          (tables.eastAsianWidth cp)

/-- `replace(/\t/g, "   ")` -/
def expandTabs (str : CodeUnits) : CodeUnits :=
  str.flatMap fun c => if c = 9 then [32, 32, 32] else [c]

/-- The loop of `visibleWidth` over the escape sequences. -/
def withoutSequences (clean : CodeUnits) : CodeUnits :=
  match clean with
  | [] => []
  | c :: rest =>
    match extractAnsi (c :: rest) with
    | some length => withoutSequences (rest.drop (length - 1))
    | none => c :: withoutSequences rest
termination_by clean.length
decreasing_by all_goals simp; try omega

def visibleText (str : CodeUnits) : CodeUnits :=
  let clean := if str.contains 9 then expandTabs str else str
  if clean.contains ESC then withoutSequences clean else clean

def textWidth (clean : CodeUnits) : ℕ := ((tables.segment clean).map (graphemeWidth tables)).sum

def visibleWidth (str : CodeUnits) : ℕ :=
  if str.length = 0 then 0
  else if isPrintableAscii str then str.length
  else textWidth tables (visibleText str)

/-! ## Stripping -/

/-- `[0-9;:?<=>]` -/
def isCommonParameter (c : UInt16) : Bool :=
  (48 ≤ c && c ≤ 57) || c = 59 || c = 58 || c = 63 || c = 60 || c = 61 || c = 62

/-- The length of a match of `COMMON_CSI_REGEX` behind the bracket. -/
def commonCsiLength : CodeUnits → Option ℕ
  | [] => none
  | c :: rest =>
    if isCommonParameter c then (commonCsiLength rest).map (· + 1)
    else if 0x40 ≤ c && c ≤ 0x7E then some 1
    else none

/-- `replace(COMMON_CSI_REGEX, "")` -/
def withoutCommonCsi (str : CodeUnits) : CodeUnits :=
  match str with
  | [] => []
  | c :: rest =>
    match if c = ESC && rest.head? = some 91 then commonCsiLength rest.tail else none with
    | some length => withoutCommonCsi (rest.drop (length + 1))
    | none => c :: withoutCommonCsi rest
termination_by str.length
decreasing_by all_goals simp; try omega

def isLineTerminator (c : UInt16) : Bool := c = 0x0A || c = 0x0D || c = 0x2028 || c = 0x2029

/-- The loop of `stripAnsi`, which joins the pieces between the sequences. -/
def stripRest (input : CodeUnits) : CodeUnits :=
  match input with
  | [] => []
  | c :: rest =>
    if c ≠ ESC then c :: stripRest rest
    else
      match extractAnsi (c :: rest) with
      | some length => stripRest (rest.drop (length - 1))
      | none =>
        match rest with
        | [] => [c]
        | next :: after =>
          -- an escape sequence of two characters
          if !isLineTerminator next then stripRest after else c :: stripRest (next :: after)
termination_by input.length
decreasing_by all_goals simp; try omega

def stripAnsi (str : CodeUnits) : CodeUnits :=
  if !str.contains ESC then str
  else
    let input := withoutCommonCsi str
    if !input.contains ESC then input else stripRest input

end Amide
