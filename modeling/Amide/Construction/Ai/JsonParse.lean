import Amide.Construction.Tui.StdinBuffer

/-!
# Repairing JSON (`utils/json-parse.ts`)

`repairJson` reads a text once and rewrites what stands in its string literals: it escapes control
characters and doubles a backslash that begins no escape.  Code units stand for the characters, as
the source indexes them.
-/

namespace Amide

def VALID_JSON_ESCAPES : CodeUnits := [34, 92, 47, 98, 102, 110, 114, 116, 117]

def isControlCharacter (char : UInt16) : Bool := char ≤ 0x1F

/-- A digit of `toString(16)`. -/
def hexDigit (digit : UInt16) : UInt16 := if digit < 10 then 48 + digit else 87 + digit

/-- The number of a control character has at most two digits. -/
def escapeControlCharacter (char : UInt16) : CodeUnits :=
  match char.toNat with
  | 8 => [92, 98]
  | 12 => [92, 102]
  | 10 => [92, 110]
  | 13 => [92, 114]
  | 9 => [92, 116]
  | _ => [92, 117, 48, 48, hexDigit (char / 16), hexDigit (char % 16)]

/-- `/^[0-9a-fA-F]{4}$/` -/
def isUnicodeDigits (unicodeDigits : CodeUnits) : Bool :=
  unicodeDigits.length = 4 && unicodeDigits.all fun c =>
    (48 ≤ c && c ≤ 57) || (97 ≤ c && c ≤ 102) || (65 ≤ c && c ≤ 70)

/-- The loop of `repairJson`, over the rest of the text. -/
def repairFrom : Bool → CodeUnits → CodeUnits
  | _, [] => []
  | false, char :: rest => char :: repairFrom (char = 34) rest
  | true, char :: rest =>
    if char = 34 then char :: repairFrom false rest
    else if char = 92 then
      match rest with
      | [] => [92, 92]
      | nextChar :: after =>
        let unicodeDigits := after.take 4
        if nextChar = 117 ∧ isUnicodeDigits unicodeDigits then
          92 :: 117 :: unicodeDigits ++ repairFrom true (after.drop 4)
        else if VALID_JSON_ESCAPES.contains nextChar then
          92 :: nextChar :: repairFrom true after
        else 92 :: 92 :: repairFrom true (nextChar :: after)
    else
      (if isControlCharacter char then escapeControlCharacter char else [char]) ++
        repairFrom true rest
termination_by _ text => text.length
decreasing_by all_goals simp; try omega

def repairJson (json : CodeUnits) : CodeUnits := repairFrom false json

end Amide
