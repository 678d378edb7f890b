import Mathlib.Data.List.DropRight
import Amide.Construction.Tui.Editor

/-!
# Edits of a text (`core/tools/edit-diff.ts`)

`applyEditsToNormalizedContent` finds the place of each edit in one content, refuses an edit whose
text occurs more than once and edits whose places overlap, and replaces from the last place to the
first.  A text that is not there as it stands is looked for with both sides normalized.

The compatibility composition (`normalize("NFKC")`) is a parameter.
-/

namespace Amide

open Occurrence (indexOf splitBy)

/-- An `Edit`. -/
structure TextEdit where
  oldText : CodeUnits
  newText : CodeUnits

/-- `index` is -1 where nothing is found. -/
structure FuzzyMatchResult where
  found : Bool
  index : ℤ
  matchLength : ℕ
  usedFuzzyMatch : Bool
  contentForReplacement : CodeUnits

structure MatchedEdit where
  editIndex : ℕ
  matchIndex : ℕ
  matchLength : ℕ
  newText : CodeUnits

structure AppliedEditsResult where
  baseContent : CodeUnits
  newContent : CodeUnits
  deriving DecidableEq

/-! ## Normalized texts -/

def normalizeToLF : CodeUnits → CodeUnits
  | [] => []
  | 13 :: 10 :: rest => 10 :: normalizeToLF rest
  | 13 :: rest => 10 :: normalizeToLF rest
  | c :: rest => c :: normalizeToLF rest

/-- Quotes, dashes and spaces become ASCII ones. -/
def normalizePunctuation (c : UInt16) : UInt16 :=
  if 0x2018 ≤ c ∧ c ≤ 0x201b then 39
  else if 0x201c ≤ c ∧ c ≤ 0x201f then 34
  else if 0x2010 ≤ c ∧ c ≤ 0x2015 ∨ c = 0x2212 then 45
  else if c = 0xa0 ∨ 0x2002 ≤ c ∧ c ≤ 0x200a ∨ c = 0x202f ∨ c = 0x205f ∨ c = 0x3000 then 32
  else c

section Matching

variable (nfkc : CodeUnits → CodeUnits)

def normalizeForFuzzyMatch (text : CodeUnits) : CodeUnits :=
  let lines := ((nfkc text).splitOn newlineCode).map (List.rdropWhile isWhitespaceUnit)
  ([newlineCode].intercalate lines).map normalizePunctuation

/-! ## The place of a text -/

def fuzzyFindText (content oldText : CodeUnits) : FuzzyMatchResult :=
  match indexOf oldText content with
  | some exactIndex =>
    { found := true
      index := exactIndex
      matchLength := oldText.length
      usedFuzzyMatch := false
      contentForReplacement := content }
  | none =>
    let fuzzyContent := normalizeForFuzzyMatch nfkc content
    let fuzzyOldText := normalizeForFuzzyMatch nfkc oldText
    match indexOf fuzzyOldText fuzzyContent with
    | none =>
      { found := false
        index := -1
        matchLength := 0
        usedFuzzyMatch := false
        contentForReplacement := content }
    | some fuzzyIndex =>
      { found := true
        index := fuzzyIndex
        matchLength := fuzzyOldText.length
        usedFuzzyMatch := true
        contentForReplacement := fuzzyContent }

/-- How often the pieces of the content are divided; an empty content has no piece of an empty
text. -/
def countOccurrences (content oldText : CodeUnits) : ℤ :=
  let fuzzyContent := normalizeForFuzzyMatch nfkc content
  let fuzzyOldText := normalizeForFuzzyMatch nfkc oldText
  (splitBy fuzzyOldText fuzzyContent).length - 1

end Matching

/-! ## Errors -/

section Errors

variable (path : String) (editIndex totalEdits : ℕ)

def getNotFoundError : String :=
  if totalEdits = 1 then
    s!"Could not find the exact text in {path}. The old text must match exactly including all " ++
      "whitespace and newlines."
  else
    s!"Could not find edits[{editIndex}] in {path}. The oldText must match exactly including " ++
      "all whitespace and newlines."

def getDuplicateError (occurrences : ℤ) : String :=
  if totalEdits = 1 then
    s!"Found {occurrences} occurrences of the text in {path}. The text must be unique. Please " ++
      "provide more context to make it unique."
  else
    s!"Found {occurrences} occurrences of edits[{editIndex}] in {path}. Each oldText must be " ++
      "unique. Please provide more context to make it unique."

def getEmptyOldTextError : String :=
  if totalEdits = 1 then s!"oldText must not be empty in {path}."
  else s!"edits[{editIndex}].oldText must not be empty in {path}."

def getNoChangeError : String :=
  if totalEdits = 1 then
    s!"No changes made to {path}. The replacement produced identical content. This might " ++
      "indicate an issue with special characters or the text not existing as expected."
  else s!"No changes made to {path}. The replacements produced identical content."

def getOverlapError (previous current : ℕ) : String :=
  s!"edits[{previous}] and edits[{current}] overlap in {path}. Merge them into one edit or " ++
    "target disjoint regions."

end Errors

/-! ## Applying edits -/

def TextEdit.normalized (edit : TextEdit) : TextEdit where
  oldText := normalizeToLF edit.oldText
  newText := normalizeToLF edit.newText

section Applying

variable (nfkc : CodeUnits → CodeUnits)

/-- What the edits are applied to: if one of them needs it, the normalized content. -/
def baseContentFor (normalizedContent : CodeUnits) (edits : List TextEdit) : CodeUnits :=
  if edits.any fun edit => (fuzzyFindText nfkc normalizedContent edit.oldText).usedFuzzyMatch then
    normalizeForFuzzyMatch nfkc normalizedContent
  else normalizedContent

/-- The places of the edits from the one with index `i` on. -/
def matchEdits (baseContent : CodeUnits) (path : String) (totalEdits : ℕ) :
    ℕ → List TextEdit → Except String (List MatchedEdit)
  | _, [] => .ok []
  | i, edit :: edits => do
    let matchResult := fuzzyFindText nfkc baseContent edit.oldText
    if matchResult.found = false then .error (getNotFoundError path i totalEdits)
    else
      let occurrences := countOccurrences nfkc baseContent edit.oldText
      if occurrences > 1 then .error (getDuplicateError path i totalEdits occurrences)
      else
        let rest ← matchEdits baseContent path totalEdits (i + 1) edits
        .ok ({ editIndex := i, matchIndex := matchResult.index.toNat,
               matchLength := matchResult.matchLength, newText := edit.newText } :: rest)

/-- The first two edits in line that overlap. -/
def findOverlap : List MatchedEdit → Option (MatchedEdit × MatchedEdit)
  | previous :: current :: rest =>
    if previous.matchIndex + previous.matchLength > current.matchIndex then some (previous, current)
    else findOverlap (current :: rest)
  | _ => none

def MatchedEdit.replace (edit : MatchedEdit) (content : CodeUnits) : CodeUnits :=
  content.take edit.matchIndex ++ edit.newText ++ content.drop (edit.matchIndex + edit.matchLength)

def applyEditsToNormalizedContent (normalizedContent : CodeUnits) (edits : List TextEdit)
    (path : String) : Except String AppliedEditsResult := do
  let normalizedEdits := edits.map TextEdit.normalized
  match normalizedEdits.findIdx? fun edit => edit.oldText.length = 0 with
  | some i => .error (getEmptyOldTextError path i normalizedEdits.length)
  | none =>
    let baseContent := baseContentFor nfkc normalizedContent normalizedEdits
    let matchedEdits ← matchEdits nfkc baseContent path normalizedEdits.length 0 normalizedEdits
    let matchedEdits := matchedEdits.mergeSort fun a b => a.matchIndex ≤ b.matchIndex
    match findOverlap matchedEdits with
    | some (previous, current) =>
      .error (getOverlapError path previous.editIndex current.editIndex)
    | none =>
      let newContent := matchedEdits.foldr MatchedEdit.replace baseContent
      if baseContent = newContent then .error (getNoChangeError path normalizedEdits.length)
      else .ok { baseContent, newContent }

end Applying

end Amide
