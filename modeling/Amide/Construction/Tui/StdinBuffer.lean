import Amide.Framework.Occurrence
import Mathlib.Data.Nat.Digits.Defs

/-!
# Terminal input (`tui/src/stdin-buffer.ts`)

A `StdinBuffer` takes input in chunks and emits whole key sequences and the contents of bracketed
pastes.  A sequence that is not complete waits in the buffer for more; the timer that flushes it
is left out, and chunks are strings.

A string is a list of UTF-16 code units.  Where a check of completeness repeats the test of the
introducer that led to it, the test is left out.
-/

namespace Amide

open Occurrence

abbrev CodeUnits := List UInt16

namespace StdinBuffer

def ESC : UInt16 := 0x1b

/-- `ESC[200~`. -/
def BRACKETED_PASTE_START : CodeUnits := [ESC, 91, 50, 48, 48, 126]

/-- `ESC[201~`. -/
def BRACKETED_PASTE_END : CodeUnits := [ESC, 91, 50, 48, 49, 126]

def isDigit (c : UInt16) : Bool := 48 ≤ c && c ≤ 57

/-! ## Complete sequences -/

inductive SequenceStatus where
  | complete | incomplete | notEscape
  deriving DecidableEq

/-- `/^\d+$/`. -/
def isNumber (part : CodeUnits) : Bool := !part.isEmpty && part.all isDigit

/-- `/^<\d+;\d+;\d+[Mm]$/`; both tests of the source are this one. -/
def isMouseReport (payload : CodeUnits) : Bool :=
  match payload with
  | 60 :: body =>
    (body.getLast? = some 77 || body.getLast? = some 109) &&
      (body.dropLast.splitOn 59).length = 3 && (body.dropLast.splitOn 59).all isNumber
  | _ => false

def isCompleteCsiSequence (data : CodeUnits) : SequenceStatus :=
  if data.length < 3 then .incomplete
  else
    let payload := data.drop 2
    match payload.getLast? with
    | none => .incomplete
    | some lastChar =>
      if 0x40 ≤ lastChar ∧ lastChar ≤ 0x7e then
        if payload.head? = some 60 then
          if isMouseReport payload then .complete else .incomplete
        else .complete
      else .incomplete

/-- OSC: up to `ESC \` or `BEL`. -/
def isCompleteOscSequence (data : CodeUnits) : SequenceStatus :=
  if [ESC, 92].isSuffixOf data || data.getLast? = some 7 then .complete else .incomplete

/-- DCS: up to `ESC \`. -/
def isCompleteDcsSequence (data : CodeUnits) : SequenceStatus :=
  if [ESC, 92].isSuffixOf data then .complete else .incomplete

/-- APC: up to `ESC \`. -/
def isCompleteApcSequence (data : CodeUnits) : SequenceStatus :=
  if [ESC, 92].isSuffixOf data then .complete else .incomplete

def isCompleteSequence (data : CodeUnits) : SequenceStatus :=
  match data with
  | [] => .notEscape
  | first :: afterEsc =>
    if first ≠ ESC then .notEscape
    else
      match afterEsc with
      | [] => .incomplete
      | 91 :: 77 :: _ => if data.length ≥ 6 then .complete else .incomplete
      | 91 :: _ => isCompleteCsiSequence data
      | 93 :: _ => isCompleteOscSequence data
      | 80 :: _ => isCompleteDcsSequence data
      | 95 :: _ => isCompleteApcSequence data
      | 79 :: _ => if afterEsc.length ≥ 2 then .complete else .incomplete
      | _ :: _ => .complete

/-- `(?::\d*)?(?::\d+)?u$`. -/
def isKittyTail : CodeUnits → Bool
  | [117] => true
  | 58 :: rest =>
    match rest.dropWhile isDigit with
    | [117] => true
    | 58 :: more => (more.takeWhile isDigit) ≠ [] && more.dropWhile isDigit = [117]
    | _ => false
  | _ => false

/-- `/^\x1b\[(\d+)(?::\d*)?(?::\d+)?u$/`. -/
def parseUnmodifiedKittyPrintableCodepoint (sequence : CodeUnits) : Option ℕ :=
  match sequence with
  | 0x1b :: 91 :: rest =>
    let digits := rest.takeWhile isDigit
    if digits ≠ [] ∧ isKittyTail (rest.dropWhile isDigit) then
      let codepoint := Nat.ofDigits 10 (digits.reverse.map fun c => c.toNat - 48)
      if codepoint ≥ 32 then some codepoint else none
    else none
  | _ => none

/-! ## Splitting the buffer -/

/-- The end of the sequence that `remaining` begins with, where the inner loop breaks. -/
def sequenceEnd (remaining : CodeUnits) : Option ℕ :=
  (List.range' 1 remaining.length).find? fun seqEnd =>
    isCompleteSequence (remaining.take seqEnd) ≠ .incomplete

lemma sequenceEnd_pos {remaining : CodeUnits} {seqEnd : ℕ}
    (h : sequenceEnd remaining = some seqEnd) :
    0 < seqEnd ∧ seqEnd ≤ remaining.length := by
  have hmem := List.mem_range'_1.1 (List.mem_of_find?_eq_some h)
  omega

/-- The complete sequences, and the remainder. -/
def extractCompleteSequences (buffer : CodeUnits) : List CodeUnits × CodeUnits :=
  match buffer with
  | [] => ([], [])
  | first :: rest =>
    if first = ESC then
      match _hend : sequenceEnd (first :: rest) with
      | none => ([], first :: rest)
      | some seqEnd =>
        let result := extractCompleteSequences ((first :: rest).drop seqEnd)
        ((first :: rest).take seqEnd :: result.1, result.2)
    else
      let result := extractCompleteSequences rest
      ([first] :: result.1, result.2)
termination_by buffer.length
decreasing_by
  · have hpos := sequenceEnd_pos _hend
    simp
    omega
  · simp

end StdinBuffer

/-! ## The buffer -/

inductive StdinEvent where
  | data (sequence : CodeUnits)
  | paste (content : CodeUnits)

structure StdinBuffer where
  buffer : CodeUnits := []
  pasteMode : Bool := false
  pasteBuffer : CodeUnits := []
  pendingKittyPrintableCodepoint : Option ℕ := none

namespace StdinBuffer

/-- A character that a Kitty sequence has announced is swallowed. -/
def emitDataSequence (b : StdinBuffer) (sequence : CodeUnits) : StdinBuffer × List StdinEvent :=
  let rawCodepoint := match sequence with
    | [c] => some c.toNat
    | _ => none
  if rawCodepoint.isSome ∧ rawCodepoint = b.pendingKittyPrintableCodepoint then
    ({ b with pendingKittyPrintableCodepoint := none }, [])
  else
    ({ b with
        pendingKittyPrintableCodepoint := parseUnmodifiedKittyPrintableCodepoint sequence },
      [.data sequence])

def emitDataSequences (b : StdinBuffer) : List CodeUnits → StdinBuffer × List StdinEvent
  | [] => (b, [])
  | sequence :: sequences =>
    let emitted := b.emitDataSequence sequence
    let rest := emitted.1.emitDataSequences sequences
    (rest.1, emitted.2 ++ rest.2)

/-- The content of a paste that is over, and what remains. -/
def splitPaste (pasteBuffer : CodeUnits) : Option (CodeUnits × CodeUnits) :=
  (indexOf BRACKETED_PASTE_END pasteBuffer).map fun endIndex =>
    (pasteBuffer.take endIndex, pasteBuffer.drop (endIndex + BRACKETED_PASTE_END.length))

lemma length_lt_of_splitPaste {pasteBuffer content remaining : CodeUnits}
    (h : splitPaste pasteBuffer = some (content, remaining)) :
    remaining.length < pasteBuffer.length := by
  obtain ⟨endIndex, hend, hsplit⟩ := Option.map_eq_some_iff.1 h
  obtain ⟨-, rfl⟩ := Prod.ext_iff.1 hsplit
  have hle := length_add_le_of_indexOf hend
  have hsix : BRACKETED_PASTE_END.length = 6 := rfl
  simp only [List.length_drop]
  omega

def process (b : StdinBuffer) (str : CodeUnits) : StdinBuffer × List StdinEvent :=
  if str.length = 0 ∧ b.buffer.length = 0 then b.emitDataSequence []
  else
    let buffer := b.buffer ++ str
    if b.pasteMode then
      let pasteBuffer := b.pasteBuffer ++ buffer
      match _hsplit : splitPaste pasteBuffer with
      | none => ({ b with buffer := [], pasteBuffer }, [])
      | some (pastedContent, remaining) =>
        let closed : StdinBuffer := {}
        if remaining.length > 0 then
          let processed := closed.process remaining
          (processed.1, .paste pastedContent :: processed.2)
        else (closed, [.paste pastedContent])
    else
      match _hstart : indexOf BRACKETED_PASTE_START buffer with
      | some startIndex =>
        let before := b.emitDataSequences (extractCompleteSequences (buffer.take startIndex)).1
        let pasteBuffer := buffer.drop (startIndex + BRACKETED_PASTE_START.length)
        match _hsplit : splitPaste pasteBuffer with
        | none => ({ pasteMode := true, pasteBuffer }, before.2)
        | some (pastedContent, remaining) =>
          let closed : StdinBuffer := {}
          if remaining.length > 0 then
            let processed := closed.process remaining
            (processed.1, before.2 ++ .paste pastedContent :: processed.2)
          else (closed, before.2 ++ [.paste pastedContent])
      | none =>
        let result := extractCompleteSequences buffer
        { b with buffer := result.2 }.emitDataSequences result.1
termination_by b.pasteBuffer.length + b.buffer.length + str.length
decreasing_by
  · have hlt := length_lt_of_splitPaste _hsplit
    simp only [pasteBuffer, buffer, List.length_append] at hlt
    simp only [List.length_nil]
    omega
  · have hlt := length_lt_of_splitPaste _hsplit
    simp only [pasteBuffer, buffer, List.length_drop, List.length_append] at hlt
    simp only [List.length_nil]
    omega

/-- Chunks one after another. -/
def processAll (b : StdinBuffer) : List CodeUnits → StdinBuffer × List StdinEvent
  | [] => (b, [])
  | chunk :: chunks =>
    let processed := b.process chunk
    let rest := processed.1.processAll chunks
    (rest.1, processed.2 ++ rest.2)

end StdinBuffer

end Amide
