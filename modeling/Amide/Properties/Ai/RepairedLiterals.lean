import Amide.Construction.Ai.JsonParse
import Amide.Framework.JsonGrammar

/-!
# Repaired string literals

`Repaired` says what the loop of `repairJson` writes, with a case for each thing that it can find.
The only one that it leaves amiss is a `\u` without its four digits, which the list of valid escapes
lets pass.  So the repair does what it should exactly of the texts without one
(`repairsLiterals_iff`).
-/

namespace Amide

open JsonGrammar

/-- In the literals `plain` holds of each character, and `escape` of what is behind a backslash. -/
def inLiterals (plain : UInt16 → Bool) (escape : CodeUnits → Bool) : Bool → CodeUnits → Bool
  | _, [] => true
  | false, c :: text => inLiterals plain escape (c = 34) text
  | true, c :: text =>
    if c = 34 then inLiterals plain escape false text
    else if c = 92 then
      escape text && match text with
        | [] => true
        | _ :: text => inLiterals plain escape true text
    else plain c && inLiterals plain escape true text

def beginsWithDigits (text : CodeUnits) : Bool :=
  (text.take 4).length = 4 && (text.take 4).all isHexDigit

/-- A backslash before the text begins an escape. -/
def isEscape : CodeUnits → Bool
  | [] => false
  | c :: text => isEscaped c || (c = 117 && beginsWithDigits text)

/-- No literal has a control character, or a backslash that begins no escape. -/
def validLiterals (text : CodeUnits) : Bool := inLiterals (31 < ·) isEscape false text

/-- A `u` behind a backslash has its digits. -/
def hasDigits : CodeUnits → Bool
  | [] => true
  | c :: text => c ≠ 117 || beginsWithDigits text

/-- Each `\u` in a literal has its digits. -/
def unicodeComplete (text : CodeUnits) : Bool := inLiterals (fun _ => true) hasDigits false text

/-- What stands outside of the literals, with their quotes. -/
def outsideFrom : Bool → CodeUnits → CodeUnits
  | _, [] => []
  | false, c :: text => c :: outsideFrom (c = 34) text
  | true, c :: text =>
    if c = 34 then c :: outsideFrom false text
    else if c = 92 then
      match text with
      | [] => []
      | _ :: text => outsideFrom true text
    else outsideFrom true text

structure RepairsLiterals (json : CodeUnits) : Prop where
  valid_unchanged : IsJson json → repairJson json = json
  literals : validLiterals (repairJson json)
  outside : outsideFrom false (repairJson json) = outsideFrom false json
  again : repairJson (repairJson json) = repairJson json

variable {text repaired : CodeUnits} {inString : Bool} {c : UInt16}

/-! ## What is written -/

/-- A whole escape. -/
inductive Escape : CodeUnits → Prop
  | short {c : UInt16} (hescaped : isEscaped c) : Escape [92, c]
  | unicode {digits : CodeUnits} (hlength : digits.length = 4) (hhex : digits.all isHexDigit) :
      Escape (92 :: 117 :: digits)

inductive Repaired : Bool → CodeUnits → CodeUnits → Prop
  | done {inString : Bool} : Repaired inString [] []
  | outside {c : UInt16} {text repaired : CodeUnits} (hquote : c ≠ 34)
      (h : Repaired false text repaired) : Repaired false (c :: text) (c :: repaired)
  | opening {text repaired : CodeUnits} (h : Repaired true text repaired) :
      Repaired false (34 :: text) (34 :: repaired)
  | closing {text repaired : CodeUnits} (h : Repaired false text repaired) :
      Repaired true (34 :: text) (34 :: repaired)
  | trailing : Repaired true [92] [92, 92]
  | escape {escape text repaired : CodeUnits} (hescape : Escape escape)
      (h : Repaired true text repaired) : Repaired true (escape ++ text) (escape ++ repaired)
  | incomplete {text repaired : CodeUnits} (hdigits : beginsWithDigits text = false)
      (h : Repaired true text repaired) : Repaired true (92 :: 117 :: text) (92 :: 117 :: repaired)
  | backslash {c : UInt16} {text repaired : CodeUnits} (hescaped : isEscaped c = false)
      (hunicode : c ≠ 117) (h : Repaired true (c :: text) repaired) :
      Repaired true (92 :: c :: text) (92 :: 92 :: repaired)
  | control {c : UInt16} {text repaired : CodeUnits} (hcontrol : ¬31 < c)
      (h : Repaired true text repaired) :
      Repaired true (c :: text) (escapeControlCharacter c ++ repaired)
  | plain {c : UInt16} {text repaired : CodeUnits} (hcontrol : 31 < c) (hquote : c ≠ 34)
      (hbackslash : c ≠ 92) (h : Repaired true text repaired) :
      Repaired true (c :: text) (c :: repaired)

lemma contains_validJsonEscapes :
    VALID_JSON_ESCAPES.contains c = (isEscaped c || decide (c = 117)) := by
  simp [VALID_JSON_ESCAPES, isEscaped, Bool.or_assoc]

lemma isUnicodeDigits_take : isUnicodeDigits (text.take 4) = beginsWithDigits text := rfl

variable {digits : CodeUnits}

lemma beginsWithDigits_append (hlen : digits.length = 4) (hhex : digits.all isHexDigit)
    (text : CodeUnits) : beginsWithDigits (digits ++ text) := by
  rw [beginsWithDigits, ← hlen, List.take_left, hhex]
  simp

lemma exists_digits (h : beginsWithDigits text) :
    ∃ digits rest, digits.length = 4 ∧ digits.all isHexDigit ∧ text = digits ++ rest := by
  rw [beginsWithDigits, Bool.and_eq_true, decide_eq_true_eq] at h
  exact ⟨text.take 4, text.drop 4, h.1, h.2, (List.take_append_drop 4 text).symm⟩

lemma repaired_repairFrom (inString : Bool) (text : CodeUnits) :
    Repaired inString text (repairFrom inString text) := by
  fun_induction repairFrom inString text with
  | case1 => exact .done
  | case2 char rest ih =>
    by_cases hquote : char = 34
    · rw [decide_eq_true hquote] at ih ⊢
      exact hquote ▸ .opening ih
    · rw [decide_eq_false hquote] at ih ⊢
      exact .outside hquote ih
  | case3 rest ih => exact .closing ih
  | case4 => exact .trailing
  | case5 nextChar after unicodeDigits hunicode _ ih =>
    obtain ⟨rfl, hdigits⟩ := hunicode
    rw [isUnicodeDigits_take, beginsWithDigits, Bool.and_eq_true, decide_eq_true_eq] at hdigits
    have hescape := Repaired.escape (.unicode hdigits.1 hdigits.2) ih
    rwa [List.cons_append, List.cons_append, List.take_append_drop] at hescape
  | case6 nextChar after unicodeDigits hunicode hvalid _ ih =>
    rw [contains_validJsonEscapes, Bool.or_eq_true, decide_eq_true_eq] at hvalid
    rcases hvalid with hescaped | rfl
    · exact .escape (.short hescaped) ih
    · refine .incomplete ?_ ih
      exact Bool.eq_false_iff.mpr fun hdigits => hunicode ⟨rfl, hdigits⟩
  | case7 nextChar after _ _ hinvalid _ ih =>
    rw [contains_validJsonEscapes, Bool.or_eq_true, decide_eq_true_eq, not_or] at hinvalid
    exact .backslash (Bool.eq_false_iff.mpr hinvalid.1) hinvalid.2 ih
  | case8 char rest hquote hslash ih =>
    split_ifs with hcontrol
    · exact .control (UInt16.not_lt.mpr (of_decide_eq_true hcontrol)) ih
    · have hlt : 31 < char := UInt16.not_le.mp fun hle => hcontrol (decide_eq_true hle)
      exact .plain hlt hquote hslash ih

lemma isControlCharacter_eq_false_iff : isControlCharacter c = false ↔ 31 < c := by
  rw [isControlCharacter, decide_eq_false_iff_not, UInt16.not_le]

lemma isControlCharacter_iff : isControlCharacter c = true ↔ ¬31 < c := by
  rw [isControlCharacter, decide_eq_true_iff, UInt16.not_lt]

lemma repairFrom_quote (rest : CodeUnits) :
    repairFrom true (34 :: rest) = 34 :: repairFrom false rest := by
  rw [repairFrom.eq_def]
  rfl

lemma repairFrom_backslash (nextChar : UInt16) (after : CodeUnits) :
    repairFrom true (92 :: nextChar :: after) = if nextChar = 117 ∧ beginsWithDigits after then
        92 :: 117 :: after.take 4 ++ repairFrom true (after.drop 4)
      else if isEscaped nextChar || nextChar = 117 then 92 :: nextChar :: repairFrom true after
      else 92 :: 92 :: repairFrom true (nextChar :: after) := by
  rw [repairFrom.eq_def, ← contains_validJsonEscapes]
  rfl

lemma repairFrom_other (rest : CodeUnits) (hquote : c ≠ 34) (hslash : c ≠ 92) :
    repairFrom true (c :: rest) =
      (if isControlCharacter c then escapeControlCharacter c else [c]) ++ repairFrom true rest := by
  rw [repairFrom.eq_def]
  simp only [if_neg hquote, if_neg hslash]

lemma control_plain (hcontrol : ¬31 < c) : c ≠ 34 ∧ c ≠ 92 := by
  refine ⟨?_, ?_⟩
  · rintro rfl
    exact hcontrol (by decide)
  · rintro rfl
    exact hcontrol (by decide)

lemma Repaired.eq (h : Repaired inString text repaired) : repairFrom inString text = repaired := by
  induction h with
  | done => rw [repairFrom]
  | outside hquote _ ih => rw [repairFrom, decide_eq_false hquote, ih]
  | opening _ ih => rw [repairFrom, decide_eq_true rfl, ih]
  | closing _ ih => rw [repairFrom_quote, ih]
  | trailing => rw [repairFrom, if_neg (by decide), if_pos rfl]
  | escape hescape _ ih =>
    cases hescape with
    | @short c hescaped =>
      have hunicode : c ≠ 117 := by
        rintro rfl
        exact absurd hescaped (by decide)
      rw [List.cons_append, List.cons_append, List.nil_append, repairFrom_backslash,
        if_neg (not_and.mpr fun h => absurd h hunicode), hescaped, Bool.true_or, if_pos rfl, ih]
      rfl
    | @unicode digits hlen hhex =>
      rw [List.cons_append, List.cons_append, repairFrom_backslash,
        if_pos ⟨rfl, beginsWithDigits_append hlen hhex _⟩, ← hlen, List.take_left,
        List.drop_left, ih]
  | incomplete hdigits _ ih =>
    rw [repairFrom_backslash, hdigits, if_neg (by simp), decide_eq_true rfl, Bool.or_true,
      if_pos rfl, ih]
  | backslash hescaped hunicode _ ih =>
    rw [repairFrom_backslash, if_neg (not_and.mpr fun h => absurd h hunicode), hescaped,
      decide_eq_false hunicode, if_neg (by simp), ih]
  | control hcontrol _ ih =>
    obtain ⟨hquote, hslash⟩ := control_plain hcontrol
    rw [repairFrom_other _ hquote hslash, isControlCharacter_iff.mpr hcontrol, if_pos rfl, ih]
  | plain hcontrol hquote hslash _ ih =>
    rw [repairFrom_other _ hquote hslash, isControlCharacter_eq_false_iff.mpr hcontrol, ih]
    rfl

/-! ## Repairing again -/

lemma escape_escapeControlCharacter (hcontrol : ¬31 < c) : Escape (escapeControlCharacter c) := by
  rw [escapeControlCharacter]
  split
  · exact .short rfl
  · exact .short rfl
  · exact .short rfl
  · exact .short rfl
  · exact .short rfl
  · have hdigits : ∀ n < 32, [48, 48, hexDigit (UInt16.ofNat n / 16),
        hexDigit (UInt16.ofNat n % 16)].all isHexDigit := by decide
    have hlt : c.toNat < 32 := by
      rw [UInt16.not_lt, UInt16.le_iff_toNat_le] at hcontrol
      exact Nat.lt_succ_of_le hcontrol
    have hall := hdigits c.toNat hlt
    rw [UInt16.ofNat_toNat] at hall
    exact .unicode rfl hall

/-- A digit that is written was read. -/
lemma Repaired.exists_of_hex (h : Repaired true text (c :: repaired)) (hhex : isHexDigit c) :
    ∃ rest, text = c :: rest ∧ Repaired true rest repaired := by
  have hescape {escape rest : CodeUnits} (hescape : Escape escape)
      (heq : escape ++ rest = c :: repaired) : False := by
    cases hescape with
    | short _ | unicode _ _ => cases heq; exact absurd hhex (by decide)
  generalize hwritten : c :: repaired = written at h
  cases h with
  | done => cases hwritten
  | closing _ | trailing | incomplete _ _ | backslash _ _ _ =>
    cases hwritten; exact absurd hhex (by decide)
  | escape h _ => exact (hescape h hwritten.symm).elim
  | control hcontrol _ =>
    exact (hescape (escape_escapeControlCharacter hcontrol) hwritten.symm).elim
  | plain _ _ _ h =>
    cases hwritten
    exact ⟨_, rfl, h⟩

lemma Repaired.exists_of_digits (h : Repaired true text (digits ++ repaired))
    (hhex : digits.all isHexDigit) : ∃ rest, text = digits ++ rest := by
  induction digits generalizing text with
  | nil => exact ⟨text, rfl⟩
  | cons c digits ih =>
    rw [List.all_cons, Bool.and_eq_true] at hhex
    obtain ⟨rest, rfl, hrest⟩ := h.exists_of_hex hhex.1
    obtain ⟨rest, rfl⟩ := ih hrest hhex.2
    exact ⟨rest, rfl⟩

lemma Repaired.beginsWithDigits_eq_false (h : Repaired true text repaired)
    (hdigits : beginsWithDigits text = false) : beginsWithDigits repaired = false := by
  by_contra hwritten
  obtain ⟨digits, rest, hlen, hhex, rfl⟩ := exists_digits (Bool.not_eq_false _ ▸ hwritten)
  obtain ⟨rest, rfl⟩ := h.exists_of_digits hhex
  rw [beginsWithDigits_append hlen hhex] at hdigits
  cases hdigits

lemma Repaired.again (h : Repaired inString text repaired) :
    Repaired inString repaired repaired := by
  induction h with
  | done => exact .done
  | outside hquote _ ih => exact .outside hquote ih
  | opening _ ih => exact .opening ih
  | closing _ ih => exact .closing ih
  | trailing => exact .escape (.short rfl) .done
  | escape hescape _ ih => exact .escape hescape ih
  | incomplete hdigits h ih => exact .incomplete (h.beginsWithDigits_eq_false hdigits) ih
  | backslash _ _ _ ih => exact .escape (.short rfl) ih
  | control hcontrol _ ih => exact .escape (escape_escapeControlCharacter hcontrol) ih
  | plain hcontrol hquote hslash _ ih => exact .plain hcontrol hquote hslash ih

/-! ## The literals -/

variable {sequence : CodeUnits}

section
variable {plain : UInt16 → Bool} {escape : CodeUnits → Bool}

lemma inLiterals_quote (text : CodeUnits) :
    inLiterals plain escape true (34 :: text) = inLiterals plain escape false text := by
  rw [inLiterals.eq_def]
  rfl

lemma inLiterals_backslash (c : UInt16) (text : CodeUnits) :
    inLiterals plain escape true (92 :: c :: text) =
      (escape (c :: text) && inLiterals plain escape true text) := by
  rfl

lemma inLiterals_plain (text : CodeUnits) (hquote : c ≠ 34) (hslash : c ≠ 92) :
    inLiterals plain escape true (c :: text) = (plain c && inLiterals plain escape true text) := by
  rw [inLiterals.eq_def]
  simp only [if_neg hquote, if_neg hslash]

lemma hex_plain (h : isHexDigit c) : 31 < c ∧ c ≠ 34 ∧ c ≠ 92 := by
  refine ⟨?_, ?_, ?_⟩
  · simp only [isHexDigit, JsonGrammar.isDigit, Bool.or_eq_true, Bool.and_eq_true,
      decide_eq_true_eq, UInt16.le_iff_toNat_le, UInt16.lt_iff_toNat_lt, UInt16.reduceToNat] at h ⊢
    omega
  · rintro rfl
    exact absurd h (by decide)
  · rintro rfl
    exact absurd h (by decide)

lemma inLiterals_digits (text : CodeUnits) (hhex : digits.all isHexDigit)
    (hplain : ∀ c, 31 < c → plain c) :
    inLiterals plain escape true (digits ++ text) = inLiterals plain escape true text := by
  induction digits with
  | nil => rfl
  | cons c digits ih =>
    rw [List.all_cons, Bool.and_eq_true] at hhex
    obtain ⟨hcontrol, hquote, hslash⟩ := hex_plain hhex.1
    rw [List.cons_append, inLiterals_plain _ hquote hslash, hplain c hcontrol, Bool.true_and,
      ih hhex.2]

/-- A whole escape has no bearing on the rest. -/
lemma inLiterals_escape (h : Escape sequence) (text : CodeUnits)
    (hescape : ∀ c text, isEscape (c :: text) → escape (c :: text))
    (hplain : ∀ c, 31 < c → plain c) :
    inLiterals plain escape true (sequence ++ text) = inLiterals plain escape true text := by
  cases h with
  | @short c hescaped =>
    have his : isEscape (c :: text) := by rw [isEscape, hescaped, Bool.true_or]
    rw [List.cons_append, List.cons_append, List.nil_append, inLiterals_backslash,
      hescape _ _ his, Bool.true_and]
  | @unicode digits hlen hhex =>
    have his : isEscape (117 :: (digits ++ text)) := by
      rw [isEscape, beginsWithDigits_append hlen hhex]
      rfl
    rw [List.cons_append, List.cons_append, inLiterals_backslash, hescape _ _ his, Bool.true_and,
      inLiterals_digits text hhex hplain]

end

lemma unescaped_plain (h : isEscaped c = false) : c ≠ 34 ∧ c ≠ 92 := by
  refine ⟨?_, ?_⟩
  · rintro rfl
    exact Bool.false_ne_true h.symm
  · rintro rfl
    exact Bool.false_ne_true h.symm

lemma hasDigits_of_isEscape (h : isEscape (c :: text)) : hasDigits (c :: text) := by
  rw [isEscape, Bool.or_eq_true, Bool.and_eq_true, decide_eq_true_eq] at h
  rw [hasDigits, Bool.or_eq_true, decide_eq_true_eq]
  rcases h with hescaped | ⟨-, hdigits⟩
  · left
    rintro rfl
    exact absurd hescaped (by decide)
  · exact .inr hdigits

/-- What is written is valid but for the escapes that lack digits. -/
lemma Repaired.inLiterals_eq (h : Repaired inString text repaired) :
    inLiterals (31 < ·) isEscape inString repaired =
      inLiterals (fun _ => true) hasDigits inString text := by
  induction h with
  | done => rfl
  | outside hquote _ ih => rw [inLiterals, inLiterals, decide_eq_false hquote, ih]
  | opening _ ih => rw [inLiterals, inLiterals, decide_eq_true rfl, ih]
  | closing _ ih => rw [inLiterals_quote, inLiterals_quote, ih]
  | trailing => rfl
  | escape hescape _ ih =>
    rw [inLiterals_escape hescape, inLiterals_escape hescape, ih]
    · exact fun _ _ => hasDigits_of_isEscape
    · exact fun _ _ => rfl
    · exact fun _ _ h => h
    · exact fun _ h => decide_eq_true h
  | incomplete hdigits h ih =>
    rw [inLiterals_backslash, inLiterals_backslash, isEscape, hasDigits, hdigits,
      h.beginsWithDigits_eq_false hdigits]
    rfl
  | backslash hescaped hunicode _ ih =>
    obtain ⟨hquote, hslash⟩ := unescaped_plain hescaped
    rw [inLiterals_plain _ hquote hslash] at ih
    rw [inLiterals_backslash, inLiterals_backslash, ih, hasDigits, decide_eq_true hunicode]
    rfl
  | control hcontrol _ ih =>
    obtain ⟨hquote, hslash⟩ := control_plain hcontrol
    rw [inLiterals_escape (escape_escapeControlCharacter hcontrol),
      inLiterals_plain _ hquote hslash, Bool.true_and, ih]
    · exact fun _ _ h => h
    · exact fun _ h => decide_eq_true h
  | plain hcontrol hquote hslash _ ih =>
    rw [inLiterals_plain _ hquote hslash, inLiterals_plain _ hquote hslash,
      decide_eq_true hcontrol, ih]

/-! ## Outside of the literals -/

lemma outsideFrom_quote (text : CodeUnits) :
    outsideFrom true (34 :: text) = 34 :: outsideFrom false text := by
  rw [outsideFrom.eq_def]
  rfl

lemma outsideFrom_backslash (c : UInt16) (text : CodeUnits) :
    outsideFrom true (92 :: c :: text) = outsideFrom true text := by
  rfl

lemma outsideFrom_plain (text : CodeUnits) (hquote : c ≠ 34) (hslash : c ≠ 92) :
    outsideFrom true (c :: text) = outsideFrom true text := by
  rw [outsideFrom.eq_def]
  simp only [if_neg hquote, if_neg hslash]

lemma outsideFrom_escape (h : Escape sequence) (text : CodeUnits) :
    outsideFrom true (sequence ++ text) = outsideFrom true text := by
  cases h with
  | short _ => exact outsideFrom_backslash _ text
  | @unicode digits _ hhex =>
    rw [List.cons_append, List.cons_append, outsideFrom_backslash]
    clear * - hhex
    induction digits with
    | nil => rfl
    | cons c digits ih =>
      rw [List.all_cons, Bool.and_eq_true] at hhex
      obtain ⟨-, hquote, hslash⟩ := hex_plain hhex.1
      rw [List.cons_append, outsideFrom_plain _ hquote hslash, ih hhex.2]

lemma Repaired.outsideFrom_eq (h : Repaired inString text repaired) :
    outsideFrom inString repaired = outsideFrom inString text := by
  induction h with
  | done => rfl
  | outside hquote _ ih => rw [outsideFrom, outsideFrom, decide_eq_false hquote, ih]
  | opening _ ih => rw [outsideFrom, outsideFrom, decide_eq_true rfl, ih]
  | closing _ ih => rw [outsideFrom_quote, outsideFrom_quote, ih]
  | trailing => rfl
  | escape hescape _ ih => rw [outsideFrom_escape hescape, outsideFrom_escape hescape, ih]
  | incomplete _ _ ih => rw [outsideFrom_backslash, outsideFrom_backslash, ih]
  | backslash hescaped _ _ ih =>
    obtain ⟨hquote, hslash⟩ := unescaped_plain hescaped
    rw [outsideFrom_plain _ hquote hslash] at ih
    rw [outsideFrom_backslash, outsideFrom_backslash, ih]
  | control hcontrol _ ih =>
    obtain ⟨hquote, hslash⟩ := control_plain hcontrol
    rw [outsideFrom_escape (escape_escapeControlCharacter hcontrol),
      outsideFrom_plain _ hquote hslash, ih]
  | plain _ hquote hslash _ ih =>
    rw [outsideFrom_plain _ hquote hslash, outsideFrom_plain _ hquote hslash, ih]

/-! ## Valid texts -/

lemma repaired_characters {chars : CodeUnits} (h : Characters chars)
    (hrest : Repaired true text repaired) : Repaired true (chars ++ text) (chars ++ repaired) := by
  induction h with
  | nil => exact hrest
  | plain hcontrol hquote hslash _ ih => exact .plain hcontrol hquote hslash ih
  | escape hescaped _ ih =>
    have hescape := Repaired.escape (.short hescaped) ih
    exact hescape
  | unicode hlen hhex _ ih =>
    rw [List.append_assoc, List.append_assoc]
    exact .escape (.unicode hlen hhex) ih

lemma repaired_pieces (h : Pieces text) : Repaired false text text := by
  induction h with
  | nil => exact .done
  | other hquote _ ih => exact .outside hquote ih
  | literal hchars _ ih => exact .opening (repaired_characters hchars (.closing ih))

/-- The repair does what it should exactly if no escape lacks its digits. -/
theorem repairsLiterals_iff (json : CodeUnits) : RepairsLiterals json ↔ unicodeComplete json := by
  have hrepaired := repaired_repairFrom false json
  have hliterals : validLiterals (repairJson json) = unicodeComplete json := hrepaired.inLiterals_eq
  constructor
  · intro h
    exact hliterals ▸ h.literals
  · intro h
    exact
      { valid_unchanged := fun hjson => (repaired_pieces hjson.pieces).eq
        literals := hliterals ▸ h
        outside := hrepaired.outsideFrom_eq
        again := hrepaired.again.eq }

/-- The path `"C:\users"`. -/
theorem not_repairsLiterals_path :
    ¬RepairsLiterals [34, 67, 58, 92, 117, 115, 101, 114, 115, 34] := by
  intro h
  have hrepaired : repairJson [34, 67, 58, 92, 117, 115, 101, 114, 115, 34] =
      [34, 67, 58, 92, 117, 115, 101, 114, 115, 34] := by
    simp [repairJson, repairFrom, isUnicodeDigits, VALID_JSON_ESCAPES, isControlCharacter]
  have hliterals := h.literals
  rw [hrepaired] at hliterals
  exact absurd hliterals (by decide)

end Amide
