import Amide.Construction.Tui.WrapText
import Amide.Framework.Lines
import Amide.Framework.TextStyle
import Amide.Properties.Tui.StrippedText

/-!
# Styled text

A terminal reads a text from the left and gives each character the style that the sequences before
it have set up (`shown`).  The tracker follows it (`Shows`), and the codes that it gives set up the
style from nothing (`Shows.getActiveCodes`).
-/

namespace Amide

open List

open StdinBuffer (ESC)
open TextStyle (parameters parameters_cons)

/-- A hyperlink is given by its parameters and its URL. -/
abbrev Style := TextStyle (CodeUnits × CodeUnits)

/-! ## What a terminal shows -/

/-- The value of a decimal parameter, which is 0 if there are no digits. -/
def numberValue (part : CodeUnits) : ℕ := part.foldl (fun n c => 10 * n + (c.toNat - 48)) 0

/-- The style behind an SGR sequence or an OSC 8 sequence. -/
def readSequence (sequence : CodeUnits) (style : Style) : Style :=
  match sequence with
  | 27 :: 91 :: body =>
    if body.getLast? = some 109 && body.dropLast.all fun c => StdinBuffer.isDigit c || c = 59 then
      style.parameters ((body.dropLast.splitOn 59).map numberValue)
    else style
  | 27 :: 93 :: 56 :: 59 :: body =>
    let text := body.takeWhile fun c => c ≠ BEL && c ≠ ESC
    let url := (text.dropWhile (· ≠ 59)).drop 1
    { style with link := if url = [] then none else some (text.takeWhile (· ≠ 59), url) }
  | _ => style

def shown (style : Style) (text : CodeUnits) : List (UInt16 × Style) :=
  match text with
  | [] => []
  | c :: rest =>
    match extractAnsi (c :: rest) with
    | some length =>
      shown (readSequence ((c :: rest).take length) style) (rest.drop (length - 1))
    | none => (c, style) :: shown style rest
termination_by text.length
decreasing_by all_goals simp; try omega

def styleAfter (style : Style) (text : CodeUnits) : Style :=
  match text with
  | [] => style
  | c :: rest =>
    match extractAnsi (c :: rest) with
    | some length =>
      styleAfter (readSequence ((c :: rest).take length) style) (rest.drop (length - 1))
    | none => styleAfter style rest
termination_by text.length
decreasing_by all_goals simp; try omega

/-- The characters shown that are no spaces or line feeds. -/
def ink (style : Style) (text : CodeUnits) : List (UInt16 × Style) :=
  (shown style text).filter fun (c, _) => c ≠ 32 && c ≠ 10

/-! ## The sequences that the tracker recognises -/

def isStandardCode (n : ℕ) : Bool :=
  n ≤ 5 || (7 ≤ n && n ≤ 9) || (21 ≤ n && n ≤ 25) || (27 ≤ n && n ≤ 37) || n = 39 ||
    (40 ≤ n && n ≤ 47) || n = 49 || (90 ≤ n && n ≤ 97) || (100 ≤ n && n ≤ 107)

/-- Parameters that have a meaning together. -/
inductive SgrGroup : List CodeUnits → Prop
  | code {part : CodeUnits} (hne : part ≠ []) (hpart : part.all StdinBuffer.isDigit)
      (hcode : isStandardCode (numberValue part)) : SgrGroup [part]
  | indexed {part n : CodeUnits} (hne : part ≠ []) (hpart : part.all StdinBuffer.isDigit)
      (hcode : numberValue part = 38 ∨ numberValue part = 48) (hn : n.all StdinBuffer.isDigit) :
      SgrGroup [part, [53], n]
  | rgb {part r g b : CodeUnits} (hne : part ≠ []) (hpart : part.all StdinBuffer.isDigit)
      (hcode : numberValue part = 38 ∨ numberValue part = 48) (hr : r.all StdinBuffer.isDigit)
      (hg : g.all StdinBuffer.isDigit) (hb : b.all StdinBuffer.isDigit) :
      SgrGroup [part, [50], r, g, b]

inductive StyleSequence : CodeUnits → Prop
  | reset : StyleSequence [ESC, 91, 109]
  | sgr {groups : List (List CodeUnits)} (hne : groups ≠ [])
      (h : ∀ group ∈ groups, SgrGroup group) :
      StyleSequence ([ESC, 91] ++ join groups.flatten ++ [109])
  | link {params url : CodeUnits} {terminator : Osc8Terminator} (hparams : 59 ∉ params)
      (htext : ∀ c ∈ params ++ url, c ≠ BEL ∧ c ≠ ESC ∧ c ≠ 10) :
      StyleSequence ([ESC, 93, 56, 59] ++ params ++ 59 :: url ++ terminator.units)

/-- A text of these sequences and of characters of some kind. -/
inductive Styled (p : UInt16 → Bool) : CodeUnits → Prop
  | nil : Styled p []
  | char {c : UInt16} {s : CodeUnits} (hc : p c) (hesc : c ≠ ESC) (h : Styled p s) :
      Styled p (c :: s)
  | sequence {sequence s : CodeUnits} (hsequence : StyleSequence sequence) (h : Styled p s) :
      Styled p (sequence ++ s)

/-- A text of sequences alone. -/
abbrev Codes (s : CodeUnits) : Prop := Styled (fun _ => false) s

def isPrintable (c : UInt16) : Bool := 0x20 ≤ c && c ≤ 0x7E

variable {p q : UInt16 → Bool} {s t sequence : CodeUnits} {c : UInt16} {style : Style}
  {tracker : AnsiCodeTracker} {parts : List CodeUnits}

/-! ## Joined parts -/

variable {part : CodeUnits}

lemma join_cons (h : parts ≠ []) : join (part :: parts) = part ++ 59 :: join parts := by
  rw [join, intercalate_cons_of_ne_nil h, append_assoc]
  rfl

lemma join_singleton (part : CodeUnits) : join [part] = part := intercalate_singleton

lemma join_append {more : List CodeUnits} (h : parts ≠ []) (hmore : more ≠ []) :
    join (parts ++ more) = join parts ++ 59 :: join more := by
  induction parts with
  | nil => exact absurd rfl h
  | cons part parts ih =>
    rcases parts with _ | ⟨next, rest⟩
    · rw [singleton_append, join_cons hmore, join_singleton]
    · rw [cons_append, join_cons (cons_ne_nil _ _), join_cons (by simp),
        ih (cons_ne_nil _ _), append_assoc]
      rfl

lemma exists_of_mem_join (h : c ∈ join parts) : c = 59 ∨ ∃ part ∈ parts, c ∈ part := by
  induction parts with
  | nil => cases h
  | cons part rest ih =>
    rcases rest with _ | ⟨next, rest⟩
    · rw [join_singleton] at h
      exact .inr ⟨part, mem_singleton_self _, h⟩
    · rw [join_cons (cons_ne_nil _ _), mem_append, mem_cons] at h
      rcases h with h | h | h
      · exact .inr ⟨part, mem_cons_self, h⟩
      · exact .inl h
      · obtain hc | ⟨found, hfound, hc⟩ := ih h
        · exact .inl hc
        · exact .inr ⟨found, mem_cons_of_mem _ hfound, hc⟩

variable {groups : List (List CodeUnits)}

/-- Groups may be joined first. -/
lemma join_map_join (h : ∀ group ∈ groups, group ≠ []) :
    join (groups.map join) = join groups.flatten := by
  induction groups with
  | nil => rfl
  | cons group groups ih =>
    obtain ⟨hgroup, hgroups⟩ := forall_mem_cons.mp h
    rcases groups with _ | ⟨next, rest⟩
    · simp [join_singleton]
    · have hne : (next :: rest).flatten ≠ [] := by
        exact append_ne_nil_of_left_ne_nil (hgroups next mem_cons_self) _
      rw [map_cons, join_cons (by simp), ih hgroups, flatten_cons (l := group),
        join_append hgroup hne]

/-! ## Sequences -/

lemma le_of_isDigit (h : StdinBuffer.isDigit c) : 0x30 ≤ c ∧ c ≤ 0x39 := by
  simpa [StdinBuffer.isDigit] using h

variable {group : List CodeUnits}

lemma SgrGroup.ne_nil (h : SgrGroup group) : group ≠ [] := by
  cases h <;> exact cons_ne_nil _ _

lemma SgrGroup.isDigit (h : SgrGroup group) : ∀ part ∈ group, part.all StdinBuffer.isDigit := by
  cases h with
  | code _ hpart _ => simpa using hpart
  | indexed _ hpart _ hn =>
    simp only [forall_mem_cons, not_mem_nil, false_imp_iff, implies_true, and_true]
    exact ⟨hpart, rfl, hn⟩
  | rgb _ hpart _ hr hg hb =>
    simp only [forall_mem_cons, not_mem_nil, false_imp_iff, implies_true, and_true]
    exact ⟨hpart, rfl, hr, hg, hb⟩

section
variable {groups : List (List CodeUnits)} (h : ∀ group ∈ groups, SgrGroup group)
include h

lemma isDigit_of_mem_groups : ∀ part ∈ groups.flatten, part.all StdinBuffer.isDigit := by
  intro part hpart
  obtain ⟨group, hgroup, hmem⟩ := mem_flatten.mp hpart
  exact (h group hgroup).isDigit part hmem

lemma isDigit_of_mem_join_groups (hc : c ∈ join groups.flatten) :
    StdinBuffer.isDigit c || c = 59 := by
  rw [Bool.or_eq_true, decide_eq_true_eq]
  obtain hc | ⟨part, hpart, hc⟩ := exists_of_mem_join hc
  · exact .inr hc
  · exact .inl (all_eq_true.mp (isDigit_of_mem_groups h part hpart) c hc)

lemma flatten_groups_ne_nil (hne : groups ≠ []) : groups.flatten ≠ [] := by
  obtain ⟨group, rest, rfl⟩ := exists_cons_of_ne_nil hne
  exact append_ne_nil_of_left_ne_nil (h group mem_cons_self).ne_nil _

lemma splitOn_join_groups (hne : groups ≠ []) :
    (join groups.flatten).splitOn 59 = groups.flatten := by
  refine splitOn_intercalate 59 (fun part hpart hmem => ?_) (flatten_groups_ne_nil h hne)
  exact absurd (all_eq_true.mp (isDigit_of_mem_groups h part hpart) 59 hmem) (by decide)

end

lemma csiBody_of_params (h : ∀ c ∈ s, StdinBuffer.isDigit c || c = 59) :
    CsiBody false (s ++ [109]) := by
  induction s with
  | nil => exact .final (by decide)
  | cons c s ih =>
    obtain ⟨hc, hs⟩ := forall_mem_cons.mp h
    refine .parameter ?_ (ih hs)
    rw [Bool.or_eq_true, decide_eq_true_eq] at hc
    rcases hc with hc | rfl
    · exact (le_of_isDigit hc).imp_right fun hle => UInt16.le_trans hle (by decide)
    · decide

lemma controlString_of_text (h : ∀ c ∈ s, c ≠ BEL ∧ c ≠ ESC) (terminator : Osc8Terminator) :
    ControlString true (s ++ terminator.units) := by
  induction s with
  | nil =>
    cases terminator with
    | bel => exact .bel rfl
    | st => exact .st
  | cons c s ih =>
    obtain ⟨⟨hbel, hesc⟩, hs⟩ := forall_mem_cons.mp h
    exact .cons (by simp [hbel]) (by simp [hesc]) (ih hs)

lemma StyleSequence.ansiSequence (h : StyleSequence sequence) : AnsiSequence sequence := by
  cases h with
  | reset => exact .csi (.final (by decide))
  | sgr _ h => exact .csi (csiBody_of_params fun c hc => isDigit_of_mem_join_groups h hc)
  | @link params url terminator _ htext =>
    have hbody : ControlString true ((56 :: 59 :: params ++ 59 :: url) ++ terminator.units) := by
      refine controlString_of_text (fun c hc => ?_) terminator
      have htext (hmem : c ∈ params ++ url) := (htext c hmem).imp_right And.left
      simp only [cons_append, mem_cons, mem_append] at hc htext
      rcases hc with rfl | rfl | hc | rfl | hc
      · decide
      · decide
      · exact htext (.inl hc)
      · decide
      · exact htext (.inr hc)
    exact .control (by simp) hbody

/-- A sequence has no line feed, and its last character is no white space. -/
lemma StyleSequence.exists_last (h : StyleSequence sequence) :
    10 ∉ sequence ∧ ∃ before last, sequence = before ++ [last] ∧ isWhitespaceUnit last = false := by
  cases h with
  | reset => exact ⟨by simp [ESC], [ESC, 91], 109, rfl, by decide⟩
  | sgr hne h =>
    refine ⟨fun hmem => ?_, _, 109, rfl, by decide⟩
    simp only [mem_append, mem_cons, not_mem_nil, or_false] at hmem
    rcases hmem with ((hmem | hmem) | hmem) | hmem
    · cases hmem
    · cases hmem
    · exact absurd (isDigit_of_mem_join_groups h hmem) (by decide)
    · cases hmem
  | @link params url terminator _ htext =>
    constructor
    · intro hmem
      have htext (hmem : 10 ∈ params ++ url) := (htext 10 hmem).2.2 rfl
      rw [mem_append] at htext
      simp only [mem_append, mem_cons, not_mem_nil, or_false] at hmem
      rcases hmem with (((hmem | hmem | hmem | hmem) | hmem) | hmem | hmem) | hmem
      · cases hmem
      · cases hmem
      · cases hmem
      · cases hmem
      · exact htext (.inl hmem)
      · cases hmem
      · exact htext (.inr hmem)
      · cases terminator <;> simp [Osc8Terminator.units, BEL, ESC] at hmem
    · cases terminator with
      | bel => exact ⟨_, BEL, rfl, by decide⟩
      | st =>
        refine ⟨[ESC, 93, 56, 59] ++ params ++ 59 :: url ++ [ESC], 92, ?_, by decide⟩
        rw [append_assoc _ [ESC]]
        rfl

/-! ## Reading -/

lemma shown_nil (style : Style) : shown style [] = [] := by rw [shown]

lemma shown_char (hesc : c ≠ ESC) (rest : CodeUnits) (style : Style) :
    shown style (c :: rest) = (c, style) :: shown style rest := by
  rw [shown, extractAnsi_of_ne hesc]

lemma shown_sequence (h : AnsiSequence sequence) (rest : CodeUnits) (style : Style) :
    shown style (sequence ++ rest) = shown (readSequence sequence style) rest := by
  obtain ⟨c, s, heq, hext, htake, hdrop⟩ := h.front rest
  rw [heq, shown, hext]
  simp only [htake, hdrop]

lemma styleAfter_nil (style : Style) : styleAfter style [] = style := by rw [styleAfter]

lemma styleAfter_char (hesc : c ≠ ESC) (rest : CodeUnits) (style : Style) :
    styleAfter style (c :: rest) = styleAfter style rest := by
  rw [styleAfter, extractAnsi_of_ne hesc]

lemma styleAfter_sequence (h : AnsiSequence sequence) (rest : CodeUnits) (style : Style) :
    styleAfter style (sequence ++ rest) = styleAfter (readSequence sequence style) rest := by
  obtain ⟨c, s, heq, hext, htake, hdrop⟩ := h.front rest
  rw [heq, styleAfter, hext]
  simp only [htake, hdrop]

lemma updateTrackerFromText_char (hesc : c ≠ ESC) (rest : CodeUnits) (tracker : AnsiCodeTracker) :
    updateTrackerFromText (c :: rest) tracker = updateTrackerFromText rest tracker := by
  rw [updateTrackerFromText, extractAnsi_of_ne hesc]

lemma updateTrackerFromText_sequence (h : AnsiSequence sequence) (rest : CodeUnits)
    (tracker : AnsiCodeTracker) :
    updateTrackerFromText (sequence ++ rest) tracker =
      updateTrackerFromText rest (tracker.process sequence) := by
  obtain ⟨c, s, heq, hext, htake, hdrop⟩ := h.front rest
  rw [heq, updateTrackerFromText, hext]
  simp only [htake, hdrop]

lemma Styled.mono (h : Styled p s) (hpq : ∀ c, p c → q c) : Styled q s := by
  induction h with
  | nil => exact .nil
  | char hc hesc _ ih => exact .char (hpq _ hc) hesc ih
  | sequence hseq _ ih => exact .sequence hseq ih

lemma Styled.append (hs : Styled p s) (ht : Styled p t) : Styled p (s ++ t) := by
  induction hs with
  | nil => exact ht
  | char hc hesc _ ih => exact .char hc hesc ih
  | sequence hseq _ ih =>
    rw [append_assoc]
    exact .sequence hseq ih

lemma Styled.shown_append (h : Styled p s) (t : CodeUnits) (style : Style) :
    shown style (s ++ t) = shown style s ++ shown (styleAfter style s) t := by
  induction h generalizing style with
  | nil => rw [shown_nil, styleAfter_nil]; rfl
  | char _ hesc _ ih =>
    rw [cons_append, shown_char hesc, shown_char hesc, styleAfter_char hesc, ih]
    rfl
  | sequence hseq _ ih =>
    rw [append_assoc, shown_sequence hseq.ansiSequence,
      shown_sequence hseq.ansiSequence, styleAfter_sequence hseq.ansiSequence, ih]

lemma Styled.styleAfter_append (h : Styled p s) (t : CodeUnits) (style : Style) :
    styleAfter style (s ++ t) = styleAfter (styleAfter style s) t := by
  induction h generalizing style with
  | nil => rw [styleAfter_nil]; rfl
  | char _ hesc _ ih => rw [cons_append, styleAfter_char hesc, styleAfter_char hesc, ih]
  | sequence hseq _ ih =>
    rw [append_assoc, styleAfter_sequence hseq.ansiSequence,
      styleAfter_sequence hseq.ansiSequence, ih]

lemma Styled.ink_append (h : Styled p s) (t : CodeUnits) (style : Style) :
    ink style (s ++ t) = ink style s ++ ink (styleAfter style s) t := by
  rw [ink, h.shown_append, filter_append]
  rfl

lemma Codes.ink (h : Codes s) (style : Style) : ink style s = [] := by
  induction h generalizing style with
  | nil => rw [Amide.ink, shown_nil]; rfl
  | char hc _ _ _ => cases hc
  | sequence hseq _ ih =>
    rw [Amide.ink, shown_sequence hseq.ansiSequence]
    exact ih _

/-! ## Columns -/

def columns (s : CodeUnits) : ℕ := (withoutSequences s).length

lemma columns_char (hesc : c ≠ ESC) (rest : CodeUnits) :
    columns (c :: rest) = columns rest + 1 := by
  rw [columns, withoutSequences_of_none (extractAnsi_of_ne hesc rest)]
  rfl

lemma columns_sequence (h : AnsiSequence sequence) (rest : CodeUnits) :
    columns (sequence ++ rest) = columns rest := by
  rw [columns, withoutSequences_sequence h]
  rfl

lemma columns_nil : columns [] = 0 := by
  rw [columns, withoutSequences]
  rfl

lemma Styled.columns_append (h : Styled p s) (t : CodeUnits) :
    columns (s ++ t) = columns s + columns t := by
  induction h with
  | nil => rw [columns_nil, Nat.zero_add]; rfl
  | char _ hesc _ ih =>
    rw [cons_append, columns_char hesc, columns_char hesc, ih]
    omega
  | sequence hseq _ ih =>
    rw [append_assoc, columns_sequence hseq.ansiSequence, columns_sequence hseq.ansiSequence, ih]

lemma Codes.columns (h : Codes s) : columns s = 0 := by
  induction h with
  | nil => exact columns_nil
  | char hc _ _ _ => cases hc
  | sequence hseq _ ih => rw [columns_sequence hseq.ansiSequence, ih]

lemma Styled.visibleText (h : Styled isPrintable s) :
    visibleText s = withoutSequences s ∧ isPrintableAscii (withoutSequences s) := by
  rw [visibleText_eq]
  induction h with
  | nil => rw [expandTabs_nil, withoutSequences]; exact ⟨rfl, rfl⟩
  | @char c s hc hesc _ ih =>
    have htab : c ≠ 9 := by
      rintro rfl
      exact absurd hc (by decide)
    rw [expandTabs_of_ne htab, withoutSequences_of_none (extractAnsi_of_ne hesc _),
      withoutSequences_of_none (extractAnsi_of_ne hesc _), ih.1, isPrintableAscii, all_cons,
      Bool.and_eq_true]
    exact ⟨rfl, hc, ih.2⟩
  | sequence hseq _ ih =>
    rw [expandTabs_append, withoutSequences_sequence hseq.ansiSequence.expandTabs,
      withoutSequences_sequence hseq.ansiSequence]
    exact ih

lemma Styled.visibleWidth_eq {tables : UnicodeTables} (laws : tables.Laws)
    (h : Styled isPrintable s) : visibleWidth tables s = columns s := by
  rw [Amide.visibleWidth_eq laws, h.visibleText.1, textWidth_ascii laws h.visibleText.2]
  rfl

/-! ## The tracker -/

def setForeground (color : Color) (style : Style) : Style := { style with foreground := some color }

def setBackground (color : Color) (style : Style) : Style := { style with background := some color }

/-- The text is a group of parameters that does nothing but set the colour. -/
def SetsColor (set : Color → Style → Style) (text : CodeUnits) (color : Color) : Prop :=
  ∃ group, SgrGroup group ∧ text = join group ∧ ∀ rest style,
    parameters (group.map numberValue ++ rest) style =
      parameters rest (set color style)

structure IsLink (hyperlink : ActiveHyperlink) (link : CodeUnits × CodeUnits) : Prop where
  eq : link = (hyperlink.params, hyperlink.url)
  params : 59 ∉ hyperlink.params
  url : hyperlink.url ≠ []
  text : ∀ c ∈ hyperlink.params ++ hyperlink.url, c ≠ BEL ∧ c ≠ ESC ∧ c ≠ 10

/-- The tracker has the style. -/
structure Shows (tracker : AnsiCodeTracker) (style : Style) : Prop where
  bold : tracker.bold = style.bold
  dim : tracker.dim = style.dim
  italic : tracker.italic = style.italic
  underline : tracker.underline = style.underline
  blink : tracker.blink = style.blink
  inverse : tracker.inverse = style.inverse
  hidden : tracker.hidden = style.hidden
  strikethrough : tracker.strikethrough = style.strikethrough
  foreground : Option.Rel (SetsColor setForeground) tracker.fgColor style.foreground
  background : Option.Rel (SetsColor setBackground) tracker.bgColor style.background
  link : Option.Rel IsLink tracker.activeHyperlink style.link

lemma shows_default : Shows {} {} where
  bold := rfl
  dim := rfl
  italic := rfl
  underline := rfl
  blink := rfl
  inverse := rfl
  hidden := rfl
  strikethrough := rfl
  foreground := .none
  background := .none
  link := .none

lemma Shows.reset (h : Shows tracker style) : Shows tracker.reset { link := style.link } :=
  { shows_default with link := h.link }

lemma numberValue_decimalUnits (n : ℕ) : numberValue (decimalUnits n) = n := by
  rw [decimalUnits]
  split_ifs with hzero
  · rw [hzero]
    rfl
  · have hdigits : ∀ digits : List ℕ, (∀ d ∈ digits, d < 10) →
        numberValue (digits.reverse.map fun digit => UInt16.ofNat (48 + digit)) =
          Nat.ofDigits 10 digits := by
      intro digits hlt
      rw [numberValue, foldl_map, foldl_reverse]
      induction digits with
      | nil => rfl
      | cons d digits ih =>
        obtain ⟨hd, hrest⟩ := forall_mem_cons.mp hlt
        have hunit : (UInt16.ofNat (48 + d)).toNat = 48 + d :=
          UInt16.toNat_ofNat_of_lt (by show 48 + d < 65536; omega)
        rw [foldr_cons, ih hrest, Nat.ofDigits_cons, hunit]
        omega
    rw [hdigits _ fun d hd => Nat.digits_lt_base (by norm_num) hd, Nat.ofDigits_digits]

variable {n : ℕ}

lemma sgrGroup_decimalUnits (h : isStandardCode n) : SgrGroup [decimalUnits n] := by
  refine .code (decimalUnits_ne_nil n) ?_ (by rwa [numberValue_decimalUnits])
  exact all_eq_true.mpr fun c hc => isDigit_of_mem_decimalUnits hc

lemma parseInt_eq (h : part ≠ []) : parseInt part = some (numberValue part) := by
  rw [parseInt, if_neg h]
  rfl

lemma setsColor_palette {set : Color → Style → Style} {color : Color}
    (hset : ∀ style : Style, style.parameter n = set color style) (hcode : isStandardCode n) :
    SetsColor set (decimalUnits n) color := by
  have hne : n ≠ 38 ∧ n ≠ 48 := by
    constructor
    · rintro rfl
      exact absurd hcode (by decide)
    · rintro rfl
      exact absurd hcode (by decide)
  refine ⟨[decimalUnits n], sgrGroup_decimalUnits hcode, (join_singleton _).symm, ?_⟩
  intro rest style
  rw [map_singleton, numberValue_decimalUnits, singleton_append, parameters_cons hne.1 hne.2, hset]

lemma Shows.processCode (h : Shows tracker style) (hcode : isStandardCode n) :
    Shows (tracker.processCode (some n)) (style.parameter n) := by
  unfold AnsiCodeTracker.processCode
  split <;> rename_i heq <;> cases heq
  · exact h.reset
  · exact { h with bold := rfl }
  · exact { h with dim := rfl }
  · exact { h with italic := rfl }
  · exact { h with underline := rfl }
  · exact { h with blink := rfl }
  · exact { h with inverse := rfl }
  · exact { h with hidden := rfl }
  · exact { h with strikethrough := rfl }
  · exact { h with bold := rfl }
  · exact { h with bold := rfl, dim := rfl }
  · exact { h with italic := rfl }
  · exact { h with underline := rfl }
  · exact { h with blink := rfl }
  · exact { h with inverse := rfl }
  · exact { h with hidden := rfl }
  · exact { h with strikethrough := rfl }
  · exact { h with foreground := .none }
  · exact { h with background := .none }
  · split_ifs with hfore hback
    · simp only [Bool.or_eq_true, Bool.and_eq_true, decide_eq_true_eq] at hfore
      rcases hfore with hrange | hrange
      · have hset (style : Style) : _ = setForeground _ style :=
          TextStyle.parameter_foreground style hrange
        rw [hset]
        exact { h with foreground := .some (setsColor_palette hset hcode) }
      · have hset (style : Style) : _ = setForeground _ style :=
          TextStyle.parameter_brightForeground style hrange
        rw [hset]
        exact { h with foreground := .some (setsColor_palette hset hcode) }
    · simp only [Bool.or_eq_true, Bool.and_eq_true, decide_eq_true_eq] at hback
      rcases hback with hrange | hrange
      · have hset (style : Style) : _ = setBackground _ style :=
          TextStyle.parameter_background style hrange
        rw [hset]
        exact { h with background := .some (setsColor_palette hset hcode) }
      · have hset (style : Style) : _ = setBackground _ style :=
          TextStyle.parameter_brightBackground style hrange
        rw [hset]
        exact { h with background := .some (setsColor_palette hset hcode) }
    · -- every other standard code has a case of its own
      rw [isStandardCode] at hcode
      simp only [Bool.or_eq_true, Bool.and_eq_true, decide_eq_true_eq, imp_false] at *
      omega

lemma processParts_of_none {rest : List CodeUnits}
    (h : extendedColor (parseInt part) part rest = none) :
    tracker.processParts (part :: rest) =
      (tracker.processCode (parseInt part)).processParts rest := by
  rw [AnsiCodeTracker.processParts.eq_def]
  dsimp only
  split
  · rename_i hsome
    rw [h] at hsome
    cases hsome
  · rfl

lemma processParts_of_some {colorCode : CodeUnits} {rest after : List CodeUnits}
    (h : extendedColor (parseInt part) part rest = some (colorCode, after)) :
    tracker.processParts (part :: rest) =
      AnsiCodeTracker.processParts
        (if parseInt part = some 38 then { tracker with fgColor := some colorCode }
          else { tracker with bgColor := some colorCode }) after := by
  rw [AnsiCodeTracker.processParts.eq_def]
  dsimp only
  split
  · rename_i hsome
    rw [h] at hsome
    cases hsome
    rfl
  · rename_i hnone
    rw [h] at hnone
    cases hnone

section
variable {code : Option ℕ} {part : CodeUnits}

lemma extendedColor_of_ne (h38 : code ≠ some 38) (h48 : code ≠ some 48) (rest : List CodeUnits) :
    extendedColor code part rest = none := by
  exact if_pos ⟨h38, h48⟩

lemma extendedColor_indexed (h : code = some 38 ∨ code = some 48) (n : CodeUnits)
    (after : List CodeUnits) :
    extendedColor code part ([53] :: n :: after) = some (join [part, [53], n], after) := by
  rcases h with rfl | rfl <;> rfl

lemma extendedColor_rgb (h : code = some 38 ∨ code = some 48) (r g b : CodeUnits)
    (after : List CodeUnits) :
    extendedColor code part ([50] :: r :: g :: b :: after) =
      some (join [part, [50], r, g, b], after) := by
  rcases h with rfl | rfl <;> rfl

end

/-- A group that begins with a `38` or a `48` sets a colour. -/
lemma Shows.extended (h : Shows tracker style) (color : Color) (hgroup : SgrGroup (part :: group))
    (hne : part ≠ [])
    (hextended : ∀ rest, (parseInt part = some 38 ∨ parseInt part = some 48) →
      extendedColor (parseInt part) part (group ++ rest) = some (join (part :: group), rest))
    (hcode : numberValue part = 38 ∨ numberValue part = 48)
    (hfore : ∀ rest (style : Style),
      parameters (38 :: (group.map numberValue ++ rest)) style =
        parameters rest (setForeground color style))
    (hback : ∀ rest (style : Style),
      parameters (48 :: (group.map numberValue ++ rest)) style =
        parameters rest (setBackground color style)) :
    ∃ tracker' style', Shows tracker' style' ∧
      (∀ rest, tracker.processParts (part :: group ++ rest) = tracker'.processParts rest) ∧
      ∀ rest, parameters ((part :: group).map numberValue ++ rest) style =
        parameters rest style' := by
  have hint := parseInt_eq hne
  rcases hcode with hcode | hcode
  · rw [hcode] at hint
    have hset : ∀ rest (style : Style),
        parameters ((part :: group).map numberValue ++ rest) style =
          parameters rest (setForeground color style) := by
      intro rest style
      rw [map_cons, hcode]
      exact hfore rest style
    refine ⟨{ tracker with fgColor := some (join (part :: group)) }, setForeground color style,
      { h with foreground := .some ⟨_, hgroup, rfl, hset⟩ }, fun rest => ?_,
      fun rest => hset rest _⟩
    rw [cons_append, processParts_of_some (hextended rest (.inl hint)), if_pos hint]
  · rw [hcode] at hint
    have hset : ∀ rest (style : Style),
        parameters ((part :: group).map numberValue ++ rest) style =
          parameters rest (setBackground color style) := by
      intro rest style
      rw [map_cons, hcode]
      exact hback rest style
    refine ⟨{ tracker with bgColor := some (join (part :: group)) }, setBackground color style,
      { h with background := .some ⟨_, hgroup, rfl, hset⟩ }, fun rest => ?_,
      fun rest => hset rest _⟩
    rw [cons_append, processParts_of_some (hextended rest (.inr hint)),
      if_neg (by simp [hint])]

/-- The tracker and the style behind a group of parameters. -/
lemma Shows.exists_group (h : Shows tracker style) (hgroup : SgrGroup group) :
    ∃ tracker' style', Shows tracker' style' ∧
      (∀ rest, tracker.processParts (group ++ rest) = tracker'.processParts rest) ∧
      ∀ rest, parameters (group.map numberValue ++ rest) style =
        parameters rest style' := by
  cases hgroup with
  | @code part hne hpart hcode =>
    have h38 : numberValue part ≠ 38 := by
      intro heq
      rw [heq] at hcode
      exact absurd hcode (by decide)
    have h48 : numberValue part ≠ 48 := by
      intro heq
      rw [heq] at hcode
      exact absurd hcode (by decide)
    refine ⟨_, _, h.processCode hcode, fun rest => ?_, fun rest => ?_⟩
    · rw [singleton_append, processParts_of_none, parseInt_eq hne]
      rw [parseInt_eq hne]
      exact extendedColor_of_ne (by simpa using h38) (by simpa using h48) rest
    · exact parameters_cons h38 h48 rest style
  | @indexed part n hne hpart hcode hn =>
    exact h.extended (.indexed (numberValue n)) (.indexed hne hpart hcode hn) hne
      (fun rest hcode => extendedColor_indexed hcode n rest) hcode (fun _ _ => rfl) fun _ _ => rfl
  | @rgb part r g b hne hpart hcode hr hg hb =>
    exact h.extended (.rgb (numberValue r) (numberValue g) (numberValue b))
      (.rgb hne hpart hcode hr hg hb) hne
      (fun rest hcode => extendedColor_rgb hcode r g b rest) hcode (fun _ _ => rfl) fun _ _ => rfl

lemma Shows.processParts (h : Shows tracker style)
    (hgroups : ∀ group ∈ groups, SgrGroup group) :
    Shows (tracker.processParts groups.flatten)
      (parameters (groups.flatten.map numberValue) style) := by
  induction groups generalizing tracker style with
  | nil =>
    rw [flatten_nil, AnsiCodeTracker.processParts]
    exact h
  | cons group groups ih =>
    obtain ⟨hgroup, hrest⟩ := forall_mem_cons.mp hgroups
    obtain ⟨tracker', style', hshows, htracker, hstyle⟩ := h.exists_group hgroup
    rw [flatten_cons, htracker, map_append, hstyle]
    exact ih hshows hrest

/-! ## Sequences of the tracker -/

section
variable {groups : List (List CodeUnits)} (h : ∀ group ∈ groups, SgrGroup group)
include h

lemma readSequence_sgr (hne : groups ≠ []) (style : Style) :
    readSequence ([ESC, 91] ++ join groups.flatten ++ [109]) style =
      parameters (groups.flatten.map numberValue) style := by
  have hall : (join groups.flatten).all fun c => StdinBuffer.isDigit c || c = 59 :=
    all_eq_true.mpr fun c hc => isDigit_of_mem_join_groups h hc
  have hread : readSequence ([ESC, 91] ++ join groups.flatten ++ [109]) style =
      if (join groups.flatten ++ [109]).getLast? = some 109 &&
          (join groups.flatten ++ [109]).dropLast.all fun c => StdinBuffer.isDigit c || c = 59 then
        style.parameters
          (((join groups.flatten ++ [109]).dropLast.splitOn 59).map numberValue)
      else style := rfl
  rw [hread, getLast?_concat, dropLast_concat, hall, splitOn_join_groups h hne]
  rfl

lemma sgrParams_sgr :
    sgrParams ([ESC, 91] ++ join groups.flatten ++ [109]) = some (join groups.flatten) := by
  have htake : (join groups.flatten ++ [109]).takeWhile (fun c => StdinBuffer.isDigit c || c = 59) =
      join groups.flatten := by
    rw [takeWhile_append_of_pos fun c hc => isDigit_of_mem_join_groups h hc]
    simp [StdinBuffer.isDigit]
  have hparams : sgrParams ([ESC, 91] ++ join groups.flatten ++ [109]) =
      let params :=
        (join groups.flatten ++ [109]).takeWhile fun c => StdinBuffer.isDigit c || c = 59
      if decide (ESC = ESC) && (91 :: (join groups.flatten ++ [109])).head? = some 91 &&
          ((91 :: (join groups.flatten ++ [109])).drop (1 + params.length)).head? = some 109 then
        some params
      else sgrParams (91 :: (join groups.flatten ++ [109])) := rfl
  rw [hparams, htake]
  simp [Nat.add_comm 1]

lemma join_groups_ne_nil (hne : groups ≠ []) : join groups.flatten ≠ [] := by
  intro hempty
  have hflat := splitOn_join_groups h hne
  obtain ⟨group, rest, rfl⟩ := exists_cons_of_ne_nil hne
  have hgroup := h group mem_cons_self
  rw [hempty, splitOn_nil, flatten_cons] at hflat
  cases hgroup with
  | code hpart _ _ | indexed hpart _ _ _ | rgb hpart _ _ _ _ _ =>
    exact hpart (List.cons.inj hflat).1.symm

lemma Shows.process_sgr (hshows : Shows tracker style) (hne : groups ≠ []) :
    Shows (tracker.process ([ESC, 91] ++ join groups.flatten ++ [109]))
      (readSequence ([ESC, 91] ++ join groups.flatten ++ [109]) style) := by
  have hosc : parseOsc8Hyperlink ([ESC, 91] ++ join groups.flatten ++ [109]) = none := by
    rw [parseOsc8Hyperlink, if_pos]
    simp
  have hprocess : tracker.process ([ESC, 91] ++ join groups.flatten ++ [109]) =
      tracker.processParts groups.flatten := by
    rw [AnsiCodeTracker.process, hosc, getLast?_concat, sgrParams_sgr h]
    simp only [ne_eq, not_true_eq_false, if_false, join_groups_ne_nil h hne, decide_false,
      Bool.false_or, decide_eq_true_eq, splitOn_join_groups h hne]
    split_ifs with hzero
    · -- the code 0 on its own
      have hflat := splitOn_join_groups h hne
      rw [hzero] at hflat
      rw [← hflat]
      show tracker.reset = tracker.processParts [[48]]
      rw [processParts_of_none rfl, AnsiCodeTracker.processParts]
      rfl
    · rfl
  rw [hprocess, readSequence_sgr h hne]
  exact hshows.processParts h

end

section
variable {params url : CodeUnits} (terminator : Osc8Terminator) (hparams : 59 ∉ params)
include hparams

lemma parseOsc8Hyperlink_link :
    parseOsc8Hyperlink ([ESC, 93, 56, 59] ++ params ++ 59 :: url ++ terminator.units) =
      some (if url = [] then none else some { params, url, terminator }) := by
  have hterminator : (if ([ESC, 93, 56, 59] ++ params ++ 59 :: url ++
      terminator.units).getLast? = some BEL then Osc8Terminator.bel else .st) = terminator := by
    rw [getLast?_append]
    cases terminator <;> rfl
  have hbody : (([ESC, 93, 56, 59] ++ params ++ 59 :: url ++ terminator.units).take
      (([ESC, 93, 56, 59] ++ params ++ 59 :: url ++ terminator.units).length -
        terminator.units.length)).drop 4 = params ++ 59 :: url := by
    rw [length_append, Nat.add_sub_cancel, take_left]
    rfl
  rw [parseOsc8Hyperlink, if_neg (by simp)]
  simp only [hterminator, hbody, Lines.findIdx?_line hparams, take_left]
  have hurl : (params ++ 59 :: url).drop (params.length + 1) = url := by
    rw [drop_append, drop_eq_nil_of_le (Nat.le_succ _), Nat.add_sub_cancel_left]
    rfl
  rw [hurl]
  split_ifs <;> rfl

lemma readSequence_link (htext : ∀ c ∈ params ++ url, c ≠ BEL ∧ c ≠ ESC ∧ c ≠ 10)
    (style : Style) :
    readSequence ([ESC, 93, 56, 59] ++ params ++ 59 :: url ++ terminator.units) style =
      { style with link := if url = [] then none else some (params, url) } := by
  have htake : (params ++ 59 :: url ++ terminator.units).takeWhile
      (fun c => c ≠ BEL && c ≠ ESC) = params ++ 59 :: url := by
    have hkept : ∀ c ∈ params ++ 59 :: url, (decide (c ≠ BEL) && decide (c ≠ ESC)) = true := by
      intro c hc
      rw [Bool.and_eq_true, decide_eq_true_eq, decide_eq_true_eq]
      simp only [mem_append, mem_cons] at hc
      rcases hc with hc | rfl | hc
      · exact (htext c (mem_append_left _ hc)).imp_right And.left
      · decide
      · exact (htext c (mem_append_right _ hc)).imp_right And.left
    rw [takeWhile_append_of_pos hkept]
    cases terminator <;> simp [Osc8Terminator.units]
  have hread : readSequence ([ESC, 93, 56, 59] ++ params ++ 59 :: url ++ terminator.units) style =
      let text := (params ++ 59 :: url ++ terminator.units).takeWhile fun c => c ≠ BEL && c ≠ ESC
      let url := (text.dropWhile (· ≠ 59)).drop 1
      { style with link := if url = [] then none else some (text.takeWhile (· ≠ 59), url) } := rfl
  have hbefore : ∀ c ∈ params, decide (c ≠ 59) := by
    intro c hc
    rw [decide_eq_true_eq]
    rintro rfl
    exact hparams hc
  rw [hread, htake]
  simp only [dropWhile_append_of_pos hbefore, takeWhile_append_of_pos hbefore]
  simp

end

lemma Shows.process (hshows : Shows tracker style) (h : StyleSequence sequence) :
    Shows (tracker.process sequence) (readSequence sequence style) := by
  cases h with
  | reset => exact hshows.reset
  | sgr hne h => exact hshows.process_sgr h hne
  | @link params url terminator hparams htext =>
    have hlink : Option.Rel IsLink (if url = [] then none else some { params, url, terminator })
        (if url = [] then none else some (params, url)) := by
      split_ifs with hurl
      · exact .none
      · exact .some ⟨rfl, hparams, hurl, htext⟩
    rw [AnsiCodeTracker.process, parseOsc8Hyperlink_link terminator hparams,
      readSequence_link terminator hparams htext]
    exact { hshows with link := hlink }

lemma Shows.updateTrackerFromText (h : Shows tracker style) (hs : Styled p s) :
    Shows (updateTrackerFromText s tracker) (styleAfter style s) := by
  induction hs generalizing tracker style with
  | nil =>
    rw [Amide.updateTrackerFromText, styleAfter_nil]
    exact h
  | char _ hesc _ ih =>
    rw [updateTrackerFromText_char hesc, styleAfter_char hesc]
    exact ih h
  | sequence hseq _ ih =>
    rw [updateTrackerFromText_sequence hseq.ansiSequence, styleAfter_sequence hseq.ansiSequence]
    exact ih (h.process hseq)

/-! ## Active codes -/

/-- The codes are groups of parameters that make one style of another. -/
def Sets (codes : List CodeUnits) (style style' : Style) : Prop :=
  ∃ groups : List (List CodeUnits), (∀ group ∈ groups, SgrGroup group) ∧
    codes = groups.map join ∧
    ∀ rest, parameters (groups.flatten.map numberValue ++ rest) style =
      parameters rest style'

section
variable {codes more : List CodeUnits} {style' style'' : Style} {color? : Option Color}
  {set : Color → Style → Style}

lemma sets_nil (style : Style) : Sets [] style style :=
  ⟨[], fun _ h => absurd h not_mem_nil, rfl, fun _ => rfl⟩

lemma Sets.append (h : Sets codes style style') (hmore : Sets more style' style'') :
    Sets (codes ++ more) style style'' := by
  obtain ⟨groups, hgroups, rfl, hset⟩ := h
  obtain ⟨others, hothers, rfl, hset'⟩ := hmore
  refine ⟨groups ++ others, List.forall_mem_append.mpr ⟨hgroups, hothers⟩,
    map_append.symm, fun rest => ?_⟩
  rw [flatten_append, map_append, append_assoc, hset, hset']

lemma sets_flag {b : Bool} (hgroup : SgrGroup [part]) (hpart : numberValue part = n) (hn : n < 38)
    (hstyle : style' = if b then style.parameter n else style) :
    Sets (if b then [part] else []) style style' := by
  subst hstyle
  cases b with
  | false => exact sets_nil style
  | true =>
    refine ⟨[[part]], forall_mem_singleton.mpr hgroup, ?_, fun rest => ?_⟩
    · simp [join_singleton]
    · rw [flatten_singleton, map_singleton, hpart]
      exact parameters_cons (by omega) (by omega) rest style

lemma sets_color {text? : Option CodeUnits} (h : Option.Rel (SetsColor set) text? color?)
    (hstyle : style' = color?.elim style fun color => set color style) :
    Sets (text?.toList.filter (· ≠ [])) style style' := by
  subst hstyle
  cases h with
  | none => exact sets_nil style
  | some h =>
    obtain ⟨group, hgroup, rfl, hset⟩ := h
    have hne : join group ≠ [] := by
      have hjoin := join_groups_ne_nil (forall_mem_singleton.mpr hgroup) (cons_ne_nil _ _)
      rwa [flatten_singleton] at hjoin
    refine ⟨[group], forall_mem_singleton.mpr hgroup, ?_, fun rest => ?_⟩
    · simp [hne]
    · rw [flatten_singleton]
      exact hset rest style

end

lemma Shows.codes (h : Shows tracker style) :
    Sets tracker.codes {} { style with link := none } := by
  obtain ⟨bold, dim, italic, underline, blink, inverse, hidden, strikethrough, foreground,
    background, link⟩ := style
  have hbold : Sets (if tracker.bold then [[49]] else []) {} { bold } :=
    sets_flag (.code (by simp) rfl rfl) rfl (by decide) (by rw [h.bold]; cases bold <;> rfl)
  have hdim : Sets (if tracker.dim then [[50]] else []) { bold } { bold, dim } :=
    sets_flag (.code (by simp) rfl rfl) rfl (by decide) (by rw [h.dim]; cases dim <;> rfl)
  have hitalic : Sets (if tracker.italic then [[51]] else []) { bold, dim }
      { bold, dim, italic } :=
    sets_flag (.code (by simp) rfl rfl) rfl (by decide) (by rw [h.italic]; cases italic <;> rfl)
  have hunderline : Sets (if tracker.underline then [[52]] else []) { bold, dim, italic }
      { bold, dim, italic, underline } :=
    sets_flag (.code (by simp) rfl rfl) rfl (by decide)
      (by rw [h.underline]; cases underline <;> rfl)
  have hblink : Sets (if tracker.blink then [[53]] else []) { bold, dim, italic, underline }
      { bold, dim, italic, underline, blink } :=
    sets_flag (.code (by simp) rfl rfl) rfl (by decide) (by rw [h.blink]; cases blink <;> rfl)
  have hinverse : Sets (if tracker.inverse then [[55]] else [])
      { bold, dim, italic, underline, blink } { bold, dim, italic, underline, blink, inverse } :=
    sets_flag (.code (by simp) rfl rfl) rfl (by decide) (by rw [h.inverse]; cases inverse <;> rfl)
  have hhidden : Sets (if tracker.hidden then [[56]] else [])
      { bold, dim, italic, underline, blink, inverse }
      { bold, dim, italic, underline, blink, inverse, hidden } :=
    sets_flag (.code (by simp) rfl rfl) rfl (by decide) (by rw [h.hidden]; cases hidden <;> rfl)
  have hstrikethrough : Sets (if tracker.strikethrough then [[57]] else [])
      { bold, dim, italic, underline, blink, inverse, hidden }
      { bold, dim, italic, underline, blink, inverse, hidden, strikethrough } :=
    sets_flag (.code (by simp) rfl rfl) rfl (by decide)
      (by rw [h.strikethrough]; cases strikethrough <;> rfl)
  have hfore : Sets (tracker.fgColor.toList.filter (· ≠ []))
      { bold, dim, italic, underline, blink, inverse, hidden, strikethrough }
      { bold, dim, italic, underline, blink, inverse, hidden, strikethrough, foreground } :=
    sets_color h.foreground (by cases foreground <;> rfl)
  have hback : Sets (tracker.bgColor.toList.filter (· ≠ []))
      { bold, dim, italic, underline, blink, inverse, hidden, strikethrough, foreground }
      { bold, dim, italic, underline, blink, inverse, hidden, strikethrough, foreground,
        background } :=
    sets_color h.background (by cases background <;> rfl)
  have hattributes := hbold.append <| hdim.append <| hitalic.append <| hunderline.append <|
    hblink.append <| hinverse.append <| hhidden.append hstrikethrough
  have hcodes := hattributes.append (hfore.append hback)
  simpa only [AnsiCodeTracker.codes, append_assoc] using hcodes

lemma StyleSequence.codes (h : StyleSequence sequence) : Codes sequence := by
  have hcodes := Styled.sequence (p := fun _ => false) h .nil
  rwa [append_nil] at hcodes

lemma StyleSequence.styleAfter_eq (h : StyleSequence sequence) (style : Style) :
    styleAfter style sequence = readSequence sequence style := by
  have hafter := styleAfter_sequence h.ansiSequence [] style
  rwa [append_nil, styleAfter_nil] at hafter

lemma Sets.sgr {codes : List CodeUnits} {style' : Style} (h : Sets codes style style') :
    Codes (if codes.length > 0 then [ESC, 91] ++ join codes ++ [109] else []) ∧
      styleAfter style (if codes.length > 0 then [ESC, 91] ++ join codes ++ [109] else []) =
        style' := by
  obtain ⟨groups, hgroups, rfl, hset⟩ := h
  have hparameters : parameters (groups.flatten.map numberValue) style = style' := by
    have hset := hset []
    rwa [append_nil, parameters] at hset
  by_cases hne : groups = []
  · subst hne
    rw [if_neg (by simp), styleAfter_nil]
    exact ⟨.nil, hparameters⟩
  · have hseq := StyleSequence.sgr hne hgroups
    rw [if_pos (by simpa [length_pos_iff] using hne),
      join_map_join fun group hgroup => (hgroups group hgroup).ne_nil]
    refine ⟨hseq.codes, ?_⟩
    rw [hseq.styleAfter_eq, readSequence_sgr hgroups hne, hparameters]

section
variable {hyperlink : ActiveHyperlink} {link : CodeUnits × CodeUnits} (h : IsLink hyperlink link)
include h

lemma IsLink.format : StyleSequence (formatOsc8Hyperlink hyperlink) := .link h.params h.text

lemma IsLink.readSequence_format (style : Style) :
    readSequence (formatOsc8Hyperlink hyperlink) style = { style with link := some link } := by
  rw [formatOsc8Hyperlink, readSequence_link _ h.params h.text, if_neg h.url, h.eq]

end

lemma styleSequence_formatOsc8Close (terminator : Osc8Terminator) :
    StyleSequence (formatOsc8Close terminator) :=
  @StyleSequence.link [] [] terminator not_mem_nil fun _ h => absurd h not_mem_nil

/-- The codes of the tracker set up its style from nothing. -/
lemma Shows.getActiveCodes (h : Shows tracker style) :
    Codes tracker.getActiveCodes ∧ styleAfter {} tracker.getActiveCodes = style := by
  obtain ⟨hcodes, hstyle⟩ := h.codes.sgr
  rw [AnsiCodeTracker.getActiveCodes, hcodes.styleAfter_append, hstyle]
  have hlink := h.link
  cases hhyperlink : tracker.activeHyperlink with
  | none =>
    rw [hhyperlink] at hlink
    cases hnone : style.link with
    | none =>
      rw [append_nil, styleAfter_nil, ← hnone]
      exact ⟨hcodes, rfl⟩
    | some link =>
      rw [hnone] at hlink
      cases hlink
  | some hyperlink =>
    rw [hhyperlink] at hlink
    cases hsome : style.link with
    | none =>
      rw [hsome] at hlink
      cases hlink
    | some link =>
      rw [hsome] at hlink
      cases hlink with
      | some hlink =>
        refine ⟨hcodes.append hlink.format.codes, ?_⟩
        rw [hlink.format.styleAfter_eq, hlink.readSequence_format, ← hsome]

/-- What ends a line shows nothing. -/
lemma codes_getLineEndReset (tracker : AnsiCodeTracker) : Codes tracker.getLineEndReset := by
  have hunderline : StyleSequence [ESC, 91, 50, 52, 109] :=
    @StyleSequence.sgr [[[50, 52]]] (cons_ne_nil _ _)
      (forall_mem_singleton.mpr (.code (by simp) rfl rfl))
  refine Styled.append ?_ ?_
  · split_ifs
    · exact hunderline.codes
    · exact .nil
  · cases tracker.activeHyperlink with
    | none => exact .nil
    | some hyperlink => exact (styleSequence_formatOsc8Close hyperlink.terminator).codes

end Amide
