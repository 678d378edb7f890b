import Mathlib.Data.List.Basic

/-!
# The grammar of JSON texts

The texts of JSON as lists of UTF-16 code units, one constructor for a production.  Nothing is said
of what a text means, so that a literal may name a lone surrogate and a member may be repeated.
Outside of its literals a text has no quotes (`Derives.pieces`).
-/

namespace JsonGrammar

/-- A text in UTF-16 code units. -/
abbrev Text := List UInt16

def isDigit (c : UInt16) : Bool := 48 ≤ c && c ≤ 57

def isHexDigit (c : UInt16) : Bool := isDigit c || (97 ≤ c && c ≤ 102) || (65 ≤ c && c ≤ 70)

def isSpace (c : UInt16) : Bool := c = 9 || c = 10 || c = 13 || c = 32

/-- The characters that stand behind a backslash, apart from `u`. -/
def isEscaped (c : UInt16) : Bool :=
  c = 34 || c = 92 || c = 47 || c = 98 || c = 102 || c = 110 || c = 114 || c = 116

/-! ## Numbers -/

def IsDigits (s : Text) : Prop := s ≠ [] ∧ s.all isDigit

inductive Integer : Text → Prop
  | zero : Integer [48]
  | digits {s : Text} (h : IsDigits s) (hzero : s.head? ≠ some 48) : Integer s

inductive Fraction : Text → Prop
  | none : Fraction []
  | digits {s : Text} (h : IsDigits s) : Fraction (46 :: s)

inductive Exponent : Text → Prop
  | none : Exponent []
  | digits {mark : UInt16} {sign s : Text} (hmark : mark ∈ [69, 101])
      (hsign : sign ∈ [[], [43], [45]]) (h : IsDigits s) : Exponent (mark :: sign ++ s)

inductive Number : Text → Prop
  | mk {sign integer fraction exponent : Text} (hsign : sign ∈ [[], [45]])
      (hinteger : Integer integer) (hfraction : Fraction fraction) (hexponent : Exponent exponent) :
      Number (sign ++ integer ++ fraction ++ exponent)

/-! ## Literals -/

/-- What stands between the quotes. -/
inductive Characters : Text → Prop
  | nil : Characters []
  | plain {c : UInt16} {s : Text} (hcontrol : 31 < c) (hquote : c ≠ 34) (hbackslash : c ≠ 92)
      (h : Characters s) : Characters (c :: s)
  | escape {c : UInt16} {s : Text} (hescaped : isEscaped c) (h : Characters s) :
      Characters (92 :: c :: s)
  | unicode {digits s : Text} (hlength : digits.length = 4) (hhex : digits.all isHexDigit)
      (h : Characters s) : Characters (92 :: 117 :: digits ++ s)

inductive Literal : Text → Prop
  | mk {s : Text} (h : Characters s) : Literal (34 :: s ++ [34])

/-! ## Values -/

inductive Symbol
  | value
  | element
  | elements
  | member
  | members

/-- The texts that a symbol derives. -/
inductive Derives : Symbol → Text → Prop
  | null : Derives .value [110, 117, 108, 108]
  | true : Derives .value [116, 114, 117, 101]
  | false : Derives .value [102, 97, 108, 115, 101]
  | number {s : Text} (h : Number s) : Derives .value s
  | literal {s : Text} (h : Literal s) : Derives .value s
  | emptyArray {s : Text} (h : s.all isSpace) : Derives .value (91 :: s ++ [93])
  | array {s : Text} (h : Derives .elements s) : Derives .value (91 :: s ++ [93])
  | emptyObject {s : Text} (h : s.all isSpace) : Derives .value (123 :: s ++ [125])
  | object {s : Text} (h : Derives .members s) : Derives .value (123 :: s ++ [125])
  | element {before s after : Text} (hbefore : before.all isSpace) (h : Derives .value s)
      (hafter : after.all isSpace) : Derives .element (before ++ s ++ after)
  | lastElement {s : Text} (h : Derives .element s) : Derives .elements s
  | elements {s t : Text} (h : Derives .element s) (hrest : Derives .elements t) :
      Derives .elements (s ++ 44 :: t)
  | member {before s after t : Text} (hbefore : before.all isSpace) (hkey : Literal s)
      (hafter : after.all isSpace) (hvalue : Derives .element t) :
      Derives .member (before ++ s ++ after ++ 58 :: t)
  | lastMember {s : Text} (h : Derives .member s) : Derives .members s
  | members {s t : Text} (h : Derives .member s) (hrest : Derives .members t) :
      Derives .members (s ++ 44 :: t)

/-- A JSON text. -/
def IsJson (s : Text) : Prop := Derives .element s

/-! ## What stands outside of literals -/

variable {s t : Text}

/-- Literals with other characters around them. -/
inductive Pieces : Text → Prop
  | nil : Pieces []
  | other {c : UInt16} {s : Text} (hquote : c ≠ 34) (h : Pieces s) : Pieces (c :: s)
  | literal {s t : Text} (hs : Characters s) (h : Pieces t) : Pieces (34 :: s ++ 34 :: t)

lemma Pieces.append (hs : Pieces s) (ht : Pieces t) : Pieces (s ++ t) := by
  induction hs with
  | nil => exact ht
  | other hquote _ ih => exact .other hquote ih
  | literal hchars _ ih =>
    rw [List.append_assoc]
    exact .literal hchars ih

lemma Pieces.of_forall_ne (h : ∀ c ∈ s, c ≠ 34) : Pieces s := by
  induction s with
  | nil => exact .nil
  | cons c s ih =>
    obtain ⟨hc, hs⟩ := List.forall_mem_cons.mp h
    exact .other hc (ih hs)

lemma Pieces.singleton {c : UInt16} (h : c ≠ 34) : Pieces [c] := .other h .nil

lemma Pieces.of_all {p : UInt16 → Bool} (h : s.all p) (hquote : p 34 = false) : Pieces s := by
  refine .of_forall_ne fun c hc heq => ?_
  rw [heq] at hc
  exact Bool.false_ne_true (hquote ▸ List.all_eq_true.mp h 34 hc)

lemma IsDigits.pieces (h : IsDigits s) : Pieces s := .of_all h.2 rfl

lemma pieces_sign {sign : Text} (h : sign ∈ [[], [43], [45]]) : Pieces sign := by
  have hsigns : ∀ sign ∈ [[], [43], [45]], ∀ c ∈ sign, c ≠ (34 : UInt16) := by simp
  exact .of_forall_ne (hsigns sign h)

lemma Number.pieces (h : Number s) : Pieces s := by
  cases h with
  | mk hsign hinteger hfraction hexponent =>
    have hminus : [[], [45]] ⊆ [[], [43], [(45 : UInt16)]] := by simp
    refine ((Pieces.append (pieces_sign (hminus hsign)) ?_).append ?_).append ?_
    · cases hinteger with
      | zero => exact .of_forall_ne (by simp)
      | digits h _ => exact h.pieces
    · cases hfraction with
      | none => exact .nil
      | digits h => exact .other (by decide) h.pieces
    · cases hexponent with
      | none => exact .nil
      | digits hmark hsign h =>
        refine .other ?_ ((pieces_sign hsign).append h.pieces)
        rintro rfl
        exact absurd hmark (by decide)

lemma Literal.pieces (h : Literal s) : Pieces s := by
  cases h with
  | mk h => exact .literal h .nil

lemma Derives.pieces {symbol : Symbol} (h : Derives symbol s) : Pieces s := by
  induction h with
  | null | true | false => exact .of_forall_ne (by simp)
  | number h | literal h => exact h.pieces
  | emptyArray h | emptyObject h =>
    exact .other (by decide) ((Pieces.of_all h rfl).append (.singleton (by decide)))
  | array _ ih | object _ ih => exact .other (by decide) (ih.append (.singleton (by decide)))
  | element hbefore _ hafter ih =>
    exact ((Pieces.of_all hbefore rfl).append ih).append (.of_all hafter rfl)
  | lastElement _ ih => exact ih
  | elements _ _ ih ihrest | members _ _ ih ihrest => exact ih.append (.other (by decide) ihrest)
  | member hbefore hkey hafter _ ih =>
    exact (((Pieces.of_all hbefore rfl).append hkey.pieces).append (.of_all hafter rfl)).append
      (.other (by decide) ih)
  | lastMember _ ih => exact ih

end JsonGrammar
