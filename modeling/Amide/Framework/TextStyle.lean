import Mathlib.Data.Nat.Basic
import Mathlib.Tactic.Common

/-!
# Styles of text

What a terminal does to the style of the text that follows when it gets the parameters of a Select
Graphic Rendition sequence.  Parameters without a meaning are ignored, and 21 is read as some
terminals do, as the end of bold.
-/

inductive Color
  | palette (n : ℕ)
  | indexed (n : ℕ)
  | rgb (r g b : ℕ)

structure TextStyle (Link : Type*) where
  bold : Bool := false
  dim : Bool := false
  italic : Bool := false
  underline : Bool := false
  blink : Bool := false
  inverse : Bool := false
  hidden : Bool := false
  strikethrough : Bool := false
  foreground : Option Color := none
  background : Option Color := none
  link : Option Link := none

namespace TextStyle

variable {Link : Type*}

/-- A parameter on its own. -/
def parameter (n : ℕ) (style : TextStyle Link) : TextStyle Link :=
  match n with
  | 0 => { link := style.link }
  | 1 => { style with bold := true }
  | 2 => { style with dim := true }
  | 3 => { style with italic := true }
  | 4 => { style with underline := true }
  | 5 => { style with blink := true }
  | 7 => { style with inverse := true }
  | 8 => { style with hidden := true }
  | 9 => { style with strikethrough := true }
  | 21 => { style with bold := false }
  | 22 => { style with bold := false, dim := false }
  | 23 => { style with italic := false }
  | 24 => { style with underline := false }
  | 25 => { style with blink := false }
  | 27 => { style with inverse := false }
  | 28 => { style with hidden := false }
  | 29 => { style with strikethrough := false }
  | 39 => { style with foreground := none }
  | 49 => { style with background := none }
  | n =>
    if 30 ≤ n ∧ n ≤ 37 then { style with foreground := some (.palette (n - 30)) }
    else if 90 ≤ n ∧ n ≤ 97 then { style with foreground := some (.palette (n - 82)) }
    else if 40 ≤ n ∧ n ≤ 47 then { style with background := some (.palette (n - 40)) }
    else if 100 ≤ n ∧ n ≤ 107 then { style with background := some (.palette (n - 92)) }
    else style

section
variable {n : ℕ} (style : TextStyle Link)

lemma parameter_foreground (h : 30 ≤ n ∧ n ≤ 37) :
    style.parameter n = { style with foreground := some (.palette (n - 30)) } := by
  unfold parameter
  split <;> first | omega | skip
  rw [if_pos h]

lemma parameter_brightForeground (h : 90 ≤ n ∧ n ≤ 97) :
    style.parameter n = { style with foreground := some (.palette (n - 82)) } := by
  unfold parameter
  split <;> first | omega | skip
  rw [if_neg (by omega), if_pos h]

lemma parameter_background (h : 40 ≤ n ∧ n ≤ 47) :
    style.parameter n = { style with background := some (.palette (n - 40)) } := by
  unfold parameter
  split <;> first | omega | skip
  rw [if_neg (by omega), if_neg (by omega), if_pos h]

lemma parameter_brightBackground (h : 100 ≤ n ∧ n ≤ 107) :
    style.parameter n = { style with background := some (.palette (n - 92)) } := by
  unfold parameter
  split <;> first | omega | skip
  rw [if_neg (by omega), if_neg (by omega), if_neg (by omega), if_pos h]

end

def parameters : List ℕ → TextStyle Link → TextStyle Link
  | [], style => style
  | 38 :: 5 :: n :: rest, style =>
    parameters rest { style with foreground := some (.indexed n) }
  | 38 :: 2 :: r :: g :: b :: rest, style =>
    parameters rest { style with foreground := some (.rgb r g b) }
  | 48 :: 5 :: n :: rest, style =>
    parameters rest { style with background := some (.indexed n) }
  | 48 :: 2 :: r :: g :: b :: rest, style =>
    parameters rest { style with background := some (.rgb r g b) }
  | n :: rest, style => parameters rest (style.parameter n)

lemma parameters_cons {n : ℕ} (hfore : n ≠ 38) (hback : n ≠ 48) (rest : List ℕ)
    (style : TextStyle Link) :
    parameters (n :: rest) style = parameters rest (style.parameter n) := by
  rw [parameters.eq_def]
  split <;> simp_all

end TextStyle
