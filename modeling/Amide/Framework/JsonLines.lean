import Amide.Framework.LineLog

/-!
# Loading a log of JSON lines

A log is loaded line by line into a state, empty lines and lines that are not JSON passed over.
What a record does to the state is a parameter (`step`), which may throw.  Behind a line boundary
texts count one after the other (`loadText_append`), so one record more is one step more: with its
line feed, without it, and not at all where it was cut short (`loadText_strictPrefix`).
-/

namespace JsonLines

open List

open LineCodec (Terminated)

variable {σ : Type*} (step : σ → Json → Except String σ)

def loadLine (state : σ) (line : List UInt8) : Except String σ :=
  if line = [] then .ok state
  else
    match Json.parse line with
    | none => .ok state
    | some record => step state record

def loadLines : σ → List (List UInt8) → Except String σ
  | state, [] => .ok state
  | state, line :: lines => do
    let state ← loadLine step state line
    loadLines state lines

/-- The lines of a text, loaded on top of a state. -/
def loadText (state : σ) (text : List UInt8) : Except String σ :=
  loadLines step state (text.splitOn 10)

/-- Records written one a line, the last without a line feed of its own. -/
def joinRecords (records : List Json) : List UInt8 := [10].intercalate (records.map Json.stringify)

variable {step} {state after : σ}

lemma loadLines_append (lines lines' : List (List UInt8)) : loadLines step state (lines ++ lines') =
      (loadLines step state lines).bind fun state => loadLines step state lines' := by
  induction lines generalizing state with
  | nil => rfl
  | cons line lines ih =>
    rw [cons_append, loadLines, loadLines]
    cases hline : loadLine step state line with
    | error message => rfl
    | ok loaded => exact ih

lemma loadText_append_lf (s t : List UInt8) : loadText step state (s ++ 10 :: t) =
      (loadText step state s).bind fun state => loadText step state t := by
  rw [loadText, splitOn_append_cons_self, loadLines_append]
  rfl

lemma loadText_append {s : List UInt8} (hs : Terminated s) (t : List UInt8) :
    loadText step state (s ++ t) =
      (loadText step state s).bind fun state => loadText step state t := by
  rcases hs with rfl | ⟨s, rfl⟩
  · rfl
  · rw [append_assoc, singleton_append, loadText_append_lf, loadText_append_lf]
    cases hs : loadText step state s with
    | error message => rfl
    | ok loaded => rfl

lemma loadText_of_notMem {line : List UInt8} (hline : (10 : UInt8) ∉ line) :
    loadText step state line = loadLine step state line := by
  rw [loadText, splitOn_eq_singleton hline, loadLines]
  cases loadLine step state line with
  | error message => rfl
  | ok loaded => rfl

lemma loadText_stringify (record : Json) :
    loadText step state record.stringify = step state record := by
  have hne : record.stringify ≠ [] := ne_nil_of_length_pos (Json.length_stringify_pos record)
  rw [loadText_of_notMem (Json.lf_notMem_stringify record), loadLine, if_neg hne,
    Json.parse_stringify]

lemma loadText_line (record : Json) :
    loadText step state (record.stringify ++ [10]) = step state record := by
  rw [loadText_append_lf, loadText_stringify]
  cases step state record with
  | error message => rfl
  | ok loaded => rfl

variable {part : List UInt8} {record : Json}

/-- A record cut short is passed over. -/
lemma loadText_strictPrefix (hobj : record.isObj = true)
    (hpart : part <+: record.stringify) (hne : part ≠ record.stringify) :
    loadText step state part = .ok state := by
  have hlf : (10 : UInt8) ∉ part := fun h => Json.lf_notMem_stringify record (hpart.subset h)
  rw [loadText_of_notMem hlf, loadLine, Json.parse_strictPrefix hobj hpart hne]
  split_ifs
  · rfl
  · rfl

/-- A record behind the first byte of another is passed over with it. -/
lemma loadText_brace_line (hobj : record.isObj = true) :
    loadText step state (123 :: (record.stringify ++ [10])) = .ok state := by
  obtain ⟨text, htext⟩ := Json.stringify_of_isObj hobj
  have hlf : (10 : UInt8) ∉ 123 :: record.stringify := by simp [Json.lf_notMem_stringify]
  have hparse : Json.parse (123 :: record.stringify) = none := by
    rw [htext]
    exact Json.parse_brace_brace text
  rw [← cons_append, loadText_append_lf, loadText_of_notMem hlf, loadLine,
    if_neg (cons_ne_nil _ _), hparse]
  rfl

/-- Records joined by line feeds are loaded one after the other. -/
lemma loadText_joinRecords (records : List Json) :
    loadText step state (joinRecords records ++ [10]) = records.foldlM step state := by
  induction records generalizing state with
  | nil => rfl
  | cons record records ih =>
    rw [foldlM_cons]
    cases records with
    | nil =>
      rw [joinRecords, map_singleton, intercalate_singleton, loadText_line]
      cases step state record with
      | error message => rfl
      | ok loaded => rfl
    | cons next records =>
      rw [joinRecords, map_cons, map_cons, intercalate_cons_cons,
        append_assoc, append_assoc, singleton_append, loadText_append_lf,
        loadText_stringify]
      cases step state record with
      | error message => rfl
      | ok loaded => exact ih

/-! ## A file and one record more -/

section Append

variable {text : List UInt8} {record : Json}
variable {initial : σ}

section
variable (hload : loadText step initial text = .ok state) (htext : Terminated text)
include hload htext

lemma loadText_append_line (hrec : step state record = .ok after) :
    loadText step initial (text ++ (record.stringify ++ [10])) = .ok after := by
  rw [loadText_append htext, hload, ← hrec]
  exact loadText_line record

lemma loadText_append_whole (hrec : step state record = .ok after) :
    loadText step initial (text ++ record.stringify) = .ok after := by
  rw [loadText_append htext, hload, ← hrec]
  exact loadText_stringify record

lemma loadText_append_cut (hobj : record.isObj = true) (hpart : part <+: record.stringify)
    (hne : part ≠ record.stringify) : loadText step initial (text ++ part) = .ok state := by
  rw [loadText_append htext, hload]
  exact loadText_strictPrefix hobj hpart hne

/-- An interrupted append has done nothing, or all that counts. -/
lemma loadText_append_part (hobj : record.isObj = true) (hrec : step state record = .ok after)
    (hpart : part <+: record.stringify ++ [10]) :
    loadText step initial (text ++ part) = .ok state ∨
      loadText step initial (text ++ part) = .ok after := by
  rcases prefix_concat_iff.mp hpart with rfl | hshort
  · exact .inr (loadText_append_line hload htext hrec)
  · by_cases hwhole : part = record.stringify
    · rw [hwhole]
      exact .inr (loadText_append_whole hload htext hrec)
    · exact .inl (loadText_append_cut hload htext hobj hshort hwhole)

end

end Append

end JsonLines
