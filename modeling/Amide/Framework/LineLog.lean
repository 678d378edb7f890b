import Amide.Framework.JsonCodec

/-!
# Append-only logs of one record a line

A `LineCodec` writes a record as a line without line feeds and reads it back, and its reader
rejects a line cut short.  `LineCodec.read` splits a file at line feeds and keeps the lines that
decode, which is how such a log is loaded when a bad line is skipped in silence.

What a reader gets from a file is compositional at line boundaries only (`read_append`): behind a
file that ends in the middle of a line (`¬ Terminated`), the next record written joins the cut
line.  The lemmas here say what each kind of tail contributes: a record cut short nothing, a whole
record without its line feed that record (`prefix_line_cases`).
-/

/-- A type of records with a one-line form. -/
structure LineCodec (α : Type) where
  encode : α → List UInt8
  decode : List UInt8 → Option α
  decode_encode : ∀ a, decode (encode a) = some a
  decode_nil : decode [] = none
  lf_notMem_encode : ∀ a, (10 : UInt8) ∉ encode a
  decode_cut : ∀ a p, p <+: encode a → p ≠ encode a → decode p = none

/-- Records written as JSON objects. -/
def LineCodec.json (α : Type) [JsonCodec α] (hobj : ∀ a : α, (toJson a).isObj = true) :
    LineCodec α where
  encode a := (toJson a).stringify
  decode line := (Json.parse line).bind ofJson
  decode_encode a := by simp
  decode_nil := rfl
  lf_notMem_encode a := Json.lf_notMem_stringify _
  decode_cut a p hp hne := by rw [Json.parse_strictPrefix (hobj a) hp hne, Option.bind_none]

namespace LineCodec

open List

variable {α : Type} (c : LineCodec α)

/-- The records of a file, lines that do not decode skipped. -/
def read (s : List UInt8) : List α := (s.splitOn 10).filterMap c.decode

/-- What appending one record writes. -/
def line (a : α) : List UInt8 := c.encode a ++ [10]

/-- A file of whole lines. -/
def write (as : List α) : List UInt8 := as.flatMap c.line

/-- The file ends at a line boundary. -/
def Terminated (s : List UInt8) : Prop := s = [] ∨ ∃ s', s = s' ++ [10]

@[simp] lemma write_nil : c.write [] = [] := rfl

@[simp] lemma write_cons (a : α) (as : List α) : c.write (a :: as) = c.line a ++ c.write as := rfl

@[simp] lemma write_append (as bs : List α) : c.write (as ++ bs) = c.write as ++ c.write bs :=
  flatMap_append

lemma read_nil : c.read [] = [] := by
  simp [read, c.decode_nil]

lemma read_append_lf (s t : List UInt8) : c.read (s ++ 10 :: t) = c.read s ++ c.read t := by
  simp [read, splitOn_append_cons_self]

lemma terminated_append_lf (s : List UInt8) : Terminated (s ++ [10]) := .inr ⟨s, rfl⟩

lemma terminated_line (a : α) : Terminated (c.line a) := terminated_append_lf _

lemma terminated_append {s t : List UInt8} (hs : Terminated s) (ht : Terminated t) :
    Terminated (s ++ t) := by
  rcases ht with rfl | ⟨t', rfl⟩
  · rwa [append_nil]
  · rw [← append_assoc]
    exact terminated_append_lf _

lemma terminated_write (as : List α) : Terminated (c.write as) := by
  induction as with
  | nil => exact .inl rfl
  | cons a as ih => exact terminated_append (c.terminated_line a) ih

/-- At a line boundary reading is compositional. -/
theorem read_append {s : List UInt8} (hs : Terminated s) (t : List UInt8) :
    c.read (s ++ t) = c.read s ++ c.read t := by
  rcases hs with rfl | ⟨s', rfl⟩
  · rw [read_nil, nil_append, nil_append]
  · rw [append_assoc, singleton_append, read_append_lf, read_append_lf, read_nil, append_nil]

/-- A text without line feeds is one line. -/
theorem read_of_notMem {s : List UInt8} (hs : (10 : UInt8) ∉ s) :
    c.read s = (c.decode s).toList := by
  rw [read, splitOn_eq_singleton hs]
  cases h : c.decode s <;> simp [h]

@[simp] lemma read_encode (a : α) : c.read (c.encode a) = [a] := by
  rw [c.read_of_notMem (c.lf_notMem_encode a), c.decode_encode]
  rfl

@[simp] lemma read_line (a : α) : c.read (c.line a) = [a] := by
  rw [line, read_append_lf, read_encode, read_nil, append_nil]

/-- **Round trip**: the records of a file of whole lines are the records written. -/
@[simp] theorem read_write (as : List α) : c.read (c.write as) = as := by
  induction as with
  | nil => exact c.read_nil
  | cons a as ih =>
    rw [write_cons, c.read_append (c.terminated_line a), ih, read_line, singleton_append]

lemma read_write_append (as : List α) (t : List UInt8) :
    c.read (c.write as ++ t) = as ++ c.read t := by
  rw [c.read_append (c.terminated_write as), c.read_write]

/-- An object appended behind the first byte of another is lost with it. -/
theorem read_brace_line [JsonCodec α] (hobj : ∀ a : α, (toJson a).isObj = true) (a : α) :
    (LineCodec.json α hobj).read (123 :: (LineCodec.json α hobj).line a) = [] := by
  obtain ⟨u, hu⟩ := Json.stringify_of_isObj (hobj a)
  have hlf : (10 : UInt8) ∉ 123 :: Json.stringify (toJson a) := by
    simp [Json.lf_notMem_stringify]
  have hsplit : 123 :: (LineCodec.json α hobj).line a =
      (123 :: Json.stringify (toJson a)) ++ 10 :: [] := rfl
  have hdecode : (LineCodec.json α hobj).decode (123 :: Json.stringify (toJson a)) = none := by
    simp [LineCodec.json, hu, Json.parse_brace_brace]
  rw [hsplit, read_append_lf, read_nil, append_nil, read_of_notMem _ hlf, hdecode]
  rfl

lemma brace_prefix_encode [JsonCodec α] (hobj : ∀ a : α, (toJson a).isObj = true) (a : α) :
    [123] <+: (LineCodec.json α hobj).encode a := by
  obtain ⟨u, hu⟩ := Json.stringify_of_isObj (hobj a)
  exact ⟨u, hu.symm⟩

/-- What an interrupted append of one record leaves: nothing the reader sees, the record without
its line feed, or the whole line. -/
theorem prefix_line_cases {a : α} {p : List UInt8} (hp : p <+: c.line a) :
    (p <+: c.encode a ∧ p ≠ c.encode a) ∨ p = c.encode a ∨ p = c.line a := by
  rcases prefix_concat_iff.mp hp with h | h
  · exact .inr (.inr h)
  · by_cases hne : p = c.encode a
    · exact .inr (.inl hne)
    · exact .inl ⟨h, hne⟩

/-- What an interrupted append of several records leaves: some of the lines whole and the next
one, if any, without its line feed or shorter. -/
theorem prefix_write_cases {as : List α} {p : List UInt8} (hp : p <+: c.write as) :
    ∃ bs tail, p = c.write bs ++ tail ∧
      ((bs = as ∧ tail = []) ∨ ∃ a rest, as = bs ++ a :: rest ∧ tail <+: c.encode a) := by
  induction as generalizing p with
  | nil =>
    rw [write_nil, prefix_nil] at hp
    exact ⟨[], [], hp, .inl ⟨rfl, rfl⟩⟩
  | cons a as ih =>
    rw [write_cons] at hp
    rcases prefix_or_prefix_of_prefix hp (prefix_append (c.line a) (c.write as)) with
      hshort | ⟨q, rfl⟩
    · rcases prefix_concat_iff.mp hshort with rfl | hcut
      · rcases as with _ | ⟨b, as⟩
        · exact ⟨[a], [], by simp [line], .inl ⟨rfl, rfl⟩⟩
        · exact ⟨[a], [], by simp [line], .inr ⟨b, as, rfl, nil_prefix⟩⟩
      · exact ⟨[], p, rfl, .inr ⟨a, as, rfl, hcut⟩⟩
    · rw [prefix_append_right_inj] at hp
      obtain ⟨bs, tail, rfl, h⟩ := ih hp
      refine ⟨a :: bs, tail, by rw [write_cons, append_assoc], ?_⟩
      rcases h with ⟨rfl, rfl⟩ | ⟨b, rest, rfl, htail⟩
      · exact .inl ⟨rfl, rfl⟩
      · exact .inr ⟨b, rest, rfl, htail⟩

end LineCodec
