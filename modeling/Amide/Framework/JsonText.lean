import Amide.Framework.JsonRoundTrip

/-!
# JSON texts as strings

What `Json.stringify` writes is UTF-8 (`Json.isUtf8_stringify`): escaping leaves the bytes of a
character above 127 alone, and all that stands outside of strings is ASCII.  So such a text can be
taken for a string (`Json.text`), and different values have different ones (`Json.text_injective`).
-/

namespace Json

open List

/-- The bytes of some characters. -/
def IsUtf8 (bs : List UInt8) : Prop := ∃ cs : List Char, bs = cs.flatMap String.utf8EncodeChar

lemma utf8_eq_flatMap (s : String) : utf8 s = s.toList.flatMap String.utf8EncodeChar := by
  show s.toByteArray.data.toList = _
  rw [← String.utf8Encode_toList, utf8Encode]
  exact data_toByteArray ▸ rfl

variable {bs : List UInt8}

lemma IsUtf8.exists_utf8 (h : IsUtf8 bs) : ∃ s, bs = utf8 s := by
  obtain ⟨cs, rfl⟩ := h
  exact ⟨String.ofList cs, by rw [utf8_eq_flatMap, String.toList_ofList]⟩

lemma IsUtf8.append {as : List UInt8} (ha : IsUtf8 as) (hb : IsUtf8 bs) : IsUtf8 (as ++ bs) := by
  obtain ⟨cs, rfl⟩ := ha
  obtain ⟨ds, rfl⟩ := hb
  exact ⟨cs ++ ds, flatMap_append.symm⟩

/-! ## ASCII -/

lemma utf8EncodeChar_ofNat : ∀ n < 128, String.utf8EncodeChar (Char.ofNat n) = [UInt8.ofNat n] := by
  decide +kernel

lemma isUtf8_of_lt (h : ∀ b ∈ bs, b < 128) : IsUtf8 bs := by
  induction bs with
  | nil => exact ⟨[], rfl⟩
  | cons b bs ih =>
    have hb : IsUtf8 [b] := by
      refine ⟨[Char.ofNat b.toNat], ?_⟩
      have hlt : b.toNat < 128 := h b mem_cons_self
      rw [flatMap_singleton, utf8EncodeChar_ofNat b.toNat hlt, UInt8.ofNat_toNat]
    exact hb.append (ih fun c hc => h c (mem_cons_of_mem _ hc))

/-! ## Escaping -/

lemma lt_of_mem_escapeByte : ∀ n < 128, ∀ b ∈ escapeByte (UInt8.ofNat n), b < 128 := by
  decide +kernel

variable {b : UInt8}

lemma escapeByte_of_le (h : 128 ≤ b) : escapeByte b = [b] := by
  have hne : ∀ n : UInt8, n < 128 → b ≠ n := by
    rintro n hn rfl
    exact absurd h (UInt8.not_le.mpr hn)
  have hlt : ¬b < 32 := UInt8.not_lt.mpr (UInt8.le_trans (by decide) h)
  simp [escapeByte, hne, hlt]

lemma le_of_mem_utf8EncodeChar {c : Char} (hc : ¬c.val.toNat ≤ 127) :
    ∀ b ∈ String.utf8EncodeChar c, 128 ≤ b := by
  have hle : ∀ n, 128 ≤ n → n < 256 → (128 : UInt8) ≤ UInt8.ofNat n := by decide +kernel
  intro b hb
  rw [String.utf8EncodeChar] at hb
  split_ifs at hb
  · simp only [mem_cons, not_mem_nil, or_false] at hb
    rcases hb with rfl | rfl <;> exact hle _ (by omega) (by omega)
  · simp only [mem_cons, not_mem_nil, or_false] at hb
    rcases hb with rfl | rfl | rfl <;> exact hle _ (by omega) (by omega)
  · simp only [mem_cons, not_mem_nil, or_false] at hb
    rcases hb with rfl | rfl | rfl | rfl <;> exact hle _ (by omega) (by omega)

/-- An escaped character is either ASCII or the character itself. -/
lemma isUtf8_escaped (c : Char) : IsUtf8 ((String.utf8EncodeChar c).flatMap escapeByte) := by
  by_cases hc : c.val.toNat ≤ 127
  · have hchar : String.utf8EncodeChar c = [UInt8.ofNat c.val.toNat] := by
      exact if_pos hc
    rw [hchar, flatMap_singleton]
    exact isUtf8_of_lt (lt_of_mem_escapeByte _ (Nat.lt_succ_of_le hc))
  · have hself : (String.utf8EncodeChar c).flatMap escapeByte = String.utf8EncodeChar c := by
      calc (String.utf8EncodeChar c).flatMap escapeByte
          = (String.utf8EncodeChar c).flatMap fun b => [b] :=
            flatMap_congr fun b hb => escapeByte_of_le (le_of_mem_utf8EncodeChar hc b hb)
        _ = String.utf8EncodeChar c := flatMap_singleton' _
    rw [hself]
    exact ⟨[c], (flatMap_singleton ..).symm⟩

lemma isUtf8_stringifyString (s : String) : IsUtf8 (stringifyString s) := by
  have hescaped : ∀ cs : List Char,
      IsUtf8 ((cs.flatMap String.utf8EncodeChar).flatMap escapeByte) := by
    intro cs
    induction cs with
    | nil => exact ⟨[], rfl⟩
    | cons c cs ih =>
      rw [flatMap_cons, flatMap_append]
      exact (isUtf8_escaped c).append ih
  have hquote : IsUtf8 [34] := isUtf8_of_lt (by simp)
  rw [stringifyString, utf8_eq_flatMap]
  exact hquote.append ((hescaped s.toList).append hquote)

lemma NumLit.lt_of_mem_text {n : NumLit} {c : UInt8} (h : c ∈ n.text) : c < 128 := by
  obtain ⟨st, hst⟩ := NumState.next_of_mem_whole n.whole h
  have hall : ∀ st : NumState, ∀ b : Fin 128, NumState.next st (.ofNat (b.val + 128)) = none := by
    intro st
    cases st <;> decide +kernel
  by_contra hlt
  have hle : 128 ≤ c.toNat := UInt8.le_iff_toNat_le.1 (UInt8.not_lt.1 hlt)
  have hc : UInt8.ofNat (c.toNat - 128 + 128) = c := by
    rw [Nat.sub_add_cancel hle, UInt8.ofNat_toNat]
  have hnext := hall st ⟨c.toNat - 128, by have := c.toNat_lt; omega⟩
  rw [hc] at hnext
  exact hst hnext

lemma isUtf8_singleton (h : b < 128) : IsUtf8 [b] := isUtf8_of_lt (by simpa using h)

lemma IsUtf8.cons (hb : b < 128) (h : IsUtf8 bs) :
    IsUtf8 (b :: bs) := (isUtf8_singleton hb).append h

mutual

/-- Every written value is UTF-8. -/
theorem isUtf8_stringify : ∀ j : Json, IsUtf8 j.stringify
  | .null | .bool true | .bool false => isUtf8_of_lt (by simp [stringify])
  | .num _ => isUtf8_of_lt fun _ h => NumLit.lt_of_mem_text h
  | .str s => isUtf8_stringifyString s
  | .arr elems => by
    rw [stringify]
    exact .cons (by decide) ((isUtf8_stringifyElems elems).append (isUtf8_singleton (by decide)))
  | .obj fields => by
    rw [stringify]
    exact .cons (by decide) ((isUtf8_stringifyFields fields).append (isUtf8_singleton (by decide)))

lemma isUtf8_stringifyElems : ∀ elems : List Json, IsUtf8 (stringifyElems elems)
  | [] => ⟨[], rfl⟩
  | elem :: elems => by
    rw [stringifyElems]
    exact (isUtf8_stringify elem).append (isUtf8_stringifyElemsTail elems)

lemma isUtf8_stringifyElemsTail : ∀ elems : List Json, IsUtf8 (stringifyElemsTail elems)
  | [] => ⟨[], rfl⟩
  | elem :: elems => by
    rw [stringifyElemsTail]
    exact .cons (by decide) ((isUtf8_stringify elem).append (isUtf8_stringifyElemsTail elems))

lemma isUtf8_stringifyFields : ∀ fields : List (String × Json), IsUtf8 (stringifyFields fields)
  | [] => ⟨[], rfl⟩
  | (key, value) :: fields => by
    rw [stringifyFields]
    exact (isUtf8_stringifyString key).append
      (.cons (by decide) ((isUtf8_stringify value).append (isUtf8_stringifyFieldsTail fields)))

lemma isUtf8_stringifyFieldsTail :
    ∀ fields : List (String × Json), IsUtf8 (stringifyFieldsTail fields)
  | [] => ⟨[], rfl⟩
  | (key, value) :: fields => by
    rw [stringifyFieldsTail]
    exact .cons (by decide) ((isUtf8_stringifyString key).append
      (.cons (by decide) ((isUtf8_stringify value).append (isUtf8_stringifyFieldsTail fields))))

end

/-! ## Texts -/

/-- The text of a value. -/
def text (j : Json) : String := (ofUtf8? j.stringify).getD ""

lemma utf8_text (j : Json) : utf8 j.text = j.stringify := by
  obtain ⟨s, hs⟩ := (isUtf8_stringify j).exists_utf8
  rw [text, hs, ofUtf8?_utf8, Option.getD_some]

lemma text_injective {j j' : Json} (h : j.text = j'.text) : j = j' := by
  apply stringify_injective
  rw [← utf8_text j, ← utf8_text j', h]

end Json
