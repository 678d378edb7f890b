import Mathlib.Tactic.IntervalCases
import Amide.Framework.Json

/-!
# Reading back what was written, and rejecting what was cut short

* `Json.parse_stringify`: the parser reads a written value back.
* `Json.parseValue_append`: a value the parser has read stays read when text is added behind it.
* `Json.parse_strictPrefix`: a written object cut short at any byte is not a text of the grammar.
* `Json.le_of_mem_stringify`: a written value contains no control byte, hence no line feed.

The cut-short result needs no grammar argument of its own: were a strict prefix accepted, adding
the missing bytes would leave them unread, while the whole text reads with nothing left.
-/

namespace Json

open List

open NumState (scan)

/-! ## String literals -/

/-- The unit that `escapeByte` writes for a byte. -/
def unitOf (b : UInt8) : StrUnit :=
  if b = 34 ∨ b = 92 ∨ b < 32 then .unit b.toNat else .raw b

variable {n : ℕ}

lemma hexVal_hexDigit (h : n < 16) : hexVal (hexDigit n) = some n := by
  interval_cases n <;> rfl

lemma le_hexDigit (h : n < 16) : 32 ≤ hexDigit n := by
  interval_cases n <;> decide

lemma scanString_escapeByte (b : UInt8) (s : List UInt8) : scanString .plain (escapeByte b ++ s) =
      (scanString .plain s).map fun p => (unitOf b :: p.1, p.2) := by
  unfold escapeByte
  split_ifs with h1 h2 h3 h4 h5 h6 h7 h8
  iterate 7 · subst b; simp [scanString, simpleEscape, unitOf]
  · -- a control byte without a short escape: four hexadecimal digits, the first two zero
    have hb : b.toNat < 32 := UInt8.lt_iff_toNat_lt.mp h8
    have hzero : hexVal 48 = some 0 := rfl
    have hu : simpleEscape 117 = none := rfl
    have hsum : b.toNat / 16 * 16 + b.toNat % 16 = b.toNat := by omega
    simp [scanString, hu, hzero, hexVal_hexDigit (show b.toNat / 16 < 16 by omega),
      hexVal_hexDigit (show b.toNat % 16 < 16 by omega), hsum, unitOf, h8]
  · simp [scanString, unitOf, h1, h2, h8]

lemma scanString_escaped (bs r : List UInt8) :
    scanString .plain (bs.flatMap escapeByte ++ 34 :: r) = some (bs.map unitOf, r) := by
  induction bs with
  | nil => simp [scanString]
  | cons b bs ih =>
    rw [flatMap_cons, append_assoc, scanString_escapeByte, ih]
    rfl

lemma decodeUnits_unitOf (b : UInt8) (us : List StrUnit) :
    decodeUnits (unitOf b :: us) = b :: decodeUnits us := by
  unfold unitOf
  split_ifs with h
  · have hb : b.toNat < 128 := by
      rcases h with rfl | rfl | h
      · decide
      · decide
      · have := UInt8.lt_iff_toNat_lt.mp h
        simp at this
        omega
    have hbytes : codePointBytes b.toNat = [b] := by simp [codePointBytes, hb]
    cases us with
    | nil => simp [decodeUnits, hbytes]
    | cons u us =>
      cases u with
      | raw c => simp [decodeUnits, hbytes]
      | unit lo => simp [decodeUnits, hbytes, show ¬ 55296 ≤ b.toNat by omega]
  · simp [decodeUnits]

lemma decodeUnits_map_unitOf (bs : List UInt8) : decodeUnits (bs.map unitOf) = bs := by
  induction bs with
  | nil => rfl
  | cons b bs ih => rw [map_cons, decodeUnits_unitOf, ih]

lemma parseString_escaped (s : String) (r : List UInt8) :
    parseString ((utf8 s).flatMap escapeByte ++ 34 :: r) = some (s, r) := by
  simp [parseString, scanString_escaped, decodeUnits_map_unitOf]

variable {s r : List UInt8}

lemma scanString_append {st : StrState} {us : List StrUnit} (h : scanString st s = some (us, r))
    (t : List UInt8) : scanString st (s ++ t) = some (us, r ++ t) := by
  fun_induction scanString st s generalizing us <;>
    simp_all [scanString]
  all_goals grind

lemma parseString_append {v : String} (h : parseString s = some (v, r)) (t : List UInt8) :
    parseString (s ++ t) = some (v, r ++ t) := by
  unfold parseString at h ⊢
  obtain ⟨⟨us, r'⟩, hs, hv⟩ := Option.bind_eq_some_iff.mp h
  rw [scanString_append hs t]
  obtain ⟨v', hv', heq⟩ := Option.map_eq_some_iff.mp hv
  cases heq
  simp [hv']

/-! ## Numbers

A literal has no closing byte of its own: it ends where the automaton stops, so what stands
behind it must begin with a byte no state takes. -/

/-- What may stand behind a number literal. -/
def Stops : List UInt8 → Prop
  | [] => True
  | b :: _ => ∀ st, NumState.next st b = none

lemma stops_comma (r : List UInt8) : Stops (44 :: r) := fun st => by cases st <;> rfl
lemma stops_bracket (r : List UInt8) : Stops (93 :: r) := fun st => by cases st <;> rfl
lemma stops_brace (r : List UInt8) : Stops (125 :: r) := fun st => by cases st <;> rfl

lemma NumLit.scan_text (n : NumLit) :
    scan .start n.text = ((scan .start n.text).1, n.text, []) := by
  have hsplit := NumState.taken_append_left .start n.text
  rw [n.whole, append_nil] at hsplit
  exact Prod.ext rfl (Prod.ext hsplit n.whole)

lemma parseNumber_text (n : NumLit) (hr : Stops r) : parseNumber (n.text ++ r) = some (n, r) := by
  have hscan : scan .start (n.text ++ r) = ((scan .start n.text).1, n.text, r) := by
    cases r with
    | nil => rw [append_nil]; exact NumLit.scan_text n
    | cons b t => exact NumState.scan_of_stop _ _ n.whole b (hr _) t
  have hacc := n.accepted
  simp [parseNumber, hscan, hacc]

lemma parseNumber_append {n : NumLit} (h : parseNumber s = some (n, r)) (hr : r ≠ [])
    (t : List UInt8) : parseNumber (s ++ t) = some (n, r ++ t) := by
  unfold parseNumber at h ⊢
  split_ifs at h with hacc
  cases h
  have hscan := NumState.scan_append .start s t hr
  simp only [hscan]
  rw [dif_pos hacc]

/-- A literal begins with a minus sign or a digit. -/
theorem NumLit.text_eq_cons (n : NumLit) :
    ∃ b t, n.text = b :: t ∧ (b = 45 ∨ NumState.isDigit b = true) := by
  cases htext : n.text with
  | nil => exact absurd n.accepted (by simp [htext, scan, NumState.accepting])
  | cons b t =>
    refine ⟨b, t, rfl, ?_⟩
    by_contra hb
    rw [not_or] at hb
    have h48 : b ≠ 48 := by rintro rfl; exact hb.2 rfl
    have hnext : NumState.next .start b = none := by simp [NumState.next, hb, h48]
    exact absurd n.whole (by simp [htext, scan, hnext])

/-! ## Spaces and single bytes -/

lemma takeByte_self (c : UInt8) (r : List UInt8) : takeByte c (c :: r) = some r := by
  simp [takeByte]

variable {b c : UInt8}

lemma takeByte_of_ne (h : b ≠ c) (r : List UInt8) : takeByte c (b :: r) = none := by
  simp [takeByte, h]

lemma takeByte_append (h : takeByte c s = some r) (t : List UInt8) :
    takeByte c (s ++ t) = some (r ++ t) := by
  cases s with
  | nil => simp [takeByte] at h
  | cons b s =>
    simp only [takeByte, cons_append] at h ⊢
    split_ifs at h ⊢
    cases h
    rfl

lemma takeByte_append_none (hs : s ≠ []) (h : takeByte c s = none) (t : List UInt8) :
    takeByte c (s ++ t) = none := by
  cases s with
  | nil => exact absurd rfl hs
  | cons b s =>
    simp only [takeByte, cons_append] at h ⊢
    split_ifs at h ⊢
    rfl

lemma ne_nil_of_takeByte (h : takeByte c s = some r) : s ≠ [] := by
  rintro rfl
  simp [takeByte] at h

lemma expect_append {cs : List UInt8} (h : expect cs s = some r) (t : List UInt8) :
    expect cs (s ++ t) = some (r ++ t) := by
  induction cs generalizing s with
  | nil =>
    simp only [expect, Option.some.injEq] at h ⊢
    rw [h]
  | cons c cs ih =>
    obtain ⟨s', hs', h⟩ := Option.bind_eq_some_iff.mp h
    simp [expect, takeByte_append hs' t, ih h]

lemma skipWs_append (h : skipWs s ≠ []) (t : List UInt8) : skipWs (s ++ t) = skipWs s ++ t := by
  induction s with
  | nil => simp [skipWs] at h
  | cons b s ih =>
    simp only [skipWs, cons_append, dropWhile_cons] at h ⊢
    split_ifs with hb
    · rw [if_pos hb] at h
      exact ih h
    · rfl

lemma skipWs_cons (hb : isWs b = false) (r : List UInt8) : skipWs (b :: r) = b :: r := by
  simp [skipWs, hb]

lemma ne_nil_of_skipWs (h : skipWs s ≠ []) : s ≠ [] := by
  rintro rfl
  exact h rfl

/-- A written value begins with no space, and with a byte that starts its own kind only. -/
theorem stringify_eq_cons (j : Json) : ∃ b t, stringify j = b :: t ∧ isWs b = false ∧
    b ≠ 93 ∧ b ≠ 125 := by
  cases j with
  | null | arr es | obj fs => exact ⟨_, _, by rw [stringify], rfl, by decide, by decide⟩
  | bool b => cases b <;> exact ⟨_, _, by rw [stringify], rfl, by decide, by decide⟩
  | str s => exact ⟨_, _, by rw [stringify, stringifyString], rfl, by decide, by decide⟩
  | num n =>
    obtain ⟨b, t, htext, hb⟩ := NumLit.text_eq_cons n
    refine ⟨b, t, by rw [stringify, htext], ?_, ?_, ?_⟩ <;>
      rcases hb with rfl | hb <;> first | decide | skip
    · simp only [isWs, Bool.or_eq_false_iff, beq_eq_false_iff_ne]
      refine ⟨⟨⟨?_, ?_⟩, ?_⟩, ?_⟩ <;> rintro rfl <;> exact absurd hb (by decide)
    all_goals rintro rfl; exact absurd hb (by decide)

lemma skipWs_stringify (j : Json) (r : List UInt8) :
    skipWs (stringify j ++ r) = stringify j ++ r := by
  obtain ⟨b, t, hj, hb, -, -⟩ := stringify_eq_cons j
  rw [hj, cons_append, skipWs_cons hb]

/-! ## Values

The three parsers call each other with one step of fuel less, so one induction on the fuel
serves them all.  `2 * length` steps are enough: each value costs one step and each element or
member one more, and none is shorter than a byte. -/

lemma length_stringify_pos (j : Json) : 0 < (stringify j).length := by
  obtain ⟨b, t, hj, -⟩ := stringify_eq_cons j
  simp [hj]

lemma stringifyString_append (s : String) (r : List UInt8) :
    stringifyString s ++ r = 34 :: ((utf8 s).flatMap escapeByte ++ 34 :: r) := by
  simp [stringifyString]

/-- With fuel `n` the parser reads back every value that `n` has to be enough for. -/
def ReadsValues (n : ℕ) : Prop := ∀ (j : Json) (r : List UInt8), Stops r →
  2 * (stringify j).length ≤ n → parseValue n (stringify j ++ r) = some (j, r)

def ReadsElems (n : ℕ) : Prop := ∀ (e : Json) (es : List Json) (r : List UInt8),
  2 * (stringifyElems (e :: es)).length + 1 ≤ n →
    parseElems n (stringifyElems (e :: es) ++ 93 :: r) = some (e :: es, r)

def ReadsFields (n : ℕ) : Prop := ∀ (k : String) (v : Json) (fs : List (String × Json))
  (r : List UInt8), 2 * (stringifyFields ((k, v) :: fs)).length + 1 ≤ n →
    parseFields n (stringifyFields ((k, v) :: fs) ++ 125 :: r) = some ((k, v) :: fs, r)

lemma skipWs_stringifyElems (e : Json) (es : List Json) (r : List UInt8) :
    skipWs (stringifyElems (e :: es) ++ r) = stringifyElems (e :: es) ++ r := by
  simp only [stringifyElems, append_assoc, skipWs_stringify]

lemma skipWs_stringifyFields (k : String) (v : Json) (fs : List (String × Json))
    (r : List UInt8) :
    skipWs (stringifyFields ((k, v) :: fs) ++ r) = stringifyFields ((k, v) :: fs) ++ r := by
  exact skipWs_cons rfl _

lemma readsValues_succ (hes : ReadsElems n) (hfs : ReadsFields n) : ReadsValues (n + 1) := by
  intro j r hr hn
  cases j with
  | null => simp [stringify, parseValue, expect, takeByte]
  | bool b => cases b <;> simp [stringify, parseValue, expect, takeByte]
  | str s =>
    rw [stringify, stringifyString_append]
    simp [parseValue, parseString_escaped]
  | num l =>
    obtain ⟨b, t, htext, hb⟩ := NumLit.text_eq_cons l
    have hnum := parseNumber_text l hr
    rw [stringify, htext, cons_append]
    rw [htext, cons_append] at hnum
    have hne : b ≠ 34 ∧ b ≠ 123 ∧ b ≠ 91 ∧ b ≠ 110 ∧ b ≠ 116 ∧ b ≠ 102 := by
      refine ⟨?_, ?_, ?_, ?_, ?_, ?_⟩ <;> rintro rfl <;> revert hb <;> decide
    simp [parseValue, hne, hnum]
  | arr es =>
    cases es with
    | nil => simp [stringify, stringifyElems, parseValue, skipWs, isWs, takeByte]
    | cons e es =>
      have hparse := hes e es r (by
        simp only [stringify, length_cons, length_append, length_nil] at hn; omega)
      have htake : takeByte 93 (stringifyElems (e :: es) ++ 93 :: r) = none := by
        obtain ⟨b, t, he, -, hne, -⟩ := stringify_eq_cons e
        simp only [stringifyElems, he, cons_append]
        exact takeByte_of_ne hne _
      simp [stringify, parseValue, skipWs_stringifyElems, htake, hparse]
  | obj fs =>
    cases fs with
    | nil => simp [stringify, stringifyFields, parseValue, skipWs, isWs, takeByte]
    | cons f fs =>
      obtain ⟨k, v⟩ := f
      have hparse := hfs k v fs r (by
        simp only [stringify, length_cons, length_append, length_nil] at hn; omega)
      have htake : takeByte 125 (stringifyFields ((k, v) :: fs) ++ 125 :: r) = none := by
        exact takeByte_of_ne (by decide) _
      simp [stringify, parseValue, skipWs_stringifyFields, htake, hparse]

lemma readsElems_succ (hvs : ReadsValues n) (hes : ReadsElems n) : ReadsElems (n + 1) := by
  intro e es r hn
  simp only [stringifyElems, length_append] at hn
  cases es with
  | nil =>
    have hval := hvs e (93 :: r) (stops_bracket r) (by omega)
    simp [stringifyElems, stringifyElemsTail, parseElems, hval, skipWs_cons (b := 93) rfl, takeByte]
  | cons e' es' =>
    simp only [stringifyElemsTail, length_cons, length_append] at hn
    have hrest := hes e' es' r (by
      simp only [stringifyElems, length_append]; omega)
    have hval := hvs e (44 :: (stringifyElems (e' :: es') ++ 93 :: r)) (stops_comma _) (by omega)
    have htext : stringifyElems (e :: e' :: es') ++ 93 :: r =
        stringify e ++ 44 :: (stringifyElems (e' :: es') ++ 93 :: r) := by
      simp [stringifyElems, stringifyElemsTail]
    rw [htext, parseElems, hval]
    simp only [skipWs_cons (b := 44) rfl, takeByte_self, skipWs_stringifyElems, hrest,
      Option.map_some]

lemma readsFields_succ (hvs : ReadsValues n) (hfs : ReadsFields n) : ReadsFields (n + 1) := by
  intro k v fs r hn
  simp only [stringifyFields, length_append, length_cons] at hn
  cases fs with
  | nil =>
    have hval := hvs v (125 :: r) (stops_brace r) (by omega)
    simp [stringifyFields, stringifyFieldsTail, parseFields, stringifyString_append,
      parseString_escaped, skipWs_cons (b := 58) rfl, skipWs_stringify, hval,
      skipWs_cons (b := 125) rfl, takeByte]
  | cons f' fs' =>
    obtain ⟨k', v'⟩ := f'
    simp only [stringifyFieldsTail, length_append, length_cons] at hn
    have hrest := hfs k' v' fs' r (by
      simp only [stringifyFields, length_append, length_cons]; omega)
    have hval := hvs v (44 :: (stringifyFields ((k', v') :: fs') ++ 125 :: r)) (stops_comma _)
      (by omega)
    have htext : stringifyFields ((k, v) :: (k', v') :: fs') ++ 125 :: r = 34 ::
        ((utf8 k).flatMap escapeByte ++ 34 :: 58 :: (stringify v ++
          44 :: (stringifyFields ((k', v') :: fs') ++ 125 :: r))) := by
      simp [stringifyFields, stringifyFieldsTail, stringifyString]
    rw [htext, parseFields, takeByte_self, Option.bind_some, parseString_escaped]
    simp only [skipWs_cons (b := 58) rfl, takeByte_self, Option.bind_some, skipWs_stringify, hval,
      skipWs_cons (b := 44) rfl, skipWs_stringifyFields, hrest, Option.map_some]

lemma reads (n : ℕ) : ReadsValues n ∧ ReadsElems n ∧ ReadsFields n := by
  induction n with
  | zero =>
    refine ⟨fun j r _ hn => ?_, fun e es r hn => by omega, fun k v fs r hn => by omega⟩
    have := length_stringify_pos j
    omega
  | succ n ih =>
    obtain ⟨hvs, hes, hfs⟩ := ih
    exact ⟨readsValues_succ hes hfs, readsElems_succ hvs hes, readsFields_succ hvs hfs⟩

/-- **Round trip**: a written value is read back. -/
@[simp] theorem parse_stringify (j : Json) : parse (stringify j) = some j := by
  have hskip : skipWs (stringify j) = stringify j := by simpa using skipWs_stringify j []
  have hval := (reads (2 * (stringify j).length)).1 j [] trivial le_rfl
  rw [append_nil] at hval
  have hnil : skipWs [] = [] := rfl
  simp [parse, hskip, hval, hnil]

/-- The line feed behind a value is passed over. -/
theorem parse_stringify_lf (j : Json) : parse (stringify j ++ [10]) = some j := by
  have hstops : Stops [10] := fun st => by cases st <;> rfl
  have hlen : 2 * (stringify j).length ≤ 2 * (stringify j ++ [10]).length := by
    rw [length_append]
    omega
  have hval := (reads (2 * (stringify j ++ [10]).length)).1 j [10] hstops hlen
  have hlf : skipWs [10] = [] := rfl
  rw [parse, skipWs_stringify, hval]
  simp [hlf]

lemma stringify_injective : Function.Injective stringify := by
  intro a b h
  have hparse := congrArg parse h
  simpa using hparse

instance : DecidableEq Json := fun a b =>
  decidable_of_iff (stringify a = stringify b) stringify_injective.eq_iff

/-! ## Adding text behind a value

A number may go on where its text did; every other value, and a number with something behind it,
is read the same whatever is added. -/

def KeepsValues (n : ℕ) : Prop := ∀ (s : List UInt8) (v : Json) (r : List UInt8),
  parseValue n s = some (v, r) → (r ≠ [] ∨ v.isNum = false) →
    ∀ (m : ℕ) (t : List UInt8), n ≤ m → parseValue m (s ++ t) = some (v, r ++ t)

def KeepsElems (n : ℕ) : Prop := ∀ (s : List UInt8) (vs : List Json) (r : List UInt8),
  parseElems n s = some (vs, r) →
    ∀ (m : ℕ) (t : List UInt8), n ≤ m → parseElems m (s ++ t) = some (vs, r ++ t)

def KeepsFields (n : ℕ) : Prop := ∀ (s : List UInt8) (fs : List (String × Json))
  (r : List UInt8), parseFields n s = some (fs, r) →
    ∀ (m : ℕ) (t : List UInt8), n ≤ m → parseFields m (s ++ t) = some (fs, r ++ t)

lemma skipWs_ne_nil_of_takeByte (h : takeByte c (skipWs s) = some r) :
    skipWs s ≠ [] := ne_nil_of_takeByte h

/-- The test for an empty array or object, with text added behind it. -/
theorem takeByte_skipWs_append (h : takeByte c (skipWs s) = some r) (t : List UInt8) :
    takeByte c (skipWs (s ++ t)) = some (r ++ t) := by
  rw [skipWs_append (skipWs_ne_nil_of_takeByte h), takeByte_append h]

lemma parseElems_nil (n : ℕ) : parseElems n [] = none := by
  cases n with
  | zero => rfl
  | succ n => cases n <;> simp [parseElems, parseValue]

lemma parseFields_nil (n : ℕ) : parseFields n [] = none := by
  cases n <;> simp [parseFields, takeByte]

lemma keepsElems_succ (hvs : KeepsValues n) (hes : KeepsElems n) : KeepsElems (n + 1) := by
  intro s vs r h m t hm
  obtain ⟨m, rfl⟩ : ∃ k, m = k + 1 := ⟨m - 1, by omega⟩
  rw [parseElems] at h ⊢
  cases hv : parseValue n s with
  | none => simp [hv] at h
  | some p =>
    obtain ⟨v, r1⟩ := p
    simp only [hv] at h
    -- a comma or the bracket stands behind the value, so the value cannot go on
    have hne : skipWs r1 ≠ [] := by
      intro h0
      simp [h0, takeByte] at h
    rw [hvs s v r1 hv (.inl (ne_nil_of_skipWs hne)) m t (by omega)]
    simp only [skipWs_append hne]
    cases hc : takeByte 44 (skipWs r1) with
    | none =>
      simp only [hc, Option.map_eq_some_iff] at h
      obtain ⟨r', hr', heq⟩ := h
      cases heq
      simp [takeByte_append_none hne hc, takeByte_append hr']
    | some r' =>
      simp only [hc, Option.map_eq_some_iff] at h
      obtain ⟨⟨ws, r2⟩, hws, heq⟩ := h
      cases heq
      have hne' : skipWs r' ≠ [] := by
        intro h0
        rw [h0, parseElems_nil] at hws
        cases hws
      simp [takeByte_append hc, skipWs_append hne', hes _ _ _ hws m t (by omega)]

lemma keepsFields_succ (hvs : KeepsValues n) (hfs : KeepsFields n) : KeepsFields (n + 1) := by
  intro s fs r h m t hm
  obtain ⟨m, rfl⟩ : ∃ k, m = k + 1 := ⟨m - 1, by omega⟩
  rw [parseFields] at h ⊢
  cases hk : (takeByte 34 s).bind parseString with
  | none => simp [hk] at h
  | some p =>
    obtain ⟨k, r1⟩ := p
    obtain ⟨s1, hs1, hk⟩ := Option.bind_eq_some_iff.mp hk
    simp only [hs1, Option.bind_some, hk] at h
    rw [takeByte_append hs1, Option.bind_some, parseString_append hk]
    cases hv : (takeByte 58 (skipWs r1)).bind fun r' => parseValue n (skipWs r') with
    | none => simp [hv] at h
    | some p =>
      obtain ⟨v, r2⟩ := p
      simp only [hv] at h
      obtain ⟨r1', hcolon, hv⟩ := Option.bind_eq_some_iff.mp hv
      have hne : skipWs r2 ≠ [] := by
        intro h0
        simp [h0, takeByte] at h
      have hne' : skipWs r1' ≠ [] := by
        intro h0
        rw [h0] at hv
        cases n <;> simp [parseValue] at hv
      have hval := hvs _ v r2 hv (.inl (ne_nil_of_skipWs hne)) m t (by omega)
      simp only [takeByte_skipWs_append hcolon, Option.bind_some, skipWs_append hne', hval,
        skipWs_append hne]
      cases hc : takeByte 44 (skipWs r2) with
      | none =>
        simp only [hc, Option.map_eq_some_iff] at h
        obtain ⟨r', hr', heq⟩ := h
        cases heq
        simp [takeByte_append_none hne hc, takeByte_append hr']
      | some r' =>
        simp only [hc, Option.map_eq_some_iff] at h
        obtain ⟨⟨gs, r3⟩, hgs, heq⟩ := h
        cases heq
        have hne'' : skipWs r' ≠ [] := by
          intro h0
          rw [h0, parseFields_nil] at hgs
          cases hgs
        simp [takeByte_append hc, skipWs_append hne'', hfs _ _ _ hgs m t (by omega)]

lemma keepsValues_succ (hes : KeepsElems n) (hfs : KeepsFields n) : KeepsValues (n + 1) := by
  intro s v r h hr m t hm
  obtain ⟨m, rfl⟩ : ∃ k, m = k + 1 := ⟨m - 1, by omega⟩
  cases s with
  | nil => simp [parseValue] at h
  | cons b s =>
    rw [cons_append]
    rw [parseValue] at h ⊢
    split_ifs at h ⊢ with h34 h123 h91 h110 h116 h102
    · obtain ⟨⟨w, r'⟩, hw, heq⟩ := Option.map_eq_some_iff.mp h
      cases heq
      simp [parseString_append hw t]
    · cases hc : takeByte 125 (skipWs s) with
      | some r' =>
        simp only [hc, Option.some.injEq] at h
        cases h
        simp [takeByte_skipWs_append hc]
      | none =>
        simp only [hc, Option.map_eq_some_iff] at h
        obtain ⟨⟨gs, r'⟩, hgs, heq⟩ := h
        cases heq
        have hne : skipWs s ≠ [] := by
          intro h0
          rw [h0, parseFields_nil] at hgs
          cases hgs
        simp [skipWs_append hne, takeByte_append_none hne hc, hfs _ _ _ hgs m t (by omega)]
    · cases hc : takeByte 93 (skipWs s) with
      | some r' =>
        simp only [hc, Option.some.injEq] at h
        cases h
        simp [takeByte_skipWs_append hc]
      | none =>
        simp only [hc, Option.map_eq_some_iff] at h
        obtain ⟨⟨ws, r'⟩, hws, heq⟩ := h
        cases heq
        have hne : skipWs s ≠ [] := by
          intro h0
          rw [h0, parseElems_nil] at hws
          cases hws
        simp [skipWs_append hne, takeByte_append_none hne hc, hes _ _ _ hws m t (by omega)]
    iterate 3
      · obtain ⟨r', hr', heq⟩ := Option.map_eq_some_iff.mp h
        cases heq
        simp [expect_append hr' t]
    · obtain ⟨⟨l, r'⟩, hl, heq⟩ := Option.map_eq_some_iff.mp h
      cases heq
      have hne : r' ≠ [] := by simpa [isNum] using hr
      have happ := parseNumber_append hl hne t
      rw [cons_append] at happ
      simp [happ]

lemma keeps (n : ℕ) : KeepsValues n ∧ KeepsElems n ∧ KeepsFields n := by
  induction n with
  | zero =>
    refine ⟨?_, ?_, ?_⟩
    · intro s v r h
      simp [parseValue] at h
    · intro s v r h
      simp [parseElems] at h
    · intro s v r h
      simp [parseFields] at h
  | succ n ih =>
    obtain ⟨hvs, hes, hfs⟩ := ih
    exact ⟨keepsValues_succ hes hfs, keepsElems_succ hvs hes, keepsFields_succ hvs hfs⟩

variable {v : Json}

lemma parseValue_append {m : ℕ} (h : parseValue n s = some (v, r)) (hv : v.isNum = false)
    (hm : n ≤ m) (t : List UInt8) : parseValue m (s ++ t) = some (v, r ++ t) :=
  (keeps n).1 s v r h (.inr hv) m t hm

lemma isObj_of_parseValue (h : parseValue n (123 :: s) = some (v, r)) : v.isObj = true := by
  cases n with
  | zero => simp [parseValue] at h
  | succ n =>
    rw [parseValue, if_neg (by decide), if_pos rfl] at h
    split at h
    · cases h; rfl
    · obtain ⟨p, -, heq⟩ := Option.map_eq_some_iff.mp h
      cases heq
      rfl

lemma isNum_of_isObj (h : v.isObj = true) : v.isNum = false := by
  cases v <;> simp_all [isObj, isNum]

lemma stringify_of_isObj {j : Json} (hj : j.isObj = true) : ∃ u, stringify j = 123 :: u := by
  cases j with
  | obj fs => exact ⟨_, stringify.eq_def _⟩
  | _ => simp [isObj] at hj

/-- Behind an opening brace only a name or a closing brace is read. -/
theorem parse_brace_brace (r : List UInt8) : parse (123 :: 123 :: r) = none := by
  rw [parse, skipWs_cons (b := 123) rfl]
  suffices h : ∀ n, parseValue n (123 :: 123 :: r) = none by rw [h]
  intro n
  cases n with
  | zero => rfl
  | succ n =>
    cases n <;> rfl

/-- **A written object cut short is rejected**, wherever it is cut. -/
theorem parse_strictPrefix {j : Json} (hj : j.isObj = true) {p : List UInt8}
    (hp : p <+: stringify j) (hne : p ≠ stringify j) : parse p = none := by
  obtain ⟨t, ht⟩ := hp
  obtain ⟨u, hu⟩ := stringify_of_isObj hj
  cases hpars : parse p with
  | none => rfl
  | some v =>
    cases p with
    | nil => simp [parse, skipWs, parseValue] at hpars
    | cons b q =>
      obtain rfl : b = 123 := by
        rw [hu] at ht
        exact (List.cons.inj ht).1
      rw [parse, skipWs_cons (b := 123) rfl] at hpars
      cases hval : parseValue (2 * (123 :: q).length) (123 :: q) with
      | none =>
        rw [hval] at hpars
        cases hpars
      | some w =>
        obtain ⟨w, r⟩ := w
        have hnum := isNum_of_isObj (isObj_of_parseValue hval)
        have hlen : 2 * (123 :: q).length ≤ 2 * (stringify j).length := by
          rw [← ht, length_append]
          omega
        have hlong := parseValue_append hval hnum hlen t
        have hwhole := (reads (2 * (stringify j).length)).1 j [] trivial le_rfl
        rw [append_nil] at hwhole
        rw [ht, hwhole] at hlong
        -- the text added behind `p` would be left over, and nothing is
        have hnil : r ++ t = [] := (congrArg Prod.snd (Option.some.inj hlong)).symm
        rw [append_eq_nil_iff] at hnil
        exact absurd (by rw [← ht, hnil.2, append_nil]) hne

/-! ## No control bytes -/

lemma le_of_mem_escapeByte (h : c ∈ escapeByte b) : 32 ≤ c := by
  unfold escapeByte at h
  split_ifs at h with h1 h2 h3 h4 h5 h6 h7 h8
  iterate 7
    simp only [mem_cons, not_mem_nil, or_false] at h
    rcases h with rfl | rfl <;> decide
  · have hb : b.toNat < 32 := UInt8.lt_iff_toNat_lt.mp h8
    simp only [mem_cons, not_mem_nil, or_false] at h
    rcases h with rfl | rfl | rfl | rfl | rfl | rfl
    iterate 4 decide
    · exact le_hexDigit (by omega)
    · exact le_hexDigit (by omega)
  · simp only [mem_cons, not_mem_nil, or_false] at h
    rw [h]
    exact UInt8.not_lt.mp h8

lemma le_of_mem_stringifyString {s : String} (h : c ∈ stringifyString s) : 32 ≤ c := by
  simp only [stringifyString, mem_cons, mem_append, mem_flatMap, not_mem_nil, or_false] at h
  rcases h with rfl | ⟨b, -, h⟩ | rfl
  · decide
  · exact le_of_mem_escapeByte h
  · decide

lemma NumLit.le_of_mem_text {n : NumLit} (h : c ∈ n.text) : 32 ≤ c := by
  obtain ⟨st, hst⟩ := NumState.next_of_mem_whole n.whole h
  by_contra hc
  have hlt : c < 32 := UInt8.not_le.mp hc
  have hdigit : NumState.isDigit c = false := by
    simp only [NumState.isDigit, Bool.and_eq_false_iff, decide_eq_false_iff_not]
    simp only [UInt8.le_iff_toNat_le, UInt8.lt_iff_toNat_lt] at hlt ⊢
    have h32 : (32 : UInt8).toNat = 32 := rfl
    have h48 : (48 : UInt8).toNat = 48 := rfl
    omega
  have hne : ∀ k : UInt8, 32 ≤ k → c ≠ k := by
    rintro k hk rfl
    exact hc hk
  cases st <;> simp [NumState.next, NumState.isExp, hdigit, hne 45 (by decide),
    hne 48 (by decide), hne 46 (by decide), hne 101 (by decide), hne 69 (by decide),
    hne 43 (by decide)] at hst

mutual

/-- A written value contains no control byte: the ones a string holds are escaped. -/
theorem le_of_mem_stringify (j : Json) (h : c ∈ stringify j) : 32 ≤ c := by
  match j with
  | .null | .bool true | .bool false =>
    simp only [stringify, mem_cons, not_mem_nil, or_false] at h
    rcases h with rfl | rfl | rfl | h <;> first | decide | skip
    all_goals first | (subst h; decide) | (rcases h with rfl | rfl <;> decide)
  | .num n => exact NumLit.le_of_mem_text (by simpa only [stringify] using h)
  | .str s => exact le_of_mem_stringifyString (by simpa only [stringify] using h)
  | .arr es =>
    simp only [stringify, mem_cons, mem_append, not_mem_nil, or_false] at h
    rcases h with rfl | h | rfl
    · decide
    · match es with
      | [] => simp [stringifyElems] at h
      | e :: es =>
        rw [stringifyElems, mem_append] at h
        rcases h with h | h
        · exact le_of_mem_stringify e h
        · exact le_of_mem_stringifyElemsTail es h
    · decide
  | .obj fs =>
    simp only [stringify, mem_cons, mem_append, not_mem_nil, or_false] at h
    rcases h with rfl | h | rfl
    · decide
    · match fs with
      | [] => simp [stringifyFields] at h
      | (k, v) :: fs =>
        rw [stringifyFields, mem_append, mem_cons, mem_append] at h
        rcases h with h | rfl | h | h
        · exact le_of_mem_stringifyString h
        · decide
        · exact le_of_mem_stringify v h
        · exact le_of_mem_stringifyFieldsTail fs h
    · decide

lemma le_of_mem_stringifyElemsTail (es : List Json) (h : c ∈ stringifyElemsTail es) : 32 ≤ c := by
  match es with
  | [] => simp [stringifyElemsTail] at h
  | e :: es =>
    rw [stringifyElemsTail, mem_cons, mem_append] at h
    rcases h with rfl | h | h
    · decide
    · exact le_of_mem_stringify e h
    · exact le_of_mem_stringifyElemsTail es h

lemma le_of_mem_stringifyFieldsTail (fs : List (String × Json)) (h : c ∈ stringifyFieldsTail fs) :
    32 ≤ c := by
  match fs with
  | [] => simp [stringifyFieldsTail] at h
  | (k, v) :: fs =>
    rw [stringifyFieldsTail, mem_cons, mem_append, mem_cons, mem_append] at h
    rcases h with rfl | h | rfl | h | h
    · decide
    · exact le_of_mem_stringifyString h
    · decide
    · exact le_of_mem_stringify v h
    · exact le_of_mem_stringifyFieldsTail fs h

end

lemma lf_notMem_stringify (j : Json) : (10 : UInt8) ∉ stringify j := fun h =>
  absurd (le_of_mem_stringify j h) (by decide)

end Json
