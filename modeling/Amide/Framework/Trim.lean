import Mathlib.Data.List.DropRight
import Amide.Framework.JsonRoundTrip

/-!
# Trimming a UTF-8 text

`trim` removes the white space and line terminators of ECMAScript from both ends of a text given
by its bytes.  Every such character is one byte below 128 or begins with a byte that continues no
other character, so the bytes of a text end in one of the sequences of `whitespace` exactly when
the decoded text ends in that character, also where the bytes are not UTF-8 elsewhere.

The facts used of it: a text without white space at its ends, such as a written JSON value, is
left alone (`trim_of_ends`, `trim_stringify`), and one that begins with a byte of no white space
keeps that byte (`prefix_trim_cons`).  Of a text given by its characters `Chars.trim` removes the
same.
-/

namespace Chars

/-- White space and line terminators. -/
def isSpace (c : Char) : Bool :=
  let n := c.toNat
  (9 ≤ n && n ≤ 13) || n = 32 || n = 160 || n = 0x1680 || (0x2000 ≤ n && n ≤ 0x200A) ||
    n = 0x2028 || n = 0x2029 || n = 0x202F || n = 0x205F || n = 0x3000 || n = 0xFEFF

def trim (text : List Char) : List Char := (text.dropWhile isSpace).rdropWhile isSpace

end Chars

namespace Utf8

/-- The characters `trim` removes. -/
def whitespace : List (List UInt8) :=
  [[9], [10], [11], [12], [13], [32], [0xC2, 0xA0], [0xE1, 0x9A, 0x80],
    [0xE2, 0x80, 0x80], [0xE2, 0x80, 0x81], [0xE2, 0x80, 0x82], [0xE2, 0x80, 0x83],
    [0xE2, 0x80, 0x84], [0xE2, 0x80, 0x85], [0xE2, 0x80, 0x86], [0xE2, 0x80, 0x87],
    [0xE2, 0x80, 0x88], [0xE2, 0x80, 0x89], [0xE2, 0x80, 0x8A], [0xE2, 0x80, 0xA8],
    [0xE2, 0x80, 0xA9], [0xE2, 0x80, 0xAF], [0xE2, 0x81, 0x9F], [0xE3, 0x80, 0x80],
    [0xEF, 0xBB, 0xBF]]

/-- Drops `k` bytes, then as many of the sequences `ws` as the rest begins with. -/
def trimFront (ws : List (List UInt8)) : ℕ → List UInt8 → List UInt8
  | _, [] => []
  | k + 1, _ :: s => trimFront ws k s
  | 0, b :: s =>
    match ws.find? fun w => w.isPrefixOf (b :: s) with
    | none => b :: s
    | some w => trimFront ws (w.length - 1) s

def trimStart (s : List UInt8) : List UInt8 := trimFront whitespace 0 s

def trimEnd (s : List UInt8) : List UInt8 :=
  (trimFront (whitespace.map List.reverse) 0 s.reverse).reverse

def trim (s : List UInt8) : List UInt8 := trimEnd (trimStart s)

@[simp] lemma trim_nil : trim [] = [] := rfl

variable {b : UInt8} {s : List UInt8}

section TrimFront

variable {ws : List (List UInt8)}

lemma trimFront_suffix (k : ℕ) (s : List UInt8) : trimFront ws k s <:+ s := by
  induction s generalizing k with
  | nil => cases k <;> exact List.suffix_refl _
  | cons b s ih =>
    cases k with
    | succ k => exact (ih k).trans (List.suffix_cons b s)
    | zero =>
      rw [trimFront]
      cases ws.find? fun w => w.isPrefixOf (b :: s) with
      | none => exact List.suffix_refl _
      | some w => exact (ih _).trans (List.suffix_cons b s)

/-- Nothing is dropped in front of a byte no sequence holds. -/
theorem trimFront_cons (hb : ∀ w ∈ ws, w ≠ [] ∧ b ∉ w) (s : List UInt8) :
    trimFront ws 0 (b :: s) = b :: s := by
  have hnone : (ws.find? fun w => w.isPrefixOf (b :: s)) = none := by
    rw [List.find?_eq_none]
    rintro w hw hprefix
    obtain ⟨hne, hmem⟩ := hb w hw
    obtain ⟨c, cs, rfl⟩ := List.exists_cons_of_ne_nil hne
    have hc := (List.cons_prefix_cons.mp (List.isPrefixOf_iff_prefix.mp hprefix)).1
    exact hmem (hc ▸ List.mem_cons_self)
  rw [trimFront, hnone]

lemma mem_trimFront (hb : ∀ w ∈ ws, w ≠ [] ∧ b ∉ w) {k : ℕ} (h : b ∈ s.drop k) :
    b ∈ trimFront ws k s := by
  induction s generalizing k with
  | nil => simp at h
  | cons c s ih =>
    cases k with
    | succ k => exact ih h
    | zero =>
      rw [trimFront]
      cases hfind : ws.find? fun w => w.isPrefixOf (c :: s) with
      | none => exact h
      | some w =>
        -- the bytes dropped are those of `w`, and `b` is none of them
        obtain ⟨hne, hmem⟩ := hb w (List.mem_of_find?_eq_some hfind)
        have hfound := List.find?_some hfind
        obtain ⟨u, hu⟩ := List.isPrefixOf_iff_prefix.mp hfound
        obtain ⟨d, ds, rfl⟩ := List.exists_cons_of_ne_nil hne
        obtain ⟨rfl, rfl⟩ := List.cons.inj hu
        have hu' : b ∈ u := by
          rcases List.mem_append.mp (show b ∈ (d :: ds) ++ u from h) with hd | hu
          · exact absurd hd hmem
          · exact hu
        apply ih
        simpa using hu'

end TrimFront

/-- The byte is part of no white space. -/
def isSolid (b : UInt8) : Bool := whitespace.all fun w => b ∉ w

lemma whitespace_ne_nil : ∀ w ∈ whitespace, w ≠ [] := by decide

section
variable (hb : isSolid b = true)
include hb

lemma notMem_of_isSolid : ∀ w ∈ whitespace, w ≠ [] ∧ b ∉ w := fun w hw =>
  ⟨whitespace_ne_nil w hw, by simpa using List.all_eq_true.mp hb w hw⟩

lemma notMem_reverse_of_isSolid : ∀ w ∈ whitespace.map List.reverse, w ≠ [] ∧ b ∉ w := by
  intro w hw
  obtain ⟨v, hv, rfl⟩ := List.mem_map.mp hw
  obtain ⟨hne, hmem⟩ := notMem_of_isSolid hb v hv
  exact ⟨by simpa using hne, by simpa using hmem⟩

lemma trimStart_cons (s : List UInt8) : trimStart (b :: s) = b :: s :=
  trimFront_cons (notMem_of_isSolid hb) s

lemma trimEnd_concat (s : List UInt8) : trimEnd (s ++ [b]) = s ++ [b] := by
  rw [trimEnd, List.reverse_concat', trimFront_cons (notMem_reverse_of_isSolid hb)]
  simp

end

lemma prefix_trimEnd (s : List UInt8) : trimEnd s <+: s := by
  have h := List.reverse_prefix.mpr
    (@trimFront_suffix (whitespace.map List.reverse) 0 s.reverse)
  rwa [List.reverse_reverse] at h

lemma mem_trimEnd (hb : isSolid b = true) (h : b ∈ s) : b ∈ trimEnd s := by
  rw [trimEnd, List.mem_reverse]
  exact mem_trimFront (notMem_reverse_of_isSolid hb) (by simpa using h)

/-- A text that begins and ends with bytes of no white space is left as it is. -/
theorem trim_of_ends {c : UInt8} (hb : isSolid b = true) (hc : isSolid c = true) {t u : List UInt8}
    (hs : s = b :: t) (hu : s = u ++ [c]) : trim s = s := by
  have hstart : trimStart s = s := by
    rw [hs, trimStart_cons hb]
  rw [trim, hstart, hu, trimEnd_concat hc]

/-- A text that begins with such a byte loses at most an end, and not that byte. -/
theorem prefix_trim_cons (hb : isSolid b = true) (s : List UInt8) :
    trim (b :: s) <+: b :: s ∧ trim (b :: s) ≠ [] := by
  rw [trim, trimStart_cons hb]
  exact ⟨prefix_trimEnd _, List.ne_nil_of_mem (mem_trimEnd hb List.mem_cons_self)⟩

/-! ## JSON texts -/

lemma isSolid_ofNat : ∀ n < 128, 33 ≤ n → isSolid (UInt8.ofNat n) = true := by decide

lemma isSolid_of_isDigit (h : NumState.isDigit b = true) : isSolid b = true := by
  simp only [NumState.isDigit, Bool.and_eq_true, decide_eq_true_eq, UInt8.le_iff_toNat_le] at h
  have h48 : (48 : UInt8).toNat = 48 := rfl
  have h57 : (57 : UInt8).toNat = 57 := rfl
  have hb := isSolid_ofNat b.toNat (by omega) (by omega)
  rwa [UInt8.ofNat_toNat] at hb

lemma isSolid_of_next {st : NumState} (h : st.next b ≠ none) : isSolid b = true := by
  by_cases hdigit : NumState.isDigit b = true
  · exact isSolid_of_isDigit hdigit
  · by_contra hb
    have hne : ∀ k : UInt8, isSolid k = true → b ≠ k := by
      rintro k hk rfl
      exact hb hk
    cases st <;> simp [NumState.next, NumState.isExp, hdigit, hne 45 (by decide),
      hne 48 (by decide), hne 46 (by decide), hne 101 (by decide), hne 69 (by decide),
      hne 43 (by decide)] at h

lemma trim_of_all (hs : ∀ b ∈ s, isSolid b = true) : trim s = s := by
  cases s with
  | nil => rfl
  | cons b t =>
    have hne : b :: t ≠ [] := List.cons_ne_nil b t
    exact trim_of_ends (hs b List.mem_cons_self) (hs _ (List.getLast_mem hne)) rfl
      (List.dropLast_append_getLast hne).symm

/-- A written value has no white space at its ends. -/
theorem trim_stringify (j : Json) : trim j.stringify = j.stringify := by
  cases j with
  | null =>
    exact trim_of_ends (b := 110) (c := 108) (u := [110, 117, 108]) (by decide) (by decide) rfl rfl
  | bool b =>
    cases b with
    | true =>
      exact trim_of_ends (b := 116) (c := 101) (u := [116, 114, 117]) (by decide) (by decide) rfl
        rfl
    | false =>
      exact trim_of_ends (b := 102) (c := 101) (u := [102, 97, 108, 115]) (by decide) (by decide)
        rfl rfl
  | num n =>
    refine trim_of_all fun b hb => ?_
    obtain ⟨st, hst⟩ := NumState.next_of_mem_whole n.whole hb
    exact isSolid_of_next hst
  | str s =>
    exact trim_of_ends (b := 34) (c := 34) (by decide) (by decide) rfl
      (List.cons_append ..).symm
  | arr elems =>
    exact trim_of_ends (b := 91) (c := 93) (by decide) (by decide) rfl
      (List.cons_append ..).symm
  | obj fields =>
    exact trim_of_ends (b := 123) (c := 125) (by decide) (by decide) rfl
      (List.cons_append ..).symm

end Utf8
