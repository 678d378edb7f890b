import Mathlib.Data.Fintype.Basic
import Mathlib.Algebra.Order.Group.Nat

/-!
# Texts and their UTF-8 bytes

Texts are lists of characters.  `encode` gives the bytes of a text, and `Decoder` is the decoder of
the Encoding Standard, one byte at a time: a byte that cannot continue the character begun becomes
U+FFFD and is looked at again.  Decoding the bytes of a text gives the text back
(`decode_encode`), and a stream decoder (`TextDecoder`, which drops a byte order mark) gives the
same text wherever the bytes are cut into chunks (`TextDecoder.decodeLast_append`).

`tailWithin k` is the longest end of a text that fits into `k` bytes.  On the bytes it is found by
going `k` bytes back from the end and then forward to the next start of a character
(`drop_charStart`).
-/

namespace Utf8

open List

def encode (text : List Char) : List UInt8 := text.flatMap String.utf8EncodeChar

def byteLength (text : List Char) : ℕ := (encode text).length

/-- The byte continues a character: its first two bits are 1 and 0. -/
def isContinuation (b : UInt8) : Bool := b &&& 0xC0 == 0x80

section Encode

variable (c : Char) (text more : List Char)

@[simp] lemma encode_nil : encode [] = [] := rfl

@[simp] lemma encode_cons : encode (c :: text) = String.utf8EncodeChar c ++ encode text := by
  simp [encode]

@[simp] lemma encode_append : encode (text ++ more) = encode text ++ encode more := by
  simp [encode]

@[simp] lemma byteLength_nil : byteLength [] = 0 := rfl

@[simp] lemma byteLength_cons : byteLength (c :: text) = c.utf8Size + byteLength text := by
  simp [byteLength]

@[simp] lemma byteLength_append :
    byteLength (text ++ more) = byteLength text + byteLength more := by
  simp [byteLength]

lemma isContinuation_iff (b : UInt8) :
    isContinuation b = true ↔ 0x80 ≤ b.toNat ∧ b.toNat ≤ 0xBF := by
  have hall : ∀ n : Fin 256, isContinuation (.ofFin n) = true ↔ 0x80 ≤ n.val ∧ n.val ≤ 0xBF := by
    decide +kernel
  exact hall b.toFin

/-- A character begins with a byte that continues none, and the others continue it. -/
theorem utf8EncodeChar_cases :
    ∃ b bs, String.utf8EncodeChar c = b :: bs ∧ isContinuation b = false ∧
      ∀ b' ∈ bs, isContinuation b' = true := by
  simp only [← Bool.not_eq_true, isContinuation_iff, String.utf8EncodeChar]
  split_ifs with h1 h2 h3
  · refine ⟨_, [], rfl, ?_, by simp⟩
    simp only [UInt8.toNat_ofNat']
    omega
  · refine ⟨_, [_], rfl, ?_, ?_⟩
    · simp only [UInt8.toNat_ofNat']
      omega
    · simp only [mem_singleton, forall_eq, UInt8.toNat_ofNat']
      omega
  · refine ⟨_, [_, _], rfl, ?_, ?_⟩
    · simp only [UInt8.toNat_ofNat']
      omega
    · simp only [forall_mem_cons, mem_singleton, forall_eq, UInt8.toNat_ofNat']
      omega
  · refine ⟨_, [_, _, _], rfl, ?_, ?_⟩
    · simp only [UInt8.toNat_ofNat']
      omega
    · simp only [forall_mem_cons, mem_singleton, forall_eq, UInt8.toNat_ofNat']
      omega

/-- A text whose last byte is a line feed ends in the character. -/
theorem getLast?_encode_eq_lf : (encode (text ++ [c])).getLast? = some 10 ↔ c = '\n' := by
  constructor
  · intro hlast
    obtain ⟨b, bs, hbytes, -, hbs⟩ := utf8EncodeChar_cases c
    rw [encode_append, encode_cons, encode_nil, append_nil, hbytes,
      getLast?_append_of_ne_nil _ (cons_ne_nil b bs)] at hlast
    rcases eq_nil_or_concat bs with rfl | ⟨bs', b', rfl⟩
    · have hsize : c.utf8Size = 1 := by
        rw [← String.length_utf8EncodeChar, hbytes, length_singleton]
      have hle := Char.utf8Size_eq_one_iff.1 hsize
      rw [String.utf8EncodeChar_eq_singleton hsize] at hbytes
      have hb : c.val.toUInt8 = 10 := by
        rw [singleton_inj.1 hbytes]
        exact Option.some_inj.1 hlast
      have hval : c.val.toNat % 256 = 10 := congrArg UInt8.toNat hb
      rw [UInt32.le_iff_toNat_le] at hle
      apply Char.ext
      apply UInt32.toNat_inj.1
      show c.val.toNat = 10
      have : (127 : UInt32).toNat = 127 := rfl
      omega
    · rw [concat_eq_append] at hlast hbs
      have hcont : isContinuation b' = true := hbs b' (by simp)
      rw [← cons_append, getLast?_concat, Option.some_inj] at hlast
      subst hlast
      cases hcont
  · rintro rfl
    simp [String.utf8EncodeChar]

end Encode

/-! ## Decoding -/

/-- The decoder between two bytes: the bits of the character begun, the bytes it still lacks, and
the bounds of the next of them. -/
structure Decoder where
  codePoint : ℕ := 0
  bytesLeft : ℕ := 0
  lower : ℕ := 0x80
  upper : ℕ := 0xBF

def replacement : Char := '\uFFFD'

namespace Decoder

/-- A byte between characters. -/
def first (b : ℕ) : Decoder × List Char :=
  if b ≤ 0x7F then ({}, [Char.ofNat b])
  else if 0xC2 ≤ b ∧ b ≤ 0xDF then ({ codePoint := b % 32, bytesLeft := 1 }, [])
  else if 0xE0 ≤ b ∧ b ≤ 0xEF then
    ({ codePoint := b % 16, bytesLeft := 2,
       lower := if b = 0xE0 then 0xA0 else 0x80
       upper := if b = 0xED then 0x9F else 0xBF }, [])
  else if 0xF0 ≤ b ∧ b ≤ 0xF4 then
    ({ codePoint := b % 8, bytesLeft := 3,
       lower := if b = 0xF0 then 0x90 else 0x80
       upper := if b = 0xF4 then 0x8F else 0xBF }, [])
  else ({}, [replacement])

def step (d : Decoder) (b : ℕ) : Decoder × List Char :=
  if d.bytesLeft = 0 then first b
  else if d.lower ≤ b ∧ b ≤ d.upper then
    let codePoint := d.codePoint * 64 + b % 64
    if d.bytesLeft = 1 then ({}, [Char.ofNat codePoint])
    else ({ codePoint, bytesLeft := d.bytesLeft - 1 }, [])
  else ((first b).1, replacement :: (first b).2)

def run (d : Decoder) : List UInt8 → Decoder × List Char
  | [] => (d, [])
  | b :: bytes =>
    let (d', text) := d.step b.toNat
    let (d'', more) := d'.run bytes
    (d'', text ++ more)

/-- At the end of the input a character begun is given up. -/
def flush (d : Decoder) : List Char := if d.bytesLeft = 0 then [] else [replacement]

section Step

variable {d : Decoder} {b : ℕ}

lemma step_ascii (hb : b ≤ 0x7F) : step {} b = ({}, [Char.ofNat b]) := by
  rw [step, if_pos rfl, first, if_pos hb]

lemma step_two (hb : 0xC2 ≤ b ∧ b ≤ 0xDF) :
    step {} b = ({ codePoint := b % 32, bytesLeft := 1 }, []) := by
  rw [step, if_pos rfl, first, if_neg (by omega), if_pos hb]

lemma step_three (hb : 0xE0 ≤ b ∧ b ≤ 0xEF) :
    step {} b = ({ codePoint := b % 16, bytesLeft := 2,
                   lower := if b = 0xE0 then 0xA0 else 0x80
                   upper := if b = 0xED then 0x9F else 0xBF }, []) := by
  rw [step, if_pos rfl, first, if_neg (by omega), if_neg (by omega), if_pos hb]

lemma step_four (hb : 0xF0 ≤ b ∧ b ≤ 0xF4) :
    step {} b = ({ codePoint := b % 8, bytesLeft := 3,
                   lower := if b = 0xF0 then 0x90 else 0x80
                   upper := if b = 0xF4 then 0x8F else 0xBF }, []) := by
  rw [step, if_pos rfl, first, if_neg (by omega), if_neg (by omega), if_neg (by omega), if_pos hb]

lemma step_more (hleft : 1 < d.bytesLeft) (hb : d.lower ≤ b ∧ b ≤ d.upper) :
    d.step b =
      ({ codePoint := d.codePoint * 64 + b % 64, bytesLeft := d.bytesLeft - 1 }, []) := by
  rw [step, if_neg (by omega), if_pos hb, if_neg (by omega)]

lemma step_last (hleft : d.bytesLeft = 1) (hb : d.lower ≤ b ∧ b ≤ d.upper) :
    d.step b = ({}, [Char.ofNat (d.codePoint * 64 + b % 64)]) := by
  rw [step, if_neg (by omega), if_pos hb, if_pos hleft]

lemma run_cons {d' : Decoder} {text : List Char} {n : ℕ} (hn : n < 256)
    (hstep : d.step n = (d', text)) (bytes : List UInt8) :
    d.run (.ofNat n :: bytes) = ((d'.run bytes).1, text ++ (d'.run bytes).2) := by
  rw [run, UInt8.toNat_ofNat_of_lt' hn, hstep]

end Step

lemma run_append (d : Decoder) (s t : List UInt8) :
    d.run (s ++ t) = (((d.run s).1.run t).1, (d.run s).2 ++ ((d.run s).1.run t).2) := by
  induction s generalizing d with
  | nil => simp [run]
  | cons b s ih => simp [run, ih]

/-- The bytes of a character decode to that character. -/
theorem run_utf8EncodeChar (c : Char) : run {} (String.utf8EncodeChar c) = ({}, [c]) := by
  have hvalid : c.val.toNat < 0xD800 ∨ 0xDFFF < c.val.toNat ∧ c.val.toNat < 0x110000 := c.valid
  have hchar : ∀ n : ℕ, n = c.val.toNat → Char.ofNat n = c := by
    rintro _ rfl
    exact Char.ofNat_toNat c
  simp only [String.utf8EncodeChar]
  split_ifs with h1 h2 h3
  · rw [run_cons (by omega) (step_ascii h1), hchar _ rfl]
    rfl
  · rw [run_cons (by omega) (step_two (by omega)),
      run_cons (by omega) (step_last rfl (by dsimp only; omega)),
      hchar _ (by dsimp only; omega)]
    rfl
  · rw [run_cons (by omega) (step_three (by omega)),
      run_cons (by omega) (step_more (by dsimp only; omega) (by dsimp only; split_ifs <;> omega)),
      run_cons (by omega) (step_last rfl (by dsimp only; omega)),
      hchar _ (by dsimp only; omega)]
    rfl
  · rw [run_cons (by omega) (step_four (by omega)),
      run_cons (by omega) (step_more (by dsimp only; omega) (by dsimp only; split_ifs <;> omega)),
      run_cons (by omega) (step_more (by dsimp only; omega) (by dsimp only; omega)),
      run_cons (by omega) (step_last rfl (by dsimp only; omega)),
      hchar _ (by dsimp only; omega)]
    rfl

end Decoder

/-- The text of a buffer. -/
def decode (bytes : List UInt8) : List Char :=
  (Decoder.run {} bytes).2 ++ (Decoder.run {} bytes).1.flush

variable (text : List Char)

lemma run_encode : Decoder.run {} (encode text) = ({}, text) := by
  induction text with
  | nil => rfl
  | cons c text ih => rw [encode_cons, Decoder.run_append, Decoder.run_utf8EncodeChar, ih]; rfl

lemma decode_encode : decode (encode text) = text := by
  rw [decode, run_encode]
  exact append_nil text

/-! ## Decoding a stream -/

/-- A byte order mark is dropped from the front of the stream. -/
structure TextDecoder where
  decoder : Decoder := {}
  bomSeen : Bool := false

namespace TextDecoder

/-- What the decoder hands on of the next decoded text. -/
def skipBom (bomSeen : Bool) : List Char → Bool × List Char
  | [] => (bomSeen, [])
  | c :: text => (true, if bomSeen = false ∧ c = '\uFEFF' then text else c :: text)

/-- `decode(bytes, { stream: true })` -/
def decodeStream (d : TextDecoder) (bytes : List UInt8) : TextDecoder × List Char :=
  let (decoder, decoded) := d.decoder.run bytes
  let (bomSeen, text) := skipBom d.bomSeen decoded
  ({ decoder, bomSeen }, text)

/-- `decode(bytes)`, after which the decoder is as new. -/
def decodeLast (d : TextDecoder) (bytes : List UInt8) : TextDecoder × List Char :=
  let (decoder, decoded) := d.decoder.run bytes
  ({}, (skipBom d.bomSeen (decoded ++ decoder.flush)).2)

/-- The text of a whole stream. -/
def decode (bytes : List UInt8) : List Char := (decodeLast {} bytes).2

@[simp] lemma skipBom_true : skipBom true text = (true, text) := by
  cases text <;> simp [skipBom]

lemma skipBom_append (bomSeen : Bool) (text more : List Char) :
    skipBom bomSeen (text ++ more) =
      ((skipBom (skipBom bomSeen text).1 more).1,
        (skipBom bomSeen text).2 ++ (skipBom (skipBom bomSeen text).1 more).2) := by
  cases text with
  | nil => rfl
  | cons c text =>
    have hseen : (skipBom bomSeen (c :: text)).1 = true := rfl
    rw [hseen, skipBom_true]
    simp only [cons_append, skipBom]
    split_ifs <;> rfl

/-- It does not matter where a stream is cut. -/
theorem decodeLast_append (d : TextDecoder) (s t : List UInt8) :
    (d.decodeLast (s ++ t)).2 =
      (d.decodeStream s).2 ++ ((d.decodeStream s).1.decodeLast t).2 := by
  simp only [decodeLast, decodeStream, Decoder.run_append, append_assoc, skipBom_append]

end TextDecoder

/-! ## Ends of a text -/

/-- The longest end of the text that fits into `k` bytes. -/
def tailWithin (k : ℕ) : List Char → List Char
  | [] => []
  | c :: text => if byteLength (c :: text) ≤ k then c :: text else tailWithin k text

/-- The first place from `start` on where a character of the buffer begins. -/
def charStart (buffer : List UInt8) (start : ℕ) : ℕ :=
  start + ((buffer.drop start).takeWhile isContinuation).length

section Tail

variable {k : ℕ} {text : List Char}

lemma tailWithin_of_le (h : byteLength text ≤ k) : tailWithin k text = text := by
  cases text with
  | nil => rfl
  | cons c text => exact if_pos h

lemma byteLength_tailWithin_le (k : ℕ) (text : List Char) :
    byteLength (tailWithin k text) ≤ k := by
  induction text with
  | nil => exact Nat.zero_le k
  | cons c text ih =>
    rw [tailWithin]
    split_ifs with h
    · exact h
    · exact ih

/-- The end depends on the last characters only, as many as fill `k` bytes. -/
theorem tailWithin_append (front : List Char) (h : k ≤ byteLength text) :
    tailWithin k (front ++ text) = tailWithin k text := by
  induction front with
  | nil => rfl
  | cons c front ih =>
    have hpos := c.utf8Size_pos
    rw [cons_append, tailWithin, if_neg, ih]
    simp only [byteLength_cons, byteLength_append]
    omega

/-- What is cut off a text too long ends in a character that no longer fits. -/
theorem exists_tailWithin (h : k < byteLength text) :
    ∃ front c, front ++ [c] ++ tailWithin k text = text ∧
      k < c.utf8Size + byteLength (tailWithin k text) := by
  induction text with
  | nil => exact absurd h (Nat.not_lt_zero k)
  | cons c text ih =>
    rw [tailWithin, if_neg (by omega)]
    rcases le_or_gt (byteLength text) k with hle | hgt
    · rw [tailWithin_of_le hle]
      exact ⟨[], c, rfl, by simpa using h⟩
    · obtain ⟨front, c', htext, hc'⟩ := ih hgt
      exact ⟨c :: front, c', congrArg (c :: ·) htext, hc'⟩

lemma charStart_append (s t : List UInt8) (n : ℕ) :
    charStart (s ++ t) (s.length + n) = s.length + charStart t n := by
  rw [charStart, charStart, drop_append, Nat.add_sub_cancel_left,
    drop_eq_nil_of_le (Nat.le_add_right _ n), nil_append, Nat.add_assoc]

lemma takeWhile_isContinuation_encode : (encode text).takeWhile isContinuation = [] := by
  cases text with
  | nil => rfl
  | cons c text =>
    obtain ⟨b, bs, hbytes, hb, -⟩ := utf8EncodeChar_cases c
    simp [hbytes, hb]

/-- From the second byte of a character on, the next start is behind the character. -/
lemma charStart_inside (c : Char) (text : List Char) {n : ℕ} (hpos : 0 < n) (hle : n ≤ c.utf8Size) :
    charStart (encode (c :: text)) n = c.utf8Size := by
  obtain ⟨b, bs, hbytes, -, hbs⟩ := utf8EncodeChar_cases c
  have hlen := String.length_utf8EncodeChar c
  have hrest : ∀ b' ∈ (String.utf8EncodeChar c).drop n, isContinuation b' = true := by
    intro b' hb'
    obtain ⟨m, rfl⟩ := Nat.exists_eq_succ_of_ne_zero hpos.ne'
    rw [hbytes, drop_succ_cons] at hb'
    exact hbs b' (mem_of_mem_drop hb')
  rw [charStart, encode_cons, drop_append_of_le_length (by omega),
    takeWhile_append_of_pos hrest, takeWhile_isContinuation_encode, append_nil,
    length_drop]
  omega

lemma charStart_encode (h : k < byteLength text) :
    charStart (encode text) (byteLength text - k) =
      byteLength text - byteLength (tailWithin k text) := by
  induction text with
  | nil => exact absurd h (Nat.not_lt_zero k)
  | cons c text ih =>
    rw [tailWithin, if_neg (by omega)]
    rw [byteLength_cons] at h ⊢
    rcases le_or_gt (byteLength text) k with hle | hgt
    · rw [tailWithin_of_le hle, charStart_inside c text (by omega) (by omega)]
      omega
    · have hstart : c.utf8Size + byteLength text - k =
          (String.utf8EncodeChar c).length + (byteLength text - k) := by
        rw [String.length_utf8EncodeChar]
        omega
      have htail : byteLength (tailWithin k text) ≤ k := byteLength_tailWithin_le k text
      rw [hstart, encode_cons, charStart_append, ih hgt, String.length_utf8EncodeChar]
      omega

/-- `k` bytes back from the end and on to the next start of a character, the bytes are cut where
`tailWithin k` begins. -/
theorem charStart_eq {front : List Char} (h : k < byteLength text)
    (htext : front ++ tailWithin k text = text) :
    charStart (encode text) (byteLength text - k) = (encode front).length := by
  have hlen := congrArg byteLength htext
  rw [byteLength_append] at hlen
  rw [charStart_encode h]
  show _ = byteLength front
  omega

lemma drop_charStart (h : k < byteLength text) :
    (encode text).drop (charStart (encode text) (byteLength text - k)) =
      encode (tailWithin k text) := by
  obtain ⟨front, c, htext, -⟩ := exists_tailWithin h
  have hencode := congrArg encode htext
  rw [encode_append] at hencode
  rw [charStart_eq h htext]
  conv_lhs => rw [← hencode]
  exact drop_left

end Tail

end Utf8
