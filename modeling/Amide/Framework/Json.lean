import Mathlib.Data.List.Basic

/-!
# JSON values, their text, and a parser for it

A text is a list of bytes, the form it has in a file.  `Json.stringify` writes a value without
spaces, escaping what a string literal must escape, and `Json.parse` reads any text of the
grammar, spaces included, and rejects the rest.

Strings are `String`s: their UTF-8 bytes stand between the quotes, and a literal whose bytes are
not UTF-8 is rejected.  A `\u` escape names a UTF-16 code unit; two that form a surrogate pair
name one character, and a surrogate on its own, which no `String` holds, is rejected.

Numbers are kept as literals (`NumLit`), not as values: the grammar is checked by an automaton
and the bytes are carried as they stand, so no rounding enters.

Objects keep their members in order and `Json.lookupField` lets the last of two members with
one key win.

Every recursion is structural: `parseValue` recurses on a fuel argument, and `Json.parse` gives
it twice the length of the text, which `Json.parse_stringify` (`Framework/JsonRoundTrip.lean`)
shows to be enough.
-/

/-! ## Numbers -/

/-- Where a scan stands inside a number literal. -/
inductive NumState where
  | start | minus | zero | int | dot | frac | exp | expSign | expDigits
  deriving Repr

namespace NumState

def isDigit (b : UInt8) : Bool := 48 ≤ b && b ≤ 57

def isExp (b : UInt8) : Bool := b == 101 || b == 69

/-- One byte of the grammar `-?(0|[1-9][0-9]*)(\.[0-9]+)?([eE][+-]?[0-9]+)?`. -/
def next : NumState → UInt8 → Option NumState
  | start, b => if b = 45 then some minus else if b = 48 then some zero
      else if isDigit b then some int else none
  | minus, b => if b = 48 then some zero else if isDigit b then some int else none
  | zero, b => if b = 46 then some dot else if isExp b then some exp else none
  | int, b => if isDigit b then some int else if b = 46 then some dot
      else if isExp b then some exp else none
  | dot, b => if isDigit b then some frac else none
  | frac, b => if isDigit b then some frac else if isExp b then some exp else none
  | exp, b => if b = 43 ∨ b = 45 then some expSign else if isDigit b then some expDigits else none
  | expSign, b => if isDigit b then some expDigits else none
  | expDigits, b => if isDigit b then some expDigits else none

/-- The literal may end here. -/
def accepting : NumState → Bool
  | zero | int | frac | expDigits => true
  | _ => false

/-- The state reached, the bytes taken and the bytes left, taking as many as the grammar does. -/
def scan : NumState → List UInt8 → NumState × List UInt8 × List UInt8
  | st, [] => (st, [], [])
  | st, b :: bs =>
    match next st b with
    | none => (st, [], b :: bs)
    | some st' => ((scan st' bs).1, b :: (scan st' bs).2.1, (scan st' bs).2.2)

variable (st : NumState)

lemma taken_append_left (s : List UInt8) : (scan st s).2.1 ++ (scan st s).2.2 = s := by
  induction s generalizing st with
  | nil => simp [scan]
  | cons b bs ih =>
    cases h : next st b with
    | none => simp [scan, h]
    | some st' => simp [scan, h, ih]

lemma scan_taken (s : List UInt8) :
    scan st (scan st s).2.1 = ((scan st s).1, (scan st s).2.1, []) := by
  induction s generalizing st with
  | nil => simp [scan]
  | cons b bs ih =>
    cases h : next st b with
    | none => simp [scan, h]
    | some st' => simp [scan, h, ih]

/-- Bytes the scan stops in front of are left for what follows, whatever is added to them. -/
theorem scan_append (s t : List UInt8) (h : (scan st s).2.2 ≠ []) :
    scan st (s ++ t) = ((scan st s).1, (scan st s).2.1, (scan st s).2.2 ++ t) := by
  induction s generalizing st with
  | nil => simp [scan] at h
  | cons b bs ih =>
    cases hn : next st b with
    | none => simp [scan, hn]
    | some st' =>
      simp only [scan, hn] at h
      simp [scan, hn, ih st' h]

/-- A literal followed by a byte its last state does not take is scanned to its end. -/
theorem scan_of_stop (s : List UInt8) (hs : (scan st s).2.2 = []) (b : UInt8)
    (hb : next (scan st s).1 b = none) (t : List UInt8) :
    scan st (s ++ b :: t) = ((scan st s).1, s, b :: t) := by
  induction s generalizing st with
  | nil =>
    simp only [scan] at hb
    simp [scan, hb]
  | cons c cs ih =>
    cases hn : next st c with
    | none => simp [scan, hn] at hs
    | some st' =>
      simp only [scan, hn] at hs hb
      simp [scan, hn, ih st' hs hb]

lemma next_of_mem_whole {st : NumState} {s : List UInt8} (hs : (scan st s).2.2 = [])
    {b : UInt8} (hb : b ∈ s) : ∃ st', next st' b ≠ none := by
  induction s generalizing st with
  | nil => simp at hb
  | cons c cs ih =>
    cases hn : next st c with
    | none => simp [scan, hn] at hs
    | some st' =>
      simp only [scan, hn] at hs
      rcases List.mem_cons.mp hb with rfl | hb
      · exact ⟨st, by simp [hn]⟩
      · exact ih hs hb

end NumState

/-- A number literal: bytes the automaton takes whole. -/
structure NumLit where
  text : List UInt8
  accepted : (NumState.scan .start text).1.accepting = true
  whole : (NumState.scan .start text).2.2 = []
  deriving DecidableEq

/-! ## Values -/

inductive Json where
  | null
  | bool (b : Bool)
  | num (n : NumLit)
  | str (s : String)
  | arr (elems : List Json)
  | obj (fields : List (String × Json))

namespace Json

/-- The member a key names; of two with one key the last counts. -/
def lookupField (key : String) : List (String × Json) → Option Json
  | [] => none
  | (k, v) :: rest => (lookupField key rest).or (if k = key then some v else none)

def isNum : Json → Bool
  | num _ => true
  | _ => false

def isObj : Json → Bool
  | obj _ => true
  | _ => false

/-! ## Writing -/

/-- The bytes of a string in UTF-8. -/
def utf8 (s : String) : List UInt8 := s.toUTF8.data.toList

/-- The string with the given bytes, if they are UTF-8. -/
def ofUtf8? (bs : List UInt8) : Option String := String.fromUTF8? ⟨bs.toArray⟩

@[simp] lemma ofUtf8?_utf8 (s : String) : ofUtf8? (utf8 s) = some s := by
  simp [ofUtf8?, utf8, String.fromUTF8?, s.isValidUTF8, String.fromUTF8]

def hexDigit (n : ℕ) : UInt8 := if n < 10 then UInt8.ofNat (48 + n) else UInt8.ofNat (87 + n)

/-- A byte inside a string literal. -/
def escapeByte (b : UInt8) : List UInt8 :=
  if b = 34 then [92, 34]
  else if b = 92 then [92, 92]
  else if b = 8 then [92, 98]
  else if b = 9 then [92, 116]
  else if b = 10 then [92, 110]
  else if b = 12 then [92, 102]
  else if b = 13 then [92, 114]
  else if b < 32 then
    [92, 117, 48, 48, hexDigit (b.toNat / 16), hexDigit (b.toNat % 16)]
  else [b]

def stringifyString (s : String) : List UInt8 := 34 :: ((utf8 s).flatMap escapeByte ++ [34])

mutual

def stringify : Json → List UInt8
  | null => [110, 117, 108, 108]
  | bool true => [116, 114, 117, 101]
  | bool false => [102, 97, 108, 115, 101]
  | num n => n.text
  | str s => stringifyString s
  | arr elems => 91 :: (stringifyElems elems ++ [93])
  | obj fields => 123 :: (stringifyFields fields ++ [125])

def stringifyElems : List Json → List UInt8
  | [] => []
  | j :: js => stringify j ++ stringifyElemsTail js

/-- The elements after the first, each behind its comma. -/
def stringifyElemsTail : List Json → List UInt8
  | [] => []
  | j :: js => 44 :: (stringify j ++ stringifyElemsTail js)

def stringifyFields : List (String × Json) → List UInt8
  | [] => []
  | (k, v) :: fs => stringifyString k ++ 58 :: (stringify v ++ stringifyFieldsTail fs)

def stringifyFieldsTail : List (String × Json) → List UInt8
  | [] => []
  | (k, v) :: fs => 44 :: (stringifyString k ++ 58 :: (stringify v ++ stringifyFieldsTail fs))

end

/-! ## Reading -/

def isWs (b : UInt8) : Bool := b == 32 || b == 9 || b == 10 || b == 13

def skipWs (s : List UInt8) : List UInt8 := s.dropWhile isWs

/-- The rest of a text that begins with the given byte. -/
def takeByte (c : UInt8) : List UInt8 → Option (List UInt8)
  | [] => none
  | b :: r => if b = c then some r else none

/-- The rest of a text that begins with the given bytes. -/
def expect : List UInt8 → List UInt8 → Option (List UInt8)
  | [], s => some s
  | c :: cs, s => (takeByte c s).bind (expect cs)

/-- What a string literal holds before its escapes are combined. -/
inductive StrUnit where
  | raw (b : UInt8)
  | unit (code : ℕ)
  deriving Repr

/-- Where a scan stands inside a string literal: between units, behind a backslash, or inside
the four digits of a code unit. -/
inductive StrState where
  | plain
  | esc
  | hex (missing acc : ℕ)
  deriving Repr

def simpleEscape (b : UInt8) : Option ℕ :=
  if b = 34 then some 34 else if b = 92 then some 92 else if b = 47 then some 47
  else if b = 98 then some 8 else if b = 116 then some 9 else if b = 110 then some 10
  else if b = 102 then some 12 else if b = 114 then some 13 else none

def hexVal (b : UInt8) : Option ℕ :=
  if 48 ≤ b && b ≤ 57 then some (b.toNat - 48)
  else if 97 ≤ b && b ≤ 102 then some (b.toNat - 87)
  else if 65 ≤ b && b ≤ 70 then some (b.toNat - 55)
  else none

/-- The units of a literal up to its closing quote, and the text behind the quote. -/
def scanString : StrState → List UInt8 → Option (List StrUnit × List UInt8)
  | _, [] => none
  | .plain, b :: r =>
    if b = 34 then some ([], r)
    else if b = 92 then scanString .esc r
    else if b < 32 then none
    else (scanString .plain r).map fun p => (.raw b :: p.1, p.2)
  | .esc, b :: r =>
    match simpleEscape b with
    | some u => (scanString .plain r).map fun p => (.unit u :: p.1, p.2)
    | none => if b = 117 then scanString (.hex 3 0) r else none
  | .hex missing acc, b :: r =>
    match hexVal b with
    | none => none
    | some d =>
      match missing with
      | 0 => (scanString .plain r).map fun p => (.unit (acc * 16 + d) :: p.1, p.2)
      | k + 1 => scanString (.hex k (acc * 16 + d)) r

/-- The UTF-8 bytes of a code point below `0x110000`. -/
def codePointBytes (c : ℕ) : List UInt8 :=
  if c < 128 then [UInt8.ofNat c]
  else if c < 2048 then [UInt8.ofNat (192 + c / 64), UInt8.ofNat (128 + c % 64)]
  else if c < 65536 then
    [UInt8.ofNat (224 + c / 4096), UInt8.ofNat (128 + c / 64 % 64), UInt8.ofNat (128 + c % 64)]
  else
    [UInt8.ofNat (240 + c / 262144), UInt8.ofNat (128 + c / 4096 % 64),
      UInt8.ofNat (128 + c / 64 % 64), UInt8.ofNat (128 + c % 64)]

/-- The bytes of the units, surrogate pairs combined. -/
def decodeUnits : List StrUnit → List UInt8
  | .unit hi :: .unit lo :: us =>
    if 55296 ≤ hi ∧ hi < 56320 ∧ 56320 ≤ lo ∧ lo < 57344 then
      codePointBytes (65536 + (hi - 55296) * 1024 + (lo - 56320)) ++ decodeUnits us
    else codePointBytes hi ++ decodeUnits (.unit lo :: us)
  | .unit u :: us => codePointBytes u ++ decodeUnits us
  | .raw b :: us => b :: decodeUnits us
  | [] => []

/-- A string literal, its opening quote already read. -/
def parseString (s : List UInt8) : Option (String × List UInt8) :=
  (scanString .plain s).bind fun p => (ofUtf8? (decodeUnits p.1)).map fun v => (v, p.2)

def parseNumber (s : List UInt8) : Option (NumLit × List UInt8) :=
  if h : (NumState.scan .start s).1.accepting = true then
    some (⟨(NumState.scan .start s).2.1, by rw [NumState.scan_taken]; exact h,
      by rw [NumState.scan_taken]⟩, (NumState.scan .start s).2.2)
  else none

mutual

/-- The value a text begins with, and the text behind it. -/
def parseValue : ℕ → List UInt8 → Option (Json × List UInt8)
  | 0, _ => none
  | _ + 1, [] => none
  | n + 1, b :: r =>
    if b = 34 then (parseString r).map fun p => (str p.1, p.2)
    else if b = 123 then
      match takeByte 125 (skipWs r) with
      | some r' => some (obj [], r')
      | none => (parseFields n (skipWs r)).map fun p => (obj p.1, p.2)
    else if b = 91 then
      match takeByte 93 (skipWs r) with
      | some r' => some (arr [], r')
      | none => (parseElems n (skipWs r)).map fun p => (arr p.1, p.2)
    else if b = 110 then (expect [117, 108, 108] r).map fun r' => (null, r')
    else if b = 116 then (expect [114, 117, 101] r).map fun r' => (bool true, r')
    else if b = 102 then (expect [97, 108, 115, 101] r).map fun r' => (bool false, r')
    else (parseNumber (b :: r)).map fun p => (num p.1, p.2)

/-- The elements of an array that has some, up to its closing bracket. -/
def parseElems : ℕ → List UInt8 → Option (List Json × List UInt8)
  | 0, _ => none
  | n + 1, s =>
    match parseValue n s with
    | none => none
    | some (v, r) =>
      match takeByte 44 (skipWs r) with
      | some r' => (parseElems n (skipWs r')).map fun p => (v :: p.1, p.2)
      | none => (takeByte 93 (skipWs r)).map fun r' => ([v], r')

/-- The members of an object that has some, up to its closing brace. -/
def parseFields : ℕ → List UInt8 → Option (List (String × Json) × List UInt8)
  | 0, _ => none
  | n + 1, s =>
    match (takeByte 34 s).bind parseString with
    | none => none
    | some (k, r) =>
      match (takeByte 58 (skipWs r)).bind fun r' => parseValue n (skipWs r') with
      | none => none
      | some (v, r) =>
        match takeByte 44 (skipWs r) with
        | some r' => (parseFields n (skipWs r')).map fun p => ((k, v) :: p.1, p.2)
        | none => (takeByte 125 (skipWs r)).map fun r' => ([(k, v)], r')

end

/-- A whole text: one value with nothing but spaces around it. -/
def parse (s : List UInt8) : Option Json :=
  match parseValue (2 * s.length) (skipWs s) with
  | some (v, r) => if skipWs r = [] then some v else none
  | none => none

end Json
