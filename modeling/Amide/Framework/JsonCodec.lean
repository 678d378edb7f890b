import Mathlib.Data.Nat.Digits.Lemmas
import Amide.Framework.JsonRoundTrip

/-!
# Types that travel as JSON

`JsonCodec α` pairs the value a type is written as with the reader that takes it back.  A record
is written as an object whose absent fields are left out (`Json.opt`), as a host language leaves
out its undefined ones, and read field by field (`Json.field`, `Json.optField`), so that the order
of the members does not matter to the reader.

The simp set below evaluates a lookup in a written record; with it the round trip of a record is
one `simp` at each instance.
-/

/-- A type with a JSON form that can be read back. -/
class JsonCodec (α : Type) where
  toJson : α → Json
  ofJson : Json → Option α
  ofJson_toJson (a : α) : ofJson (toJson a) = some a

attribute [simp] JsonCodec.ofJson_toJson

export JsonCodec (toJson ofJson)

namespace Json

open NumState

/-! ## Members of an object -/

/-- The member of an object with the given key. -/
def get? (j : Json) (key : String) : Option Json :=
  match j with
  | obj fields => lookupField key fields
  | _ => none

/-- A field every record of the type has. -/
def field {α : Type} [JsonCodec α] (j : Json) (key : String) : Option α :=
  (j.get? key).bind ofJson

/-- An absent member is an undefined field; one that is there must be readable. -/
def readOpt {α : Type} [JsonCodec α] : Option Json → Option (Option α)
  | none => some none
  | some v => (ofJson v).map some

/-- A field that may be absent. -/
def optField {α : Type} [JsonCodec α] (j : Json) (key : String) : Option (Option α) :=
  readOpt (j.get? key)

/-- The member for an optional field: none where the field is undefined. -/
def opt {α : Type} [JsonCodec α] (key : String) : Option α → List (String × Json)
  | none => []
  | some a => [(key, toJson a)]

@[simp] lemma get?_obj (fields : List (String × Json)) (key : String) :
    (obj fields).get? key = lookupField key fields := rfl

@[simp] lemma lookupField_nil (key : String) : lookupField key [] = none := rfl

@[simp] lemma lookupField_cons (key k : String) (v : Json) (rest : List (String × Json)) :
    lookupField key ((k, v) :: rest) =
      (lookupField key rest).or (if k = key then some v else none) := rfl

@[simp] lemma lookupField_append (key : String) (a b : List (String × Json)) :
    lookupField key (a ++ b) = (lookupField key b).or (lookupField key a) := by
  induction a with
  | nil => simp
  | cons f fs ih =>
    obtain ⟨k, v⟩ := f
    simp [ih, Option.or_assoc]

variable {α : Type}

@[simp] lemma lookupField_opt [JsonCodec α] (key k : String) (o : Option α) :
    lookupField key (opt k o) = if k = key then o.map toJson else none := by
  cases o <;> simp [opt]

@[simp] lemma readOpt_map_toJson [JsonCodec α] (o : Option α) :
    readOpt (o.map toJson) = some o := by
  cases o <;> simp [readOpt]

@[simp] lemma readOpt_none [JsonCodec α] :
    readOpt (none : Option Json) = some (none : Option α) := rfl

@[simp] lemma readOpt_some_toJson [JsonCodec α] (a : α) :
    readOpt (some (toJson a)) = some (some a) :=
  readOpt_map_toJson (some a)

/-! ## Natural numbers -/

def digitByte (d : ℕ) : UInt8 := UInt8.ofNat (48 + d)

def byteDigit (b : UInt8) : ℕ := b.toNat - 48

lemma isDigit_digitByte {d : ℕ} (h : d < 10) : NumState.isDigit (digitByte d) = true := by
  interval_cases d <;> rfl

lemma byteDigit_digitByte {d : ℕ} (h : d < 10) : byteDigit (digitByte d) = d := by
  interval_cases d <;> rfl

lemma scan_int_digits (ds : List ℕ) (h : ∀ d ∈ ds, d < 10) :
    scan .int (ds.map digitByte) = (.int, ds.map digitByte, []) := by
  induction ds with
  | nil => rfl
  | cons d ds ih =>
    have hd := isDigit_digitByte (h d (by simp))
    have hrest := ih fun e he => h e (by simp [he])
    simp [scan, next, hd, hrest]

/-- The decimal digits of a number, most significant first. -/
def natText (n : ℕ) : List UInt8 :=
  if n = 0 then [48] else (Nat.digits 10 n).reverse.map digitByte

lemma scan_natText (n : ℕ) : (scan .start (natText n)).1.accepting = true ∧
    (scan .start (natText n)).2.2 = [] := by
  unfold natText
  split_ifs with hn
  · exact ⟨rfl, rfl⟩
  · -- the leading digit is not zero, so the automaton enters the state that takes the others
    have hne : Nat.digits 10 n ≠ [] := Nat.digits_ne_nil_iff_ne_zero.mpr hn
    have hlast := Nat.getLast_digit_ne_zero 10 hn
    have hlt : (Nat.digits 10 n).getLast hne < 10 :=
      Nat.digits_lt_base (by norm_num) (List.getLast_mem hne)
    have hrest := scan_int_digits (Nat.digits 10 n).dropLast.reverse fun d hd =>
      Nat.digits_lt_base (by norm_num) (List.dropLast_subset _ (List.mem_reverse.mp hd))
    have hsplit : (Nat.digits 10 n).reverse =
        (Nat.digits 10 n).getLast hne :: (Nat.digits 10 n).dropLast.reverse := by
      conv_lhs => rw [← List.dropLast_append_getLast hne]
      simp
    rw [hsplit, List.map_cons]
    generalize (Nat.digits 10 n).getLast hne = d at hlast hlt
    have hnext : next .start (digitByte d) = some .int := by
      interval_cases d <;> first | exact absurd rfl hlast | rfl
    simp only [scan, hnext, hrest, accepting, and_self]

/-- The number a literal of digits alone stands for. -/
def textNat (text : List UInt8) : Option ℕ :=
  if text.all NumState.isDigit then some (Nat.ofDigits 10 (text.reverse.map byteDigit)) else none

lemma textNat_natText (n : ℕ) : textNat (natText n) = some n := by
  unfold natText
  split_ifs with hn
  · subst hn
    rfl
  · have hlt : ∀ d ∈ Nat.digits 10 n, d < 10 := fun d hd => Nat.digits_lt_base (by norm_num) hd
    have hall : ((Nat.digits 10 n).reverse.map digitByte).all NumState.isDigit = true := by
      simp only [List.all_map, List.all_reverse, List.all_eq_true]
      exact fun d hd => isDigit_digitByte (hlt d hd)
    have hback : (((Nat.digits 10 n).reverse.map digitByte).reverse.map byteDigit) =
        Nat.digits 10 n := by
      rw [← List.map_reverse, List.reverse_reverse, List.map_map]
      conv_rhs => rw [← List.map_id (Nat.digits 10 n)]
      exact List.map_congr_left fun d hd => byteDigit_digitByte (hlt d hd)
    rw [textNat, if_pos hall, hback, Nat.ofDigits_digits]

/-- A number begins with a digit, and so not with a minus. -/
lemma exists_natText (n : ℕ) : ∃ b bs, natText n = b :: bs ∧ b ≠ 45 := by
  have hscan := scan_natText n
  have htext := textNat_natText n
  cases hn : natText n with
  | nil => simp [hn, scan, accepting] at hscan
  | cons b bs =>
    refine ⟨b, bs, rfl, ?_⟩
    rintro rfl
    rw [hn] at htext
    cases htext

/-- Behind a minus the digits are read as without it. -/
lemma scan_minus_natText (n : ℕ) :
    (scan .start (45 :: natText n)).1.accepting = true ∧
      (scan .start (45 :: natText n)).2.2 = [] := by
  have hscan := scan_natText n
  obtain ⟨b, bs, hn, hb⟩ := exists_natText n
  have hminus : next .start 45 = some .minus := rfl
  have hsame : next .minus b = next .start b := by simp [next, hb]
  rw [hn] at hscan ⊢
  cases hnext : next .start b with
  | none => simp [scan, hnext, accepting] at hscan
  | some st => simpa [scan, hminus, hsame, hnext] using hscan

def textInt : List UInt8 → Option ℤ
  | 45 :: text => (textNat text).map fun n => -(n : ℤ)
  | text => (textNat text).map fun n => (n : ℤ)

end Json

def NumLit.ofNat (n : ℕ) : NumLit :=
  ⟨Json.natText n, (Json.scan_natText n).1, (Json.scan_natText n).2⟩

def NumLit.neg (n : ℕ) : NumLit :=
  ⟨45 :: Json.natText n, (Json.scan_minus_natText n).1, (Json.scan_minus_natText n).2⟩

/-! ## Basic types -/

instance : JsonCodec Json where
  toJson j := j
  ofJson j := some j
  ofJson_toJson _ := rfl

instance : JsonCodec String where
  toJson s := .str s
  ofJson
    | .str s => some s
    | _ => none
  ofJson_toJson _ := rfl

instance : JsonCodec Bool where
  toJson b := .bool b
  ofJson
    | .bool b => some b
    | _ => none
  ofJson_toJson _ := rfl

lemma ofJson_str (s : String) : ofJson (Json.str s) = some s := rfl

lemma ofJson_bool (b : Bool) : ofJson (Json.bool b) = some b := rfl

instance : JsonCodec NumLit where
  toJson n := .num n
  ofJson
    | .num n => some n
    | _ => none
  ofJson_toJson _ := rfl

instance : JsonCodec ℕ where
  toJson n := .num (.ofNat n)
  ofJson
    | .num n => Json.textNat n.text
    | _ => none
  ofJson_toJson n := Json.textNat_natText n

instance : JsonCodec ℤ where
  toJson
    | .ofNat n => .num (.ofNat n)
    | .negSucc n => .num (.neg (n + 1))
  ofJson
    | .num n => Json.textInt n.text
    | _ => none
  ofJson_toJson
    | .ofNat n => by
      obtain ⟨b, bs, hn, hb⟩ := Json.exists_natText n
      have htext := Json.textNat_natText n
      rw [hn] at htext
      simp [NumLit.ofNat, hn, Json.textInt, hb, htext]
    | .negSucc n => by
      simp [NumLit.neg, Json.textInt, Json.textNat_natText, Int.negSucc_eq]

instance {α : Type} [JsonCodec α] : JsonCodec (List α) where
  toJson as := .arr (as.map toJson)
  ofJson
    | .arr js => js.mapM ofJson
    | _ => none
  ofJson_toJson as := by
    induction as with
    | nil => rfl
    | cons a as ih => simp_all

/-- A string or `null`. -/
instance : JsonCodec (Option String) where
  toJson
    | none => .null
    | some s => .str s
  ofJson
    | .null => some none
    | .str s => some (some s)
    | _ => none
  ofJson_toJson o := by cases o <;> rfl

/-- An integer, or the `null` that `NaN` is written as. -/
instance : JsonCodec (Option ℤ) where
  toJson
    | none => .null
    | some n => toJson n
  ofJson
    | .null => some none
    | j => (ofJson j).map some
  ofJson_toJson
    | none => rfl
    | some (.ofNat n) => congrArg (Option.map some) (JsonCodec.ofJson_toJson (n : ℤ))
    | some (.negSucc n) => congrArg (Option.map some) (JsonCodec.ofJson_toJson (Int.negSucc n))
