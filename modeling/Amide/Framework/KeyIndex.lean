import Amide.Framework.JsMap

/-!
# Secondary indexes of a map

A map from keys to values, and beside it an index from a second key that a value may carry
(`keyOf`) to the first.  `release` takes the name of a value out of the index, unless the index
names another value there; `claim` puts a name in, whoever had it.

A sound index (`Sound`) names only values that carry the key.  Both operations keep it so
(`Sound.withdraw`, `Sound.claim`).  A faithful one (`Faithful`) also names every value by its key,
so no two values carry the same; it stays so when a key is claimed only where it is free
(`Faithful.claim`).  Between the two an index may cover a key (`CoversAt`): it names someone there
if anyone carries it.  Values that leave the index can uncover a key (`coversAt_iff_of_left`).
-/

namespace KeyIndex

open JsMap (get?_delete get?_set)

variable {κ ν ι : Type*} [DecidableEq κ] [DecidableEq ι] {keyOf : ν → Option ι}
  {index : JsMap ι κ} {m : JsMap κ ν} {k : κ} {v : ν} {i : ι}

def release (keyOf : ν → Option ι) (index : JsMap ι κ) (k : κ) (v : ν) : JsMap ι κ :=
  match keyOf v with
  | some i => if index.get? i = some k then index.delete i else index
  | none => index

def claim (keyOf : ν → Option ι) (index : JsMap ι κ) (k : κ) (v : ν) : JsMap ι κ :=
  match keyOf v with
  | some i => index.set i k
  | none => index

/-- What the index names carries the key. -/
def Sound (keyOf : ν → Option ι) (index : JsMap ι κ) (m : JsMap κ ν) : Prop :=
  ∀ i k, index.get? i = some k → ∃ v, m.get? k = some v ∧ keyOf v = some i

/-- What carries a key is named there. -/
structure Faithful (keyOf : ν → Option ι) (index : JsMap ι κ) (m : JsMap κ ν) : Prop where
  sound : Sound keyOf index m
  named : ∀ k v i, m.get? k = some v → keyOf v = some i → index.get? i = some k

lemma get?_release (index : JsMap ι κ) (k : κ) (v : ν) (i : ι) : (release keyOf index k v).get? i =
      if keyOf v = some i ∧ index.get? i = some k then none else index.get? i := by
  rw [release]
  cases hkey : keyOf v with
  | none => simp
  | some i' =>
    dsimp only
    rcases eq_or_ne i' i with rfl | hne
    · by_cases hnamed : index.get? i' = some k
      · simp [hnamed, get?_delete]
      · simp [hnamed]
    · have hkeys : ¬(some i' = some i ∧ index.get? i = some k) := fun h => hne (Option.some.inj h.1)
      split
      · rw [get?_delete, if_neg hne]
      · rfl

omit [DecidableEq κ] in
lemma get?_claim (index : JsMap ι κ) (k : κ) (v : ν) (i : ι) :
    (claim keyOf index k v).get? i = if keyOf v = some i then some k else index.get? i := by
  rw [claim]
  cases hkey : keyOf v with
  | none => simp
  | some i' =>
    dsimp only
    rw [get?_set]
    simp only [Option.some.injEq, eq_comm]

/-- In a sound index only a value's own key names it. -/
lemma Sound.get?_release (h : Sound keyOf index m) (hv : m.get? k = some v) (i : ι) :
    (release keyOf index k v).get? i = if index.get? i = some k then none else index.get? i := by
  rw [KeyIndex.get?_release]
  by_cases hnamed : index.get? i = some k
  · obtain ⟨v', hv', hkey⟩ := h i k hnamed
    obtain rfl : v' = v := Option.mem_unique hv' hv
    rw [if_pos ⟨hkey, hnamed⟩, if_pos hnamed]
  · rw [if_neg (fun h => hnamed h.2), if_neg hnamed]

lemma Sound.release (h : Sound keyOf index m) (hv : m.get? k = some v) :
    Sound keyOf (release keyOf index k v) (m.delete k) := by
  intro i k' hk'
  rw [h.get?_release hv] at hk'
  split_ifs at hk' with hnamed
  obtain ⟨v', hv', hkey⟩ := h i k' hk'
  refine ⟨v', ?_, hkey⟩
  rw [get?_delete, if_neg, hv']
  rintro rfl
  exact hnamed hk'

lemma Sound.claim (h : Sound keyOf index (m.delete k)) (v : ν) :
    Sound keyOf (claim keyOf index k v) (m.set k v) := by
  intro i k' hk'
  rw [get?_claim] at hk'
  split_ifs at hk' with hkey
  · cases hk'
    exact ⟨v, m.get?_set_self k v, hkey⟩
  · obtain ⟨v', hv', hkey'⟩ := h i k' hk'
    rw [get?_delete] at hv'
    split_ifs at hv' with hne
    refine ⟨v', ?_, hkey'⟩
    rw [get?_set, if_neg hne, hv']

lemma Faithful.release (h : Faithful keyOf index m) (hv : m.get? k = some v) :
    Faithful keyOf (release keyOf index k v) (m.delete k) where
  sound := h.sound.release hv
  named := by
    intro k' v' i hv' hkey
    rw [get?_delete] at hv'
    split_ifs at hv' with hne
    have hnamed := h.named k' v' i hv' hkey
    rw [h.sound.get?_release hv, if_neg, hnamed]
    rw [hnamed]
    exact fun heq => hne (Option.some.inj heq).symm

/-! ## Finding -/

lemma Sound.find (h : Sound keyOf index m)
    (hv : (index.get? i).bind m.get? = some v) : v ∈ m.values ∧ keyOf v = some i := by
  obtain ⟨k, hk, hkv⟩ := Option.bind_eq_some_iff.mp hv
  obtain ⟨v', hv', hkey⟩ := h i k hk
  obtain rfl : v' = v := Option.mem_unique hv' hkv
  exact ⟨JsMap.mem_values_iff.mpr ⟨k, hv'⟩, hkey⟩

/-- A value is found by its key. -/
theorem Faithful.find (h : Faithful keyOf index m) (hv : v ∈ m.values) (hkey : keyOf v = some i) :
    (index.get? i).bind m.get? = some v := by
  obtain ⟨k, hk⟩ := JsMap.mem_values_iff.mp hv
  exact Option.bind_eq_some_iff.mpr ⟨k, h.named k v i hk hkey, hk⟩

/-! ## A key leaves -/

/-- The index without the value of a key, if it has one. -/
def withdraw (keyOf : ν → Option ι) (index : JsMap ι κ) (m : JsMap κ ν) (k : κ) : JsMap ι κ :=
  match m.get? k with
  | some v => KeyIndex.release keyOf index k v
  | none => index

lemma Sound.withdraw (h : Sound keyOf index m) (k : κ) :
    Sound keyOf (withdraw keyOf index m k) (m.delete k) := by
  rw [KeyIndex.withdraw]
  cases hv : m.get? k with
  | some v => exact h.release hv
  | none => rwa [JsMap.delete_of_get?_none hv]

lemma Faithful.withdraw (h : Faithful keyOf index m) (k : κ) :
    Faithful keyOf (KeyIndex.withdraw keyOf index m k) (m.delete k) := by
  rw [KeyIndex.withdraw]
  cases hv : m.get? k with
  | some v => exact h.release hv
  | none => rwa [JsMap.delete_of_get?_none hv]

lemma Sound.get?_withdraw (h : Sound keyOf index m) (k : κ) (i : ι) :
    (KeyIndex.withdraw keyOf index m k).get? i = (index.get? i).filter (· ≠ k) := by
  have hother : index.get? i ≠ some k → (index.get? i).filter (· ≠ k) = index.get? i := by
    intro hne
    cases hi : index.get? i with
    | none => rfl
    | some k' =>
      have hk' : k' ≠ k := fun heq => hne (heq ▸ hi)
      rw [Option.filter_some, if_pos (decide_eq_true hk')]
  rw [KeyIndex.withdraw]
  cases hv : m.get? k with
  | some v =>
    show (KeyIndex.release keyOf index k v).get? i = _
    rw [h.get?_release hv]
    split_ifs with hk
    · rw [hk, Option.filter_some, if_neg (by simp)]
    · exact (hother hk).symm
  | none =>
    refine (hother fun hk => ?_).symm
    obtain ⟨v, hv', -⟩ := h i k hk
    rw [hv] at hv'
    cases hv'

/-- A key nobody carries is claimed. -/
theorem Faithful.claim (h : Faithful keyOf index (m.delete k))
    (hfree : ∀ i, keyOf v = some i → index.get? i = none) :
    Faithful keyOf (claim keyOf index k v) (m.set k v) where
  sound := h.sound.claim v
  named := by
    intro k' v' i hv' hkey
    rw [get?_set] at hv'
    rw [get?_claim]
    split_ifs at hv' with hk
    · cases hv'
      rw [if_pos hkey, hk]
    · have hnamed := h.named k' v' i (by rw [get?_delete, if_neg hk, hv']) hkey
      rw [if_neg, hnamed]
      intro hv
      rw [hfree i hv] at hnamed
      cases hnamed

/-! ## Covering -/

/-- If a value carries the key, the index names one there. -/
def CoversAt (keyOf : ν → Option ι) (index : JsMap ι κ) (m : JsMap κ ν) (i : ι) : Prop :=
  ∀ k v, m.get? k = some v → keyOf v = some i → ∃ k', index.get? i = some k'

/-! A value that changes without changing its key changes nothing for its index. -/

section Replace

variable {w : ν}

omit [DecidableEq ι] in
lemma exists_get?_of_replace (hv : m.get? k = some v) (hkey : keyOf w = keyOf v) {k' : κ} {v' : ν}
    (h : (m.set k w).get? k' = some v') : ∃ u, m.get? k' = some u ∧ keyOf u = keyOf v' := by
  rw [get?_set] at h
  split_ifs at h with hk
  · cases h
    exact ⟨v, hk ▸ hv, hkey.symm⟩
  · exact ⟨v', h, rfl⟩

lemma Sound.replace (h : Sound keyOf index m) (hv : m.get? k = some v)
    (hkey : keyOf w = keyOf v) : Sound keyOf index (m.set k w) := by
  intro i k' hk'
  obtain ⟨v', hv', hi⟩ := h i k' hk'
  rw [get?_set]
  split_ifs with hk
  · obtain rfl : v = v' := Option.some.inj (hv.symm.trans (hk ▸ hv'))
    exact ⟨w, rfl, hkey.trans hi⟩
  · exact ⟨v', hv', hi⟩

lemma Faithful.replace (h : Faithful keyOf index m) (hv : m.get? k = some v)
    (hkey : keyOf w = keyOf v) : Faithful keyOf index (m.set k w) where
  sound := h.sound.replace hv hkey
  named := by
    intro k' v' i hv' hi
    obtain ⟨u, hu, huv⟩ := exists_get?_of_replace hv hkey hv'
    exact h.named k' u i hu (huv.trans hi)

lemma CoversAt.replace (h : CoversAt keyOf index m i) (hv : m.get? k = some v)
    (hkey : keyOf w = keyOf v) : CoversAt keyOf index (m.set k w) i := by
  intro k' v' hv' hi
  obtain ⟨u, hu, huv⟩ := exists_get?_of_replace hv hkey hv'
  exact h k' u hu (huv.trans hi)

end Replace

lemma coversAt_claim_of_key (hkey : keyOf v = some i) :
    CoversAt keyOf (claim keyOf index k v) (m.set k v) i := by
  intro k' v' _ _
  exact ⟨k, by rw [get?_claim, if_pos hkey]⟩

lemma coversAt_claim_iff (hkey : keyOf v ≠ some i) :
    CoversAt keyOf (claim keyOf index k v) (m.set k v) i ↔ CoversAt keyOf index (m.delete k) i := by
  rw [CoversAt, CoversAt, get?_claim, if_neg hkey]
  refine forall₂_congr fun k' v' => ?_
  rw [get?_set, get?_delete]
  split_ifs with hk
  · simp only [Option.some.injEq, IsEmpty.forall_iff, iff_true]
    rintro rfl hkey'
    exact absurd hkey' hkey
  · exact Iff.rfl

/-- Where values have left the map and the index, a key that was covered still is unless the one
named there has left and one that carries it has not. -/
theorem coversAt_iff_of_left {index' : JsMap ι κ} {m' : JsMap κ ν} {left : List κ}
    (h : CoversAt keyOf index m i) (hidx : index'.get? i = (index.get? i).filter (· ∉ left))
    (hm : ∀ k, m'.get? k = if k ∈ left then none else m.get? k) :
    CoversAt keyOf index' m' i ↔ ∀ k ∈ left, index.get? i = some k →
        ∀ k' v, m.get? k' = some v → keyOf v = some i → k' ∈ left := by
  constructor
  · intro hcovers k hk hnamed k' v hv hkey
    by_contra hstays
    obtain ⟨k'', hk''⟩ := hcovers k' v (by rw [hm, if_neg hstays, hv]) hkey
    rw [hidx, hnamed, Option.filter_some, if_neg (by simpa using hk)] at hk''
    cases hk''
  · intro hleft k' v hv hkey
    rw [hm] at hv
    split_ifs at hv with hstays
    obtain ⟨k, hk⟩ := h k' v hv hkey
    have hk' : k ∉ left := fun hmem => hstays (hleft k hmem hk k' v hv hkey)
    simp [hidx, hk, hk']

end KeyIndex
