import Amide.Properties.Compaction.ToolResults

/-!
# The part a compaction keeps

The sizes are summed from the end, and the cut is made at the first cut point at or behind the
message that uses the budget up.  Where the last cut point stands in front of that message the
first cut point of all is taken, and everything from there on is kept, however large
(`keepsRequestedTail_iff`).
-/

namespace Amide

variable {path : List SessionEntry} {startIndex endIndex keepRecentTokens b c i g x : ℕ}

/-! ## The cut point that is picked -/

section Picked

variable (path : List SessionEntry) (startIndex endIndex keepRecentTokens : ℕ)

/-- The last message of a range from which on the estimates reach the budget. -/
structure ReachedAt (b : ℕ) : Prop where
  le : startIndex ≤ b
  lt : b < endIndex
  message : (messageAt path b).isSome = true
  reached : keepRecentTokens ≤ tokensBetween path b endIndex
  last : ∀ x, b < x → x < endIndex → (messageAt path x).isSome = true →
    tokensBetween path x endIndex < keepRecentTokens

/-- A cut point, at or behind the message that uses the budget up if any cut point is. -/
def Eligible (c : ℕ) : Prop :=
  c ∈ findValidCutPoints path startIndex endIndex ∧
    ∀ b, ReachedAt path startIndex endIndex keepRecentTokens b →
      (∃ c' ∈ findValidCutPoints path startIndex endIndex, b ≤ c') → b ≤ c

/-- The first cut point at or behind the message that uses the budget up; the first of all where
there is none. -/
def Picked (c : ℕ) : Prop :=
  Eligible path startIndex endIndex keepRecentTokens c ∧
    ∀ c', Eligible path startIndex endIndex keepRecentTokens c' → c ≤ c'

end Picked

lemma budgetIndex_eq_some_iff_reachedAt :
    budgetIndex path startIndex keepRecentTokens endIndex 0 = some b ↔
      ReachedAt path startIndex endIndex keepRecentTokens b := by
  rw [budgetIndex_eq_some_iff, Nat.zero_add]
  constructor
  · rintro ⟨hle, hlt, hmsg, hreached, hlast⟩
    exact ⟨hle, hlt, hmsg, hreached, fun x hx hend hm => by simpa using hlast x hx hend hm⟩
  · rintro ⟨hle, hlt, hmsg, hreached, hlast⟩
    exact ⟨hle, hlt, hmsg, hreached, fun x hx hend hm => by simpa using hlast x hx hend hm⟩

lemma ReachedAt.unique (h : ReachedAt path startIndex endIndex keepRecentTokens b)
    (h' : ReachedAt path startIndex endIndex keepRecentTokens c) : b = c := by
  rw [← budgetIndex_eq_some_iff_reachedAt] at h h'
  exact Option.mem_unique h h'

lemma Picked.unique (h : Picked path startIndex endIndex keepRecentTokens b)
    (h' : Picked path startIndex endIndex keepRecentTokens c) : b = c :=
  Nat.le_antisymm (h.2 c h'.1) (h'.2 b h.1)

/-- What `chooseCut` chooses is picked. -/
lemma picked_chooseCut {firstCut : ℕ} {cuts : List ℕ}
    (h : findValidCutPoints path startIndex endIndex = firstCut :: cuts) :
    Picked path startIndex endIndex keepRecentTokens (chooseCut firstCut cuts
      (budgetIndex path startIndex keepRecentTokens endIndex 0)) := by
  have hsorted : (firstCut :: cuts).Pairwise (· < ·) :=
    h ▸ sorted_findValidCutPoints path startIndex endIndex
  have hfirst : ∀ c ∈ firstCut :: cuts, firstCut ≤ c := by
    rw [List.forall_mem_cons]
    exact ⟨Nat.le_refl _, fun c hc => Nat.le_of_lt ((List.pairwise_cons.mp hsorted).1 c hc)⟩
  cases hbudget : budgetIndex path startIndex keepRecentTokens endIndex 0 with
  | none =>
    refine ⟨⟨h ▸ List.mem_cons_self, fun b hb _ => ?_⟩, fun c hc => hfirst c (h ▸ hc.1)⟩
    rw [← budgetIndex_eq_some_iff_reachedAt, hbudget] at hb
    cases hb
  | some b =>
    have hreached := budgetIndex_eq_some_iff_reachedAt.mp hbudget
    refine ⟨⟨h ▸ chooseCut_mem firstCut cuts _, ?_⟩, fun c hc => ?_⟩
    · rintro b' hb' ⟨c, hc, hle⟩
      rw [hb'.unique hreached] at hle ⊢
      exact (chooseCut_le hsorted (h ▸ hc) hle).1
    · by_cases hbehind : ∃ c' ∈ findValidCutPoints path startIndex endIndex, b ≤ c'
      · exact (chooseCut_le hsorted (h ▸ hc.1) (hc.2 b hreached hbehind)).2
      · rcases chooseCut_eq_or firstCut cuts (some b) with heq | ⟨i, hi, hle⟩
        · rw [heq]
          exact hfirst c (h ▸ hc.1)
        · cases hi
          exact absurd ⟨_, h ▸ chooseCut_mem firstCut cuts _, hle⟩ hbehind

/-- The cut is made at the cut point that is picked, or behind the last message or compaction in
front of it. -/
lemma firstKeptEntryIndex_of_picked (h : Picked path startIndex endIndex keepRecentTokens c) :
    (findCutPoint path startIndex endIndex keepRecentTokens).firstKeptEntryIndex =
      slideBack path startIndex c := by
  cases hcuts : findValidCutPoints path startIndex endIndex with
  | nil => exact absurd (hcuts ▸ h.1.1) List.not_mem_nil
  | cons firstCut cuts =>
    rw [h.unique (picked_chooseCut hcuts)]
    simp [findCutPoint, hcuts]

lemma exists_picked (h : c ∈ findValidCutPoints path startIndex endIndex) (keepRecentTokens : ℕ) :
    ∃ c, Picked path startIndex endIndex keepRecentTokens c := by
  cases hcuts : findValidCutPoints path startIndex endIndex with
  | nil => exact absurd (hcuts ▸ h) List.not_mem_nil
  | cons firstCut cuts => exact ⟨_, picked_chooseCut hcuts⟩

/-! ## The slide back -/

/-- The entries over which the cut does not move back. -/
def stopsAt (path : List SessionEntry) (i : ℕ) : Prop :=
  path[i]?.any (fun e => e.isCompaction || e.message?.isSome) = true

lemma stopsAt_of_message (h : (messageAt path i).isSome = true) : stopsAt path i := by
  unfold stopsAt
  unfold messageAt at h
  cases hi : path[i]? with
  | none => simp [hi] at h
  | some e =>
    rw [hi, Option.bind_some] at h
    rw [Option.any_some, h, Bool.or_true]

lemma lt_slideBack_iff (hx : startIndex ≤ x) :
    x < slideBack path startIndex c ↔ ∃ y, x ≤ y ∧ y < c ∧ stopsAt path y := by
  induction c with
  | zero => exact ⟨fun h => absurd h (Nat.not_lt_zero x), fun ⟨_, _, h, _⟩ => absurd h (by omega)⟩
  | succ c ih =>
    unfold slideBack
    split_ifs with hlt hstop
    · constructor
      · intro h
        omega
      · rintro ⟨y, hxy, hy, -⟩
        omega
    · constructor
      · exact fun h => ⟨c, Nat.le_of_lt_succ h, Nat.lt_succ_self c, hstop⟩
      · rintro ⟨y, hxy, hy, -⟩
        omega
    · rw [ih]
      constructor
      · rintro ⟨y, hxy, hy, hstopy⟩
        exact ⟨y, hxy, Nat.lt_succ_of_lt hy, hstopy⟩
      · rintro ⟨y, hxy, hy, hstopy⟩
        rcases Nat.lt_or_eq_of_le (Nat.le_of_lt_succ hy) with hlt | rfl
        · exact ⟨y, hxy, hlt, hstopy⟩
        · exact absurd hstopy hstop

/-- There is no message among the entries the cut moves back over. -/
lemma messageAt_of_slideBack (hstart : startIndex ≤ c) (hx : slideBack path startIndex c ≤ x)
    (hxc : x < c) : messageAt path x = none := by
  rw [← Option.not_isSome_iff_eq_none]
  intro hmsg
  have hle : startIndex ≤ x := Nat.le_trans (le_slideBack hstart) hx
  have := (lt_slideBack_iff hle).mpr ⟨x, Nat.le_refl x, hxc, stopsAt_of_message hmsg⟩
  omega

/-! ## The requested tail -/

section Tail

variable (path : List SessionEntry) (startIndex endIndex keepRecentTokens : ℕ)

/-- The largest index from which on the estimates reach the budget. -/
structure ReachIndex (i : ℕ) : Prop where
  le : startIndex ≤ i
  lt : i < endIndex
  reached : keepRecentTokens ≤ tokensBetween path i endIndex
  largest : ∀ j, i < j → j < endIndex → tokensBetween path j endIndex < keepRecentTokens

/-- The greatest valid cut point at or before an index. -/
structure LastCutUpTo (i g : ℕ) : Prop where
  mem : g ∈ findValidCutPoints path startIndex endIndex
  le : g ≤ i
  greatest : ∀ c ∈ findValidCutPoints path startIndex endIndex, c ≤ i → c ≤ g

/-- The part that is kept begins at or after the last cut point up to where the budget is reached,
entries that are no messages aside; and with more than the budget and a second cut point something
is dropped. -/
structure KeepsRequestedTail : Prop where
  tail : ∀ i g, ReachIndex path startIndex endIndex keepRecentTokens i →
    LastCutUpTo path startIndex endIndex i g → ∀ x,
      (findCutPoint path startIndex endIndex keepRecentTokens).firstKeptEntryIndex ≤ x → x < g →
        messageAt path x = none
  drops : keepRecentTokens < tokensBetween path startIndex endIndex →
    (∃ c ∈ findValidCutPoints path startIndex endIndex,
      ∃ c' ∈ findValidCutPoints path startIndex endIndex, c < c') →
    messagesBetween path startIndex
      (findCutPoint path startIndex endIndex keepRecentTokens).firstKeptEntryIndex ≠ []

/-- A cut point stands at or behind the message that uses the budget up, or there is no message
between any two cut points.  Without a budget the last message is not a cut point in front of
another.  And with more than the budget and a second cut point, something that can be dropped
stands in front of the cut point that is picked. -/
structure CutInReach : Prop where
  behind : ∀ b, ReachedAt path startIndex endIndex keepRecentTokens b →
    (∀ c ∈ findValidCutPoints path startIndex endIndex, c < b) →
    ∀ c ∈ findValidCutPoints path startIndex endIndex,
      ∀ c' ∈ findValidCutPoints path startIndex endIndex,
        ∀ x, c ≤ x → x < c' → messageAt path x = none
  zero : keepRecentTokens = 0 → ∀ b, ReachedAt path startIndex endIndex keepRecentTokens b →
    b ∈ findValidCutPoints path startIndex endIndex →
    ∀ c ∈ findValidCutPoints path startIndex endIndex, c ≤ b
  droppable : keepRecentTokens < tokensBetween path startIndex endIndex →
    (∃ c ∈ findValidCutPoints path startIndex endIndex,
      ∃ c' ∈ findValidCutPoints path startIndex endIndex, c < c') →
    ∀ c, Picked path startIndex endIndex keepRecentTokens c →
      ∃ x y, startIndex ≤ x ∧ x ≤ y ∧ y < c ∧ stopsAt path y ∧
        (path[x]?.bind getMessageFromEntryForCompaction).isSome = true

end Tail

lemma messagesBetween_ne_nil_iff {j : ℕ} : messagesBetween path i j ≠ [] ↔
    ∃ x, i ≤ x ∧ x < j ∧ (path[x]?.bind getMessageFromEntryForCompaction).isSome = true := by
  rw [messagesBetween]
  constructor
  · intro hne
    obtain ⟨m, hm⟩ := List.exists_mem_of_ne_nil _ hne
    obtain ⟨e, he, hem⟩ := List.mem_filterMap.mp hm
    obtain ⟨k, hk⟩ := List.mem_iff_getElem?.mp he
    rw [List.getElem?_drop, List.getElem?_take] at hk
    split_ifs at hk with hlt
    exact ⟨i + k, Nat.le_add_right i k, hlt, by simp [hk, hem]⟩
  · rintro ⟨x, hix, hxj, hx⟩
    obtain ⟨m, hm⟩ := Option.isSome_iff_exists.mp hx
    obtain ⟨e, he, hem⟩ := Option.bind_eq_some_iff.mp hm
    refine List.ne_nil_of_mem (a := m)
      (List.mem_filterMap.mpr ⟨e, List.mem_iff_getElem?.mpr ⟨x - i, ?_⟩, hem⟩)
    rw [List.getElem?_drop, List.getElem?_take_of_lt (by omega), Nat.add_sub_cancel' hix, he]

/-- The greatest number below a bound with a property. -/
lemma exists_greatest {p : ℕ → Prop} (hb : b < endIndex) (hp : p b) :
    ∃ i, b ≤ i ∧ i < endIndex ∧ p i ∧ ∀ j, i < j → j < endIndex → ¬ p j := by
  classical
  obtain ⟨m, rfl⟩ := Nat.exists_eq_succ_of_ne_zero (Nat.ne_of_gt (Nat.zero_lt_of_lt hb))
  have hle : b ≤ m := Nat.le_of_lt_succ hb
  exact ⟨Nat.findGreatest p m, Nat.le_findGreatest hle hp,
    Nat.lt_succ_of_le (Nat.findGreatest_le m), Nat.findGreatest_spec hle hp,
    fun j hij hj => Nat.findGreatest_is_greatest hij (Nat.le_of_lt_succ hj)⟩

lemma ReachedAt.exists_reachIndex (h : ReachedAt path startIndex endIndex keepRecentTokens b) :
    ∃ i, b ≤ i ∧ ReachIndex path startIndex endIndex keepRecentTokens i := by
  obtain ⟨i, hbi, hi, hreached, hlargest⟩ := exists_greatest
    (p := fun i => keepRecentTokens ≤ tokensBetween path i endIndex) h.lt h.reached
  exact ⟨i, hbi, Nat.le_trans h.le hbi, hi, hreached,
    fun j hij hj => Nat.lt_of_not_le (hlargest j hij hj)⟩

/-- A message from which on the estimates reach the budget. -/
lemma exists_reachedAt (hx : startIndex ≤ x) (hlt : x < endIndex)
    (hmsg : (messageAt path x).isSome = true)
    (hreached : keepRecentTokens ≤ tokensBetween path x endIndex) :
    ∃ b, x ≤ b ∧ ReachedAt path startIndex endIndex keepRecentTokens b := by
  obtain ⟨b, hxb, hb, ⟨hm, hr⟩, hlast⟩ := exists_greatest
    (p := fun b => (messageAt path b).isSome = true ∧
      keepRecentTokens ≤ tokensBetween path b endIndex) hlt ⟨hmsg, hreached⟩
  exact ⟨b, hxb, Nat.le_trans hx hxb, hb, hm, hr,
    fun y hby hy hmy => Nat.lt_of_not_le fun hle => hlast y hby hy ⟨hmy, hle⟩⟩

lemma exists_lastCutUpTo (hc : c ∈ findValidCutPoints path startIndex endIndex) (hci : c ≤ i) :
    ∃ g, c ≤ g ∧ LastCutUpTo path startIndex endIndex i g := by
  obtain ⟨g, hcg, hg, hmem, hgreatest⟩ := exists_greatest
    (p := fun g => g ∈ findValidCutPoints path startIndex endIndex) (Nat.lt_succ_of_le hci) hc
  refine ⟨g, hcg, hmem, Nat.le_of_lt_succ hg, fun c' hc' hle => ?_⟩
  by_contra hlt
  exact hgreatest c' (Nat.lt_of_not_le hlt) (Nat.lt_succ_of_le hle) hc'

/-- Estimates come from messages. -/
lemma exists_message_of_tokensBetween (h : tokensBetween path i endIndex ≠ 0) :
    ∃ x, i ≤ x ∧ x < endIndex ∧ (messageAt path x).isSome = true := by
  have hlt : i < endIndex := by
    by_contra hge
    exact h (by simp [tokensBetween, List.drop_eq_nil_of_le, Nat.le_of_not_lt hge])
  induction hd : endIndex - i generalizing i with
  | zero => omega
  | succ d ih =>
    rw [tokensBetween_eq_add hlt] at h
    cases hm : messageAt path i with
    | some m => exact ⟨i, Nat.le_refl i, hlt, by rw [hm, Option.isSome_some]⟩
    | none =>
      rw [hm, Option.map_none, Option.getD_none, Nat.zero_add] at h
      have hlt' : i + 1 < endIndex := by
        by_contra hge
        exact h (by simp [tokensBetween, List.drop_eq_nil_of_le, Nat.le_of_not_lt hge])
      obtain ⟨x, hix, hx, hmx⟩ := ih h hlt' (by omega)
      exact ⟨x, by omega, hx, hmx⟩

/-! ## When the requested tail is kept -/

/-- The entries that are kept in front of the cut point that is picked are no messages. -/
lemma tail_iff_of_picked (h : Picked path startIndex endIndex keepRecentTokens c) :
    (∀ x, (findCutPoint path startIndex endIndex keepRecentTokens).firstKeptEntryIndex ≤ x →
      x < g → messageAt path x = none) ↔ ∀ x, c ≤ x → x < g → messageAt path x = none := by
  rw [firstKeptEntryIndex_of_picked h]
  constructor
  · exact fun htail x hcx => htail x (Nat.le_trans (slideBack_le c) hcx)
  · intro htail x hx hxg
    by_cases hcx : c ≤ x
    · exact htail x hcx hxg
    · exact messageAt_of_slideBack (mem_findValidCutPoints h.1.1).1 hx (Nat.lt_of_not_le hcx)

lemma CutInReach.tail (h : CutInReach path startIndex endIndex keepRecentTokens)
    (hi : ReachIndex path startIndex endIndex keepRecentTokens i)
    (hg : LastCutUpTo path startIndex endIndex i g)
    (hc : Picked path startIndex endIndex keepRecentTokens c) (hcx : c ≤ x) (hxg : x < g) :
    messageAt path x = none := by
  rw [← Option.not_isSome_iff_eq_none]
  intro hmsg
  have hsc := (mem_findValidCutPoints hc.1.1).1
  have hge := (mem_findValidCutPoints hg.mem).2
  have hgi := hg.le
  have hreached : keepRecentTokens ≤ tokensBetween path x endIndex :=
    Nat.le_trans hi.reached (tokensBetween_anti (by omega) (Nat.le_of_lt hi.lt))
  obtain ⟨b, hxb, hb⟩ := exists_reachedAt (Nat.le_trans hsc hcx) (by omega) hmsg hreached
  by_cases hbehind : ∃ c' ∈ findValidCutPoints path startIndex endIndex, b ≤ c'
  · -- the cut is made at the message that uses the budget up, with another cut point behind it
    have hbc := hc.1.2 b hb hbehind
    obtain rfl : b = c := by omega
    rcases Nat.eq_zero_or_pos keepRecentTokens with hzero | hpos
    · have := h.zero hzero b hb hc.1.1 g hg.mem
      omega
    · have hne : tokensBetween path i endIndex ≠ 0 := by
        have := hi.reached
        omega
      obtain ⟨y, hiy, hy, hmy⟩ := exists_message_of_tokensBetween hne
      obtain ⟨z, hiz, hz, hmz, heq⟩ := exists_next_message hiy hy hmy
      have := hb.last z (by omega) hz hmz
      have := hi.reached
      omega
  · rw [h.behind b hb (fun c' hc' => Nat.lt_of_not_le fun hle => hbehind ⟨c', hc', hle⟩) c hc.1.1 g
      hg.mem x hcx hxg] at hmsg
    cases hmsg

/-- **When a compaction keeps at most the requested tail.** -/
theorem keepsRequestedTail_iff (path : List SessionEntry)
    (startIndex endIndex keepRecentTokens : ℕ) :
    KeepsRequestedTail path startIndex endIndex keepRecentTokens ↔
      CutInReach path startIndex endIndex keepRecentTokens := by
  constructor
  · intro h
    refine ⟨fun b hb hfront c hc c' hc' x hcx hxc' => ?_, fun hzero b hb hcut c hc => ?_,
      fun htokens hcuts c hpicked => ?_⟩
    · -- no cut point stands behind, so the first is picked
      obtain ⟨p, hpicked⟩ := exists_picked hc keepRecentTokens
      have hpc : p ≤ c := hpicked.2 c ⟨hc, fun b' hb' ⟨d, hd, hle⟩ => by
        have := hfront d hd
        rw [hb'.unique hb] at hle
        omega⟩
      obtain ⟨i, hbi, hi⟩ := hb.exists_reachIndex
      obtain ⟨g, hcg, hg⟩ := exists_lastCutUpTo hc'
        (Nat.le_trans (Nat.le_of_lt (hfront c' hc')) hbi)
      exact (tail_iff_of_picked hpicked).mp (h.tail i g hi hg) x (by omega) (by omega)
    · -- the last message is picked, and lies in front of the other cut point
      by_contra hlt
      obtain ⟨p, hpicked⟩ := exists_picked hcut keepRecentTokens
      have hpb : p ≤ b := hpicked.2 b ⟨hcut, fun b' hb' _ => (hb'.unique hb).le⟩
      have hce := (mem_findValidCutPoints hc).2
      have hi : ReachIndex path startIndex endIndex keepRecentTokens (endIndex - 1) :=
        ⟨by have := hb.le; omega, by omega, by rw [hzero]; exact Nat.zero_le _,
          fun j hj hj' => by omega⟩
      obtain ⟨g, hcg, hg⟩ := exists_lastCutUpTo hc (show c ≤ endIndex - 1 by omega)
      have hnone := (tail_iff_of_picked hpicked).mp (h.tail _ g hi hg) b hpb (by omega)
      have hmessage := hb.message
      rw [hnone] at hmessage
      cases hmessage
    · have hdrops := h.drops htokens hcuts
      rw [firstKeptEntryIndex_of_picked hpicked, messagesBetween_ne_nil_iff] at hdrops
      obtain ⟨x, hsx, hx, hmx⟩ := hdrops
      obtain ⟨y, hxy, hyc, hstop⟩ := (lt_slideBack_iff hsx).mp hx
      exact ⟨x, y, hsx, hxy, hyc, hstop, hmx⟩
  · intro h
    refine ⟨fun i g hi hg => ?_, fun htokens hcuts => ?_⟩
    · obtain ⟨c, hpicked⟩ := exists_picked hg.mem keepRecentTokens
      exact (tail_iff_of_picked hpicked).mpr fun x hcx hxg => h.tail hi hg hpicked hcx hxg
    · obtain ⟨c₀, hc₀, -⟩ := id hcuts
      obtain ⟨c, hpicked⟩ := exists_picked hc₀ keepRecentTokens
      obtain ⟨x, y, hsx, hxy, hyc, hstop, hmx⟩ := h.droppable htokens hcuts c hpicked
      rw [firstKeptEntryIndex_of_picked hpicked, messagesBetween_ne_nil_iff]
      exact ⟨x, hsx, (lt_slideBack_iff hsx).mpr ⟨y, hxy, hyc, hstop⟩, hmx⟩

/-! ### A long result at the end -/

/-- A question, a call, and a result that alone uses the budget up. -/
def longResultPath : List SessionEntry :=
  [plainEntry "a" none (userBody "go"), plainEntry "b" (some "a") (callsBody ["x"]),
    plainEntry "c" (some "b") (resultBody "x" "some long text")]

/-- **A long result keeps everything.**  The last cut point stands in front of it, and the whole
path is kept. -/
theorem longResultPath_keeps_all : (findCutPoint longResultPath 0 3 4).firstKeptEntryIndex = 0 ∧
      ¬ KeepsRequestedTail longResultPath 0 3 4 := by
  refine ⟨by decide, fun h => ?_⟩
  have hmessage := h.tail 2 1 ⟨by decide, by decide, by decide, fun j hj hj' => by omega⟩
    ⟨by decide, by decide, fun c hc _ => by
      have : ∀ c ∈ findValidCutPoints longResultPath 0 3, c ≤ 1 := by decide
      exact this c hc⟩ 0 (by decide) (by decide)
  cases hmessage

end Amide
