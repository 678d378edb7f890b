import Amide.Properties.Compaction.CutPoint

/-!
# Tool results and the cut

A cut is placed by the kind of the entry it stands in front of.  An entry of another kind that
stands between a tool call and its result may be one, and then the result is kept without its call.
For a given path there is a budget with which that happens exactly when such an entry has a message
with a nonzero estimate at or before it, behind the call (`findCutPoint_keepsCalls_iff`).
-/

namespace Amide

open SessionEntry Option

/-! ## Calls and results -/

/-- The entry is an assistant message that calls the id. -/
def SessionEntry.calls (e : SessionEntry) (id : String) : Bool :=
  match e.body with
  | .message (.assistant m) => (m.toolCalls.map (·.id)).contains id
  | _ => false

/-- The id the entry is a tool result for. -/
def SessionEntry.resultFor? (e : SessionEntry) : Option String :=
  match e.body with
  | .message (.toolResult m) => some m.toolCallId
  | _ => none

def callsAt (path : List SessionEntry) (a : ℕ) (id : String) : Prop :=
  path[a]?.any (·.calls id) = true

instance (path : List SessionEntry) (a : ℕ) (id : String) : Decidable (callsAt path a id) :=
  inferInstanceAs (Decidable (path[a]?.any (·.calls id) = true))

/-- The entry at `a` is the last in front of the tool result at `r` that calls its id. -/
def CallOf (path : List SessionEntry) (a r : ℕ) : Prop :=
  a < r ∧ ∃ id, path[r]?.bind resultFor? = some id ∧ callsAt path a id ∧
    ∀ b, a < b → b < r → ¬ callsAt path b id

/-- The entries from `cut` on hold no tool result whose call stands in front of it. -/
def KeepsCalls (path : List SessionEntry) (cut : ℕ) : Prop :=
  ∀ a r, CallOf path a r → cut ≤ r → cut ≤ a

def cutPointAt (path : List SessionEntry) (c : ℕ) : Prop :=
  path[c]?.any isCutPoint = true

def messageAt (path : List SessionEntry) (i : ℕ) : Option AgentMessage :=
  path[i]?.bind message?

variable {path : List SessionEntry} {startIndex : ℕ}
variable {a r : ℕ}

lemma CallOf.cutPointAt (h : CallOf path a r) : cutPointAt path a := by
  obtain ⟨-, id, -, hcall, -⟩ := h
  unfold callsAt at hcall
  unfold Amide.cutPointAt
  cases ha : path[a]? with
  | none => simp [ha] at hcall
  | some e =>
    rw [ha, any_some] at hcall
    unfold calls at hcall
    split at hcall
    · rename_i hbody
      simp [isCutPoint, hbody, AgentMessage.isCutPoint]
    · cases hcall

lemma CallOf.messageAt_call (h : CallOf path a r) : (messageAt path a).isSome = true := by
  obtain ⟨-, id, -, hcall, -⟩ := h
  unfold callsAt at hcall
  unfold messageAt
  cases ha : path[a]? with
  | none => simp [ha] at hcall
  | some e =>
    rw [ha, any_some] at hcall
    unfold calls at hcall
    split at hcall
    · rename_i hbody
      simp [message?, hbody]
    · cases hcall

/-- A tool result is a message and no cut point. -/
lemma CallOf.result (h : CallOf path a r) :
    (messageAt path r).isSome = true ∧ ¬ Amide.cutPointAt path r := by
  obtain ⟨-, id, hres, -, -⟩ := h
  unfold messageAt Amide.cutPointAt
  obtain ⟨e, he, hid⟩ := bind_eq_some_iff.mp hres
  unfold resultFor? at hid
  split at hid
  · rename_i hbody
    simp [he, message?, isCutPoint, hbody, AgentMessage.isCutPoint]
  · cases hid

/-! ## Where the budget is used up -/

/-- The estimates of the messages from index `i` on, before index `m`. -/
def tokensBetween (path : List SessionEntry) (i m : ℕ) : ℕ :=
  ((((path.take m).drop i).filterMap message?).map estimateTokens).sum

lemma tokensBetween_self (m : ℕ) : tokensBetween path m m = 0 := by
  simp [tokensBetween, List.drop_eq_nil_of_le]

variable {i m : ℕ}

lemma tokensBetween_succ (h : i ≤ m) : tokensBetween path i (m + 1) =
      tokensBetween path i m + ((messageAt path m).map estimateTokens).getD 0 := by
  unfold tokensBetween messageAt
  rw [List.take_add_one]
  cases hm : path[m]? with
  | none => simp
  | some e =>
    have hlen : i ≤ (path.take m).length := by
      obtain ⟨hlt, -⟩ := List.getElem?_eq_some_iff.mp hm
      simp only [List.length_take]
      omega
    rw [List.drop_append_of_le_length hlen]
    cases he : e.message? <;> simp [he]

lemma tokensBetween_eq_add (h : i < m) : tokensBetween path i m =
      ((messageAt path i).map estimateTokens).getD 0 + tokensBetween path (i + 1) m := by
  unfold tokensBetween messageAt
  cases hi : path[i]? with
  | none =>
    have hlen : path.length ≤ i := List.getElem?_eq_none_iff.mp hi
    have hout (j : ℕ) (hj : i ≤ j) : (path.take m).drop j = [] :=
      List.drop_eq_nil_of_le (by simp only [List.length_take]; omega)
    simp [hout i (Nat.le_refl i), hout (i + 1) (Nat.le_succ i)]
  | some e =>
    have htake : (path.take m)[i]? = some e := by rw [List.getElem?_take_of_lt h, hi]
    obtain ⟨hlt, hget⟩ := List.getElem?_eq_some_iff.mp htake
    rw [List.drop_eq_getElem_cons hlt, hget]
    cases he : e.message? <;> simp [he]

lemma tokensBetween_anti {j : ℕ} (h : i ≤ j) (hj : j ≤ m) :
    tokensBetween path j m ≤ tokensBetween path i m := by
  induction j, h using Nat.le_induction with
  | base => exact Nat.le_refl _
  | succ j _ ih =>
    have hstep : tokensBetween path j m =
        ((messageAt path j).map estimateTokens).getD 0 + tokensBetween path (j + 1) m :=
      tokensBetween_eq_add (by omega)
    have := ih (by omega)
    omega

/-- The budget is used up at the last message from which on the estimates reach it. -/
lemma budgetIndex_eq_some_iff {k acc : ℕ} : budgetIndex path startIndex k m acc = some i ↔
      startIndex ≤ i ∧ i < m ∧ (messageAt path i).isSome = true ∧ k ≤ acc + tokensBetween path i m ∧
        ∀ x, i < x → x < m → (messageAt path x).isSome = true →
          acc + tokensBetween path x m < k := by
  induction m generalizing acc with
  | zero => simp [budgetIndex]
  | succ m ih =>
    unfold budgetIndex
    by_cases hlt : m < startIndex
    · rw [if_pos hlt]
      refine ⟨fun h => (some_ne_none i h.symm).elim, fun h => ?_⟩
      omega
    have hmsg : path[m]?.bind message? = messageAt path m := rfl
    rw [if_neg hlt, hmsg]
    cases hm : messageAt path m with
    | none =>
      have hsucc {x : ℕ} (hx : x ≤ m) : tokensBetween path x (m + 1) = tokensBetween path x m := by
        rw [tokensBetween_succ hx, hm]
        rfl
      rw [ih]
      constructor
      · rintro ⟨hs, hi, hsome, hk, hall⟩
        refine ⟨hs, by omega, hsome, by rw [hsucc (by omega)]; exact hk, fun x hx hxm hsx => ?_⟩
        have hne : x ≠ m := fun heq => by simp [heq, hm] at hsx
        rw [hsucc (by omega)]
        exact hall x hx (by omega) hsx
      · rintro ⟨hs, hi, hsome, hk, hall⟩
        have hne : i ≠ m := fun heq => by simp [heq, hm] at hsome
        rw [hsucc (by omega)] at hk
        refine ⟨hs, by omega, hsome, hk, fun x hx hxm hsx => ?_⟩
        have := hall x hx (by omega) hsx
        rwa [hsucc (by omega)] at this
    | some t =>
      have hsucc {x : ℕ} (hx : x ≤ m) :
          tokensBetween path x (m + 1) = tokensBetween path x m + estimateTokens t := by
        rw [tokensBetween_succ hx, hm]
        rfl
      have hself : tokensBetween path m (m + 1) = estimateTokens t := by
        rw [hsucc (Nat.le_refl m), tokensBetween_self, Nat.zero_add]
      simp only
      split_ifs with hle
      · -- the budget is used up here
        constructor
        · rintro ⟨⟩
          exact ⟨by omega, by omega, by simp [hm], by omega, fun x hx hxm => by omega⟩
        · rintro ⟨hs, hi, hsome, hk, hall⟩
          rcases Nat.lt_or_eq_of_le (Nat.le_of_lt_succ hi) with hlt | rfl
          · have := hall m hlt (Nat.lt_succ_self m) (by simp [hm])
            omega
          · rfl
      · rw [ih]
        constructor
        · rintro ⟨hs, hi, hsome, hk, hall⟩
          refine ⟨hs, by omega, hsome, ?_, fun x hx hxm hsx => ?_⟩
          · rw [hsucc (by omega)]
            omega
          · rcases Nat.lt_or_eq_of_le (Nat.le_of_lt_succ hxm) with hlt | rfl
            · have := hall x hx hlt hsx
              rw [hsucc (by omega)]
              omega
            · omega
        · rintro ⟨hs, hi, hsome, hk, hall⟩
          have hne : i ≠ m := fun heq => by
            subst heq
            omega
          rw [hsucc (by omega)] at hk
          refine ⟨hs, by omega, hsome, by omega, fun x hx hxm hsx => ?_⟩
          have := hall x hx (by omega) hsx
          rw [hsucc (by omega)] at this
          omega

/-! ## Which cut is taken -/

lemma mem_findValidCutPoints_iff {c : ℕ} : c ∈ findValidCutPoints path startIndex path.length ↔
      startIndex ≤ c ∧ cutPointAt path c := by
  rw [findValidCutPoints, List.mem_filter, List.mem_range'_1]
  constructor
  · rintro ⟨hrange, hcut⟩
    exact ⟨hrange.1, hcut⟩
  · rintro ⟨hs, hcut⟩
    have hlt : c < path.length := by
      by_contra hge
      simp [cutPointAt, List.getElem?_eq_none (Nat.le_of_not_lt hge)] at hcut
    exact ⟨⟨hs, by omega⟩, hcut⟩

lemma sorted_findValidCutPoints (path : List SessionEntry) (startIndex endIndex : ℕ) :
    (findValidCutPoints path startIndex endIndex).Pairwise (· < ·) :=
  (List.pairwise_lt_range' ..).filter _

/-- With the budget used up at `i`, the cut is the first at or behind it. -/
lemma chooseCut_le {firstCut : ℕ} {cuts : List ℕ} (hsorted : (firstCut :: cuts).Pairwise (· < ·))
    {x : ℕ} (hx : x ∈ firstCut :: cuts) (hix : i ≤ x) :
    i ≤ chooseCut firstCut cuts (some i) ∧ chooseCut firstCut cuts (some i) ≤ x := by
  have hchoose : chooseCut firstCut cuts (some i) =
      ((firstCut :: cuts).find? (i ≤ ·)).getD firstCut := rfl
  rw [hchoose]
  cases hfind : (firstCut :: cuts).find? (i ≤ ·) with
  | none => simpa [hix] using List.find?_eq_none.mp hfind x hx
  | some c =>
    obtain ⟨hc, as, bs, hsplit, has⟩ := List.find?_eq_some_iff_append.mp hfind
    refine ⟨by simpa using hc, ?_⟩
    rw [hsplit] at hx hsorted
    rcases List.mem_append.mp hx with hx | hx
    · have := has x hx
      simp only [Bool.not_eq_true', decide_eq_false_iff_not] at this
      omega
    · rcases List.mem_cons.mp hx with rfl | hx
      · exact Nat.le_refl _
      · have htail := (List.pairwise_append.mp hsorted).2.1
        exact Nat.le_of_lt ((List.pairwise_cons.mp htail).1 x hx)

/-- Where the budget is not used up, or no cut is left behind where it is, the first cut is
taken. -/
lemma chooseCut_eq_or (firstCut : ℕ) (cuts : List ℕ) (budget : Option ℕ) :
    chooseCut firstCut cuts budget = firstCut ∨
      ∃ i, budget = some i ∧ i ≤ chooseCut firstCut cuts budget := by
  cases budget with
  | none => exact .inl rfl
  | some i =>
    have hchoose : chooseCut firstCut cuts (some i) =
        ((firstCut :: cuts).find? (i ≤ ·)).getD firstCut := rfl
    cases hfind : (firstCut :: cuts).find? (i ≤ ·) with
    | none =>
      rw [hchoose, hfind]
      exact .inl rfl
    | some c =>
      refine .inr ⟨i, rfl, ?_⟩
      rw [hchoose, hfind]
      simpa using List.find?_some hfind

/-- The slide back over bookkeeping entries ends behind the last message. -/
lemma lt_slideBack {x c : ℕ} (hmsg : (messageAt path x).isSome = true)
    (hx : x < c) : x < slideBack path startIndex c := by
  induction c with
  | zero => omega
  | succ c ih =>
    unfold slideBack
    split_ifs with hlt hstop
    · exact hx
    · exact hx
    · rcases Nat.lt_or_eq_of_le (Nat.le_of_lt_succ hx) with hlt | rfl
      · exact ih hlt
      · -- at a message it stops
        refine absurd ?_ hstop
        unfold messageAt at hmsg
        cases hget : path[x]? with
        | none => simp [hget] at hmsg
        | some e =>
          rw [hget, bind_some] at hmsg
          simp [hmsg]

lemma findCutPoint_of_nil {keepRecentTokens : ℕ}
    (h : findValidCutPoints path startIndex path.length = []) :
    (findCutPoint path startIndex path.length keepRecentTokens).firstKeptEntryIndex =
      startIndex := by
  simp [findCutPoint, h]

lemma findCutPoint_of_cons {keepRecentTokens firstCut : ℕ} {cuts : List ℕ}
    (h : findValidCutPoints path startIndex path.length = firstCut :: cuts) :
    (findCutPoint path startIndex path.length keepRecentTokens).firstKeptEntryIndex =
      slideBack path startIndex (chooseCut firstCut cuts
        (budgetIndex path startIndex keepRecentTokens path.length 0)) := by
  simp [findCutPoint, h]

/-! ## When every budget keeps calls and results together -/

/-- Behind a call and in front of its result there is no cut point at or behind a message with a
nonzero estimate; and if the path is only read from between the two, the next cut point stands
behind the result. -/
structure Uninterrupted (path : List SessionEntry) (startIndex : ℕ) : Prop where
  within : ∀ a r, CallOf path a r → startIndex ≤ a → ∀ c, a < c → c < r → cutPointAt path c →
    ∀ i, a < i → i ≤ c → ∀ m ∈ messageAt path i, estimateTokens m = 0
  across : ∀ a r, CallOf path a r → a < startIndex → startIndex ≤ r →
    (∃ c, startIndex ≤ c ∧ cutPointAt path c) ∧ ∀ c, startIndex ≤ c → c ≤ r → ¬ cutPointAt path c

/-- The next message behind an index; the entries in between have no estimate. -/
lemma exists_next_message {x : ℕ} (hix : i ≤ x) (hxm : x < m)
    (hx : (messageAt path x).isSome = true) :
    ∃ y, i ≤ y ∧ y < m ∧ (messageAt path y).isSome = true ∧
      tokensBetween path i m = tokensBetween path y m := by
  induction hd : x - i generalizing i with
  | zero => exact ⟨x, hix, hxm, hx, by rw [show i = x by omega]⟩
  | succ d ih =>
    cases hi : messageAt path i with
    | some _ => exact ⟨i, Nat.le_refl i, by omega, by simp [hi], rfl⟩
    | none =>
      obtain ⟨y, hiy, hym, hy, heq⟩ := @ih (i + 1) (by omega) (by omega)
      refine ⟨y, by omega, hym, hy, ?_⟩
      rw [tokensBetween_eq_add (by omega), hi, map_none, getD_none, Nat.zero_add, heq]

/-- A message in front of another has an estimate, if the budget is used up at it. -/
lemma estimateTokens_ne_zero_of_budgetIndex {k x : ℕ} {m : AgentMessage}
    (h : budgetIndex path startIndex k path.length 0 = some i) (hix : i < x)
    (hx : (messageAt path x).isSome = true) (hm : messageAt path i = some m) :
    estimateTokens m ≠ 0 := by
  have hxlt : x < path.length := by
    by_contra hge
    simp [messageAt, List.getElem?_eq_none (Nat.le_of_not_lt hge)] at hx
  obtain ⟨-, hi, -, hk, hall⟩ := budgetIndex_eq_some_iff.mp h
  intro hzero
  -- the next message would have reached the budget already
  obtain ⟨y, hiy, hylt, hy, heq⟩ := exists_next_message (Nat.succ_le_of_lt hix) hxlt hx
  have hlt := hall y hiy hylt hy
  rw [tokensBetween_eq_add hi, hm, map_some, getD_some, hzero, heq] at hk
  omega

/-- A budget that is used up at a message with a nonzero estimate. -/
lemma exists_budget {m : AgentMessage} (hs : startIndex ≤ i) (hm : messageAt path i = some m)
    (hne : estimateTokens m ≠ 0) : ∃ k, budgetIndex path startIndex k path.length 0 = some i := by
  have hlt : i < path.length := by
    by_contra hge
    simp [messageAt, List.getElem?_eq_none (Nat.le_of_not_lt hge)] at hm
  refine ⟨tokensBetween path i path.length, budgetIndex_eq_some_iff.mpr
    ⟨hs, hlt, by simp [hm], by omega, fun x hix hx _ => ?_⟩⟩
  have hle : tokensBetween path x path.length ≤ tokensBetween path (i + 1) path.length :=
    tokensBetween_anti (Nat.succ_le_of_lt hix) (Nat.le_of_lt hx)
  rw [tokensBetween_eq_add hlt, hm, map_some, getD_some]
  omega

lemma exists_budget_none (path : List SessionEntry) (startIndex : ℕ) :
    ∃ k, budgetIndex path startIndex k path.length 0 = none := by
  refine ⟨tokensBetween path 0 path.length + 1, ?_⟩
  cases hi : budgetIndex path startIndex (tokensBetween path 0 path.length + 1) path.length 0 with
  | none => rfl
  | some i =>
    obtain ⟨-, hlt, -, hk, -⟩ := budgetIndex_eq_some_iff.mp hi
    have : tokensBetween path i path.length ≤ tokensBetween path 0 path.length :=
      tokensBetween_anti (Nat.zero_le i) (Nat.le_of_lt hlt)
    omega

lemma Uninterrupted.keepsCalls (h : Uninterrupted path startIndex) (keepRecentTokens : ℕ) :
    KeepsCalls path
      (findCutPoint path startIndex path.length keepRecentTokens).firstKeptEntryIndex := by
  intro a r hcall hcut
  cases hcuts : findValidCutPoints path startIndex path.length with
  | nil =>
    rw [findCutPoint_of_nil hcuts] at hcut ⊢
    by_contra ha
    obtain ⟨⟨c, hs, hc⟩, -⟩ := h.across a r hcall (Nat.lt_of_not_le ha) hcut
    have := mem_findValidCutPoints_iff.mpr ⟨hs, hc⟩
    rw [hcuts] at this
    cases this
  | cons firstCut cuts =>
    rw [findCutPoint_of_cons hcuts] at hcut ⊢
    set budget := budgetIndex path startIndex keepRecentTokens path.length 0 with hbudget
    set c := chooseCut firstCut cuts budget with hc
    have hmem {x : ℕ} : x ∈ firstCut :: cuts ↔ startIndex ≤ x ∧ cutPointAt path x := by
      rw [← hcuts, mem_findValidCutPoints_iff]
    have hsorted : (firstCut :: cuts).Pairwise (· < ·) := hcuts ▸ sorted_findValidCutPoints ..
    obtain ⟨hsc, hcutc⟩ := hmem.mp (chooseCut_mem firstCut cuts budget)
    have hle : slideBack path startIndex c ≤ c := slideBack_le c
    have hsr : startIndex ≤ r := Nat.le_trans (le_slideBack hsc) hcut
    -- the cut point stands in front of the result
    have hcr : c < r := by
      have hne : c ≠ r := fun heq => hcall.result.2 (heq ▸ hcutc)
      by_contra hge
      have : r < slideBack path startIndex c := lt_slideBack hcall.result.1 (by omega)
      omega
    by_contra ha
    by_cases hsa : startIndex ≤ a
    · -- and behind the call, so it is not the first
      have hfirst : firstCut ≤ a := by
        rcases List.mem_cons.mp (hmem.mpr ⟨hsa, hcall.cutPointAt⟩) with rfl | hin
        · exact Nat.le_refl _
        · exact Nat.le_of_lt ((List.pairwise_cons.mp hsorted).1 a hin)
      rcases chooseCut_eq_or firstCut cuts budget with heq | ⟨i, hi, hic⟩
      · omega
      · have hai : a < i := by
          by_contra hia
          have := (chooseCut_le hsorted (hmem.mpr ⟨hsa, hcall.cutPointAt⟩)
            (Nat.le_of_not_lt hia)).2
          rw [hi] at hc
          omega
        obtain ⟨-, -, hsome, -⟩ := budgetIndex_eq_some_iff.mp (hbudget ▸ hi)
        obtain ⟨m, hm⟩ := isSome_iff_exists.mp hsome
        refine estimateTokens_ne_zero_of_budgetIndex (hbudget ▸ hi) (show i < r by omega)
          hcall.result.1 hm ?_
        exact h.within a r hcall hsa c (by omega) hcr hcutc i hai hic m hm
    · exact (h.across a r hcall (Nat.lt_of_not_le hsa) hsr).2 c hsc (Nat.le_of_lt hcr) hcutc

/-- **When a cut keeps calls and results together.**  For a path read from `startIndex` on, with
every budget, exactly if no cut point interrupts a call. -/
theorem findCutPoint_keepsCalls_iff (path : List SessionEntry) (startIndex : ℕ) :
    (∀ keepRecentTokens, KeepsCalls path
      (findCutPoint path startIndex path.length keepRecentTokens).firstKeptEntryIndex) ↔
      Uninterrupted path startIndex := by
  refine ⟨fun h => ⟨?_, ?_⟩, fun h => h.keepsCalls⟩
  · intro a r hcall hsa c hac hcr hcutc i hai hic m hm
    by_contra hne
    obtain ⟨k, hk⟩ := @exists_budget path startIndex i m (by omega) hm hne
    have hcmem := mem_findValidCutPoints_iff.mpr ⟨show startIndex ≤ c by omega, hcutc⟩
    have hkeep := h k a r hcall
    have hsorted := sorted_findValidCutPoints path startIndex path.length
    cases hcuts : findValidCutPoints path startIndex path.length with
    | nil =>
      rw [hcuts] at hcmem
      cases hcmem
    | cons firstCut cuts =>
      rw [hcuts] at hcmem hsorted
      rw [findCutPoint_of_cons hcuts, hk] at hkeep
      obtain ⟨hi, hc⟩ := chooseCut_le hsorted hcmem hic
      have hle : slideBack path startIndex (chooseCut firstCut cuts (some i)) ≤
          chooseCut firstCut cuts (some i) := slideBack_le _
      have hlt : a < slideBack path startIndex (chooseCut firstCut cuts (some i)) :=
        lt_slideBack hcall.messageAt_call (by omega)
      have := hkeep (by omega)
      omega
  · intro a r hcall has hsr
    have hcuts : findValidCutPoints path startIndex path.length ≠ [] := fun hnil => by
      have := h 0 a r hcall
      rw [findCutPoint_of_nil hnil] at this
      omega
    obtain ⟨firstCut, cuts, hcuts⟩ := List.exists_cons_of_ne_nil hcuts
    have hmem {x : ℕ} : x ∈ firstCut :: cuts ↔ startIndex ≤ x ∧ cutPointAt path x := by
      rw [← hcuts, mem_findValidCutPoints_iff]
    have hsorted : (firstCut :: cuts).Pairwise (· < ·) := hcuts ▸ sorted_findValidCutPoints ..
    refine ⟨⟨firstCut, hmem.mp List.mem_cons_self⟩, fun c hsc hcr hcutc => ?_⟩
    obtain ⟨k, hk⟩ := exists_budget_none path startIndex
    have hkeep := h k a r hcall
    rw [findCutPoint_of_cons hcuts, hk] at hkeep
    have hfirst : firstCut ≤ c := by
      rcases List.mem_cons.mp (hmem.mpr ⟨hsc, hcutc⟩) with rfl | hin
      · exact Nat.le_refl _
      · exact Nat.le_of_lt ((List.pairwise_cons.mp hsorted).1 c hin)
    have hle : slideBack path startIndex firstCut ≤ firstCut := slideBack_le firstCut
    have hge : startIndex ≤ slideBack path startIndex firstCut :=
      le_slideBack (hmem.mp List.mem_cons_self).1
    have hkept : slideBack path startIndex firstCut ≤ a :=
      hkeep (Nat.le_trans hle (Nat.le_trans hfirst hcr))
    omega

/-- Each tool result stands behind its call and in front of the next user message. -/
def ResultsInTurn (path : List SessionEntry) : Prop :=
  ∀ r < path.length, (path[r]?.bind resultFor?).isSome = true →
    ∃ a, CallOf path a r ∧ ∀ u, a < u → u < r →
      ¬ (path[u]?.bind message?).any AgentMessage.isUser = true

/-! ### A custom message between two results -/

def resultBody (toolCallId text : String) : EntryBody :=
  .message (.toolResult
    { toolCallId, toolName := "read", content := [.text { text }], isError := false
      timestamp := 0 })

def callsBody (ids : List String) : EntryBody :=
  .message (.assistant
    { content := ids.map fun id => .toolCall { id, name := "read", arguments := .obj [] }
      api := "api", provider := "provider", model := "model", usage := plainUsage
      stopReason := .toolUse, timestamp := 0 })

def interruptedPath : List SessionEntry :=
  [plainEntry "a" none (userBody "go"), plainEntry "b" (some "a") (callsBody ["x", "y"]),
    plainEntry "c" (some "b") (resultBody "x" "some text"),
    plainEntry "d" (some "c") (.customMessage
      { customType := "note", content := .string "hi", display := true }),
    plainEntry "e" (some "d") (resultBody "y" "more")]

lemma callOf_interruptedPath : CallOf interruptedPath 1 2 ∧ CallOf interruptedPath 1 4 :=
  ⟨⟨by decide, "x", by decide, by decide, fun b h h' => absurd h (by omega)⟩,
    ⟨by decide, "y", by decide, by decide, fun b h h' => by
      obtain rfl | rfl : b = 2 ∨ b = 3 := by omega
      · decide
      · decide⟩⟩

/-- **A custom message takes a result from its call.**  The budget is used up at the first result,
and the cut is made in front of the custom message behind it. -/
theorem interruptedPath_not_keepsCalls : ResultsInTurn interruptedPath ∧
      ¬ KeepsCalls interruptedPath (findCutPoint interruptedPath 0 5 3).firstKeptEntryIndex := by
  constructor
  · intro r hr hres
    obtain rfl | rfl | rfl | rfl | rfl : r = 0 ∨ r = 1 ∨ r = 2 ∨ r = 3 ∨ r = 4 := by
      change r < 5 at hr
      omega
    · cases hres
    · cases hres
    · exact ⟨1, callOf_interruptedPath.1, fun u h h' => absurd h (by omega)⟩
    · cases hres
    · refine ⟨1, callOf_interruptedPath.2, fun u h h' => ?_⟩
      obtain rfl | rfl : u = 2 ∨ u = 3 := by omega
      · decide
      · decide
  · intro hkeeps
    have hcut : (findCutPoint interruptedPath 0 5 3).firstKeptEntryIndex = 3 := by decide
    have := hkeeps 1 4 callOf_interruptedPath.2
    omega

end Amide
