import Amide.Properties.Compaction.KeptTail

/-!
# Turns that a cut splits

Whether a turn is split is read off the entry the cut is made at, after it has moved back over
bookkeeping entries.  So it is only reported rightly where that entry is a user message, or where
the part that is kept begins in the middle of a turn that starts within the range, or begins a turn
behind bookkeeping entries with no turn in front (`splitsExactly_iff`).
-/

namespace Amide

variable {path : List SessionEntry} {startIndex keepRecentTokens c f k n t x : ℕ}

/-! ## Turns -/

/-- The entry gives a message. -/
def shownAt (path : List SessionEntry) (x : ℕ) : Prop :=
  (path[x]?.bind getMessageFromEntryForCompaction).isSome = true

def turnStartAt (path : List SessionEntry) (x : ℕ) : Prop :=
  path[x]?.any SessionEntry.isTurnStart = true

def userAt (path : List SessionEntry) (x : ℕ) : Prop :=
  (path[x]?.bind SessionEntry.message?).any AgentMessage.isUser = true

/-- The first entry from an index on that gives a message. -/
structure FirstMessage (path : List SessionEntry) (k f : ℕ) : Prop where
  le : k ≤ f
  shown : shownAt path f
  first : ∀ x, k ≤ x → x < f → ¬ shownAt path x

/-- The nearest entry before an index that starts a turn. -/
structure NearestTurnStart (path : List SessionEntry) (f t : ℕ) : Prop where
  lt : t < f
  turnStart : turnStartAt path t
  nearest : ∀ x, t < x → x < f → ¬ turnStartAt path x

lemma FirstMessage.unique (h : FirstMessage path k f) (h' : FirstMessage path k x) : f = x := by
  rcases Nat.lt_trichotomy f x with hlt | heq | hlt
  · exact absurd h.shown (h'.first f h.le hlt)
  · exact heq
  · exact absurd h'.shown (h.first x h'.le hlt)

lemma exists_firstMessage (hk : k ≤ x) (hx : shownAt path x) :
    ∃ f, f ≤ x ∧ FirstMessage path k f := by
  classical
  have hex : ∃ f, k ≤ f ∧ shownAt path f := ⟨x, hk, hx⟩
  exact ⟨Nat.find hex, Nat.find_min' hex ⟨hk, hx⟩, (Nat.find_spec hex).1, (Nat.find_spec hex).2,
    fun y hky hy hshown => Nat.find_min hex hy ⟨hky, hshown⟩⟩

/-- A user message starts a turn. -/
lemma userAt.turnStartAt (h : userAt path x) : turnStartAt path x := by
  unfold userAt at h
  unfold Amide.turnStartAt
  cases hx : path[x]? with
  | none => simp [hx] at h
  | some e =>
    rw [hx, Option.bind_some] at h
    rw [Option.any_some]
    unfold SessionEntry.message? at h
    unfold SessionEntry.isTurnStart
    split at h
    · exact (Bool.or_eq_true _ _).mpr (.inl h)
    · cases h

/-- A compaction may cut in front of every entry that starts a turn. -/
lemma turnStartAt.cutPointAt (h : turnStartAt path x) : cutPointAt path x := by
  unfold turnStartAt at h
  unfold Amide.cutPointAt
  cases hx : path[x]? with
  | none => simp [hx] at h
  | some e =>
    rw [hx, Option.any_some] at h
    obtain ⟨_, _, _, body⟩ := e
    cases body with
    | message m => cases m <;> first | rfl | cases h
    | _ => first | rfl | cases h

/-- Every entry it may cut in front of gives a message. -/
lemma cutPointAt.shownAt (h : cutPointAt path x) : shownAt path x := by
  unfold cutPointAt at h
  unfold Amide.shownAt
  cases hx : path[x]? with
  | none => simp [hx] at h
  | some e =>
    rw [hx, Option.any_some] at h
    obtain ⟨_, _, _, body⟩ := e
    cases body <;> first | rfl | cases h

lemma turnStartBelow_eq_some_iff : turnStartBelow path startIndex n = some t ↔
    startIndex ≤ t ∧ NearestTurnStart path n t := by
  induction n with
  | zero =>
    exact ⟨fun h => (Option.some_ne_none t h.symm).elim, fun h => absurd h.2.lt (Nat.not_lt_zero t)⟩
  | succ n ih =>
    unfold turnStartBelow
    split_ifs with hlt hstart
    · refine ⟨False.elim, fun h => ?_⟩
      have := h.2.lt
      omega
    · constructor
      · rintro ⟨⟩
        exact ⟨Nat.le_of_not_lt hlt, Nat.lt_succ_self _, hstart, fun x hx hx' => by omega⟩
      · rintro ⟨-, hlt', hstart', hnearest⟩
        rcases Nat.lt_or_eq_of_le (Nat.le_of_lt_succ hlt') with hlt' | rfl
        · exact absurd hstart (hnearest n hlt' (Nat.lt_succ_self n))
        · rfl
    · rw [ih]
      constructor
      · rintro ⟨hs, hlt', hstart', hnearest⟩
        refine ⟨hs, Nat.lt_succ_of_lt hlt', hstart', fun x hx hx' => ?_⟩
        rcases Nat.lt_or_eq_of_le (Nat.le_of_lt_succ hx') with hx' | rfl
        · exact hnearest x hx hx'
        · exact hstart
      · rintro ⟨hs, hlt', hstart', hnearest⟩
        have hne : t ≠ n := fun heq => hstart (heq ▸ hstart')
        exact ⟨hs, by omega, hstart', fun x hx hx' => hnearest x hx (Nat.lt_succ_of_lt hx')⟩

/-- A turn that starts in the range, below an index. -/
lemma exists_turnStartBelow (hs : startIndex ≤ x) (hx : x < n) (hstart : turnStartAt path x) :
    ∃ t, turnStartBelow path startIndex n = some t := by
  obtain ⟨t, hxt, ht, hstart', hlast⟩ := exists_greatest (p := turnStartAt path) hx hstart
  exact ⟨t, turnStartBelow_eq_some_iff.mpr ⟨Nat.le_trans hs hxt, ht, hstart', hlast⟩⟩

/-! ## The report -/

/-- The messages `prepareCompaction` takes for the prefix of a turn that is split. -/
def turnPrefix (path : List SessionEntry) (cut : CutPointResult) : List AgentMessage :=
  if cut.isSplitTurn then
    messagesBetween path (cut.turnStartIndex.getD 0) cut.firstKeptEntryIndex
  else []

/-- It does so where `findCutPoint` makes its cut. -/
theorem turnPrefixMessages_eq {settings : CompactionSettings} {p : CompactionPreparation}
    (h : prepareCompaction path settings = some p) :
    p.turnPrefixMessages = turnPrefix path (findCutPoint path
      (boundaryStart path (lastCompaction path path.length)) path.length
      settings.keepRecentTokens) :=
  (prepareCompaction_cases h).2.2.1

/-- A turn is reported as split exactly when the first message that is kept does not start one; its
start is then the nearest before that message; and where a turn starts nothing is taken for the
prefix of one. -/
structure SplitsExactly (path : List SessionEntry) (cut : CutPointResult) : Prop where
  split : cut.isSplitTurn = true ↔
    ∃ f, FirstMessage path cut.firstKeptEntryIndex f ∧ ¬ turnStartAt path f
  turn : cut.isSplitTurn = true → ∀ f, FirstMessage path cut.firstKeptEntryIndex f →
    ∃ t, cut.turnStartIndex = some t ∧ NearestTurnStart path f t
  whole : ∀ f, FirstMessage path cut.firstKeptEntryIndex f → turnStartAt path f →
    turnPrefix path cut = []

/-- From a cut point the entries in front that are neither messages nor compactions reach back to
an index. -/
structure SlidesTo (path : List SessionEntry) (startIndex c k : ℕ) : Prop where
  le : k ≤ c
  start : startIndex ≤ k
  between : ∀ x, k ≤ x → x < c → ¬ stopsAt path x
  stop : startIndex < k → stopsAt path (k - 1)

lemma slidesTo_iff (hc : startIndex ≤ c) :
    SlidesTo path startIndex c k ↔ slideBack path startIndex c = k := by
  constructor
  · rintro ⟨hle, hstart, hover, hstop⟩
    refine Nat.le_antisymm (Nat.le_of_not_lt fun hlt => ?_) (Nat.le_of_not_lt fun hlt => ?_)
    · obtain ⟨y, hky, hyc, hy⟩ := (lt_slideBack_iff hstart).mp hlt
      exact hover y hky hyc hy
    · have hpos : startIndex < k := Nat.lt_of_le_of_lt (le_slideBack hc) hlt
      have hstart' : startIndex ≤ k - 1 := Nat.le_sub_one_of_lt hpos
      have : k - 1 < slideBack path startIndex c :=
        (lt_slideBack_iff hstart').mpr ⟨k - 1, Nat.le_refl _, by omega, hstop hpos⟩
      omega
  · rintro rfl
    refine ⟨slideBack_le c, le_slideBack hc, fun x hx hxc hstop => ?_, fun hlt => ?_⟩
    · have : x < slideBack path startIndex c :=
        (lt_slideBack_iff (Nat.le_trans (le_slideBack hc) hx)).mpr ⟨x, Nat.le_refl x, hxc, hstop⟩
      omega
    · have hstart' : startIndex ≤ slideBack path startIndex c - 1 := Nat.le_sub_one_of_lt hlt
      have hlt' : slideBack path startIndex c - 1 < slideBack path startIndex c := by omega
      obtain ⟨y, hy, hyc, hstop⟩ := (lt_slideBack_iff hstart').mp hlt'
      have : y < slideBack path startIndex c :=
        (lt_slideBack_iff (Nat.le_trans hstart' hy)).mpr ⟨y, Nat.le_refl y, hyc, hstop⟩
      rwa [show y = slideBack path startIndex c - 1 by omega] at hstop

/-- The first message that is kept is that of the user and first of all that is kept; or it starts
a turn behind other entries, and none starts in front; or it is in a turn that starts in the range.
Where there is no cut point there is no message at all. -/
structure TurnAtCut (path : List SessionEntry) (startIndex keepRecentTokens : ℕ) : Prop where
  empty : findValidCutPoints path startIndex path.length = [] →
    ∀ x, startIndex ≤ x → ¬ shownAt path x
  first : ∀ c k f, Picked path startIndex path.length keepRecentTokens c →
    SlidesTo path startIndex c k → FirstMessage path k f →
    (userAt path f ∧ f = k) ∨
      (turnStartAt path f ∧ k < f ∧ ∀ x, startIndex ≤ x → x < f → ¬ turnStartAt path x) ∨
      (¬ turnStartAt path f ∧ ∃ x, startIndex ≤ x ∧ x < f ∧ turnStartAt path x)

/-- What is reported for a cut. -/
lemma isSplitTurn_of_picked (h : Picked path startIndex path.length keepRecentTokens c)
    (hk : SlidesTo path startIndex c k) :
    (findCutPoint path startIndex path.length keepRecentTokens).firstKeptEntryIndex = k ∧
      (¬ userAt path k → (findCutPoint path startIndex path.length
        keepRecentTokens).turnStartIndex = turnStartBelow path startIndex (k + 1)) ∧
      ((findCutPoint path startIndex path.length keepRecentTokens).isSplitTurn = true ↔
        ¬ userAt path k ∧ ∃ t, turnStartBelow path startIndex (k + 1) = some t) := by
  have hc := (mem_findValidCutPoints h.1.1).1
  cases hcuts : findValidCutPoints path startIndex path.length with
  | nil => exact absurd (hcuts ▸ h.1.1) List.not_mem_nil
  | cons firstCut cuts =>
    have hkept := (slidesTo_iff hc).mp hk
    rw [h.unique (picked_chooseCut hcuts)] at hkept
    unfold findCutPoint userAt
    simp only [hcuts, hkept, findTurnStartIndex]
    cases (path[k]?.bind SessionEntry.message?).any AgentMessage.isUser with
    | true => simp
    | false => simp [Option.isSome_iff_exists]

lemma isSplitTurn_of_nil (h : findValidCutPoints path startIndex path.length = []) :
    findCutPoint path startIndex path.length keepRecentTokens = ⟨startIndex, none, false⟩ := by
  simp [findCutPoint, h]

lemma turnPrefix_of_whole {cut : CutPointResult} (h : ¬ cut.isSplitTurn = true) :
    turnPrefix path cut = [] :=
  if_neg h

/-! ## When the report is right -/

lemma SplitsExactly.turnAtCut
    (h : SplitsExactly path (findCutPoint path startIndex path.length keepRecentTokens)) :
    TurnAtCut path startIndex keepRecentTokens := by
  constructor
  · intro hcuts x hx hshown
    rw [isSplitTurn_of_nil hcuts] at h
    obtain ⟨f, -, hf⟩ := exists_firstMessage hx hshown
    have hstart : ¬ turnStartAt path f := fun hstart => by
      have := mem_findValidCutPoints_iff.mpr ⟨hf.le, hstart.cutPointAt⟩
      rw [hcuts] at this
      cases this
    cases h.split.mpr ⟨f, hf, hstart⟩
  · intro c k f hc hk hf
    obtain ⟨hkept, -, hsplit⟩ := isSplitTurn_of_picked hc hk
    have hcut := h.split
    rw [hkept, hsplit] at hcut
    by_cases hstart : turnStartAt path f
    · have hwhole : ¬ (¬ userAt path k ∧ ∃ t, turnStartBelow path startIndex (k + 1) = some t) :=
        fun hsplit => by
          obtain ⟨f', hf', hstart'⟩ := hcut.mp hsplit
          rw [hf.unique hf'] at hstart
          exact hstart' hstart
      rcases Nat.lt_or_eq_of_le hf.le with hlt | rfl
      · refine .inr (.inl ⟨hstart, hlt, fun x hx hxf hstart' => hwhole ⟨fun huser => ?_, ?_⟩⟩)
        · exact hf.first k (Nat.le_refl k) hlt huser.turnStartAt.cutPointAt.shownAt
        · have hxk : x < k + 1 := by
            by_contra hge
            exact hf.first x (by omega) hxf hstart'.cutPointAt.shownAt
          exact exists_turnStartBelow hx hxk hstart'
      · refine .inl ⟨?_, rfl⟩
        by_contra huser
        exact hwhole ⟨huser, exists_turnStartBelow hk.start (Nat.lt_succ_self k) hstart⟩
    · obtain ⟨-, t, ht⟩ := hcut.mpr ⟨f, hf, hstart⟩
      obtain ⟨hs, hnearest⟩ := turnStartBelow_eq_some_iff.mp ht
      have hne : t ≠ f := fun heq => hstart (heq ▸ hnearest.turnStart)
      have htk := hnearest.lt
      have hkf := hf.le
      exact .inr (.inr ⟨hstart, t, hs, by omega, hnearest.turnStart⟩)

lemma TurnAtCut.splitsExactly (h : TurnAtCut path startIndex keepRecentTokens) :
    SplitsExactly path (findCutPoint path startIndex path.length keepRecentTokens) := by
  cases hcuts : findValidCutPoints path startIndex path.length with
  | nil =>
    rw [isSplitTurn_of_nil hcuts]
    exact ⟨⟨nofun, fun ⟨f, hf, _⟩ => absurd hf.shown (h.empty hcuts f hf.le)⟩, nofun,
      fun _ _ _ => rfl⟩
  | cons firstCut cuts =>
    obtain ⟨c, hc⟩ := exists_picked (hcuts ▸ List.mem_cons_self) keepRecentTokens
    obtain ⟨hsc, hcut⟩ := mem_findValidCutPoints_iff.mp hc.1.1
    have hk := (slidesTo_iff hsc).mpr (Eq.refl (slideBack path startIndex c))
    generalize slideBack path startIndex c = k at hk
    obtain ⟨f, -, hf⟩ := exists_firstMessage hk.le hcut.shownAt
    obtain ⟨hkept, hturn, hsplit⟩ := isSplitTurn_of_picked hc hk
    rcases h.first c k f hc hk hf with
      ⟨huser, rfl⟩ | ⟨hstart, hlt, hnone⟩ | ⟨hstart, x, hsx, hxf, hx⟩
    · have hwhole : ¬ (findCutPoint path startIndex path.length
          keepRecentTokens).isSplitTurn = true := fun h => (hsplit.mp h).1 huser
      refine ⟨⟨fun h => absurd h hwhole, fun ⟨f', hf', hstart⟩ => ?_⟩,
        fun h => absurd h hwhole, fun _ _ _ => turnPrefix_of_whole hwhole⟩
      rw [hkept] at hf'
      exact absurd (hf.unique hf' ▸ huser.turnStartAt) hstart
    · have hwhole : ¬ (findCutPoint path startIndex path.length
          keepRecentTokens).isSplitTurn = true := fun h => by
        obtain ⟨-, t, ht⟩ := hsplit.mp h
        obtain ⟨hs, hnearest⟩ := turnStartBelow_eq_some_iff.mp ht
        have := hnearest.lt
        exact hnone t hs (by omega) hnearest.turnStart
      refine ⟨⟨fun h => absurd h hwhole, fun ⟨f', hf', hstart'⟩ => ?_⟩,
        fun h => absurd h hwhole, fun _ _ _ => turnPrefix_of_whole hwhole⟩
      rw [hkept] at hf'
      exact absurd (hf.unique hf' ▸ hstart) hstart'
    · have hxk : x < k + 1 := by
        by_contra hge
        exact hf.first x (by omega) hxf hx.cutPointAt.shownAt
      -- the entry at the cut is no user message, as it is the first message or none at all
      have huser : ¬ userAt path k := fun huser => by
        have := hf.unique ⟨Nat.le_refl k, huser.turnStartAt.cutPointAt.shownAt,
          fun y hy hyk => by omega⟩
        exact hstart (this ▸ huser.turnStartAt)
      obtain ⟨t, ht⟩ := exists_turnStartBelow hsx hxk hx
      have hsplit' := hsplit.mpr ⟨huser, t, ht⟩
      refine ⟨⟨fun _ => ⟨f, hkept ▸ hf, hstart⟩, fun _ => hsplit'⟩, fun _ f' hf' => ?_,
        fun f' hf' hstart' => ?_⟩
      · rw [hkept] at hf'
        obtain rfl := hf.unique hf'
        obtain ⟨hs, hnearest⟩ := turnStartBelow_eq_some_iff.mp ht
        refine ⟨t, by rw [hturn huser, ht], ?_, hnearest.turnStart, fun y hty hyf hy => ?_⟩
        · have hne : t ≠ f := fun heq => hstart (heq ▸ hnearest.turnStart)
          have htk := hnearest.lt
          have hkf := hf.le
          omega
        · by_cases hyk : y < k + 1
          · exact hnearest.nearest y hty hyk hy
          · exact hf.first y (by omega) hyf hy.cutPointAt.shownAt
      · rw [hkept] at hf'
        exact absurd (hf.unique hf' ▸ hstart') hstart

/-- **When a turn is reported as split exactly if it is.** -/
theorem splitsExactly_iff (path : List SessionEntry) (startIndex keepRecentTokens : ℕ) :
    SplitsExactly path (findCutPoint path startIndex path.length keepRecentTokens) ↔
      TurnAtCut path startIndex keepRecentTokens :=
  ⟨SplitsExactly.turnAtCut, TurnAtCut.splitsExactly⟩

/-! ### A model change in front of a question -/

def modelChangedPath : List SessionEntry :=
  [plainEntry "a" none (userBody "one"), plainEntry "b" (some "a") (callsBody []),
    plainEntry "c" (some "b") (.modelChange "provider" "model"),
    plainEntry "d" (some "c") (userBody "two")]

/-- **A model change splits a turn that is whole.**  The cut moves back to it from the second
question, and the first question and its answer are taken for the prefix of a turn. -/
theorem modelChangedPath_splits : (findCutPoint modelChangedPath 0 4 1).firstKeptEntryIndex = 2 ∧
      (turnPrefix modelChangedPath (findCutPoint modelChangedPath 0 4 1)).length = 2 ∧
      ¬ SplitsExactly modelChangedPath (findCutPoint modelChangedPath 0 4 1) := by
  refine ⟨by decide, by decide, fun h => ?_⟩
  have hempty := h.whole 3 ⟨by decide, by unfold shownAt; decide, fun x hx hx' => by
    have hkept : (findCutPoint modelChangedPath 0 4 1).firstKeptEntryIndex = 2 := by decide
    obtain rfl : x = 2 := by omega
    unfold shownAt
    decide⟩ (by unfold turnStartAt; decide)
  have hlength := congrArg List.length hempty
  revert hlength
  decide

end Amide
