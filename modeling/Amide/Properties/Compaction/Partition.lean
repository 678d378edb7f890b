import Amide.Properties.Compaction.CutPoint
import Amide.Properties.Session.Paths

/-!
# A compaction partitions the context

`prepareCompaction` and `buildSessionContext` each find the first kept entry of the last
compaction in their own way: the former by a search of the whole path, the latter by a scan of
the entries in front of the compaction.  Where that entry does not lie behind the compaction the
two agree (`contextMessages_boundaryStart`), and then what a compaction summarizes, the prefix of
a turn it splits and what it keeps are three consecutive stretches of one list.
-/

namespace Amide

open SessionEntry List

/-! ## The part of a path its last compaction left -/

variable {path : List SessionEntry}

lemma lastCompaction_of_free (h : ∀ e ∈ path, e.isCompaction = false) (n : ℕ) :
    lastCompaction path n = none := by
  induction n with
  | zero => rfl
  | succ i ih =>
    have hnone : path[i]?.bind compaction? = none := by
      cases hi : path[i]? with
      | none => rfl
      | some e => simpa [isCompaction] using h e (mem_of_getElem? hi)
    simp [lastCompaction, hnone, ih]

variable {pre post : List SessionEntry}

lemma lastCompaction_of_split {e : SessionEntry}
    {c : CompactionFields} (hbody : e.body = .compaction c)
    (hpost : ∀ x ∈ post, x.isCompaction = false) :
    lastCompaction (pre ++ e :: post) (pre ++ e :: post).length = some (pre.length, c) := by
  have hlast : ∀ n ≤ post.length,
      lastCompaction (pre ++ e :: post) (pre.length + 1 + n) = some (pre.length, c) := by
    intro n hn
    induction n with
    | zero => simp [lastCompaction, compaction?_of_body hbody]
    | succ n ih =>
      have hx : post[n].isCompaction = false := hpost _ (getElem_mem _)
      have hget : (pre ++ e :: post)[pre.length + 1 + n]? = some post[n] := by
        rw [getElem?_append_right (by omega)]
        have hsub : pre.length + 1 + n - pre.length = n + 1 := by omega
        simp [hsub]
      have hnone : post[n].compaction? = none := by simpa [isCompaction] using hx
      rw [← Nat.add_assoc, lastCompaction]
      simp [hget, hnone, ih (by omega)]
  have hlen : (pre ++ e :: post).length = pre.length + 1 + post.length := by
    simp only [length_append, length_cons]
    omega
  rw [hlen]
  exact hlast _ (Nat.le_refl _)

/-- The last compaction names no entry behind itself as the first one it kept. -/
def LastCompactionLooksBack (path : List SessionEntry) : Prop :=
  ∀ p ∈ lastCompaction path path.length, ∀ e ∈ path.drop (p.1 + 1), e.id ≠ p.2.firstKeptEntryId

instance (path : List SessionEntry) : Decidable (LastCompactionLooksBack path) := by
  unfold LastCompactionLooksBack
  cases lastCompaction path path.length with
  | none => exact isTrue (by simp)
  | some p =>
    exact decidable_of_iff (∀ e ∈ path.drop (p.1 + 1), e.id ≠ p.2.firstKeptEntryId)
      ⟨fun h q hq => by cases hq; exact h, fun h => h p rfl⟩

/-- The messages of a context that no compaction wrote. -/
def SessionContext.ownMessages (context : SessionContext) : List AgentMessage :=
  context.messages.filter fun m => !m.isCompactionSummary

/-- No message entry holds a compaction summary. -/
def NoSummaryMessage (path : List SessionEntry) : Prop :=
  ∀ e ∈ path, ∀ m ∈ e.message?, m.isCompactionSummary = false

/-- Every branch summary of the path says something. -/
def BranchSummariesNonempty (path : List SessionEntry) : Prop :=
  ∀ e ∈ path, ∀ b ∈ e.branchSummary?, b.summary ≠ ""

instance (path : List SessionEntry) : Decidable (NoSummaryMessage path) :=
  inferInstanceAs (Decidable (∀ e ∈ path, ∀ m ∈ e.message?, m.isCompactionSummary = false))

instance (path : List SessionEntry) : Decidable (BranchSummariesNonempty path) :=
  inferInstanceAs (Decidable (∀ e ∈ path, ∀ b ∈ e.branchSummary?, b.summary ≠ ""))

lemma isCompactionSummary_contextMessage? (h : NoSummaryMessage path) {e : SessionEntry}
    (he : e ∈ path) {m : AgentMessage} (hm : e.contextMessage? = some m) :
    m.isCompactionSummary = false := by
  unfold contextMessage? at hm
  split at hm
  · rename_i hbody
    exact h e he m (by simpa [message?, hbody] using hm)
  · cases hm
    rfl
  · split_ifs at hm
    cases hm
    rfl
  · cases hm

lemma filter_contextMessages {es : List SessionEntry} (h : NoSummaryMessage path)
    (hes : es ⊆ path) :
    (contextMessages es).filter (fun m => !m.isCompactionSummary) = contextMessages es := by
  rw [filter_eq_self]
  intro m hm
  obtain ⟨e, he, hem⟩ := mem_filterMap.mp hm
  simp [isCompactionSummary_contextMessage? h (hes he) hem]

/-- The messages in front of a compaction that it kept, and those behind it, are those of the
entries from `boundaryStart` on. -/
theorem contextMessages_boundaryStart {e : SessionEntry}
    {c : CompactionFields} (hnd : ((pre ++ e :: post).map SessionEntry.id).Nodup)
    (hbody : e.body = .compaction c) (hback : ∀ x ∈ post, x.id ≠ c.firstKeptEntryId) :
    contextMessages (fromFirstKept c.firstKeptEntryId pre) ++ contextMessages post =
      contextMessages ((pre ++ e :: post).drop
        (boundaryStart (pre ++ e :: post) (some (pre.length, c)))) := by
  have hcomp := isCompaction_of_body hbody
  by_cases hpre : ∃ k ∈ pre, k.id = c.firstKeptEntryId
  · -- the first kept entry lies in front of the compaction
    obtain ⟨k, hk, hkey⟩ := hpre
    obtain ⟨as, bs, rfl⟩ := append_of_mem hk
    rw [append_assoc, cons_append] at hnd ⊢
    have hkeep : fromFirstKept c.firstKeptEntryId (as ++ k :: bs) = k :: bs := by
      rw [fromFirstKept, ← hkey]
      rw [← cons_append, ← append_assoc, map_append] at hnd
      exact KeyedList.dropWhile_key_append hnd.of_append_left
    have hstart : boundaryStart (as ++ k :: (bs ++ e :: post))
        (some ((as ++ k :: bs).length, c)) = as.length := by
      simp only [boundaryStart, ← hkey, KeyedList.findIdx?_key_append hnd, Option.getD_some]
    rw [hkeep, hstart, drop_left, ← cons_append, contextMessages_append,
      contextMessages_cons_of_isCompaction _ hcomp]
  · have hdrop : fromFirstKept c.firstKeptEntryId pre = [] :=
      KeyedList.dropWhile_key_of_notMem fun x hx hkey => hpre ⟨x, hx, hkey⟩
    rw [hdrop]
    by_cases he : e.id = c.firstKeptEntryId
    · -- the compaction names itself
      have hstart : boundaryStart (pre ++ e :: post) (some (pre.length, c)) = pre.length := by
        simp only [boundaryStart, ← he, KeyedList.findIdx?_key_append hnd, Option.getD_some]
      rw [hstart, drop_left, contextMessages_cons_of_isCompaction _ hcomp]
      rfl
    · -- the first kept entry is not on the path
      have hnone : (pre ++ e :: post).findIdx? (fun x => x.id = c.firstKeptEntryId) = none := by
        rw [findIdx?_eq_none_iff]
        intro x hx
        rcases mem_append.mp hx with hx | hx
        · simpa using fun hkey => hpre ⟨x, hx, hkey⟩
        · rcases mem_cons.mp hx with rfl | hx
          · simpa using he
          · simpa using hback x hx
      have hstart : boundaryStart (pre ++ e :: post) (some (pre.length, c)) = pre.length + 1 := by
        simp only [boundaryStart, hnone, Option.getD_none]
      rw [hstart, ← drop_drop, drop_left]
      rfl

/-- The own messages of a path are those of the entries from `boundaryStart` on. -/
theorem ownMessages_eq_drop (hnd : (path.map SessionEntry.id).Nodup)
    (hback : LastCompactionLooksBack path) (hmsgs : NoSummaryMessage path) :
    (contextOfPath path).ownMessages =
      contextMessages (path.drop (boundaryStart path (lastCompaction path path.length))) := by
  rcases exists_lastCompaction path with hfree | ⟨pre, e, c, post, rfl, hbody, hpost⟩
  · rw [lastCompaction_of_free hfree]
    simp only [SessionContext.ownMessages, contextOfPath, pathMessages_of_free hfree, boundaryStart,
      drop_zero]
    exact filter_contextMessages hmsgs (Subset.refl _)
  · have hlast := @lastCompaction_of_split pre post e c hbody hpost
    have hback' : ∀ x ∈ post, x.id ≠ c.firstKeptEntryId := by
      have := hback _ hlast
      rwa [← drop_drop, drop_left] at this
    have hkept : contextMessages (fromFirstKept c.firstKeptEntryId pre) ++ contextMessages post =
        contextMessages (fromFirstKept c.firstKeptEntryId pre ++ post) := by
      rw [contextMessages_append]
    have hsub : fromFirstKept c.firstKeptEntryId pre ++ post ⊆ pre ++ e :: post := by
      intro x hx
      rcases mem_append.mp hx with hx | hx
      · exact mem_append_left _ (dropWhile_subset _ hx)
      · exact mem_append_right _ (mem_cons_of_mem _ hx)
    rw [hlast, ← contextMessages_boundaryStart hnd hbody hback', hkept]
    simp only [SessionContext.ownMessages, contextOfPath, pathMessages_of_split hnd hbody hpost,
      cons_append, hkept]
    exact filter_contextMessages hmsgs hsub

/-! ## What a preparation holds -/

lemma getMessageFromEntryForCompaction_eq (h : BranchSummariesNonempty path) {e : SessionEntry}
    (he : e ∈ path) : getMessageFromEntryForCompaction e = e.contextMessage? := by
  have hsum := h e he
  obtain ⟨_, _, _, body⟩ := e
  cases body with
  | branchSummary b =>
    have hne := hsum b rfl
    simp [getMessageFromEntryForCompaction, getMessageFromEntry, isCompaction,
      compaction?, contextMessage?, hne]
  | _ => rfl

lemma messagesBetween_eq (h : BranchSummariesNonempty path) (i j : ℕ) :
    messagesBetween path i j = contextMessages ((path.take j).drop i) := by
  have hsub : (path.take j).drop i ⊆ path :=
    fun x hx => take_subset _ _ (drop_subset _ _ hx)
  exact filterMap_congr fun e he => getMessageFromEntryForCompaction_eq h (hsub he)

/-- Two consecutive stretches of a path are one. -/
theorem drop_take_append {α : Type*} (l : List α) {i j k : ℕ} (hij : i ≤ j) (hjk : j ≤ k) :
    (l.take j).drop i ++ (l.take k).drop j = (l.take k).drop i := by
  have htake : l.take j = (l.take k).take j := by rw [take_take, Nat.min_eq_left hjk]
  have hdrop : (l.take k).drop j = ((l.take k).drop i).drop (j - i) := by
    rw [drop_drop]
    congr 1
    omega
  rw [htake, hdrop, drop_take, take_append_drop]

/-- What is summarized and the prefix of a split turn are the messages between the boundary and
the first kept entry. -/
theorem prepareCompaction_spec {settings : CompactionSettings} {p : CompactionPreparation}
    (hsum : BranchSummariesNonempty path) (h : prepareCompaction path settings = some p) :
    ∃ k firstKept, path[k]? = some firstKept ∧ p.firstKeptEntryId = firstKept.id ∧
      boundaryStart path (lastCompaction path path.length) ≤ k ∧
      p.messagesToSummarize ++ p.turnPrefixMessages = contextMessages
        ((path.take k).drop (boundaryStart path (lastCompaction path path.length))) := by
  obtain ⟨⟨firstKept, hkept, hid⟩, hsummarize, hprefix, -⟩ := prepareCompaction_cases h
  have hbounds := findCutPoint_bounds path (boundaryStart path (lastCompaction path path.length))
    path.length settings.keepRecentTokens
  generalize findCutPoint path (boundaryStart path (lastCompaction path path.length)) path.length
    settings.keepRecentTokens = cut at hkept hsummarize hprefix hbounds
  refine ⟨cut.firstKeptEntryIndex, firstKept, hkept, hid, hbounds.1, ?_⟩
  rw [hsummarize, hprefix]
  cases hsplit : cut.isSplitTurn with
  | false => simp [messagesBetween_eq hsum]
  | true =>
    obtain ⟨t, ht, hst, htk⟩ := hbounds.2 hsplit
    simp only [if_true, ht, Option.getD_some, messagesBetween_eq hsum]
    rw [← contextMessages_append, drop_take_append path hst htk]

/-! ## The partition -/

/-- `entry` is a compaction that extends `path` as `prepareCompaction` prepared it. -/
structure PreparedCompaction (path : List SessionEntry) (settings : CompactionSettings)
    (entry : SessionEntry) (p : CompactionPreparation) : Prop where
  chain : RootToLeaf (path ++ [entry])
  prepared : prepareCompaction path settings = some p
  kept : ∃ c, entry.body = .compaction c ∧ c.firstKeptEntryId = p.firstKeptEntryId

/-- **A compaction loses, repeats and reorders no message.**  The context in front of a compaction
is what the compaction summarizes, the prefix of the turn it splits, and the context behind it,
the summaries themselves aside. -/
theorem compaction_partitions_context {path : List SessionEntry} {entry : SessionEntry}
    {settings : CompactionSettings} {p : CompactionPreparation}
    (h : PreparedCompaction path settings entry p) (hsum : BranchSummariesNonempty path)
    (hback : LastCompactionLooksBack path) (hmsgs : NoSummaryMessage path) :
    ∃ before after, buildSessionContextOf path = some before ∧
      buildSessionContextOf (path ++ [entry]) = some after ∧
      before.ownMessages = p.messagesToSummarize ++ p.turnPrefixMessages ++ after.ownMessages := by
  obtain ⟨hpath, hp, c, hentry, hkept⟩ := h
  refine ⟨_, _, buildSessionContextOf_rootToLeaf hpath.prefix,
    buildSessionContextOf_rootToLeaf hpath, ?_⟩
  obtain ⟨k, firstKept, hk, hid, hstart, hprep⟩ := prepareCompaction_spec hsum hp
  have hnd := hpath.nodup
  have hnd' := hpath.prefix.nodup
  -- the compaction keeps the path from its `k`-th entry on
  have hsplit : path = path.take k ++ firstKept :: path.drop (k + 1) := by
    obtain ⟨hlt, rfl⟩ := List.getElem?_eq_some_iff.mp hk
    rw [← drop_eq_getElem_cons hlt, take_append_drop]
  have hfrom : fromFirstKept c.firstKeptEntryId path = path.drop k := by
    have hdrop : path.drop k = firstKept :: path.drop (k + 1) := by
      obtain ⟨hlt, rfl⟩ := List.getElem?_eq_some_iff.mp hk
      exact drop_eq_getElem_cons hlt
    rw [hkept, hid, fromFirstKept, hdrop]
    conv_lhs => rw [hsplit]
    exact KeyedList.dropWhile_key_append (hsplit ▸ hnd')
  have hafter : (contextOfPath (path ++ [entry])).ownMessages = contextMessages (path.drop k) := by
    simp only [SessionContext.ownMessages, contextOfPath,
      @pathMessages_of_split entry c path [] hnd hentry (by simp), hfrom]
    have hown := filter_contextMessages hmsgs (drop_subset k path)
    simpa [contextMessages, createCompactionSummaryMessage, AgentMessage.isCompactionSummary]
      using hown
  have hbefore := ownMessages_eq_drop hnd' hback hmsgs
  have hjoin : path.drop (boundaryStart path (lastCompaction path path.length)) =
      (path.take k).drop (boundaryStart path (lastCompaction path path.length)) ++ path.drop k := by
    have hlen : k < path.length := (List.getElem?_eq_some_iff.mp hk).1
    have := drop_take_append path hstart (Nat.le_of_lt hlen)
    rw [take_length] at this
    exact this.symm
  rw [hbefore, hprep, hafter, hjoin, contextMessages_append]

/-- A path with an earlier compaction on it, whose first kept entry has the given id. -/
def compactedPath (firstKeptEntryId : String) : List SessionEntry :=
  [plainEntry "a" none (userBody "one"), plainEntry "b" (some "a") (userBody "two"),
    plainEntry "c" (some "b") (compactionBody firstKeptEntryId),
    plainEntry "d" (some "c") (userBody "three"), plainEntry "e" (some "d") (userBody "four")]

/-- A second compaction, behind one that kept the entry in front of it. -/
theorem compaction_partitions_context_compactedPath :
    ∃ p before after, prepareCompaction (compactedPath "b") ⟨true, 0, 0⟩ = some p ∧
      buildSessionContextOf (compactedPath "b") = some before ∧
      buildSessionContextOf (compactedPath "b" ++ [plainEntry "f" (some "e") (compactionBody "e")])
        = some after ∧
      before.ownMessages = p.messagesToSummarize ++ p.turnPrefixMessages ++ after.ownMessages := by
  obtain ⟨p, hp⟩ := Option.isSome_iff_exists.mp
    (by decide : (prepareCompaction (compactedPath "b") ⟨true, 0, 0⟩).isSome = true)
  have hkept : "e" = p.firstKeptEntryId :=
    Option.some.inj (congrArg (Option.map CompactionPreparation.firstKeptEntryId) hp)
  have hprep : PreparedCompaction (compactedPath "b") ⟨true, 0, 0⟩
      (plainEntry "f" (some "e") (compactionBody "e")) p := ⟨by decide, hp, _, rfl, hkept⟩
  obtain ⟨before, after, h⟩ := compaction_partitions_context hprep (by decide) (by decide)
    (by decide)
  exact ⟨p, before, after, hp, h⟩

/-- Without the two conditions on the path a message can be lost, or be summarized that is not in
the context: an earlier compaction may name an entry behind itself as the first it kept, and a
message entry may hold a compaction summary. -/
theorem exists_compaction_not_partition :
    (∃ path entry p before after, PreparedCompaction path ⟨true, 0, 0⟩ entry p ∧
      BranchSummariesNonempty path ∧ NoSummaryMessage path ∧
      buildSessionContextOf path = some before ∧
      buildSessionContextOf (path ++ [entry]) = some after ∧
      before.ownMessages ≠ p.messagesToSummarize ++ p.turnPrefixMessages ++ after.ownMessages) ∧
    ∃ path entry p before after, PreparedCompaction path ⟨true, 0, 0⟩ entry p ∧
      BranchSummariesNonempty path ∧ LastCompactionLooksBack path ∧
      buildSessionContextOf path = some before ∧
      buildSessionContextOf (path ++ [entry]) = some after ∧
      before.ownMessages ≠ p.messagesToSummarize ++ p.turnPrefixMessages ++ after.ownMessages := by
  constructor
  · -- the entry `d` stands between the compaction and the entry it names
    refine ⟨compactedPath "e", plainEntry "f" (some "e") (compactionBody "e"),
      (prepareCompaction (compactedPath "e") ⟨true, 0, 0⟩).get (by decide),
      contextOfPath (compactedPath "e"),
      contextOfPath (compactedPath "e" ++ [plainEntry "f" (some "e") (compactionBody "e")]),
      ⟨by decide, by simp, _, rfl, by decide⟩, by decide, by decide,
      buildSessionContextOf_rootToLeaf (by decide), buildSessionContextOf_rootToLeaf (by decide),
      by decide⟩
  · refine ⟨[plainEntry "a" none
      (.message (createCompactionSummaryMessage "so far" 0 "" none none)),
        plainEntry "b" (some "a") (userBody "two")],
      plainEntry "c" (some "b") (compactionBody "b"),
      (prepareCompaction
        [plainEntry "a" none (.message (createCompactionSummaryMessage "so far" 0 "" none none)),
          plainEntry "b" (some "a") (userBody "two")] ⟨true, 0, 0⟩).get (by decide),
      _, _, ⟨by decide, by simp, _, rfl, by decide⟩, by decide, by decide,
      buildSessionContextOf_rootToLeaf (by decide), buildSessionContextOf_rootToLeaf (by decide),
      by decide⟩

end Amide
