import Amide.Construction.Compaction.BranchSummarization
import Amide.Properties.Compaction.FileTracking
import Amide.Properties.Session.Walks

/-!
# The branch that is left

The entries collected for a branch summary are those of the old path that are not on the path of
the target, and the ancestor is the last entry on both.  The operations on files should be those of
all these entries; but the pass that looks at tool calls ends at the first message that does not fit
into the budget, so the edits of what is older are recorded only if they are found elsewhere
(`branchSummary_iff`).
-/

namespace Amide

open List

open ParentForest (Acyclic)
open BranchPreparation (inheritFileOps takeEntries)

/-! ## The common ancestor -/

/-- The path to a leaf, which is empty for none. -/
def pathTo (m : SessionManager) : Option String → Option (List SessionEntry)
  | none => some []
  | some leafId => m.getBranch (some leafId)

/-- What is collected, by the paths from the root. -/
structure LeftBranch (oldPath targetPath : List SessionEntry) (result : CollectEntriesResult) :
    Prop where
  entries : result.entries = oldPath.filter (· ∉ targetPath)
  ancestor : result.commonAncestorId =
    (oldPath.filter (· ∈ targetPath)).getLast?.map SessionEntry.id

section Collect

variable {byId : JsMap String SessionEntry} {n k : ℕ} {e x : SessionEntry}
  {w w' : List SessionEntry}
variable {e : Option SessionEntry}

lemma walk_unique (h : walk byId n e = some w) (h' : walk byId k e = some w') : w = w' :=
  Option.some.inj ((walk_mono (Nat.le_max_left n k) h).symm.trans
    (walk_mono (Nat.le_max_right n k) h'))

/-- From an entry on a walk the rest of the walk follows. -/
lemma walk_of_append {pre post : List SessionEntry} (h : walk byId n e = some (pre ++ x :: post)) :
    ∃ k, walk byId k (some x) = some (x :: post) := by
  induction pre generalizing n e with
  | nil =>
    cases e with
    | none => simp at h
    | some e =>
      cases n with
      | zero => cases h
      | succ n =>
        obtain ⟨rest, hrest, heq⟩ := Option.map_eq_some_iff.mp h
        obtain ⟨rfl, rfl⟩ := List.cons.inj heq
        exact ⟨n + 1, h⟩
  | cons y pre ih =>
    cases e with
    | none => simp at h
    | some e =>
      cases n with
      | zero => cases h
      | succ n =>
        obtain ⟨rest, hrest, heq⟩ := Option.map_eq_some_iff.mp h
        obtain ⟨-, rfl⟩ := List.cons.inj heq
        exact ih hrest

/-- What a walk comes to stands in the index under its id. -/
lemma get?_of_mem_walk (he : ∀ x ∈ e, byId.get? x.id = some x) (hkeyed : Keyed byId)
    (h : walk byId n e = some w) (hx : x ∈ w) : byId.get? x.id = some x := by
  induction n generalizing e w with
  | zero =>
    cases e with
    | none =>
      cases h
      cases hx
    | some e => cases h
  | succ n ih =>
    cases e with
    | none =>
      cases h
      cases hx
    | some e =>
      obtain ⟨rest, hrest, rfl⟩ := Option.map_eq_some_iff.mp h
      rcases mem_cons.mp hx with rfl | hx
      · exact he x rfl
      · exact ih (fun y hy => hkeyed.get?_of_lookupId hy) hrest hx

/-- The loop takes of the walk what comes before the common ancestor. -/
lemma collectWalk_of_walk (hkeyed : Keyed byId) (common current : Option String)
    (h : walk byId n (lookupId byId current) = some w) :
    collectWalk byId common n current = some (w.takeWhile fun e => some e.id ≠ common) := by
  induction n generalizing current w with
  | zero =>
    cases hlookup : lookupId byId current with
    | some e =>
      rw [hlookup] at h
      cases h
    | none =>
      rw [hlookup, walk_none, Option.some.injEq] at h
      subst h
      cases current with
      | none => rfl
      | some id =>
        rw [collectWalk]
        split_ifs with hstop
        · rfl
        · rw [lookupId, if_neg (not_or.mp hstop).1] at hlookup
          rw [hlookup]
          rfl
  | succ n ih =>
    cases current with
    | none =>
      rw [lookupId, walk_none, Option.some.injEq] at h
      subst h
      rfl
    | some id =>
      rw [lookupId] at h
      rw [collectWalk]
      by_cases hempty : id = ""
      · rw [if_pos hempty, walk_none, Option.some.injEq] at h
        subst h
        rw [if_pos (.inl hempty)]
        rfl
      rw [if_neg hempty] at h
      cases hget : byId.get? id with
      | none =>
        rw [hget, walk_none, Option.some.injEq] at h
        subst h
        simp
      | some e =>
        rw [hget] at h
        obtain ⟨rest, hrest, rfl⟩ := Option.map_eq_some_iff.mp h
        rw [takeWhile_cons, hkeyed id e hget]
        by_cases hcommon : some id = common
        · rw [if_pos (.inr hcommon), if_neg (by simpa using hcommon)]
        · rw [if_neg (not_or.mpr ⟨hempty, hcommon⟩), if_pos (by simpa using hcommon)]
          simp only [ih e.parentId hrest, Option.map_some]

/-- The walks of two leaves part at the first entry of the one that is on the other. -/
lemma takeWhile_walk {wo wt : List SessionEntry} {eo et : Option SessionEntry}
    (hkeyed : Keyed byId) (heo : ∀ x ∈ eo, byId.get? x.id = some x)
    (het : ∀ x ∈ et, byId.get? x.id = some x) (ho : walk byId n eo = some wo)
    (ht : walk byId k et = some wt) (hnodup : (wo.map SessionEntry.id).Nodup) :
    let common := (wt.find? (·.id ∈ wo.map SessionEntry.id)).map SessionEntry.id
    (wo.takeWhile fun e => some e.id ≠ common) = wo.filter (· ∉ wt) ∧
      common = (wo.find? (· ∈ wt)).map SessionEntry.id := by
  have hsame {x y : SessionEntry} (hx : x ∈ wo) (hy : y ∈ wt) (hid : x.id = y.id) : x = y := by
    have hget := get?_of_mem_walk heo hkeyed ho hx
    rw [hid, get?_of_mem_walk het hkeyed ht hy] at hget
    exact (Option.some.inj hget).symm
  intro common
  cases hfind : wt.find? (·.id ∈ wo.map SessionEntry.id) with
  | none =>
    have hcommon : common = none := by
      simp only [common, hfind, Option.map_none]
    have hapart : ∀ x ∈ wo, x ∉ wt := fun x hx hmem => by
      have := find?_eq_none.mp hfind x hmem
      exact this (decide_eq_true (mem_map_of_mem hx))
    have hnone : wo.find? (· ∈ wt) = none :=
      find?_eq_none.mpr fun x hx => by simpa using hapart x hx
    rw [hcommon, hnone]
    refine ⟨?_, rfl⟩
    rw [filter_eq_self.mpr fun x hx => by simpa using hapart x hx]
    exact takeWhile_eq_self_iff.mpr fun x _ => by simp
  | some c =>
    have hcommon : common = some c.id := by simp only [common, hfind, Option.map_some]
    obtain ⟨hc, as, bs, rfl, has⟩ := find?_eq_some_iff_append.mp hfind
    obtain ⟨c', hc', hid⟩ := List.mem_map.mp (of_decide_eq_true hc)
    obtain rfl : c' = c := hsame hc' (by simp) hid
    obtain ⟨pre, post, rfl⟩ := append_of_mem hc'
    -- behind the common ancestor the walks are the same
    obtain ⟨i, hi⟩ := walk_of_append ho
    obtain ⟨j, hj⟩ := walk_of_append ht
    obtain rfl : post = bs := (List.cons.inj (walk_unique hi hj)).2
    have hdist : (pre ++ c' :: post).Nodup := hnodup.of_map _
    have hpre : ∀ x ∈ pre, x ∉ as ++ c' :: post := by
      intro x hx hmem
      rcases mem_append.mp hmem with hmem | hmem
      · have hx' : x.id ∈ (pre ++ c' :: post).map SessionEntry.id :=
          mem_map_of_mem (mem_append_left _ hx)
        have := has x hmem
        rw [Bool.not_eq_true', decide_eq_false_iff_not] at this
        exact this hx'
      · exact (nodup_append.mp hdist).2.2 x hx x hmem rfl
    have hpre' : ∀ x ∈ pre, x.id ≠ c'.id := by
      intro x hx hid
      rw [map_append, map_cons, nodup_append] at hnodup
      exact hnodup.2.2 x.id (mem_map_of_mem hx) c'.id mem_cons_self hid
    rw [hcommon]
    refine ⟨?_, ?_⟩
    · rw [takeWhile_append_of_pos (by simpa using hpre'), filter_append,
        filter_eq_self.mpr (by simpa using hpre), takeWhile_cons_of_neg (by simp),
        filter_eq_nil_iff.mpr]
      intro x hx hnot
      exact of_decide_eq_true hnot (mem_append_right as hx)
    · have hfirst : (pre ++ c' :: post).find? (· ∈ as ++ c' :: post) = some c' := by
        refine find?_eq_some_iff_append.mpr ⟨by simp, pre, post, rfl, fun x hx => ?_⟩
        simpa using hpre x hx
      rw [hfirst]
      rfl

end Collect

/-- What is collected is the old path without the path of the target. -/
lemma collectEntries_spec {m : SessionManager} (hidx : Indexed m)
    (htree : Acyclic (walkParent m.byId)) (oldLeafId : Option String) (targetId : String) :
    ∃ oldPath targetPath fuel result, pathTo m oldLeafId = some oldPath ∧
      m.getBranch (some targetId) = some targetPath ∧
      collectEntriesForBranchSummary m fuel oldLeafId targetId = some result ∧
      LeftBranch oldPath targetPath result := by
  have hget (id : String) : ∀ x ∈ lookupId m.byId (some id), m.byId.get? x.id = some x :=
    fun x hx => hidx.keyed.get?_of_lookupId hx
  obtain ⟨wt, ht, -⟩ := exists_rootPath hidx htree (hget targetId)
  have htarget : m.getBranch (some targetId) = some wt.reverse := by
    rw [SessionManager.getBranch, Option.some_or, Amide.getBranch, rootPath, ht, Option.map_some]
  cases oldLeafId with
  | none => exact ⟨[], wt.reverse, 0, ⟨[], none⟩, rfl, htarget, rfl, rfl, rfl⟩
  | some oldLeafId =>
    obtain ⟨wo, ho, hnodup⟩ := exists_rootPath hidx htree (hget oldLeafId)
    have hold : m.getBranch (some oldLeafId) = some wo.reverse := by
      rw [SessionManager.getBranch, Option.some_or, Amide.getBranch, rootPath, ho, Option.map_some]
    by_cases hempty : oldLeafId = ""
    · have hwo : wo = [] := by
        rw [lookupId, if_pos hempty, walk_none, Option.some.injEq] at ho
        exact ho.symm
      subst hwo
      exact ⟨[], wt.reverse, 0, ⟨[], none⟩, hold, htarget,
        by rw [collectEntriesForBranchSummary, if_pos hempty], rfl, rfl⟩
    · obtain ⟨htake, hcommon⟩ := takeWhile_walk hidx.keyed (hget oldLeafId) (hget targetId) ho ht
        hnodup
      have hcollect := collectWalk_of_walk hidx.keyed
        ((wt.find? (·.id ∈ wo.map SessionEntry.id)).map SessionEntry.id) (some oldLeafId) ho
      refine ⟨wo.reverse, wt.reverse, m.byId.size + 1,
        ⟨(wo.filter (· ∉ wt)).reverse, (wo.find? (· ∈ wt)).map SessionEntry.id⟩, hold, htarget,
        ?_, ?_, ?_⟩
      · rw [collectEntriesForBranchSummary, if_neg hempty, hold, htarget]
        simp only [Option.bind_eq_bind, Option.bind_some, reverse_reverse, map_reverse, mem_reverse]
        rw [hcollect, htake, hcommon]
        rfl
      · rw [← filter_reverse]
        simp only [mem_reverse]
      · simp only [mem_reverse]
        rw [filter_reverse, getLast?_reverse, head?_filter]

/-! ## Operations on files -/

/-- A call in the message of the entry edits the file. -/
def SessionEntry.Edits (e : SessionEntry) (file : String) : Prop :=
  ∃ m, e.body = .message (.assistant m) ∧ ∃ call ∈ m.toolCalls, call.Edits file

/-- What a branch summary lists that does not come from a hook. -/
def SessionEntry.listed (e : SessionEntry) (key : String) : List String :=
  match e.body with
  | .branchSummary b =>
    if b.fromHook = some true then [] else (b.details.map (stringsAt · key)).getD []
  | _ => []

/-- Every operation of the entries is recorded. -/
structure RecordsAll (entries : List SessionEntry) (fileOps : FileOperations) : Prop where
  edits : ∀ e ∈ entries, ∀ file, e.Edits file → file ∈ fileOps.edited
  modified : ∀ e ∈ entries, ∀ file ∈ e.listed "modifiedFiles", file ∈ fileOps.edited
  read : ∀ e ∈ entries, ∀ file ∈ e.listed "readFiles", file ∈ fileOps.read

/-- The tokens of the messages that some entries stand for. -/
def branchTokens (entries : List SessionEntry) : ℕ :=
  ((entries.filterMap BranchPreparation.getMessageFromEntry).map estimateTokens).sum

/-- The messages behind an entry fit into the budget. -/
def FitsBudget (tokenBudget : ℤ) (newer : List SessionEntry) : Prop :=
  tokenBudget ≤ 0 ∨ (branchTokens newer : ℤ) ≤ tokenBudget

/-- Each file edited in an entry whose newer messages do not fit is also edited in one whose newer
messages do, or listed by a summary. -/
def Covered (entries : List SessionEntry) (tokenBudget : ℤ) : Prop :=
  ∀ older e newer, entries = older ++ e :: newer → ¬ FitsBudget tokenBudget newer →
    ∀ file, e.Edits file →
      (∃ older' e' newer', entries = older' ++ e' :: newer' ∧ FitsBudget tokenBudget newer' ∧
        e'.Edits file) ∨ ∃ e' ∈ entries, file ∈ e'.listed "modifiedFiles"

section Prepare

variable {tokenBudget : ℤ} {file : String}

lemma branchTokens_cons (e : SessionEntry) (es : List SessionEntry) : branchTokens (e :: es) =
      ((BranchPreparation.getMessageFromEntry e).map estimateTokens).getD 0 + branchTokens es := by
  rw [branchTokens, filterMap_cons]
  cases BranchPreparation.getMessageFromEntry e with
  | none | some m => simp [branchTokens]

lemma branchTokens_reverse (es : List SessionEntry) :
    branchTokens es.reverse = branchTokens es := by
  rw [branchTokens, filterMap_reverse, map_reverse, sum_reverse, branchTokens]

/-- What the message of an entry adds. -/
lemma mem_extract_of_entry {e : SessionEntry} {message : AgentMessage} {fileOps : FileOperations}
    (h : BranchPreparation.getMessageFromEntry e = some message) :
    (extractFileOpsFromMessage fileOps message).read = fileOps.read ∧
      (file ∈ (extractFileOpsFromMessage fileOps message).edited ↔
        file ∈ fileOps.edited ∨ e.Edits file) := by
  obtain ⟨hread, hedited⟩ := @foldl_extract fileOps file [message]
  refine ⟨hread, hedited.trans (or_congr_right ?_)⟩
  simp only [EditedIn, mem_singleton, SessionEntry.Edits]
  refine exists_congr fun m => and_congr_left' ?_
  rw [BranchPreparation.getMessageFromEntry] at h
  split at h
  · cases h
  · rename_i message' _ hbody
    cases h
    rw [hbody, EntryBody.message.injEq]
    exact eq_comm
  case h_6 => cases h
  all_goals
    rename_i hbody
    cases h
    rw [hbody]
    simp [createCustomMessage, createBranchSummaryMessage, createCompactionSummaryMessage]

/-- An entry that stands for no message has no tool calls. -/
lemma not_edits_of_none {e : SessionEntry}
    (h : BranchPreparation.getMessageFromEntry e = none) : ¬ e.Edits file := by
  rintro ⟨m, hbody, -⟩
  rw [BranchPreparation.getMessageFromEntry, hbody] at h
  cases h

/-- The second pass records the edits of the entries whose newer messages fit. -/
lemma takeEntries_spec (es : List SessionEntry) {p : BranchPreparation}
    (hp : tokenBudget ≤ 0 ∨ (p.totalTokens : ℤ) ≤ tokenBudget) :
    (p.takeEntries tokenBudget es).fileOps.read = p.fileOps.read ∧
      (file ∈ (p.takeEntries tokenBudget es).fileOps.edited ↔
        file ∈ p.fileOps.edited ∨ ∃ newer e older, es = newer ++ e :: older ∧
          (tokenBudget ≤ 0 ∨ (p.totalTokens + branchTokens newer : ℤ) ≤ tokenBudget) ∧
            e.Edits file) := by
  induction es generalizing p with
  | nil => simp [takeEntries]
  | cons e es ih =>
    cases hmsg : BranchPreparation.getMessageFromEntry e with
    | none =>
      obtain ⟨hread, hedited⟩ := ih hp
      rw [takeEntries, hmsg]
      refine ⟨hread, hedited.trans (or_congr_right ⟨?_, ?_⟩)⟩
      · rintro ⟨newer, e', older, rfl, hfits, hedits⟩
        exact ⟨e :: newer, e', older, rfl, by simpa [branchTokens_cons, hmsg] using hfits,
          hedits⟩
      · rintro ⟨_ | ⟨_, newer⟩, e', older, heq, hfits, hedits⟩
        · obtain ⟨rfl, rfl⟩ := List.cons.inj heq
          exact absurd hedits (not_edits_of_none hmsg)
        · obtain ⟨rfl, rfl⟩ := List.cons.inj heq
          exact ⟨newer, e', older, rfl, by simpa [branchTokens_cons, hmsg] using hfits, hedits⟩
    | some message =>
      obtain ⟨hread, hedited⟩ := @mem_extract_of_entry file e message p.fileOps hmsg
      have htokens (newer : List SessionEntry) : branchTokens (e :: newer) =
          estimateTokens message + branchTokens newer := by
        rw [branchTokens_cons, hmsg]
        rfl
      simp only [takeEntries, hmsg]
      by_cases hover : 0 < tokenBudget ∧ tokenBudget < (p.totalTokens + estimateTokens message : ℕ)
      · have hlast : ∀ q : BranchPreparation,
            q.fileOps = extractFileOpsFromMessage p.fileOps message →
            q.fileOps.read = p.fileOps.read ∧ (file ∈ q.fileOps.edited ↔
              file ∈ p.fileOps.edited ∨ ∃ newer e' older, e :: es = newer ++ e' :: older ∧
                (tokenBudget ≤ 0 ∨ (p.totalTokens + branchTokens newer : ℤ) ≤ tokenBudget) ∧
                  e'.Edits file) := by
          intro q hq
          rw [hq]
          refine ⟨hread, hedited.trans (or_congr_right ⟨fun h => ?_, ?_⟩)⟩
          · exact ⟨[], e, es, rfl, by simpa [branchTokens] using hp, h⟩
          · rintro ⟨_ | ⟨_, newer⟩, e', older, heq, hfits, hedits⟩
            · obtain ⟨rfl, rfl⟩ := List.cons.inj heq
              exact hedits
            · obtain ⟨rfl, rfl⟩ := List.cons.inj heq
              rw [htokens] at hfits
              omega
        split_ifs
        · exact hlast _ rfl
        · exact hlast _ rfl
      · rw [if_neg hover]
        have hadd : tokenBudget ≤ 0 ∨ ((p.add message).totalTokens : ℤ) ≤ tokenBudget := by
          have htotal : (p.add message).totalTokens = p.totalTokens + estimateTokens message := rfl
          omega
        obtain ⟨hread', hedited'⟩ := ih hadd
        refine ⟨hread'.trans hread, hedited'.trans ?_⟩
        rw [show (p.add message).fileOps = extractFileOpsFromMessage p.fileOps message from rfl,
          hedited, or_assoc]
        refine or_congr_right ⟨?_, ?_⟩
        · rintro (hedits | ⟨newer, e', older, rfl, hfits, hedits⟩)
          · exact ⟨[], e, es, rfl, by simpa [branchTokens] using hp, hedits⟩
          · refine ⟨e :: newer, e', older, rfl, ?_, hedits⟩
            rw [htokens]
            rw [show (p.add message).totalTokens = p.totalTokens + estimateTokens message
              from rfl] at hfits
            omega
        · rintro ⟨_ | ⟨_, newer⟩, e', older, heq, hfits, hedits⟩
          · obtain ⟨rfl, rfl⟩ := List.cons.inj heq
            exact .inl hedits
          · obtain ⟨rfl, rfl⟩ := List.cons.inj heq
            refine .inr ⟨newer, e', older, rfl, ?_, hedits⟩
            rw [htokens] at hfits
            rw [show (p.add message).totalTokens = p.totalTokens + estimateTokens message
              from rfl]
            omega

/-- The first pass records what the summaries list. -/
lemma mem_foldl_inherit (entries : List SessionEntry) {fileOps : FileOperations} :
    (file ∈ (entries.foldl inheritFileOps fileOps).read ↔
      file ∈ fileOps.read ∨ ∃ e ∈ entries, file ∈ e.listed "readFiles") ∧
    (file ∈ (entries.foldl inheritFileOps fileOps).edited ↔
      file ∈ fileOps.edited ∨ ∃ e ∈ entries, file ∈ e.listed "modifiedFiles") := by
  induction entries generalizing fileOps with
  | nil => simp
  | cons e entries ih =>
    have hstep : (file ∈ (inheritFileOps fileOps e).read ↔
          file ∈ fileOps.read ∨ file ∈ e.listed "readFiles") ∧
        (file ∈ (inheritFileOps fileOps e).edited ↔
          file ∈ fileOps.edited ∨ file ∈ e.listed "modifiedFiles") := by
      rw [inheritFileOps, SessionEntry.listed, SessionEntry.listed]
      cases e.body with
      | branchSummary b =>
        cases hdetails : b.details with
        | none => simp [hdetails]
        | some details =>
          by_cases hhook : b.fromHook = some true
          · simp [hhook, hdetails]
          · simp [hhook, hdetails, mem_foldl_addPath]
      | _ => simp
    obtain ⟨hread, hedited⟩ := @ih (inheritFileOps fileOps e)
    refine ⟨hread.trans ?_, hedited.trans ?_⟩
    · rw [hstep.1, exists_mem_cons_iff, or_assoc]
    · rw [hstep.2, exists_mem_cons_iff, or_assoc]

lemma recordsAll_iff (entries : List SessionEntry) (tokenBudget : ℤ) :
    RecordsAll entries (prepareBranchEntries entries tokenBudget).fileOps ↔
      Covered entries tokenBudget := by
  have hstart : tokenBudget ≤ 0 ∨ ((({ fileOps := entries.foldl inheritFileOps {} } :
        BranchPreparation).totalTokens : ℕ) : ℤ) ≤ tokenBudget := by
    change tokenBudget ≤ 0 ∨ (0 : ℤ) ≤ tokenBudget
    omega
  have hread (file : String) : (∃ e ∈ entries, file ∈ e.listed "readFiles") →
      file ∈ (prepareBranchEntries entries tokenBudget).fileOps.read := by
    intro h
    rw [prepareBranchEntries, (@takeEntries_spec _ file entries.reverse _ hstart).1]
    exact (mem_foldl_inherit entries).1.mpr (.inr h)
  have hedited (file : String) : file ∈ (prepareBranchEntries entries tokenBudget).fileOps.edited ↔
        (∃ e ∈ entries, file ∈ e.listed "modifiedFiles") ∨
          ∃ older e newer, entries = older ++ e :: newer ∧ FitsBudget tokenBudget newer ∧
            e.Edits file := by
    rw [prepareBranchEntries, (@takeEntries_spec _ file entries.reverse _ hstart).2,
      (mem_foldl_inherit entries).2]
    refine or_congr ?_ ⟨?_, ?_⟩
    · simp
    · rintro ⟨newer, e, older, heq, hfits, hedits⟩
      refine ⟨older.reverse, e, newer.reverse, ?_, ?_, hedits⟩
      · rw [← reverse_reverse entries, heq]
        simp
      · rw [FitsBudget, branchTokens_reverse]
        simpa using hfits
    · rintro ⟨older, e, newer, rfl, hfits, hedits⟩
      refine ⟨newer.reverse, e, older.reverse, by simp, ?_, hedits⟩
      rw [branchTokens_reverse]
      simpa [FitsBudget] using hfits
  constructor
  · intro h older e newer heq _ file hedits
    rcases (hedited file).mp (h.edits e (by rw [heq]; simp) file hedits) with hlisted | hfits
    · exact .inr hlisted
    · exact .inl hfits
  · intro h
    refine ⟨fun e he file hedits => ?_, fun e he file hfile => ?_, fun e he file hfile => ?_⟩
    · obtain ⟨older, newer, heq⟩ := append_of_mem he
      rw [hedited]
      by_cases hfits : FitsBudget tokenBudget newer
      · exact .inr ⟨older, e, newer, heq, hfits, hedits⟩
      · exact (h older e newer heq hfits file hedits).symm
    · exact (hedited file).mpr (.inl ⟨e, he, hfile⟩)
    · exact hread file ⟨e, he, hfile⟩

end Prepare

/-- **The summary of a branch** is made of the old path without the path of the target, and records
its operations on files exactly when the edits beyond the budget are found within it too, or in a
summary. -/
theorem branchSummary_iff {m : SessionManager} (hidx : Indexed m)
    (htree : Acyclic (walkParent m.byId)) (oldLeafId : Option String) (targetId : String) :
    ∃ oldPath targetPath fuel result, pathTo m oldLeafId = some oldPath ∧
      m.getBranch (some targetId) = some targetPath ∧
      collectEntriesForBranchSummary m fuel oldLeafId targetId = some result ∧
      LeftBranch oldPath targetPath result ∧
      ∀ tokenBudget, RecordsAll result.entries
        (prepareBranchEntries result.entries tokenBudget).fileOps ↔
          Covered result.entries tokenBudget := by
  obtain ⟨oldPath, targetPath, fuel, result, hold, htarget, hcollect, hleft⟩ :=
    collectEntries_spec hidx htree oldLeafId targetId
  exact ⟨oldPath, targetPath, fuel, result, hold, htarget, hcollect, hleft,
    recordsAll_iff result.entries⟩

/-- An answer that edits the file `x.ts`. -/
abbrev editCall : SessionCall :=
  plainCall "b" (.appendMessage (.assistant
    { content := [.toolCall
        { id := "call", name := "edit", arguments := .obj [("path", .str "x.ts")] }]
      api := "api", provider := "provider", model := "model", usage := plainUsage
      stopReason := .toolUse, timestamp := 0 }))

/-- A session with an edit and a message behind it. -/
def editedSession : SessionState :=
  ((memorySession.after (say "a" "one")).after editCall).after (say "c" "thanks")

lemma tree_editedSession : Tree editedSession.manager := by
  have hnew : Tree memorySession.manager :=
    tree_of_newSession (Prod.ext rfl rfl : SessionState.createSession "/" "/" false
      plainEnv.toSessionEnv (fun _ => none) = (.ok (), memorySession))
  have h₁ := run_plainCall (.nil : Machine.Run _ memorySession [] _) (say "a" "one").op rfl
    (by decide : "a" ≠ "") (by decide)
  have h₂ := run_plainCall h₁ editCall.op rfl (by decide : "b" ≠ "") (by decide)
  exact hnew.run (run_plainCall h₂ (say "c" "thanks").op rfl (by decide : "c" ≠ "") (by decide))

theorem branchSummary_iff_editedSession :
    ∃ oldPath targetPath fuel result, pathTo editedSession.manager (some "c") = some oldPath ∧
      editedSession.manager.getBranch (some "a") = some targetPath ∧
      collectEntriesForBranchSummary editedSession.manager fuel (some "c") "a" = some result ∧
      LeftBranch oldPath targetPath result ∧
      ∀ tokenBudget, RecordsAll result.entries
        (prepareBranchEntries result.entries tokenBudget).fileOps ↔
          Covered result.entries tokenBudget :=
  branchSummary_iff tree_editedSession.indexed tree_editedSession.acyclic (some "c") "a"

def editsFile (e : SessionEntry) : Bool :=
  match e.body with
  | .message (.assistant m) => m.toolCalls.any fun call => call.name = "edit" ∧
      call.arguments.get? "path" = some (.str "x.ts")
  | _ => false

/-- With a budget of one token the last message ends the pass in front of the edit. -/
theorem branchSummary_drops_edit :
    ∃ result, collectEntriesForBranchSummary editedSession.manager 10 (some "c") "a" = some result ∧
      ¬ RecordsAll result.entries (prepareBranchEntries result.entries 1).fileOps := by
  have hcollect : ∃ result, collectEntriesForBranchSummary editedSession.manager 10 (some "c")
      "a" = some result ∧ result.entries.any editsFile = true ∧
      (prepareBranchEntries result.entries 1).fileOps.edited = [] :=
    ⟨_, rfl, by decide, by decide⟩
  obtain ⟨result, hresult, hedits, hnone⟩ := hcollect
  refine ⟨result, hresult, fun h => ?_⟩
  obtain ⟨e, he, hedits⟩ := any_eq_true.mp hedits
  have hmem : "x.ts" ∈ (prepareBranchEntries result.entries 1).fileOps.edited := by
    refine h.edits e he "x.ts" ?_
    rw [editsFile] at hedits
    split at hedits
    · rename_i m hbody
      obtain ⟨call, hcall, hedit⟩ := any_eq_true.mp hedits
      obtain ⟨hname, hpath⟩ := of_decide_eq_true hedit
      exact ⟨m, hbody, call, hcall, hname, hpath, by decide⟩
    · cases hedits
  rw [hnone] at hmem
  cases hmem

end Amide
