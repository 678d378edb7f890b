import Amide.Framework.ParentForest
import Amide.Properties.AgentsView.UnifiedSessions

/-!
# The rows of the agents view

With every parent expanded, the rows of the sessions are a walk over the forest of the records
(`emit_eq_walk`).  Subagents that lead back to themselves are below no root, and have no row
(`rows_shown_iff`).  Together with what becomes of the saved sessions this says when the view shows
every session (`sessions_shown_iff`).
-/

namespace Amide

open ParentForest List Option

section Rows

variable {view : AgentsView} {records : List UnifiedSessionRecord} {fuel depth i : ℕ}
  {parentIdentity : Option String}

/-- The row of a session. -/
def AgentsViewRow.isSession (row : AgentsViewRow) : Bool :=
  row.kind = .agent || row.kind = .subagent

/-- The records that have the rows of sessions. -/
def shownRecords (rows : List AgentsViewRow) : List ℕ :=
  (rows.filter AgentsViewRow.isSession).filterMap (·.record)

lemma shownRecords_append (rows rows' : List AgentsViewRow) :
    shownRecords (rows ++ rows') = shownRecords rows ++ shownRecords rows' := by
  rw [shownRecords, filter_append, filterMap_append]
  rfl

lemma shownRecords_flatten (rows : List (List AgentsViewRow)) :
    shownRecords rows.flatten = (rows.map shownRecords).flatten := by
  induction rows with
  | nil => rfl
  | cons row rows ih => rw [flatten_cons, shownRecords_append, ih]; rfl

lemma shownRecords_buildSpawnCodeRows (parent : AgentsViewRow) (spawnCode : String)
    (groupIndex : ℕ) :
    shownRecords (buildSpawnCodeRows parent spawnCode depth groupIndex) = [] := by
  have hcode : ∀ row ∈ buildSpawnCodeRows parent spawnCode depth groupIndex,
      row.kind = .subagentCode := by
    intro row hrow
    simp only [buildSpawnCodeRows, mem_append, List.mem_map, mem_singleton] at hrow
    rcases hrow with (rfl | ⟨line, -, rfl⟩ | hrow) | rfl
    · rfl
    · rfl
    · split_ifs at hrow
      · cases hrow
      · rw [mem_singleton.mp hrow]
      · rw [mem_singleton.mp hrow]
    · rfl
  have hnone : (buildSpawnCodeRows parent spawnCode depth groupIndex).filter
      AgentsViewRow.isSession = [] := by
    rw [filter_eq_nil_iff]
    intro row hrow
    rw [AgentsViewRow.isSession, hcode row hrow]
    decide
  rw [shownRecords, hnone]
  rfl

/-- The children of a record, in the order of their rows. -/
def shownChildren (view : AgentsView) (records : List UnifiedSessionRecord) (i : ℕ) : List ℕ :=
  (view.groupChildrenBySpawnCode records (view.sortRows
    (childRows view.canonicalSessionPath (view.summaries records) i))).flatMap
      SpawnCodeGroup.children

/-! ### Children -/

/-- The sessions of all groups. -/
def grouped (groups : JsMap String SpawnCodeGroup) : List ℕ :=
  groups.values.flatMap SpawnCodeGroup.children

lemma grouped_addToGroup (groups : JsMap String SpawnCodeGroup) (code : Option String)
    (child : ℕ) : (grouped (addToGroup groups code child)).Perm (grouped groups ++ [child]) := by
  rw [addToGroup]
  cases hget : groups.get? (code.getD " no-spawn-code") with
  | some group =>
    obtain ⟨l₁, l₂, heq, hset⟩ := JsMap.exists_entries_set hget
    dsimp only
    rw [grouped, grouped, JsMap.values, JsMap.values, hset, heq]
    simp only [map_append, map_cons, flatMap_append, flatMap_cons,
      append_assoc, perm_append_left_iff]
    exact perm_append_comm
  | none =>
    rw [grouped, grouped, JsMap.values, JsMap.entries_set_of_get?_none hget, map_append,
      flatMap_append]
    exact .refl _

/-- The children of a record are shown, in some order. -/
lemma shownChildren_perm (view : AgentsView) (records : List UnifiedSessionRecord) (i : ℕ) :
    (shownChildren view records i).Perm
      (childRows view.canonicalSessionPath (view.summaries records) i) := by
  have hgroups (children : List ℕ) :
      ((view.groupChildrenBySpawnCode records children).flatMap SpawnCodeGroup.children).Perm
        children := by
    change (grouped _).Perm children
    induction children using reverseRecOn with
    | nil => exact .refl _
    | append_singleton children child ih =>
      rw [foldl_append]
      exact (grouped_addToGroup _ _ _).trans (ih.append_right _)
  exact (hgroups _).trans (mergeSort_perm _ _)

lemma mem_childRows {canonicalSessionPath : String → String} {summaries : List SessionSummary}
    {c : ℕ} : c ∈ childRows canonicalSessionPath summaries i ↔
      c < summaries.length ∧ parentRow canonicalSessionPath summaries c = some i := by
  simp [childRows]

variable {e : ℕ → Option (List AgentsViewRow)} {w : ℕ → Option (List ℕ)}

/-- Rows made one after the other show what is shown of each. -/
lemma mapM_shown {l : List ℕ}
    (h : ∀ c ∈ l, (e c).map shownRecords = w c) :
    (l.mapM e).map (fun rows => shownRecords rows.flatten) = (l.mapM w).map List.flatten := by
  have hshown : (l.mapM e).map (List.map shownRecords) = l.mapM w := by
    induction l with
    | nil => rfl
    | cons c l ih =>
      rw [forall_mem_cons] at h
      rw [mapM_cons, mapM_cons, ← ih h.2, ← h.1]
      cases e c with
      | none => rfl
      | some rows => cases l.mapM e <;> rfl
  rw [← hshown, Option.map_map]
  simp only [shownRecords_flatten]
  rfl

/-- So do groups of them, with the code of each in front. -/
lemma mapM_emitGroup (view : AgentsView) (row : AgentsViewRow) (groups : List SpawnCodeGroup)
    (k : ℕ)
    (h : ∀ c ∈ groups.flatMap SpawnCodeGroup.children, (e c).map shownRecords = w c) :
    ((groups.zipIdx k).mapM (view.emitGroup row e)).map (fun rows => shownRecords rows.flatten) =
      ((groups.flatMap SpawnCodeGroup.children).mapM w).map List.flatten := by
  induction groups generalizing k with
  | nil => rfl
  | cons group groups ih =>
    rw [flatMap_cons, List.forall_mem_append] at h
    have hgroup : (view.emitGroup row e (group, k)).map shownRecords =
        (group.children.mapM w).map List.flatten := by
      rw [AgentsView.emitGroup, Option.map_map, ← mapM_shown h.1]
      refine congrArg (Option.map · _) (funext fun rows => ?_)
      rw [Function.comp_apply, shownRecords_append, append_left_eq_self]
      split
      · split_ifs
        · exact shownRecords_buildSpawnCodeRows _ _ _
        · rfl
      · rfl
    have hrest := ih (k + 1) h.2
    rw [zipIdx_cons, mapM_cons, flatMap_cons, mapM_append]
    cases hw : group.children.mapM w with
    | none =>
      rw [hw, map_none, map_eq_none_iff] at hgroup
      rw [hgroup]
      rfl
    | some ls =>
      rw [hw, map_some, map_eq_some_iff] at hgroup
      obtain ⟨rows, hrows, hshown⟩ := hgroup
      rw [hrows]
      cases hws : (groups.flatMap SpawnCodeGroup.children).mapM w with
      | none =>
        rw [hws, map_none, map_eq_none_iff] at hrest
        simp [hrest]
      | some ls' =>
        rw [hws, map_some, map_eq_some_iff] at hrest
        obtain ⟨rows', hrows', hshown'⟩ := hrest
        simp [hrows', shownRecords_append, hshown, hshown']

/-- The rows of a record and of those below it are a walk down the forest. -/
lemma emit_eq_walk (hall : view.expandedSubagentParents = fun _ => true) (hi : i < records.length) :
    (view.emit records fuel depth parentIdentity i).map shownRecords =
      ParentForest.walk (shownChildren view records) fuel i := by
  induction fuel generalizing depth parentIdentity i with
  | zero => rfl
  | succ fuel ih =>
    have hbase (below : List AgentsViewRow) :
        shownRecords (view.baseRow records records[i] i depth parentIdentity :: below) =
          i :: shownRecords below := by
      have hsess :
          (view.baseRow records records[i] i depth parentIdentity).isSession = true := by
        rw [AgentsViewRow.isSession, AgentsView.baseRow]
        split_ifs <;> rfl
      rw [shownRecords, filter_cons_of_pos hsess, filterMap_cons]
      rfl
    have hperm := shownChildren_perm view records i
    rw [AgentsView.emit, getElem?_eq_getElem hi, ParentForest.walk]
    dsimp only
    by_cases hchildren : childRows view.canonicalSessionPath (view.summaries records) i = []
    · rw [hchildren] at hperm
      rw [if_pos hchildren, hperm.eq_nil, map_some, hbase]
      rfl
    · have hbelow : ∀ c ∈ shownChildren view records i, c < records.length := by
        intro c hc
        have hlt := (mem_childRows.mp (hperm.mem_iff.mp hc)).1
        rwa [AgentsView.summaries, length_map] at hlt
      have hchild : ∀ c ∈ shownChildren view records i, (view.emit records fuel (depth + 1)
            (some (view.baseRow records records[i] i depth parentIdentity).identity) c).map
              shownRecords = ParentForest.walk (shownChildren view records) fuel c :=
        fun c hc => ih (hbelow c hc)
      have hgroups := mapM_emitGroup view (view.baseRow records records[i] i depth parentIdentity)
        (view.groupChildrenBySpawnCode records (view.sortRows
          (childRows view.canonicalSessionPath (view.summaries records) i))) 0 hchild
      have hsum (hasSpawnCode expanded : Bool) (below : List AgentsViewRow) :
          shownRecords (createSubagentSummaryRow
            (view.baseRow records records[i] i depth parentIdentity) (depth + 1) hasSpawnCode
              expanded :: below) = shownRecords below := rfl
      have hwalk : (fun below : List (List ℕ) => i :: below.flatten) =
          (i :: ·) ∘ List.flatten := rfl
      rw [if_neg hchildren, if_neg (by rw [hall]; exact Bool.true_eq_false.mp), hwalk,
        ← Option.map_map (i :: ·) List.flatten, shownChildren, ← hgroups, Option.map_map,
        Option.map_map]
      refine congrArg (Option.map · _) (funext fun below => ?_)
      rw [Function.comp_apply, hbase, hsum]
      rfl

/-! ### Parents -/

section Parents

variable {canonicalSessionPath : String → String} {summaries : List SessionSummary} {c p : ℕ}

lemma buildRowKeyMap_lt {key : String}
    (h : (buildRowKeyMap canonicalSessionPath summaries).get? key = some p) :
    p < summaries.length := by
  suffices hfold : ∀ (rows : List (SessionSummary × ℕ)) (rowsByKey : JsMap String ℕ),
      (∀ row ∈ rows, row.2 < summaries.length) →
      (∀ key p, rowsByKey.get? key = some p → p < summaries.length) →
      ∀ key p, (rows.foldl (fun rowsByKey row =>
        setKeys rowsByKey (getSummaryKeys canonicalSessionPath row.1) row.2) rowsByKey).get? key =
          some p → p < summaries.length by
    refine hfold _ _ (fun row hrow => ?_) (fun _ _ hget => ?_) key p h
    · exact (List.getElem?_eq_some_iff.mp (mem_zipIdx_iff_getElem?.mp hrow)).1
    · cases hget
  intro rows
  induction rows with
  | nil => exact fun _ _ hkeys => hkeys
  | cons row rows ih =>
    intro rowsByKey hrows hkeys
    rw [forall_mem_cons] at hrows
    refine ih _ hrows.2 fun key p hget => ?_
    rw [get?_setKeys] at hget
    split_ifs at hget
    · exact Option.some.inj hget ▸ hrows.1
    · exact hkeys key p hget

lemma bounded_parentRow :
    Bounded (parentRow canonicalSessionPath summaries) (List.range summaries.length) := by
  intro c p h
  rw [parentRow, bind_eq_some_iff] at h
  obtain ⟨summary, hsum, hpar⟩ := h
  have hfound := (filter_eq_some_iff.mp hpar).1
  obtain ⟨key, -, hkey⟩ := exists_of_findSome?_eq_some hfound
  have hc := (filter_eq_some_iff.mp hsum).1
  rw [mem_range, mem_range]
  exact ⟨(List.getElem?_eq_some_iff.mp hc).1, buildRowKeyMap_lt hkey⟩

end Parents

/-- Every record has one row of an agent or a subagent. -/
def RowsShown (records : List UnifiedSessionRecord) (rows : List AgentsViewRow) : Prop :=
  ∀ i < records.length, rows.countP (fun row => row.isSession && decide (row.record = some i)) = 1

/-- **When every record has a row.** -/
theorem rows_shown_iff (hall : view.expandedSubagentParents = fun _ => true) :
    (∃ rows, view.buildAgentsViewRows records = some rows ∧ RowsShown records rows) ↔
      Acyclic (parentRow view.canonicalSessionPath (view.summaries records)) := by
  have hlen : (view.summaries records).length = records.length := length_map _
  have hchild : ParentForest.Lists (shownChildren view records)
      (parentRow view.canonicalSessionPath (view.summaries records)) := by
    intro i
    have hperm := shownChildren_perm view records i
    refine ⟨hperm.nodup_iff.mpr (nodup_range.filter _), fun c => ?_⟩
    rw [hperm.mem_iff, mem_childRows, and_iff_right_iff_imp]
    exact fun h => mem_range.mp (bounded_parentRow c i h).1
  have hsorted : (view.sortRows (rootRows view.canonicalSessionPath
      (view.summaries records))).Perm _ := mergeSort_perm _ _
  obtain ⟨l, hl, hnodup, hmem⟩ := exists_walkAll bounded_parentRow hchild
    (hsorted.nodup_iff.mpr (nodup_range.filter _)) fun i => by
      rw [hsorted.mem_iff, rootRows, mem_filter, decide_eq_true_eq]
  have hshown : (view.buildAgentsViewRows records).map shownRecords = some l := by
    rw [← hl, AgentsView.buildAgentsViewRows, Option.map_map, ParentForest.walkAll,
      length_range, hlen, ← mapM_shown]
    · rfl
    · intro c hc
      have hlt : c < (view.summaries records).length :=
        mem_range.mp (mem_of_mem_filter (hsorted.mem_iff.mp hc))
      exact emit_eq_walk hall (hlen ▸ hlt)
  obtain ⟨rows, hrows, hrows'⟩ := map_eq_some_iff.mp hshown
  have hcount (i : ℕ) :
      rows.countP (fun row => row.isSession && decide (row.record = some i)) = l.count i := by
    rw [← hrows', shownRecords, count_filterMap, countP_filter]
    refine countP_congr fun row _ => ?_
    simp [and_comm]
  rw [← forall_level_iff bounded_parentRow]
  constructor
  · rintro ⟨rows', hrows', hone⟩ i hi
    rw [hrows] at hrows'
    cases hrows'
    rw [mem_range, hlen] at hi
    have hone := hone i hi
    rw [hcount] at hone
    exact ((hmem i).mp (count_pos_iff.mp (by omega))).2
  · intro hlevel
    refine ⟨rows, hrows, fun i hi => ?_⟩
    rw [hcount]
    rw [← hlen, ← mem_range] at hi
    exact count_eq_one_of_mem hnodup ((hmem i).mpr ⟨hi, hlevel i hi⟩)

end Rows

/-! ## Sessions -/

section Sessions

variable (leasePath : String → String)
  (heartbeatByActiveId : String → Option UnifiedSessionHeartbeat)
  (daemonSummaries : List SessionSummary) (savedSessions : List AgentConnectionSavedSessionInfo)

/-- Every session is in one record, and every record has one row. -/
structure SessionsShown (view : AgentsView) (records : List UnifiedSessionRecord) : Prop where
  daemons : records.filterMap (·.daemon) = daemonSummaries.map (markHeartbeat heartbeatByActiveId)
  saved : ∀ s ∈ savedSessions, records.countP (fun record => record.saved = some s) = 1
  rows : ∃ rows, view.buildAgentsViewRows records = some rows ∧ RowsShown records rows

variable {leasePath heartbeatByActiveId daemonSummaries savedSessions} {view : AgentsView}

/-- **The agents view shows every session** exactly when no two saved sessions come to one record,
and no parents lead from a row back to itself. -/
theorem sessions_shown_iff (hall : view.expandedSubagentParents = fun _ => true)
    (hpaths : savedSessions.Pairwise fun s t =>
      view.canonicalSessionPath s.path ≠ view.canonicalSessionPath t.path) :
    SessionsShown heartbeatByActiveId daemonSummaries savedSessions view
        (reconcileUnifiedSessions view.canonicalSessionPath leasePath heartbeatByActiveId
          daemonSummaries savedSessions) ↔
      savedSessions.Pairwise (Apart view.canonicalSessionPath leasePath daemonSummaries) ∧
        Acyclic (parentRow view.canonicalSessionPath (unifiedSummaries view.canonicalSessionPath
          leasePath heartbeatByActiveId daemonSummaries savedSessions)) := by
  obtain ⟨sessions, heq, hdaemon, -, hcases⟩ := foldl_addSaved view.canonicalSessionPath
    leasePath heartbeatByActiveId daemonSummaries savedSessions hpaths
  have hnodup : savedSessions.Nodup := hpaths.imp fun hne heq =>
    hne (congrArg (fun s : AgentConnectionSavedSessionInfo => view.canonicalSessionPath s.path) heq)
  have hcount (s : AgentConnectionSavedSessionInfo) :
      sessions.records.countP (fun record => record.saved = some s) =
        (sessions.records.filterMap (·.saved)).count s := by
    rw [count_filterMap]
    exact countP_congr fun record _ => by simp
  rw [reconcileUnifiedSessions, heq]
  rcases hcases with ⟨hapart, h⟩ | ⟨hapart, hlt⟩
  · have hsummaries : view.summaries sessions.records = unifiedSummaries view.canonicalSessionPath
        leasePath heartbeatByActiveId daemonSummaries savedSessions := h.summaries
    rw [and_iff_right hapart, ← hsummaries, ← rows_shown_iff hall]
    refine ⟨SessionsShown.rows, fun hrows => ⟨hdaemon, fun s hs => ?_, hrows⟩⟩
    rw [hcount, h.saved.count_eq]
    exact count_eq_one_of_mem hnodup hs
  · refine iff_of_false (fun hshown => ?_) fun h => hapart h.1
    have hsub : savedSessions ⊆ sessions.records.filterMap (·.saved) := by
      intro s hs
      rw [← count_pos_iff, ← hcount, hshown.saved s hs]
      exact Nat.one_pos
    exact Nat.not_le.mpr hlt (hnodup.subperm hsub).length_le

end Sessions

/-! ### Two sessions -/

def plainView : AgentsView where
  canonicalSessionPath := id
  compareAgentsViewRows := fun _ _ => true
  expandedSubagentParents := fun _ => true
  programShownParents := fun _ => false

def livingSession : SessionSummary where
  id := "a"
  activeSessionId := some "a"
  sessionId := "s"
  sessionFile := some "/s.jsonl"

def savedAs (path : String) : AgentConnectionSavedSessionInfo := { path, id := "s" }

def savedChild : AgentConnectionSavedSessionInfo :=
  { path := "/t.jsonl", id := "t", parentSessionPath := some "/s.jsonl" }

/-- A session that a daemon has, and a child of it that none has. -/
theorem sessions_shown_family :
    SessionsShown (fun _ => none) [livingSession] [savedAs "/s.jsonl", savedChild] plainView
      (reconcileUnifiedSessions id id (fun _ => none) [livingSession]
        [savedAs "/s.jsonl", savedChild]) := by
  have hpaths : [savedAs "/s.jsonl", savedChild].Pairwise fun s t =>
      plainView.canonicalSessionPath s.path ≠ plainView.canonicalSessionPath t.path := by
    simp [savedAs, savedChild, plainView]
  refine (sessions_shown_iff (rfl : plainView.expandedSubagentParents = fun _ => true)
    hpaths).mpr ⟨pairwise_pair.mpr ⟨by decide +kernel, nofun⟩, ?_⟩
  have hroot : parentRow id (unifiedSummaries id id (fun _ => none) [livingSession]
      [savedAs "/s.jsonl", savedChild]) 0 = none := by decide +kernel
  have hchild : parentRow id (unifiedSummaries id id (fun _ => none) [livingSession]
      [savedAs "/s.jsonl", savedChild]) 1 = some 0 := by decide +kernel
  refine (forall_level_iff bounded_parentRow).mp fun i hi => ?_
  have hlt : i < 2 := mem_range.mp hi
  interval_cases i
  · exact ⟨0, .root hroot⟩
  · exact ⟨1, .child hchild (.root hroot)⟩

/-- Two files of one session, which no daemon has: the first one is in no record. -/
theorem sessions_not_shown_copied :
    (reconcileUnifiedSessions id id (fun _ => none) [] [savedAs "/a.jsonl", savedAs "/b.jsonl"]).map
        (·.saved) = [some (savedAs "/b.jsonl")] ∧
      ¬ SessionsShown (fun _ => none) [] [savedAs "/a.jsonl", savedAs "/b.jsonl"] plainView
        (reconcileUnifiedSessions id id (fun _ => none) []
          [savedAs "/a.jsonl", savedAs "/b.jsonl"]) := by
  refine ⟨by decide +kernel, fun hshown => ?_⟩
  have hone := hshown.saved (savedAs "/a.jsonl") mem_cons_self
  have hnone : (reconcileUnifiedSessions id id (fun _ => none) []
      [savedAs "/a.jsonl", savedAs "/b.jsonl"]).countP
        (fun record => record.saved = some (savedAs "/a.jsonl")) = 0 := by decide +kernel
  exact absurd (hnone.symm.trans hone) Nat.zero_ne_one

end Amide
