import Amide.Framework.ParentForest
import Amide.Properties.Logs.LedgerFamily

/-!
# The way up from a session of the family

Where the live edges have distinct children, the depth falls along the parents of the rows, so the
way up from a row comes to an end (`family_acyclic`).  It does not always end at a root: a row's
parent is in no row when its own edge was dropped, or when it is neither a file of the sessions
directory nor the child of a live edge.
-/

namespace Amide

open ParentForest

namespace RlmSpawnLedger

variable {ledger : RlmSpawnLedger} {env : LedgerEnv}

/-- The row of the row's parent. -/
def parentRow (rows : List SessionRow) (row : SessionRow) : Option SessionRow :=
  row.parentSessionPath.bind fun path => rows.find? fun parent => parent.path = path

/-- No two of the edges have one child. -/
def DistinctChildren (env : LedgerEnv) (alive : List RlmLedgerEdge) : Prop :=
  (alive.map fun edge => env.canonicalSessionPath edge.child).Nodup

variable {row parent : SessionRow}

lemma parentRow_mem {rows : List SessionRow}
    (h : parentRow rows row = some parent) :
    parent ∈ rows ∧ row.parentSessionPath = some parent.path := by
  obtain ⟨path, hpath, hfind⟩ := Option.bind_eq_some_iff.mp h
  have hsame : parent.path = path := by simpa using List.find?_some hfind
  exact ⟨List.mem_of_find?_eq_some hfind, hpath.trans (congrArg some hsame.symm)⟩

/-! ## Depths -/

/-- A record's depth is at least one, and nothing changes it. -/
lemma one_le_depth_replayEdges (records : List RlmLedgerRecord) :
    ∀ edge ∈ (replayEdges env records).values, 1 ≤ edge.depth := by
  have hstep (edges : JsMap String RlmLedgerEdge) (record : RlmLedgerRecord)
      (hedges : ∀ edge ∈ edges.values, 1 ≤ edge.depth) :
      ∀ edge ∈ (applyRecord env edges record).values, 1 ≤ edge.depth := by
    have hset (key : String) (new : RlmLedgerEdge) (hnew : 1 ≤ new.depth) :
        ∀ edge ∈ (edges.set key new).values, 1 ≤ edge.depth := by
      intro edge hedge
      obtain ⟨key', hkey'⟩ := JsMap.mem_values_iff.mp hedge
      rw [JsMap.get?_set] at hkey'
      split_ifs at hkey'
      · cases hkey'
        exact hnew
      · exact hedges edge (JsMap.mem_values_iff.mpr ⟨key', hkey'⟩)
    cases record with
    | metaRecord r => exact hedges
    | spawn r => exact hset _ _ r.depth.property.1
    | rename r | delete r =>
      rw [applyRecord]
      cases hexist : edges.get? (edgeKey env r.childId r.child) with
      | none => exact hedges
      | some existing =>
        exact hset _ _ (hedges existing (JsMap.mem_values_iff.mpr ⟨_, hexist⟩))
  have hrun (edges : JsMap String RlmLedgerEdge) (hedges : ∀ edge ∈ edges.values, 1 ≤ edge.depth) :
      ∀ edge ∈ (records.foldl (applyRecord env) edges).values, 1 ≤ edge.depth := by
    induction records generalizing edges with
    | nil => exact hedges
    | cons record records ih => exact ih _ (hstep edges record hedges)
  refine hrun _ ?_
  rintro _ ⟨⟩

variable {edges : JsMap String RlmLedgerEdge} {edge : RlmLedgerEdge}

lemma mem_values_of_mem_liveEdges
    (h : edge ∈ liveEdges env edges) : edge ∈ edges.values :=
  List.mem_of_mem_filter (List.mem_of_mem_filter h)

/-- With distinct children, the depth recorded for a child is that of its edge. -/
lemma get?_depthByPath {alive : List RlmLedgerEdge} (hdist : DistinctChildren env alive)
    (hedge : edge ∈ alive) :
    (depthByPath env alive).get? (env.canonicalSessionPath edge.child) = some edge.depth := by
  have hpairs : depthByPath env alive = (alive.map fun edge =>
      (env.canonicalSessionPath edge.child, edge.depth)).foldl
        (fun m p => m.set p.1 p.2) .empty := by
    rw [depthByPath, List.foldl_map]
  have hnodup : ((alive.map fun edge =>
      (env.canonicalSessionPath edge.child, edge.depth)).map Prod.fst).Nodup := by
    rw [List.map_map]
    exact hdist
  rw [hpairs, JsMap.get?_foldl_set hnodup,
    JsMap.lookup_of_mem hnodup (List.mem_map_of_mem hedge), Option.some_or]

/-! ## Rows and their parents -/

lemma mem_familyRows {row : SessionRow} :
    row ∈ ledger.familyRows env edges ↔
      (∃ path ∈ ledger.rootPaths env (liveEdges env edges), row = rootRow env path) ∨
        ∃ edge ∈ liveEdges env edges, depthAgrees env (liveEdges env edges) edge = true ∧
          row = edgeRow env edge := by
  rw [familyRows, List.mem_append, List.mem_map, List.mem_map]
  simp only [List.mem_filter, and_assoc, eq_comm]

/-- A parent is less deep: it is a root, or its depth is the one the edge was checked against. -/
lemma depth_lt_of_parent {records : List RlmLedgerRecord}
    (hdist : DistinctChildren env (liveEdges env (replayEdges env records)))
    (hrow : row ∈ ledger.familyRows env (replayEdges env records))
    (hpar : parent ∈ ledger.familyRows env (replayEdges env records))
    (hpath : row.parentSessionPath = some parent.path) : parent.rlmDepth < row.rlmDepth := by
  rcases mem_familyRows.mp hrow with ⟨path, -, rfl⟩ | ⟨edge, hedge, hagrees, rfl⟩
  · cases hpath
  · rcases mem_familyRows.mp hpar with ⟨path, -, rfl⟩ | ⟨above, hmem, -, rfl⟩
    · exact one_le_depth_replayEdges records edge (mem_values_of_mem_liveEdges hedge)
    · have habove : (some (env.canonicalSessionPath edge.parent)).filter (· ≠ "") =
          some (env.canonicalSessionPath above.child) := hpath
      have hsame : env.canonicalSessionPath edge.parent = env.canonicalSessionPath above.child :=
        Option.some.inj (Option.filter_eq_some_iff.mp habove).1
      rw [depthAgrees, hsame, get?_depthByPath hdist hmem] at hagrees
      have hdepth : edge.depth = above.depth + 1 := beq_iff_eq.mp hagrees
      show above.depth < edge.depth
      omega

/-- The rows rise: a parent is less deep than its child, so a way up ends within the depth of its
row, and ends below a parent without a row only where that has no edge whose depth agrees. -/
def Rises (ledger : RlmSpawnLedger) (env : LedgerEnv) (edges : List RlmLedgerEdge)
    (rows : List SessionRow) : Prop :=
  (∀ row ∈ rows, ∀ parent ∈ rows, row.parentSessionPath = some parent.path →
    parent.rlmDepth < row.rlmDepth) ∧
  (∀ row ∈ rows, ∃ steps ≤ row.rlmDepth, Level (parentRow rows) steps row) ∧
  ∀ row ∈ rows, ∀ path, row.parentSessionPath = some path → parentRow rows row = none →
    agreeingEdges env edges path = [] ∧
      (IsLiveChild env edges path ∨ path ∉ ledger.sessionPaths env)

/-- **The way up**, for every ledger that is read and every directory. -/
theorem family_acyclic {file : Option (List UInt8)} {records : List RlmLedgerRecord}
    (h : ledger.eventLog.replaySync parseLedgerLine file = .ok records)
    (hdistinct : DistinctChildren env (liveEdges env (replayEdges env records))) :
    ∃ rows, ledger.family env file = .ok rows ∧
      ledger.Rises env (liveEdges env (replayEdges env records)) rows := by
  have hlt : ∀ row ∈ ledger.familyRows env (replayEdges env records),
      ∀ parent ∈ ledger.familyRows env (replayEdges env records),
        row.parentSessionPath = some parent.path → parent.rlmDepth < row.rlmDepth :=
    fun row hrow parent hparent => depth_lt_of_parent hdistinct hrow hparent
  refine ⟨ledger.familyRows env (replayEdges env records), ?_, hlt, fun row hrow => ?_,
    fun row _ path hpath hnone => ?_⟩
  · rw [family, replaySync, h]
    rfl
  · refine exists_level_of_falling SessionRow.rlmDepth (fun row hrow parent hparent => ?_) hrow
    obtain ⟨hmem, hpath⟩ := parentRow_mem hparent
    exact ⟨hmem, hlt row hrow parent hmem hpath⟩
  · rw [parentRow, hpath, Option.bind_some] at hnone
    have hrows : (ledger.familyRows env (replayEdges env records)).filter (·.path = path) = [] :=
      List.filter_eq_nil_iff.mpr (List.find?_eq_none.mp hnone)
    rw [filter_familyRows, List.append_eq_nil_iff, List.map_eq_nil_iff] at hrows
    refine ⟨hrows.2, ?_⟩
    by_cases hchild : (byChild env (liveEdges env (replayEdges env records))).has path = true
    · exact .inl (has_byChild_iff.mp hchild)
    · rw [if_neg hchild] at hrows
      exact .inr (List.count_eq_zero.mp (List.replicate_eq_nil_iff _ |>.mp hrows.1))

/-! ## A parent that is in no row -/

/-- Below the two children, one whose depth agrees with its parent's. -/
def deepRecords : List RlmLedgerRecord :=
  nestedRecords ++ [.spawn ⟨"2026-01-01T00:00:00.000Z", "sub-3", "/a/nested.jsonl",
    "/a/deep.jsonl", ⟨4, by decide⟩, "deep"⟩]

def deepFile : Option (List UInt8) := some (ledgerRecords.codec.write deepRecords)

lemma replaySync_deepFile :
    sampleLedger.eventLog.replaySync parseLedgerLine deepFile = .ok deepRecords := by
  have hlen : (ledgerRecords.codec.write deepRecords).length ≤ 700 := by decide +kernel
  exact (LedgerFile.written deepRecords).replayRecords_eq
    ⟨hlen.trans (by simp [rlmLedgerMaxBytes]), by
      simp [deepRecords, nestedRecords, rlmLedgerMaxRecords]⟩

lemma distinctChildren_deep :
    DistinctChildren nestedEnv (liveEdges nestedEnv (replayEdges nestedEnv deepRecords)) := by
  rw [DistinctChildren]
  decide +kernel

theorem family_acyclic_deep : ∃ rows, sampleLedger.family nestedEnv deepFile = .ok rows ∧
      sampleLedger.Rises nestedEnv (liveEdges nestedEnv (replayEdges nestedEnv deepRecords)) rows :=
  family_acyclic replaySync_deepFile distinctChildren_deep

/-- The way up from the deepest child ends below a row that is no root. -/
theorem not_reaches_root_deep :
    ¬ ∀ (ledger : RlmSpawnLedger) (env : LedgerEnv) (file : Option (List UInt8))
        (records : List RlmLedgerRecord) (rows : List SessionRow),
      ledger.eventLog.replaySync parseLedgerLine file = .ok records →
      DistinctChildren env (liveEdges env (replayEdges env records)) →
      ledger.family env file = .ok rows →
      ∀ row ∈ rows, ∃ root, Under (parentRow rows) root row ∧ root ∈ rows ∧
        root.parentSessionPath = none := by
  intro h
  have hrows : sampleLedger.family nestedEnv deepFile =
      .ok (sampleLedger.familyRows nestedEnv (replayEdges nestedEnv deepRecords)) := by
    rw [family, replaySync, replaySync_deepFile]
    rfl
  obtain ⟨root, hunder, -, hroot⟩ := h sampleLedger nestedEnv deepFile deepRecords _
    replaySync_deepFile distinctChildren_deep hrows
    ⟨"/a/deep.jsonl", some "deep", 4, some "/a/nested.jsonl"⟩ (by decide +kernel)
  have hnone : parentRow (sampleLedger.familyRows nestedEnv (replayEdges nestedEnv deepRecords))
      ⟨"/a/deep.jsonl", some "deep", 4, some "/a/nested.jsonl"⟩ = none := by decide +kernel
  rcases Relation.ReflTransGen.cases_tail hunder with heq | ⟨above, -, habove⟩
  · rw [← heq] at hroot
    cases hroot
  · rw [hnone] at habove
    cases habove

end RlmSpawnLedger

end Amide
