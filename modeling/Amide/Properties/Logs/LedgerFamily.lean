import Amide.Properties.Logs.LedgerBounds

/-!
# Which sessions the family lists

The roots are found before edges whose depth contradicts their parent's are dropped.  So a file
of the sessions directory that is no live edge's child has one root row for each of its names, a
child with one edge that agrees in depth has that edge's row and no other, and a child elsewhere
that has none is not listed (`family_rows`).  Dropping an edge takes its session with it
(`nestedEdges_not_listed`).
-/

namespace Amide

open LineCodec

namespace RlmSpawnLedger

variable {ledger : RlmSpawnLedger} {env : LedgerEnv}

@[simp] lemma rootRow_path (path : String) : (rootRow env path).path = path := rfl

@[simp] lemma edgeRow_path (edge : RlmLedgerEdge) :
    (edgeRow env edge).path = env.canonicalSessionPath edge.child := rfl

/-- The session is the child of a live edge. -/
def IsLiveChild (env : LedgerEnv) (alive : List RlmLedgerEdge) (path : String) : Prop :=
  ∃ edge ∈ alive, env.canonicalSessionPath edge.child = path

/-- The live edges to a child that agree in depth with their parent's. -/
def agreeingEdges (env : LedgerEnv) (alive : List RlmLedgerEdge) (path : String) :
    List RlmLedgerEdge :=
  alive.filter fun edge =>
    depthAgrees env alive edge && env.canonicalSessionPath edge.child == path

variable {alive : List RlmLedgerEdge}

lemma has_byChild_iff {path : String} :
    (byChild env alive).has path = true ↔ IsLiveChild env alive path := by
  rw [← not_iff_not, Bool.not_eq_true, JsMap.has_eq_false_iff, byChild,
    JsMap.get?_index_eq_none_iff, IsLiveChild]
  simp

lemma filter_rootRows (alive : List RlmLedgerEdge) (path : String) :
    ((ledger.rootPaths env alive).map (rootRow env)).filter (·.path = path) =
      if (byChild env alive).has path then []
      else List.replicate ((ledger.sessionPaths env).count path) (rootRow env path) := by
  have hroots : (ledger.rootPaths env alive).filter (· = path) =
      if (byChild env alive).has path then []
      else List.replicate ((ledger.sessionPaths env).count path) path := by
    rw [rootPaths, List.filter_filter, ← List.filter_eq]
    split_ifs with hchild
    · rw [List.filter_eq_nil_iff]
      rintro root - hroot
      simp only [Bool.and_eq_true, decide_eq_true_eq, Bool.not_eq_true'] at hroot
      rw [hroot.1, hchild] at hroot
      exact absurd hroot.2 (by decide)
    · refine List.filter_congr fun root _ => ?_
      by_cases hroot : root = path
      · simp [hroot, hchild]
      · simp [hroot]
  rw [List.filter_map]
  change ((ledger.rootPaths env alive).filter (· = path)).map (rootRow env) = _
  rw [hroots]
  split_ifs
  · rfl
  · exact List.map_replicate

lemma filter_edgeRows (alive : List RlmLedgerEdge) (path : String) :
    ((alive.filter (depthAgrees env alive)).map (edgeRow env)).filter (·.path = path) =
      (agreeingEdges env alive path).map (edgeRow env) := by
  rw [List.filter_map, List.filter_filter, agreeingEdges]
  congr 1
  refine List.filter_congr fun edge _ => ?_
  by_cases hpath : env.canonicalSessionPath edge.child = path <;> simp [hpath]

/-- **The rows of a path**: its root rows, where it is no live child, and those of its agreeing
edges. -/
lemma filter_familyRows (edges : JsMap String RlmLedgerEdge) (path : String) :
    (ledger.familyRows env edges).filter (·.path = path) =
      (if (byChild env (liveEdges env edges)).has path then []
        else List.replicate ((ledger.sessionPaths env).count path) (rootRow env path)) ++
      (agreeingEdges env (liveEdges env edges) path).map (edgeRow env) := by
  rw [familyRows, List.filter_append, filter_rootRows, filter_edgeRows]

lemma agreeingEdges_eq_nil {path : String}
    (h : ¬ IsLiveChild env alive path) : agreeingEdges env alive path = [] := by
  rw [agreeingEdges, List.filter_eq_nil_iff]
  intro edge hedge hpath
  simp only [Bool.and_eq_true, beq_iff_eq] at hpath
  exact h ⟨edge, hedge, hpath.2⟩

/-- **What the family lists**, for every ledger that is read and every directory. -/
theorem family_rows {file : Option (List UInt8)} {records : List RlmLedgerRecord}
    (h : ledger.eventLog.replaySync parseLedgerLine file = .ok records) :
    ∃ rows, ledger.family env file = .ok rows ∧
      (∀ path, ¬ IsLiveChild env (liveEdges env (replayEdges env records)) path →
        rows.filter (·.path = path) =
          List.replicate ((ledger.sessionPaths env).count path) (rootRow env path)) ∧
      (∀ path edge, agreeingEdges env (liveEdges env (replayEdges env records)) path = [edge] →
        rows.filter (·.path = path) = [edgeRow env edge]) ∧
      ∀ path ∉ ledger.sessionPaths env,
        agreeingEdges env (liveEdges env (replayEdges env records)) path = [] →
        rows.filter (·.path = path) = [] := by
  refine ⟨ledger.familyRows env (replayEdges env records), ?_, fun path hroot => ?_,
    fun path edge hedge => ?_, fun path hpath hedges => ?_⟩
  · rw [family, replaySync, h]
    rfl
  · rw [filter_familyRows, agreeingEdges_eq_nil hroot, if_neg (mt has_byChild_iff.mp hroot)]
    exact List.append_nil _
  · have hchild : IsLiveChild env (liveEdges env (replayEdges env records)) path := by
      have hmem : edge ∈ agreeingEdges env (liveEdges env (replayEdges env records)) path := by
        rw [hedge]
        exact List.mem_singleton_self edge
      rw [agreeingEdges, List.mem_filter, Bool.and_eq_true, beq_iff_eq] at hmem
      exact ⟨edge, hmem.1, hmem.2.2⟩
    rw [filter_familyRows, hedge, if_pos (has_byChild_iff.mpr hchild)]
    rfl
  · rw [filter_familyRows, hedges, List.count_eq_zero.mpr hpath]
    split_ifs <;> rfl

/-! ## A nested child with a wrong depth -/

/-- Two children, the second two levels below the first. -/
def nestedRecords : List RlmLedgerRecord :=
  [.spawn ⟨"2026-01-01T00:00:00.000Z", "sub-1", "/sessions/parent.jsonl", "/a/worker.jsonl",
      ⟨1, by decide⟩, "worker"⟩,
    .spawn ⟨"2026-01-01T00:00:00.000Z", "sub-2", "/a/worker.jsonl", "/a/nested.jsonl",
      ⟨3, by decide⟩, "nested"⟩]

def nestedFile : Option (List UInt8) := some (ledgerRecords.codec.write nestedRecords)

/-- All files of the paths are there, and the parent is the one in the sessions directory. -/
def nestedEnv : LedgerEnv where
  canonicalSessionPath := id
  isFile _ := true
  sessionsDirEntries := some ["parent.jsonl"]
  nowIso := "2026-01-01T00:00:00.000Z"

lemma replaySync_nestedFile :
    sampleLedger.eventLog.replaySync parseLedgerLine nestedFile = .ok nestedRecords := by
  have hlen : (ledgerRecords.codec.write nestedRecords).length ≤ 500 := by decide +kernel
  exact (LedgerFile.written nestedRecords).replayRecords_eq
    ⟨hlen.trans (by simp [rlmLedgerMaxBytes]), by simp [nestedRecords, rlmLedgerMaxRecords]⟩

theorem family_rows_nested : ∃ rows, sampleLedger.family nestedEnv nestedFile = .ok rows ∧
      (∀ path, ¬ IsLiveChild nestedEnv
          (liveEdges nestedEnv (replayEdges nestedEnv nestedRecords)) path →
        rows.filter (·.path = path) = List.replicate
          ((sampleLedger.sessionPaths nestedEnv).count path) (rootRow nestedEnv path)) ∧
      (∀ path edge, agreeingEdges nestedEnv
          (liveEdges nestedEnv (replayEdges nestedEnv nestedRecords)) path = [edge] →
        rows.filter (·.path = path) = [edgeRow nestedEnv edge]) ∧
      ∀ path ∉ sampleLedger.sessionPaths nestedEnv, agreeingEdges nestedEnv
          (liveEdges nestedEnv (replayEdges nestedEnv nestedRecords)) path = [] →
        rows.filter (·.path = path) = [] :=
  family_rows replaySync_nestedFile

/-- The nested session is live and in no row. -/
theorem nestedEdges_not_listed :
    ¬ ∀ (ledger : RlmSpawnLedger) (env : LedgerEnv) (file : Option (List UInt8))
        (records : List RlmLedgerRecord) (rows : List SessionRow),
      ledger.eventLog.replaySync parseLedgerLine file = .ok records →
      ledger.family env file = .ok rows →
      ∀ path, path ∈ ledger.sessionPaths env ∨
          IsLiveChild env (liveEdges env (replayEdges env records)) path →
        (rows.filter (·.path = path)).length = 1 := by
  intro h
  have hrows : sampleLedger.family nestedEnv nestedFile =
      .ok (sampleLedger.familyRows nestedEnv (replayEdges nestedEnv nestedRecords)) := by
    rw [family, replaySync, replaySync_nestedFile]
    rfl
  have hlive : IsLiveChild nestedEnv
      (liveEdges nestedEnv (replayEdges nestedEnv nestedRecords)) "/a/nested.jsonl" := by
    exact ⟨_, List.mem_cons_of_mem _ List.mem_cons_self, rfl⟩
  have hedges : agreeingEdges nestedEnv
      (liveEdges nestedEnv (replayEdges nestedEnv nestedRecords)) "/a/nested.jsonl" = [] := by
    decide +kernel
  have hone := h sampleLedger nestedEnv nestedFile nestedRecords _ replaySync_nestedFile hrows
    "/a/nested.jsonl" (.inr hlive)
  rw [filter_familyRows, hedges, if_pos (has_byChild_iff.mpr hlive)] at hone
  exact absurd hone (by decide)

end RlmSpawnLedger

end Amide
