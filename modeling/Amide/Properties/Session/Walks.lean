import Amide.Properties.Session.SessionTrees

/-!
# Where the walks end

The path of `buildSessionContext`, `getBranch` and `getLatestAgentStatus` follow the parents of a
leaf up to an entry without one.  Nothing keeps them from coming to an entry again: from every leaf
of an opened file they end exactly when no parents lead from an entry back to itself
(`walksEnd_iff`).  `branchEntries` keeps the ids it has seen and always ends, and so does the pass
of `getTree` when the ids are distinct.
-/

namespace Amide

open ParentForest (Level Acyclic Bounded forall_level_iff)
open SessionState List

/-! ## Parents in the index -/

/-- The id the walks go to from an id. -/
def walkParent (byId : JsMap String SessionEntry) (id : String) : Option String :=
  (byId.get? id).bind fun e => (lookupId byId e.parentId).map SessionEntry.id

/-- Each entry stands under its id. -/
def Keyed (byId : JsMap String SessionEntry) : Prop := ∀ id e, byId.get? id = some e → e.id = id

lemma keyed_index (entries : List SessionEntry) : Keyed (JsMap.index SessionEntry.id entries) :=
  fun _ _ h => (JsMap.mem_of_get?_index _ h).2

section Walk

variable {byId : JsMap String SessionEntry}
variable {e : SessionEntry} {id : Option String}

lemma get?_of_lookupId (h : lookupId byId id = some e) :
    ∃ i, i ≠ "" ∧ byId.get? i = some e := by
  cases id with
  | none => cases h
  | some i =>
    rw [lookupId] at h
    split_ifs at h with hi
    exact ⟨i, hi, h⟩

variable {path : List SessionEntry}

section
variable (hkeyed : Keyed byId)
include hkeyed

lemma Keyed.get?_of_lookupId (h : lookupId byId id = some e) :
    byId.get? e.id = some e := by
  obtain ⟨i, -, hget⟩ := Amide.get?_of_lookupId h
  rw [hkeyed i e hget, hget]

/-- The empty id is nobody's parent. -/
lemma Keyed.walkParent_ne_empty (i : String) : walkParent byId i ≠ some "" := by
  intro h
  obtain ⟨e, -, hp⟩ := Option.bind_eq_some_iff.mp h
  obtain ⟨p, hlookup, hid⟩ := Option.map_eq_some_iff.mp hp
  obtain ⟨j, hj, hget⟩ := Amide.get?_of_lookupId hlookup
  exact hj (hkeyed j p hget ▸ hid)

lemma Keyed.bounded : Bounded (walkParent byId) byId.keys := by
  intro c p h
  obtain ⟨e, he, hp⟩ := Option.bind_eq_some_iff.mp h
  obtain ⟨p, hlookup, rfl⟩ := Option.map_eq_some_iff.mp hp
  exact ⟨JsMap.has_iff_mem_keys.mp (JsMap.has_iff.mpr ⟨e, he⟩),
    JsMap.has_iff_mem_keys.mp (JsMap.has_iff.mpr ⟨p, hkeyed.get?_of_lookupId hlookup⟩)⟩

/-- From an entry whose parents lead to a root the walk ends, and meets higher entries only. -/
lemma Keyed.exists_walk {k : ℕ} {i : String} (h : Level (walkParent byId) k i)
    (he : byId.get? i = some e) :
    ∃ path, walk byId (k + 1) (some e) = some path ∧ (path.map SessionEntry.id).Nodup ∧
      ∀ x ∈ path, ∃ m ≤ k, Level (walkParent byId) m x.id := by
  have hid := hkeyed i e he
  induction h generalizing e with
  | @root i hroot =>
    rw [walkParent, he, Option.bind_some, Option.map_eq_none_iff] at hroot
    refine ⟨[e], by rw [walk, hroot, walk_none]; rfl, nodup_singleton _, ?_⟩
    intro x hx
    obtain rfl := mem_singleton.mp hx
    refine ⟨0, le_rfl, .root ?_⟩
    rw [hid, walkParent, he, Option.bind_some, hroot]
    rfl
  | @child i p k hpar hp ih =>
    have hlevel : Level (walkParent byId) (k + 1) e.id := hid ▸ hp.child hpar
    rw [walkParent, he, Option.bind_some] at hpar
    obtain ⟨y, hlookup, rfl⟩ := Option.map_eq_some_iff.mp hpar
    obtain ⟨path, hwalk, hnodup, hpath⟩ := ih (hkeyed.get?_of_lookupId hlookup) rfl
    refine ⟨e :: path, by rw [walk, hlookup, hwalk]; rfl, nodup_cons.mpr ⟨?_, hnodup⟩, ?_⟩
    · intro hmem
      obtain ⟨x, hx, heq⟩ := List.mem_map.mp hmem
      obtain ⟨m, hle, hm⟩ := hpath x hx
      have := (heq ▸ hm).unique hlevel
      omega
    · intro x hx
      rcases mem_cons.mp hx with rfl | hx
      · exact ⟨k + 1, le_rfl, hlevel⟩
      · obtain ⟨m, hle, hm⟩ := hpath x hx
        exact ⟨m, hle.trans k.le_succ, hm⟩

/-- Where a walk ends the parents lead to a root. -/
lemma Keyed.exists_level {n : ℕ} {i : String} (he : byId.get? i = some e)
    (h : walk byId n (some e) = some path) : ∃ k, Level (walkParent byId) k i := by
  induction n generalizing i e path with
  | zero => cases h
  | succ n ih =>
    obtain ⟨rest, hrest, -⟩ := Option.map_eq_some_iff.mp h
    cases hlookup : lookupId byId e.parentId with
    | none =>
      refine ⟨0, .root ?_⟩
      rw [walkParent, he, Option.bind_some, hlookup]
      rfl
    | some p =>
      rw [hlookup] at hrest
      obtain ⟨k, hk⟩ := ih (hkeyed.get?_of_lookupId hlookup) hrest
      refine ⟨k + 1, hk.child ?_⟩
      rw [walkParent, he, Option.bind_some, hlookup]
      rfl

end

/-- `getLatestAgentStatus` goes along the same path, but may stop before its end. -/
lemma exists_statusWalk {n : ℕ} {e : Option SessionEntry}
    (h : walk byId n e = some path) :
    ∃ r, statusWalk byId n e = some r ∧ r.1.Sublist path := by
  induction n generalizing e path with
  | zero =>
    cases e with
    | none => exact ⟨_, rfl, nil_sublist _⟩
    | some e => cases h
  | succ n ih =>
    cases e with
    | none => exact ⟨_, rfl, nil_sublist _⟩
    | some e =>
      obtain ⟨rest, hrest, rfl⟩ := Option.map_eq_some_iff.mp h
      obtain ⟨r, hr, hsub⟩ := ih hrest
      rw [statusWalk]
      split
      · exact ⟨_, rfl, (nil_sublist rest).cons_cons e⟩
      · exact ⟨_, by rw [hr]; rfl, hsub.cons_cons e⟩

end Walk

/-! ## The walks of a session -/

/-- The leaf `buildSessionContext` starts from. -/
def contextLeaf (m : SessionManager) : Option (Option String) → Option SessionEntry
  | some none => none
  | leafId => (lookupId m.byId leafId.join).or (m.fileEntries.getLast?.bind FileEntry.asEntry)

/-- From every leaf the walks end, and visit no entry twice. -/
structure WalksEnd (m : SessionManager) : Prop where
  context : ∀ leafId, ∃ path, rootPath m.byId (contextLeaf m leafId) = some path ∧
    (path.map SessionEntry.id).Nodup ∧
    Amide.buildSessionContext m.fileEntries leafId m.byId = some (contextOfPath path)
  branch : ∀ fromId, ∃ path, m.getBranch fromId = some path ∧ (path.map SessionEntry.id).Nodup
  status : ∀ leafId, ∃ fuel visited status,
    statusWalk m.byId fuel (lookupId m.byId leafId) = some (visited, status) ∧
    (visited.map SessionEntry.id).Nodup ∧
    SessionManager.getLatestAgentStatus { m with leafId } fuel = some status

section WalksEnd

variable {m : SessionManager}

lemma Indexed.keyed (h : Indexed m) : Keyed m.byId := h.byId ▸ keyed_index _

lemma exists_rootPath (h : Indexed m) (hacyclic : Acyclic (walkParent m.byId))
    {e : Option SessionEntry} (he : ∀ x ∈ e, m.byId.get? x.id = some x) :
    ∃ path, walk m.byId (m.byId.size + 1) e = some path ∧ (path.map SessionEntry.id).Nodup := by
  cases e with
  | none => exact ⟨[], by simp⟩
  | some e =>
    have hmem : e.id ∈ m.byId.keys := JsMap.has_iff_mem_keys.mp (JsMap.has_iff.mpr ⟨e, he e rfl⟩)
    obtain ⟨k, hk⟩ := (forall_level_iff h.keyed.bounded).mpr hacyclic e.id hmem
    have hlt := hk.lt h.keyed.bounded hmem
    have hkeys : m.byId.keys.length = m.byId.size := length_map _
    obtain ⟨path, hwalk, hnodup, -⟩ := h.keyed.exists_walk hk (he e rfl)
    exact ⟨path, walk_mono (by omega) hwalk, hnodup⟩

lemma get?_contextLeaf (h : Indexed m) (leafId : Option (Option String)) :
    ∀ x ∈ contextLeaf m leafId, m.byId.get? x.id = some x := by
  intro x hx
  have hfall (hx : x ∈ (lookupId m.byId leafId.join).or
      (m.fileEntries.getLast?.bind FileEntry.asEntry)) : m.byId.get? x.id = some x := by
    cases hlookup : lookupId m.byId leafId.join with
    | some y =>
      rw [hlookup, Option.some_or] at hx
      cases hx
      exact h.keyed.get?_of_lookupId hlookup
    | none =>
      rw [hlookup, Option.none_or] at hx
      obtain ⟨f, hf, hentry⟩ := Option.bind_eq_some_iff.mp hx
      obtain ⟨init, hinit⟩ := getLast?_eq_some_iff.mp hf
      have hentries : m.getEntries = sessionEntries init ++ [x] := by
        rw [SessionManager.getEntries, hinit, sessionEntries, filterMap_append,
          filterMap_cons, hentry]
        rfl
      rw [h.byId, hentries, JsMap.index_append_singleton, JsMap.get?_set_self]
  rcases leafId with _ | _ | id
  · exact hfall hx
  · cases hx
  · exact hfall hx

lemma walksEnd_of_acyclic (h : Indexed m) (hacyclic : Acyclic (walkParent m.byId)) :
    WalksEnd m where
  context leafId := by
    obtain ⟨path, hwalk, hnodup⟩ := exists_rootPath h hacyclic (get?_contextLeaf h leafId)
    have hpath : rootPath m.byId (contextLeaf m leafId) = some path.reverse := by
      rw [rootPath, hwalk, Option.map_some]
    refine ⟨path.reverse, hpath, ?_, ?_⟩
    · rwa [map_reverse, nodup_reverse]
    · rcases leafId with _ | _ | id
      · exact congrArg (Option.map contextOfPath) hpath
      · rw [contextLeaf, rootPath, walk_none, Option.map_some, Option.some.injEq] at hpath
        rw [← hpath]
        rfl
      · exact congrArg (Option.map contextOfPath) hpath
  branch fromId := by
    obtain ⟨path, hwalk, hnodup⟩ := exists_rootPath h hacyclic
      fun x (hx : lookupId m.byId (fromId.or m.leafId) = some x) => h.keyed.get?_of_lookupId hx
    refine ⟨path.reverse, ?_, by rwa [map_reverse, nodup_reverse]⟩
    rw [SessionManager.getBranch, Amide.getBranch, rootPath, hwalk, Option.map_some]
  status leafId := by
    obtain ⟨path, hwalk, hnodup⟩ := exists_rootPath h hacyclic
      fun x (hx : lookupId m.byId leafId = some x) => h.keyed.get?_of_lookupId hx
    obtain ⟨⟨visited, status⟩, hstatus, hsub⟩ := exists_statusWalk hwalk
    exact ⟨_, visited, status, hstatus, hnodup.sublist (hsub.map _), by
      rw [SessionManager.getLatestAgentStatus, hstatus, Option.map_some]⟩

lemma acyclic_of_branches (h : Indexed m)
    (hbranch : ∀ i e, m.byId.get? i = some e → ∃ path, m.getBranch (some i) = some path) :
    Acyclic (walkParent m.byId) := by
  have hlevel (i : String) (hi : i ∈ m.byId.keys) (hne : i ≠ "") :
      ∃ k, Level (walkParent m.byId) k i := by
    obtain ⟨e, he⟩ := JsMap.has_iff.mp (JsMap.has_iff_mem_keys.mpr hi)
    obtain ⟨path, hpath⟩ := hbranch i e he
    have hlookup : lookupId m.byId (some i) = some e := by rw [lookupId, if_neg hne, he]
    rw [SessionManager.getBranch, Option.some_or, Amide.getBranch, hlookup] at hpath
    obtain ⟨steps, hwalk, -⟩ := Option.map_eq_some_iff.mp hpath
    exact h.keyed.exists_level he hwalk
  refine (forall_level_iff h.keyed.bounded).mp fun i hi => ?_
  by_cases hne : i = ""
  · subst hne
    cases hpar : walkParent m.byId "" with
    | none => exact ⟨0, .root hpar⟩
    | some p =>
      have hp : p ≠ "" := fun heq => h.keyed.walkParent_ne_empty "" (heq ▸ hpar)
      obtain ⟨k, hk⟩ := hlevel p (h.keyed.bounded _ _ hpar).2 hp
      exact ⟨k + 1, hk.child hpar⟩
  · exact hlevel i hi hne

/-- In a session that was made by the operations the walks end. -/
lemma Tree.acyclic (h : Tree m) : Acyclic (walkParent m.byId) := by
  refine acyclic_of_branches h.indexed fun i e he => ?_
  have hmem : e ∈ m.getEntries := (JsMap.mem_of_get?_index _ (h.indexed.byId ▸ he)).1
  obtain ⟨path, -, -, -, hpath⟩ := h.exists_branch hmem
  exact ⟨path, h.indexed.keyed i e he ▸ hpath⟩

end WalksEnd

/-! ## The walk with a set of ids -/

/-- Each step of the walk takes an id that has not been seen. -/
lemma exists_branchWalk {byId : JsMap String SessionEntry} {ids : List String}
    (hbyId : ∀ id e, byId.get? id = some e → e.id ∈ ids) (fuel : ℕ) (seen : List String)
    (e : Option SessionEntry) (he : ∀ x ∈ e, x.id ∈ ids)
    (hfuel : (ids.filter (· ∉ seen)).length ≤ fuel) :
    ∃ branch, branchWalk byId fuel seen e = some branch ∧ (branch.map SessionEntry.id).Nodup ∧
      ∀ x ∈ branch, x.id ∉ seen := by
  induction fuel generalizing seen e with
  | zero =>
    cases e with
    | none => exact ⟨[], rfl, by simp⟩
    | some e =>
      have hmem : e.id ∈ seen := by
        by_contra hseen
        have hmem : e.id ∈ ids.filter (· ∉ seen) :=
          mem_filter.mpr ⟨he e rfl, decide_eq_true hseen⟩
        have := length_pos_of_mem hmem
        omega
      exact ⟨[], by rw [branchWalk, if_pos hmem], by simp⟩
  | succ fuel ih =>
    cases e with
    | none => exact ⟨[], rfl, by simp⟩
    | some e =>
      by_cases hseen : e.id ∈ seen
      · exact ⟨[], by rw [branchWalk, if_pos hseen], by simp⟩
      · have hless : (ids.filter (· ∉ e.id :: seen)).length < (ids.filter (· ∉ seen)).length := by
          have hfilter : ids.filter (· ∉ e.id :: seen) =
              (ids.filter (· ∉ seen)).filter (· ≠ e.id) := by
            rw [filter_filter]
            exact filter_congr fun i _ => by simp [not_or]
          rw [hfilter]
          have hmem : e.id ∈ ids.filter (· ∉ seen) :=
            mem_filter.mpr ⟨he e rfl, decide_eq_true hseen⟩
          exact length_filter_lt_length_iff_exists.mpr ⟨e.id, hmem, by simp⟩
        obtain ⟨branch, hwalk, hnodup, hbranch⟩ := ih (e.id :: seen) (lookupId byId e.parentId)
          (fun x hx => by
            obtain ⟨i, -, hget⟩ := get?_of_lookupId hx
            exact hbyId i x hget) (by omega)
        refine ⟨e :: branch, by rw [branchWalk, if_neg hseen, hwalk]; rfl,
          nodup_cons.mpr ⟨?_, hnodup⟩, ?_⟩
        · intro hmem
          obtain ⟨x, hx, heq⟩ := List.mem_map.mp hmem
          exact hbranch x hx (heq ▸ mem_cons_self)
        · intro x hx
          rcases mem_cons.mp hx with rfl | hx
          · exact hseen
          · exact fun hmem => hbranch x hx (mem_cons_of_mem _ hmem)

lemma exists_branchEntries (entries : List SessionEntry) :
    ∃ fuel branch, branchEntries entries fuel = some branch ∧
      (branch.map SessionEntry.id).Nodup := by
  obtain ⟨branch, hwalk, hnodup, -⟩ := @exists_branchWalk
    (JsMap.index SessionEntry.id entries) (entries.map SessionEntry.id)
    (fun id e h => mem_map_of_mem (JsMap.mem_of_get?_index _ h).1)
    (entries.map SessionEntry.id).length [] entries.getLast?
    (fun x hx => mem_map_of_mem (mem_of_getLast? hx)) (length_filter_le _ _)
  exact ⟨_, branch.reverse, by rw [branchEntries, hwalk, Option.map_some],
    by rwa [map_reverse, nodup_reverse]⟩

/-! ## Opened files -/

lemma useEntries_indexed {env : OpenEnv} {o : WriteOutcome} {s s' : SessionState}
    {entries : List FileEntry} (h : s.useEntries entries env o = (.ok (), s')) :
    Indexed s'.manager := by
  simp only [useEntries] at h
  split_ifs at h
  · split at h
    · cases h
    · cases h
      exact (indexed_spec _).2.2.2
  · cases h
    exact (indexed_spec _).2.2.2

lemma openSession_indexed {path dir cwd : String} {env : OpenEnv} {o : WriteOutcome}
    {files : Files} {s : SessionState} (h : openSession path dir cwd env o files = (.ok (), s)) :
    Indexed s.manager := by
  simp only [openSession, setSessionFile] at h
  split at h
  · exact (startSession_spec rfl h).2.2.1
  · split at h
    · split at h
      · cases h
      · rename_i hstart
        exact (rewriteAll_sameEntries h).sameTree.indexed (startSession_spec rfl hstart).2.2.1
    · exact useEntries_indexed h

/-- Branch walks end from every leaf, without visiting an entry twice, exactly when no parents lead
from an entry back to itself; the walk of the context tree always ends, and so does `getTree`. -/
def WalksEndIff (m : SessionManager) : Prop :=
  (WalksEnd m ↔ Acyclic (walkParent m.byId)) ∧
    (∃ fuel branch, branchEntries m.getEntries fuel = some branch ∧
      (branch.map SessionEntry.id).Nodup) ∧
    ((m.getEntries.map SessionEntry.id).Nodup →
      ∀ dates, ∃ fuel tree, m.getTree dates fuel = some tree)

/-- **The walks of an opened file**. -/
theorem walksEnd_iff {path dir cwd : String} {env : OpenEnv} {o : WriteOutcome} {files : Files}
    {s : SessionState} (h : openSession path dir cwd env o files = (.ok (), s)) :
    WalksEndIff s.manager := by
  have hidx := openSession_indexed h
  refine ⟨⟨fun hends => acyclic_of_branches hidx fun i _ _ => ?_, walksEnd_of_acyclic hidx⟩,
    exists_branchEntries _, fun hnodup dates => ?_⟩
  · obtain ⟨branch, hbranch, -⟩ := hends.branch (some i)
    exact ⟨branch, hbranch⟩
  obtain ⟨fuel, visited, hwalk, hvisited, -⟩ := exists_stackWalk dates hnodup
  obtain ⟨tree, htree, -⟩ := (SessionTree.Halfway.refl s.manager.linkTree).sortNodes_of_stackWalk
    hwalk hvisited fun _ _ => rfl
  exact ⟨fuel, tree, htree⟩

/-- A file with one answer. -/
theorem walksEnd_iff_smallSession :
    ∃ s, openSession "f" "/" "/" plainEnv .done (fileAtF (fileContent smallSession)) = (.ok (), s) ∧
      WalksEndIff s.manager := by
  obtain ⟨s, hopen, -⟩ := openSession_of_settled (fileAtF_self _)
    (loadsAs_fileContent settled_smallSession.loaded) settled_smallSession "/" "/" plainEnv .done
  exact ⟨s, hopen, walksEnd_iff hopen⟩

/-- An entry that names itself as its parent. -/
def selfParented : List FileEntry :=
  [.session plainHeader, .entry (plainEntry "a" (some "a") (assistantBody "hello"))]

lemma settled_selfParented : Settled selfParented where
  header := ⟨plainHeader, _, rfl, Nat.le_refl 3, rfl⟩
  folded := rfl

/-- The walks from the leaf of this file go on for ever; its tree has the entry as a root. -/
theorem walk_selfParented :
    ∃ s, openSession "f" "/" "/" plainEnv .done (fileAtF (fileContent selfParented)) = (.ok (), s) ∧
      s.manager.leafId = some "a" ∧ s.manager.linkTree.roots = ["a"] ∧
      (∀ fuel, walk s.manager.byId fuel (lookupId s.manager.byId s.manager.leafId) = none) ∧
      (∀ fuel, s.manager.getLatestAgentStatus fuel = none) ∧
      s.manager.getBranch none = none ∧ s.manager.buildSessionContext = none := by
  obtain ⟨s, hopen, -, hfile, -, hbyId, hleaf⟩ := openSession_of_settled (fileAtF_self _)
    (loadsAs_fileContent settled_selfParented.loaded) settled_selfParented "/" "/" plainEnv .done
  have hleaf' : s.manager.leafId = some "a" := hleaf
  have hlookup : lookupId s.manager.byId (some "a") =
      some (plainEntry "a" (some "a") (assistantBody "hello")) := by
    rw [hbyId]
    rfl
  have hwalk (fuel : ℕ) : walk s.manager.byId fuel
      (some (plainEntry "a" (some "a") (assistantBody "hello"))) = none := by
    induction fuel with
    | zero => rfl
    | succ fuel ih =>
      rw [walk, Option.map_eq_none_iff, ← ih]
      exact congrArg _ hlookup
  have hroot : rootPath s.manager.byId
      (some (plainEntry "a" (some "a") (assistantBody "hello"))) = none := by
    rw [rootPath, hwalk]
    rfl
  have hstatus (fuel : ℕ) : statusWalk s.manager.byId fuel
      (some (plainEntry "a" (some "a") (assistantBody "hello"))) = none := by
    induction fuel with
    | zero => rfl
    | succ fuel ih =>
      have hnext : statusWalk s.manager.byId (fuel + 1)
          (some (plainEntry "a" (some "a") (assistantBody "hello"))) =
          (statusWalk s.manager.byId fuel (lookupId s.manager.byId (some "a"))).map _ := rfl
      rw [hnext, hlookup, ih]
      rfl
  have hentries : s.manager.getEntries = sessionEntries selfParented := by
    rw [SessionManager.getEntries, hfile]
  refine ⟨s, hopen, hleaf', ?_, fun fuel => ?_, fun fuel => ?_, ?_, ?_⟩
  · rw [(linkTree_spec _).2.1, hentries]
    decide
  · rw [hleaf', hlookup, hwalk]
  · rw [SessionManager.getLatestAgentStatus, hleaf', hlookup, hstatus]
    rfl
  · rw [SessionManager.getBranch, Option.none_or, hleaf', Amide.getBranch, hlookup, hroot]
  · rw [SessionManager.buildSessionContext, hleaf', Amide.buildSessionContext, if_neg (by simp)]
    simp only [Option.join_some, hlookup, Option.some_or, hroot, Option.map_none]

end Amide
