import Amide.Framework.ParentTree
import Amide.Construction.Logs.LedgerSeed
import Amide.Properties.Logs.LedgerBounds

/-!
# What seeding publishes

The records of a seed are a forest over the session files of the directory, however the old
registries refer to each other (`SeedWalk.Planted`): every child is new, no child is a root, and
every parent is a root or a child of an earlier record.

Whether the published ledger can be read back is another matter.  A child without a usable depth
is put one below its parent, which is not a number the reader accepts when the parent has the last
depth there is; and two children are one edge to the reader when their keys agree, as they can
where a child id and a path contain the separator.  The records are read back as these edges
exactly when neither happens at an entry that is taken (`seedsForest_iff`).
-/

namespace Amide

open LineCodec EventLog List

/-! ## The forest -/

variable {queue : List SeedItem}

namespace SeedWalk

variable {env : LedgerEnv} {source : RlmLedgerSeedSource} {roots : List String}
  {item : SeedItem} {walk : SeedWalk} {entry : RlmLedgerSeedRegistryEntry}

/-- The entry becomes a record. -/
def Takes (env : LedgerEnv) (walk : SeedWalk) (entry : RlmLedgerSeedRegistryEntry) : Prop :=
  entry.status ≠ .deleted ∧ entry.childPath env ∉ walk.visited ∧ entry.childId ≠ ""

lemma visit_of_takes (h : Takes env walk entry) : visit env item walk entry =
      { records := walk.records ++ [entry.seedRecord env item]
        queue := walk.queue ++ [⟨entry.sessionFile, entry.childDepth item.depth⟩]
        visited := entry.childPath env :: walk.visited } := by
  rw [visit, if_neg h.1, if_neg h.2.1, if_neg h.2.2]

/-- An entry that is not taken leaves at most its path behind. -/
lemma visit_of_not_takes (item : SeedItem) (h : ¬Takes env walk entry) :
    ∃ visited, walk.visited ⊆ visited ∧ visit env item walk entry = { walk with visited } := by
  rw [visit]
  split_ifs with hdel hvisited hid
  · exact ⟨_, Subset.refl _, rfl⟩
  · exact ⟨_, Subset.refl _, rfl⟩
  · exact ⟨_, subset_cons_self _ _, rfl⟩
  · exact absurd ⟨hdel, hvisited, hid⟩ h

/-- The child a record hangs on, unless that is a root. -/
def parentOf (roots : List String) (record : RlmLedgerSeedRecord) : Option String :=
  if record.parent ∈ roots then none else some record.parent

/-- A session that records may name as their parent. -/
def Placed (env : LedgerEnv) (roots : List String) (walk : SeedWalk) (item : SeedItem) : Prop :=
  env.canonicalSessionPath item.sessionFile ∈ roots ∨
    env.canonicalSessionPath item.sessionFile ∈ walk.records.map RlmLedgerSeedRecord.child

structure Planted (env : LedgerEnv) (roots : List String) (walk : SeedWalk) : Prop where
  grown : ParentTree.Grown RlmLedgerSeedRecord.child (parentOf roots) walk.records
  roots_visited : roots ⊆ walk.visited
  children_visited : walk.records.map RlmLedgerSeedRecord.child ⊆ walk.visited
  notRoot : ∀ record ∈ walk.records, record.child ∉ roots
  placed : ∀ item ∈ walk.queue, Placed env roots walk item

lemma Placed.visit (h : Placed env roots walk item) (item' : SeedItem)
    (entry : RlmLedgerSeedRegistryEntry) :
    Placed env roots (visit env item' walk entry) item := by
  by_cases htakes : Takes env walk entry
  · rw [visit_of_takes htakes]
    refine h.imp_right fun hchild => ?_
    rw [map_append]
    exact mem_append_left _ hchild
  · obtain ⟨visited, -, hvisit⟩ := visit_of_not_takes item' htakes
    rw [hvisit]
    exact h

/-- **Step lemma.** -/
lemma Planted.visit (h : Planted env roots walk) (hitem : Placed env roots walk item)
    (entry : RlmLedgerSeedRegistryEntry) : Planted env roots (visit env item walk entry) := by
  have hplaced : ∀ item' ∈ walk.queue, Placed env roots (SeedWalk.visit env item walk entry)
      item' := fun item' hmem => (h.placed item' hmem).visit item entry
  by_cases htakes : Takes env walk entry
  · rw [visit_of_takes htakes] at hplaced ⊢
    have hnew : entry.childPath env ∉ walk.records.map RlmLedgerSeedRecord.child :=
      fun hmem => htakes.2.1 (h.children_visited hmem)
    constructor
    · refine h.grown.snoc hnew fun p hp => ?_
      rw [parentOf] at hp
      split at hp
      · cases hp
      · rename_i hroot
        cases hp
        exact hitem.resolve_left hroot
    · exact subset_cons_of_subset _ h.roots_visited
    · rw [map_append]
      refine append_subset.mpr ⟨subset_cons_of_subset _ h.children_visited, ?_⟩
      exact cons_subset.mpr ⟨mem_cons_self, nil_subset _⟩
    · intro record hrec
      rcases mem_append.mp hrec with hrec | hrec
      · exact h.notRoot record hrec
      · rw [mem_singleton.mp hrec]
        exact fun hroot => htakes.2.1 (h.roots_visited hroot)
    · intro item' hmem
      rcases mem_append.mp hmem with hmem | hmem
      · exact hplaced item' hmem
      · rw [mem_singleton.mp hmem]
        exact .inr (List.mem_map.mpr ⟨_, mem_append_right _ mem_cons_self, rfl⟩)
  · obtain ⟨visited, hsub, hvisit⟩ := visit_of_not_takes item htakes
    rw [hvisit]
    exact ⟨h.grown, Subset.trans h.roots_visited hsub,
      Subset.trans h.children_visited hsub, h.notRoot, h.placed⟩

lemma Planted.visitRegistry (h : Planted env roots walk) (hitem : Placed env roots walk item) :
    Planted env roots (visitRegistry env source item walk) := by
  rw [SeedWalk.visitRegistry]
  induction source.readRegistryForSessionFile item.sessionFile generalizing walk with
  | nil => exact h
  | cons entry entries ih => exact ih (h.visit hitem entry) (hitem.visit item entry)

lemma run_of_nil (h : walk.queue = []) : run env source walk = walk.records := by
  rw [run]
  split
  · rfl
  · simp_all

lemma run_of_cons (h : walk.queue = item :: queue) : run env source walk =
      run env source (SeedWalk.visitRegistry env source item { walk with queue }) := by
  rw [run]
  split
  · simp_all
  · simp_all

/-- **Run lemma.** -/
lemma Planted.run (source : RlmLedgerSeedSource) (h : Planted env roots walk) :
    ParentTree.Grown RlmLedgerSeedRecord.child (parentOf roots) (run env source walk) ∧
      ∀ record ∈ run env source walk, record.child ∉ roots := by
  induction walk using run.induct env source with
  | case1 walk hqueue =>
    rw [run_of_nil hqueue]
    exact ⟨h.grown, h.notRoot⟩
  | case2 walk item queue hqueue ih =>
    rw [run_of_cons hqueue]
    have hplaced := fun item' hmem => h.placed item' (hqueue ▸ mem_cons_of_mem _ hmem)
    have hpopped : Planted env roots { walk with queue } :=
      ⟨h.grown, h.roots_visited, h.children_visited, h.notRoot, hplaced⟩
    exact ih (hpopped.visitRegistry (h.placed item (hqueue ▸ mem_cons_self)))

lemma planted_seedStart (ledger : RlmSpawnLedger) (env : LedgerEnv) :
    Planted env ((ledger.rootFiles env).map env.canonicalSessionPath) (ledger.seedStart env) where
  grown := .nil
  roots_visited := Subset.refl _
  children_visited := nil_subset _
  notRoot _ hrec := absurd hrec not_mem_nil
  placed item hitem := by
    obtain ⟨sessionFile, hfile, rfl⟩ := List.mem_map.mp hitem
    exact .inl (mem_map_of_mem hfile)

end SeedWalk

/-! ## The entries that are taken -/

/-- An entry the walk comes to: the walk before it, and the session whose registry has it. -/
structure SeedLook where
  walk : SeedWalk
  item : SeedItem
  entry : RlmLedgerSeedRegistryEntry

namespace RlmLedgerSeedRecord

/-- The key the reader keeps the record's edge under. -/
def key (env : LedgerEnv) (record : RlmLedgerSeedRecord) : String :=
  RlmSpawnLedger.edgeKey env record.childId record.child

/-- The edge of a record. -/
def edge (record : RlmLedgerSeedRecord) : RlmLedgerEdge where
  childId := record.childId
  parent := record.parent
  child := record.child
  depth := record.depth
  name := record.name

end RlmLedgerSeedRecord

/-- If the entry is taken, its record can be read back, and is not an edge there already. -/
def SeedLook.Reads (env : LedgerEnv) (look : SeedLook) : Prop :=
  look.walk.Takes env look.entry →
    (look.entry.registryDepth = none → look.item.depth < maxSafeInteger) ∧
      RlmSpawnLedger.edgeKey env look.entry.childId (look.entry.childPath env) ∉
        look.walk.records.map (RlmLedgerSeedRecord.key env)

namespace SeedWalk

variable (env : LedgerEnv) (source : RlmLedgerSeedSource)

def looksOf (item : SeedItem) : SeedWalk → List RlmLedgerSeedRegistryEntry → List SeedLook
  | _, [] => []
  | walk, entry :: entries =>
    ⟨walk, item, entry⟩ :: looksOf item (walk.visit env item entry) entries

/-- The entries of the registries the walk reads, in the order in which it comes to them. -/
def looks (walk : SeedWalk) : List SeedLook :=
  match _h : walk.queue with
  | [] => []
  | item :: queue =>
    looksOf env item { walk with queue } (source.readRegistryForSessionFile item.sessionFile) ++
      looks (visitRegistry env source item { walk with queue })
termination_by (unvisited env source walk, walk.queue.length)
decreasing_by exact pass_decreases _h

variable {env source} {item : SeedItem} {walk : SeedWalk}

lemma looks_of_nil (h : walk.queue = []) : looks env source walk = [] := by
  rw [looks]
  split
  · rfl
  · simp_all

lemma looks_of_cons (h : walk.queue = item :: queue) :
    looks env source walk =
      looksOf env item { walk with queue } (source.readRegistryForSessionFile item.sessionFile) ++
        looks env source (visitRegistry env source item { walk with queue }) := by
  rw [looks]
  split
  · simp_all
  · simp_all

end SeedWalk

/-! ## Reading the records back -/

/-- The records can be read, and no two of them are one edge. -/
structure Legible (env : LedgerEnv) (records : List RlmLedgerSeedRecord) : Prop where
  writable : ∀ record ∈ records, record.Writable
  keys : (records.map (RlmLedgerSeedRecord.key env)).Nodup

variable {record : RlmLedgerSeedRecord}

namespace Legible

variable {env : LedgerEnv} {source : RlmLedgerSeedSource} {records : List RlmLedgerSeedRecord}
  {item : SeedItem} {walk : SeedWalk}

lemma concat_iff :
    Legible env (records ++ [record]) ↔ Legible env records ∧ record.Writable ∧
      record.key env ∉ records.map (RlmLedgerSeedRecord.key env) := by
  constructor
  · rintro ⟨hwr, hkeys⟩
    rw [map_append, nodup_append] at hkeys
    refine ⟨⟨fun r hr => hwr r (mem_append_left _ hr), hkeys.1⟩,
      hwr record (by simp), fun hmem => ?_⟩
    exact hkeys.2.2 _ hmem _ mem_cons_self rfl
  · rintro ⟨⟨hwr, hkeys⟩, hrec, hnew⟩
    constructor
    · intro r hr
      rcases mem_append.mp hr with hr | hr
      · exact hwr r hr
      · exact mem_singleton.mp hr ▸ hrec
    · rw [map_append, map_singleton, ← concat_eq_append]
      exact hkeys.concat hnew

/-- The next depth is one that may be written unless the depth is the last such. -/
lemma writable_seedRecord_iff (entry : RlmLedgerSeedRegistryEntry) :
    (entry.seedRecord env item).Writable ↔
      (entry.registryDepth = none → item.depth < maxSafeInteger) := by
  rw [RlmLedgerSeedRecord.Writable, RlmLedgerSeedRegistryEntry.seedRecord]
  rw [RlmLedgerSeedRegistryEntry.childDepth]
  cases hdepth : entry.registryDepth with
  | none =>
    simp only [nextDepth, true_imp_iff]
    omega
  | some depth =>
    have hpos := (Option.filter_eq_some_iff.mp hdepth).2
    simp only [reduceCtorEq, false_imp_iff, iff_true]
    exact ⟨of_decide_eq_true hpos, depth.property⟩

/-- **Step lemma.** -/
lemma visit_iff (entry : RlmLedgerSeedRegistryEntry) :
    Legible env (walk.visit env item entry).records ↔
      Legible env walk.records ∧ SeedLook.Reads env ⟨walk, item, entry⟩ := by
  by_cases htakes : walk.Takes env entry
  · rw [SeedWalk.visit_of_takes htakes, concat_iff, writable_seedRecord_iff]
    exact and_congr_right fun _ => ⟨fun h _ => h, fun h => h htakes⟩
  · obtain ⟨visited, -, hvisit⟩ := SeedWalk.visit_of_not_takes item htakes
    rw [hvisit]
    exact ⟨fun h => ⟨h, fun h' => absurd h' htakes⟩, And.left⟩

lemma foldl_visit_iff (entries : List RlmLedgerSeedRegistryEntry) :
    Legible env (entries.foldl (SeedWalk.visit env item) walk).records ↔ Legible env walk.records ∧
        ∀ look ∈ SeedWalk.looksOf env item walk entries, look.Reads env := by
  induction entries generalizing walk with
  | nil => simp [SeedWalk.looksOf]
  | cons entry entries ih =>
    rw [foldl_cons, ih, visit_iff, SeedWalk.looksOf, forall_mem_cons, and_assoc]

/-- **Run lemma.** -/
lemma run_iff : Legible env (SeedWalk.run env source walk) ↔
    Legible env walk.records ∧ ∀ look ∈ SeedWalk.looks env source walk, look.Reads env := by
  induction walk using SeedWalk.run.induct env source with
  | case1 walk hqueue => simp [SeedWalk.run_of_nil hqueue, SeedWalk.looks_of_nil hqueue]
  | case2 walk item queue hqueue ih =>
    rw [SeedWalk.run_of_cons hqueue, SeedWalk.looks_of_cons hqueue, ih, SeedWalk.visitRegistry,
      foldl_visit_iff, List.forall_mem_append, and_assoc]

end Legible

/-! ## The published ledger -/

namespace RlmSpawnLedger

variable (ledger : RlmSpawnLedger) (env : LedgerEnv) (source : RlmLedgerSeedSource)

/-- The lines of a seed. -/
def seedLines (records : List RlmLedgerSeedRecord) : List (List UInt8) :=
  ((ledger.metaRecord env).event :: records.map RlmLedgerSeedRecord.event).map Json.stringify

variable {ledger env} {records : List RlmLedgerSeedRecord}

lemma seedPayload_eq_flatten :
    ledger.seedPayload env records = ((ledger.seedLines env records).map (· ++ [10])).flatten := by
  rw [seedPayload, seedLines, map_map, flatMap_def]
  rfl

lemma terminated_seedPayload : Terminated (ledger.seedPayload env records) := by
  rw [seedPayload_eq_flatten]
  exact terminated_flatten _

lemma wholeLines_seedPayload :
    wholeLines (ledger.seedPayload env records) = ledger.seedLines env records := by
  rw [seedPayload_eq_flatten]
  refine wholeLines_flatten fun line hline => ?_
  obtain ⟨event, -, rfl⟩ := List.mem_map.mp hline
  exact Json.lf_notMem_stringify event

/-- What the publication looks at are the bounds of the reader. -/
lemma inBounds_seedPayload_iff : ledger.eventLog.InBounds (ledger.seedPayload env records) ↔
      records.length + 1 ≤ rlmLedgerMaxRecords ∧
        (ledger.seedPayload env records).length ≤ rlmLedgerMaxBytes := by
  have hlines : recordLines (ledger.seedPayload env records) = records.length + 1 := by
    rw [recordLines_of_terminated terminated_seedPayload, wholeLines_seedPayload, seedLines,
      records_stringify]
    simp
  constructor
  · rintro ⟨hbytes, hrecords⟩
    exact ⟨hlines ▸ hrecords _ rfl, hbytes _ rfl⟩
  · rintro ⟨hrecords, hbytes⟩
    refine ⟨fun maxBytes hmax => ?_, fun maxRecords hmax => ?_⟩
    · cases hmax
      exact hbytes
    · cases hmax
      rwa [hlines]

section

attribute [local simp] Json.field

lemma parseLedgerLine_seedRecord_iff (record : RlmLedgerSeedRecord) (index : ℕ) :
    (∃ read, parseLedgerLine record.event.stringify index = .ok (some read)) ↔ record.Writable := by
  rw [RlmLedgerSeedRecord.Writable]
  by_cases h : 1 ≤ record.depth ∧ record.depth ≤ maxSafeInteger
  · simp [parseLedgerLine, RlmLedgerSeedRecord.event, ledgerDepth?, h]
  · simp [parseLedgerLine, RlmLedgerSeedRecord.event, ledgerDepth?, h]

lemma writable_of_parses {index : ℕ}
    {read : Option RlmLedgerRecord}
    (h : parseLedgerLine record.event.stringify index = .ok read) : record.Writable := by
  by_contra hnot
  rw [RlmLedgerSeedRecord.Writable] at hnot
  simp [parseLedgerLine, RlmLedgerSeedRecord.event, ledgerDepth?, hnot] at h

end

/-- The edges of spawn records are their index by key. -/
lemma replayEdges_spawns (spawns : List RlmLedgerSpawnRecord) :
    replayEdges env (ledger.metaRecord env :: spawns.map .spawn) =
      JsMap.index (fun edge => edgeKey env edge.childId edge.child)
        ((spawns.map RlmLedgerSpawnRecord.seedRecord).map RlmLedgerSeedRecord.edge) := by
  rw [replayEdges, foldl_cons, JsMap.index, foldl_map, foldl_map, foldl_map]
  rfl

lemma legible_iff_nodup (hwr : ∀ record ∈ records, record.Writable) :
    Legible env records ↔ ((records.map RlmLedgerSeedRecord.edge).map fun edge =>
      edgeKey env edge.childId edge.child).Nodup := by
  rw [map_map]
  exact ⟨Legible.keys, fun h => ⟨hwr, h⟩⟩

/-- **A seed within the bounds is read back as its edges exactly when it is legible.** -/
lemma replaySync_seedPayload_iff
    (hin : ledger.eventLog.InBounds (ledger.seedPayload env records)) :
    (∃ edges, ledger.replaySync env (some (ledger.seedPayload env records)) = .ok edges ∧
      edges.values = records.map RlmLedgerSeedRecord.edge) ↔ Legible env records := by
  have hreplay : ∀ spawns : List RlmLedgerSpawnRecord,
      spawns.map RlmLedgerSpawnRecord.seedRecord = records →
      ledger.replaySync env (some (ledger.seedPayload env records)) =
        .ok (JsMap.index (fun edge => edgeKey env edge.childId edge.child)
          (records.map RlmLedgerSeedRecord.edge)) := by
    rintro spawns rfl
    rw [seedPayload_eq] at hin ⊢
    rw [(LedgerFile.written _).replaySync_eq ((LedgerFile.written _).inBounds_iff.mp hin),
      replayEdges_spawns]
  constructor
  · rintro ⟨edges, hedges, hvalues⟩
    have hwr : ∀ record ∈ records, record.Writable := by
      intro record hrec
      cases hlog : ledger.eventLog.replaySync parseLedgerLine
          (some (ledger.seedPayload env records)) with
      | error message => simp [replaySync, hlog, bind, Except.bind] at hedges
      | ok read =>
        obtain ⟨-, whole, hwhole, -⟩ := replaySync_some_eq_ok hlog
        rw [show terminatedPart (ledger.seedPayload env records) = _ by
          simpa using terminatedPart_of_cut terminated_seedPayload (not_mem_nil (a := 10)),
          wholeLines_seedPayload] at hwhole
        have hline : record.event.stringify ∈ ledger.seedLines env records :=
          mem_map_of_mem (mem_cons_of_mem _ (mem_map_of_mem hrec))
        have hparses := replayLines_parses hwhole _ hline
        rw [Utf8.trim_stringify] at hparses
        obtain ⟨index, event, hevent⟩ :=
          hparses (ne_nil_of_length_pos (Json.length_stringify_pos _))
        exact writable_of_parses hevent
    obtain ⟨spawns, hspawns⟩ := RlmLedgerSeedRecord.exists_spawns hwr
    rw [hreplay spawns hspawns] at hedges
    cases hedges
    exact (legible_iff_nodup hwr).mpr ((JsMap.values_index_iff _).mp hvalues)
  · intro hlegible
    obtain ⟨spawns, hspawns⟩ := RlmLedgerSeedRecord.exists_spawns hlegible.writable
    exact ⟨_, hreplay spawns hspawns,
      (JsMap.values_index_iff _).mpr ((legible_iff_nodup hlegible.writable).mp hlegible)⟩

/-! ## The seed -/

variable (ledger env) (source : RlmLedgerSeedSource) (file : Option (List UInt8))

/-- The session files of the directory. -/
def seedRoots : List String := (ledger.rootFiles env).map env.canonicalSessionPath

/-- What the reader would be given. -/
def seedFile : List UInt8 := ledger.seedPayload env (ledger.seedRecords env source)

/-- There is no ledger, and one within the reader's bounds to publish. -/
def Publishes : Prop :=
  file = none ∧ ledger.seedRecords env source ≠ [] ∧
    ledger.eventLog.InBounds (ledger.seedFile env source)

/-- A published seed is a forest over the session files, all of which is read back; one that the
reader would refuse for its size is not published. -/
structure SeedsForest : Prop where
  bounded : ¬ledger.eventLog.InBounds (ledger.seedFile env source) →
    ledger.seed env source file = file
  payload : ∀ payload, file = none → ledger.seed env source file = some payload →
    payload = ledger.seedFile env source
  grown : ParentTree.Grown RlmLedgerSeedRecord.child (SeedWalk.parentOf (ledger.seedRoots env))
    (ledger.seedRecords env source)
  notRoot : ∀ record ∈ ledger.seedRecords env source, record.child ∉ ledger.seedRoots env
  parses : ∀ payload, file = none → ledger.seed env source file = some payload →
    ∀ record ∈ ledger.seedRecords env source, ∀ index,
      ∃ read, parseLedgerLine record.event.stringify index = .ok (some read)
  replays : ∀ payload, file = none → ledger.seed env source file = some payload →
    ∃ edges, ledger.replaySync env (some payload) = .ok edges ∧
      edges.values = (ledger.seedRecords env source).map RlmLedgerSeedRecord.edge

variable {ledger env source file}

lemma seed_of_publishes (h : ledger.Publishes env source file) :
    ledger.seed env source file = some (ledger.seedFile env source) := by
  obtain ⟨rfl, hne, hin⟩ := h
  obtain ⟨hrecords, hbytes⟩ := inBounds_seedPayload_iff.mp hin
  have hempty : (ledger.seedRecords env source).isEmpty = false := by simpa using hne
  rw [seed, publishSeed, hempty]
  simp [Nat.not_lt.mpr hrecords, Nat.not_lt.mpr hbytes, seedFile]

lemma seed_of_not_publishes (h : ¬ledger.Publishes env source file) :
    ledger.seed env source file = file := by
  rw [seed, publishSeed]
  split_ifs with hfile hempty hbounds
  iterate 3 rfl
  · refine absurd ⟨by simpa using hfile, by simpa using hempty, ?_⟩ h
    rw [not_or, Nat.not_lt, Nat.not_lt] at hbounds
    exact inBounds_seedPayload_iff.mpr hbounds

/-- Something came of a seed only if it was published. -/
lemma publishes_of_seed {payload : List UInt8} (hfile : file = none)
    (h : ledger.seed env source file = some payload) :
    ledger.Publishes env source file ∧ payload = ledger.seedFile env source := by
  by_cases hpub : ledger.Publishes env source file
  · rw [seed_of_publishes hpub] at h
    exact ⟨hpub, (Option.some.inj h).symm⟩
  · rw [seed_of_not_publishes hpub, hfile] at h
    cases h

/-- **Seeding publishes a forest that is read back as it is exactly when every entry taken by a
seed that is published can be**: none without a usable depth is taken from a session that has the
last depth, and none whose key is taken. -/
theorem seedsForest_iff (ledger : RlmSpawnLedger) (env : LedgerEnv) (source : RlmLedgerSeedSource)
    (file : Option (List UInt8)) :
    ledger.SeedsForest env source file ↔ (ledger.Publishes env source file →
      ∀ look ∈ (ledger.seedStart env).looks env source, look.Reads env) := by
  have hplanted := (SeedWalk.planted_seedStart ledger env).run source
  have hlegible : Legible env (ledger.seedRecords env source) ↔
      ∀ look ∈ (ledger.seedStart env).looks env source, look.Reads env := by
    rw [seedRecords, Legible.run_iff]
    exact and_iff_right ⟨by simp [seedStart], by simp [seedStart]⟩
  constructor
  · intro h hpublishes
    obtain ⟨hfile, -, hin⟩ := id hpublishes
    have hreplays := h.replays _ hfile (seed_of_publishes hpublishes)
    exact hlegible.mp ((replaySync_seedPayload_iff hin).mp hreplays)
  · intro h
    have hread : ∀ payload, file = none → ledger.seed env source file = some payload →
        ledger.Publishes env source file ∧ payload = ledger.seedFile env source ∧
          Legible env (ledger.seedRecords env source) := by
      intro payload hfile hseed
      obtain ⟨hpublishes, hpayload⟩ := publishes_of_seed hfile hseed
      exact ⟨hpublishes, hpayload, hlegible.mpr (h hpublishes)⟩
    constructor
    · exact fun hin => seed_of_not_publishes fun hpublishes => hin hpublishes.2.2
    · exact fun payload hfile hseed => (hread payload hfile hseed).2.1
    · exact hplanted.1
    · exact hplanted.2
    · intro payload hfile hseed record hrecord index
      obtain ⟨-, -, hread⟩ := hread payload hfile hseed
      exact (parseLedgerLine_seedRecord_iff record index).mpr (hread.writable record hrecord)
    · intro payload hfile hseed
      obtain ⟨hpublishes, rfl, hread⟩ := hread payload hfile hseed
      exact (replaySync_seedPayload_iff hpublishes.2.2).mpr hread

/-! ### A child below the last depth -/

def subagentLine (childId sessionFile : String) (depth : List (String × Json)) : List UInt8 :=
  (Json.obj ([("type", toJson "rlm_subagent"), ("childId", toJson childId),
    ("sessionName", toJson "worker"), ("sessionFile", toJson sessionFile),
    ("status", toJson "completed")] ++ depth)).stringify ++ [10]

/-- The registry of the root gives its child the last depth; that child's own registry gives
none. -/
def overdeepSource : RlmLedgerSeedSource where
  files := [subagentLine "sub-1" "/sessions/root/deep.jsonl" [("rlmDepth", toJson maxSafeInteger)],
    subagentLine "sub-2" "/sessions/root/deeper.jsonl" []]
  registryFile
    | "/sessions/root.jsonl" => some 0
    | "/sessions/root/deep.jsonl" => some 1
    | _ => none

def overdeepEnv : LedgerEnv where
  canonicalSessionPath := id
  sessionsDirEntries := some ["root.jsonl"]
  nowIso := "2026-01-01T00:00:00.000Z"

def deepRecord : RlmLedgerSeedRecord :=
  ⟨overdeepEnv.nowIso, "sub-1", "/sessions/root.jsonl", "/sessions/root/deep.jsonl",
    maxSafeInteger, "worker"⟩

def deeperRecord : RlmLedgerSeedRecord :=
  ⟨overdeepEnv.nowIso, "sub-2", "/sessions/root/deep.jsonl", "/sessions/root/deeper.jsonl",
    maxSafeInteger + 1, "worker"⟩

lemma seedRecords_overdeep :
    sampleLedger.seedRecords overdeepEnv overdeepSource = [deepRecord, deeperRecord] := by
  have hstart : sampleLedger.seedStart overdeepEnv =
      ⟨[], [⟨"/sessions/root.jsonl", 0⟩], ["/sessions/root.jsonl"]⟩ := by decide +kernel
  have hroot : SeedWalk.visitRegistry overdeepEnv overdeepSource ⟨"/sessions/root.jsonl", 0⟩
      ⟨[], [], ["/sessions/root.jsonl"]⟩ =
        ⟨[deepRecord], [⟨"/sessions/root/deep.jsonl", maxSafeInteger⟩],
          ["/sessions/root/deep.jsonl", "/sessions/root.jsonl"]⟩ := by decide +kernel
  have hdeep : SeedWalk.visitRegistry overdeepEnv overdeepSource
      ⟨"/sessions/root/deep.jsonl", maxSafeInteger⟩
      ⟨[deepRecord], [], ["/sessions/root/deep.jsonl", "/sessions/root.jsonl"]⟩ =
        ⟨[deepRecord, deeperRecord], [⟨"/sessions/root/deeper.jsonl", maxSafeInteger + 1⟩],
          ["/sessions/root/deeper.jsonl", "/sessions/root/deep.jsonl", "/sessions/root.jsonl"]⟩ :=
    by decide +kernel
  rw [seedRecords, hstart, SeedWalk.run_of_cons rfl, hroot, SeedWalk.run_of_cons rfl, hdeep,
    SeedWalk.run_of_cons rfl, SeedWalk.run_of_nil rfl]
  rfl

/-- The seed is published, and its last record cannot be read. -/
theorem not_seedsForest_overdeep :
    ¬∀ (ledger : RlmSpawnLedger) (env : LedgerEnv) (source : RlmLedgerSeedSource)
      (file : Option (List UInt8)), ledger.SeedsForest env source file := by
  intro h
  have hlength : (sampleLedger.seedPayload overdeepEnv [deepRecord, deeperRecord]).length ≤
      1000 := by decide +kernel
  have hin : sampleLedger.eventLog.InBounds (sampleLedger.seedFile overdeepEnv overdeepSource) := by
    rw [seedFile, seedRecords_overdeep]
    exact inBounds_seedPayload_iff.mpr ⟨by simp [rlmLedgerMaxRecords],
      hlength.trans (by simp [rlmLedgerMaxBytes])⟩
  have hpublishes : sampleLedger.Publishes overdeepEnv overdeepSource none :=
    ⟨rfl, by simp [seedRecords_overdeep], hin⟩
  have hparses := (h sampleLedger overdeepEnv overdeepSource none).parses _ rfl
    (seed_of_publishes hpublishes) deeperRecord (by simp [seedRecords_overdeep]) 0
  have hwritable := (parseLedgerLine_seedRecord_iff _ _).mp hparses
  exact absurd hwritable.2 (by decide)

end RlmSpawnLedger

end Amide
