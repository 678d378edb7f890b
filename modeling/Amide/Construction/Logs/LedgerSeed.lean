import Amide.Construction.Logs.RlmLedger

/-!
# Seeding the RLM ledger from the old registries (`modes/daemon/rlm-ledger.ts`)

Before there was a ledger each session kept a registry file of its own subagents.  A missing ledger
is seeded from these: `RlmSpawnLedger.seed` walks them breadth first from the session files of the
sessions directory, turns each child it has not come across before into a spawn record, and
publishes the records at once (`RlmSpawnLedger.publishSeed`).

The registry files there are come as `RlmLedgerSeedSource`, with the one that belongs to a session
file; finding it by the session's header is left out.  The walk ends because every pass either
visits a path named in one of these files for the first time or leaves a shorter queue
(`SeedWalk.visitRegistry_decreases`).
-/

namespace Amide

/-! ## Registries -/

inductive RlmSubagentStatus where
  | running
  | completed
  | deleted
  deriving DecidableEq

/-- A safe integer that is not negative. -/
abbrev RegistryDepth := { depth : ℕ // depth ≤ maxSafeInteger }

structure RlmLedgerSeedRegistryEntry where
  childId : String
  sessionName : String
  sessionFile : String
  rlmDepth : Option RegistryDepth := none
  status : RlmSubagentStatus

def subagentStatus? : String → Option RlmSubagentStatus
  | "running" => some .running
  | "completed" => some .completed
  | "deleted" => some .deleted
  | _ => none

/-- The depth may be missing; one that is there must be a safe integer. -/
def registryDepth? (entry : Json) : Option (Option RegistryDepth) :=
  match (entry.optField "rlmDepth" : Option (Option ℕ)) with
  | none => none
  | some none => some none
  | some (some depth) => if h : depth ≤ maxSafeInteger then some (some ⟨depth, h⟩) else none

def registryEntry? (entry : Json) : Option RlmLedgerSeedRegistryEntry :=
  if (entry.field "type" : Option String) = some "rlm_subagent" then do
    let childId ← entry.field "childId"
    let sessionName ← entry.field "sessionName"
    let sessionFile ← entry.field "sessionFile"
    let status ← (entry.field "status" : Option String).bind subagentStatus?
    let rlmDepth ← registryDepth? entry
    pure { childId, sessionName, sessionFile, rlmDepth, status }
  else none

/-- Lines that are no entries are ignored; of the entries of a child the last one counts. -/
def readLegacyRlmSubagentRegistry (contents : List UInt8) : List RlmLedgerSeedRegistryEntry :=
  (JsMap.index RlmLedgerSeedRegistryEntry.childId ((contents.splitOn 10).filterMap fun line =>
    (Json.parse (Utf8.trim line)).bind registryEntry?)).values

/-- The registry files there are, and which of them belongs to a session file. -/
structure RlmLedgerSeedSource where
  files : List (List UInt8)
  registryFile : String → Option (Fin files.length)

namespace RlmLedgerSeedSource

variable (source : RlmLedgerSeedSource)

def readRegistryForSessionFile (sessionFile : String) : List RlmLedgerSeedRegistryEntry :=
  match source.registryFile sessionFile with
  | none => []
  | some i => readLegacyRlmSubagentRegistry (source.files.get i)

def entries : List RlmLedgerSeedRegistryEntry :=
  source.files.flatMap readLegacyRlmSubagentRegistry

lemma readRegistryForSessionFile_subset (sessionFile : String) :
    source.readRegistryForSessionFile sessionFile ⊆ source.entries := by
  rw [readRegistryForSessionFile]
  split
  · exact List.nil_subset _
  · intro entry hentry
    exact List.mem_flatMap_of_mem (List.get_mem _ _) hentry

end RlmLedgerSeedSource

/-! ## The walk -/

structure SeedItem where
  sessionFile : String
  depth : ℕ
  deriving DecidableEq

structure SeedWalk where
  records : List RlmLedgerSeedRecord := []
  queue : List SeedItem
  visited : List String
  deriving DecidableEq

/-- `depth + 1` for a double: the number after `2 ^ 53` cannot be told from it. -/
def nextDepth (depth : ℕ) : ℕ := min (depth + 1) (maxSafeInteger + 1)

namespace RlmLedgerSeedRegistryEntry

variable (entry : RlmLedgerSeedRegistryEntry)

/-- A depth below one cannot be written and counts as absent. -/
def registryDepth : Option RegistryDepth := entry.rlmDepth.filter fun depth => 1 ≤ depth.val

def childDepth (depth : ℕ) : ℕ :=
  match entry.registryDepth with
  | some registryDepth => registryDepth
  | none => nextDepth depth

def childPath (env : LedgerEnv) : String := env.canonicalSessionPath entry.sessionFile

def seedRecord (env : LedgerEnv) (item : SeedItem) : RlmLedgerSeedRecord where
  at_ := env.nowIso
  childId := entry.childId
  parent := env.canonicalSessionPath item.sessionFile
  child := entry.childPath env
  depth := entry.childDepth item.depth
  name := entry.sessionName

end RlmLedgerSeedRegistryEntry

namespace SeedWalk

variable (env : LedgerEnv) (source : RlmLedgerSeedSource) (item : SeedItem)

/-- An entry without a child id is skipped, but its path counts as visited. -/
def visit (walk : SeedWalk) (entry : RlmLedgerSeedRegistryEntry) : SeedWalk :=
  if entry.status = .deleted then walk
  else if entry.childPath env ∈ walk.visited then walk
  else if entry.childId = "" then { walk with visited := entry.childPath env :: walk.visited }
  else
    { records := walk.records ++ [entry.seedRecord env item]
      queue := walk.queue ++ [⟨entry.sessionFile, entry.childDepth item.depth⟩]
      visited := entry.childPath env :: walk.visited }

/-- The loop over the registry of one session, which is not in the queue any more. -/
def visitRegistry (walk : SeedWalk) : SeedWalk :=
  (source.readRegistryForSessionFile item.sessionFile).foldl (visit env item) walk

/-- How many entries there are whose path has not been visited. -/
def unvisited (walk : SeedWalk) : ℕ :=
  source.entries.countP fun entry => entry.childPath env ∉ walk.visited

variable {env source item}
variable {walk : SeedWalk} {entry : RlmLedgerSeedRegistryEntry}

lemma unvisited_lt (hmem : entry ∈ source.entries)
    (hnew : entry.childPath env ∉ walk.visited) {walk' : SeedWalk}
    (hvisited : walk'.visited = entry.childPath env :: walk.visited) :
    unvisited env source walk' < unvisited env source walk := by
  obtain ⟨front, rest, hentries⟩ := List.append_of_mem hmem
  have hle : ∀ entries : List RlmLedgerSeedRegistryEntry,
      (entries.countP fun e => e.childPath env ∉ walk'.visited) ≤
        entries.countP fun e => e.childPath env ∉ walk.visited := by
    refine fun entries => List.countP_mono_left fun e _ he => ?_
    rw [hvisited] at he
    simp only [List.mem_cons, not_or, decide_eq_true_eq] at he ⊢
    exact he.2
  have hfront := hle front
  have hrest := hle rest
  simp only [unvisited, hentries, List.countP_append, List.countP_cons, hvisited, List.mem_cons,
    true_or, not_true_eq_false, decide_false, hnew, not_false_eq_true, decide_true]
    at hfront hrest ⊢
  simp only [Bool.false_eq_true, if_false, if_true]
  omega

lemma visit_decreases (hmem : entry ∈ source.entries) :
    visit env item walk entry = walk ∨
      unvisited env source (visit env item walk entry) < unvisited env source walk := by
  rw [visit]
  split_ifs with hdel hvisited hid
  · exact .inl rfl
  · exact .inl rfl
  · exact .inr (unvisited_lt hmem hvisited rfl)
  · exact .inr (unvisited_lt hmem hvisited rfl)

lemma visitRegistry_decreases (item : SeedItem) (walk : SeedWalk) :
    visitRegistry env source item walk = walk ∨
      unvisited env source (visitRegistry env source item walk) < unvisited env source walk := by
  have hfold : ∀ entries ⊆ source.entries, ∀ walk, entries.foldl (visit env item) walk = walk ∨
        unvisited env source (entries.foldl (visit env item) walk) < unvisited env source walk := by
    intro entries
    induction entries with
    | nil => exact fun _ _ => .inl rfl
    | cons entry entries ih =>
      intro hsub walk
      obtain ⟨hmem, hsub⟩ := List.cons_subset.mp hsub
      rw [List.foldl_cons]
      rcases visit_decreases hmem with hsame | hlt
      · rw [hsame]
        exact ih hsub walk
      · rcases ih hsub (visit env item walk entry) with hsame | hlt'
        · rw [hsame]
          exact .inr hlt
        · exact .inr (hlt'.trans hlt)
  exact hfold _ (source.readRegistryForSessionFile_subset _) walk

lemma pass_decreases {queue : List SeedItem} (h : walk.queue = item :: queue) :
    Prod.Lex (· < ·) (· < ·)
      (unvisited env source (visitRegistry env source item { walk with queue }),
        (visitRegistry env source item { walk with queue }).queue.length)
      (unvisited env source walk, walk.queue.length) := by
  rcases visitRegistry_decreases item { walk with queue } with hsame | hlt
  · rw [hsame, h]
    exact .right _ (Nat.lt_succ_self _)
  · exact .left _ _ hlt

variable (env source)

/-- `while (queue.length > 0)`. -/
def run (walk : SeedWalk) : List RlmLedgerSeedRecord :=
  match _h : walk.queue with
  | [] => walk.records
  | item :: queue => run (visitRegistry env source item { walk with queue })
termination_by (unvisited env source walk, walk.queue.length)
decreasing_by exact pass_decreases _h

end SeedWalk

namespace RlmSpawnLedger

variable (ledger : RlmSpawnLedger) (env : LedgerEnv) (source : RlmLedgerSeedSource)

/-- The `*.jsonl` files of the sessions directory, under the names they have there. -/
def rootFiles : List String :=
  (((env.sessionsDirEntries.getD []).filter fun name => name.endsWith ".jsonl").insertionSort
    fun a b => codeUnits a ≤ codeUnits b).map fun name => ledger.canonicalSessionsDir ++ "/" ++ name

def seedStart : SeedWalk where
  queue := (ledger.rootFiles env).map fun sessionFile => ⟨sessionFile, 0⟩
  visited := (ledger.rootFiles env).map env.canonicalSessionPath

def seedRecords : List RlmLedgerSeedRecord := SeedWalk.run env source (ledger.seedStart env)

/-- A directory that cannot be read has no session files, so nothing is seeded from it. -/
def seed (file : Option (List UInt8)) : Option (List UInt8) :=
  ledger.publishSeed env (ledger.seedRecords env source) file

end RlmSpawnLedger

end Amide
