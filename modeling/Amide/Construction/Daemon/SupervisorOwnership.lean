import Amide.Framework.Threads

/-!
# Ownership of a daemon's resources (`modes/daemon/daemon-supervisor-ownership.ts`)

A supervisor that owns a socket path and a descriptor directory has a directory of its own in the
registry, with an `owner.json` and a `scope.json`.  Acquiring ownership drafts such a directory
under another name and renames it into the registry, once every owner in it has been looked at:
one that conflicts and is alive refuses the newcomer, one that conflicts and is dead is renamed
away.  This, `updatePhase` and `release` hold the guard of the registry.

Processes call these at any time, and their effects on the files interleave (`ownershipSystem`).  A
process can crash between any two of them; the guard can be taken over from then on.  The guard
excludes everybody else while its holder is alive, a rename is one step, `isProcessIdentityAlive`
tells whether a process with that identity is alive, and `randomUUID` gives no name twice.  A file
operation may also fail, and then it has changed nothing.  The registry itself is there.
-/

namespace Amide.SupervisorOwnership

/-! ## Owners and their files -/

inductive DaemonSupervisorOwnerPhase where
  | starting
  | owner
  | stopping
  deriving DecidableEq

structure ProcessIdentity where
  pid : ℕ
  processStartId : Option String
  deriving DecidableEq

/-- The `version` and the `role` are those every record has. -/
structure DaemonSupervisorOwnerRecord extends ProcessIdentity where
  token : String
  generation : String
  socketPath : String
  descriptorDir : String
  agentDir : String
  appVersion : String
  phase : DaemonSupervisorOwnerPhase
  createdAt : String
  updatedAt : String
  deriving DecidableEq

structure DaemonSupervisorOwnerScope where
  token : String
  generation : String
  socketPath : String
  descriptorDir : String

def DaemonSupervisorOwnerRecord.scope (record : DaemonSupervisorOwnerRecord) :
    DaemonSupervisorOwnerScope where
  token := record.token
  generation := record.generation
  socketPath := record.socketPath
  descriptorDir := record.descriptorDir

def ownerConflicts (left right : DaemonSupervisorOwnerScope) : Bool :=
  left.socketPath = right.socketPath || left.descriptorDir = right.descriptorDir

/-- Why a directory has been renamed. -/
inductive Suffix where
  | stale
  | abandoned
  | released
  deriving DecidableEq

inductive OwnerPath where
  | owner (generation : String)
  | candidate (pid : ℕ) (token : String)
  | renamed (directory : OwnerPath) (suffix : Suffix) (uuid : String)
  deriving DecidableEq

inductive JsonFile (α : Type) where
  | absent
  | invalid
  | valid (value : α)

def JsonFile.value? {α : Type} : JsonFile α → Option α
  | valid value => some value
  | _ => none

/-- What `writeJsonAtomically` writes to a directory of the registry. -/
inductive OwnerFile where
  | owner (record : DaemonSupervisorOwnerRecord)
  | scope (scope : DaemonSupervisorOwnerScope)

/-- What is in a directory; `temps` are the files that have not been renamed yet. -/
structure OwnerFiles where
  owner : JsonFile DaemonSupervisorOwnerRecord := .absent
  scope : JsonFile DaemonSupervisorOwnerScope := .absent
  temps : String → Option OwnerFile := fun _ => none

namespace OwnerFiles

def setTemp (files : OwnerFiles) (uuid : String) (file : Option OwnerFile) : OwnerFiles :=
  { files with temps := Function.update files.temps uuid file }

def put (files : OwnerFiles) : OwnerFile → OwnerFiles
  | .owner record => { files with owner := .valid record }
  | .scope scope => { files with scope := .valid scope }

def Empty (files : OwnerFiles) : Prop :=
  files.owner = .absent ∧ files.scope = .absent ∧ ∀ uuid, files.temps uuid = none

/-- The names `readdir` gives. -/
def Lists (files : OwnerFiles) (names : List String) : Prop :=
  ("owner.json" ∈ names ↔ files.owner ≠ .absent) ∧ ("scope.json" ∈ names ↔ files.scope ≠ .absent)

end OwnerFiles

inductive OwnerError where
  | alreadyRunning (owner : DaemonSupervisorOwnerRecord)
  | shutdownInProgress
  | ownershipLost (socketPath : String)
  | invalidGeneration (generation : String)
  | invalidRecord (directory : OwnerPath)
  | invalidMutation (generation : String)
  /-- Any error of the system, or of the guard. -/
  | system

/-- The object a supervisor has; `record` is as it was acquired. -/
structure DaemonSupervisorOwnership where
  record : DaemonSupervisorOwnerRecord
  ownerDirectory : OwnerPath
  deriving DecidableEq

/-! ## The programs -/

/-- What the programs ask of the system.  `remember` is an assignment to `staleDirectories` or
`releasedDirectory`, which the `finally` clause reads again; `newOwnership`, `isReleased` and
`setReleased` are about the object in memory. -/
inductive OwnerOp where
  | normalizeSocketPath (socketPath : String)
  | canonicalizeFilesystemPath (path : String)
  | randomUUID
  | nowIso
  | mkdir (path : OwnerPath)
  | writeTemp (path : OwnerPath) (uuid : String) (file : OwnerFile)
  | renameTemp (path : OwnerPath) (uuid : String)
  | unlinkTemp (path : OwnerPath) (uuid : String)
  | rename (source target : OwnerPath)
  | unlinkOwner (path : OwnerPath)
  | unlinkScope (path : OwnerPath)
  | unlinkTemps (path : OwnerPath)
  | rmdir (path : OwnerPath)
  | readdir (path : OwnerPath)
  | existsSync (path : OwnerPath)
  | readOwnerRecord (path : OwnerPath)
  | readScope (path : OwnerPath)
  | listOwnerDirectories
  | isProcessIdentityAlive (identity : ProcessIdentity)
  | readActiveShutdownAdmission
  | lock
  | assertGuardHeld
  | unlock
  | remember (path : OwnerPath)
  | remembered
  | newOwnership (ownership : DaemonSupervisorOwnership)
  | isReleased (ownership : DaemonSupervisorOwnership)
  | setReleased (ownership : DaemonSupervisorOwnership)

abbrev OwnerOp.Answer : OwnerOp → Type
  | normalizeSocketPath _ | canonicalizeFilesystemPath _ | randomUUID | nowIso => String
  | readdir _ => List String
  | readOwnerRecord _ => Option DaemonSupervisorOwnerRecord
  | readScope _ => Option DaemonSupervisorOwnerScope
  | listOwnerDirectories | remembered => List OwnerPath
  | existsSync _ | isProcessIdentityAlive _ | readActiveShutdownAdmission | isReleased _ => Bool
  | _ => Unit

abbrev OwnerProgram := Program OwnerOp OwnerOp.Answer OwnerError

abbrev OwnerOp.perform (op : OwnerOp) : OwnerProgram op.Answer := Program.effect op

open OwnerOp (perform)

section Programs

variable {α : Type}

/-- The result of a `try` block is what the rest comes to after its `finally`. -/
def conclude : Except OwnerError α → OwnerProgram α
  | .ok a => pure a
  | .error error => throw error

def withDaemonSupervisorRegistryGuard (action : OwnerProgram α) : OwnerProgram α := do
  perform .lock
  let result ← (do
    perform .assertGuardHeld
    let result ← action
    perform .assertGuardHeld
    pure result).attempt
  perform .unlock
  conclude result

def validGeneration (generation : String) : Bool :=
  generation ≠ "" && generation.toList.all fun c => c.isAlphanum || c ∈ ['.', '_', '-']

def ownerDirectoryPath (generation : String) : OwnerProgram OwnerPath :=
  if validGeneration generation then pure (.owner generation)
  else throw (.invalidGeneration generation)

def writeJsonAtomically (path : OwnerPath) (file : OwnerFile) : OwnerProgram Unit := do
  let uuid ← perform .randomUUID
  match ← (do perform (.writeTemp path uuid file); perform (.renameTemp path uuid)).attempt with
  | .ok _ => pure ()
  | .error error => do
    perform (.unlinkTemp path uuid)
    throw error

/-- `rmSync` with `recursive` and `force`. -/
def rmSync (path : OwnerPath) : OwnerProgram Unit := do
  perform (.unlinkOwner path)
  perform (.unlinkScope path)
  perform (.unlinkTemps path)
  perform (.rmdir path)

/-- A scope counts only in the directory of its generation. -/
def readOwnerScope (directory : OwnerPath) : OwnerProgram (Option DaemonSupervisorOwnerScope) := do
  let scope ← perform (.readScope directory)
  pure (scope.filter fun scope =>
    validGeneration scope.generation && directory = .owner scope.generation)

/-- The names in a directory, unless it has a scope. -/
def entriesUnless (scope : Option DaemonSupervisorOwnerScope) (directory : OwnerPath) :
    OwnerProgram (List String) :=
  match scope with
  | none => perform (.readdir directory)
  | some _ => pure []

def readOwnerRecordForScope (directory : OwnerPath)
    (isRelevant : DaemonSupervisorOwnerScope → Bool) :
    OwnerProgram (Option DaemonSupervisorOwnerRecord) := do
  match ← perform (.readOwnerRecord directory) with
  | some owner => pure (some owner)
  | none => do
    let scope ← readOwnerScope directory
    let entries ← entriesUnless scope directory
    if scope = none ∧ "owner.json" ∉ entries ∧ "scope.json" ∉ entries then do
      let uuid ← perform .randomUUID
      perform (.rename directory (.renamed directory .abandoned uuid))
      rmSync (.renamed directory .abandoned uuid)
      pure none
    else if scope.all isRelevant then throw (.invalidRecord directory)
    else pure none

/-- The loop over the directories of the registry. -/
def setAsideStale (record : DaemonSupervisorOwnerRecord) : List OwnerPath → OwnerProgram Unit
  | [] => pure ()
  | directory :: rest => do
    match ← readOwnerRecordForScope directory fun scope => ownerConflicts scope record.scope with
    | none => setAsideStale record rest
    | some owner =>
      if !ownerConflicts owner.scope record.scope then setAsideStale record rest
      else do
        if ← perform (.isProcessIdentityAlive owner.toProcessIdentity) then
          throw (.alreadyRunning owner)
        else do
          let uuid ← perform .randomUUID
          perform (.rename directory (.renamed directory .stale uuid))
          perform (.remember (.renamed directory .stale uuid))
          setAsideStale record rest

/-- What is done under the guard to acquire ownership. -/
def claimOwnership (record : DaemonSupervisorOwnerRecord) (candidateDirectory : OwnerPath)
    (ownerDirectory : OwnerPath) : OwnerProgram Unit := do
  if ← perform .readActiveShutdownAdmission then throw .shutdownInProgress
  else do
    let directories ← perform .listOwnerDirectories
    setAsideStale record directories
    perform (.rename candidateDirectory ownerDirectory)

def removeAll : List OwnerPath → OwnerProgram Unit
  | [] => pure ()
  | directory :: rest => do
    rmSync directory
    removeAll rest

/-- The `catch` clause of an acquisition. -/
def orRemove (candidateDirectory : OwnerPath) : Except OwnerError Unit → OwnerProgram Unit
  | .ok _ => pure ()
  | .error error => do
    rmSync candidateDirectory
    throw error

structure AcquireDaemonSupervisorOwnershipOptions where
  socketPath : String
  descriptorDir : String
  agentDir : String
  generation : String
  appVersion : String
  deriving DecidableEq

def AcquireDaemonSupervisorOwnershipOptions.record
    (options : AcquireDaemonSupervisorOwnershipOptions) (self : ProcessIdentity)
    (token now socketPath descriptorDir agentDir : String) : DaemonSupervisorOwnerRecord :=
  { self with
    token := token
    generation := options.generation
    socketPath := socketPath
    descriptorDir := descriptorDir
    agentDir := agentDir
    appVersion := options.appVersion
    phase := .starting
    createdAt := now
    updatedAt := now }

def acquireDaemonSupervisorOwnership (self : ProcessIdentity)
    (options : AcquireDaemonSupervisorOwnershipOptions) :
    OwnerProgram DaemonSupervisorOwnership := do
  let token ← perform .randomUUID
  let now ← perform .nowIso
  let socketPath ← perform (.normalizeSocketPath options.socketPath)
  let descriptorDir ← perform (.canonicalizeFilesystemPath options.descriptorDir)
  let agentDir ← perform (.canonicalizeFilesystemPath options.agentDir)
  let record := options.record self token now socketPath descriptorDir agentDir
  let candidateDirectory := OwnerPath.candidate self.pid token
  let ownerDirectory ← ownerDirectoryPath options.generation
  perform (.mkdir candidateDirectory)
  let claimed ← (do
    writeJsonAtomically candidateDirectory (.scope record.scope)
    writeJsonAtomically candidateDirectory (.owner record)
    withDaemonSupervisorRegistryGuard
      (claimOwnership record candidateDirectory ownerDirectory)).attempt
  let result ← (orRemove candidateDirectory claimed).attempt
  let staleDirectories ← perform .remembered
  removeAll staleDirectories
  conclude result
  let ownership : DaemonSupervisorOwnership := ⟨record, ownerDirectory⟩
  perform (.newOwnership ownership)
  pure ownership

def requireOwnerRecord (directory : OwnerPath) : OwnerProgram DaemonSupervisorOwnerRecord := do
  match ← perform (.readOwnerRecord directory) with
  | some owner => pure owner
  | none => throw (.invalidRecord directory)

def mutateDaemonSupervisorOwner (generation expectedToken : String)
    (mutation : DaemonSupervisorOwnerRecord → DaemonSupervisorOwnerRecord) :
    OwnerProgram (Option DaemonSupervisorOwnerRecord) :=
  withDaemonSupervisorRegistryGuard do
    let directory ← ownerDirectoryPath generation
    if !(← perform (.existsSync directory)) then pure none
    else do
      let current ← requireOwnerRecord directory
      if current.token ≠ expectedToken then pure none
      else do
        let now ← perform .nowIso
        let updated := { mutation current with updatedAt := now }
        if updated.generation ≠ generation ∨ updated.token ≠ expectedToken then
          throw (.invalidMutation generation)
        else do
          writeJsonAtomically directory (.owner updated)
          pure (some updated)

namespace DaemonSupervisorOwnership

variable (ownership : DaemonSupervisorOwnership)

/-- What becomes of `phase` and `updatedAt` in memory is left out. -/
def updatePhase (phase : DaemonSupervisorOwnerPhase) : OwnerProgram Unit := do
  if ← perform (.isReleased ownership) then pure ()
  else do
    match ← mutateDaemonSupervisorOwner ownership.record.generation ownership.record.token
        fun owner => { owner with phase } with
    | none => throw (.ownershipLost ownership.record.socketPath)
    | some _ => pure ()

/-- What is done under the guard to release ownership. -/
def unregister : OwnerProgram Unit := do
  let current ← perform (.readOwnerRecord ownership.ownerDirectory)
  if current.map (·.token) ≠ some ownership.record.token then pure ()
  else do
    let uuid ← perform .randomUUID
    perform (.remember (.renamed ownership.ownerDirectory .released uuid))
    perform (.rename ownership.ownerDirectory (.renamed ownership.ownerDirectory .released uuid))

def release : OwnerProgram Unit := do
  if ← perform (.isReleased ownership) then pure ()
  else do
    let result ← (do
      withDaemonSupervisorRegistryGuard ownership.unregister
      perform (.setReleased ownership)).attempt
    let releasedDirectory ← perform .remembered
    removeAll releasedDirectory
    conclude result

end DaemonSupervisorOwnership

end Programs

/-! ## The system -/

inductive OwnerRequest where
  | acquire (options : AcquireDaemonSupervisorOwnershipOptions)
  | updatePhase (ownership : DaemonSupervisorOwnership) (phase : DaemonSupervisorOwnerPhase)
  | release (ownership : DaemonSupervisorOwnership)
  deriving DecidableEq

/-- A call, by one of the processes `π`. -/
structure OwnerCall (π : Type) where
  id : ℕ
  process : π
  request : OwnerRequest
  deriving DecidableEq

/-- How far an ownership has come.  The flag `released` is set only at the end of a release; by
then the directory has left the registry (`unregistered`). -/
inductive Standing where
  | owned
  | unregistered
  | released
  deriving DecidableEq

structure OwnerWorld (π : Type) where
  dirs : OwnerPath → Option OwnerFiles := fun _ => none
  guard : Option (OwnerCall π) := none
  crashed : π → Prop := fun _ => False
  /-- Who `randomUUID` gave a name to. -/
  issued : String → Option (OwnerCall π) := fun _ => none
  remembered : OwnerCall π → List OwnerPath := fun _ => []
  ownerships : π → DaemonSupervisorOwnership → Option Standing := fun _ _ => none

namespace OwnerWorld

variable {π : Type} [DecidableEq π]

def setDir (w : OwnerWorld π) (path : OwnerPath) (files : Option OwnerFiles) : OwnerWorld π :=
  { w with dirs := Function.update w.dirs path files }

def setGuard (w : OwnerWorld π) (holder : Option (OwnerCall π)) : OwnerWorld π :=
  { w with guard := holder }

def issue (w : OwnerWorld π) (uuid : String) (call : OwnerCall π) : OwnerWorld π :=
  { w with issued := Function.update w.issued uuid (some call) }

def remember (w : OwnerWorld π) (call : OwnerCall π) (path : OwnerPath) : OwnerWorld π :=
  { w with remembered := Function.update w.remembered call (w.remembered call ++ [path]) }

def setOwnership (w : OwnerWorld π) (p : π) (ownership : DaemonSupervisorOwnership)
    (standing : Standing) : OwnerWorld π :=
  { w with
    ownerships :=
      Function.update w.ownerships p (Function.update (w.ownerships p) ownership (some standing)) }

/-- The record that can be read. -/
def ownerAt (w : OwnerWorld π) (path : OwnerPath) : Option DaemonSupervisorOwnerRecord :=
  (w.dirs path).bind (·.owner.value?)

/-- A directory can be renamed onto it. -/
def Vacant (w : OwnerWorld π) (path : OwnerPath) : Prop :=
  ∀ files, w.dirs path = some files → files.Empty

/-- The process has acquired ownership, has not released it, and is alive. -/
def Owns (w : OwnerWorld π) (p : π) (ownership : DaemonSupervisorOwnership) : Prop :=
  ¬w.crashed p ∧ w.ownerships p ownership = some .owned

/-- A directory gets another name; where a release does it, its ownership is registered no more. -/
def move (w : OwnerWorld π) (call : OwnerCall π) (source target : OwnerPath)
    (files : OwnerFiles) : OwnerWorld π :=
  let moved := (w.setDir source none).setDir target (some files)
  match call.request with
  | .release ownership =>
    if source = ownership.ownerDirectory then
      moved.setOwnership call.process ownership .unregistered
    else moved
  | _ => moved

/-- What an effect of a call can do. -/
def answers (self : π → ProcessIdentity) (call : OwnerCall π) (w : OwnerWorld π) :
    (op : OwnerOp) → Except OwnerError op.Answer → OwnerWorld π → Prop
  | .normalizeSocketPath _, r, w' | .canonicalizeFilesystemPath _, r, w' | .nowIso, r, w' =>
      (∃ answer, r = .ok answer) ∧ w' = w
  | .randomUUID, r, w' => ∃ uuid, r = .ok uuid ∧ w.issued uuid = none ∧ w' = w.issue uuid call
  | .mkdir path, r, w' => w.dirs path = none ∧ r = .ok () ∧ w' = w.setDir path (some {})
  | .writeTemp path uuid file, r, w' => ∃ files, w.dirs path = some files ∧ r = .ok () ∧
      w' = w.setDir path (some (files.setTemp uuid (some file)))
  | .renameTemp path uuid, r, w' => ∃ files file, w.dirs path = some files ∧
      files.temps uuid = some file ∧ r = .ok () ∧
      w' = w.setDir path (some ((files.setTemp uuid none).put file))
  | .unlinkTemp path uuid, r, w' => r = .ok () ∧
      w' = w.setDir path ((w.dirs path).map (·.setTemp uuid none))
  | .rename source target, r, w' => ∃ files, w.dirs source = some files ∧ w.Vacant target ∧
      r = .ok () ∧ w' = w.move call source target files
  | .unlinkOwner path, r, w' => r = .ok () ∧
      w' = w.setDir path ((w.dirs path).map ({ · with owner := .absent }))
  | .unlinkScope path, r, w' => r = .ok () ∧
      w' = w.setDir path ((w.dirs path).map ({ · with scope := .absent }))
  | .unlinkTemps path, r, w' => r = .ok () ∧
      w' = w.setDir path ((w.dirs path).map ({ · with temps := fun _ => none }))
  | .rmdir path, r, w' => w.Vacant path ∧ r = .ok () ∧ w' = w.setDir path none
  | .readdir path, r, w' =>
      (∃ files names, w.dirs path = some files ∧ files.Lists names ∧ r = .ok names) ∧ w' = w
  | .existsSync path, r, w' => r = .ok (w.dirs path).isSome ∧ w' = w
  | .readOwnerRecord path, r, w' => r = .ok (w.ownerAt path) ∧ w' = w
  | .readScope path, r, w' => r = .ok ((w.dirs path).bind (·.scope.value?)) ∧ w' = w
  | .listOwnerDirectories, r, w' => (∃ paths, r = .ok paths ∧
      ∀ path, path ∈ paths ↔ ∃ generation, path = .owner generation ∧ w.dirs path ≠ none) ∧ w' = w
  | .isProcessIdentityAlive identity, r, w' => (∃ alive : Bool, r = .ok alive ∧
      ((∃ p, self p = identity) → (alive = true ↔ ∃ p, self p = identity ∧ ¬w.crashed p))) ∧ w' = w
  | .readActiveShutdownAdmission, r, w' => (∃ active, r = .ok active) ∧ w' = w
  | .lock, r, w' => (∀ holder, w.guard = some holder → w.crashed holder.process) ∧
      r = .ok () ∧ w' = w.setGuard (some call)
  | .assertGuardHeld, r, w' => r = .ok () ∧ w' = w
  | .unlock, r, w' => (w' = w ∨ w' = w.setGuard none) ∧ (r = .ok () ∨ r = .error .system)
  | .remember path, r, w' => r = .ok () ∧ w' = w.remember call path
  | .remembered, r, w' => r = .ok (w.remembered call) ∧ w' = w
  | .newOwnership ownership, r, w' => r = .ok () ∧ w' = w.setOwnership call.process ownership .owned
  | .isReleased ownership, r, w' =>
      r = .ok (decide (w.ownerships call.process ownership = some .released)) ∧ w' = w
  | .setReleased ownership, r, w' => r = .ok () ∧
      w' = w.setOwnership call.process ownership .released

/-- A process crashes. -/
def Crashes (w w' : OwnerWorld π) : Prop :=
  ∃ p, w' = { w with crashed := fun q => q = p ∨ w.crashed q }

end OwnerWorld

/-- The effects that do not fail: they swallow their errors, or are about memory. -/
def OwnerOp.infallible : OwnerOp → Bool
  | randomUUID | nowIso | existsSync _ | readOwnerRecord _ | readScope _
  | isProcessIdentityAlive _ | remember _ | remembered | newOwnership _ | isReleased _
  | setReleased _ => true
  | _ => false

/-- Only live processes get answers; what fails changes nothing. -/
def ownershipHandler {π : Type} [DecidableEq π] (self : π → ProcessIdentity) (call : OwnerCall π)
    (w : OwnerWorld π) (op : OwnerOp) (r : Except OwnerError op.Answer) (w' : OwnerWorld π) :
    Prop :=
  ¬w.crashed call.process ∧
    (w.answers self call op r w' ∨ op.infallible = false ∧ r = .error .system ∧ w' = w)

def OwnerRequest.program (self : ProcessIdentity) :
    OwnerRequest → OwnerProgram (Option DaemonSupervisorOwnership)
  | acquire options => do
    let ownership ← acquireDaemonSupervisorOwnership self options
    pure (some ownership)
  | updatePhase ownership phase => do
    ownership.updatePhase phase
    pure none
  | release ownership => do
    ownership.release
    pure none

/-- The ownership a call is made on. -/
def OwnerRequest.ownership? : OwnerRequest → Option DaemonSupervisorOwnership
  | acquire _ => none
  | updatePhase ownership _ | release ownership => some ownership

/-- Supervisors over one registry.  `updatePhase` and `release` are called on an ownership of the
process itself. -/
def ownershipSystem {π : Type} [DecidableEq π] (self : π → ProcessIdentity) :
    ThreadSystem (OwnerCall π) (OwnerWorld π) OwnerOp OwnerOp.Answer OwnerError
      (Option DaemonSupervisorOwnership) where
  program call := call.request.program (self call.process)
  admits call w := ∀ ownership, call.request.ownership? = some ownership →
    w.ownerships call.process ownership ≠ none
  handler := ownershipHandler self
  environment := OwnerWorld.Crashes

end Amide.SupervisorOwnership
