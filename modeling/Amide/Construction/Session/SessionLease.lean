import Mathlib.Data.Set.Finite.Basic
import Amide.Framework.Threads

/-!
# Session leases (`core/session-lease.ts`)

A lease of a session is a directory named after its canonical path, with an `owner.json` that says
whose it is.  It is put in place by renaming a candidate onto it, and a lease whose owner has died
is first renamed away.  Acquiring and releasing both hold a guard lock on the directory.

Processes call `acquireSessionLease` and `SessionLease.release` at any time, and their effects on
the files interleave (`leaseSystem`).  A process can crash between any two of them, also between
creating `owner.json` and writing it, or between the two steps of removing a directory; its guard
can be taken over from then on.  File operations do not fail of themselves, a rename is one step,
`randomUUID` gives no name twice, and `isLeaseOwnerAlive` tells whether the process that wrote an
owner has crashed.  All processes use one agent directory, whose `session-leases` directory is
there; what a session path resolves to is answered anew each time.
-/

namespace Amide

/-! ## Leases and their files -/

structure SessionLeaseOwner where
  token : String
  pid : ℕ
  processStartId : Option String
  activeSessionId : Option String
  sessionPath : String
  createdAt : String
  deriving DecidableEq

structure SessionLease where
  sessionPath : String
  directory : String
  token : String
  deriving DecidableEq

/-- Where a lease is, and the names it goes by before and after. -/
inductive LeasePath where
  | lease (directory : String)
  | candidate (directory : String) (pid : ℕ) (token : String)
  | stale (directory : String) (pid : ℕ) (uuid : String)
  deriving DecidableEq

/-- What is in a directory; its `owner.json` may not have been written yet. -/
inductive LeaseContent where
  | empty
  | unwritten
  | owned (owner : SessionLeaseOwner)
  deriving DecidableEq

inductive LeaseError where
  | sessionAlreadyActive (sessionPath : String) (activeSessionId : Option String)
  | couldNotAcquire (sessionPath : String)
  | couldNotCoordinate (directory : String)
  | eexist
  | enotempty
  | enoent
  | elocked
  deriving DecidableEq

/-! ## The programs -/

/-- What the programs ask of the system; the last two are about objects in memory. -/
inductive LeaseOp where
  | canonicalSessionPath (sessionPath : String)
  | randomUUID
  | nowIso
  | mkdir (path : LeasePath)
  | createOwner (path : LeasePath)
  | writeOwner (path : LeasePath) (owner : SessionLeaseOwner)
  | rename (source target : LeasePath)
  | readLeaseOwner (path : LeasePath)
  | existsSync (path : LeasePath)
  | unlinkOwner (path : LeasePath)
  | rmdir (path : LeasePath)
  | isLeaseOwnerAlive (owner : SessionLeaseOwner)
  | lockSync (directory : String)
  | unlock (directory : String)
  | newSessionLease (lease : SessionLease)
  | markReleased (lease : SessionLease)

abbrev LeaseOp.Answer : LeaseOp → Type
  | canonicalSessionPath _ | randomUUID | nowIso => String
  | readLeaseOwner _ => Option SessionLeaseOwner
  | existsSync _ | isLeaseOwnerAlive _ | markReleased _ => Bool
  | _ => Unit

abbrev LeaseProgram := Program LeaseOp LeaseOp.Answer LeaseError

abbrev LeaseOp.perform (op : LeaseOp) : LeaseProgram op.Answer := Program.effect op

open LeaseOp (perform)

/-- What a process knows of itself. -/
structure LeaseProcess where
  pid : ℕ
  processStartId : Option String
  leasesEnabled : Option String
  activeSessionId : Option String

/-- The attempts `withLeaseGuard` makes at the lock. -/
def lockGuard (directory : String) : ℕ → LeaseProgram Unit
  | 0 => throw (.couldNotCoordinate directory)
  | attempts + 1 => do
    match ← (perform (.lockSync directory)).attempt with
    | .ok _ => pure ()
    | .error .elocked => lockGuard directory attempts
    | .error error => throw error

/-- `try { return action(); } finally { release(); }`. -/
def underGuard {α : Type} (directory : String) (action : LeaseProgram α) : LeaseProgram α := do
  let result ← action.attempt
  perform (.unlock directory)
  match result with
  | .ok a => pure a
  | .error error => throw error

def withLeaseGuard {α : Type} (directory : String) (action : LeaseProgram α) : LeaseProgram α := do
  lockGuard directory 100
  underGuard directory action

def writeFileSync (path : LeasePath) (owner : SessionLeaseOwner) : LeaseProgram Unit := do
  perform (.createOwner path)
  perform (.writeOwner path owner)

/-- `rmSync` with `recursive` and `force`. -/
def rmSync (path : LeasePath) : LeaseProgram Unit := do
  perform (.unlinkOwner path)
  perform (.rmdir path)

def reclaimStaleLease (pid : ℕ) (directory : String) : LeaseProgram Bool := do
  let uuid ← perform .randomUUID
  match ← (perform (.rename (.lease directory) (.stale directory pid uuid))).attempt with
  | .error .enoent => pure true
  | .error _ => pure false
  | .ok _ => do
    rmSync (.stale directory pid uuid)
    pure true

def ownerAlive : Option SessionLeaseOwner → LeaseProgram Bool
  | none => pure false
  | some owner => perform (.isLeaseOwnerAlive owner)

/-- `existsSync(directory) ? readLeaseOwner(directory) : undefined`. -/
def currentOwner (directory : String) : LeaseProgram (Option SessionLeaseOwner) := do
  if ← perform (.existsSync (.lease directory)) then perform (.readLeaseOwner (.lease directory))
  else pure none

namespace LeaseProcess

variable (process : LeaseProcess)

def owner (sessionPath token createdAt : String) : SessionLeaseOwner where
  token := token
  pid := process.pid
  processStartId := process.processStartId
  activeSessionId := process.activeSessionId
  sessionPath := sessionPath
  createdAt := createdAt

/-- What is thrown after the last attempt. -/
def refuse (directory canonicalPath : String) : LeaseProgram SessionLease := do
  let owner ← currentOwner directory
  if ← ownerAlive owner then
    throw (.sessionAlreadyActive canonicalPath (owner.bind (·.activeSessionId)))
  else throw (.couldNotAcquire canonicalPath)

/-- The attempts under the guard. -/
def acquire (directory canonicalPath : String) : ℕ → LeaseProgram SessionLease
  | 0 => refuse directory canonicalPath
  | attempts + 1 => do
    let token ← perform .randomUUID
    let candidate := LeasePath.candidate directory process.pid token
    let createdAt ← perform .nowIso
    perform (.mkdir candidate)
    writeFileSync candidate (process.owner canonicalPath token createdAt)
    match ← (perform (.rename candidate (.lease directory))).attempt with
    | .ok _ => do
      let lease : SessionLease := ⟨canonicalPath, directory, token⟩
      perform (.newSessionLease lease)
      pure lease
    | .error error => do
      rmSync candidate
      if error = .eexist ∨ error = .enotempty then do
        let existingOwner ← perform (.readLeaseOwner (.lease directory))
        if ← ownerAlive existingOwner then
          throw (.sessionAlreadyActive canonicalPath (existingOwner.bind (·.activeSessionId)))
        else do
          let _ ← reclaimStaleLease process.pid directory
          acquire directory canonicalPath attempts
      else throw error

def enabled : Bool :=
  match process.leasesEnabled with
  | some value => value.toLower ∈ ["1", "true", "yes"]
  | none => false

def acquireSessionLease (leaseDirectory : String → String) (sessionPath : Option String) :
    LeaseProgram (Option SessionLease) :=
  match sessionPath with
  | none => pure none
  | some sessionPath =>
    if sessionPath = "" ∨ !process.enabled then pure none
    else do
      let canonicalPath ← perform (.canonicalSessionPath sessionPath)
      let directory := leaseDirectory canonicalPath
      let lease ← withLeaseGuard directory (process.acquire directory canonicalPath 3)
      pure (some lease)

end LeaseProcess

/-- Whatever goes wrong under the guard is swallowed. -/
def SessionLease.release (lease : SessionLease) : LeaseProgram Unit := do
  if ← perform (.markReleased lease) then pure ()
  else do
    let _ ← (withLeaseGuard lease.directory do
      let owner ← perform (.readLeaseOwner (.lease lease.directory))
      if owner.map (·.token) = some lease.token then rmSync (.lease lease.directory)
      else pure ()).attempt
    pure ()

/-! ## The system -/

inductive LeaseRequest where
  | acquire (sessionPath : Option String)
  | release (lease : SessionLease)
  deriving DecidableEq

/-- A call, by one of the processes `π`. -/
structure LeaseCall (π : Type) where
  id : ℕ
  process : π
  request : LeaseRequest
  deriving DecidableEq

structure LeaseWorld (π : Type) where
  dirs : LeasePath → Option LeaseContent := fun _ => none
  guards : String → Option (LeaseCall π) := fun _ => none
  crashed : π → Prop := fun _ => False
  /-- Who `randomUUID` gave a name to. -/
  issued : String → Option (LeaseCall π) := fun _ => none
  /-- The lease objects of a process, and whether they have been released. -/
  leases : π → SessionLease → Option Bool := fun _ _ => none

namespace LeaseWorld

variable {π : Type} [DecidableEq π]

def setDir (w : LeaseWorld π) (path : LeasePath) (content : Option LeaseContent) : LeaseWorld π :=
  { w with dirs := Function.update w.dirs path content }

def setGuard (w : LeaseWorld π) (directory : String) (holder : Option (LeaseCall π)) :
    LeaseWorld π :=
  { w with guards := Function.update w.guards directory holder }

def issue (w : LeaseWorld π) (token : String) (call : LeaseCall π) : LeaseWorld π :=
  { w with issued := Function.update w.issued token (some call) }

def setLease (w : LeaseWorld π) (p : π) (lease : SessionLease) (released : Bool) : LeaseWorld π :=
  { w with
    leases := Function.update w.leases p (Function.update (w.leases p) lease (some released)) }

/-- The owner that can be read. -/
def ownerAt (w : LeaseWorld π) (path : LeasePath) : Option SessionLeaseOwner :=
  match w.dirs path with
  | some (.owned owner) => some owner
  | _ => none

/-- A directory can be renamed onto it. -/
def Vacant (w : LeaseWorld π) (path : LeasePath) : Prop :=
  w.dirs path = none ∨ w.dirs path = some .empty

/-- The process holds the lease and is alive. -/
def Holds (w : LeaseWorld π) (p : π) (lease : SessionLease) : Prop :=
  ¬w.crashed p ∧ w.leases p lease = some false

/-- What an effect of a call can do. -/
def answers (call : LeaseCall π) (w : LeaseWorld π) :
    (op : LeaseOp) → Except LeaseError op.Answer → LeaseWorld π → Prop
  | .canonicalSessionPath _, r, w' => (∃ path, r = .ok path) ∧ w' = w
  | .randomUUID, r, w' => ∃ token, r = .ok token ∧ w.issued token = none ∧ w' = w.issue token call
  | .nowIso, r, w' => (∃ now, r = .ok now) ∧ w' = w
  | .mkdir path, r, w' =>
      (w.dirs path = none ∧ r = .ok () ∧ w' = w.setDir path (some .empty)) ∨
      (w.dirs path ≠ none ∧ r = .error .eexist ∧ w' = w)
  | .createOwner path, r, w' =>
      (w.dirs path ≠ none ∧ r = .ok () ∧ w' = w.setDir path (some .unwritten)) ∨
      (w.dirs path = none ∧ r = .error .enoent ∧ w' = w)
  | .writeOwner path owner, r, w' => r = .ok () ∧
      w' = if (w.dirs path).isSome then w.setDir path (some (.owned owner)) else w
  | .rename source target, r, w' =>
      (w.dirs source = none ∧ r = .error .enoent ∧ w' = w) ∨
      (w.dirs source ≠ none ∧ ¬w.Vacant target ∧
        (r = .error .eexist ∨ r = .error .enotempty) ∧ w' = w) ∨
      (∃ content, w.dirs source = some content ∧ w.Vacant target ∧ r = .ok () ∧
        w' = (w.setDir source none).setDir target (some content))
  | .readLeaseOwner path, r, w' => r = .ok (w.ownerAt path) ∧ w' = w
  | .existsSync path, r, w' => r = .ok (w.dirs path).isSome ∧ w' = w
  | .unlinkOwner path, r, w' => r = .ok () ∧
      w' = if (w.dirs path).isSome then w.setDir path (some .empty) else w
  | .rmdir path, r, w' =>
      (w.Vacant path ∧ r = .ok () ∧ w' = w.setDir path none) ∨
      (¬w.Vacant path ∧ r = .error .enotempty ∧ w' = w)
  | .isLeaseOwnerAlive owner, r, w' => (∃ alive : Bool, r = .ok alive ∧
      ∀ writer, w.issued owner.token = some writer →
        (alive = true ↔ ¬w.crashed writer.process)) ∧ w' = w
  | .lockSync directory, r, w' =>
      ((∀ holder, w.guards directory = some holder → w.crashed holder.process) ∧
        r = .ok () ∧ w' = w.setGuard directory (some call)) ∨
      (w.guards directory ≠ none ∧ r = .error .elocked ∧ w' = w)
  | .unlock directory, r, w' => r = .ok () ∧ w' = w.setGuard directory none
  | .newSessionLease lease, r, w' => r = .ok () ∧ w' = w.setLease call.process lease false
  | .markReleased lease, r, w' => r = .ok (decide (w.leases call.process lease = some true)) ∧
      w' = w.setLease call.process lease true

/-- A process crashes. -/
def Crashes (w w' : LeaseWorld π) : Prop :=
  ∃ p, w' = { w with crashed := fun q => q = p ∨ w.crashed q }

end LeaseWorld

def LeaseRequest.program (leaseDirectory : String → String) (process : LeaseProcess) :
    LeaseRequest → LeaseProgram (Option SessionLease)
  | acquire sessionPath => process.acquireSessionLease leaseDirectory sessionPath
  | release lease => do
    lease.release
    pure none

/-- Processes over one agent directory.  A process releases leases of its own. -/
def leaseSystem {π : Type} [DecidableEq π] (leaseDirectory : String → String)
    (self : π → LeaseProcess) :
    ThreadSystem (LeaseCall π) (LeaseWorld π) LeaseOp LeaseOp.Answer LeaseError
      (Option SessionLease) where
  program call := call.request.program leaseDirectory (self call.process)
  admits call w := match call.request with
    | .acquire _ => True
    | .release lease => w.leases call.process lease ≠ none
  handler call w op r w' := ¬w.crashed call.process ∧ w.answers call op r w'
  environment := LeaseWorld.Crashes

end Amide
