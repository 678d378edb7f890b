import Amide.Construction.Daemon.SnapshotTranscriptCache
import Amide.Framework.JsMap

/-!
# Waiting for the chunks of a transcript (`modes/daemon/snapshot-transcript-cache.ts`)

A snapshot is passed on while it arrives: its chunks are appended to a `SnapshotTranscriptCache`
one by one, and readers wait for the next one until the cache is complete, has failed or is
disposed of.  What the cache stores is in `Construction/Daemon/SnapshotTranscriptCache.lean`; this
is the rest of the class.

A promise is named by its number, and every call that resolves or rejects one is recorded.  So is
every call of `retain`, with the variable of the function that it returns.  File operations
succeed.
-/

namespace Amide

/-- What a promise of `waitForChunk` was resolved or rejected with. -/
inductive ChunkSettlement where
  | resolved (buffer : Option Bytes)
  | rejected (error : String)
  deriving DecidableEq

/-- What an operation throws. -/
inductive SnapshotFault where
  | error (message : String)
  | storage (error : SnapshotTranscriptError)

structure WaitingTranscript where
  cache : SnapshotTranscriptCache := {}
  files : CacheFiles
  completed : Bool := false
  readers : ℤ := 0
  disposeRequested : Bool := false
  disposed : Bool := false
  failure : Option String := none
  chunkWaiters : JsMap ℕ (List ℕ) := .empty
  /-- The index that each promise was made for. -/
  waits : List ℕ := []
  settlements : List (ℕ × ChunkSettlement) := []
  /-- Whether the function that `retain` has returned was called, for each call of `retain`. -/
  released : List Bool := []

namespace WaitingTranscript

variable (options : SnapshotTranscriptOptions)

/-- The constructor, with messages or without. -/
def new (messages : Option (List Json)) (files : CacheFiles) : WaitingTranscript :=
  match messages with
  | none => { files }
  | some messages =>
    let (cache, files) := SnapshotTranscriptCache.new options messages files
    { cache, files, completed := true }

def chunkCount (s : WaitingTranscript) : ℕ := s.cache.chunks.length

def notWritable : String := s!"Snapshot transcript {options.snapshotId} is not writable"

def cannotBeCompleted : String := s!"Snapshot transcript {options.snapshotId} cannot be completed"

def wasDisposed : String := s!"Snapshot transcript {options.snapshotId} was disposed"

def settle (waiters : List ℕ) (settlement : ChunkSettlement) (s : WaitingTranscript) :
    WaitingTranscript :=
  { s with settlements := s.settlements ++ waiters.map fun waiter => (waiter, settlement) }

def storeChunk (buffer : Bytes) (s : WaitingTranscript) :
    Option SnapshotFault × WaitingTranscript :=
  let (cache, files) := SnapshotTranscriptCache.storeChunk options buffer s.cache s.files
  let s := { s with cache, files }
  let index := s.chunkCount - 1
  match s.chunkWaiters.get? index with
  | none => (none, s)
  | some waiters =>
    match s.cache.readChunk s.files index with
    | .error error => (some (.storage error), s)
    | .ok stored =>
      (none, { s.settle waiters (.resolved (some stored)) with
        chunkWaiters := s.chunkWaiters.delete index })

def appendEncodedChunk (buffer : Bytes) (s : WaitingTranscript) :
    Option SnapshotFault × WaitingTranscript :=
  if s.completed || s.failure.isSome || s.disposed then
    (some (.error (notWritable options)), s)
  else s.storeChunk options buffer

/-- The waits for a chunk that will not come. -/
def completeWaiters (s : WaitingTranscript) (entry : ℕ × List ℕ) : WaitingTranscript :=
  if entry.1 < s.chunkCount then s
  else
    { s.settle entry.2 (.resolved none) with chunkWaiters := s.chunkWaiters.delete entry.1 }

def markComplete (s : WaitingTranscript) : Option SnapshotFault × WaitingTranscript :=
  if s.completed then (none, s)
  else if s.failure.isSome || s.disposed then (some (.error (cannotBeCompleted options)), s)
  else (none, s.chunkWaiters.entries.foldl completeWaiters { s with completed := true })

def markFailed (error : String) (s : WaitingTranscript) : WaitingTranscript :=
  if s.failure.isSome then s
  else
    { s.settle s.chunkWaiters.values.flatten (.rejected error) with
      failure := some error
      chunkWaiters := .empty }

/-- A promise that is settled when it is returned. -/
def settledWait (index : ℕ) (settlement : ChunkSettlement) (s : WaitingTranscript) :
    WaitingTranscript :=
  { s.settle [s.waits.length] settlement with waits := s.waits ++ [index] }

def waitForChunk (index : ℕ) (s : WaitingTranscript) : Option SnapshotFault × WaitingTranscript :=
  match s.failure with
  | some error => (none, s.settledWait index (.rejected error))
  | none =>
    if index < s.chunkCount then
      match s.cache.readChunk s.files index with
      | .ok buffer => (none, s.settledWait index (.resolved (some buffer)))
      | .error error => (some (.storage error), s)
    else if s.completed then (none, s.settledWait index (.resolved none))
    else
      let waiters := (s.chunkWaiters.get? index).getD []
      (none, { s with
        waits := s.waits ++ [index]
        chunkWaiters := s.chunkWaiters.set index (waiters ++ [s.waits.length]) })

def removeDirectory (directory : Option String) (files : CacheFiles) : CacheFiles := fun path =>
  if directory = some path.1 then none else files path

def disposeNow (s : WaitingTranscript) : WaitingTranscript :=
  if s.disposed then s
  else
    let s := { s with disposed := true }.markFailed (wasDisposed options)
    { s with
      files := removeDirectory s.cache.cacheDirectory s.files
      cache := { s.cache with chunks := [], cacheDirectory := none } }

def retain (s : WaitingTranscript) : Option SnapshotFault × WaitingTranscript :=
  if s.disposed then (some (.error (wasDisposed options)), s)
  else (none, { s with readers := s.readers + 1, released := s.released ++ [false] })

/-- The function that the `k`-th call of `retain` has returned. -/
def release (k : ℕ) (s : WaitingTranscript) : WaitingTranscript :=
  match s.released[k]? with
  | some false =>
    let s := { s with released := s.released.set k true, readers := s.readers - 1 }
    if s.readers = 0 ∧ s.disposeRequested then s.disposeNow options else s
  | _ => s

def dispose (s : WaitingTranscript) : WaitingTranscript :=
  if s.disposed || s.disposeRequested then s
  else
    let s := { s with disposeRequested := true }
    if s.readers > 0 then s else s.disposeNow options

end WaitingTranscript

/-! ## One operation after another -/

inductive SnapshotOperation
  | appendEncodedChunk (buffer : Bytes)
  | waitForChunk (index : ℕ)
  | markComplete
  | markFailed (error : String)
  | retain
  | release (k : ℕ)
  | dispose

/-- What an operation throws, if it does, and the cache it leaves. -/
def SnapshotOperation.outcome (options : SnapshotTranscriptOptions) (operation : SnapshotOperation)
    (s : WaitingTranscript) : Option SnapshotFault × WaitingTranscript :=
  match operation with
  | appendEncodedChunk buffer => s.appendEncodedChunk options buffer
  | waitForChunk index => s.waitForChunk index
  | markComplete => s.markComplete options
  | markFailed error => (none, s.markFailed error)
  | retain => s.retain options
  | release k => (none, s.release options k)
  | dispose => (none, s.dispose options)

end Amide
