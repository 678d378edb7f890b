import Amide.Framework.JsonCodec

/-!
# Transcripts of snapshots (`modes/daemon/snapshot-transcript-cache.ts`)

The transcript of a session snapshot is sent in chunks, each a line of JSON with as many messages
as fit in `targetChunkBytes`, or one that does not.  `createSnapshotTranscriptChunks` makes the
chunks one at a time; a `SnapshotTranscriptCache` encodes the same messages itself and keeps the
chunks, in memory until they take more than `memoryCacheBytes` and in files from then on.

Messages are JSON values, and the file operations succeed.  Aborting the first, and appending to,
waiting for or disposing of the second, are left out.
-/

namespace Amide

open Json (utf8 stringifyString)

abbrev Bytes := List UInt8

/-- `targetChunkBytes` and `memoryCacheBytes` need not be whole. -/
structure SnapshotTranscriptOptions where
  activeSessionId : String
  snapshotId : String
  cacheRoot : String := ""
  targetChunkBytes : ℚ := 512 * 1024
  memoryCacheBytes : ℚ := 4 * 1024 * 1024

namespace SnapshotTranscriptOptions

variable (options : SnapshotTranscriptOptions)

/-! ## Chunks -/

/-- What both encoders write at a flush. -/
def chunkLine (index : ℕ) (serializedMessages : List Bytes) : Bytes :=
  utf8 "\x7b\"type\":\"session_snapshot_chunk\",\"activeSessionId\":" ++
    stringifyString options.activeSessionId ++ utf8 ",\"snapshotId\":" ++
    stringifyString options.snapshotId ++ utf8 ",\"index\":" ++ Json.natText index ++
    utf8 ",\"messages\":[" ++ [44].intercalate serializedMessages ++ utf8 "]\x7d\n"

/-- The messages since the last flush, and the size they are reckoned at. -/
structure Pending where
  serializedMessages : List Bytes := []
  serializedBytes : ℕ := 0

/-- With the comma there is before a message that is not the first. -/
def Pending.bytesOf (pending : Pending) (serialized : Bytes) : ℕ :=
  serialized.length + if pending.serializedMessages.length > 0 then 1 else 0

/-- The message goes to another chunk. -/
def exceeds (pending : Pending) (bytes : ℕ) : Bool :=
  pending.serializedMessages.length > 0 &&
    ((pending.serializedBytes + bytes : ℕ) : ℚ) > options.targetChunkBytes

def Pending.push (pending : Pending) (serialized : Bytes) (bytes : ℕ) : Pending where
  serializedMessages := pending.serializedMessages ++ [serialized]
  serializedBytes := pending.serializedBytes + bytes

/-- The rest of the iterator of `createSnapshotTranscriptChunks`. -/
def chunksFrom (index : ℕ) (pending : Pending) : List Json → List Bytes
  | [] =>
    if pending.serializedMessages.length = 0 then []
    else [options.chunkLine index pending.serializedMessages]
  | message :: messages =>
    let serialized := message.stringify
    let bytes := pending.bytesOf serialized
    if options.exceeds pending bytes then
      options.chunkLine index pending.serializedMessages ::
        chunksFrom (index + 1) (Pending.push {} serialized bytes) messages
    else chunksFrom index (pending.push serialized bytes) messages

def createSnapshotTranscriptChunks (messages : List Json) : List Bytes :=
  options.chunksFrom 0 {} messages

end SnapshotTranscriptOptions

/-! ## The cache -/

/-- A directory and a name in it. -/
abbrev CachePath := String × Bytes

abbrev CacheFiles := CachePath → Option Bytes

structure SnapshotTranscriptChunk where
  buffer : Option Bytes := none
  path : Option CachePath := none

inductive SnapshotTranscriptError where
  | unknownChunk (index : ℕ)
  | noBackingStorage (index : ℕ)
  | enoent (path : CachePath)

structure SnapshotTranscriptCache where
  chunks : List SnapshotTranscriptChunk := []
  cacheDirectory : Option String := none
  totalBytes : ℕ := 0

/-- The file of a chunk. -/
def chunkPath (directory : String) (index : ℕ) : CachePath :=
  (directory, Json.natText index ++ utf8 ".jsonl")

/-- `replaceAll(/[^a-zA-Z0-9_-]/g, "_")`, which replaces code units. -/
def sanitizedSnapshotId (snapshotId : String) : String :=
  String.ofList (snapshotId.toList.flatMap fun c =>
    if c.isAlphanum || c = '_' || c = '-' then [c]
    else if c.val < 0x10000 then ['_'] else ['_', '_'])

namespace SnapshotTranscriptCache

variable (options : SnapshotTranscriptOptions)

/-- The chunks that are still in memory are written to files, from `index` on. -/
def spill (directory : String) (index : ℕ) :
    List SnapshotTranscriptChunk → CacheFiles → List SnapshotTranscriptChunk × CacheFiles
  | [], files => ([], files)
  | existing :: rest, files =>
    match existing.buffer with
    | none =>
      let spilled := spill directory (index + 1) rest files
      (existing :: spilled.1, spilled.2)
    | some buffer =>
      let path := chunkPath directory index
      let spilled := spill directory (index + 1) rest (Function.update files path (some buffer))
      ({ path := some path } :: spilled.1, spilled.2)

/-- The cache leaves memory when it has grown too large. -/
def relocate (cache : SnapshotTranscriptCache) (files : CacheFiles) :
    SnapshotTranscriptCache × CacheFiles :=
  if cache.cacheDirectory.isNone ∧ (cache.totalBytes : ℚ) > options.memoryCacheBytes then
    let directory := options.cacheRoot ++ "/" ++ sanitizedSnapshotId options.snapshotId
    let spilled := spill directory 0 cache.chunks files
    ({ cache with cacheDirectory := some directory, chunks := spilled.1 }, spilled.2)
  else (cache, files)

def storeChunk (buffer : Bytes) (cache : SnapshotTranscriptCache) (files : CacheFiles) :
    SnapshotTranscriptCache × CacheFiles :=
  let (cache, files) :=
    relocate options { cache with totalBytes := cache.totalBytes + buffer.length } files
  match cache.cacheDirectory with
  | some directory =>
    let path := chunkPath directory cache.chunks.length
    ({ cache with chunks := cache.chunks ++ [{ path := some path }] },
      Function.update files path (some buffer))
  | none => ({ cache with chunks := cache.chunks ++ [{ buffer := some buffer }] }, files)

def flush (pending : SnapshotTranscriptOptions.Pending) (cache : SnapshotTranscriptCache)
    (files : CacheFiles) : SnapshotTranscriptCache × CacheFiles :=
  if pending.serializedMessages.length = 0 then (cache, files)
  else
    storeChunk options (options.chunkLine cache.chunks.length pending.serializedMessages) cache
      files

/-- The rest of the loop of `encodeMessages`. -/
def encodeFrom (pending : SnapshotTranscriptOptions.Pending) (cache : SnapshotTranscriptCache)
    (files : CacheFiles) : List Json → SnapshotTranscriptCache × CacheFiles
  | [] => flush options pending cache files
  | message :: messages =>
    let serialized := message.stringify
    let bytes := pending.bytesOf serialized
    if options.exceeds pending bytes then
      let (cache, files) := flush options pending cache files
      encodeFrom (.push {} serialized bytes) cache files messages
    else encodeFrom (pending.push serialized bytes) cache files messages

/-- The constructor, on given messages. -/
def new (messages : List Json) (files : CacheFiles) : SnapshotTranscriptCache × CacheFiles :=
  encodeFrom options {} {} files messages

def readChunk (cache : SnapshotTranscriptCache) (files : CacheFiles) (index : ℕ) :
    Except SnapshotTranscriptError Bytes :=
  match cache.chunks[index]? with
  | none => .error (.unknownChunk index)
  | some { buffer := some buffer, .. } => .ok buffer
  | some { buffer := none, path := none } => .error (.noBackingStorage index)
  | some { buffer := none, path := some path } =>
    match files path with
    | some buffer => .ok buffer
    | none => .error (.enoent path)

/-- All that the iterator yields. -/
def iterate (cache : SnapshotTranscriptCache) (files : CacheFiles) :
    Except SnapshotTranscriptError (List Bytes) :=
  (List.range cache.chunks.length).mapM (cache.readChunk files)

end SnapshotTranscriptCache

end Amide
