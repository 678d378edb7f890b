import Amide.Construction.Daemon.SnapshotTranscriptCache
import Amide.Framework.Fallible

/-!
# Chunks carry the transcript

Every chunk is the line of one JSON object (`chunkLine_eq`).  Both encoders cut the messages into
the same groups, each within the target or of one message (`exists_chunksFrom`), and what a cache
has stored reads back the same from memory and from files (`Stored`).
-/

namespace Amide

open List

open Json (utf8 stringify stringifyElems stringifyElemsTail stringifyString)

variable {line : Bytes}
variable (index : ℕ)

namespace SnapshotTranscriptOptions

variable {options : SnapshotTranscriptOptions}

/-! ## The line of a chunk -/

/-- The object that a chunk is. -/
def chunkJson (options : SnapshotTranscriptOptions) (index : ℕ) (messages : List Json) : Json :=
  .obj [("type", .str "session_snapshot_chunk"), ("activeSessionId", .str options.activeSessionId),
    ("snapshotId", .str options.snapshotId), ("index", toJson index), ("messages", .arr messages)]

variable (messages : List Json)

lemma intercalate_map_stringify :
    [44].intercalate (messages.map stringify) = stringifyElems messages := by
  induction messages with
  | nil => rfl
  | cons message messages ih =>
    cases messages with
    | nil => simp [stringifyElems, stringifyElemsTail]
    | cons next rest =>
      have hrest : [44].intercalate (stringify next :: rest.map stringify) =
        stringify next ++ stringifyElemsTail rest := ih
      rw [map_cons, map_cons, intercalate_cons_cons, hrest]
      simp [stringifyElems, stringifyElemsTail]

lemma chunkLine_eq (messages : List Json) : options.chunkLine index (messages.map stringify) =
      (options.chunkJson index messages).stringify ++ [10] := by
  have htype : utf8 "\x7b\"type\":\"session_snapshot_chunk\",\"activeSessionId\":" =
      123 :: (stringifyString "type" ++ 58 :: (stringifyString "session_snapshot_chunk" ++
        44 :: (stringifyString "activeSessionId" ++ [58]))) := by decide +kernel
  have hsnap : utf8 ",\"snapshotId\":" = 44 :: (stringifyString "snapshotId" ++ [58]) := by
    decide +kernel
  have hidx : utf8 ",\"index\":" = 44 :: (stringifyString "index" ++ [58]) := by decide +kernel
  have hmsgs : utf8 ",\"messages\":[" = 44 :: (stringifyString "messages" ++ [58, 91]) := by
    decide +kernel
  have hend : utf8 "]\x7d\n" = [93, 125, 10] := by decide +kernel
  rw [chunkLine, htype, hsnap, hidx, hmsgs, hend, intercalate_map_stringify]
  simp [chunkJson, toJson, NumLit.ofNat, Json.stringify, Json.stringifyFields,
    Json.stringifyFieldsTail]

/-- The messages of a chunk that a reader gets. -/
def chunkMessages (line : Bytes) : Option (List Json) :=
  (Json.parse line).bind fun chunk => chunk.field "messages"

def chunkIndex (line : Bytes) : Option ℕ :=
  (Json.parse line).bind fun chunk => chunk.field "index"

lemma chunkMessages_chunkLine (messages : List Json) :
    chunkMessages (options.chunkLine index (messages.map stringify)) = some messages := by
  have hread : ofJson (toJson messages) = some messages := JsonCodec.ofJson_toJson messages
  have hlist : toJson messages = .arr messages := congrArg Json.arr (map_id messages)
  rw [hlist] at hread
  rw [chunkMessages, chunkLine_eq, Json.parse_stringify_lf]
  simpa [chunkJson, Json.field] using hread

lemma chunkIndex_chunkLine (messages : List Json) :
    chunkIndex (options.chunkLine index (messages.map stringify)) = some index := by
  rw [chunkIndex, chunkLine_eq, Json.parse_stringify_lf]
  simp [chunkJson, Json.field]

/-! ## Where the chunks are cut -/

/-- The messages of one chunk are within the target, or one message. -/
def Fits (options : SnapshotTranscriptOptions) (messages : List Json) : Prop :=
  ((stringifyElems messages).length : ℚ) ≤ options.targetChunkBytes ∨ messages.length = 1

/-- The messages that wait for the next flush.  Their size may be taken for one byte more than it
is, for a comma before the first of them. -/
structure Pends (options : SnapshotTranscriptOptions) (messages : List Json) (pending : Pending) :
    Prop where
  serializedMessages : pending.serializedMessages = messages.map stringify
  length_le : (stringifyElems messages).length ≤ pending.serializedBytes
  fits : messages.length ≤ 1 ∨ (pending.serializedBytes : ℚ) ≤ options.targetChunkBytes

lemma stringifyElemsTail_append (message : Json) : stringifyElemsTail (messages ++ [message]) =
      stringifyElemsTail messages ++ 44 :: message.stringify := by
  induction messages with
  | nil => simp [stringifyElemsTail]
  | cons first rest ih => simp [stringifyElemsTail, ih]

lemma length_stringifyElems_append (message : Json) :
    (stringifyElems (messages ++ [message])).length = (stringifyElems messages).length +
      (message.stringify.length + if messages.length > 0 then 1 else 0) := by
  cases messages with
  | nil => simp [stringifyElems, stringifyElemsTail]
  | cons first rest =>
    rw [cons_append, stringifyElems, stringifyElems, stringifyElemsTail_append]
    simp
    omega

lemma pends_nil : Pends options [] {} := ⟨rfl, le_rfl, .inl (Nat.zero_le 1)⟩

/-- A message that begins a chunk may be larger than the target. -/
lemma pends_singleton (message : Json) {bytes : ℕ} (h : message.stringify.length ≤ bytes) :
    Pends options [message] (.push {} message.stringify bytes) where
  serializedMessages := rfl
  length_le := by simpa [stringifyElems, stringifyElemsTail, Pending.push] using h
  fits := .inl le_rfl

variable {group : List Json} {pending : Pending}

lemma Pends.push (hpends : Pends options group pending) {message : Json}
    (hroom : options.exceeds pending (pending.bytesOf message.stringify) = false) :
    Pends options (group ++ [message])
      (pending.push message.stringify (pending.bytesOf message.stringify)) where
  serializedMessages := by
    rw [map_append, ← hpends.serializedMessages]
    rfl
  length_le := by
    have hlen := hpends.length_le
    rw [length_stringifyElems_append]
    simp only [Pending.push, Pending.bytesOf, hpends.serializedMessages, length_map]
    omega
  fits := by
    simp only [exceeds, hpends.serializedMessages, length_map, gt_iff_lt,
        Bool.and_eq_false_iff,
      decide_eq_false_iff_not, not_lt] at hroom
    refine hroom.imp (fun hempty => ?_) fun hle => hle
    rw [length_append, length_singleton]
    omega

lemma Pends.fits_group (hpends : Pends options group pending) (hne : group ≠ []) :
    options.Fits group := by
  have hpos := length_pos_iff.2 hne
  refine hpends.fits.symm.imp (fun hle => ?_) fun hone => by omega
  have hlen : ((stringifyElems group).length : ℚ) ≤ pending.serializedBytes := by
    exact_mod_cast hpends.length_le
  exact hlen.trans hle

/-- The chunks of groups of messages, counted from `index` on. -/
def linesFrom (options : SnapshotTranscriptOptions) (index : ℕ) : List (List Json) → List Bytes
  | [] => []
  | group :: groups =>
    options.chunkLine index (group.map stringify) :: linesFrom options (index + 1) groups

/-- What the encoder cuts off, together with what waits, is the messages. -/
theorem exists_chunksFrom (hpends : Pends options group pending) (messages : List Json)
    (index : ℕ) :
    ∃ groups, options.chunksFrom index pending messages = options.linesFrom index groups ∧
      groups.flatten = group ++ messages ∧ ∀ cut ∈ groups, options.Fits cut := by
  induction messages generalizing group pending index with
  | nil =>
    rcases eq_or_ne group [] with rfl | hne
    · refine ⟨[], ?_, rfl, nofun⟩
      rw [chunksFrom, hpends.serializedMessages]
      rfl
    · refine ⟨[group], ?_, by simp, by simpa using hpends.fits_group hne⟩
      rw [chunksFrom, hpends.serializedMessages, length_map, if_neg (length_pos_iff.2 hne).ne']
      rfl
  | cons message messages ih =>
    rcases hexceeds : options.exceeds pending (pending.bytesOf message.stringify) with _ | _
    · obtain ⟨groups, hlines, hflat, hfits⟩ := ih (hpends.push hexceeds) index
      refine ⟨groups, ?_, by simpa using hflat, hfits⟩
      rw [chunksFrom, hexceeds]
      exact hlines
    · -- a flush: the message begins the next chunk, reckoned with the comma of the last one
      have hne : group ≠ [] := by
        rintro rfl
        simp [exceeds, hpends.serializedMessages] at hexceeds
      obtain ⟨groups, hlines, hflat, hfits⟩ := ih
        (pends_singleton message (Nat.le_add_right _ _ :
          message.stringify.length ≤ pending.bytesOf message.stringify)) (index + 1)
      refine ⟨group :: groups, ?_, by simpa using hflat,
        forall_mem_cons.2 ⟨hpends.fits_group hne, hfits⟩⟩
      rw [chunksFrom, hexceeds, linesFrom, ← hlines, ← hpends.serializedMessages]
      rfl

variable {index : ℕ} {groups : List (List Json)}

lemma mapM_chunkMessages_linesFrom :
    (options.linesFrom index groups).mapM chunkMessages = some groups := by
  induction groups generalizing index with
  | nil => rfl
  | cons group groups ih => simp [linesFrom, chunkMessages_chunkLine, ih]

lemma mapM_chunkIndex_linesFrom : (options.linesFrom index groups).mapM chunkIndex =
    some (range' index (options.linesFrom index groups).length) := by
  induction groups generalizing index with
  | nil => rfl
  | cons group groups ih => simp [linesFrom, chunkIndex_chunkLine, ih, range'_succ]

lemma exists_of_mem_linesFrom (h : line ∈ options.linesFrom index groups) :
    ∃ group ∈ groups, chunkMessages line = some group := by
  induction groups generalizing index with
  | nil => cases h
  | cons group groups ih =>
    rcases mem_cons.1 h with rfl | h
    · exact ⟨group, mem_cons_self, chunkMessages_chunkLine index group⟩
    · obtain ⟨group', hmem, hread⟩ := ih h
      exact ⟨group', mem_cons_of_mem _ hmem, hread⟩

end SnapshotTranscriptOptions

/-! ## What a cache has stored -/

namespace SnapshotTranscriptCache

variable {options : SnapshotTranscriptOptions} {cache : SnapshotTranscriptCache}
  {files : CacheFiles} {lines : List Bytes} {directory : String}

lemma index_of_chunkPath {d : String} {i j : ℕ} (h : chunkPath d i = chunkPath directory j) :
    i = j := by
  have htext : Json.natText i = Json.natText j := append_cancel_right (Prod.ext_iff.1 h).2
  have hsome := Json.textNat_natText i
  rw [htext, Json.textNat_natText] at hsome
  exact (Option.some.inj hsome).symm

/-- The chunk holds the line, in memory or in its file. -/
inductive Backed (directory : Option String) (files : CacheFiles) (index : ℕ) (line : Bytes) :
    SnapshotTranscriptChunk → Prop
  | memory : directory = none → Backed directory files index line { buffer := some line }
  | disk {d : String} : directory = some d → files (chunkPath d index) = some line →
    Backed directory files index line { path := some (chunkPath d index) }

/-- The chunks of the cache hold the lines. -/
structure Stored (cache : SnapshotTranscriptCache) (files : CacheFiles) (lines : List Bytes) :
    Prop where
  length_eq : cache.chunks.length = lines.length
  backed : ∀ {i line}, lines[i]? = some line → ∃ chunk, cache.chunks[i]? = some chunk ∧
    Backed cache.cacheDirectory files i line chunk

lemma length_spill (chunks : List SnapshotTranscriptChunk) (files : CacheFiles) :
    (spill directory index chunks files).1.length = chunks.length := by
  induction chunks generalizing index files with
  | nil => rfl
  | cons existing rest ih =>
    rw [spill]
    rcases existing.buffer with _ | buffer
    · simp [ih]
    · simp [ih]

/-- Files in front of those that are written stay what they are. -/
lemma spill_of_lt {i index : ℕ} (hlt : i < index) (chunks : List SnapshotTranscriptChunk)
    (files : CacheFiles) :
    (spill directory index chunks files).2 (chunkPath directory i) =
      files (chunkPath directory i) := by
  induction chunks generalizing index files with
  | nil => rfl
  | cons existing rest ih =>
    rw [spill]
    rcases existing.buffer with _ | buffer
    · exact ih (by omega) files
    · refine (ih (by omega) _).trans (Function.update_of_ne ?_ _ _)
      exact fun h => hlt.ne (index_of_chunkPath h)

lemma getElem?_spill {chunks : List SnapshotTranscriptChunk} {i : ℕ}
    (hmemory : chunks[i]? = some { buffer := some line }) (index : ℕ) (files : CacheFiles) :
    (spill directory index chunks files).1[i]? =
        some { path := some (chunkPath directory (index + i)) } ∧
      (spill directory index chunks files).2 (chunkPath directory (index + i)) = some line := by
  induction chunks generalizing i index files with
  | nil => cases hmemory
  | cons existing rest ih =>
    rcases i with _ | i
    · cases hmemory
      refine ⟨rfl, (spill_of_lt (Nat.lt_succ_self index) rest _).trans ?_⟩
      exact Function.update_self ..
    · have hidx : index + 1 + i = index + (i + 1) := by omega
      rw [spill]
      rcases existing.buffer with _ | buffer
      · simpa [hidx] using ih hmemory (index + 1) files
      · simpa [hidx] using ih hmemory (index + 1) _

lemma Stored.relocate (hstored : Stored cache files lines)
    (options : SnapshotTranscriptOptions) :
    Stored (cache.relocate options files).1 (cache.relocate options files).2 lines := by
  rw [SnapshotTranscriptCache.relocate]
  split_ifs with hfull
  · refine ⟨(length_spill 0 cache.chunks files).trans hstored.length_eq, fun {i line} hline => ?_⟩
    obtain ⟨chunk, hchunk, hbacked⟩ := hstored.backed hline
    cases hbacked with
    | memory _ =>
      obtain ⟨hpath, hfile⟩ := getElem?_spill hchunk 0 files
      rw [zero_add] at hpath hfile
      exact ⟨_, hpath, .disk rfl hfile⟩
    | disk hdir _ =>
      rw [hdir] at hfull
      exact absurd hfull.1 Bool.false_ne_true
  · exact hstored

lemma Stored.concat (hstored : Stored cache files lines) {files' : CacheFiles}
    (hfiles : ∀ d, ∀ i < cache.chunks.length, files' (chunkPath d i) = files (chunkPath d i))
    {chunk : SnapshotTranscriptChunk}
    (hlast : Backed cache.cacheDirectory files' cache.chunks.length line chunk) :
    Stored { cache with chunks := cache.chunks ++ [chunk] } files' (lines ++ [line]) := by
  have hlen := hstored.length_eq
  refine ⟨by simp [hlen], fun {i line'} hline => ?_⟩
  rcases lt_or_ge i lines.length with hlt | hge
  · rw [getElem?_append_left hlt] at hline
    obtain ⟨chunk', hchunk, hbacked⟩ := hstored.backed hline
    refine ⟨chunk', (getElem?_append_left (hlen ▸ hlt)).trans hchunk, ?_⟩
    cases hbacked with
    | memory hnone => exact .memory hnone
    | disk hdir hfile => exact .disk hdir ((hfiles _ i (hlen ▸ hlt)).trans hfile)
  · rw [getElem?_append_right hge, getElem?_singleton] at hline
    split_ifs at hline with hlast'
    cases hline
    obtain rfl : i = cache.chunks.length := by omega
    exact ⟨chunk, getElem?_concat_length, hlast⟩

/-- A chunk goes where the others are. -/
lemma Stored.storeChunk (hstored : Stored cache files lines) (buffer : Bytes) :
    Stored (storeChunk options buffer cache files).1 (storeChunk options buffer cache files).2
      (lines ++ [buffer]) := by
  have hgrown : Stored { cache with totalBytes := cache.totalBytes + buffer.length } files lines :=
    ⟨hstored.length_eq, hstored.backed⟩
  have hmoved := hgrown.relocate options
  rw [SnapshotTranscriptCache.storeChunk]
  generalize SnapshotTranscriptCache.relocate options _ files = moved at hmoved
  obtain ⟨⟨chunks, _ | directory, totalBytes⟩, files⟩ := moved
  · exact hmoved.concat (fun _ _ _ => rfl) (.memory rfl)
  · refine hmoved.concat (fun d i hi => Function.update_of_ne ?_ _ _)
      (.disk rfl (Function.update_self ..))
    exact fun h => hi.ne (index_of_chunkPath h)

/-- Chunks that are stored one after another. -/
def storeChunks (options : SnapshotTranscriptOptions) (cache : SnapshotTranscriptCache)
    (files : CacheFiles) : List Bytes → SnapshotTranscriptCache × CacheFiles
  | [] => (cache, files)
  | buffer :: buffers =>
    let stored := storeChunk options buffer cache files
    storeChunks options stored.1 stored.2 buffers

lemma Stored.storeChunks (hstored : Stored cache files lines) (buffers : List Bytes) :
    Stored (storeChunks options cache files buffers).1 (storeChunks options cache files buffers).2
      (lines ++ buffers) := by
  induction buffers generalizing cache files lines with
  | nil =>
    rw [append_nil]
    exact hstored
  | cons buffer buffers ih =>
    rw [append_cons]
    exact ih (hstored.storeChunk buffer)

/-- A cache yields the lines that it has stored, wherever they are. -/
theorem Stored.iterate_eq (hstored : Stored cache files lines) :
    cache.iterate files = .ok lines := by
  rw [iterate, Except.mapM_eq_ok_iff, forall₂_iff_get]
  refine ⟨by simp [hstored.length_eq], fun i hi hi' => ?_⟩
  obtain ⟨chunk, hchunk, hbacked⟩ := hstored.backed (getElem?_eq_getElem hi')
  cases hbacked with
  | memory _ => simp [readChunk, hchunk]
  | disk _ hfile => simp [readChunk, hchunk, hfile]

lemma length_relocate (options : SnapshotTranscriptOptions) (cache : SnapshotTranscriptCache)
    (files : CacheFiles) :
    (relocate options cache files).1.chunks.length = cache.chunks.length := by
  rw [relocate]
  split_ifs with hfull
  · exact length_spill 0 cache.chunks files
  · rfl

lemma length_storeChunk (buffer : Bytes) (cache : SnapshotTranscriptCache) (files : CacheFiles) :
    (storeChunk options buffer cache files).1.chunks.length = cache.chunks.length + 1 := by
  have hmoved := length_relocate options
    { cache with totalBytes := cache.totalBytes + buffer.length } files
  rw [storeChunk]
  generalize relocate options _ files = moved at hmoved
  obtain ⟨⟨chunks, _ | directory, totalBytes⟩, files⟩ := moved
  · simpa using hmoved
  · simpa using hmoved

/-- The encoder of the cache stores what the other one yields. -/
theorem encodeFrom_eq (pending : SnapshotTranscriptOptions.Pending)
    (cache : SnapshotTranscriptCache) (files : CacheFiles) (messages : List Json) :
    encodeFrom options pending cache files messages =
      storeChunks options cache files
        (options.chunksFrom cache.chunks.length pending messages) := by
  induction messages generalizing pending cache files with
  | nil =>
    rw [encodeFrom, flush, SnapshotTranscriptOptions.chunksFrom]
    split_ifs with hempty
    · rfl
    · rfl
  | cons message messages ih =>
    rw [encodeFrom, SnapshotTranscriptOptions.chunksFrom]
    rcases hexceeds : options.exceeds pending (pending.bytesOf message.stringify) with _ | _
    · exact ih _ cache files
    · have hne : pending.serializedMessages.length ≠ 0 := by
        intro hempty
        simp [SnapshotTranscriptOptions.exceeds, hempty] at hexceeds
      simp only [if_true, flush, if_neg hne]
      rw [ih, length_storeChunk, storeChunks]

end SnapshotTranscriptCache

/-! ## The transcript -/

open SnapshotTranscriptOptions in
/-- The chunks give back the messages in order, and a cache of the messages yields the same chunks
whatever its memory limit; the indices count from zero, and a chunk is within the target or of one
message. -/
theorem transcript_chunks (options : SnapshotTranscriptOptions) (messages : List Json) :
    let chunks := options.createSnapshotTranscriptChunks messages
    (chunks.mapM chunkMessages).map List.flatten = some messages ∧
      (∀ files, (SnapshotTranscriptCache.new options messages files).1.iterate
        (SnapshotTranscriptCache.new options messages files).2 = .ok chunks) ∧
      chunks.mapM chunkIndex = some (List.range chunks.length) ∧
      ∀ line ∈ chunks, ∃ group, chunkMessages line = some group ∧ options.Fits group := by
  obtain ⟨groups, hlines, hflatten, hfits⟩ :=
    exists_chunksFrom (pends_nil : Pends options [] {}) messages 0
  have hchunks : options.createSnapshotTranscriptChunks messages = options.linesFrom 0 groups :=
    hlines
  refine ⟨?_, fun files => ?_, ?_, fun line hline => ?_⟩
  · rw [hchunks, mapM_chunkMessages_linesFrom, Option.map_some, hflatten, nil_append]
  · have hempty : SnapshotTranscriptCache.Stored {} files [] := ⟨rfl, nofun⟩
    rw [SnapshotTranscriptCache.new, SnapshotTranscriptCache.encodeFrom_eq]
    exact (hempty.storeChunks _).iterate_eq
  · rw [hchunks, mapM_chunkIndex_linesFrom, range_eq_range']
  · rw [hchunks] at hline
    obtain ⟨group, hgroup, hread⟩ := exists_of_mem_linesFrom hline
    exact ⟨group, hread, hfits group hgroup⟩

end Amide
