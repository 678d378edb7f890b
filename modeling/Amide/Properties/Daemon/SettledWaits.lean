import Amide.Construction.Daemon.SnapshotWaits
import Amide.Framework.Machine
import Amide.Framework.Positions
import Amide.Properties.Daemon.TranscriptChunks

/-!
# Every wait for a chunk is settled

The waiters of a cache are the promises that are not settled, each under the index it waits for
(`Registered`), and while there are any the cache is open and has no chunk at that index (`Kept`).
So the first operation that stores the chunk, completes the cache or makes it fail settles the wait
(`waits_settle`), and no other does.
-/

namespace Amide

open Positions SnapshotTranscriptCache List

namespace WaitingTranscript

/-! ## What is claimed -/

/-- The promise was resolved or rejected. -/
def Settled (s : WaitingTranscript) (wait : ℕ) : Prop := wait ∈ s.settlements.map Prod.fst

/-- Chunks can still be appended. -/
structure Open (s : WaitingTranscript) : Prop where
  completed : s.completed = false
  failure : s.failure = none
  disposed : s.disposed = false

/-- What an operation, from one cache to the other, decides of a wait for a chunk: it stores the
chunk, completes the cache with no more chunks than that, or makes it fail. -/
inductive Decides (index : ℕ) (s : WaitingTranscript) :
    SnapshotOperation → WaitingTranscript → ChunkSettlement → Prop
  | stored {buffer : Bytes} {s' : WaitingTranscript} (hcount : s.chunkCount = index)
      (hcount' : s'.chunkCount = index + 1)
      (hread : s'.cache.readChunk s'.files index = .ok buffer) :
      Decides index s (.appendEncodedChunk buffer) s' (.resolved (some buffer))
  | completed {s' : WaitingTranscript} (hcount : s.chunkCount ≤ index)
      (hbefore : s.completed = false) (hafter : s'.completed = true) :
      Decides index s .markComplete s' (.resolved none)
  | failed {operation : SnapshotOperation} {s' : WaitingTranscript} {error : String}
      (hbefore : s.failure = none) (hafter : s'.failure = some error) :
      Decides index s operation s' (.rejected error)

/-- What a wait for a chunk is settled with when it is made. -/
inductive AtOnce (index : ℕ) (s : WaitingTranscript) : ChunkSettlement → Prop
  | failed {error : String} (hfailure : s.failure = some error) : AtOnce index s (.rejected error)
  | stored {buffer : Bytes} (hfailure : s.failure = none)
      (hread : s.cache.readChunk s.files index = .ok buffer) :
      AtOnce index s (.resolved (some buffer))
  | completed (hfailure : s.failure = none) (hcompleted : s.completed = true)
      (hcount : s.chunkCount ≤ index) : AtOnce index s (.resolved none)

end WaitingTranscript

variable {wait index : ℕ}

section Waits

variable {options : SnapshotTranscriptOptions}

/-- The caches that operations can make of one. -/
def transcriptMachine (options : SnapshotTranscriptOptions) :
    Machine WaitingTranscript SnapshotOperation where
  step s operation s' := s' = (operation.outcome options s).2

/-! ## Waiters -/

/-- The waiters under an index. -/
def waitersAt (waiters : JsMap ℕ (List ℕ)) (index : ℕ) : List ℕ := (waiters.get? index).getD []

/-- The waiters under each index are the promises for it that are not settled. -/
structure Registered (waiters : JsMap ℕ (List ℕ)) (waits : List ℕ)
    (settlements : List (ℕ × ChunkSettlement)) : Prop where
  pending : ∀ index wait, wait ∈ waitersAt waiters index ↔
    waits[wait]? = some index ∧ wait ∉ settlements.map Prod.fst
  distinct : ∀ index, (waitersAt waiters index).Nodup
  once : (settlements.map Prod.fst).Nodup
  known : ∀ wait ∈ settlements.map Prod.fst, wait < waits.length

namespace Registered

variable {waiters : JsMap ℕ (List ℕ)} {waits : List ℕ}
  {settlements : List (ℕ × ChunkSettlement)}

lemma settled_map (ws : List ℕ) (settlement : ChunkSettlement) :
    (settlements ++ ws.map fun wait => (wait, settlement)).map Prod.fst =
      settlements.map Prod.fst ++ ws := by
  rw [map_append, map_map]
  congr 1
  exact map_id ws

/-- The waiters of one index are settled. -/
lemma settleOne (h : Registered waiters waits settlements) (index : ℕ)
    (settlement : ChunkSettlement) :
    Registered (waiters.delete index) waits
      (settlements ++ (waitersAt waiters index).map fun wait => (wait, settlement)) where
  pending index' wait := by
    rw [settled_map, mem_append, not_or, waitersAt, JsMap.get?_delete]
    split_ifs with hsame
    · rw [← hsame]
      refine ⟨fun hmem => absurd hmem not_mem_nil, fun h' => ?_⟩
      exact absurd ((h.pending index wait).mpr ⟨h'.1, h'.2.1⟩) h'.2.2
    · rw [← waitersAt, h.pending index' wait]
      refine ⟨?_, fun h' => ⟨h'.1, h'.2.1⟩⟩
      rintro ⟨hwait, hnot⟩
      refine ⟨hwait, hnot, fun hmem => ?_⟩
      have hidx := ((h.pending index wait).mp hmem).1
      rw [hwait] at hidx
      exact hsame (Option.some.inj hidx).symm
  distinct index' := by
    rw [waitersAt, JsMap.get?_delete]
    split_ifs
    · exact .nil
    · exact h.distinct index'
  once := by
    rw [settled_map, nodup_append]
    refine ⟨h.once, h.distinct index, fun wait hsettled wait' hmem => ?_⟩
    rintro rfl
    exact ((h.pending index wait).mp hmem).2 hsettled
  known wait := by
    rw [settled_map, mem_append]
    rintro (hsettled | hmem)
    · exact h.known wait hsettled
    · exact (List.getElem?_eq_some_iff.mp ((h.pending index wait).mp hmem).1).1

lemma mem_flatten_iff :
    wait ∈ waiters.values.flatten ↔ ∃ index, wait ∈ waitersAt waiters index := by
  rw [mem_flatten]
  constructor
  · rintro ⟨ws, hws, hwait⟩
    obtain ⟨index, hidx⟩ := JsMap.mem_values_iff.mp hws
    refine ⟨index, ?_⟩
    rwa [waitersAt, hidx]
  · rintro ⟨index, hwait⟩
    rw [waitersAt] at hwait
    cases hidx : waiters.get? index with
    | none =>
      rw [hidx] at hwait
      cases hwait
    | some ws =>
      rw [hidx] at hwait
      exact ⟨ws, JsMap.mem_values_iff.mpr ⟨index, hidx⟩, hwait⟩

lemma nodup_flatten (h : Registered waiters waits settlements) : waiters.values.flatten.Nodup := by
  have hat {entry : ℕ × List ℕ} (hentry : entry ∈ waiters.entries) :
      waitersAt waiters entry.1 = entry.2 := by
    rw [waitersAt, JsMap.mem_entries_iff.mp hentry, Option.getD_some]
  rw [List.nodup_flatten, JsMap.values, pairwise_map]
  constructor
  · intro ws hws
    obtain ⟨entry, hentry, rfl⟩ := List.mem_map.mp hws
    rw [← hat hentry]
    exact h.distinct entry.1
  · have hkeys := pairwise_map.mp waiters.nodup
    refine hkeys.imp_of_mem fun {first second} hfirst hsecond hne wait hwait hwait' => hne ?_
    rw [← hat hfirst] at hwait
    rw [← hat hsecond] at hwait'
    have hidx := ((h.pending _ wait).mp hwait).1
    rw [((h.pending _ wait).mp hwait').1] at hidx
    exact (Option.some.inj hidx).symm

/-- All waiters are settled. -/
lemma settleAll (h : Registered waiters waits settlements) (settlement : ChunkSettlement) :
    Registered .empty waits
      (settlements ++ waiters.values.flatten.map fun wait => (wait, settlement)) where
  pending index wait := by
    rw [settled_map, mem_append, not_or, mem_flatten_iff]
    refine ⟨nofun, fun ⟨hwait, hnot, hnot'⟩ => ?_⟩
    exact absurd ⟨index, (h.pending index wait).mpr ⟨hwait, hnot⟩⟩ hnot'
  distinct _ := .nil
  once := by
    rw [settled_map, nodup_append]
    refine ⟨h.once, h.nodup_flatten, fun wait hsettled wait' hmem => ?_⟩
    rintro rfl
    obtain ⟨index, hmem⟩ := mem_flatten_iff.mp hmem
    exact ((h.pending index wait).mp hmem).2 hsettled
  known wait := by
    rw [settled_map, mem_append]
    rintro (hsettled | hmem)
    · exact h.known wait hsettled
    · obtain ⟨index, hmem⟩ := mem_flatten_iff.mp hmem
      exact (List.getElem?_eq_some_iff.mp ((h.pending index wait).mp hmem).1).1

/-- A promise that is settled when it is made. -/
lemma settledWait (h : Registered waiters waits settlements) (index : ℕ)
    (settlement : ChunkSettlement) :
    Registered waiters (waits ++ [index])
      (settlements ++ [waits.length].map fun wait => (wait, settlement)) where
  pending index' wait := by
    rw [settled_map, mem_append, mem_singleton, not_or, h.pending, getElem?_concat_iff]
    constructor
    · rintro ⟨hwait, hnot⟩
      exact ⟨.inl hwait, hnot, (List.getElem?_eq_some_iff.mp hwait).1.ne⟩
    · rintro ⟨hwait, hnot, hne⟩
      exact ⟨hwait.resolve_right fun hlast => hne hlast.1, hnot⟩
  distinct := h.distinct
  once := by
    rw [settled_map, nodup_append]
    refine ⟨h.once, nodup_singleton _, fun wait hsettled wait' hmem => ?_⟩
    rw [mem_singleton.mp hmem]
    exact (h.known wait hsettled).ne
  known wait := by
    rw [settled_map, mem_append, mem_singleton, length_append, length_singleton]
    rintro (hsettled | rfl)
    · exact Nat.lt_succ_of_lt (h.known wait hsettled)
    · exact Nat.lt_succ_self _

/-- A promise that waits. -/
lemma register (h : Registered waiters waits settlements) (index : ℕ) :
    Registered (waiters.set index (waitersAt waiters index ++ [waits.length])) (waits ++ [index])
      settlements where
  pending index' wait := by
    have hnew : waits.length ∉ settlements.map Prod.fst := fun hmem =>
      absurd (h.known _ hmem) (lt_irrefl _)
    rw [waitersAt, JsMap.get?_set, getElem?_concat_iff]
    split_ifs with hsame
    · rw [Option.getD_some, mem_append, mem_singleton, hsame, h.pending]
      constructor
      · rintro (⟨hwait, hnot⟩ | rfl)
        · exact ⟨.inl hwait, hnot⟩
        · exact ⟨.inr ⟨rfl, rfl⟩, hnew⟩
      · rintro ⟨hwait | ⟨hlast, -⟩, hnot⟩
        · exact .inl ⟨hwait, hnot⟩
        · exact .inr hlast
    · rw [← waitersAt, h.pending]
      constructor
      · rintro ⟨hwait, hnot⟩
        exact ⟨.inl hwait, hnot⟩
      · rintro ⟨hwait, hnot⟩
        exact ⟨hwait.resolve_right fun hlast => hsame hlast.2.symm, hnot⟩
  distinct index' := by
    rw [waitersAt, JsMap.get?_set]
    split_ifs
    · rw [Option.getD_some, nodup_append]
      refine ⟨h.distinct index, nodup_singleton _, fun wait hmem wait' hlast => ?_⟩
      rw [mem_singleton.mp hlast]
      exact (List.getElem?_eq_some_iff.mp ((h.pending index wait).mp hmem).1).1.ne
    · exact h.distinct index'
  once := h.once
  known wait hsettled := by
    rw [length_append, length_singleton]
    exact Nat.lt_succ_of_lt (h.known wait hsettled)

end Registered

end Waits

variable {buffer : Bytes}

namespace SnapshotTranscriptCache

variable {cache : SnapshotTranscriptCache} {files : CacheFiles} {lines : List Bytes}

lemma Stored.readChunk_eq_ok_iff (hstored : Stored cache files lines) :
    cache.readChunk files index = .ok buffer ↔ lines[index]? = some buffer := by
  rw [readChunk]
  cases hline : lines[index]? with
  | none =>
    rw [List.getElem?_eq_none_iff, ← hstored.length_eq, ← List.getElem?_eq_none_iff] at hline
    rw [hline]
    simp
  | some line =>
    obtain ⟨chunk, hchunk, hbacked⟩ := hstored.backed hline
    rw [hchunk]
    cases hbacked with
    | memory _ => simp
    | disk _ hfile => simp [hfile]

end SnapshotTranscriptCache

section Waits

variable {options : SnapshotTranscriptOptions} {s : WaitingTranscript}

namespace WaitingTranscript

/-- There are waiters only while the cache is open, and only for chunks that are not there. -/
structure Kept (s : WaitingTranscript) : Prop where
  stored : ∃ lines, Stored s.cache s.files lines
  registered : Registered s.chunkWaiters s.waits s.settlements
  ahead : ∀ {index ws}, s.chunkWaiters.get? index = some ws → s.chunkCount ≤ index
  closed : s.completed = true ∨ s.failure.isSome → s.chunkWaiters = .empty
  disposed : s.disposed = true → s.failure.isSome

lemma stored_empty (files : CacheFiles) : Stored {} files [] := ⟨rfl, nofun⟩

lemma registered_empty : Registered .empty [] [] where
  pending _ _ := ⟨nofun, nofun⟩
  distinct _ := .nil
  once := .nil
  known := nofun

lemma kept_new (messages : Option (List Json)) (files : CacheFiles) :
    (new options messages files).Kept := by
  cases messages with
  | none => exact ⟨⟨[], stored_empty files⟩, registered_empty, nofun, nofun, nofun⟩
  | some messages =>
    have hencode : SnapshotTranscriptCache.new options messages files =
      storeChunks options {} files (options.chunksFrom 0 {} messages) := encodeFrom_eq {} {} files _
    refine ⟨⟨options.chunksFrom 0 {} messages, ?_⟩, registered_empty, nofun, fun _ => rfl, nofun⟩
    show Stored (SnapshotTranscriptCache.new options messages files).1
      (SnapshotTranscriptCache.new options messages files).2 _
    rw [hencode]
    exact (stored_empty files).storeChunks _

/-- A promise that is not settled waits for a chunk that can still come. -/
lemma Kept.pending (h : s.Kept) (hwait : s.waits[wait]? = some index)
    (hpend : ¬ s.Settled wait) :
    wait ∈ waitersAt s.chunkWaiters index ∧ s.Open ∧ s.chunkCount ≤ index := by
  have hmem := (h.registered.pending index wait).mpr ⟨hwait, hpend⟩
  refine ⟨hmem, ?_, ?_⟩
  · have hclosed : ¬ (s.completed = true ∨ s.failure.isSome) := by
      intro hclosed
      rw [h.closed hclosed] at hmem
      cases hmem
    rw [not_or, Bool.not_eq_true, Option.not_isSome_iff_eq_none] at hclosed
    refine ⟨hclosed.1, hclosed.2, ?_⟩
    rw [← Bool.not_eq_true]
    intro hdisp
    have hfail := h.disposed hdisp
    rw [hclosed.2] at hfail
    cases hfail
  · rw [waitersAt] at hmem
    cases hwaiters : s.chunkWaiters.get? index with
    | none =>
      rw [hwaiters] at hmem
      cases hmem
    | some ws => exact h.ahead hwaiters

lemma mem_settlements_of_pending (hpend : ¬ s.Settled wait) (ws : List ℕ)
    (settlement settlement' : ChunkSettlement) :
    (wait, settlement) ∈ s.settlements ++ ws.map (fun wait => (wait, settlement')) ↔
      wait ∈ ws ∧ settlement' = settlement := by
  have hnot : (wait, settlement) ∉ s.settlements := fun hmem =>
    hpend (List.mem_map.mpr ⟨_, hmem, rfl⟩)
  simp [hnot]

/-- What an operation does to the waits: the pending ones that it decides are settled, and only
they are. -/
structure Follows (s : WaitingTranscript) (operation : SnapshotOperation)
    (s' : WaitingTranscript) : Prop where
  kept : s'.Kept
  waits : s.waits <+: s'.waits
  settlements : s.settlements <+: s'.settlements
  decided : ∀ {wait index}, s.waits[wait]? = some index → ¬ s.Settled wait → ∀ settlement,
    (wait, settlement) ∈ s'.settlements ↔ Decides index s operation s' settlement
  disposed : s.disposed = true → s'.disposed = true
  reads : ∀ {index buffer}, s.cache.readChunk s.files index = .ok buffer → s'.disposed = false →
    s'.cache.readChunk s'.files index = .ok buffer

/-! ## Operations -/

variable {operation : SnapshotOperation}

/-- Only the counts of readers change. -/
lemma Kept.follows_idle (h : s.Kept) (readers : ℤ) (disposeRequested : Bool)
    (released : List Bool) :
    Follows s operation { s with readers, disposeRequested, released } where
  kept := ⟨h.stored, h.registered, h.ahead, h.closed, h.disposed⟩
  waits := prefix_rfl
  settlements := prefix_rfl
  decided {wait index} hwait hpend settlement := by
    have hnot : (wait, settlement) ∉ s.settlements := fun hmem =>
      hpend (List.mem_map.mpr ⟨_, hmem, rfl⟩)
    refine ⟨fun hmem => absurd hmem hnot, fun hdecides => ?_⟩
    cases hdecides with
    | stored hcount hcount' _ =>
      have hsame : s.chunkCount = index + 1 := hcount'
      omega
    | completed _ hbefore hafter => exact absurd (hbefore.symm.trans hafter) Bool.false_ne_true
    | failed hbefore hafter => exact absurd (hbefore.symm.trans hafter) nofun
  disposed := id
  reads hread _ := hread

lemma Kept.storeChunk_eq (h : s.Kept) (buffer : Bytes) :
    s.storeChunk options buffer = (none, { s with
      cache := (SnapshotTranscriptCache.storeChunk options buffer s.cache s.files).1
      files := (SnapshotTranscriptCache.storeChunk options buffer s.cache s.files).2
      chunkWaiters := s.chunkWaiters.delete s.chunkCount
      settlements := s.settlements ++ (waitersAt s.chunkWaiters s.chunkCount).map
        fun wait => (wait, .resolved (some buffer)) }) := by
  obtain ⟨lines, hstored⟩ := h.stored
  have hcount : (SnapshotTranscriptCache.storeChunk options buffer s.cache s.files).1.chunks.length
      - 1 = s.chunkCount := by
    rw [length_storeChunk, Nat.add_sub_cancel]
    rfl
  have hread : (SnapshotTranscriptCache.storeChunk options buffer s.cache s.files).1.readChunk
      (SnapshotTranscriptCache.storeChunk options buffer s.cache s.files).2 s.chunkCount =
        .ok buffer := by
    rw [(hstored.storeChunk buffer).readChunk_eq_ok_iff, chunkCount, hstored.length_eq]
    exact getElem?_concat_length
  rw [storeChunk, waitersAt]
  simp only [chunkCount] at hcount hread ⊢
  rw [hcount]
  cases hwait : s.chunkWaiters.get? s.cache.chunks.length with
  | none =>
    rw [JsMap.delete_of_get?_none hwait]
    simp
  | some ws =>
    simp only [hread]
    rfl

lemma Kept.follows_appendEncodedChunk (h : s.Kept) (buffer : Bytes) :
    Follows s (.appendEncodedChunk buffer) (s.appendEncodedChunk options buffer).2 := by
  rw [appendEncodedChunk]
  split_ifs with hclosed
  · exact h.follows_idle s.readers s.disposeRequested s.released
  · obtain ⟨lines, hstored⟩ := h.stored
    have hstored' : Stored (SnapshotTranscriptCache.storeChunk options buffer s.cache s.files).1
        (SnapshotTranscriptCache.storeChunk options buffer s.cache s.files).2 (lines ++ [buffer]) :=
      hstored.storeChunk buffer
    have hlen :
        (SnapshotTranscriptCache.storeChunk options buffer s.cache s.files).1.chunks.length =
          s.cache.chunks.length + 1 := length_storeChunk buffer s.cache s.files
    have hlast : (lines ++ [buffer])[s.chunkCount]? = some buffer := by
      rw [chunkCount, hstored.length_eq]
      exact getElem?_concat_length
    rw [h.storeChunk_eq]
    constructor
    · refine ⟨⟨_, hstored'⟩, h.registered.settleOne _ _, fun {index ws} hwaiters => ?_, ?_,
        h.disposed⟩
      · rw [JsMap.get?_delete] at hwaiters
        split_ifs at hwaiters with hidx
        have hahead := h.ahead hwaiters
        simp only [chunkCount] at hahead hidx ⊢
        omega
      · intro hclosed'
        simp_all
    · exact prefix_rfl
    · exact prefix_append _ _
    · intro wait index hwait hpend settlement
      rw [mem_settlements_of_pending hpend, h.registered.pending]
      constructor
      · rintro ⟨⟨hwait', -⟩, rfl⟩
        have hidx : index = s.chunkCount := by
          rw [hwait] at hwait'
          exact Option.some.inj hwait'
        refine .stored hidx.symm ?_ ?_
        · rw [hidx]
          exact hlen
        · rw [hidx]
          exact hstored'.readChunk_eq_ok_iff.mpr hlast
      · intro hdecides
        cases hdecides with
        | stored hcount _ _ =>
          rw [hcount]
          exact ⟨⟨hwait, hpend⟩, rfl⟩
        | failed hbefore hafter => cases hbefore.symm.trans hafter
    · exact id
    · intro index buffer' hread _
      rw [hstored.readChunk_eq_ok_iff] at hread
      refine hstored'.readChunk_eq_ok_iff.mpr ?_
      rw [getElem?_append_left (List.getElem?_eq_some_iff.mp hread).1]
      exact hread

variable {s' : WaitingTranscript}

/-- A promise is made, and settled at once or not. -/
lemma follows_wait (hkept : s'.Kept)
    (hwaits : s'.waits = s.waits ++ [index])
    (hsetts : s'.settlements = s.settlements ∨ ∃ settlement,
      s'.settlements = s.settlements ++ [s.waits.length].map fun wait => (wait, settlement))
    (hcache : s'.cache = s.cache) (hfiles : s'.files = s.files) (hfail : s'.failure = s.failure)
    (hdisp : s'.disposed = s.disposed) :
    Follows s (.waitForChunk index) s' where
  kept := hkept
  waits := hwaits ▸ prefix_append _ _
  settlements := by
    rcases hsetts with hsame | ⟨settlement, hnew⟩
    · exact hsame ▸ prefix_rfl
    · exact hnew ▸ prefix_append _ _
  decided {wait index'} hwait hpend settlement := by
    have hnot : (wait, settlement) ∉ s'.settlements := by
      rcases hsetts with hsame | ⟨settlement', hnew⟩
      · rw [hsame]
        exact fun hmem => hpend (List.mem_map.mpr ⟨_, hmem, rfl⟩)
      · rw [hnew, mem_settlements_of_pending hpend, mem_singleton]
        exact fun hlast => (List.getElem?_eq_some_iff.mp hwait).1.ne hlast.1
    refine ⟨fun hmem => absurd hmem hnot, fun hdecides => ?_⟩
    cases hdecides with
    | failed hbefore hafter =>
      rw [hfail, hbefore] at hafter
      cases hafter
  disposed h := hdisp.trans h
  reads hread _ := by
    rw [hcache, hfiles]
    exact hread

lemma Kept.settledWait (h : s.Kept) (index : ℕ) (settlement : ChunkSettlement) :
    (s.settledWait index settlement).Kept :=
  ⟨h.stored, h.registered.settledWait index settlement, h.ahead, h.closed, h.disposed⟩

lemma Kept.readChunk_of_lt (h : s.Kept) (hlt : index < s.chunkCount) :
    ∃ buffer, s.cache.readChunk s.files index = .ok buffer := by
  obtain ⟨lines, hstored⟩ := h.stored
  have hlt' : index < lines.length := hstored.length_eq ▸ hlt
  exact ⟨lines[index], hstored.readChunk_eq_ok_iff.mpr (getElem?_eq_getElem hlt')⟩

lemma Kept.follows_waitForChunk (h : s.Kept) (index : ℕ) :
    Follows s (.waitForChunk index) (s.waitForChunk index).2 := by
  have hsettled (settlement : ChunkSettlement) :
      Follows s (.waitForChunk index) (s.settledWait index settlement) :=
    follows_wait (h.settledWait index settlement) rfl (.inr ⟨settlement, rfl⟩) rfl rfl rfl rfl
  rw [waitForChunk]
  split
  · exact hsettled _
  · split_ifs with hlt hcompleted
    · obtain ⟨buffer, hread⟩ := h.readChunk_of_lt hlt
      rw [hread]
      exact hsettled _
    · exact hsettled _
    · refine follows_wait ⟨h.stored, h.registered.register index, ?_, ?_, h.disposed⟩ rfl
        (.inl rfl) rfl rfl rfl rfl
      · intro index' ws hwait
        rw [JsMap.get?_set] at hwait
        split_ifs at hwait with hidx
        · exact hidx ▸ Nat.le_of_not_lt hlt
        · exact h.ahead hwait
      · rintro (hcompleted' | hfail)
        · exact absurd hcompleted' hcompleted
        · simp_all

/-- Indices behind the last chunk lose their waiters one by one. -/
lemma foldl_completeWaiters {entries : List (ℕ × List ℕ)} {s : WaitingTranscript}
    (hahead : ∀ entry ∈ entries, s.chunkCount ≤ entry.1) :
    entries.foldl completeWaiters s = { s with
      settlements := s.settlements ++
        (entries.map Prod.snd).flatten.map fun wait => (wait, .resolved none)
      chunkWaiters := (entries.map Prod.fst).foldl JsMap.delete s.chunkWaiters } := by
  induction entries generalizing s with
  | nil => simp
  | cons entry entries ih =>
    obtain ⟨hentry, hrest⟩ := forall_mem_cons.mp hahead
    have hstep : completeWaiters s entry = { s.settle entry.2 (.resolved none) with
          chunkWaiters := s.chunkWaiters.delete entry.1 } := if_neg (Nat.not_lt.mpr hentry)
    rw [foldl_cons, hstep]
    refine (ih (s := { s.settle entry.2 (.resolved none) with
      chunkWaiters := s.chunkWaiters.delete entry.1 }) hrest).trans ?_
    simp [settle]

section
variable (h : s.Kept)
include h

lemma Kept.follows_markComplete : Follows s .markComplete (s.markComplete options).2 := by
  rw [markComplete]
  split_ifs with hcompleted hclosed
  · exact h.follows_idle s.readers s.disposeRequested s.released
  · exact h.follows_idle s.readers s.disposeRequested s.released
  · have hahead : ∀ entry ∈ s.chunkWaiters.entries, s.chunkCount ≤ entry.1 := fun entry hentry =>
      h.ahead (JsMap.mem_entries_iff.mp hentry)
    have hall := foldl_completeWaiters (s := { s with completed := true }) hahead
    have hempty : (s.chunkWaiters.entries.map Prod.fst).foldl JsMap.delete s.chunkWaiters =
      .empty := JsMap.foldl_delete_keys s.chunkWaiters
    rw [hall, hempty]
    constructor
    · exact ⟨h.stored, h.registered.settleAll _, nofun, fun _ => rfl, h.disposed⟩
    · exact prefix_rfl
    · exact prefix_append _ _
    · intro wait index hwait hpend settlement
      obtain ⟨hmem, hopen, hle⟩ := h.pending hwait hpend
      rw [mem_settlements_of_pending hpend]
      constructor
      · rintro ⟨-, rfl⟩
        exact .completed hle hopen.completed rfl
      · intro hdecides
        cases hdecides with
        | completed _ _ _ => exact ⟨Registered.mem_flatten_iff.mpr ⟨index, hmem⟩, rfl⟩
        | failed hbefore hafter => exact absurd (hbefore.symm.trans hafter) nofun
    · exact id
    · exact fun hread _ => hread

/-- The cache fails, and keeps what it has stored unless it is disposed of. -/
lemma Kept.follows_fail (hfail : s.failure = none) {error : String}
    (hstored : ∃ lines, Stored s'.cache s'.files lines)
    (hcache : s'.disposed = false → s'.cache = s.cache ∧ s'.files = s.files)
    (hdisp : s.disposed = true → s'.disposed = true) (hcompleted : s'.completed = s.completed)
    (hcount : s'.chunkCount ≤ s.chunkCount) (hfail' : s'.failure = some error)
    (hwaiters : s'.chunkWaiters = .empty) (hwaits : s'.waits = s.waits)
    (hsetts : s'.settlements = s.settlements ++
      s.chunkWaiters.values.flatten.map fun wait => (wait, .rejected error)) :
    Follows s operation s' where
  kept := by
    refine ⟨hstored, ?_, ?_, fun _ => hwaiters, fun _ => hfail' ▸ rfl⟩
    · rw [hwaiters, hwaits, hsetts]
      exact h.registered.settleAll _
    · rw [hwaiters]
      exact nofun
  waits := hwaits ▸ prefix_rfl
  settlements := hsetts ▸ prefix_append _ _
  decided {wait index} hwait hpend settlement := by
    obtain ⟨hmem, hopen, hle⟩ := h.pending hwait hpend
    rw [hsetts, mem_settlements_of_pending hpend]
    constructor
    · rintro ⟨-, rfl⟩
      exact .failed hfail hfail'
    · intro hdecides
      refine ⟨Registered.mem_flatten_iff.mpr ⟨index, hmem⟩, ?_⟩
      cases hdecides with
      | stored hbefore hafter _ => omega
      | completed _ hbefore hafter =>
        rw [hcompleted, hbefore] at hafter
        cases hafter
      | failed _ hafter =>
        rw [hfail'] at hafter
        rw [Option.some.inj hafter]
  disposed := hdisp
  reads hread hdisp := by
    obtain ⟨hcache, hfiles⟩ := hcache hdisp
    rw [hcache, hfiles]
    exact hread

lemma Kept.follows_markFailed (error : String) :
    Follows s (.markFailed error) (s.markFailed error) := by
  rw [markFailed]
  split_ifs with hfail
  · exact h.follows_idle s.readers s.disposeRequested s.released
  · rw [Option.not_isSome_iff_eq_none] at hfail
    exact h.follows_fail hfail h.stored (fun _ => ⟨rfl, rfl⟩) id rfl le_rfl rfl rfl rfl rfl

/-- The cache is disposed of, by a call that may change the counts of readers too. -/
lemma Kept.follows_disposeNow (readers : ℤ) (disposeRequested : Bool) (released : List Bool) :
    Follows s operation ({ s with readers, disposeRequested, released }.disposeNow options) := by
  have hempty (files : CacheFiles) (totalBytes : ℕ) :
      ∃ lines, Stored { totalBytes } files lines := ⟨[], rfl, nofun⟩
  rw [disposeNow]
  split_ifs with hdisp
  · exact h.follows_idle readers disposeRequested released
  · rw [markFailed]
    split_ifs with hfail
    · -- the waiters have gone when the cache failed
      have hnone : s.chunkWaiters = .empty := h.closed (.inr hfail)
      constructor
      · refine ⟨hempty _ _, h.registered, ?_, h.closed, fun _ => hfail⟩
        show ∀ {index ws}, s.chunkWaiters.get? index = some ws → _
        rw [hnone]
        exact nofun
      · exact prefix_rfl
      · exact prefix_rfl
      · intro wait index hwait hpend
        have hopen := (h.pending hwait hpend).2.1
        rw [hopen.failure] at hfail
        cases hfail
      · exact fun _ => rfl
      · exact nofun
    · rw [Option.not_isSome_iff_eq_none] at hfail
      exact h.follows_fail hfail (hempty _ _) nofun (fun _ => rfl) rfl (Nat.zero_le _) rfl rfl
        rfl rfl

lemma Kept.follows_release (k : ℕ) : Follows s (.release k) (s.release options k) := by
  rw [release]
  split
  · dsimp only
    split_ifs with hlast
    · exact h.follows_disposeNow (s.readers - 1) s.disposeRequested (s.released.set k true)
    · exact h.follows_idle (s.readers - 1) s.disposeRequested (s.released.set k true)
  · exact h.follows_idle s.readers s.disposeRequested s.released

lemma Kept.follows_dispose : Follows s .dispose (s.dispose options) := by
  rw [dispose]
  dsimp only
  split_ifs with hdone hreaders
  · exact h.follows_idle s.readers s.disposeRequested s.released
  · exact h.follows_idle s.readers true s.released
  · exact h.follows_disposeNow s.readers true s.released

end

variable (options) in
/-- What a step does to the waits. -/
lemma Kept.follows (h : s.Kept) (operation : SnapshotOperation) :
    Follows s operation (operation.outcome options s).2 := by
  cases operation with
  | appendEncodedChunk buffer => exact h.follows_appendEncodedChunk buffer
  | waitForChunk index => exact h.follows_waitForChunk index
  | markComplete => exact h.follows_markComplete
  | markFailed error => exact h.follows_markFailed error
  | retain =>
    rw [SnapshotOperation.outcome, retain]
    split_ifs
    · exact h.follows_idle s.readers s.disposeRequested s.released
    · exact h.follows_idle (s.readers + 1) s.disposeRequested (s.released ++ [false])
  | release k => exact h.follows_release k
  | dispose => exact h.follows_dispose

end WaitingTranscript

open WaitingTranscript

/-! ## Runs -/

variable {s' : WaitingTranscript} {operations : List SnapshotOperation}

section
variable (h : (transcriptMachine options).Run s operations s') (hkept : s.Kept)
include h hkept

lemma kept_of_run : s'.Kept :=
  h.invariant hkept fun _ operation _ hkept hstep => hstep ▸ (hkept.follows options operation).kept

lemma prefixes_of_run : s.waits <+: s'.waits ∧ s.settlements <+: s'.settlements := by
  induction h with
  | nil => exact ⟨prefix_rfl, prefix_rfl⟩
  | snoc hrun hstep ih =>
    have hfollows := (kept_of_run hrun hkept).follows options ‹_›
    rw [← hstep] at hfollows
    exact ⟨ih.1.trans hfollows.waits, ih.2.trans hfollows.settlements⟩

lemma getElem?_waits_of_run (hwait : s.waits[wait]? = some index) :
    s'.waits[wait]? = some index := by
  obtain ⟨hlt, hidx⟩ := List.getElem?_eq_some_iff.mp hwait
  rw [← hidx]
  exact prefix_iff_getElem?.mp (prefixes_of_run h hkept).1 wait hlt

/-- A chunk stays what it is until the cache is disposed of. -/
lemma reads_of_run (hread : s.cache.readChunk s.files index = .ok buffer)
    (hdisp : s'.disposed = false) : s'.cache.readChunk s'.files index = .ok buffer := by
  induction h with
  | nil => exact hread
  | @snoc _ s₁ operation s₂ hrun hstep ih =>
    have hfollows := (kept_of_run hrun hkept).follows options operation
    rw [← hstep] at hfollows
    refine hfollows.reads (ih ?_) hdisp
    rw [← Bool.not_eq_true]
    intro hbefore
    exact absurd (hdisp.symm.trans (hfollows.disposed hbefore)) Bool.false_ne_true

/-- A wait is settled by the first operation that decides it. -/
lemma decided_of_run (hwait : s.waits[wait]? = some index) (hpend : ¬ s.Settled wait)
    (settlement : ChunkSettlement) :
    (wait, settlement) ∈ s'.settlements ↔ ∃ before operation after s₁,
      operations = before ++ operation :: after ∧
        (transcriptMachine options).Run s before s₁ ∧ ¬ s₁.Settled wait ∧
          Decides index s₁ operation (operation.outcome options s₁).2 settlement := by
  have hnext (s₁ : WaitingTranscript) (operation : SnapshotOperation) :
      (transcriptMachine options).step s₁ operation (operation.outcome options s₁).2 := rfl
  constructor
  · induction h with
    | nil => exact fun hmem => absurd (List.mem_map.mpr ⟨_, hmem, rfl⟩) hpend
    | @snoc ls s₁ operation s₂ hrun hstep ih =>
      have hkept₁ := kept_of_run hrun hkept
      have hfollows := hkept₁.follows options operation
      rw [← hstep] at hfollows
      intro hmem
      by_cases hsettled : s₁.Settled wait
      · -- a wait is not settled a second time
        obtain ⟨⟨wait', settlement'⟩, hmem', rfl⟩ := List.mem_map.mp hsettled
        have hmem₂ := hfollows.settlements.subset hmem'
        have hsame := inj_on_of_nodup_map hfollows.kept.registered.once hmem hmem₂ rfl
        rw [← hsame] at hmem'
        obtain ⟨before, operation', after, s₀, rfl, hrest⟩ := ih hmem'
        exact ⟨before, operation', after ++ [operation], s₀, by simp, hrest⟩
      · have hwait₁ := getElem?_waits_of_run hrun hkept hwait
        refine ⟨ls, operation, [], s₁, rfl, hrun, hsettled, ?_⟩
        have hstep' : s₂ = (operation.outcome options s₁).2 := hstep
        rw [← hstep']
        exact (hfollows.decided hwait₁ hsettled settlement).mp hmem
  · rintro ⟨before, operation, after, s₁, rfl, hbefore, hpend₁, hdecides⟩
    have hkept₁ := kept_of_run hbefore hkept
    have hwait₁ := getElem?_waits_of_run hbefore hkept hwait
    have hfollows := hkept₁.follows options operation
    have hmem := (hfollows.decided hwait₁ hpend₁ settlement).mpr hdecides
    have hafter := Machine.Run.of_foldl hnext (operation.outcome options s₁).2 after
    have hend := h.eq_foldl fun _ _ _ hstep => hstep
    have hbefore' := hbefore.eq_foldl fun _ _ _ hstep => hstep
    rw [foldl_append, foldl_cons, ← hbefore'] at hend
    rw [hend]
    exact (prefixes_of_run hafter hfollows.kept).2.subset hmem

end

lemma mem_settledWait_iff (hkept : s.Kept) (index : ℕ) (settlement settlement' : ChunkSettlement) :
    (s.waits.length, settlement) ∈ (s.settledWait index settlement').settlements ↔
      settlement' = settlement := by
  have hnew : ¬ s.Settled s.waits.length := fun hsettled =>
    absurd (hkept.registered.known _ hsettled) (lt_irrefl _)
  exact (mem_settlements_of_pending hnew _ _ _).trans (and_iff_right (mem_singleton_self _))

lemma lt_of_readChunk (hread : s.cache.readChunk s.files index = .ok buffer) :
    index < s.chunkCount := by
  by_contra hge
  rw [readChunk, getElem?_eq_none (Nat.le_of_not_lt hge)] at hread
  cases hread

lemma waitForChunk_spec (hkept : s.Kept) (index : ℕ) :
    (s.waitForChunk index).1 = none ∧ (s.waitForChunk index).2.waits = s.waits ++ [index] ∧
      ∀ settlement, (s.waits.length, settlement) ∈ (s.waitForChunk index).2.settlements ↔
        AtOnce index s settlement := by
  rw [waitForChunk]
  split
  next error hfail =>
    refine ⟨rfl, rfl, fun settlement => ?_⟩
    rw [mem_settledWait_iff hkept]
    constructor
    · rintro rfl
      exact .failed hfail
    · intro h
      cases h with
      | failed hfail' => rw [Option.mem_unique hfail hfail']
      | stored hnone _ | completed hnone _ _ => cases hfail.symm.trans hnone
  next hfail =>
    split_ifs with hlt hcompleted
    · obtain ⟨buffer, hread⟩ := hkept.readChunk_of_lt hlt
      rw [hread]
      refine ⟨rfl, rfl, fun settlement => ?_⟩
      rw [mem_settledWait_iff hkept]
      constructor
      · rintro rfl
        exact .stored hfail hread
      · intro h
        cases h with
        | failed hfail' => cases hfail.symm.trans hfail'
        | stored _ hread' => rw [Except.ok.inj (hread.symm.trans hread')]
        | completed _ _ hcount => exact absurd hlt (Nat.not_lt.mpr hcount)
    · refine ⟨rfl, rfl, fun settlement => ?_⟩
      rw [mem_settledWait_iff hkept]
      constructor
      · rintro rfl
        exact .completed hfail hcompleted (Nat.le_of_not_lt hlt)
      · intro h
        cases h with
        | failed hfail' => cases hfail.symm.trans hfail'
        | stored _ hread => exact absurd (lt_of_readChunk hread) hlt
        | completed _ _ _ => rfl
    · refine ⟨rfl, rfl, fun settlement => ⟨fun hmem => ?_, fun h => ?_⟩⟩
      · have hsettled : s.Settled s.waits.length := List.mem_map.mpr ⟨_, hmem, rfl⟩
        exact absurd (hkept.registered.known _ hsettled) (lt_irrefl _)
      · cases h with
        | failed hfail' => cases hfail.symm.trans hfail'
        | stored _ hread => exact absurd (lt_of_readChunk hread) hlt
        | completed _ hcompleted' _ => exact absurd hcompleted' hcompleted

/-- Once a cache is complete, has failed or is disposed of, every wait is settled, and none twice.
What is settled when it is made has failed, is stored or is not coming; a wait that is pending is
settled by the first operation that stores its chunk, completes the cache without it or makes it
fail, and by no other.  A chunk stays what it is until the cache is disposed of. -/
theorem waits_settle {messages : Option (List Json)} {files : CacheFiles}
    (h : (transcriptMachine options).Run (.new options messages files) operations s) :
    (s.completed = true ∨ s.failure.isSome ∨ s.disposed = true →
        ∀ wait < s.waits.length, s.Settled wait) ∧
      (s.settlements.map Prod.fst).Nodup ∧
      (∀ index, (s.waitForChunk index).1 = none ∧
        (s.waitForChunk index).2.waits = s.waits ++ [index] ∧
        ∀ settlement, (s.waits.length, settlement) ∈ (s.waitForChunk index).2.settlements ↔
          AtOnce index s settlement) ∧
      ∀ later s', (transcriptMachine options).Run s later s' → s.settlements <+: s'.settlements ∧
        (∀ index buffer, s.cache.readChunk s.files index = .ok buffer → s'.disposed = false →
          s'.cache.readChunk s'.files index = .ok buffer) ∧
        ∀ wait index, s.waits[wait]? = some index → ¬ s.Settled wait → ∀ settlement,
          (wait, settlement) ∈ s'.settlements ↔ ∃ before operation after s₁,
            later = before ++ operation :: after ∧
              (transcriptMachine options).Run s before s₁ ∧ ¬ s₁.Settled wait ∧
                Decides index s₁ operation (operation.outcome options s₁).2 settlement := by
  have hkept := kept_of_run h (kept_new messages files)
  refine ⟨?_, hkept.registered.once, waitForChunk_spec hkept, fun later s' hlater => ?_⟩
  · intro hclosed wait hlt
    by_contra hpending
    have hopen := (hkept.pending (getElem?_eq_getElem hlt) hpending).2.1
    rw [hopen.completed, hopen.failure, hopen.disposed] at hclosed
    simp at hclosed
  · refine ⟨(prefixes_of_run hlater hkept).2, fun index buffer => reads_of_run hlater hkept, ?_⟩
    exact fun wait index => decided_of_run hlater hkept

/-- A wait for the first chunk and one for the second, of a transcript of one chunk that is
disposed of while it is read. -/
theorem waits_settle_two :
    let s := [.waitForChunk 0, .waitForChunk 1, .retain, .appendEncodedChunk [10], .markComplete,
      .dispose, .waitForChunk 0, .release 0].foldl
        (fun s operation => (SnapshotOperation.outcome
          { activeSessionId := "a", snapshotId := "s" } operation s).2) (.new
          { activeSessionId := "a", snapshotId := "s" } none fun _ => none)
    s.settlements = [(0, .resolved (some [10])), (1, .resolved none), (2, .resolved (some [10]))] ∧
      s.failure.isSome ∧ ∀ wait < s.waits.length, s.Settled wait := by
  intro s
  have hfailure : s.failure.isSome = true := by decide +kernel
  refine ⟨by decide +kernel, hfailure, ?_⟩
  exact (waits_settle (Machine.Run.of_foldl (fun _ _ => rfl) _ _)).1 (.inr (.inl hfailure))

end Waits

end Amide
