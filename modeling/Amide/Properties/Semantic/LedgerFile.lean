import Amide.Construction.Semantic.Recorder
import Amide.Framework.LineLog

/-!
# Ledgers whose recorders die

A ledger file is a sequence of whole lines and at most the beginning of one more
(`SemanticLedgerFile`), in every state of every run.  Its events are those whose JSON was written in
full (`written`), in the order in which they were appended; the rest is what the next append
repairs. -/

namespace Amide

open SemanticEdgeRecorder List

open LineCodec (Terminated)

def ledgerCodec : LineCodec SemanticEdgeLedgerEvent := LineCodec.json _ fun _ => rfl

lemma line_eq (event : SemanticEdgeLedgerEvent) :
    line event = ledgerCodec.line event := rfl

/-- The events whose JSON has been written in full. -/
def written (history : List (SemanticEdgeLedgerEvent × List UInt8)) :
    List SemanticEdgeLedgerEvent :=
  (history.filter fun entry => (toJson entry.1).stringify <+: entry.2).map Prod.fst

/-- The bytes of a ledger with these events, and the repair that its tail needs. -/
inductive SemanticLedgerFile (events : List SemanticEdgeLedgerEvent) :
    List UInt8 → Option PendingRepair → Prop
  | whole : SemanticLedgerFile events (ledgerCodec.write events) none
  | cut {event : SemanticEdgeLedgerEvent} {tail : List UInt8} (hnil : tail ≠ [])
      (htail : tail <+: ledgerCodec.encode event) (hne : tail ≠ ledgerCodec.encode event) :
      SemanticLedgerFile events (ledgerCodec.write events ++ tail)
        (some (.truncateToBytes (ledgerCodec.write events).length))
  | unterminated {kept : List SemanticEdgeLedgerEvent} {event : SemanticEdgeLedgerEvent}
      (hevents : events = kept ++ [event]) :
      SemanticLedgerFile events (ledgerCodec.write kept ++ ledgerCodec.encode event)
        (some .terminateLine)

lemma SemanticLedgerFile.of_eq {events : List SemanticEdgeLedgerEvent} {raw : List UInt8}
    (h : raw = ledgerCodec.write events) : SemanticLedgerFile events raw none := h ▸ .whole

/-! ## Reading -/

variable {event : SemanticEdgeLedgerEvent}

section Parse

variable {parsed : ParsedLedger} {lineNumber : ℕ}

lemma encode_eq_cons (event : SemanticEdgeLedgerEvent) :
    ∃ rest, ledgerCodec.encode event = 123 :: rest :=
  Json.stringify_of_isObj rfl

/-- The beginning of an event's text is no blank line. -/
lemma trim_ne_nil {tail rest : List UInt8} (hnil : tail ≠ [])
    (htail : tail <+: ledgerCodec.encode event) : Utf8.trim (tail ++ rest) ≠ [] := by
  obtain ⟨text, htext⟩ := encode_eq_cons event
  obtain ⟨first, others, rfl⟩ := exists_cons_of_ne_nil hnil
  rw [(cons_prefix_cons.mp htail).1]
  exact (Utf8.prefix_trim_cons (by decide) (others ++ rest)).2

lemma encode_ne_nil (event : SemanticEdgeLedgerEvent) : ledgerCodec.encode event ≠ [] := by
  obtain ⟨text, htext⟩ := encode_eq_cons event
  exact cons_ne_nil _ _

/-- A whole line in front of others is an event. -/
lemma parseLedgerLines_encode (event : SemanticEdgeLedgerEvent) {lines : List (List UInt8)}
    (hlines : lines ≠ []) :
    parseLedgerLines lineNumber parsed (ledgerCodec.encode event :: lines) =
      parseLedgerLines (lineNumber + 1)
        ⟨parsed.events ++ [event], parsed.validLength + (ledgerCodec.line event).length⟩ lines := by
  have htrim : Utf8.trim (ledgerCodec.encode event ++ [10]) ≠ [] :=
    trim_ne_nil (encode_ne_nil event) (prefix_refl _)
  have hparse : Json.parse (ledgerCodec.encode event ++ [10]) = some (toJson event) :=
    Json.parse_stringify_lf _
  rw [parseLedgerLines.eq_3 _ _ _ _ hlines, if_neg htrim, hparse]
  simp only [JsonCodec.ofJson_toJson, Option.toList_some]
  rfl

lemma parseLedgerLines_write (events : List SemanticEdgeLedgerEvent) {tail : List UInt8}
    (htail : (10 : UInt8) ∉ tail) :
    parseLedgerLines lineNumber parsed ((ledgerCodec.write events ++ tail).splitOn 10) =
      parseLedgerLines (lineNumber + events.length)
        ⟨parsed.events ++ events, parsed.validLength + (ledgerCodec.write events).length⟩
        [tail] := by
  induction events generalizing lineNumber parsed with
  | nil => simp [splitOn_eq_singleton htail]
  | cons event events ih =>
    have hsplit : (ledgerCodec.write (event :: events) ++ tail).splitOn 10 =
        ledgerCodec.encode event :: (ledgerCodec.write events ++ tail).splitOn 10 := by
      rw [LineCodec.write_cons, LineCodec.line, append_assoc, append_assoc,
        singleton_append, splitOn_append_cons_self,
        splitOn_eq_singleton (ledgerCodec.lf_notMem_encode event)]
      rfl
    have hlines : (ledgerCodec.write events ++ tail).splitOn 10 ≠ [] := splitOn_ne_nil _ _
    rw [hsplit, parseLedgerLines_encode event hlines, ih]
    simp only [LineCodec.write_cons, append_assoc, singleton_append, length_append,
      length_cons, Nat.add_assoc, Nat.add_comm 1]

lemma parseLedgerLines_nil : parseLedgerLines lineNumber parsed [[]] = .ok parsed := rfl

lemma parseLedgerLines_cut {tail : List UInt8} (hnil : tail ≠ [])
    (htail : tail <+: ledgerCodec.encode event) (hne : tail ≠ ledgerCodec.encode event) :
    parseLedgerLines lineNumber parsed [tail] = .ok parsed := by
  have htrim := @trim_ne_nil event tail [] hnil htail
  rw [append_nil] at htrim
  rw [parseLedgerLines, if_neg htrim, Json.parse_strictPrefix rfl htail hne]

lemma parseLedgerLines_last (event : SemanticEdgeLedgerEvent) :
    parseLedgerLines lineNumber parsed [ledgerCodec.encode event] =
      .ok ⟨parsed.events ++ [event], parsed.validLength + (ledgerCodec.encode event).length⟩ := by
  have htrim := @trim_ne_nil event _ [] (encode_ne_nil event) (prefix_refl _)
  have hparse : Json.parse (ledgerCodec.encode event) = some (toJson event) :=
    Json.parse_stringify _
  rw [append_nil] at htrim
  rw [parseLedgerLines, if_neg htrim, hparse]
  simp only [JsonCodec.ofJson_toJson, Option.toList_some]

end Parse

/-- **A ledger is read**, its events and the repair that it needs. -/
theorem SemanticLedgerFile.parse {events : List SemanticEdgeLedgerEvent} {raw : List UInt8}
    {repair : Option PendingRepair} (h : SemanticLedgerFile events raw repair) :
    ∃ parsed, parseLedgerContent raw = .ok parsed ∧ parsed.events = events ∧
      repair? raw parsed = repair := by
  cases h with
  | whole =>
    have hparse := @parseLedgerLines_write {} 1 events [] not_mem_nil
    rw [append_nil, parseLedgerLines_nil] at hparse
    refine ⟨_, hparse, rfl, ?_⟩
    rw [repair?, if_neg (by simp), if_neg]
    rintro ⟨hne, hlast⟩
    rcases ledgerCodec.terminated_write events with hnil | ⟨raw, hraw⟩
    · exact hne hnil
    · rw [hraw, getLast?_concat] at hlast
      exact hlast rfl
  | @cut event tail hnil htail hne =>
    have hlf : (10 : UInt8) ∉ tail := fun h => ledgerCodec.lf_notMem_encode event (htail.subset h)
    have hparse := @parseLedgerLines_write {} 1 events tail hlf
    rw [parseLedgerLines_cut hnil htail hne] at hparse
    refine ⟨_, hparse, rfl, ?_⟩
    have hlen := length_pos_iff.mpr hnil
    rw [repair?, if_pos (by simp [hlen])]
    simp
  | @unterminated kept event hevents =>
    have hparse := @parseLedgerLines_write {} 1 kept _ (ledgerCodec.lf_notMem_encode event)
    rw [parseLedgerLines_last] at hparse
    refine ⟨_, hparse, hevents.symm, ?_⟩
    rw [repair?, if_neg (by simp), if_pos]
    have hne := encode_ne_nil event
    refine ⟨by simp [hne], ?_⟩
    rw [getLast?_append, getLast?_eq_getLast_of_ne_nil hne, Option.some_or, ne_eq,
      Option.some.injEq]
    exact fun hlast => ledgerCodec.lf_notMem_encode event (hlast ▸ getLast_mem hne)

/-! ## Writing -/

section Write

variable {events : List SemanticEdgeLedgerEvent} {raw : List UInt8} {repair : Option PendingRepair}
  {file : Option (List UInt8)} {recorder : SemanticEdgeRecorder}

/-- Whole lines and a part of one more. -/
lemma SemanticLedgerFile.append {part : List UInt8} (hpart : part <+: ledgerCodec.line event) :
    ∃ repair, SemanticLedgerFile
      (events ++ if ledgerCodec.encode event <+: part then [event] else [])
      (ledgerCodec.write events ++ part) repair := by
  rcases ledgerCodec.prefix_line_cases hpart with ⟨hcut, hne⟩ | rfl | rfl
  · have hshort : ¬ ledgerCodec.encode event <+: part := by
      intro hwhole
      exact hne (hcut.eq_of_length (Nat.le_antisymm hcut.length_le hwhole.length_le))
    rw [if_neg hshort, append_nil]
    by_cases hnil : part = []
    · rw [hnil, append_nil]
      exact ⟨_, .whole⟩
    · exact ⟨_, .cut hnil hcut hne⟩
  · rw [if_pos (prefix_refl _)]
    exact ⟨_, .unterminated rfl⟩
  · rw [if_pos ⟨[10], rfl⟩, show ledgerCodec.write events ++ ledgerCodec.line event =
      ledgerCodec.write (events ++ [event]) by simp]
    exact ⟨_, .whole⟩

section
variable (h : SemanticLedgerFile events (file.getD []) repair)
  (hrepair : recorder.pendingRepair = repair)
include h hrepair

/-- **The repair** leaves whole lines, those of the events. -/
lemma SemanticLedgerFile.repaired :
    (recorder.repaired file).getD [] = ledgerCodec.write events := by
  rw [SemanticEdgeRecorder.repaired, SemanticEdgeRecorder.repairWrites, hrepair]
  generalize hraw : file.getD [] = raw at h
  cases h with
  | whole => exact hraw
  | @cut event tail hnil htail hne =>
    cases file with
    | none =>
      exact absurd (append_eq_nil_iff.mp hraw.symm).2 hnil
    | some bytes =>
      rw [Option.getD_some] at hraw
      rw [hraw]
      show ((ledgerCodec.write events ++ tail).take (ledgerCodec.write events).length) = _
      rw [take_left]
  | @unterminated kept event hevents =>
    show file.getD [] ++ [10] = _
    rw [hraw, hevents, LineCodec.write_append, LineCodec.write_cons, LineCodec.write_nil,
      append_nil, LineCodec.line, append_assoc]

/-- A repair cut short loses no event. -/
lemma SemanticLedgerFile.leaves {left : Option (List UInt8)}
    (hleaves : Leaves recorder.repairWrites file left) :
    ∃ repair, SemanticLedgerFile events (left.getD []) repair := by
  have hdone := h.repaired hrepair
  rw [SemanticEdgeRecorder.repaired, SemanticEdgeRecorder.repairWrites, hrepair] at hdone
  rw [SemanticEdgeRecorder.repairWrites, hrepair] at hleaves
  generalize hraw : file.getD [] = raw at h
  cases h with
  | whole =>
    rw [hleaves.of_nil, hraw]
    exact ⟨_, .whole⟩
  | @cut event tail hnil htail hne =>
    cases hleaves with
    | untouched =>
      rw [hraw]
      exact ⟨_, .cut hnil htail hne⟩
    | @shortened _ bytes left hleft hkept =>
      rw [Option.getD_some] at hraw
      rw [hraw, take_left] at hkept
      obtain ⟨part, rfl⟩ := hkept
      rw [hraw, prefix_append_right_inj] at hleft
      have hpart : part <+: ledgerCodec.encode event := hleft.trans htail
      by_cases hpartNil : part = []
      · rw [Option.getD_some, hpartNil, append_nil]
        exact ⟨_, .whole⟩
      · refine ⟨_, .cut hpartNil hpart ?_⟩
        rintro rfl
        exact hne (htail.eq_of_length (Nat.le_antisymm htail.length_le hleft.length_le))
    | next hnext =>
      rw [hnext.of_nil]
      exact ⟨none, .of_eq hdone⟩
  | @unterminated kept event hevents =>
    cases hleaves with
    | untouched =>
      rw [hraw]
      exact ⟨_, .unterminated hevents⟩
    | torn hpart =>
      rw [Option.getD_some, hraw]
      rcases prefix_cons_iff.mp hpart with rfl | ⟨rest, rfl, hrest⟩
      · rw [append_nil]
        exact ⟨_, .unterminated hevents⟩
      · rw [prefix_nil.mp hrest, ← hraw]
        exact ⟨none, .of_eq hdone⟩
    | next hnext =>
      rw [hnext.of_nil]
      exact ⟨none, .of_eq hdone⟩

end

end Write

/-! ## What a recorder remembers -/

/-- What a recorder keeps of the events that it has replayed: no body of a turn, and no retry that
has been parked. -/
structure RecorderMemory where
  epoch : ℕ
  lastTurn : Option (String × ℕ)
  lastCommittedRequestId : Option String
  openCompactions : List String

namespace SemanticEdgeRecorder

def memory (recorder : SemanticEdgeRecorder) : RecorderMemory where
  epoch := recorder.epoch
  lastTurn := recorder.lastTurn.map fun turn => (turn.requestId, turn.epoch)
  lastCommittedRequestId := recorder.lastCommittedRequestId
  openCompactions := recorder.openCompactions

variable {recorder recorder' : SemanticEdgeRecorder} {event : SemanticEdgeLedgerEvent}

@[simp] lemma replay_sessionId : (recorder.replay event).sessionId = recorder.sessionId := by
  cases event <;> simp only [replay] <;> split_ifs <;> rfl

@[simp] lemma replay_pendingRepair :
    (recorder.replay event).pendingRepair = recorder.pendingRepair := by
  cases event <;> simp only [replay] <;> split_ifs <;> rfl

@[simp] lemma replay_disabled : (recorder.replay event).disabled = recorder.disabled := by
  cases event <;> simp only [replay] <;> split_ifs <;> rfl

@[simp] lemma replayAll_concat (events : List SemanticEdgeLedgerEvent) :
    recorder.replayAll (events ++ [event]) = (recorder.replayAll events).replay event := by
  rw [replayAll, foldl_append]
  rfl

lemma replayAll_eq (events : List SemanticEdgeLedgerEvent) :
    (recorder.replayAll events).sessionId = recorder.sessionId ∧
      (recorder.replayAll events).pendingRepair = recorder.pendingRepair ∧
      (recorder.replayAll events).disabled = recorder.disabled := by
  induction events using reverseRecOn with
  | nil => exact ⟨rfl, rfl, rfl⟩
  | append_singleton events event ih => simpa using ih

section
variable (hsess : recorder.sessionId = recorder'.sessionId)
  (h : recorder.memory = recorder'.memory)
include hsess h

/-- An event adds to the memory what depends on that and the session only. -/
lemma memory_replay : (recorder.replay event).memory = (recorder'.replay event).memory := by
  obtain ⟨hepoch, hturn, hlast, hopen⟩ := RecorderMemory.mk.inj h
  cases event <;> simp only [replay, hsess, hopen]
  case requestStarted requestId sessionId compactionId =>
    split_ifs
    · simp [memory, hepoch, hlast]
    · exact h
  case requestFinished requestId => simp [memory, hepoch, hturn]
  case compactionBegun compactionId sessionId =>
    split_ifs
    · simp [memory, hepoch, hturn, hlast]
    · exact h
  case compactionFinished compactionId status =>
    split_ifs
    · simp [memory, hepoch, hturn, hlast]
    · simp [memory, hepoch, hturn, hlast]
    · exact h
  all_goals exact h

lemma memory_replayAll (events : List SemanticEdgeLedgerEvent) :
    (recorder.replayAll events).memory = (recorder'.replayAll events).memory := by
  induction events using reverseRecOn with
  | nil => exact h
  | append_singleton events event ih =>
    rw [replayAll_concat, replayAll_concat]
    refine memory_replay ?_ ih
    rw [(replayAll_eq events).1, (replayAll_eq events).1, hsess]

end

/-- Before it appends a call changes nothing but the parked retry. -/
lemma prepare_eq (call : RecorderCall) : (recorder.prepare call).1.sessionId = recorder.sessionId ∧
      (recorder.prepare call).1.pendingRepair = recorder.pendingRepair ∧
      (recorder.prepare call).1.disabled = recorder.disabled ∧
      (recorder.prepare call).1.memory = recorder.memory := by
  cases call with
  | startTurnRequest =>
    rw [prepare]
    split_ifs <;> exact ⟨rfl, rfl, rfl, rfl⟩
  | _ => exact ⟨rfl, rfl, rfl, rfl⟩

lemma memory_appended : (recorder.appended event).memory = (recorder.replay event).memory :=
  memory_replay rfl rfl

/-- The body of a turn is all that a call adds to what its event is replayed to. -/
lemma memory_recorded {call : RecorderCall} {prepared : SemanticEdgeRecorder}
    (h : recorder.prepare call = (prepared, some event)) :
    ((prepared.appended event).recorded call event).sessionId = prepared.sessionId ∧
      ((prepared.appended event).recorded call event).pendingRepair = none ∧
      ((prepared.appended event).recorded call event).disabled = prepared.disabled ∧
      ((prepared.appended event).recorded call event).memory = (prepared.replay event).memory := by
  have hsess := (@prepare_eq recorder call).1
  rw [h] at hsess
  rw [← memory_appended]
  cases call with
  | startTurnRequest bodyHash minted =>
    simp only [prepare, Prod.mk.injEq, Option.some.injEq] at h
    rw [← h.2, appended, recorded]
    simp [replay, memory, ← hsess]
  | _ => simp [recorded, appended]

end SemanticEdgeRecorder

/-! ## Runs -/

/-- The events that a recorder has replayed: all of the ledger, where its session was registered
there when it was opened, and else those from its own registration on. -/
def replayed (existing events : List SemanticEdgeLedgerEvent) (sessionId : String) :
    List SemanticEdgeLedgerEvent :=
  if registeredIn existing sessionId = true then events else events.drop existing.length

lemma replayed_concat {existing events : List SemanticEdgeLedgerEvent} (h : existing <+: events)
    (event : SemanticEdgeLedgerEvent) (sessionId : String) :
    replayed existing (events ++ [event]) sessionId =
      replayed existing events sessionId ++ [event] := by
  rw [replayed, replayed]
  split_ifs
  · rfl
  · rw [drop_append_of_le_length h.length_le]

lemma written_concat (history : List (SemanticEdgeLedgerEvent × List UInt8))
    (event : SemanticEdgeLedgerEvent) (part : List UInt8) :
    written (history ++ [(event, part)]) =
      written history ++ if ledgerCodec.encode event <+: part then [event] else [] := by
  rw [written, filter_append, map_append, written]
  have hencode : ledgerCodec.encode event = (toJson event).stringify := rfl
  rw [hencode]
  split_ifs with hwhole <;> simp [hwhole]

namespace LedgerState

variable {s s' : LedgerState} {recorder after : SemanticEdgeRecorder}
  {existing : List SemanticEdgeLedgerEvent} {event : SemanticEdgeLedgerEvent} {ending : AppendEnd}

/-- A recorder that can still write knows what the file needs and what is in it. -/
structure InStep (s : LedgerState) (recorder : SemanticEdgeRecorder)
    (existing : List SemanticEdgeLedgerEvent) : Prop where
  file : SemanticLedgerFile (written s.history) (s.file.getD []) recorder.pendingRepair
  before : existing <+: written s.history
  memory : recorder.memory = (({ sessionId := recorder.sessionId } : SemanticEdgeRecorder).replayAll
    (replayed existing (written s.history) recorder.sessionId)).memory

/-- **The invariant** of ledgers and their recorders. -/
structure Faithful (s : LedgerState) : Prop where
  file : ∃ repair, SemanticLedgerFile (written s.history) (s.file.getD []) repair
  opened : ∀ recorder existing, s.opened = some ⟨recorder, existing⟩ → recorder.disabled = false →
    s.InStep recorder existing

lemma Faithful.ended (h : ∃ repair, SemanticLedgerFile (written s.history) (s.file.getD []) repair)
    {dies : Bool} {existing : List SemanticEdgeLedgerEvent}
    (hopened : s.opened = if dies = true then none else some ⟨recorder, existing⟩)
    (hdisabled : recorder.disabled = true) : s.Faithful := by
  refine ⟨h, fun recorder' existing' hrecorder henabled => ?_⟩
  rw [hopened] at hrecorder
  split_ifs at hrecorder
  cases hrecorder
  rw [hdisabled] at henabled
  cases henabled

/-- **An append**, however it ends. -/
lemma InStep.appends (h : s.InStep recorder existing)
    (hsess : after.sessionId = recorder.sessionId) (hrepair : after.pendingRepair = none)
    (hmemory : after.memory = (recorder.replay event).memory)
    (happends : s.Appends recorder existing event after ending s') : s'.Faithful := by
  cases happends with
  | completed =>
    have hwritten : written (s.history ++ [(event, line event)]) =
        written s.history ++ [event] := by
      rw [written_concat, if_pos ⟨[10], rfl⟩]
    have hfile : (recorder.repaired s.file).getD [] ++ line event =
        ledgerCodec.write (written s.history ++ [event]) := by
      rw [h.file.repaired rfl, line_eq]
      simp
    rw [← hwritten] at hfile
    refine ⟨⟨none, .of_eq hfile⟩, ?_⟩
    rintro _ _ ⟨⟩ -
    refine ⟨hrepair ▸ .of_eq hfile, ?_, ?_⟩
    · rw [hwritten]
      exact h.before.trans (prefix_append _ _)
    · rw [hwritten, replayed_concat h.before, SemanticEdgeRecorder.replayAll_concat, hmemory, hsess]
      refine SemanticEdgeRecorder.memory_replay ?_ h.memory
      rw [(SemanticEdgeRecorder.replayAll_eq _).1]
  | brokeRepairing dies hleaves =>
    refine .ended ?_ rfl rfl
    rw [written_concat, if_neg, append_nil]
    · exact h.file.leaves rfl hleaves
    · rw [prefix_nil]
      exact encode_ne_nil event
  | brokeWriting dies hpart =>
    refine .ended ?_ rfl rfl
    rw [written_concat, Option.getD_some, h.file.repaired rfl]
    exact SemanticLedgerFile.append hpart

section
variable {options : RecorderOptions} {file : Option (List UInt8)} {repair : Option PendingRepair}
  {events : List SemanticEdgeLedgerEvent} (h : SemanticLedgerFile events (file.getD []) repair)
include h

lemma opening_eq :
    opening options file = if registeredIn events options.sessionId = true then
        (events, { sessionId := options.sessionId, pendingRepair := repair : SemanticEdgeRecorder
          }.replayAll events, none)
      else (events, { sessionId := options.sessionId, pendingRepair := repair },
        some (.sessionRegistered options.sessionId options.parentSessionId
          options.spawnedByRequestId)) := by
  obtain ⟨parsed, hparse, rfl, rfl⟩ := h.parse
  rw [opening, hparse]

lemma opening_resumes (hopening : opening options file = (existing, recorder, none)) :
    registeredIn events options.sessionId = true ∧ events = existing ∧
      { sessionId := options.sessionId, pendingRepair := repair : SemanticEdgeRecorder
        }.replayAll events = recorder := by
  rw [opening_eq h] at hopening
  split_ifs at hopening with hin <;> cases hopening
  exact ⟨hin, rfl, rfl⟩

lemma opening_registers (hopening : opening options file = (existing, recorder, some event)) :
    registeredIn events options.sessionId ≠ true ∧ events = existing ∧
      { sessionId := options.sessionId, pendingRepair := repair } = recorder ∧
      .sessionRegistered options.sessionId options.parentSessionId
        options.spawnedByRequestId = event := by
  rw [opening_eq h] at hopening
  split_ifs at hopening with hin <;> cases hopening
  exact ⟨hin, rfl, rfl, rfl⟩

end

/-- **Step lemma.** -/
lemma Faithful.step {label : RecorderLabel} (hs : s.Faithful) (h : s.Step label s') :
    s'.Faithful := by
  obtain ⟨repair, hfile⟩ := hs.file
  cases h with
  | @resumes options existing recorder ending hopening =>
    obtain ⟨hreg, rfl, rfl⟩ := opening_resumes hfile hopening
    refine ⟨hs.file, ?_⟩
    rintro _ _ ⟨⟩ -
    obtain ⟨hsess, hrepair, -⟩ := @SemanticEdgeRecorder.replayAll_eq
      { sessionId := options.sessionId, pendingRepair := repair } (written s.history)
    refine ⟨by rwa [hrepair], prefix_refl _, ?_⟩
    rw [hsess, replayed, if_pos hreg]
    exact SemanticEdgeRecorder.memory_replayAll (by rfl) (by rfl) (written s.history)
  | @registers options existing recorder event ending s' hopening happends =>
    obtain ⟨hreg, rfl, rfl, rfl⟩ := opening_registers hfile hopening
    refine InStep.appends ⟨hfile, prefix_refl _, ?_⟩ ?_ ?_
      SemanticEdgeRecorder.memory_appended happends
    · rw [replayed, if_neg hreg, drop_length]
      rfl
    · exact SemanticEdgeRecorder.replay_sessionId
    · exact SemanticEdgeRecorder.replay_pendingRepair
  | @ignores call recorder existing ending hopened hnothing =>
    refine ⟨hs.file, ?_⟩
    rintro _ _ ⟨⟩ henabled
    obtain ⟨hsess, hrepair, hdisabled, hmemory⟩ := @SemanticEdgeRecorder.prepare_eq recorder call
    have hin := hs.opened recorder existing hopened (hdisabled ▸ henabled)
    exact ⟨hrepair ▸ hin.file, hin.before, by rw [hmemory, hsess]; exact hin.memory⟩
  | @appends call recorder prepared existing event ending s' hopened henabled hprepare happends =>
    have hin := hs.opened recorder existing hopened henabled
    obtain ⟨hsess, hrepair, -, hmemory⟩ := @SemanticEdgeRecorder.prepare_eq recorder call
    rw [hprepare] at hsess hrepair hmemory
    obtain ⟨hsess', hrepair', -, hmemory'⟩ := SemanticEdgeRecorder.memory_recorded hprepare
    refine InStep.appends ⟨?_, hin.before, ?_⟩ hsess' hrepair' hmemory' happends
    · show SemanticLedgerFile _ _ prepared.pendingRepair
      exact hrepair ▸ hin.file
    · show prepared.memory = _
      rw [hmemory, show prepared.sessionId = recorder.sessionId from hsess]
      exact hin.memory

/-- **Run lemma.** -/
lemma Faithful.of_run {labels : List RecorderLabel} (h : recorderMachine.Run {} labels s) :
    s.Faithful :=
  h.invariant ⟨⟨none, .whole⟩, nofun⟩ fun _ _ _ hs hstep => hs.step hstep

end LedgerState

/-- The ledger is read, its events are those whose JSON was written in full, and the recorder that
is open has replayed them. -/
def LedgerState.Recovered (s : LedgerState) : Prop :=
  ∃ parsed, parseLedgerContent (s.file.getD []) = .ok parsed ∧ parsed.events = written s.history ∧
    ∀ recorder existing, s.opened = some ⟨recorder, existing⟩ → recorder.disabled = false →
      recorder.memory = (({ sessionId := recorder.sessionId } : SemanticEdgeRecorder).replayAll
        (replayed existing parsed.events recorder.sessionId)).memory

/-- **Recorders survive the death of others**, after every run. -/
theorem ledger_of_run {s : LedgerState} {labels : List RecorderLabel}
    (h : recorderMachine.Run {} labels s) : s.Recovered := by
  have hs := LedgerState.Faithful.of_run h
  obtain ⟨repair, hfile⟩ := hs.file
  obtain ⟨parsed, hparse, hevents, -⟩ := hfile.parse
  refine ⟨parsed, hparse, hevents, fun recorder existing hopened henabled => ?_⟩
  rw [hevents]
  exact (hs.opened recorder existing hopened henabled).memory

/-! ## Two sessions on one ledger -/

/-- A session opens the ledger, its first append dies in the middle of the line, and it opens the
ledger again and finishes a turn. -/
def tornTurn : List RecorderLabel :=
  [.opens { sessionId := "root" } .completed,
    .calls (.startTurnRequest (some "body") "a") (.brokeWriting [123] true),
    .opens { sessionId := "root" } .completed,
    .calls (.startTurnRequest (some "body") "a") .completed,
    .calls (.finishRequest (some "a")) .completed]

@[simp] lemma written_concat_line (history : List (SemanticEdgeLedgerEvent × List UInt8))
    (event : SemanticEdgeLedgerEvent) :
    written (history ++ [(event, line event)]) = written history ++ [event] := by
  rw [written_concat, if_pos ⟨[10], rfl⟩]

/-- A ledger whose appends have all completed. -/
def wholeLedger (events : List SemanticEdgeLedgerEvent) (recorder : SemanticEdgeRecorder)
    (existing : List SemanticEdgeLedgerEvent) : LedgerState where
  file := some (ledgerCodec.write events)
  opened := some ⟨recorder, existing⟩
  history := events.map fun event => (event, line event)

section WholeLedger

variable {events existing : List SemanticEdgeLedgerEvent} {recorder prepared : SemanticEdgeRecorder}
  {event : SemanticEdgeLedgerEvent}

@[simp] lemma written_wholeLedger :
    written (wholeLedger events recorder existing).history = events := by
  rw [wholeLedger]
  induction events using reverseRecOn with
  | nil => rfl
  | append_singleton events event ih => rw [map_append, map_singleton, written_concat_line, ih]

lemma wholeLedger_file :
    SemanticLedgerFile events ((wholeLedger events recorder existing).file.getD []) none := .whole

lemma wholeLedger_appends {after : SemanticEdgeRecorder}
    {existing' : List SemanticEdgeLedgerEvent} (hrepair : prepared.pendingRepair = none) :
    (wholeLedger events recorder existing).Appends prepared existing' event after .completed
      (wholeLedger (events ++ [event]) after existing') := by
  have hfile : (prepared.repaired (wholeLedger events recorder existing).file).getD [] ++
      line event = ledgerCodec.write (events ++ [event]) := by
    rw [wholeLedger_file.repaired hrepair, line_eq]
    simp
  have hstate : wholeLedger (events ++ [event]) after existing' =
      { file := some ((prepared.repaired (wholeLedger events recorder existing).file).getD [] ++
          line event)
        opened := some ⟨after, existing'⟩
        history := (wholeLedger events recorder existing).history ++
          [(event, line event)] } := by
    rw [hfile, wholeLedger, wholeLedger, map_append, map_singleton]
  rw [hstate]
  exact .completed

lemma wholeLedger_calls (call : RecorderCall) (hrepair : prepared.pendingRepair = none)
    (henabled : recorder.disabled = false)
    (hprepare : recorder.prepare call = (prepared, some event)) :
    recorderMachine.step (wholeLedger events recorder existing) (.calls call .completed)
      (wholeLedger (events ++ [event]) ((prepared.appended event).recorded call event) existing) :=
  .appends rfl henabled hprepare (wholeLedger_appends hrepair)

lemma wholeLedger_registers (options : RecorderOptions)
    (hnew : registeredIn events options.sessionId = false) :
    recorderMachine.step (wholeLedger events recorder existing) (.opens options .completed)
      (wholeLedger (events ++ [.sessionRegistered options.sessionId options.parentSessionId
        options.spawnedByRequestId]) { sessionId := options.sessionId } events) := by
  have hopening := @LedgerState.opening_eq options _ _ _
    (@wholeLedger_file events existing recorder)
  rw [hnew, if_neg Bool.false_ne_true] at hopening
  exact .registers hopening (wholeLedger_appends rfl)

end WholeLedger

/-- The ledger that a session has registered in. -/
def rootLedger : LedgerState :=
  wholeLedger [.sessionRegistered "root" none none] { sessionId := "root" } []

lemma rootLedger_run :
    recorderMachine.Run {} [.opens { sessionId := "root" } .completed] rootLedger := by
  have hopening : opening { sessionId := "root" } none =
    ([], { sessionId := "root" }, some (.sessionRegistered "root" none none)) := rfl
  exact .single (.registers hopening .completed)

/-- The ledger in which a turn of the session has been torn. -/
def tornLedger : LedgerState where
  file := some (ledgerCodec.write [.sessionRegistered "root" none none] ++ [123])
  history := rootLedger.history ++ [(.requestStarted "a" "root" none, [123])]

lemma tornLedger_run : recorderMachine.Run {} (tornTurn.take 2) tornLedger := by
  have hpart : [123] <+: line (.requestStarted "a" "root" none) :=
    (@LineCodec.brace_prefix_encode SemanticEdgeLedgerEvent _ (fun _ => rfl) _).trans
      (prefix_append _ _)
  exact rootLedger_run.snoc (.appends rfl rfl rfl (.brokeWriting true hpart))

/-- The session finishes the turn once it has repaired the ledger. -/
lemma tornTurn_run : ∃ s, recorderMachine.Run {} tornTurn s := by
  obtain ⟨repair, hfile⟩ := (LedgerState.Faithful.of_run tornLedger_run).file
  have hcut : ¬ ledgerCodec.encode (.requestStarted "a" "root" none) <+: [123] := by decide +kernel
  have hwritten : written tornLedger.history = [.sessionRegistered "root" none none] := by
    rw [tornLedger, written_concat, if_neg hcut, append_nil]
    exact written_wholeLedger
  rw [hwritten] at hfile
  have hopening := @LedgerState.opening_eq { sessionId := "root" } _ _ _ hfile
  have hresumes := tornLedger_run.snoc (.resumes .completed hopening)
  have hturn := hresumes.snoc (@LedgerState.Step.appends _
    (.startTurnRequest (some "body") "a") _ _ _ _ _ _ rfl rfl rfl .completed)
  exact ⟨_, hturn.snoc (@LedgerState.Step.appends _
    (.finishRequest (some "a")) _ _ _ _ _ _ rfl rfl rfl .completed)⟩

theorem ledger_of_run_tornTurn : ∃ s, recorderMachine.Run {} tornTurn s ∧ s.Recovered := by
  obtain ⟨s, hrun⟩ := tornTurn_run
  exact ⟨s, hrun, ledger_of_run hrun⟩

/-- A turn of a session commits; then another session opens the ledger. -/
def secondSession : List RecorderLabel :=
  [.opens { sessionId := "root" } .completed,
    .calls (.startTurnRequest (some "body") "a") .completed,
    .calls (.finishRequest (some "a")) .completed, .opens { sessionId := "other" } .completed]

/-- The recorder of a turn has the hash of its body, which no replay has; and a recorder whose
session is new to the ledger has not replayed what others committed there. -/
theorem memory_ne_replayAll :
    (∃ s recorder existing parsed, recorderMachine.Run {} (secondSession.take 2) s ∧
      s.opened = some ⟨recorder, existing⟩ ∧ recorder.disabled = false ∧
      parseLedgerContent (s.file.getD []) = .ok parsed ∧
      recorder.lastTurn ≠ (({ sessionId := recorder.sessionId } : SemanticEdgeRecorder).replayAll
        parsed.events).lastTurn) ∧
    (∃ s recorder existing parsed, recorderMachine.Run {} secondSession s ∧
      s.opened = some ⟨recorder, existing⟩ ∧ recorder.disabled = false ∧
      parseLedgerContent (s.file.getD []) = .ok parsed ∧
      recorder.lastCommittedRequestId ≠ (({ sessionId := recorder.sessionId } :
        SemanticEdgeRecorder).replayAll parsed.events).lastCommittedRequestId) := by
  have hturn := rootLedger_run.snoc (@wholeLedger_calls _ _ _ { sessionId := "root" }
    (.requestStarted "a" "root" none) (.startTurnRequest (some "body") "a") rfl rfl rfl)
  constructor
  · obtain ⟨parsed, hparse, hevents, -⟩ := wholeLedger_file.parse
    refine ⟨_, _, _, parsed, hturn, rfl, rfl, hparse, ?_⟩
    rw [hevents]
    decide
  · have hfinish := hturn.snoc (wholeLedger_calls (.finishRequest (some "a")) rfl rfl rfl)
    have hrun := hfinish.snoc (wholeLedger_registers { sessionId := "other" } (by decide))
    obtain ⟨parsed, hparse, hevents, -⟩ := wholeLedger_file.parse
    refine ⟨_, _, _, parsed, hrun, rfl, rfl, hparse, ?_⟩
    rw [hevents]
    decide

end Amide
