import Amide.Framework.Machine
import Amide.Properties.Logs.TailRepair

/-!
# Appends cut by a crash

A run of a log is a sequence of appends, each of which completes, is refused by the reader's
byte bound, or is cut by a crash that leaves any prefix of its payload behind what the repair
kept.  In every state of every run the file is a sequence of whole records and at most the
beginning of one more (`LogState.Kept`), which is what the next repair removes and the next
replay tolerates.  So within the log's bounds a replay never throws, and it returns the records of
all completed appends and a prefix of those of each interrupted one, in order
(`replaySync_of_run`).

The bounds are part of the reader: beyond them it throws by design, and nothing on the writing
side keeps a log within them (`replaySync_throws_at_maxRecords`).
-/

namespace Amide

open LineCodec EventLog

/-- What a log's consumer writes and reads: its records are JSON objects its parser takes back,
and the parser rejects the text of a record cut short. -/
structure LogRecords (α : Type) where
  event : α → Json
  parse : LineParser α
  isObj_event : ∀ record, (event record).isObj = true
  parse_event : ∀ record index, parse (event record).stringify index = .ok (some record)
  parse_cut : ∀ record line index, line <+: (event record).stringify → line ≠ [] →
    line ≠ (event record).stringify → ∃ message, parse line index = .error message

namespace LogRecords

variable {α : Type} (records : LogRecords α)

/-- The records as lines of a file. -/
def codec : LineCodec α where
  encode record := (records.event record).stringify
  decode line := if line = [] then none else (records.parse line 0).toOption.join
  decode_encode record := by
    have hne : (records.event record).stringify ≠ [] :=
      List.ne_nil_of_length_pos (Json.length_stringify_pos _)
    rw [if_neg hne, records.parse_event]
    rfl
  decode_nil := rfl
  lf_notMem_encode record := Json.lf_notMem_stringify _
  decode_cut record line hline hne := by
    split_ifs with hnil
    · rfl
    · obtain ⟨message, hparse⟩ := records.parse_cut record line 0 hline hnil hne
      rw [hparse]
      rfl

lemma flatten_eq_write (as : List α) :
    (((as.map records.event).map Json.stringify).map (· ++ [10])).flatten =
      records.codec.write as := by
  rw [LineCodec.write, List.flatMap_def, List.map_map, List.map_map]
  rfl

end LogRecords

/-! ## Runs -/

/-- One append: the records that lead a new file, and those of the batch. -/
structure LogAppend (α : Type) where
  onCreate : List α
  batch : List α

/-- How an append ended; a crash leaves the file untouched or some of the payload in it. -/
inductive AppendOutcome where
  | completed
  | refused
  | interrupted (written : Option (List UInt8))

/-- The file, and for each append that was not refused its records and whether it completed. -/
structure LogState (α : Type) where
  file : Option (List UInt8) := none
  history : List (List α × Bool) := []

/-- What may be left of a history: the completed appends whole, and of each interrupted one the
first records. -/
inductive Survives {α : Type} : List (List α × Bool) → List α → Prop
  | nil : Survives [] []
  | completed {history : List (List α × Bool)} {kept batch : List α} :
      Survives history kept → Survives (history ++ [(batch, true)]) (kept ++ batch)
  | interrupted {history : List (List α × Bool)} {kept batch part : List α} :
      Survives history kept → part <+: batch →
        Survives (history ++ [(batch, false)]) (kept ++ part)

section Runs

variable {α : Type} (log : EventLog) (records : LogRecords α)

/-- The records an append is to write. -/
def LogAppend.intended (append : LogAppend α) (file : Option (List UInt8)) : List α :=
  (if file.isNone then append.onCreate else []) ++ append.batch

/-- The events handed to the log. -/
def LogRecords.events (as : List α) : List (Option Json) := as.map (some ∘ records.event)

def LogState.step (s : LogState α) (label : LogAppend α × AppendOutcome) (s' : LogState α) : Prop :=
  let prepared := log.prepareAppend (records.events label.1.onCreate) (records.events label.1.batch)
    s.file
  let entry := label.1.intended s.file
  match label.2 with
  | .completed => ∃ kept payload, prepared = .ok (kept, payload) ∧
      s' = ⟨some (kept ++ payload), s.history ++ [(entry, true)]⟩
  | .refused => (∃ message, prepared = .error message) ∧ s' = s
  | .interrupted none => s' = ⟨s.file, s.history ++ [(entry, false)]⟩
  | .interrupted (some written) => ∃ kept payload, prepared = .ok (kept, payload) ∧
      written <+: payload ∧ s' = ⟨some (kept ++ written), s.history ++ [(entry, false)]⟩

def logMachine : Machine (LogState α) (LogAppend α × AppendOutcome) where
  step := LogState.step log records

/-! ## The file between appends -/

/-- Whole records that may be what is left of the history, and the beginning of at most one
more; where that one is whole too it may be left as well. -/
inductive LogState.Kept (records : LogRecords α) (s : LogState α) : Prop
  | absent (hfile : s.file = none) (hsurvives : Survives s.history [])
  | cut (kept : List α) (tail : List UInt8)
      (hfile : s.file = some (records.codec.write kept ++ tail))
      (hsurvives : Survives s.history kept)
      (htail : tail = [] ∨ ∃ record, tail <+: records.codec.encode record ∧
        (tail = records.codec.encode record → Survives s.history (kept ++ [record])))

variable {log : EventLog} {records : LogRecords α}

/-! ### Prefixes of a record's text -/

variable {record : α} {line : List UInt8}

lemma LogRecords.notMem_prefix (h : line <+: records.codec.encode record) :
    (10 : UInt8) ∉ line := fun hmem =>
  records.codec.lf_notMem_encode record (h.subset hmem)

lemma LogRecords.trim_prefix (h : line <+: records.codec.encode record) (hne : line ≠ []) :
    Utf8.trim line <+: line ∧ Utf8.trim line ≠ [] := by
  obtain ⟨text, htext⟩ := Json.stringify_of_isObj (records.isObj_event record)
  obtain ⟨b, rest, rfl⟩ := List.exists_cons_of_ne_nil hne
  have hb : b = 123 := by
    have hcons : b :: rest <+: 123 :: text := htext ▸ h
    exact (List.cons_prefix_cons.mp hcons).1
  rw [hb]
  exact Utf8.prefix_trim_cons (by decide) rest

/-- The beginning of a record is ignored as the last line of a file, and a whole record is
read. -/
lemma replayLine_beginning {index : ℕ} {replay : Replay α}
    (h : line <+: records.codec.encode record)
    (hbound : ∀ maxRecords ∈ log.options.maxRecords,
      replay.recordCount + EventLog.records [line] ≤ maxRecords) :
    ∃ replay', log.replayLine records.parse true index line replay = .ok replay' ∧
      (replay'.events = replay.events ∨
        line = records.codec.encode record ∧ replay'.events = replay.events ++ [record]) := by
  by_cases hnil : line = []
  · rw [hnil]
    exact ⟨replay, rfl, .inl rfl⟩
  · obtain ⟨htrim, htrimNe⟩ := records.trim_prefix h hnil
    have hcount : log.countRecord replay.recordCount = .ok (replay.recordCount + 1) := by
      refine countRecord_eq_ok_iff.mpr ⟨rfl, fun maxRecords hmax => ?_⟩
      have hle := hbound maxRecords hmax
      rwa [records_eq_length (by simpa using htrimNe)] at hle
    rw [replayLine, if_neg htrimNe]
    simp only [hcount]
    by_cases hwhole : Utf8.trim line = records.codec.encode record
    · have hline : line = records.codec.encode record :=
        h.eq_of_length (Nat.le_antisymm h.length_le (hwhole ▸ htrim.length_le))
      have hparse : records.parse (Utf8.trim line) index = .ok (some record) := by
        rw [hwhole]
        exact records.parse_event record index
      rw [hparse]
      exact ⟨_, rfl, .inr ⟨hline, rfl⟩⟩
    · obtain ⟨message, hparse⟩ :=
        records.parse_cut record (Utf8.trim line) index (htrim.trans h) htrimNe hwhole
      rw [hparse]
      exact ⟨_, rfl, .inl rfl⟩

/-! ### Steps -/

lemma writtenEvents_events (append : LogAppend α) (file : Option (List UInt8)) :
    writtenEvents (records.events append.onCreate) (records.events append.batch) file =
      (append.intended file).map records.event := by
  have hevents : ∀ as : List α, (records.events as).reduceOption = as.map records.event := by
    intro as
    induction as with
    | nil => rfl
    | cons a as ih =>
      rw [LogRecords.events, List.map_cons, List.map_cons, ← ih]
      rfl
  rw [writtenEvents, LogAppend.intended]
  cases file with
  | none => simp [List.reduceOption_append, hevents]
  | some bytes => simp [hevents]

variable {s : LogState α}

lemma LogState.Kept.prepareAppend (hs : s.Kept records) {append : LogAppend α}
    {kept payload : List UInt8}
    (h : log.prepareAppend (records.events append.onCreate) (records.events append.batch) s.file =
      .ok (kept, payload)) :
    payload = records.codec.write (append.intended s.file) ∧
      ∃ whole, kept = records.codec.write whole ∧ Survives s.history whole := by
  obtain ⟨repaired, hrepair, rfl, rfl⟩ := prepareAppend_eq_ok h
  refine ⟨by rw [writtenEvents_events, LogRecords.flatten_eq_write], ?_⟩
  cases hs with
  | absent hfile hsurvives =>
    rw [hfile] at hrepair
    cases hrepair
    exact ⟨[], rfl, hsurvives⟩
  | cut whole tail hfile hsurvives htail =>
    rw [hfile] at hrepair
    have hlf : (10 : UInt8) ∉ tail := by
      rcases htail with rfl | ⟨record, hprefix, -⟩
      · exact List.not_mem_nil
      · exact LogRecords.notMem_prefix hprefix
    rw [repairTailSync_eq_ok hrepair, terminatedPart_of_cut (terminated_write _ whole) hlf]
    exact ⟨whole, rfl, hsurvives⟩

/-- **Step lemma.** -/
lemma LogState.Kept.step {s' : LogState α} {label : LogAppend α × AppendOutcome}
    (hs : s.Kept records) (h : LogState.step log records s label s') : s'.Kept records := by
  obtain ⟨append, outcome⟩ := label
  rcases outcome with _ | _ | written
  · obtain ⟨kept, payload, hprepare, rfl⟩ := h
    obtain ⟨rfl, whole, rfl, hsurvives⟩ := hs.prepareAppend hprepare
    refine .cut (whole ++ append.intended s.file) [] ?_ hsurvives.completed (.inl rfl)
    rw [write_append, List.append_nil]
  · obtain ⟨-, rfl⟩ := h
    exact hs
  · rcases written with _ | written
    · obtain rfl := h
      cases hs with
      | absent hfile hsurvives =>
        have hnone := hsurvives.interrupted (List.nil_prefix (l := append.intended s.file))
        exact .absent hfile (by rwa [List.nil_append] at hnone)
      | cut whole tail hfile hsurvives htail =>
        -- an append that wrote nothing leaves of its batch the empty beginning
        have hempty : ∀ {kept : List α}, Survives s.history kept →
            Survives (s.history ++ [(append.intended s.file, false)]) kept := by
          intro kept hkept
          have hnone := hkept.interrupted (List.nil_prefix (l := append.intended s.file))
          rwa [List.append_nil] at hnone
        refine .cut whole tail hfile (hempty hsurvives) (htail.imp_right ?_)
        rintro ⟨record, hprefix, hwhole⟩
        exact ⟨record, hprefix, fun heq => hempty (hwhole heq)⟩
    · obtain ⟨kept, payload, hprepare, hwritten, rfl⟩ := h
      obtain ⟨rfl, whole, rfl, hsurvives⟩ := hs.prepareAppend hprepare
      obtain ⟨part, tail, rfl, hcut⟩ := records.codec.prefix_write_cases hwritten
      have hfile : some (records.codec.write whole ++ (records.codec.write part ++ tail)) =
          some (records.codec.write (whole ++ part) ++ tail) := by
        rw [write_append, List.append_assoc]
      rcases hcut with ⟨hpart, rfl⟩ | ⟨record, rest, hbatch, hprefix⟩
      · exact .cut _ [] hfile (hsurvives.interrupted (hpart ▸ List.prefix_refl part)) (.inl rfl)
      · refine .cut _ tail hfile (hsurvives.interrupted ⟨record :: rest, hbatch.symm⟩)
          (.inr ⟨record, hprefix, fun _ => ?_⟩)
        rw [List.append_assoc]
        exact hsurvives.interrupted ⟨rest, by rw [hbatch, List.append_assoc]; rfl⟩

/-- **Run lemma.** -/
lemma LogState.Kept.of_run {labels : List (LogAppend α × AppendOutcome)}
    (h : (logMachine log records).Run {} labels s) : s.Kept records :=
  h.invariant (.absent rfl .nil) fun _ _ _ hs hstep => hs.step hstep

/-! ## What a replay returns -/

/-- The whole lines of a file of records are counted and read. -/
lemma replayLines_write (kept : List α) {replay : Replay α} {index : ℕ}
    (hbound : ∀ maxRecords ∈ log.options.maxRecords,
      replay.recordCount + kept.length ≤ maxRecords) :
    log.replayLines records.parse true index (wholeLines (records.codec.write kept)) replay =
      .ok ⟨replay.recordCount + kept.length, replay.events ++ kept⟩ := by
  have hlf : ∀ line ∈ kept.map records.codec.encode, (10 : UInt8) ∉ line := by
    intro line hline
    obtain ⟨record, -, rfl⟩ := List.mem_map.mp hline
    exact records.codec.lf_notMem_encode record
  have hlines : wholeLines (records.codec.write kept) = kept.map records.codec.encode := by
    rw [← wholeLines_flatten hlf, LineCodec.write, List.flatMap_def, List.map_map]
    rfl
  have haccepted := @replayLines_accepted (kept.map records.codec.encode) α log records.parse index
    replay (fun line => (records.parse line 0).toOption.join)
    (by
      intro line hline
      obtain ⟨record, -, rfl⟩ := List.mem_map.mp hline
      have hparse := records.parse_event record
      refine ⟨List.ne_nil_of_length_pos (Json.length_stringify_pos _), Utf8.trim_stringify _,
        fun index => ?_⟩
      rw [show records.codec.encode record = (records.event record).stringify from rfl, hparse,
        hparse]
      rfl)
    (by simpa using hbound)
  have hread : (kept.map records.codec.encode).filterMap
      (fun line => (records.parse line 0).toOption.join) = kept := by
    rw [List.filterMap_map]
    conv_rhs => rw [← List.filterMap_some (l := kept)]
    congr 1
    funext record
    exact congrArg (fun r => (Except.toOption r).join) (records.parse_event record 0)
  rw [hlines, haccepted, hread, List.length_map]

lemma recordLines_write (kept : List α) {tail : List UInt8} (htail : (10 : UInt8) ∉ tail) :
    recordLines (records.codec.write kept ++ tail) = kept.length + EventLog.records [tail] := by
  have hwhole := @replayLines_write α ⟨"", {}⟩ records kept {} 0 (by simp)
  have hcount := replayLines_recordCount hwhole
  rw [recordLines_append_tail (terminated_write _ kept) htail]
  simp only [Nat.zero_add] at hcount
  rw [← hcount]

/-- **A log within its bounds is always read**, and what is read is what was left of its
history. -/
theorem replaySync_of_run {s : LogState α} {labels : List (LogAppend α × AppendOutcome)}
    (h : (logMachine log records).Run {} labels s)
    (hbounds : ∀ bytes ∈ s.file, log.InBounds bytes) :
    ∃ kept, log.replaySync records.parse s.file = .ok kept ∧ Survives s.history kept := by
  cases LogState.Kept.of_run h with
  | absent hfile hsurvives => exact ⟨[], by rw [hfile]; rfl, hsurvives⟩
  | cut kept tail hfile hsurvives htail =>
    have hin := hbounds _ hfile
    have hlf : (10 : UInt8) ∉ tail := by
      rcases htail with rfl | ⟨record, hprefix, -⟩
      · exact List.not_mem_nil
      · exact LogRecords.notMem_prefix hprefix
    have hcount : ∀ maxRecords ∈ log.options.maxRecords,
        kept.length + EventLog.records [tail] ≤ maxRecords := fun maxRecords hmax =>
      recordLines_write kept hlf ▸ hin.records_le maxRecords hmax
    have hwhole := @replayLines_write α log records kept {} 0 fun maxRecords hmax => by
      have hle := hcount maxRecords hmax
      simp only [Nat.zero_add]
      omega
    have hreplay := @replaySync_append _ _ α log records.parse
      (terminated_write records.codec kept) hlf
    rw [hin.readAllSync, hwhole] at hreplay
    simp only [bind, Except.bind, Nat.zero_add, List.nil_append] at hreplay
    rcases htail with rfl | ⟨record, hprefix, hlast⟩
    · refine ⟨kept, ?_, hsurvives⟩
      rw [hfile, hreplay]
      rfl
    · obtain ⟨replay', hline, hevents⟩ := @replayLine_beginning α log records record tail
        (wholeLines (records.codec.write kept)).length ⟨kept.length, kept⟩ hprefix hcount
      rw [hline] at hreplay
      rw [hfile, hreplay]
      rcases hevents with hevents | ⟨htail, hevents⟩
      · exact ⟨kept, congrArg Except.ok hevents, hsurvives⟩
      · exact ⟨kept ++ [record], congrArg Except.ok hevents, hlast htail⟩

end Runs

/-! ## Logs of arbitrary objects -/

/-- A consumer that takes every JSON object. -/
def objectRecords : LogRecords (List (String × Json)) where
  event fields := .obj fields
  parse line index :=
    match Json.parse line with
    | some (.obj fields) => .ok (some fields)
    | _ => .error s!"Malformed line {index + 1}"
  isObj_event _ := rfl
  parse_event fields index := by simp
  parse_cut fields line index hline _ hne := by
    rw [Json.parse_strictPrefix rfl hline hne]
    exact ⟨_, rfl⟩

/-- The empty object appended to a log of its own. -/
def appendEmptyObject : LogAppend (List (String × Json)) := ⟨[], [[]]⟩

def oneObjectLog : LogState (List (String × Json)) := ⟨some [123, 125, 10], [([[]], true)]⟩

lemma oneObjectLog_run (log : EventLog) : (logMachine log objectRecords).Run {}
    [(appendEmptyObject, .completed)] oneObjectLog := by
  have hstep : LogState.step log objectRecords {} (appendEmptyObject, .completed) oneObjectLog :=
    ⟨[], [123, 125, 10], rfl, rfl⟩
  exact .single hstep

/-- One object appended, and of the next one a brace. -/
def tornObjectLog : LogState (List (String × Json)) :=
  ⟨some [123, 125, 10, 123], [([[]], true), ([[]], false)]⟩

lemma tornObjectLog_run : (logMachine (EventLog.mk "log.jsonl" {}) objectRecords).Run {}
    [(appendEmptyObject, .completed), (appendEmptyObject, .interrupted (some [123]))]
    tornObjectLog := by
  have hstep : LogState.step (EventLog.mk "log.jsonl" {}) objectRecords oneObjectLog
      (appendEmptyObject, .interrupted (some [123])) tornObjectLog :=
    ⟨[123, 125, 10], [123, 125, 10], rfl, by decide, rfl⟩
  exact (oneObjectLog_run _).snoc hstep

theorem replaySync_of_run_tornObjectLog :
    ∃ kept, (EventLog.mk "log.jsonl" {}).replaySync objectRecords.parse tornObjectLog.file =
      .ok kept ∧ Survives tornObjectLog.history kept :=
  replaySync_of_run tornObjectLog_run fun _ _ => ⟨by simp, by simp⟩

/-- Two completed appends, and a replay that throws: nothing keeps a writer within
`maxRecords`. -/
theorem replaySync_throws_at_maxRecords :
    ¬ ∀ (α : Type) (log : EventLog) (records : LogRecords α) (s : LogState α)
        (labels : List (LogAppend α × AppendOutcome)),
      (logMachine log records).Run {} labels s →
      ∃ kept, log.replaySync records.parse s.file = .ok kept ∧ Survives s.history kept := by
  intro h
  have hstep : (logMachine (EventLog.mk "log.jsonl" { maxRecords := some 1 }) objectRecords).step
      oneObjectLog (appendEmptyObject, .completed)
      ⟨some [123, 125, 10, 123, 125, 10], [([[]], true), ([[]], true)]⟩ := by
    exact ⟨[123, 125, 10], [123, 125, 10], rfl, rfl⟩
  obtain ⟨kept, hreplay, -⟩ := h _ _ _ _ _ ((oneObjectLog_run _).snoc hstep)
  cases hreplay

end Amide
