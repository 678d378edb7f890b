import Mathlib.Data.List.ReduceOption
import Amide.Properties.Logs.Replay

/-!
# What the repair of a torn tail keeps

The repair in front of an append truncates every unterminated last line, also one that parses
(the header of `core/event-log.ts` says so and why).  A replay reads such a line.  So what a
replay returned is kept up to the record of an unterminated last line
(`EventLog.replaySync_of_append`), and that record, where there is one, is dropped
(`unterminatedObject_dropped`).
-/

namespace Amide

open LineCodec

namespace EventLog

variable {T : Type} {log : EventLog} {parse : LineParser T}

/-- The record of an unterminated last line. -/
def unterminatedRecord (parse : LineParser T) : Option (List UInt8) → Option T
  | none => none
  | some bytes =>
    let line := Utf8.trim (bytes.rtakeWhile (· != 10))
    if line = [] then none
    else (parse line (wholeLines (terminatedPart bytes)).length).toOption.join

/-- The events an append writes: those for a new file first. -/
def writtenEvents (onCreate events : List (Option Json)) (file : Option (List UInt8)) : List Json :=
  ((if file.isNone then onCreate else []) ++ events).reduceOption

lemma mapM_serializeLine_eq_ok {events : List (Option Json)} {lines : List (List UInt8)}
    (h : events.mapM serializeLine = .ok lines) :
    lines = (events.reduceOption.map Json.stringify).map (· ++ [10]) := by
  induction events generalizing lines with
  | nil =>
    cases h
    rfl
  | cons event events ih =>
    cases event with
    | none => simp [serializeLine, bind, Except.bind] at h
    | some event =>
      cases hrest : events.mapM serializeLine with
      | error message => simp [serializeLine, hrest, bind, Except.bind] at h
      | ok rest =>
        simp only [List.mapM_cons, serializeLine, hrest, bind, Except.bind, pure, Except.pure,
          Except.ok.injEq] at h
        rw [← h, ih hrest]
        rfl

variable {kept : List UInt8} {onCreate events : List (Option Json)} {file : Option (List UInt8)}

/-- An append that throws nothing writes the lines of its events behind what the repair keeps. -/
lemma prepareAppend_eq_ok
    {payload : List UInt8} (h : log.prepareAppend onCreate events file = .ok (kept, payload)) :
    ∃ repaired, log.repairTailSync file = .ok repaired ∧ kept = repaired.getD [] ∧ payload =
        (((writtenEvents onCreate events file).map Json.stringify).map (· ++ [10])).flatten := by
  simp only [prepareAppend, bind, Except.bind] at h
  cases hlines : events.mapM serializeLine with
  | error message => simp [hlines] at h
  | ok lines =>
    rw [hlines] at h
    obtain rfl := mapM_serializeLine_eq_ok hlines
    cases file with
    | none =>
      cases hlead : onCreate.mapM serializeLine with
      | error message => simp [hlead] at h
      | ok leadLines =>
        obtain rfl := mapM_serializeLine_eq_ok hlead
        simp only [hlead, pure, Except.pure, Except.ok.injEq, Prod.mk.injEq] at h
        refine ⟨none, rfl, h.1.symm, ?_⟩
        simp [← h.2, writtenEvents, List.reduceOption_append]
    | some bytes =>
      cases hrepair : log.repairTailSync (some bytes) with
      | error message => simp [hrepair] at h
      | ok repaired =>
        simp only [hrepair, pure, Except.pure, Except.ok.injEq, Prod.mk.injEq] at h
        exact ⟨repaired, rfl, h.1.symm, by simp [← h.2, writtenEvents]⟩

lemma appendSync_eq_ok
    {bytes : List UInt8} (h : log.appendSync onCreate events file = .ok bytes) :
    ∃ repaired, log.repairTailSync file = .ok repaired ∧ bytes = repaired.getD [] ++
        (((writtenEvents onCreate events file).map Json.stringify).map (· ++ [10])).flatten := by
  cases hprepare : log.prepareAppend onCreate events file with
  | error message => simp [appendSync, hprepare, bind, Except.bind] at h
  | ok prepared =>
    obtain ⟨repaired, hrepair, hkept, hpayload⟩ := prepareAppend_eq_ok hprepare
    simp only [appendSync, hprepare, bind, Except.bind, pure, Except.pure, Except.ok.injEq] at h
    exact ⟨repaired, hrepair, by rw [← h, ← hkept, ← hpayload]⟩

/-- A file that is replayed is within the bounds, and what is read of it is read of the two parts
it is cut into at its last line feed. -/
lemma replaySync_some_eq_ok {bytes : List UInt8} {records : List T}
    (h : log.replaySync parse (some bytes) = .ok records) :
    log.InBounds bytes ∧ ∃ whole,
      log.replayLines parse true 0 (wholeLines (terminatedPart bytes)) {} = .ok whole ∧
      records = whole.events ++ (unterminatedRecord parse (some bytes)).toList := by
  have hkept := terminated_terminatedPart bytes
  have htail := lf_notMem_rtakeWhile bytes
  have hbytes := terminatedPart_append bytes
  rw [← hbytes, replaySync_append hkept htail, hbytes] at h
  cases hread : log.readAllSync bytes with
  | error message => simp [hread, bind, Except.bind] at h
  | ok contents =>
    obtain rfl := (readAllSync_eq_ok_iff.mp hread).1
    cases hwhole : log.replayLines parse true 0 (wholeLines (terminatedPart contents)) {} with
    | error message => simp [hread, hwhole, bind, Except.bind] at h
    | ok whole =>
      simp only [hread, hwhole, bind, Except.bind] at h
      cases hline : log.replayLine parse true (wholeLines (terminatedPart contents)).length
          (contents.rtakeWhile (· != 10)) whole with
      | error message => simp [hline] at h
      | ok replay =>
        simp only [hline, pure, Except.pure, Except.ok.injEq] at h
        obtain ⟨hcount, hevents⟩ := replayLine_eq_ok hline
        refine ⟨⟨(readAllSync_eq_ok_iff.mp hread).2, fun maxRecords hmax => ?_⟩, whole, rfl, ?_⟩
        · have hle := replayLine_recordCount_le hmax hline
            (replayLines_recordCount_le hmax hwhole (Nat.zero_le _))
          rw [← hbytes, recordLines_append_tail hkept htail]
          rwa [hcount, replayLines_recordCount hwhole, Nat.zero_add] at hle
        · rw [← h, hevents, unterminatedRecord]
          split_ifs <;> rfl

lemma replaySync_terminated {whole : Replay T} (hkept : Terminated kept)
    (hread : log.readAllSync kept = .ok kept)
    (hwhole : log.replayLines parse true 0 (wholeLines kept) {} = .ok whole) :
    log.replaySync parse (some kept) = .ok whole.events := by
  have h := @replaySync_append kept [] T log parse hkept List.not_mem_nil
  simpa [hread, hwhole, bind, Except.bind, pure, Except.pure] using h

/-- What an append adds is read behind what the repair kept. -/
lemma replaySync_kept_append {whole : Replay T} {written : List Json} {out : Json → Option T}
    (hkept : Terminated kept)
    (hwhole : log.replayLines parse true 0 (wholeLines kept) {} = .ok whole)
    (hbounds : log.InBounds (kept ++ ((written.map Json.stringify).map (· ++ [10])).flatten))
    (haccepted : ∀ event ∈ written, ∀ index, parse event.stringify index = .ok (out event)) :
    log.replaySync parse (some (kept ++ ((written.map Json.stringify).map (· ++ [10])).flatten)) =
      .ok (whole.events ++ written.filterMap out) := by
  have hlf : ∀ line ∈ written.map Json.stringify, (10 : UInt8) ∉ line := by
    intro line hline
    obtain ⟨event, -, rfl⟩ := List.mem_map.mp hline
    exact Json.lf_notMem_stringify event
  have hpayload := terminated_flatten (written.map Json.stringify)
  have hlines := wholeLines_append hkept hpayload
  rw [wholeLines_flatten hlf] at hlines
  have hterm := terminated_append hkept hpayload
  have hcount : ∀ maxRecords ∈ log.options.maxRecords,
      whole.recordCount + (written.map Json.stringify).length ≤ maxRecords := by
    intro maxRecords hmax
    have h := hbounds.records_le maxRecords hmax
    rw [recordLines_of_terminated hterm, hlines, records_append] at h
    rwa [replayLines_recordCount hwhole, Nat.zero_add, ← records_stringify]
  have hevents := @replayLines_accepted (written.map Json.stringify) T log parse
    (0 + (wholeLines kept).length) whole (fun line => (Json.parse line).bind out)
    (by
      intro line hline
      obtain ⟨event, hmem, rfl⟩ := List.mem_map.mp hline
      have hne : event.stringify ≠ [] := List.ne_nil_of_length_pos (Json.length_stringify_pos event)
      refine ⟨hne, Utf8.trim_stringify event, fun index => ?_⟩
      rw [Json.parse_stringify, Option.bind_some, haccepted event hmem index])
    hcount
  have hall := @replayLines_true_append T log parse 0 (wholeLines kept)
    (written.map Json.stringify) {}
  rw [← hlines, hwhole] at hall
  have hfilter : (written.map Json.stringify).filterMap (fun line => (Json.parse line).bind out) =
      written.filterMap out := by
    rw [List.filterMap_map]
    congr 1
    funext event
    simp
  rw [replaySync_terminated hterm hbounds.readAllSync (hall.trans hevents), hfilter]

/-- **What a replay returned survives the next append's repair**, up to the record of an
unterminated last line; and the appended events are read behind it as long as the file stays
within the reader's bounds. -/
theorem replaySync_of_append {file : Option (List UInt8)} {records : List T}
    (h : log.replaySync parse file = .ok records) :
    ∃ repaired kept, log.repairTailSync file = .ok repaired ∧
      log.replaySync parse repaired = .ok kept ∧
      records = kept ++ (unterminatedRecord parse file).toList ∧
      ∀ onCreate events bytes out, log.appendSync onCreate events file = .ok bytes →
        log.InBounds bytes →
        (∀ event ∈ writtenEvents onCreate events file,
          ∀ index, parse event.stringify index = .ok (out event)) →
        log.replaySync parse (some bytes) =
          .ok (kept ++ (writtenEvents onCreate events file).filterMap out) := by
  cases file with
  | none =>
    cases h
    refine ⟨none, [], rfl, rfl, rfl, fun onCreate events bytes out happend hbounds haccepted => ?_⟩
    obtain ⟨repaired, hrepair, rfl⟩ := appendSync_eq_ok happend
    cases hrepair
    exact replaySync_kept_append (.inl rfl) rfl hbounds haccepted
  | some bytes =>
    obtain ⟨hin, whole, hwhole, rfl⟩ := replaySync_some_eq_ok h
    have hread := hin.readAllSync
    have hkept := terminated_terminatedPart bytes
    have hshort := (List.rdropWhile_prefix (p := (· != (10 : UInt8))) (l := bytes)).length_le
    have hreadKept : log.readAllSync (terminatedPart bytes) = .ok (terminatedPart bytes) :=
      readAllSync_eq_ok_iff.mpr ⟨rfl, fun maxBytes hmax =>
        hshort.trans (hin.bytes_le maxBytes hmax)⟩
    refine ⟨some (terminatedPart bytes), whole.events, repairTailSync_some hread,
      replaySync_terminated hkept hreadKept hwhole, rfl,
      fun onCreate events bytes' out happend hbounds haccepted => ?_⟩
    obtain ⟨repaired, hrepair, rfl⟩ := appendSync_eq_ok happend
    rw [repairTailSync_some hread] at hrepair
    cases hrepair
    exact replaySync_kept_append hkept hwhole hbounds haccepted

/-- A parser that takes every JSON value. -/
def jsonLine : LineParser Json := fun line index =>
  match Json.parse line with
  | none => .error s!"Malformed line {index + 1}"
  | some value => .ok (some value)

/-- Two empty objects, the second without its line feed. -/
def unterminatedObject : List UInt8 :=
  (Json.obj []).stringify ++ 10 :: (Json.obj []).stringify

lemma replaySync_unterminatedObject (path : String) :
    (EventLog.mk path {}).replaySync jsonLine (some unterminatedObject) =
      .ok [.obj [], .obj []] := rfl

theorem replaySync_of_append_unterminatedObject :
    ∃ repaired kept, (EventLog.mk "log.jsonl" {}).repairTailSync (some unterminatedObject) =
        .ok repaired ∧
      (EventLog.mk "log.jsonl" {}).replaySync jsonLine repaired = .ok kept ∧
      [.obj [], .obj []] = kept ++ (unterminatedRecord jsonLine (some unterminatedObject)).toList ∧
      ∀ onCreate events bytes out,
        (EventLog.mk "log.jsonl" {}).appendSync onCreate events (some unterminatedObject) =
          .ok bytes →
        (EventLog.mk "log.jsonl" {}).InBounds bytes →
        (∀ event ∈ writtenEvents onCreate events (some unterminatedObject),
          ∀ index, jsonLine event.stringify index = .ok (out event)) →
        (EventLog.mk "log.jsonl" {}).replaySync jsonLine (some bytes) = .ok (kept ++
          (writtenEvents onCreate events (some unterminatedObject)).filterMap out) :=
  replaySync_of_append (replaySync_unterminatedObject "log.jsonl")

/-- The replay returns two records, and the repaired file holds one. -/
theorem unterminatedObject_dropped :
    ¬ ∀ (T : Type) (log : EventLog) (parse : LineParser T) (file : Option (List UInt8))
        (records : List T) (repaired : Option (List UInt8)),
      log.replaySync parse file = .ok records → log.repairTailSync file = .ok repaired →
      log.replaySync parse repaired = .ok records := by
  intro h
  have hreplay := h Json (EventLog.mk "log.jsonl" {}) jsonLine _ _ _
    (replaySync_unterminatedObject "log.jsonl") rfl
  cases hreplay

end EventLog

end Amide
