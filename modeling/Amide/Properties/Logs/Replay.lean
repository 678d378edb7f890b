import Amide.Framework.Fallible
import Amide.Framework.LineLog
import Amide.Construction.Logs.EventLog

/-!
# What a replay reads from whole lines and a last line

A file is cut at its last line feed into whole lines and a last line without one, which may be
empty.  `EventLog.replaySync_append` splits a replay the same way: the whole lines are read with
nothing tolerated, and the last line is the only one whose rejection is ignored.
-/

namespace Amide

open LineCodec List

namespace EventLog

/-- The lines of a file that ends at a line boundary. -/
def wholeLines (bytes : List UInt8) : List (List UInt8) := (bytes.splitOn 10).dropLast

/-- The number of lines that count as records. -/
def recordLines (bytes : List UInt8) : ℕ :=
  ((bytes.splitOn 10).filter fun rawLine => Utf8.trim rawLine ≠ []).length

/-- The file is within the bounds of the reader. -/
structure InBounds (log : EventLog) (bytes : List UInt8) : Prop where
  bytes_le : ∀ maxBytes ∈ log.options.maxBytes, bytes.length ≤ maxBytes
  records_le : ∀ maxRecords ∈ log.options.maxRecords, recordLines bytes ≤ maxRecords

/-! ## Cutting a file at its last line feed -/

variable (bytes : List UInt8)

lemma terminated_terminatedPart : Terminated (terminatedPart bytes) := by
  by_cases h : terminatedPart bytes = []
  · exact .inl h
  · have hlast : (terminatedPart bytes).getLast h = 10 := by
      simpa [terminatedPart] using rdropWhile_last_not (· != 10) bytes h
    refine .inr ⟨(terminatedPart bytes).dropLast, ?_⟩
    rw [← hlast, dropLast_append_getLast h]

lemma lf_notMem_rtakeWhile : (10 : UInt8) ∉ bytes.rtakeWhile (· != 10) :=
  fun h => by simpa using mem_rtakeWhile_imp h

lemma terminatedPart_append : terminatedPart bytes ++ bytes.rtakeWhile (· != 10) = bytes :=
  rdropWhile_append_rtakeWhile

variable {kept tail : List UInt8}

lemma terminatedPart_of_cut (hkept : Terminated kept) (htail : (10 : UInt8) ∉ tail) :
    terminatedPart (kept ++ tail) = kept := by
  induction tail using reverseRecOn with
  | nil =>
    rw [append_nil]
    rcases hkept with rfl | ⟨s, rfl⟩
    · rfl
    · exact rdropWhile_concat_neg _ _ _ (by simp)
  | append_singleton tail b ih =>
    have hb : b ≠ 10 := by
      rintro rfl
      simp at htail
    rw [terminatedPart, ← append_assoc, rdropWhile_concat, if_pos (by simpa using hb)]
    exact ih fun h => htail (mem_append_left _ h)

lemma splitOn_append_tail (hkept : Terminated kept) (htail : (10 : UInt8) ∉ tail) :
    (kept ++ tail).splitOn 10 = wholeLines kept ++ [tail] := by
  rcases hkept with rfl | ⟨s, rfl⟩
  · simp [wholeLines, splitOn_eq_singleton htail]
  · simp [wholeLines, splitOn_append_cons_self, splitOn_eq_singleton htail]

lemma wholeLines_append {s t : List UInt8} (hs : Terminated s) (ht : Terminated t) :
    wholeLines (s ++ t) = wholeLines s ++ wholeLines t := by
  rcases hs with rfl | ⟨s, rfl⟩
  · simp [wholeLines]
  · rcases ht with rfl | ⟨t, rfl⟩
    · simp [wholeLines]
    · simp [wholeLines, splitOn_append_cons_self]

lemma terminated_flatten (lines : List (List UInt8)) :
    Terminated (lines.map (· ++ [10])).flatten := by
  induction lines with
  | nil => exact .inl rfl
  | cons line lines ih => exact terminated_append (terminated_append_lf line) ih

variable {lines : List (List UInt8)}

lemma wholeLines_flatten (h : ∀ line ∈ lines, (10 : UInt8) ∉ line) :
    wholeLines (lines.map (· ++ [10])).flatten = lines := by
  induction lines with
  | nil => simp [wholeLines]
  | cons line lines ih =>
    have hline : wholeLines (line ++ [10]) = [line] := by
      rw [wholeLines, splitOn_append_cons_self, splitOn_eq_singleton (h line mem_cons_self)]
      simp
    rw [map_cons, flatten_cons, wholeLines_append (terminated_append_lf line)
      (terminated_flatten lines), hline, ih fun l hl => h l (mem_cons_of_mem _ hl),
        singleton_append]

/-! ## The bounds -/

/-- The number of lines that are not blank. -/
def records (rawLines : List (List UInt8)) : ℕ :=
  (rawLines.filter fun rawLine => Utf8.trim rawLine ≠ []).length

lemma records_append (xs ys : List (List UInt8)) :
    records (xs ++ ys) = records xs + records ys := by
  rw [records, filter_append, length_append, records, records]

lemma records_eq_length (h : ∀ line ∈ lines, Utf8.trim line ≠ []) :
    records lines = lines.length := by
  rw [records, filter_eq_self.mpr]
  simpa using h

lemma records_stringify (events : List Json) :
    records (events.map Json.stringify) = (events.map Json.stringify).length := by
  refine records_eq_length fun line hline => ?_
  obtain ⟨event, -, rfl⟩ := List.mem_map.mp hline
  rw [Utf8.trim_stringify]
  exact ne_nil_of_length_pos (Json.length_stringify_pos event)

lemma recordLines_append_tail (hkept : Terminated kept) (htail : (10 : UInt8) ∉ tail) :
    recordLines (kept ++ tail) = records (wholeLines kept) + records [tail] := by
  rw [recordLines, splitOn_append_tail hkept htail, ← records_append, records]

lemma recordLines_of_terminated (hkept : Terminated kept) :
    recordLines kept = records (wholeLines kept) := by
  have h := recordLines_append_tail hkept (not_mem_nil (a := 10))
  rwa [append_nil] at h

variable {log : EventLog} {bytes : List UInt8}

lemma readAllSync_eq_ok_iff {contents : List UInt8} : log.readAllSync bytes = .ok contents ↔
      contents = bytes ∧ ∀ maxBytes ∈ log.options.maxBytes, bytes.length ≤ maxBytes := by
  rw [readAllSync]
  cases log.options.maxBytes with
  | none => simp [eq_comm]
  | some maxBytes =>
    by_cases h : maxBytes < bytes.length
    · simp [h]
    · simp [h, Nat.not_lt.mp h, eq_comm]

lemma InBounds.readAllSync (h : log.InBounds bytes) : log.readAllSync bytes = .ok bytes :=
  readAllSync_eq_ok_iff.mpr ⟨rfl, h.bytes_le⟩

lemma countRecord_eq_ok_iff {recordCount count : ℕ} : log.countRecord recordCount = .ok count ↔
      count = recordCount + 1 ∧ ∀ maxRecords ∈ log.options.maxRecords,
        recordCount + 1 ≤ maxRecords := by
  rw [countRecord]
  cases log.options.maxRecords with
  | none => simp [eq_comm]
  | some maxRecords =>
    by_cases h : maxRecords < recordCount + 1
    · simp [h, Nat.lt_succ_iff.mp h]
    · simp [h, Nat.lt_of_succ_le (Nat.not_lt.mp h), eq_comm]

lemma repairTailSync_some (h : log.readAllSync bytes = .ok bytes) :
    log.repairTailSync (some bytes) = .ok (some (terminatedPart bytes)) := by
  cases bytes with
  | nil => rfl
  | cons b bs =>
    rw [repairTailSync]
    · simp only [h]
      split_ifs with hlast
      · have hterm : Terminated (b :: bs) := by
          refine .inr ⟨(b :: bs).dropLast, ?_⟩
          have hne := cons_ne_nil b bs
          rw [getLast?_eq_some_getLast hne, Option.some.injEq] at hlast
          rw [← hlast, dropLast_append_getLast hne]
        have hpart := terminatedPart_of_cut hterm (not_mem_nil (a := 10))
        rw [append_nil] at hpart
        rw [hpart]
      · rfl
    · simp

lemma repairTailSync_eq_ok {repaired : Option (List UInt8)}
    (h : log.repairTailSync (some bytes) = .ok repaired) :
    repaired = some (terminatedPart bytes) := by
  cases bytes with
  | nil =>
    cases h
    rfl
  | cons b bs =>
    cases hread : log.readAllSync (b :: bs) with
    | error message => simp [repairTailSync, hread] at h
    | ok contents =>
      obtain rfl := (readAllSync_eq_ok_iff.mp hread).1
      rw [repairTailSync_some hread] at h
      exact (Except.ok.inj h).symm

/-! ## The loop -/

section Replay

variable {T : Type} {log : EventLog} {parse : LineParser T}

@[simp] lemma replayLine_nil (torn : Bool) (index : ℕ) (replay : Replay T) :
    log.replayLine parse torn index [] replay = .ok replay := rfl

lemma replayLines_true_cons (index : ℕ) (x : List UInt8) (xs : List (List UInt8))
    (replay : Replay T) :
    log.replayLines parse true index (x :: xs) replay =
      log.replayLine parse false index x replay >>= log.replayLines parse true (index + 1) xs := by
  rw [replayLines, Bool.not_true, Bool.and_false]
  cases log.replayLine parse false index x replay <;> rfl

lemma replayLines_append_cons (endsWithNewline : Bool) (index : ℕ) (xs : List (List UInt8))
    (y : List UInt8) (ys : List (List UInt8)) (replay : Replay T) :
    log.replayLines parse endsWithNewline index (xs ++ y :: ys) replay =
      log.replayLines parse true index xs replay >>=
        log.replayLines parse endsWithNewline (index + xs.length) (y :: ys) := by
  induction xs generalizing index replay with
  | nil => rfl
  | cons x xs ih =>
    rw [cons_append, replayLines, replayLines]
    simp only [Bool.not_true, Bool.and_false]
    rw [show (xs ++ y :: ys).isEmpty = false by cases xs <;> rfl, Bool.false_and]
    cases log.replayLine parse false index x replay with
    | error message => rfl
    | ok replay' =>
      have hidx : index + (x :: xs).length = index + 1 + xs.length := by
        rw [length_cons, Nat.add_assoc, Nat.add_comm 1]
      rw [hidx]
      exact ih (index + 1) replay'

lemma replayLines_true_append (index : ℕ) (xs ys : List (List UInt8)) (replay : Replay T) :
    log.replayLines parse true index (xs ++ ys) replay =
      log.replayLines parse true index xs replay >>=
        log.replayLines parse true (index + xs.length) ys := by
  cases ys with
  | nil =>
    rw [append_nil]
    cases log.replayLines parse true index xs replay <;> rfl
  | cons y ys => exact replayLines_append_cons true index xs y ys replay

lemma replayLines_singleton (endsWithNewline : Bool) (index : ℕ) (y : List UInt8)
    (replay : Replay T) :
    log.replayLines parse endsWithNewline index [y] replay =
      log.replayLine parse (!endsWithNewline) index y replay := by
  rw [replayLines, isEmpty_nil, Bool.true_and]
  cases log.replayLine parse (!endsWithNewline) index y replay <;> rfl

/-- **A replay is the replay of the whole lines followed by the last line**, whose rejection is
ignored. -/
lemma replaySync_append (hkept : Terminated kept) (htail : (10 : UInt8) ∉ tail) :
    log.replaySync parse (some (kept ++ tail)) = (do
      let _ ← log.readAllSync (kept ++ tail)
      let whole ← log.replayLines parse true 0 (wholeLines kept) {}
      let replay ← log.replayLine parse true (wholeLines kept).length tail whole
      pure replay.events) := by
  have hread : ∀ contents, log.readAllSync (kept ++ tail) = .ok contents →
      contents = kept ++ tail := by
    intro contents h
    simp only [readAllSync] at h
    split at h
    · cases h
      rfl
    · split at h
      · cases h
      · cases h
        rfl
  rw [replaySync]
  cases hr : log.readAllSync (kept ++ tail) with
  | error message => rfl
  | ok contents =>
    obtain rfl := hread contents hr
    have hlines := splitOn_append_tail hkept htail
    simp only [bind, Except.bind, hlines, replayLines_append_cons, replayLines_singleton,
      Nat.zero_add]
    cases log.replayLines parse true 0 (wholeLines kept) {} with
    | error message => rfl
    | ok whole =>
      -- the line is empty where the file ends with a line feed, and else the reader tolerates it
      rcases eq_nil_or_concat' tail with rfl | ⟨u, b, rfl⟩
      · simp
      · have hb : (b == 10) = false := by
          rw [beq_eq_false_iff_ne]
          rintro rfl
          simp at htail
        simp [← append_assoc, hb]

/-! ### Counting and accepting -/

variable {index : ℕ} {rawLine : List UInt8} {replay replay' : Replay T} {torn : Bool}

/-- A pass over a line that throws nothing counts it and adds what the parser made of it. -/
lemma replayLine_eq_ok
    (h : log.replayLine parse torn index rawLine replay = .ok replay') :
    replay'.recordCount = replay.recordCount + records [rawLine] ∧ replay'.events = replay.events ++
        if Utf8.trim rawLine = [] then [] else
          (parse (Utf8.trim rawLine) index).toOption.join.toList := by
  rw [replayLine] at h
  by_cases hblank : Utf8.trim rawLine = []
  · rw [if_pos hblank] at h
    cases h
    simp [records, hblank]
  · rw [if_neg hblank] at h
    cases hcount : log.countRecord replay.recordCount with
    | error message => simp [hcount] at h
    | ok count =>
      obtain ⟨rfl, -⟩ := countRecord_eq_ok_iff.mp hcount
      simp only [hcount] at h
      cases hparse : parse (Utf8.trim rawLine) index with
      | error message =>
        rw [hparse] at h
        cases torn <;> simp at h
        subst h
        simp [records, hblank, Except.toOption]
      | ok event? =>
        rw [hparse] at h
        cases event? <;> cases h <;> simp [records, hblank, Except.toOption]

/-- Outside a torn tail a line that throws fails the replay. -/
lemma replayLine_parses (h : log.replayLine parse false index rawLine replay = .ok replay')
    (hblank : Utf8.trim rawLine ≠ []) : ∃ event, parse (Utf8.trim rawLine) index = .ok event := by
  rw [replayLine, if_neg hblank] at h
  cases hcount : log.countRecord replay.recordCount with
  | error message => simp [hcount] at h
  | ok count =>
    simp only [hcount] at h
    cases hparse : parse (Utf8.trim rawLine) index with
    | error message => simp [hparse] at h
    | ok event? => exact ⟨event?, rfl⟩

variable {rawLines : List (List UInt8)}

lemma replayLines_parses (h : log.replayLines parse true index rawLines replay = .ok replay') :
    ∀ rawLine ∈ rawLines, Utf8.trim rawLine ≠ [] →
      ∃ index event, parse (Utf8.trim rawLine) index = .ok event := by
  induction rawLines generalizing index replay with
  | nil => simp
  | cons rawLine rawLines ih =>
    rw [replayLines_true_cons] at h
    obtain ⟨mid, hline, h⟩ := Except.of_bind h
    intro line hmem hblank
    rcases mem_cons.mp hmem with rfl | hmem
    · exact ⟨index, replayLine_parses hline hblank⟩
    · exact ih h line hmem hblank

lemma replayLines_recordCount (h : log.replayLines parse true index rawLines replay = .ok replay') :
    replay'.recordCount = replay.recordCount + records rawLines := by
  induction rawLines generalizing index replay with
  | nil =>
    cases h
    rfl
  | cons rawLine rawLines ih =>
    rw [replayLines_true_cons] at h
    obtain ⟨mid, hline, h⟩ := Except.of_bind h
    have hsplit := records_append [rawLine] rawLines
    rw [singleton_append] at hsplit
    rw [ih h, (replayLine_eq_ok hline).1, hsplit, Nat.add_assoc]

lemma replayLine_recordCount_le {maxRecords : ℕ}
    (hmax : maxRecords ∈ log.options.maxRecords)
    (h : log.replayLine parse torn index rawLine replay = .ok replay')
    (hle : replay.recordCount ≤ maxRecords) : replay'.recordCount ≤ maxRecords := by
  by_cases hblank : Utf8.trim rawLine = []
  · rw [replayLine, if_pos hblank] at h
    cases h
    exact hle
  · have hcounted := (replayLine_eq_ok h).1
    rw [replayLine, if_neg hblank] at h
    cases hcount : log.countRecord replay.recordCount with
    | error message => simp [hcount] at h
    | ok count =>
      have hbound := (countRecord_eq_ok_iff.mp hcount).2 maxRecords hmax
      rwa [hcounted, records_eq_length (by simpa using hblank)]

lemma replayLines_recordCount_le {maxRecords : ℕ} (hmax : maxRecords ∈ log.options.maxRecords)
    (h : log.replayLines parse true index rawLines replay = .ok replay')
    (hle : replay.recordCount ≤ maxRecords) : replay'.recordCount ≤ maxRecords := by
  induction rawLines generalizing index replay with
  | nil =>
    cases h
    exact hle
  | cons rawLine rawLines ih =>
    rw [replayLines_true_cons] at h
    obtain ⟨mid, hline, h⟩ := Except.of_bind h
    exact ih h (replayLine_recordCount_le hmax hline hle)

/-- Lines the parser accepts are all counted and read, as long as they fit the bound. -/
lemma replayLines_accepted {out : List UInt8 → Option T}
    (hlines : ∀ line ∈ lines, line ≠ [] ∧ Utf8.trim line = line ∧
      ∀ index, parse line index = .ok (out line))
    (hbound : ∀ maxRecords ∈ log.options.maxRecords,
      replay.recordCount + lines.length ≤ maxRecords) :
    log.replayLines parse true index lines replay =
      .ok ⟨replay.recordCount + lines.length, replay.events ++ lines.filterMap out⟩ := by
  induction lines generalizing index replay with
  | nil => simp [replayLines]
  | cons line lines ih =>
    obtain ⟨hne, htrim, hparse⟩ := hlines line mem_cons_self
    have hcount : log.countRecord replay.recordCount = .ok (replay.recordCount + 1) := by
      refine countRecord_eq_ok_iff.mpr ⟨rfl, fun maxRecords hmax => ?_⟩
      have h := hbound maxRecords hmax
      rw [length_cons] at h
      omega
    have hline : log.replayLine parse false index line replay =
        .ok ⟨replay.recordCount + 1, replay.events ++ (out line).toList⟩ := by
      rw [replayLine, htrim, if_neg hne]
      simp only [hcount, hparse]
      cases out line <;> simp
    have hrest : ∀ maxRecords ∈ log.options.maxRecords,
        replay.recordCount + 1 + lines.length ≤ maxRecords := by
      intro maxRecords hmax
      have h := hbound maxRecords hmax
      rw [length_cons] at h
      omega
    have hstep := @ih (index + 1) ⟨replay.recordCount + 1, replay.events ++ (out line).toList⟩
      (fun l hl => hlines l (mem_cons_of_mem _ hl)) hrest
    rw [replayLines_true_cons, hline]
    simp only [bind, Except.bind, hstep, length_cons, append_assoc]
    congr 2
    · omega
    · cases hout : out line <;> simp [hout]

end Replay

end EventLog

end Amide
