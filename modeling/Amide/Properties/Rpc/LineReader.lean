import Amide.Construction.Rpc.Jsonl
import Amide.Framework.Lines

/-!
# The lines of a stream

Between two chunks the reader is in the state that the line begun calls for, with the calls for the
lines before it (`Begun`).  So what it has handed on at the end are the lines of the whole text,
however that comes in chunks.
-/

namespace Amide

open List

variable {maxLineLength : Option ℕ}

/-- The limit, if the line is longer. -/
def tooLong (maxLineLength : Option ℕ) (line : CodeUnits) : Option ℕ :=
  maxLineLength.filter fun max => line.length > max

/-- The call for a line. -/
def deliver (maxLineLength : Option ℕ) (line : CodeUnits) : JsonlCall :=
  match tooLong maxLineLength line with
  | some max => .onLineOverflow (line.take max)
  | none => .onLine (withoutCr line)

namespace JsonlLineReader

variable {before : List JsonlCall} {line segment text : CodeUnits} {decoder : Utf8.Decoder}
  {reader : JsonlLineReader} {max : ℕ}

/-- A reader after these calls, with a line begun. -/
inductive Begun (maxLineLength : Option ℕ) (before : List JsonlCall) (line : CodeUnits)
    (decoder : Utf8.Decoder) : JsonlLineReader → Prop
  | short {pending : List CodeUnits} (hfits : tooLong maxLineLength line = none)
      (hpending : pending.flatten = line) (hne : ∀ segment ∈ pending, segment ≠ []) :
      Begun maxLineLength before line decoder
        { decoder, pending, pendingLength := line.length, calls := before }
  | long {max : ℕ} (hlong : tooLong maxLineLength line = some max) :
      Begun maxLineLength before line decoder
        { decoder, discardingOverflow := true,
          calls := before ++ [.onLineOverflow (line.take max)] }

lemma tooLong_eq_some_iff :
    tooLong maxLineLength line = some max ↔ maxLineLength = some max ∧ max < line.length := by
  rw [tooLong, Option.filter_eq_some_iff, decide_eq_true_eq]

lemma tooLong_nil : tooLong maxLineLength [] = none := by
  cases maxLineLength with
  | none => rfl
  | some max => simp [tooLong]

/-- A line too long stays too long. -/
lemma tooLong_append (h : tooLong maxLineLength line = some max) (segment : CodeUnits) :
    tooLong maxLineLength (line ++ segment) = some max := by
  rw [tooLong_eq_some_iff] at h ⊢
  refine ⟨h.1, ?_⟩
  rw [length_append]
  exact Nat.lt_add_right _ h.2

lemma deliver_of_long (h : tooLong maxLineLength line = some max) :
    deliver maxLineLength line = .onLineOverflow (line.take max) := by
  rw [deliver, h]

lemma deliver_of_short (h : tooLong maxLineLength line = none) :
    deliver maxLineLength line = .onLine (withoutCr line) := by
  rw [deliver, h]

lemma appendPending_of_discarding (h : reader.discardingOverflow = true) (segment : CodeUnits) :
    reader.appendPending maxLineLength segment = reader := by
  rw [appendPending, h, Bool.true_or, if_pos rfl]

lemma appendPending_nil : reader.appendPending maxLineLength [] = reader := by
  simp [appendPending]

lemma Begun.appendPending (h : Begun maxLineLength before line decoder reader)
    (segment : CodeUnits) :
    Begun maxLineLength before (line ++ segment) decoder
      (reader.appendPending maxLineLength segment) := by
  cases h with
  | @long max hlong =>
    have htake := (tooLong_eq_some_iff.mp hlong).2
    have hbeginning : (line ++ segment).take max = line.take max :=
      take_append_of_le_length htake.le
    rw [appendPending_of_discarding rfl, ← hbeginning]
    exact .long (tooLong_append hlong segment)
  | @short pending hfits hpend hne =>
    by_cases hempty : segment = []
    · rw [hempty, appendPending_nil, append_nil]
      exact .short hfits hpend hne
    · have hnonempty : ¬ ((false || decide (segment.length = 0)) = true) := by simpa using hempty
      rw [JsonlLineReader.appendPending]
      have hover : overflows maxLineLength segment
          { decoder, pending, pendingLength := line.length, calls := before } =
            tooLong maxLineLength (line ++ segment) := by
        rw [overflows, tooLong, length_append]
      rw [if_neg hnonempty, hover]
      cases hlong : tooLong maxLineLength (line ++ segment) with
      | none =>
        have hlen : line.length + segment.length = (line ++ segment).length := by simp
        simp only [hlen]
        refine .short hlong (by simp [hpend]) fun s hs => ?_
        rcases mem_append.mp hs with hs | hs
        · exact hne s hs
        · exact mem_singleton.mp hs ▸ hempty
      | some max =>
        -- the line so far is within the limit, so that the beginning is cut from this segment
        obtain ⟨hmax, hlt⟩ := tooLong_eq_some_iff.mp hlong
        have hle : line.length ≤ max := by
          by_contra hgt
          rw [tooLong_eq_some_iff.mpr ⟨hmax, not_le.mp hgt⟩] at hfits
          cases hfits
        have hbeginning : (if max - line.length > 0 then
            pending ++ [segment.take (max - line.length)] else pending).flatten =
              (line ++ segment).take max := by
          rw [take_append, take_of_length_le hle]
          split_ifs with hremaining
          · simp [hpend]
          · rw [Nat.eq_zero_of_not_pos hremaining, take_zero, append_nil, hpend]
        simp only [hbeginning]
        exact .long hlong

/-- A line feed ends the line. -/
lemma Begun.emitFrom (h : Begun maxLineLength before line decoder reader) (segment : CodeUnits) :
    Begun maxLineLength (before ++ [deliver maxLineLength (line ++ segment)]) [] decoder
      (reader.emitFrom maxLineLength segment) := by
  have happended := h.appendPending segment
  have hnew (calls : List JsonlCall) : Begun maxLineLength calls [] decoder { decoder, calls } :=
    .short tooLong_nil rfl nofun
  rw [JsonlLineReader.emitFrom]
  cases h with
  | @long max hlong =>
    rw [if_pos rfl, deliver_of_long (tooLong_append hlong segment),
      take_append_of_le_length (tooLong_eq_some_iff.mp hlong).2.le]
    exact hnew _
  | short hfits hpend hne =>
    rw [if_neg Bool.false_ne_true]
    generalize JsonlLineReader.appendPending maxLineLength segment _ = reader at happended
    cases happended with
    | long hlong =>
      rw [deliver_of_long hlong]
      exact hnew _
    | short hfits' hpend' _ =>
      rw [deliver_of_short hfits', ← hpend']
      exact hnew _

lemma scan_of_notMem (h : 10 ∉ text) :
    reader.scan maxLineLength text = reader.appendPending maxLineLength text := by
  rw [scan]
  split
  · rename_i hsome
    rw [Lines.findIdx?_of_notMem h] at hsome
    cases hsome
  · split_ifs with hempty
    · rfl
    · rw [eq_nil_of_length_eq_zero (Nat.eq_zero_of_not_pos hempty), appendPending_nil]

lemma scan_line {rest : CodeUnits} (h : 10 ∉ segment) :
    reader.scan maxLineLength (segment ++ 10 :: rest) =
      (reader.emitFrom maxLineLength segment).scan maxLineLength rest := by
  rw [scan]
  split
  · rename_i newlineIndex hsome
    rw [Lines.findIdx?_line h] at hsome
    cases hsome
    rw [take_left, drop_append, drop_eq_nil_of_le (Nat.le_succ _), Nat.add_sub_cancel_left]
    rfl
  · rename_i hsome
    rw [Lines.findIdx?_line h] at hsome
    cases hsome

/-- A text brings the lines that it ends, and begins another. -/
lemma Begun.scan (h : Begun maxLineLength before line decoder reader) (hline : 10 ∉ line)
    (text : CodeUnits) :
    Begun maxLineLength
      (before ++ (Lines.ended 10 (line ++ text)).map (deliver maxLineLength))
      (Lines.unended 10 (line ++ text)) decoder (reader.scan maxLineLength text) := by
  induction hlen : text.length using Nat.strongRecOn generalizing text before line reader with
  | _ n ih =>
    rcases Lines.notMem_or_exists_line 10 text with hmem | ⟨segment, rest, hsegment, rfl⟩
    · have hwhole : 10 ∉ line ++ text := by simp [hline, hmem]
      rw [Lines.ended_of_notMem hwhole, Lines.unended_of_notMem hwhole, scan_of_notMem hmem,
        map_nil, append_nil]
      exact h.appendPending text
    · have hwhole : 10 ∉ line ++ segment := by simp [hline, hsegment]
      have hshorter : rest.length < n := by
        rw [← hlen, length_append, length_cons]
        omega
      have hrest := ih _ hshorter (h.emitFrom segment) not_mem_nil rest rfl
      rw [← append_assoc, Lines.ended_line hwhole, Lines.unended_line hwhole,
        scan_line hsegment, map_cons]
      rwa [append_assoc] at hrest

/-- The reader of a text so far. -/
def Reads (maxLineLength : Option ℕ) (text : CodeUnits) (decoder : Utf8.Decoder)
    (reader : JsonlLineReader) : Prop :=
  Begun maxLineLength ((Lines.ended 10 text).map (deliver maxLineLength)) (Lines.unended 10 text)
    decoder reader

lemma Begun.withDecoder (h : Begun maxLineLength before line decoder reader)
    (decoder' : Utf8.Decoder) :
    Begun maxLineLength before line decoder' { reader with decoder := decoder' } := by
  cases h with
  | long hlong => exact .long hlong
  | short hfits hpend hne => exact .short hfits hpend hne

lemma Begun.decoder_eq (h : Begun maxLineLength before line decoder reader) :
    reader.decoder = decoder := by
  cases h with
  | long _ => rfl
  | short _ _ _ => rfl

lemma Reads.onData (h : Reads maxLineLength text decoder reader) (bytes : List UInt8) :
    Reads maxLineLength (text ++ textUnits (decoder.run bytes).2) (decoder.run bytes).1
      (reader.onData maxLineLength (.buffer bytes)) := by
  have hdecoder := Begun.decoder_eq h
  have hscan := (Begun.withDecoder h (decoder.run bytes).1).scan (Lines.notMem_unended 10 text)
    (textUnits (decoder.run bytes).2)
  obtain ⟨hended, hunended⟩ := Lines.append_unended 10 text (textUnits (decoder.run bytes).2)
  rw [Reads, hended, hunended, map_append]
  rw [JsonlLineReader.onData, hdecoder]
  exact hscan

lemma textUnits_append (text more : List Char) :
    textUnits (text ++ more) = textUnits text ++ textUnits more :=
  flatMap_append

lemma reads_foldl (chunks : List (List UInt8)) :
    Reads maxLineLength (textUnits (Utf8.Decoder.run {} chunks.flatten).2)
      (Utf8.Decoder.run {} chunks.flatten).1
      ((chunks.map StreamChunk.buffer).foldl
        (fun reader chunk => JsonlLineReader.onData maxLineLength chunk reader) {}) := by
  induction chunks using reverseRecOn with
  | nil =>
    refine .short tooLong_nil rfl nofun
  | append_singleton chunks chunk ih =>
    rw [map_append, foldl_append, flatten_append, Utf8.Decoder.run_append,
      textUnits_append, flatten_singleton]
    exact ih.onData chunk

/-- At the end the line begun is handed on, if it is one. -/
lemma Begun.onEnd (h : Begun maxLineLength before line {} reader) :
    (reader.onEnd maxLineLength).calls =
      before ++ if line = [] then [] else [deliver maxLineLength line] := by
  cases h with
  | @long max hlong =>
    have hne : line ≠ [] := by
      rintro rfl
      rw [tooLong_nil] at hlong
      cases hlong
    rw [if_neg hne, deliver_of_long hlong]
    rfl
  | @short pending hfits hpend hne =>
    cases pending with
    | nil =>
      have hline : line = [] := hpend.symm
      rw [if_pos hline, append_nil]
      rfl
    | cons segment rest =>
      have hsegment : line ≠ [] := by
        rw [← hpend, flatten_cons]
        exact append_ne_nil_of_left_ne_nil (hne segment mem_cons_self) _
      rw [if_neg hsegment, deliver_of_short hfits, ← hpend]
      rfl

end JsonlLineReader

open JsonlLineReader

/-- The lines of the text are handed on in order, the last one if it is not empty. -/
theorem stream_lines (maxLineLength : Option ℕ) {text : List Char} {chunks : List (List UInt8)}
    (h : chunks.flatten = Utf8.encode text) :
    let lines := (textUnits text).splitOn 10
    readStream maxLineLength (chunks.map .buffer) =
      (if lines.getLast? = some [] then lines.dropLast else lines).map (deliver maxLineLength) := by
  intro lines
  have hreads : Reads maxLineLength _ _ _ := reads_foldl chunks
  rw [h, Utf8.run_encode] at hreads
  have hlines : lines = Lines.ended 10 (textUnits text) ++ [Lines.unended 10 (textUnits text)] :=
    (Lines.ended_append_unended 10 (textUnits text)).symm
  rw [readStream, Begun.onEnd hreads, hlines]
  simp only [getLast?_concat, dropLast_concat, Option.some_inj]
  split_ifs with hempty
  · rw [append_nil]
  · rw [map_append]
    rfl

/-- The chunks cut a character and two lines, of which the second one is too long. -/
theorem stream_lines_euro :
    readStream (some 2) ([[0xE2], [0x82, 0xAC, 13], [10, 97, 98, 99], [100, 10, 120]].map .buffer) =
      [.onLine [0x20AC], .onLineOverflow [97, 98], .onLine [120]] :=
  have hchunks : [[0xE2], [0x82, 0xAC, 13], [10, 97, 98, 99], [100, 10, 120]].flatten =
      Utf8.encode ['€', '\r', '\n', 'a', 'b', 'c', 'd', '\n', 'x'] := by
    decide
  (stream_lines (some 2) hchunks).trans (by decide)

end Amide
