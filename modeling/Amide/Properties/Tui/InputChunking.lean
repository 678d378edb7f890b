import Amide.Construction.Tui.StdinBuffer
import Amide.Framework.Fallible
import Amide.Framework.Framing

/-!
# Input in chunks

Key sequences and bracketed pastes are the frames of a stream (`input`), and a `StdinBuffer` that
has read some input is one that holds what the frames have left over (`process_holding`).  It reads
the frames just when each marker of a paste stands where a key sequence begins (`Aligned`): a marker
is looked for anywhere in the buffer, and an unfinished sequence in front of it is dropped.  So
chunks do not matter, and nothing is lost, on aligned input alone (`chunking_iff`).
-/

namespace Amide

open StdinEvent List Option

open StdinBuffer in
/-- The input that an event stands for. -/
def StdinEvent.text : StdinEvent → CodeUnits
  | .data keys => keys
  | .paste content => BRACKETED_PASTE_START ++ (content ++ BRACKETED_PASTE_END)

namespace StdinBuffer

open Occurrence

variable {s t rest : CodeUnits}

/-! ## Key sequences -/

/-- Input that a terminal sends for one key, as far as the buffer can tell. -/
structure KeySequence (k : CodeUnits) : Prop where
  ne_nil : k ≠ []
  complete : isCompleteSequence k ≠ .incomplete
  incomplete : ∀ n, 0 < n → n < k.length → isCompleteSequence (k.take n) = .incomplete

lemma sequenceEnd_eq_some_iff {n : ℕ} : sequenceEnd s = some n ↔
    0 < n ∧ n ≤ s.length ∧ isCompleteSequence (s.take n) ≠ .incomplete ∧
      ∀ m, 0 < m → m < n → isCompleteSequence (s.take m) = .incomplete := by
  rw [sequenceEnd, find?_range'_eq_some, mem_range'_1]
  simp only [decide_not, Bool.not_eq_true', decide_eq_false_iff_not, Bool.not_not,
    decide_eq_true_eq]
  constructor
  · rintro ⟨hcompl, ⟨hpos, hlt⟩, hbefore⟩
    exact ⟨hpos, by omega, hcompl, fun m hm hmn => hbefore m hm hmn⟩
  · rintro ⟨hpos, hle, hcompl, hbefore⟩
    exact ⟨hcompl, ⟨hpos, by omega⟩, fun m hm hmn => hbefore m hm hmn⟩

/-- The key sequence that input begins with, and the rest. -/
def nextKey (s : CodeUnits) : Option (CodeUnits × CodeUnits) :=
  (sequenceEnd s).map fun seqEnd => (s.take seqEnd, s.drop seqEnd)

variable {k : CodeUnits}

lemma KeySequence.nextKey_append (h : KeySequence k) (t : CodeUnits) :
    nextKey (k ++ t) = some (k, t) := by
  have hend : sequenceEnd (k ++ t) = some k.length := by
    refine sequenceEnd_eq_some_iff.2 ⟨length_pos_of_ne_nil h.ne_nil, by simp, ?_, ?_⟩
    · rw [take_left]
      exact h.complete
    · intro m hm hmk
      rw [take_append_of_le_length hmk.le]
      exact h.incomplete m hm hmk
  rw [nextKey, hend, map_some, take_left, drop_left]

lemma keySequence_of_nextKey (h : nextKey s = some (k, rest)) : KeySequence k ∧ s = k ++ rest := by
  obtain ⟨n, hend, hsplit⟩ := map_eq_some_iff.1 h
  obtain ⟨rfl, rfl⟩ := Prod.ext_iff.1 hsplit
  obtain ⟨hpos, hle, hcompl, hbefore⟩ := sequenceEnd_eq_some_iff.1 hend
  refine ⟨⟨?_, hcompl, fun m hm hmn => ?_⟩, (take_append_drop n s).symm⟩
  · exact ne_nil_of_length_pos (by rw [length_take]; omega)
  · rw [length_take] at hmn
    rw [take_take, min_eq_left (by omega)]
    exact hbefore m hm (by omega)

/-- Keys alone. -/
def keys : Framing UInt16 Empty CodeUnits where
  next s := .ok (nextKey s)
  next_nil := rfl
  next_some h := by
    obtain ⟨hkey, rfl⟩ := keySequence_of_nextKey (Except.ok.inj h)
    exact ⟨_, hkey.ne_nil, rfl, fun t => congrArg Except.ok (hkey.nextKey_append t)⟩
  next_error h := nomatch h

/-- The loop takes off the key sequences there are. -/
theorem drain_keys (s : CodeUnits) : keys.drain s =
    ((extractCompleteSequences s).1, .ok (extractCompleteSequences s).2) := by
  induction s using extractCompleteSequences.induct with
  | case1 =>
    rw [extractCompleteSequences]
    exact keys.drain_nil
  | case2 rest hend =>
    have hnext : keys.next (ESC :: rest) = .ok none :=
      congrArg Except.ok (congrArg (Option.map _) hend)
    rw [keys.drain_of_none hnext, extractCompleteSequences, if_pos rfl]
    split
    · rfl
    · rename_i seqEnd hsome
      rw [hend] at hsome
      cases hsome
  | case3 rest seqEnd hend ih =>
    have hnext : keys.next (ESC :: rest) =
        .ok (some ((ESC :: rest).take seqEnd, (ESC :: rest).drop seqEnd)) :=
      congrArg Except.ok (congrArg (Option.map _) hend)
    rw [keys.drain_of_some hnext, ih, extractCompleteSequences, if_pos rfl]
    split
    · rename_i hnone
      rw [hend] at hnone
      cases hnone
    · rename_i seqEnd' hsome
      obtain rfl := mem_unique hend hsome
      rfl
  | case4 first rest hfirst ih =>
    have hend : sequenceEnd (first :: rest) = some 1 := by
      refine sequenceEnd_eq_some_iff.2 ⟨Nat.one_pos, by simp, ?_, fun m hm hlt => by omega⟩
      simp [isCompleteSequence, hfirst]
    have hnext : keys.next (first :: rest) = .ok (some ([first], rest)) :=
      congrArg Except.ok (congrArg (Option.map _) hend)
    rw [keys.drain_of_some hnext, ih, extractCompleteSequences, if_neg hfirst]

/-- What the loop takes off and leaves is all of the input. -/
lemma extract_spec (s : CodeUnits) : (∀ k ∈ (extractCompleteSequences s).1, KeySequence k) ∧
    s = (extractCompleteSequences s).1.flatten ++ (extractCompleteSequences s).2 := by
  have hdrain := drain_keys s
  obtain ⟨frames, hframes, hflat⟩ := keys.exists_encodes_of_drain (congrArg Prod.snd hdrain)
  rw [hdrain] at hframes
  have hkeys : List.Forall₂ (fun frame k => KeySequence k ∧ frame = k) frames
      (extractCompleteSequences s).1 := by
    refine hframes.imp fun frame k hencodes => ?_
    have hnext := hencodes.2 []
    rw [append_nil] at hnext
    obtain ⟨hkey, hframe⟩ := keySequence_of_nextKey (Except.ok.inj hnext)
    exact ⟨hkey, hframe.trans (append_nil k)⟩
  obtain rfl : frames = (extractCompleteSequences s).1 :=
    forall₂_eq_eq_eq ▸ hkeys.imp fun _ _ h => h.2
  refine ⟨fun k hk => ?_, hflat⟩
  obtain ⟨_, _, hkey, -⟩ := exists_of_mem_forall₂ hkeys hk
  exact hkey

variable {ks : List CodeUnits}

lemma extract_flatten (h : ∀ k ∈ ks, KeySequence k) :
    extractCompleteSequences ks.flatten = (ks, []) := by
  have hencodes : List.Forall₂ keys.Encodes ks ks :=
    forall₂_same.2 fun k hk => ⟨(h k hk).ne_nil, fun t =>
      congrArg Except.ok ((h k hk).nextKey_append t)⟩
  have hdrain := keys.drain_flatten_of_encodes hencodes
  rw [drain_keys, Prod.ext_iff] at hdrain
  exact Prod.ext hdrain.1 (Except.ok.inj hdrain.2)

/-! ## Pastes -/

lemma start_ne_nil : BRACKETED_PASTE_START ≠ [] := nofun

lemma end_ne_nil : BRACKETED_PASTE_END ≠ [] := nofun

variable {pasted : CodeUnits}

lemma splitPaste_eq_none_iff : splitPaste pasted = none ↔ ¬ BRACKETED_PASTE_END <:+: pasted := by
  rw [splitPaste, map_eq_none_iff, indexOf_eq_none_iff end_ne_nil]

variable {content : CodeUnits}

lemma splitPaste_append (h : First BRACKETED_PASTE_END content) (rest : CodeUnits) :
    splitPaste (content ++ (BRACKETED_PASTE_END ++ rest)) = some (content, rest) := by
  rw [splitPaste, indexOf_append h, map_some, take_left, ← append_assoc, ← length_append, drop_left]

lemma exists_of_splitPaste (h : splitPaste pasted = some (content, rest)) :
    pasted = content ++ (BRACKETED_PASTE_END ++ rest) ∧ First BRACKETED_PASTE_END content := by
  obtain ⟨endIndex, hend, hsplit⟩ := map_eq_some_iff.1 h
  obtain ⟨before, after, rfl, rfl, hfirst⟩ := exists_of_indexOf end_ne_nil hend
  rw [splitPaste_append hfirst after] at h
  obtain ⟨rfl, rfl⟩ := Prod.ext_iff.1 (Option.some.inj h)
  exact ⟨rfl, hfirst⟩

/-- A key sequence other than the marker is no beginning of it, nor it of the key sequence. -/
lemma KeySequence.not_start_prefix (h : KeySequence k) (hne : k ≠ BRACKETED_PASTE_START)
    (t : CodeUnits) : ¬ BRACKETED_PASTE_START <+: k ++ t := by
  intro hbegins
  have hlong : isCompleteSequence BRACKETED_PASTE_START = .complete := by decide
  have hshort : ∀ n < 6, 0 < n →
      isCompleteSequence (BRACKETED_PASTE_START.take n) = .incomplete := by decide
  rcases prefix_or_prefix_of_prefix hbegins (prefix_append k t) with hstart | hkey
  · -- the marker is complete itself, so no longer key sequence begins with it
    have htake := prefix_iff_eq_take.1 hstart
    have hlt : BRACKETED_PASTE_START.length < k.length :=
      lt_of_le_of_ne hstart.length_le fun heq => hne (hstart.eq_of_length heq).symm
    have hincomplete := h.incomplete _ (by decide) hlt
    rw [← htake, hlong] at hincomplete
    cases hincomplete
  · have htake := prefix_iff_eq_take.1 hkey
    have hlt : k.length < BRACKETED_PASTE_START.length :=
      lt_of_le_of_ne hkey.length_le fun heq => hne (hkey.eq_of_length heq)
    refine h.complete ?_
    rw [htake]
    exact hshort k.length hlt (length_pos_of_ne_nil h.ne_nil)

/-- What input begins with: the content of a paste between its markers, or a key. -/
def nextInput (s : CodeUnits) : Option (StdinEvent × CodeUnits) :=
  if BRACKETED_PASTE_START.isPrefixOf s then
    (splitPaste (s.drop BRACKETED_PASTE_START.length)).map fun split => (.paste split.1, split.2)
  else (nextKey s).map fun key => (.data key.1, key.2)

lemma nextInput_start (pasted : CodeUnits) : nextInput (BRACKETED_PASTE_START ++ pasted) =
    (splitPaste pasted).map fun split => (.paste split.1, split.2) := by
  rw [nextInput, if_pos (List.isPrefixOf_iff_prefix.2 (prefix_append _ _)), drop_left]

lemma nextInput_of_not_start (h : ¬ BRACKETED_PASTE_START <+: s) :
    nextInput s = (nextKey s).map fun key => (.data key.1, key.2) := by
  rw [nextInput, if_neg (mt isPrefixOf_iff_prefix.1 h)]

variable {event : StdinEvent}

lemma text_of_nextInput (h : nextInput s = some (event, rest)) :
    event.text ≠ [] ∧ s = event.text ++ rest ∧
      ∀ t, nextInput (event.text ++ t) = some (event, t) := by
  by_cases hstart : BRACKETED_PASTE_START <+: s
  · obtain ⟨pasted, rfl⟩ := hstart
    obtain ⟨⟨content, rest'⟩, hsplit, heq⟩ := map_eq_some_iff.1 h
    obtain ⟨rfl, rfl⟩ := Prod.ext_iff.1 heq
    obtain ⟨rfl, hfirst⟩ := exists_of_splitPaste hsplit
    refine ⟨nofun, by simp [text], fun t => ?_⟩
    rw [text, append_assoc, append_assoc, nextInput_start, splitPaste_append hfirst, map_some]
  · rw [nextInput_of_not_start hstart] at h
    obtain ⟨⟨k, rest'⟩, hnext, heq⟩ := map_eq_some_iff.1 h
    obtain ⟨rfl, rfl⟩ := Prod.ext_iff.1 heq
    obtain ⟨hkey, rfl⟩ := keySequence_of_nextKey hnext
    refine ⟨hkey.ne_nil, rfl, fun t => ?_⟩
    have hne : k ≠ BRACKETED_PASTE_START := by
      rintro rfl
      exact hstart (prefix_append _ _)
    rw [text, nextInput_of_not_start (hkey.not_start_prefix hne t), hkey.nextKey_append, map_some]

/-- Keys and pastes. -/
def input : Framing UInt16 Empty StdinEvent where
  next s := .ok (nextInput s)
  next_nil := rfl
  next_some h := by
    obtain ⟨hne, rfl, htext⟩ := text_of_nextInput (Except.ok.inj h)
    exact ⟨_, hne, rfl, fun t => congrArg Except.ok (htext t)⟩
  next_error h := nomatch h

lemma text_of_encodes {frame : CodeUnits} (h : input.Encodes frame event) : frame = event.text := by
  have hnext := h.2 []
  rw [append_nil] at hnext
  exact (text_of_nextInput (Except.ok.inj hnext)).2.1.trans (append_nil _)

lemma exists_drain (s : CodeUnits) : ∃ rest, (input.drain s).2 = .ok rest := by
  rcases h : (input.drain s).2 with e | rest
  · exact e.elim
  · exact ⟨rest, rfl⟩

/-- The events and what is left over are all of the input. -/
theorem flatMap_text_drain (h : (input.drain s).2 = .ok rest) :
    (input.drain s).1.flatMap text ++ rest = s := by
  obtain ⟨frames, hframes, hflat⟩ := input.exists_encodes_of_drain h
  have htexts : frames = (input.drain s).1.map text := by
    rw [← map_id frames]
    refine forall₂_eq_eq_eq ▸ ?_
    rw [forall₂_map_left_iff, forall₂_map_right_iff]
    exact hframes.imp fun _ _ h => text_of_encodes h
  rw [flatMap_def, ← htexts, ← hflat]

/-- Whole key sequences in front of anything, of which none holds the marker. -/
lemma drain_keySequences (hkeys : ∀ k ∈ ks, KeySequence k)
    (hstart : ¬ BRACKETED_PASTE_START <:+: ks.flatten) (t : CodeUnits) :
    input.drain (ks.flatten ++ t) = (ks.map .data ++ (input.drain t).1, (input.drain t).2) := by
  induction ks with
  | nil => rfl
  | cons k ks ih =>
    have hne : k ≠ BRACKETED_PASTE_START := by
      rintro rfl
      exact hstart infix_append_left
    have hkey := hkeys k mem_cons_self
    have hnext : input.next (k ++ (ks.flatten ++ t)) = .ok (some (.data k, ks.flatten ++ t)) := by
      refine congrArg Except.ok ?_
      rw [nextInput_of_not_start (hkey.not_start_prefix hne _), hkey.nextKey_append, map_some]
    rw [flatten_cons, append_assoc, input.drain_of_some hnext,
      ih (fun k hk => hkeys k (mem_cons_of_mem _ hk))
        fun hinside => hstart (infix_append_of_infix_right hinside)]
    rfl

/-- Input without the marker is read as keys alone. -/
lemma drain_of_notMem (hstart : ¬ BRACKETED_PASTE_START <:+: s) : input.drain s =
      ((extractCompleteSequences s).1.map .data, .ok (extractCompleteSequences s).2) := by
  obtain ⟨hkeys, hsplit⟩ := extract_spec s
  have hrest : nextKey (extractCompleteSequences s).2 = none :=
    Except.ok.inj (keys.next_rest (congrArg Prod.snd (drain_keys s)))
  generalize extractCompleteSequences s = extracted at *
  obtain ⟨ks, rest⟩ := extracted
  subst hsplit
  have hnot : ¬ BRACKETED_PASTE_START <:+: rest :=
    fun hinside => hstart (infix_append_of_infix_right hinside)
  have hnext : input.next rest = .ok none := by
    refine congrArg Except.ok ?_
    rw [nextInput_of_not_start fun hbegins => hnot hbegins.isInfix, hrest, map_none]
  rw [drain_keySequences hkeys (fun hinside => hstart (infix_append_of_infix_left hinside)),
    input.drain_of_none hnext, append_nil]

/-! ## One chunk -/

/-- The rest of a chunk behind a paste. -/
def resume (remaining : CodeUnits) : StdinBuffer × List StdinEvent :=
  if remaining.length > 0 then process {} remaining else ({}, [])

variable {b : StdinBuffer} {str : CodeUnits}

lemma process_pasteMode (hne : str ≠ []) (hmode : b.pasteMode = true) : b.process str =
      match splitPaste (b.pasteBuffer ++ (b.buffer ++ str)) with
      | none => ({ b with buffer := [], pasteBuffer := b.pasteBuffer ++ (b.buffer ++ str) }, [])
      | some (content, remaining) =>
        ((resume remaining).1, .paste content :: (resume remaining).2) := by
  have hstr : ¬ (str.length = 0 ∧ b.buffer.length = 0) :=
    fun h => hne (length_eq_zero_iff.1 h.1)
  rcases hsplit : splitPaste (b.pasteBuffer ++ (b.buffer ++ str)) with _ | ⟨content, remaining⟩
  · rw [process, if_neg hstr, if_pos hmode]
    dsimp only
    split
    · rfl
    · rename_i hsome
      rw [hsplit] at hsome
      cases hsome
  · rw [process, if_neg hstr, if_pos hmode]
    dsimp only
    split
    · rename_i hnone
      rw [hsplit] at hnone
      cases hnone
    · rename_i hsome
      obtain ⟨rfl, rfl⟩ := Prod.ext_iff.1 (mem_unique hsplit hsome)
      dsimp only [resume]
      split_ifs with hpos
      · rfl
      · rfl

lemma process_of_notMem (hne : str ≠ []) (hmode : b.pasteMode = false)
    (hstart : ¬ BRACKETED_PASTE_START <:+: b.buffer ++ str) :
    b.process str =
      { b with buffer := (extractCompleteSequences (b.buffer ++ str)).2 }.emitDataSequences
        (extractCompleteSequences (b.buffer ++ str)).1 := by
  have hstr : ¬ (str.length = 0 ∧ b.buffer.length = 0) :=
    fun h => hne (length_eq_zero_iff.1 h.1)
  have hnone := (indexOf_eq_none_iff start_ne_nil).2 hstart
  rw [process, if_neg hstr, if_neg (by simp [hmode])]
  split
  · rename_i hsome
    rw [hnone] at hsome
    cases hsome
  · rfl

lemma process_of_start {before : CodeUnits} (hne : str ≠ []) (hmode : b.pasteMode = false)
    (hfirst : First BRACKETED_PASTE_START before)
    (hbuffer : b.buffer ++ str = before ++ (BRACKETED_PASTE_START ++ pasted)) :
    b.process str = match splitPaste pasted with
      | none => ({ pasteMode := true, pasteBuffer := pasted },
          (b.emitDataSequences (extractCompleteSequences before).1).2)
      | some (content, remaining) =>
        ((resume remaining).1, (b.emitDataSequences (extractCompleteSequences before).1).2 ++
          .paste content :: (resume remaining).2) := by
  have hstr : ¬ (str.length = 0 ∧ b.buffer.length = 0) :=
    fun h => hne (length_eq_zero_iff.1 h.1)
  have hidx : indexOf BRACKETED_PASTE_START (b.buffer ++ str) = some before.length := by
    rw [hbuffer, indexOf_append hfirst]
  have hdrop : (b.buffer ++ str).drop (before.length + BRACKETED_PASTE_START.length) = pasted := by
    rw [hbuffer, ← append_assoc, ← length_append, drop_left]
  have htake : (b.buffer ++ str).take before.length = before := by rw [hbuffer, take_left]
  have hprocess : b.process str = (match splitPaste pasted with
      | none => ({ pasteMode := true, pasteBuffer := pasted },
          (b.emitDataSequences (extractCompleteSequences before).1).2)
      | some (content, remaining) =>
        if remaining.length > 0 then
          ((process {} remaining).1, (b.emitDataSequences (extractCompleteSequences before).1).2 ++
              .paste content :: (process {} remaining).2)
        else ({}, (b.emitDataSequences (extractCompleteSequences before).1).2 ++
          [.paste content])) := by
    rw [process, if_neg hstr, if_neg (by simp [hmode])]
    dsimp only
    split
    · rename_i startIndex hsome
      obtain rfl := mem_unique hidx hsome
      rw [htake]
      rw [hdrop]
      rcases splitPaste pasted with _ | ⟨content, remaining⟩
      · rfl
      · rfl
    · rename_i hnone
      rw [hidx] at hnone
      cases hnone
  rw [hprocess]
  rcases splitPaste pasted with _ | ⟨content, remaining⟩
  · rfl
  · dsimp only [resume]
    split_ifs with hpos
    · rfl
    · rfl

/-! ## What a buffer holds -/

/-- No Kitty sequence for a printable character is in the input. -/
def KittyFree (s : CodeUnits) : Prop :=
  ∀ t, t <:+: s → parseUnmodifiedKittyPrintableCodepoint t = none

lemma KittyFree.of_infix (h : KittyFree s) (hinside : t <:+: s) : KittyFree t :=
  fun u hu => h u (hu.trans hinside)

/-- Without Kitty sequences nothing is swallowed. -/
lemma emitDataSequences_eq (hpend : b.pendingKittyPrintableCodepoint = none)
    (h : KittyFree ks.flatten) : b.emitDataSequences ks = (b, ks.map .data) := by
  induction ks with
  | nil => rfl
  | cons k ks ih =>
    have hparse := h k infix_append_left
    have hemit : b.emitDataSequence k = (b, [.data k]) := by
      unfold emitDataSequence
      dsimp only
      split_ifs with hswallow
      · obtain ⟨hsome, heq⟩ := hswallow
        rw [heq, hpend] at hsome
        cases hsome
      · rw [hparse, ← hpend]
    rw [emitDataSequences, hemit, ih (h.of_infix infix_append_right)]
    rfl

lemma emit_extract (hpend : b.pendingKittyPrintableCodepoint = none) (h : KittyFree s) :
    b.emitDataSequences (extractCompleteSequences s).1 =
      (b, (extractCompleteSequences s).1.map .data) := by
  refine emitDataSequences_eq hpend (h.of_infix ?_)
  conv_rhs => rw [(extract_spec s).2]
  exact infix_append_left

/-- The buffer that has left over `rest`: all of a paste that is open, or the beginning of a key
sequence. -/
def holding (rest : CodeUnits) : StdinBuffer :=
  if BRACKETED_PASTE_START.isPrefixOf rest then
    { pasteMode := true, pasteBuffer := rest.drop BRACKETED_PASTE_START.length }
  else { buffer := rest }

lemma holding_start (pasted : CodeUnits) : holding (BRACKETED_PASTE_START ++ pasted) =
    { pasteMode := true, pasteBuffer := pasted } := by
  rw [holding, if_pos (List.isPrefixOf_iff_prefix.2 (prefix_append _ _)), drop_left]

lemma holding_of_not_start (h : ¬ BRACKETED_PASTE_START <+: rest) :
    holding rest = { buffer := rest } := by
  rw [holding, if_neg (mt isPrefixOf_iff_prefix.1 h)]

lemma first_nil : First BRACKETED_PASTE_START [] := by
  intro hinside
  have hle := hinside.length_le
  revert hle
  decide

lemma extract_nil : extractCompleteSequences [] = ([], []) := by
  rw [extractCompleteSequences]

/-- A chunk is read as if what the buffer holds had come with it. -/
theorem process_holding {chunk : CodeUnits} (hne : chunk ≠ [])
    (hkitty : KittyFree (rest ++ chunk)) :
    (holding rest).process chunk = process {} (rest ++ chunk) := by
  have hne' : rest ++ chunk ≠ [] := fun h => hne (append_eq_nil_iff.1 h).2
  by_cases hstart : BRACKETED_PASTE_START <+: rest
  · obtain ⟨pasted, rfl⟩ := hstart
    rw [holding_start, process_pasteMode hne rfl, process_of_start hne' rfl first_nil
      (append_assoc BRACKETED_PASTE_START pasted chunk), extract_nil]
    rfl
  · rw [holding_of_not_start hstart]
    by_cases hmem : BRACKETED_PASTE_START <:+: rest ++ chunk
    · obtain ⟨before, pasted, hsplit, hfirst⟩ := exists_first start_ne_nil hmem
      rw [process_of_start hne rfl hfirst hsplit, process_of_start hne' rfl hfirst hsplit]
      rw [hsplit] at hkitty
      rw [emit_extract rfl (hkitty.of_infix infix_append_left),
        emit_extract rfl (hkitty.of_infix infix_append_left)]
    · rw [process_of_notMem hne rfl hmem, process_of_notMem hne' rfl hmem]
      rfl

/-! ## Aligned input -/

/-- Every marker of a paste that stands outside a paste stands behind whole key sequences. -/
inductive Aligned : CodeUnits → Prop
  | plain {s : CodeUnits} : ¬ BRACKETED_PASTE_START <:+: s → Aligned s
  | opened {ks : List CodeUnits} {content : CodeUnits} : (∀ k ∈ ks, KeySequence k) →
    First BRACKETED_PASTE_START ks.flatten → ¬ BRACKETED_PASTE_END <:+: content →
    Aligned (ks.flatten ++ (BRACKETED_PASTE_START ++ content))
  | pasted {ks : List CodeUnits} {content rest : CodeUnits} : (∀ k ∈ ks, KeySequence k) →
    First BRACKETED_PASTE_START ks.flatten → First BRACKETED_PASTE_END content → Aligned rest →
    Aligned (ks.flatten ++ (BRACKETED_PASTE_START ++ (content ++ (BRACKETED_PASTE_END ++ rest))))

lemma resume_of_ne_nil (h : s ≠ []) : resume s = process {} s :=
  if_pos (length_pos_of_ne_nil h)

lemma holding_nil : holding [] = {} := rfl

lemma resume_of_notMem (hstart : ¬ BRACKETED_PASTE_START <:+: s) (hkitty : KittyFree s) : resume s =
      ({ buffer := (extractCompleteSequences s).2 }, (extractCompleteSequences s).1.map .data) := by
  rcases eq_or_ne s [] with rfl | hne
  · rw [extract_nil]
    rfl
  · have hprocess := process_of_notMem (b := {}) hne rfl hstart
    rw [resume_of_ne_nil hne, hprocess]
    exact emit_extract rfl hkitty

lemma resume_of_start {before : CodeUnits} (hfirst : First BRACKETED_PASTE_START before)
    (hkitty : KittyFree before) (pasted : CodeUnits) :
    resume (before ++ (BRACKETED_PASTE_START ++ pasted)) = match splitPaste pasted with
      | none => ({ pasteMode := true, pasteBuffer := pasted },
          (extractCompleteSequences before).1.map .data)
      | some (content, remaining) =>
        ((resume remaining).1, (extractCompleteSequences before).1.map .data ++
          .paste content :: (resume remaining).2) := by
  have hne : before ++ (BRACKETED_PASTE_START ++ pasted) ≠ [] := by
    intro hnil
    exact start_ne_nil (append_eq_nil_iff.1 (append_eq_nil_iff.1 hnil).2).1
  rw [resume_of_ne_nil hne, process_of_start (b := {}) hne rfl hfirst rfl, emit_extract rfl hkitty]

lemma next_start_of_none (h : splitPaste pasted = none) :
    input.next (BRACKETED_PASTE_START ++ pasted) = .ok none :=
  congrArg Except.ok ((nextInput_start pasted).trans (congrArg (Option.map _) h))

lemma next_start_of_some (h : splitPaste pasted = some (content, rest)) :
    input.next (BRACKETED_PASTE_START ++ pasted) = .ok (some (.paste content, rest)) :=
  congrArg Except.ok ((nextInput_start pasted).trans (congrArg (Option.map _) h))

/-- Aligned input is read as its frames. -/
theorem resume_of_aligned (haligned : Aligned s) (hkitty : KittyFree s) :
    ∃ rest, input.drain s = ((resume s).2, .ok rest) ∧ (resume s).1 = holding rest := by
  induction haligned with
  | @plain s hstart =>
    refine ⟨(extractCompleteSequences s).2, ?_, ?_⟩
    · rw [resume_of_notMem hstart hkitty, drain_of_notMem hstart]
    · rw [resume_of_notMem hstart hkitty, holding_of_not_start]
      intro hbegins
      refine hstart (hbegins.isInfix.trans ?_)
      conv_rhs => rw [(extract_spec s).2]
      exact infix_append_right
  | @opened ks content hkeys hfirst hend =>
    have hnone := splitPaste_eq_none_iff.2 hend
    refine ⟨BRACKETED_PASTE_START ++ content, ?_, ?_⟩
    · rw [resume_of_start hfirst (hkitty.of_infix infix_append_left),
        drain_keySequences hkeys hfirst.notMem, input.drain_of_none (next_start_of_none hnone),
        hnone, extract_flatten hkeys, append_nil]
    · rw [resume_of_start hfirst (hkitty.of_infix infix_append_left), hnone, holding_start]
  | @pasted ks content rest hkeys hfirst hend haligned ih =>
    have hsome := splitPaste_append hend rest
    obtain ⟨rest', hdrain, hholding⟩ := ih (hkitty.of_infix (by
      simp only [← append_assoc]
      exact infix_append_right))
    refine ⟨rest', ?_, ?_⟩
    · rw [resume_of_start hfirst (hkitty.of_infix infix_append_left),
        drain_keySequences hkeys hfirst.notMem, input.drain_of_some (next_start_of_some hsome),
        hsome, extract_flatten hkeys, hdrain]
    · rw [resume_of_start hfirst (hkitty.of_infix infix_append_left), hsome]
      exact hholding

/-! ## Cutting aligned input -/

/-- Markers stay aligned when a frame is taken off. -/
lemma aligned_of_next (haligned : Aligned s) (hnext : nextInput s = some (event, rest)) :
    Aligned rest := by
  -- the first of some key sequences is the frame, and leaves the others
  have hkey : ∀ {k : CodeUnits} {ks : List CodeUnits} {u : CodeUnits}, KeySequence k →
      First BRACKETED_PASTE_START (k :: ks).flatten →
      nextInput ((k :: ks).flatten ++ u) = some (event, rest) →
      First BRACKETED_PASTE_START ks.flatten ∧ rest = ks.flatten ++ u := by
    intro k ks u hkey hfirst hnext
    rw [flatten_cons] at hfirst hnext
    have hne : k ≠ BRACKETED_PASTE_START := by
      rintro rfl
      exact hfirst.notMem infix_append_left
    rw [append_assoc, nextInput_of_not_start (hkey.not_start_prefix hne _),
      hkey.nextKey_append, map_some] at hnext
    exact ⟨hfirst.of_append, (Prod.ext_iff.1 (Option.some.inj hnext)).2.symm⟩
  cases haligned with
  | plain hstart =>
    obtain ⟨-, rfl, -⟩ := text_of_nextInput hnext
    exact .plain fun hinside => hstart (infix_append_of_infix_right hinside)
  | @opened ks content hkeys hfirst hend =>
    rcases ks with _ | ⟨k, ks⟩
    · rw [flatten_nil, nil_append, nextInput_start, splitPaste_eq_none_iff.2 hend]
        at hnext
      cases hnext
    · obtain ⟨hk, hks⟩ := forall_mem_cons.1 hkeys
      obtain ⟨hfirst', rfl⟩ := hkey hk hfirst hnext
      exact .opened hks hfirst' hend
  | @pasted ks content rest' hkeys hfirst hend haligned =>
    rcases ks with _ | ⟨k, ks⟩
    · rw [flatten_nil, nil_append, nextInput_start, splitPaste_append hend] at hnext
      obtain ⟨-, rfl⟩ := Prod.ext_iff.1 (Option.some.inj hnext)
      exact haligned
    · obtain ⟨hk, hks⟩ := forall_mem_cons.1 hkeys
      obtain ⟨hfirst', rfl⟩ := hkey hk hfirst hnext
      exact .pasted hks hfirst' hend haligned

lemma aligned_of_drain (hdrain : (input.drain s).2 = .ok rest) (haligned : Aligned (s ++ t)) :
    Aligned (rest ++ t) := by
  induction s using Framing.drain.induct input with
  | case1 s e hnext => exact e.elim
  | case2 s hnext =>
    rw [input.drain_of_none hnext] at hdrain
    cases hdrain
    exact haligned
  | case3 s event rest' hnext ih =>
    rw [input.drain_of_some hnext] at hdrain
    obtain ⟨-, rfl, htext⟩ := text_of_nextInput (Except.ok.inj hnext)
    rw [append_assoc] at haligned
    exact ih hdrain (aligned_of_next haligned (htext _))

/-- What is cut off behind does not matter. -/
lemma aligned_of_append (haligned : Aligned (s ++ t)) : Aligned s := by
  generalize hu : s ++ t = u at haligned
  induction haligned generalizing s with
  | plain hstart =>
    subst hu
    exact .plain fun hinside => hstart (infix_append_of_infix_left hinside)
  | @opened ks content hkeys hfirst hend =>
    by_cases hstart : BRACKETED_PASTE_START <:+: s
    · obtain ⟨before, pasted, rfl, hbefore⟩ := exists_first start_ne_nil hstart
      rw [append_assoc, append_assoc] at hu
      obtain ⟨rfl, rfl⟩ := hbefore.unique hfirst hu
      exact .opened hkeys hfirst fun hinside => hend (infix_append_of_infix_left hinside)
    · exact .plain hstart
  | @pasted ks content rest hkeys hfirst hend _ ih =>
    by_cases hstart : BRACKETED_PASTE_START <:+: s
    · obtain ⟨before, pasted, rfl, hbefore⟩ := exists_first start_ne_nil hstart
      rw [append_assoc, append_assoc] at hu
      obtain ⟨rfl, hpasted⟩ := hbefore.unique hfirst hu
      by_cases hclosed : BRACKETED_PASTE_END <:+: pasted
      · obtain ⟨content', rest', rfl, hcont'⟩ := exists_first end_ne_nil hclosed
        rw [append_assoc, append_assoc] at hpasted
        obtain ⟨rfl, hrest⟩ := hcont'.unique hend hpasted
        exact .pasted hkeys hfirst hend (ih hrest)
      · exact .opened hkeys hfirst hclosed
    · exact .plain hstart

/-! ## Many chunks -/

/-- Chunks are read as the frames of the stream. -/
theorem processAll_holding {chunks : List CodeUnits} (hchunks : ∀ chunk ∈ chunks, chunk ≠ [])
    (hbuffered : input.drain rest = ([], .ok rest))
    (haligned : Aligned (rest ++ chunks.flatten)) (hkitty : KittyFree (rest ++ chunks.flatten)) :
    ∃ left, input.feed rest chunks = (((holding rest).processAll chunks).2, .ok left) ∧
      ((holding rest).processAll chunks).1 = holding left := by
  induction chunks generalizing rest with
  | nil => exact ⟨rest, rfl, rfl⟩
  | cons chunk chunks ih =>
    obtain ⟨hchunk, hchunks⟩ := forall_mem_cons.1 hchunks
    rw [flatten_cons, ← append_assoc] at haligned hkitty
    have hkitty' := hkitty.of_infix (infix_append_left : rest ++ chunk <:+: _)
    obtain ⟨rest', hdrain, hholding⟩ := resume_of_aligned (aligned_of_append haligned) hkitty'
    have hne : rest ++ chunk ≠ [] := fun h => hchunk (append_eq_nil_iff.1 h).2
    have hok := congrArg Prod.snd hdrain
    have hleft := flatMap_text_drain hok
    obtain ⟨left, hfeed, hleft'⟩ := ih hchunks (input.drain_rest hok)
      (aligned_of_drain hok haligned) (hkitty.of_infix (by
        rw [← hleft, append_assoc]
        exact infix_append_right))
    rw [resume_of_ne_nil hne, ← process_holding hchunk hkitty'] at hdrain hholding
    refine ⟨left, ?_, ?_⟩
    · rw [Framing.feed, Framing.push, hdrain]
      dsimp only
      rw [hfeed, processAll, hholding]
    · rw [processAll, hholding]
      exact hleft'

/-- What a buffer has not emitted: the paste that is open, and what it waits with. -/
def held (b : StdinBuffer) : CodeUnits :=
  (if b.pasteMode then BRACKETED_PASTE_START ++ b.pasteBuffer else []) ++ b.buffer

lemma held_holding (rest : CodeUnits) : (holding rest).held = rest := by
  by_cases hstart : BRACKETED_PASTE_START <+: rest
  · obtain ⟨pasted, rfl⟩ := hstart
    rw [holding_start]
    simp [held]
  · rw [holding_of_not_start hstart]
    simp [held]

/-- All that the buffer has emitted and has not. -/
def accounted (result : StdinBuffer × List StdinEvent) : CodeUnits :=
  result.2.flatMap text ++ result.1.held

lemma accounted_resume (haligned : Aligned s) (hkitty : KittyFree s) :
    accounted (resume s) = s := by
  obtain ⟨rest, hdrain, hholding⟩ := resume_of_aligned haligned hkitty
  have hall := flatMap_text_drain (congrArg Prod.snd hdrain)
  rw [accounted, hholding, held_holding]
  rwa [hdrain] at hall

lemma flatMap_text_map_data (ks : List CodeUnits) :
    (ks.map data).flatMap text = ks.flatten := by
  induction ks with
  | nil => rfl
  | cons k ks ih =>
    rw [map_cons, flatMap_cons, ih]
    rfl

/-- A marker that is not aligned costs the key sequence it cuts off. -/
theorem length_accounted_lt (haligned : ¬ Aligned s) (hkitty : KittyFree s) :
    (accounted (resume s)).length < s.length := by
  induction hn : s.length using Nat.strong_induction_on generalizing s with
  | _ n ih =>
    subst hn
    have hstart : BRACKETED_PASTE_START <:+: s := by
      by_contra hnot
      exact haligned (.plain hnot)
    obtain ⟨before, pasted, rfl, hfirst⟩ := exists_first start_ne_nil hstart
    obtain ⟨hkeys, hbefore⟩ := extract_spec before
    have hlen := congrArg List.length hbefore
    rw [length_append] at hlen
    -- nothing left over in front of the marker means that it is aligned
    have hremainder : (extractCompleteSequences before).2 = [] →
        before = (extractCompleteSequences before).1.flatten := by
      intro hnil
      rwa [hnil, append_nil] at hbefore
    rw [resume_of_start hfirst (hkitty.of_infix infix_append_left)]
    rcases hsplit : splitPaste pasted with _ | ⟨content, rest⟩
    · have hne : (extractCompleteSequences before).2 ≠ [] := by
        intro hnil
        have hwhole := hremainder hnil
        refine haligned ?_
        rw [hwhole] at hfirst ⊢
        exact .opened hkeys hfirst (splitPaste_eq_none_iff.1 hsplit)
      have hpos := length_pos_of_ne_nil hne
      simp only [accounted, flatMap_text_map_data, held, length_append, length_nil, if_true]
      omega
    · obtain ⟨rfl, hend⟩ := exists_of_splitPaste hsplit
      have hsum : (accounted ((resume rest).1, (extractCompleteSequences before).1.map .data ++
          .paste content :: (resume rest).2)).length =
          (extractCompleteSequences before).1.flatten.length + (BRACKETED_PASTE_START.length +
            (content.length + BRACKETED_PASTE_END.length)) + (accounted (resume rest)).length := by
        simp only [accounted, flatMap_append, flatMap_cons, flatMap_text_map_data,
          text, length_append]
        omega
      simp only [hsum, length_append]
      have hrest : KittyFree rest := hkitty.of_infix (by
        simp only [← append_assoc]
        exact infix_append_right)
      by_cases halignedRest : Aligned rest
      · have hne : (extractCompleteSequences before).2 ≠ [] := by
          intro hnil
          have hwhole := hremainder hnil
          refine haligned ?_
          rw [hwhole] at hfirst ⊢
          exact .pasted hkeys hfirst hend halignedRest
        have hpos := length_pos_of_ne_nil hne
        rw [accounted_resume halignedRest hrest]
        omega
      · have hmarker : 0 < BRACKETED_PASTE_START.length := by decide
        have hshort : rest.length < (before ++ (BRACKETED_PASTE_START ++
            (content ++ (BRACKETED_PASTE_END ++ rest)))).length := by
          simp only [length_append]
          omega
        have hlt := ih rest.length hshort halignedRest hrest rfl
        omega

/-! ## Every division -/

/-- Any two divisions of the input emit the same, and nothing of it is lost. -/
def ChunkingIndependent (s : CodeUnits) : Prop :=
  (∀ chunks chunks' : List CodeUnits, (∀ chunk ∈ chunks, chunk ≠ []) →
    (∀ chunk ∈ chunks', chunk ≠ []) → chunks.flatten = s → chunks'.flatten = s →
      (processAll {} chunks).2 = (processAll {} chunks').2) ∧
    ∀ chunks : List CodeUnits, (∀ chunk ∈ chunks, chunk ≠ []) → chunks.flatten = s →
      accounted (processAll {} chunks) = s

lemma processAll_singleton (hne : s ≠ []) : processAll {} [s] = resume s := by
  rw [resume_of_ne_nil hne, processAll, processAll, append_nil]

/-- Chunks do not matter, and nothing is lost, just when every marker of a paste is aligned. -/
theorem chunking_iff (s : CodeUnits) (hkitty : KittyFree s) :
    ChunkingIndependent s ↔ Aligned s := by
  constructor
  · rintro ⟨-, hlost⟩
    by_contra haligned
    have hne : s ≠ [] := by
      rintro rfl
      exact haligned (.plain (by simp [start_ne_nil]))
    have hwhole := hlost [s] (by simpa using hne) (by simp)
    have hone : processAll {} [s] = resume s := processAll_singleton hne
    have hlt := length_accounted_lt haligned hkitty
    rw [← hone, hwhole] at hlt
    exact lt_irrefl _ hlt
  · intro haligned
    have hread : ∀ chunks : List CodeUnits, (∀ chunk ∈ chunks, chunk ≠ []) →
        chunks.flatten = s → ∃ left, input.drain s = ((processAll {} chunks).2, .ok left) ∧
          (processAll {} chunks).1 = holding left := by
      rintro chunks hchunks rfl
      obtain ⟨left, hfeed, hleft⟩ := processAll_holding hchunks input.drain_nil haligned hkitty
      rw [holding_nil] at hfeed hleft
      refine ⟨left, ?_, hleft⟩
      obtain ⟨rest, hrest⟩ := exists_drain chunks.flatten
      rw [← hfeed, input.feed_of_ok chunks input.drain_nil hrest, nil_append]
    refine ⟨fun chunks chunks' hchunks hchunks' hflatten hflatten' => ?_,
      fun chunks hchunks hflatten => ?_⟩
    · obtain ⟨_, hdrain, -⟩ := hread chunks hchunks hflatten
      obtain ⟨_, hdrain', -⟩ := hread chunks' hchunks' hflatten'
      exact congrArg Prod.fst (hdrain.symm.trans hdrain')
    · obtain ⟨left, hdrain, hleft⟩ := hread chunks hchunks hflatten
      have hall := flatMap_text_drain (congrArg Prod.snd hdrain)
      rw [accounted, hleft, held_holding]
      rwa [hdrain] at hall

lemma kittyFree_of_forall (h : ∀ u ∈ s.tails, ∀ t ∈ u.inits,
    parseUnmodifiedKittyPrintableCodepoint t = none) : KittyFree s := by
  intro t hinside
  obtain ⟨u, hbegins, hsuffix⟩ := infix_iff_prefix_suffix.1 hinside
  exact h u ((mem_tails _ _).2 hsuffix) t ((mem_inits _ _).2 hbegins)

/-- A key and the marker of a paste. -/
theorem chunking_text : ChunkingIndependent (97 :: BRACKETED_PASTE_START) := by
  have hkey : ∀ k ∈ [[(97 : UInt16)]], KeySequence k := by
    rintro k (_ | ⟨_, ⟨⟩⟩)
    exact ⟨nofun, by decide, fun n hpos hlt => absurd hlt (by simp; omega)⟩
  have hkitty : KittyFree (97 :: BRACKETED_PASTE_START) := kittyFree_of_forall (by decide)
  have hfirst : First BRACKETED_PASTE_START [[(97 : UInt16)]].flatten := by
    rw [First]
    decide
  have hopened : Aligned ([[(97 : UInt16)]].flatten ++ (BRACKETED_PASTE_START ++ [])) :=
    .opened hkey hfirst (by decide)
  exact (chunking_iff _ hkitty).2 hopened

/-- `ESC` and a paste: the marker cuts off the `ESC`, which is lost. -/
theorem chunking_escape : KittyFree (ESC :: BRACKETED_PASTE_START) ∧
    ¬ ChunkingIndependent (ESC :: BRACKETED_PASTE_START) := by
  have hkitty : KittyFree (ESC :: BRACKETED_PASTE_START) := kittyFree_of_forall (by decide)
  refine ⟨hkitty, fun hind => ?_⟩
  have hwhole := hind.2 [ESC :: BRACKETED_PASTE_START] (by simp) (by simp)
  have hone : processAll {} [ESC :: BRACKETED_PASTE_START] =
      resume ([ESC] ++ (BRACKETED_PASTE_START ++ [])) := processAll_singleton nofun
  have hfirst : First BRACKETED_PASTE_START [ESC] := by
    rw [First]
    decide
  have hextract : extractCompleteSequences [ESC] = ([], [ESC]) := by
    have hnext : keys.next [ESC] = .ok none := rfl
    have hdrain := keys.drain_of_none hnext
    rw [drain_keys, Prod.ext_iff] at hdrain
    exact Prod.ext hdrain.1 (Except.ok.inj hdrain.2)
  rw [hone, resume_of_start hfirst (hkitty.of_infix ⟨[], BRACKETED_PASTE_START, rfl⟩), hextract]
    at hwhole
  revert hwhole
  decide

end StdinBuffer
end Amide
