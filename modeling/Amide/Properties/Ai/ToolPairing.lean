import Amide.Construction.Ai.TransformMessages

/-!
# Tool calls and their results after `transformMessages`

`WellPaired` is what a provider asks of a transcript.  `transformMessages` passes every tool result
on where it stands, and only makes up the ones that are missing; so its output is well paired
exactly when the results it was given stand in place, `InPlace`, once the first pass has renamed
them.  Neither depends on the normaliser being injective.

A turn is read with two lists of ids: those the assistant message calls, and those answered so far.
Outside a turn the first is empty.
-/

namespace Amide

open List

def AssistantMessage.callIds (m : AssistantMessage) : List String := m.toolCalls.map (·.id)

/-- The ids a message calls. -/
def Message.callIds : Message → List String
  | .assistant m => m.callIds
  | _ => []

/-- An assistant message stands in front of exactly one result for each of its calls, and results
stand nowhere else. -/
inductive WellPaired : List Message → Prop
  | nil : WellPaired []
  | user (m : UserMessage) {ms : List Message} : WellPaired ms → WellPaired (.user m :: ms)
  | other (role : String) (fields : Json) {ms : List Message} :
      WellPaired ms → WellPaired (.other role fields :: ms)
  | turn (m : AssistantMessage) (results : List ToolResultMessage) {ms : List Message} :
      (∀ r ∈ results, r.toolCallId ∈ m.callIds) →
      (∀ id ∈ m.callIds, (results.map (·.toolCallId)).count id = 1) →
      WellPaired ms → WellPaired (.assistant m :: (results.map .toolResult ++ ms))

namespace ToolPairing

open TransformMessages

variable {calls answered : List String} {ms t : List Message}

/-! ## Well-paired transcripts, message by message -/

/-- Each call is answered, once. -/
def Answered (calls answered : List String) : Prop := ∀ id ∈ calls, answered.count id = 1

def PairedFrom (calls answered : List String) : List Message → Prop
  | [] => Answered calls answered
  | .assistant m :: ms => Answered calls answered ∧ PairedFrom m.callIds [] ms
  | .toolResult r :: ms => r.toolCallId ∈ calls ∧ PairedFrom calls (answered ++ [r.toolCallId]) ms
  | .user _ :: ms => Answered calls answered ∧ PairedFrom [] [] ms
  | .other _ _ :: ms => Answered calls answered ∧ PairedFrom [] [] ms

instance (calls answered : List String) : Decidable (Answered calls answered) :=
  inferInstanceAs (Decidable (∀ id ∈ calls, answered.count id = 1))

instance decidablePairedFrom (calls answered : List String) :
    (ms : List Message) → Decidable (PairedFrom calls answered ms)
  | [] => inferInstanceAs (Decidable (Answered calls answered))
  | .assistant m :: ms =>
      have := decidablePairedFrom m.callIds [] ms
      inferInstanceAs (Decidable (Answered calls answered ∧ PairedFrom m.callIds [] ms))
  | .toolResult r :: ms =>
      have := decidablePairedFrom calls (answered ++ [r.toolCallId]) ms
      inferInstanceAs (Decidable (r.toolCallId ∈ calls ∧
        PairedFrom calls (answered ++ [r.toolCallId]) ms))
  | .user _ :: ms | .other _ _ :: ms =>
      have := decidablePairedFrom [] [] ms
      inferInstanceAs (Decidable (Answered calls answered ∧ PairedFrom [] [] ms))

lemma answered_nil (answered : List String) : Answered [] answered := nofun

/-- A closed turn leaves nothing behind. -/
theorem pairedFrom_of_answered (h : Answered calls answered) (hms : PairedFrom [] [] ms) :
    PairedFrom calls answered ms := by
  cases ms with
  | nil => exact h
  | cons m ms =>
    cases m with
    | user | assistant | other => exact ⟨h, hms.2⟩
    | toolResult r => exact absurd hms.1 not_mem_nil

lemma pairedFrom_results_append (results : List ToolResultMessage) :
    PairedFrom calls answered (results.map .toolResult ++ ms) ↔
      (∀ r ∈ results, r.toolCallId ∈ calls) ∧
        PairedFrom calls (answered ++ results.map (·.toolCallId)) ms := by
  induction results generalizing answered with
  | nil => simp
  | cons r results ih => simp [PairedFrom, ih, and_assoc]

lemma exists_results_of_pairedFrom (h : PairedFrom calls answered ms) :
    ∃ (results : List ToolResultMessage) (rest : List Message),
      ms = results.map .toolResult ++ rest ∧ (∀ r ∈ results, r.toolCallId ∈ calls) ∧
        Answered calls (answered ++ results.map (·.toolCallId)) ∧ WellPaired rest := by
  induction ms generalizing calls answered with
  | nil => exact ⟨[], [], rfl, nofun, by simpa [PairedFrom] using h, .nil⟩
  | cons m ms ih =>
    -- outside a turn no result can stand in front of the rest
    have closed (hms : PairedFrom [] [] ms) : WellPaired ms := by
      obtain ⟨results, rest, rfl, hmem, -, hrest⟩ := ih hms
      have : results = [] := eq_nil_iff_forall_not_mem.2 fun r hr => nomatch hmem r hr
      simpa [this] using hrest
    cases m with
    | user m => exact ⟨[], _, rfl, nofun, by simpa using h.1, .user m (closed h.2)⟩
    | other role fields =>
      exact ⟨[], _, rfl, nofun, by simpa using h.1, .other role fields (closed h.2)⟩
    | assistant m =>
      obtain ⟨results, rest, rfl, hmem, hanswered, hrest⟩ := ih h.2
      exact ⟨[], _, rfl, nofun, by simpa using h.1, .turn m results hmem hanswered hrest⟩
    | toolResult r =>
      obtain ⟨results, rest, rfl, hmem, hanswered, hrest⟩ := ih h.2
      exact ⟨r :: results, rest, rfl, by simpa using ⟨h.1, hmem⟩, by simpa using hanswered, hrest⟩

lemma wellPaired_iff : WellPaired ms ↔ PairedFrom [] [] ms := by
  constructor
  · intro h
    induction h with
    | nil => exact answered_nil _
    | user m _ ih | other role fields _ ih => exact ⟨answered_nil _, ih⟩
    | turn m results hmem hanswered _ ih =>
      refine ⟨answered_nil _, (pairedFrom_results_append results).2 ⟨hmem, ?_⟩⟩
      exact pairedFrom_of_answered hanswered ih
  · intro h
    obtain ⟨results, rest, rfl, hmem, -, hrest⟩ := exists_results_of_pairedFrom h
    have : results = [] := eq_nil_iff_forall_not_mem.2 fun r hr => nomatch hmem r hr
    simpa [this] using hrest

/-- What has been answered twice stays answered twice. -/
theorem not_pairedFrom_of_two_le {id : String} (hid : id ∈ calls) (h : 2 ≤ answered.count id) :
    ¬ PairedFrom calls answered ms := by
  have open_ : ¬ Answered calls answered := fun hall => by
    have := hall id hid
    omega
  induction ms generalizing answered with
  | nil => exact open_
  | cons m ms ih =>
    cases m with
    | user | assistant | other => exact fun hm => open_ hm.1
    | toolResult r =>
      intro hm
      have hle : 2 ≤ (answered ++ [r.toolCallId]).count id := by
        rw [count_append]
        omega
      refine ih hle (fun hall => ?_) hm.2
      have := hall id hid
      omega

/-! ## Results in place -/

/-- The calls without an answer, which are all different. -/
def Fillable (calls answered : List String) : Prop := (calls.filter (· ∉ answered)).Nodup

/-- Every tool result answers a call of the turn it stands in, for the first time, and a message of
another role only stands behind a turn that is complete.  A failed assistant message opens no
turn. -/
def InPlaceFrom (calls answered : List String) : List Message → Prop
  | [] => Fillable calls answered
  | .assistant m :: ms =>
      Fillable calls answered ∧ InPlaceFrom (if isFailed m then [] else m.callIds) [] ms
  | .toolResult r :: ms =>
      r.toolCallId ∈ calls ∧ r.toolCallId ∉ answered ∧
        InPlaceFrom calls (answered ++ [r.toolCallId]) ms
  | .user _ :: ms => Fillable calls answered ∧ InPlaceFrom [] [] ms
  | .other _ _ :: ms => (∀ id ∈ calls, id ∈ answered) ∧ InPlaceFrom [] [] ms

instance (calls answered : List String) : Decidable (Fillable calls answered) :=
  inferInstanceAs (Decidable (calls.filter (· ∉ answered)).Nodup)

instance decidableInPlaceFrom (calls answered : List String) :
    (ms : List Message) → Decidable (InPlaceFrom calls answered ms)
  | [] => inferInstanceAs (Decidable (Fillable calls answered))
  | .assistant m :: ms =>
      have := decidableInPlaceFrom (if isFailed m then [] else m.callIds) [] ms
      inferInstanceAs (Decidable (Fillable calls answered ∧
        InPlaceFrom (if isFailed m then [] else m.callIds) [] ms))
  | .toolResult r :: ms =>
      have := decidableInPlaceFrom calls (answered ++ [r.toolCallId]) ms
      inferInstanceAs (Decidable (r.toolCallId ∈ calls ∧ r.toolCallId ∉ answered ∧
        InPlaceFrom calls (answered ++ [r.toolCallId]) ms))
  | .user _ :: ms =>
      have := decidableInPlaceFrom [] [] ms
      inferInstanceAs (Decidable (Fillable calls answered ∧ InPlaceFrom [] [] ms))
  | .other _ _ :: ms =>
      have := decidableInPlaceFrom [] [] ms
      inferInstanceAs (Decidable ((∀ id ∈ calls, id ∈ answered) ∧ InPlaceFrom [] [] ms))

end ToolPairing

instance (ms : List Message) : Decidable (WellPaired ms) :=
  decidable_of_iff _ ToolPairing.wellPaired_iff.symm

/-- The tool results of a transcript stand in place. -/
def InPlace (ms : List Message) : Prop := ToolPairing.InPlaceFrom [] [] ms

instance (ms : List Message) : Decidable (InPlace ms) :=
  inferInstanceAs (Decidable (ToolPairing.InPlaceFrom [] [] ms))

namespace ToolPairing

open TransformMessages

variable {calls answered : List String} {ms t : List Message}

/-! ## The second pass as a recursion -/

/-- The results the pass makes up, as it puts them out. -/
abbrev synthetic (now : ℕ) (pending : List ToolCall) (existing : List String) : List Message :=
  (syntheticResults now pending existing).map .toolResult

/-- What the second pass still puts out, in front of `t`. -/
def emit (now : ℕ) (pending : List ToolCall) (existing : List String) : List Message → List Message
  | [] => synthetic now pending existing
  | .assistant m :: t =>
      synthetic now pending existing ++
        if isFailed m then emit now [] [] t else .assistant m :: emit now m.toolCalls [] t
  | .toolResult r :: t => .toolResult r :: emit now pending (existing ++ [r.toolCallId]) t
  | .user m :: t => synthetic now pending existing ++ .user m :: emit now [] [] t
  | .other role fields :: t => .other role fields :: emit now pending existing t

variable {now : ℕ} {pending : List ToolCall} {existing : List String}

lemma syntheticResults_ids : (syntheticResults now pending existing).map (·.toolCallId) =
      (pending.map (·.id)).filter (· ∉ existing) := by
  rw [syntheticResults, map_map, filter_map]
  congr 1
  exact filter_congr fun c _ => by simp

lemma syntheticResults_of_subset (h : ∀ c ∈ pending, c.id ∈ existing) :
    syntheticResults now pending existing = [] := by
  simp only [syntheticResults, map_eq_nil_iff, filter_eq_nil_iff]
  intro c hc
  simpa using h c hc

/-- Once every call has its result, the pass is as outside a turn. -/
theorem emit_of_subset (h : ∀ c ∈ pending, c.id ∈ existing) (existing' : List String) :
    emit now pending existing t = emit now [] existing' t := by
  have hnil : ∀ c ∈ ([] : List ToolCall), c.id ∈ existing' := forall_mem_nil _
  induction t generalizing existing existing' with
  | nil => simp only [emit, synthetic, syntheticResults_of_subset h,
      syntheticResults_of_subset hnil]
  | cons m t ih =>
    cases m with
    | user | assistant =>
      simp only [emit, synthetic, syntheticResults_of_subset h, syntheticResults_of_subset hnil]
    | other role fields => exact congrArg _ (ih h existing' hnil)
    | toolResult r =>
      exact congrArg _ (ih (fun c hc => mem_append_left _ (h c hc)) _ (forall_mem_nil _))

lemma insertSyntheticToolResults_emit (s : PassState) :
    (insertSyntheticToolResults now s).result =
        s.result ++ synthetic now s.pendingToolCalls s.existingToolResultIds ∧
      (insertSyntheticToolResults now s).pendingToolCalls = [] := by
  by_cases hp : s.pendingToolCalls = []
  · simp [insertSyntheticToolResults, hp, syntheticResults]
  · simp [insertSyntheticToolResults, hp]

/-- What `passMessage` adds, and the state it leaves for the rest. -/
theorem emit_passMessage (s : PassState) (m : Message) :
    s.result ++ emit now s.pendingToolCalls s.existingToolResultIds (m :: t) =
      (passMessage now s m).result ++ emit now (passMessage now s m).pendingToolCalls
        (passMessage now s m).existingToolResultIds t := by
  obtain ⟨hres, hpend⟩ := @insertSyntheticToolResults_emit now s
  have hclosed (existing : List String) : emit now [] existing t = emit now [] [] t :=
    emit_of_subset (forall_mem_nil _) []
  cases m with
  | user m => simp [passMessage, emit, hres, hpend, hclosed]
  | toolResult r | other role fields => simp [passMessage, emit]
  | assistant m =>
    by_cases hf : isFailed m = true
    · simp [passMessage, emit, hf, hres, hpend, hclosed]
    · by_cases hc : m.toolCalls = []
      · simp [passMessage, emit, hf, hc, hres, hpend, hclosed]
      · simp [passMessage, emit, hf, hc, hres]

lemma secondPass_from (s : PassState) :
    (insertSyntheticToolResults now (t.foldl (passMessage now) s)).result =
      s.result ++ emit now s.pendingToolCalls s.existingToolResultIds t := by
  induction t generalizing s with
  | nil => exact (insertSyntheticToolResults_emit s).1
  | cons m t ih => rw [foldl_cons, ih, emit_passMessage]

lemma secondPass_eq_emit : secondPass now t = emit now [] [] t := secondPass_from {}

/-! ## When the output is well paired -/

lemma answered_iff_subset (h : answered.Nodup) :
    Answered calls answered ↔ ∀ id ∈ calls, id ∈ answered := by
  refine forall₂_congr fun id _ => ?_
  constructor
  · intro hcount
    exact count_pos_iff.1 (by omega)
  · exact count_eq_one_of_mem h

/-- The made-up results answer each call once if they are no more than one for each id. -/
theorem answered_append_iff_fillable (h : answered.Nodup) :
    Answered calls (answered ++ calls.filter (· ∉ answered)) ↔ Fillable calls answered := by
  have zero {id : String} (hid : id ∈ answered) : (calls.filter (· ∉ answered)).count id = 0 :=
    count_eq_zero.2 fun hf => by simpa [hid] using (mem_filter.1 hf).2
  constructor
  · intro hall
    refine nodup_iff_count_le_one.2 fun id => ?_
    by_cases hid : id ∈ calls
    · have := hall id hid
      rw [count_append] at this
      omega
    · have : id ∉ calls.filter (· ∉ answered) := fun hf => hid (mem_filter.1 hf).1
      rw [count_eq_zero.2 this]
      omega
  · intro hnodup id hid
    rw [count_append]
    by_cases hans : id ∈ answered
    · rw [zero hans, count_eq_one_of_mem h hans]
    · have hmem : id ∈ calls.filter (· ∉ answered) := mem_filter.2 ⟨hid, by simpa using hans⟩
      rw [count_eq_zero.2 hans, count_eq_one_of_mem hnodup hmem]

/-- Behind a turn that has an answer to each call, the rest is read on its own. -/
theorem pairedFrom_iff_of_full (hfull : ∀ id ∈ calls, id ∈ answered) :
    PairedFrom calls answered ms ↔ Answered calls answered ∧ PairedFrom [] [] ms := by
  refine ⟨fun h => ?_, fun h => pairedFrom_of_answered h.1 h.2⟩
  cases ms with
  | nil => exact ⟨h, answered_nil _⟩
  | cons m ms =>
    cases m with
    | user | assistant | other => exact ⟨h.1, answered_nil _, h.2⟩
    | toolResult r =>
      have hpos := count_pos_iff.2 (hfull _ h.1)
      refine absurd h.2 (not_pairedFrom_of_two_le h.1 ?_)
      rw [count_append, count_singleton_self]
      omega

lemma pairedFrom_synthetic_append (h : answered.Nodup) :
    PairedFrom (pending.map (·.id)) answered (synthetic now pending answered ++ ms) ↔
      Fillable (pending.map (·.id)) answered ∧ PairedFrom [] [] ms := by
  have hmem : ∀ r ∈ syntheticResults now pending answered, r.toolCallId ∈ pending.map (·.id) := by
    intro r hr
    have := mem_map_of_mem (f := (·.toolCallId)) hr
    rw [syntheticResults_ids] at this
    exact (mem_filter.1 this).1
  rw [pairedFrom_results_append, syntheticResults_ids, ← answered_append_iff_fillable h,
    pairedFrom_iff_of_full]
  · exact ⟨fun hp => hp.2, fun hp => ⟨hmem, hp⟩⟩
  · intro id hid
    by_cases hans : id ∈ answered
    · exact mem_append_left _ hans
    · exact mem_append_right _ (mem_filter.2 ⟨hid, by simpa using hans⟩)

lemma pairedFrom_emit_iff (h : answered.Nodup) :
    PairedFrom (pending.map (·.id)) answered (emit now pending answered t) ↔
      InPlaceFrom (pending.map (·.id)) answered t := by
  induction t generalizing pending answered with
  | nil =>
    have := @pairedFrom_synthetic_append _ [] now pending h
    rw [append_nil] at this
    exact this.trans (and_iff_left (answered_nil _))
  | cons m t ih =>
    have outside : PairedFrom [] [] (emit now [] [] t) ↔ InPlaceFrom [] [] t := @ih [] [] .nil
    cases m with
    | user m =>
      rw [emit, pairedFrom_synthetic_append h]
      exact and_congr_right fun _ => (and_iff_right (answered_nil _)).trans outside
    | assistant m =>
      rw [emit, pairedFrom_synthetic_append h]
      refine and_congr_right fun _ => ?_
      by_cases hf : isFailed m = true
      · rw [if_pos hf, if_pos hf]
        exact outside
      · rw [if_neg hf, if_neg hf]
        exact (and_iff_right (answered_nil _)).trans (ih .nil)
    | other role fields =>
      rw [emit, PairedFrom, InPlaceFrom, answered_iff_subset h]
      refine and_congr_right fun hsub => ?_
      rw [emit_of_subset (fun c hc => hsub _ (mem_map_of_mem hc)) []]
      exact outside
    | toolResult r =>
      refine and_congr_right fun hcall => ?_
      by_cases hans : r.toolCallId ∈ answered
      · -- a second answer is never taken back
        have htwo : 2 ≤ (answered ++ [r.toolCallId]).count r.toolCallId := by
          have := count_pos_iff.2 hans
          rw [count_append, count_singleton_self]
          omega
        exact iff_of_false (not_pairedFrom_of_two_le hcall htwo) fun hin => hin.1 hans
      · rw [ih (h.append (nodup_singleton _) (by simpa using hans))]
        exact (and_iff_right hans).symm

end ToolPairing

open TransformMessages in
lemma wellPaired_transformMessages_iff (messages : List Message) (model : Model)
    (normalize : Option ToolCallIdNormalizer) (now : ℕ) :
    WellPaired (transformMessages messages model normalize now) ↔
      InPlace (transformed messages model normalize) := by
  rw [ToolPairing.wellPaired_iff, transformMessages, ToolPairing.secondPass_eq_emit]
  exact @ToolPairing.pairedFrom_emit_iff [] _ _ [] .nil

end Amide
