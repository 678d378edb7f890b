import Amide.Properties.Ai.ToolPairing

/-!
# What `transformMessages` makes of a transcript

The first pass renames the calls of each assistant message along one function of their ids, and
the results standing in its turn along the same; so results that stand in place still do.  Whatever
the input, every call of the output is answered before the next user or assistant message.
-/

namespace Amide

open TransformMessages ToolPairing List Function
open AssistantBlock (toolCall?)

/-- A message of the kinds that do not end a turn. -/
def Message.isReply : Message → Bool
  | .toolResult _ | .other _ _ => true
  | .user _ | .assistant _ => false

/-- No two messages call the same id. -/
def DisjointCalls (ms : List Message) : Prop := (ms.map Message.callIds).Pairwise List.Disjoint

namespace ToolPairing

variable {calls answered : List String} {ms t : List Message}
variable {model : Model} {normalize : Option ToolCallIdNormalizer}

/-! ## The first pass keeps results in place -/

/-- The id a call of `m` gets. -/
def renamed (model : Model) (normalize : Option ToolCallIdNormalizer) (m : AssistantMessage)
    (id : String) : String :=
  if isSameModel m model then id else normalize.elim id fun f => f id model m

/-- A renaming that keeps ids apart and gives none that `toolCallIdMap` cannot hold. -/
structure KeepsApart (ρ : String → String) : Prop where
  injective : Injective ρ
  ne_empty : ∀ id, ρ id ≠ id → ρ id ≠ ""

variable {ρ : String → String}

lemma KeepsApart.mem_map (hρ : KeepsApart ρ) {id : String} :
    ρ id ∈ calls.map ρ ↔ id ∈ calls := mem_map_of_injective hρ.injective

lemma fillable_map (hρ : KeepsApart ρ) :
    Fillable (calls.map ρ) (answered.map ρ) ↔ Fillable calls answered := by
  have hfilter : (calls.map ρ).filter (· ∉ answered.map ρ) =
      (calls.filter (· ∉ answered)).map ρ := by
    rw [filter_map]
    congr 1
    exact filter_congr fun id _ => by simp only [comp_apply, hρ.mem_map]
  rw [Fillable, hfilter, nodup_map_iff hρ.injective, Fillable]

lemma transformBlock_spec (m : AssistantMessage) (b : AssistantBlock) :
    ((transformBlock model normalize m b).1.filterMap toolCall?).map (·.id) =
        (b.toolCall?.toList.map (·.id)).map (renamed model normalize m) ∧
      (transformBlock model normalize m b).2 = b.toolCall?.bind fun c =>
        if renamed model normalize m c.id = c.id then none
        else some (c.id, renamed model normalize m c.id) := by
  cases b with
  | text c =>
    simp only [transformBlock]
    split <;> simp [toolCall?]
  | thinking c =>
    simp only [transformBlock]
    split_ifs <;> simp [toolCall?]
  | toolCall c =>
    by_cases hs : isSameModel m model = true
    · cases normalize <;> simp [transformBlock, renamed, hs, toolCall?]
    · cases normalize with
      | none => simp [transformBlock, renamed, hs, toolCall?, apply_ite ToolCall.id]
      | some f =>
        by_cases hf : f c.id model m = c.id
        · simp [transformBlock, renamed, hs, hf, toolCall?, apply_ite ToolCall.id]
        · simp [transformBlock, renamed, hs, hf, toolCall?]

lemma transformContent_spec (m : AssistantMessage) (toolCallIdMap : JsMap String String)
    (content : List AssistantBlock) :
    ((transformContent model normalize m toolCallIdMap content).1.filterMap
        toolCall?).map (·.id) =
        ((content.filterMap toolCall?).map (·.id)).map (renamed model normalize m) ∧
      ∀ id, (transformContent model normalize m toolCallIdMap content).2.get? id =
        if id ∈ (content.filterMap toolCall?).map (·.id) ∧
            renamed model normalize m id ≠ id then some (renamed model normalize m id)
        else toolCallIdMap.get? id := by
  induction content generalizing toolCallIdMap with
  | nil => simp [transformContent]
  | cons b content ih =>
    obtain ⟨hblocks, hrenamed⟩ := @transformBlock_spec model normalize m b
    have hstep : transformContent model normalize m toolCallIdMap (b :: content) =
        let next := (transformBlock model normalize m b).2.elim toolCallIdMap
          fun r => toolCallIdMap.set r.1 r.2
        ((transformBlock model normalize m b).1 ++
          (transformContent model normalize m next content).1,
          (transformContent model normalize m next content).2) := rfl
    rw [hstep]
    obtain ⟨hids, hmap⟩ := ih ((transformBlock model normalize m b).2.elim toolCallIdMap
      fun r => toolCallIdMap.set r.1 r.2)
    constructor
    · rw [filterMap_append, map_append, hblocks, hids]
      cases hb : b.toolCall? <;> simp [hb]
    · intro id
      rw [hmap, hrenamed]
      cases hb : b.toolCall? with
      | none =>
        rw [filterMap_cons_none hb]
        rfl
      | some c =>
        rw [filterMap_cons_some hb, Option.bind_some]
        simp only [map_cons, mem_cons]
        by_cases hr : renamed model normalize m c.id = c.id
        · -- a call that keeps its id is not recorded
          have : ¬ (id = c.id ∧ renamed model normalize m id ≠ id) := fun h => h.2 (h.1 ▸ hr)
          simp only [if_pos hr, Option.elim_none, or_and_right, this, false_or]
        · simp only [if_neg hr, Option.elim_some, JsMap.get?_set]
          by_cases hc : id = c.id
          · simp [hc, hr]
          · have hc' : ¬ c.id = id := fun h => hc h.symm
            simp only [hc, hc', false_or, if_false]

lemma firstPass_inPlaceFrom (hkeeps : ∀ m, KeepsApart (renamed model normalize m))
    (hρ : KeepsApart ρ) {toolCallIdMap : JsMap String String}
    (hmap : ∀ id ∈ calls, toolCallIdMap.get? id = if ρ id = id then none else some (ρ id))
    (hlater : ∀ m ∈ ms, ∀ id ∈ m.callIds, toolCallIdMap.get? id = none)
    (hdisj : DisjointCalls ms) (h : InPlaceFrom calls answered ms) :
    InPlaceFrom (calls.map ρ) (answered.map ρ) (firstPass model normalize toolCallIdMap ms) := by
  induction ms generalizing calls answered ρ toolCallIdMap with
  | nil => exact (fillable_map hρ).2 h
  | cons m ms ih =>
    obtain ⟨hhead, hd⟩ := pairwise_cons.1 hdisj
    have hrest : ∀ m ∈ ms, ∀ id ∈ m.callIds, toolCallIdMap.get? id = none := fun m hm =>
      hlater m (mem_cons_of_mem _ hm)
    cases m with
    | user m => exact ⟨(fillable_map hρ).2 h.1, ih hρ (forall_mem_nil _) hrest hd h.2⟩
    | other role fields =>
      refine ⟨fun id hid => ?_, ih hρ (forall_mem_nil _) hrest hd h.2⟩
      obtain ⟨id, hcall, rfl⟩ := List.mem_map.1 hid
      exact mem_map_of_mem (h.1 id hcall)
    | toolResult r =>
      obtain ⟨hcall, hnew, h⟩ := h
      have hr : transformMessage model normalize toolCallIdMap (.toolResult r) =
          (.toolResult { r with toolCallId := ρ r.toolCallId }, toolCallIdMap) := by
        simp only [transformMessage, hmap _ hcall]
        by_cases hid : ρ r.toolCallId = r.toolCallId
        · simp [hid]
        · simp [hid, hρ.ne_empty _ hid]
      rw [firstPass, hr]
      refine ⟨hρ.mem_map.2 hcall, fun hin => hnew (hρ.mem_map.1 hin), ?_⟩
      have := ih hρ hmap hrest hd h
      rwa [map_append] at this
    | assistant m =>
      obtain ⟨hids, hget⟩ := @transformContent_spec model normalize m
        toolCallIdMap m.content
      have hown : ∀ id ∈ m.callIds, toolCallIdMap.get? id = none := hlater _ mem_cons_self
      have hturn : InPlaceFrom ((if isFailed m then [] else m.callIds).map
          (renamed model normalize m)) [] (firstPass model normalize
            (transformContent model normalize m toolCallIdMap m.content).2 ms) := by
        refine ih (hkeeps m) (fun id hid => ?_) (fun m' hm' id hid => ?_) hd h.2
        · have hcall : id ∈ m.callIds := by
            split at hid
            · exact absurd hid not_mem_nil
            · exact hid
          rw [hget, hown id hcall]
          by_cases hr : renamed model normalize m id = id
          · simp [hr]
          · rw [if_neg hr, if_pos ⟨hcall, hr⟩]
        · -- the call of a later message is none of this one's
          have hnot : id ∉ m.callIds := fun hcall =>
            hhead _ (mem_map_of_mem hm') hcall hid
          rw [hget, if_neg fun hc => hnot hc.1]
          exact hrest m' hm' id hid
      refine ⟨(fillable_map hρ).2 h.1, ?_⟩
      have hcalls : ({ m with content :=
          (transformContent model normalize m toolCallIdMap m.content).1 } :
            AssistantMessage).callIds =
          m.callIds.map (renamed model normalize m) := hids
      have hfailed : isFailed { m with content :=
          (transformContent model normalize m toolCallIdMap m.content).1 } = isFailed m := rfl
      rw [hcalls, hfailed]
      rwa [apply_ite (List.map _), map_nil] at hturn

lemma keepsApart_renamed
    (h : ∀ f ∈ normalize, ∀ m, Injective (fun id => f id model m) ∧
      ∀ id, f id model m ≠ "") (m : AssistantMessage) : KeepsApart (renamed model normalize m) := by
  have same (hid : renamed model normalize m = id) : KeepsApart (renamed model normalize m) :=
    hid ▸ ⟨injective_id, fun _ hne => absurd rfl hne⟩
  by_cases hs : isSameModel m model = true
  · exact same (funext fun id => if_pos hs)
  · cases normalize with
    | none => exact same (funext fun id => if_neg hs)
    | some f =>
      have : renamed model (some f) m = fun id => f id model m := funext fun id => if_neg hs
      rw [this]
      exact ⟨(h f rfl m).1, fun id _ => (h f rfl m).2 id⟩

/-! ## Images -/

lemma callIds_downgrade (m : Message) : (downgrade m).callIds = m.callIds := by
  rcases m with ⟨_ | _, _⟩ | _ | _ | _ <;> rfl

lemma inPlaceFrom_map_downgrade :
    InPlaceFrom calls answered (ms.map downgrade) ↔ InPlaceFrom calls answered ms := by
  induction ms generalizing calls answered with
  | nil => exact Iff.rfl
  | cons m ms ih =>
    rcases m with ⟨_ | _, _⟩ | m | r | ⟨role, fields⟩
    · exact and_congr_right fun _ => ih
    · exact and_congr_right fun _ => ih
    · exact and_congr_right fun _ => ih
    · exact and_congr_right fun _ => and_congr_right fun _ => ih
    · exact and_congr_right fun _ => ih

lemma inPlace_transformed (hkeeps : ∀ m, KeepsApart (renamed model normalize m))
    (hdisj : DisjointCalls ms) (h : InPlace ms) : InPlace (transformed ms model normalize) := by
  have first {ms : List Message} (hd : DisjointCalls ms) (h : InPlace ms) :
      InPlaceFrom [] [] (firstPass model normalize JsMap.empty ms) :=
    firstPass_inPlaceFrom hkeeps ⟨injective_id, fun _ hne => absurd rfl hne⟩
      (forall_mem_nil _) (fun _ _ _ _ => rfl) hd h
  rw [transformed, downgradeUnsupportedImages]
  split
  · exact first hdisj h
  · refine first ?_ (inPlaceFrom_map_downgrade.2 h)
    rwa [DisjointCalls, map_map, funext (f := Message.callIds ∘ downgrade) callIds_downgrade]

/-! ## Every call of the output is answered -/

variable {now : ℕ} {pending : List ToolCall} {existing : List String} {c : ToolCall}

lemma exists_reply_synthetic (hc : c ∈ pending) (hnew : c.id ∉ existing)
    (rest : List Message) : ∃ r : ToolResultMessage,
      .toolResult r ∈ (synthetic now pending existing ++ rest).takeWhile Message.isReply ∧
        r.toolCallId = c.id := by
  refine ⟨syntheticResult now c, ?_, rfl⟩
  rw [takeWhile_append_of_pos (by simp [Message.isReply])]
  refine mem_append_left _ (mem_map_of_mem (mem_map_of_mem ?_))
  exact mem_filter.2 ⟨hc, by simpa using hnew⟩

/-- A call of the turn gets its result before the turn ends, be it made up. -/
theorem exists_reply_of_pending (hc : c ∈ pending) (hnew : c.id ∉ existing) :
    ∃ r : ToolResultMessage,
      .toolResult r ∈ (emit now pending existing t).takeWhile Message.isReply ∧
        r.toolCallId = c.id := by
  induction t generalizing existing with
  | nil => simpa [emit] using @exists_reply_synthetic now _ _ _ hc hnew []
  | cons m t ih =>
    cases m with
    | user | assistant => exact exists_reply_synthetic hc hnew _
    | other role fields =>
      obtain ⟨r, hr, hid⟩ := ih hnew
      exact ⟨r, mem_cons_of_mem _ hr, hid⟩
    | toolResult r =>
      by_cases hid : r.toolCallId = c.id
      · exact ⟨r, mem_cons_self, hid⟩
      · obtain ⟨r', hr', hid'⟩ := @ih (existing ++ [r.toolCallId])
          (by simp [hnew, Ne.symm hid])
        exact ⟨r', mem_cons_of_mem _ hr', hid'⟩

variable {m : AssistantMessage}

lemma suffix_of_suffix_results {post rest : List Message}
    (results : List ToolResultMessage)
    (h : .assistant m :: post <:+ results.map .toolResult ++ rest) :
    .assistant m :: post <:+ rest := by
  induction results with
  | nil => exact h
  | cons r results ih =>
    rcases suffix_cons_iff.1 h with heq | h
    · exact nomatch (List.cons.inj heq).1
    · exact ih h

/-- An assistant message in the output has not failed, and is followed by what its turn emits. -/
theorem exists_emit_of_suffix {post : List Message}
    (h : .assistant m :: post <:+ emit now pending existing t) :
    isFailed m = false ∧ ∃ t', post = emit now m.toolCalls [] t' := by
  induction t generalizing pending existing with
  | nil =>
    have h : .assistant m :: post <:+ synthetic now pending existing ++ [] := by
      simpa [emit] using h
    cases suffix_nil.1 (suffix_of_suffix_results _ h)
  | cons m' t ih =>
    cases m' with
    | user _ =>
      rcases suffix_cons_iff.1 (suffix_of_suffix_results _ h) with heq | h
      · cases (List.cons.inj heq).1
      · exact ih h
    | other _ _ | toolResult _ =>
      rcases suffix_cons_iff.1 h with heq | h
      · cases (List.cons.inj heq).1
      · exact ih h
    | assistant m' =>
      have h := suffix_of_suffix_results _ h
      by_cases hf : isFailed m' = true
      · rw [if_pos hf] at h
        exact ih h
      · rw [if_neg hf] at h
        rcases suffix_cons_iff.1 h with heq | h
        · obtain ⟨hm, hpost⟩ := List.cons.inj heq
          obtain rfl : m = m' := Message.assistant.inj hm
          exact ⟨by simpa using hf, t, hpost⟩
        · exact ih h

end ToolPairing

/-- The pairing of calls and results that `transformMessages` gives: well paired exactly for results
in place, which disjoint calls and a normaliser that keeps ids apart leave there; and for any input,
each call of a message that is passed on is answered before the next user or assistant message. -/
theorem transformMessages_pairing (messages : List Message) (model : Model)
    (normalize : Option ToolCallIdNormalizer) (now : ℕ) :
    (WellPaired (transformMessages messages model normalize now) ↔
        InPlace (transformed messages model normalize)) ∧
      (InPlace messages → DisjointCalls messages →
        (∀ f ∈ normalize, ∀ m, Injective (fun id => f id model m) ∧
          ∀ id, f id model m ≠ "") →
        WellPaired (transformMessages messages model normalize now)) ∧
      ∀ m post, .assistant m :: post <:+ transformMessages messages model normalize now →
        ∀ c ∈ m.toolCalls, ∃ r : ToolResultMessage,
          .toolResult r ∈ post.takeWhile Message.isReply ∧ r.toolCallId = c.id := by
  refine ⟨wellPaired_transformMessages_iff .., fun hin hdisjoint hnormalize => ?_, ?_⟩
  · exact (wellPaired_transformMessages_iff ..).2
      (inPlace_transformed (keepsApart_renamed hnormalize) hdisjoint hin)
  · intro m post h c hc
    rw [transformMessages, secondPass_eq_emit] at h
    obtain ⟨-, t', rfl⟩ := exists_emit_of_suffix h
    exact exists_reply_of_pending hc not_mem_nil

/-! ## A result behind a user message -/

/-- An assistant message of another provider's model that calls one tool for each of the ids. -/
def callsTools (ids : List String) : Message :=
  .assistant
    { content := ids.map fun id => .toolCall { id, name := "read", arguments := .obj [] }
      api := "openai-responses", provider := "openai", model := "gpt-5", usage := plainUsage
      stopReason := .toolUse, timestamp := 0 }

def resultFor (toolCallId : String) : Message :=
  .toolResult { toolCallId, toolName := "read", content := [], isError := false, timestamp := 0 }

def asks (text : String) : Message := .user { content := .string text, timestamp := 0 }

def claude : Model :=
  { id := "claude", api := "anthropic-messages", provider := "anthropic", acceptsImages := true }

/-- A normaliser that keeps ids apart. -/
def markId : ToolCallIdNormalizer := fun id _ _ => "call_" ++ id

lemma markId_injective (model : Model) (m : AssistantMessage) :
    Injective (fun id => markId id model m) ∧ ∀ id, markId id model m ≠ "" := by
  constructor
  · intro id id' h
    exact (String.append_right_inj _).1 h
  · intro id h
    simpa [markId] using congrArg String.length h

/-- A turn whose second call was never answered. -/
def interruptedTurn : List Message :=
  [asks "go", callsTools ["a|1", "a|2"], resultFor "a|1", asks "on"]

theorem transformMessages_pairing_interruptedTurn :
    WellPaired (transformMessages interruptedTurn claude (some markId) 0) :=
  (transformMessages_pairing interruptedTurn claude (some markId) 0).2.1 (by decide)
    (by simp [DisjointCalls, interruptedTurn, Message.callIds, asks, resultFor])
    (by simpa using markId_injective claude)

/-- The result comes after the next user message, where one has been made up already. -/
theorem lateResult_not_wellPaired : (∀ m, Injective (fun id => markId id claude m)) ∧
      ¬ WellPaired (transformMessages [callsTools ["a|1"], asks "on", resultFor "a|1"] claude
        (some markId) 0) := by
  exact ⟨fun m => (markId_injective claude m).1, by decide⟩

end Amide
