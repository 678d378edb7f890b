import Amide.Construction.Ai.Anthropic

/-!
# The assembly of Anthropic streams

Any interleaving of the blocks of a stream leaves each one as its own deltas make it
(`streamedBlocks_eq`): the scratch index finds the block that an event is about, as long as it is
open.  What becomes of a block is then a matter of its deltas alone (`assembled`).

When a tool block is stopped its arguments are parsed from the deltas once more, also where there
were none, and the input of its start event is lost (`input_lost`).
-/

namespace Amide

open StreamBlock AnthropicEvent List

variable {parse : String → Json} {toolName : String → String} {events : List AnthropicEvent}
  {live : List ℕ} {i j : ℕ} {delta : ContentBlockDelta}

/-! ## Streams -/

namespace ContentBlockDelta

def text? : ContentBlockDelta → Option String
  | .text s => some s
  | _ => none

def thinking? : ContentBlockDelta → Option String
  | .thinking s => some s
  | _ => none

def inputJson? : ContentBlockDelta → Option String
  | .inputJson s => some s
  | _ => none

def signature? : ContentBlockDelta → Option String
  | .signature s => some s
  | _ => none

end ContentBlockDelta

open ContentBlockDelta (text? thinking? inputJson? signature?)

def AnthropicEvent.started? : AnthropicEvent → Option (ℕ × ContentBlockStart)
  | .start index contentBlock => some (index, contentBlock)
  | _ => none

def AnthropicEvent.delta? (i : ℕ) : AnthropicEvent → Option ContentBlockDelta
  | .delta index delta => if index = i then some delta else none
  | _ => none

/-- The index of the block that the event is about. -/
def AnthropicEvent.index? : AnthropicEvent → Option ℕ
  | .start index _ | .delta index _ | .stop index => some index
  | .other => none

/-- The blocks started, with their indices. -/
def starts (events : List AnthropicEvent) : List (ℕ × ContentBlockStart) :=
  events.filterMap started?

/-- The blocks started that are of a kind with a place in the message. -/
def blockStarts (events : List AnthropicEvent) : List (ℕ × ContentBlockStart) :=
  (starts events).filter fun x => x.2 ≠ .other

def deltasOf (i : ℕ) (events : List AnthropicEvent) : List ContentBlockDelta :=
  events.filterMap (delta? i)

/-- The events of a stream, and the indices of the blocks that are open behind them. -/
inductive Streams : List AnthropicEvent → List ℕ → Prop
  | nil : Streams [] []
  | start {events : List AnthropicEvent} {live : List ℕ} {i : ℕ} (h : Streams events live)
      (contentBlock : ContentBlockStart) (hfresh : i ∉ (starts events).map Prod.fst) :
      Streams (events ++ [.start i contentBlock]) (i :: live)
  | delta {events : List AnthropicEvent} {live : List ℕ} {i : ℕ} (h : Streams events live)
      (delta : ContentBlockDelta) (hlive : i ∈ live) : Streams (events ++ [.delta i delta]) live
  | stop {events : List AnthropicEvent} {live : List ℕ} {i : ℕ} (h : Streams events live)
      (hlive : i ∈ live) : Streams (events ++ [.stop i]) (live.filter (· ≠ i))
  | other {events : List AnthropicEvent} {live : List ℕ} (h : Streams events live) :
      Streams (events ++ [.other]) live

/-- The block that a start event and its deltas are meant to make. -/
def assembled (parse : String → Json) (toolName : String → String)
    (contentBlock : ContentBlockStart) (deltas : List ContentBlockDelta) : AssistantBlock :=
  let concat (read : ContentBlockDelta → Option String) := String.join (deltas.filterMap read)
  match contentBlock with
  | .text | .other => .text { text := concat text? }
  | .thinking =>
    .thinking { thinking := concat thinking?, thinkingSignature := some (concat signature?) }
  | .redactedThinking data =>
    .thinking { thinking := "[Reasoning redacted]" ++ concat thinking?
                thinkingSignature := some (data ++ concat signature?)
                redacted := some true }
  | .toolUse id name input =>
    .toolCall
      { id
        name := toolName name
        arguments :=
          if deltas.filterMap inputJson? = [] then input.getD (.obj [])
          else parseStreamingJson parse (concat inputJson?) }

/-! ## One block -/

/-- A block that has just been started. -/
def initialBlock (toolName : String → String) (x : ℕ × ContentBlockStart) : StreamBlock :=
  ((startedBlock toolName x.1 x.2).map Prod.fst).getD
    { block := .text { text := "" }, index := some x.1 }

def StreamBlock.addDeltas (parse : String → Json) (b : StreamBlock)
    (deltas : List ContentBlockDelta) : StreamBlock :=
  deltas.foldl (fun b delta => (b.addDelta parse delta).1) b

/-- A block behind some events. -/
def blockBehind (parse : String → Json) (toolName : String → String) (events : List AnthropicEvent)
    (live : List ℕ) (x : ℕ × ContentBlockStart) : StreamBlock :=
  let b := (initialBlock toolName x).addDeltas parse (deltasOf x.1 events)
  if x.1 ∈ live then b else (b.finish parse).1

variable (b : StreamBlock)

lemma index_addDelta : (b.addDelta parse delta).1.index = b.index := by
  unfold addDelta
  split <;> rfl

lemma index_addDeltas (deltas : List ContentBlockDelta) :
    (b.addDeltas parse deltas).index = b.index := by
  induction deltas generalizing b with
  | nil => rfl
  | cons delta deltas ih => exact (ih _).trans (index_addDelta b)

lemma index_initialBlock (x : ℕ × ContentBlockStart) :
    (initialBlock toolName x).index = some x.1 := by
  obtain ⟨i, contentBlock⟩ := x
  cases contentBlock <;> rfl

lemma index_finish : (b.finish parse).1.index = none := by
  unfold finish
  split <;> rfl

lemma index_blockBehind (x : ℕ × ContentBlockStart) :
    (blockBehind parse toolName events live x).index = if x.1 ∈ live then some x.1 else none := by
  rw [blockBehind]
  split_ifs
  · rw [index_addDeltas, index_initialBlock]
  · exact index_finish _

lemma deltasOf_concat_delta : deltasOf i (events ++ [.delta j delta]) =
    deltasOf i events ++ if j = i then [delta] else [] := by
  rw [deltasOf, filterMap_append]
  by_cases h : j = i
  · simp [delta?, deltasOf, h]
  · simp [delta?, deltasOf, h]

variable {event : AnthropicEvent}

lemma deltasOf_concat_of_none (h : event.delta? i = none) :
    deltasOf i (events ++ [event]) = deltasOf i events := by
  simp [deltasOf, h]

variable {contentBlock : ContentBlockStart}

section
variable (x : ℕ × ContentBlockStart)

lemma blockBehind_delta (hlive : i ∈ live) :
    (if (blockBehind parse toolName events live x).index = some i then
        ((blockBehind parse toolName events live x).addDelta parse delta).1
      else blockBehind parse toolName events live x) =
      blockBehind parse toolName (events ++ [.delta i delta]) live x := by
  rw [index_blockBehind, blockBehind, blockBehind, deltasOf_concat_delta]
  by_cases hx : x.1 = i
  · subst hx
    simp [hlive, addDeltas]
  · simp [hx, Ne.symm hx]

lemma blockBehind_stop (hlive : i ∈ live) :
    (if (blockBehind parse toolName events live x).index = some i then
        ((blockBehind parse toolName events live x).finish parse).1
      else blockBehind parse toolName events live x) =
      blockBehind parse toolName (events ++ [.stop i]) (live.filter (· ≠ i)) x := by
  rw [index_blockBehind, blockBehind, blockBehind, deltasOf_concat_of_none rfl]
  by_cases hx : x.1 = i
  · subst hx
    simp [hlive]
  · simp [hx]

lemma blockBehind_start (hx : x.1 ≠ i) :
    blockBehind parse toolName (events ++ [.start i contentBlock]) (i :: live) x =
      blockBehind parse toolName events live x := by
  rw [blockBehind, blockBehind, deltasOf_concat_of_none rfl]
  simp [hx]

end

/-! ## All blocks -/

lemma update_findIdx? {α : Type*} {p : α → Bool} (g : α → α) {bs : List α}
    (h : bs.Pairwise fun a b => p a → ¬p b) :
    (match bs.findIdx? p with
      | some k => bs.modify k g
      | none => bs) = bs.map fun b => if p b then g b else b := by
  induction bs with
  | nil => rfl
  | cons b bs ih =>
    obtain ⟨hb, hbs⟩ := pairwise_cons.mp h
    rw [findIdx?_cons, map_cons, ← ih hbs]
    by_cases hp : p b
    · have hnone : bs.findIdx? p = none :=
        findIdx?_eq_none_iff.mpr fun b' hb' => by simpa using hb b' hb' hp
      rw [hnone, if_pos hp, if_pos hp]
      rfl
    · rw [if_neg hp, if_neg hp]
      cases bs.findIdx? p <;> rfl

lemma streamedBlocks_concat (event : AnthropicEvent) :
    streamedBlocks parse toolName (events ++ [event]) =
      (handleAnthropicEvent parse toolName (streamedBlocks parse toolName events) event).1 := by
  rw [streamedBlocks, foldl_concat]
  rfl

lemma starts_concat (event : AnthropicEvent) :
    starts (events ++ [event]) = starts events ++ event.started?.toList := by
  rw [starts, filterMap_append]
  cases event <;> rfl

lemma starts_concat_of_none (h : event.started? = none) :
    starts (events ++ [event]) = starts events := by
  rw [starts_concat, h, Option.toList_none, append_nil]

lemma blockStarts_concat (event : AnthropicEvent) : blockStarts (events ++ [event]) =
    blockStarts events ++ event.started?.toList.filter fun x => x.2 ≠ .other := by
  rw [blockStarts, starts_concat, filter_append]
  rfl

lemma blockStarts_concat_of_none (h : event.started? = none) :
    blockStarts (events ++ [event]) = blockStarts events := by
  rw [blockStarts, starts_concat_of_none h]
  rfl

lemma keys_concat_start :
    (starts (events ++ [.start i contentBlock])).map Prod.fst =
      (starts events).map Prod.fst ++ [i] := by
  rw [starts_concat, map_append]
  rfl

section
variable (h : Streams events live)
include h

lemma Streams.started (hi : i ∈ live) : i ∈ (starts events).map Prod.fst := by
  induction h with
  | nil => cases hi
  | start h contentBlock _ ih =>
    rw [keys_concat_start]
    rcases mem_cons.mp hi with rfl | hi
    · exact mem_append_right _ (mem_singleton_self _)
    · exact mem_append_left _ (ih hi)
  | delta h _ _ ih | other h ih =>
    rw [starts_concat_of_none rfl]
    exact ih hi
  | stop h _ ih =>
    rw [starts_concat_of_none rfl]
    exact ih (mem_of_mem_filter hi)

lemma Streams.nodup : ((starts events).map Prod.fst).Nodup := by
  induction h with
  | nil => exact .nil
  | start h contentBlock hfresh ih =>
    rw [keys_concat_start, ← concat_eq_append]
    exact ih.concat hfresh
  | delta h _ _ ih | stop h _ ih | other h ih => rwa [starts_concat_of_none rfl]

lemma Streams.deltasOf_eq_nil (hi : i ∉ (starts events).map Prod.fst) : deltasOf i events = [] := by
  induction h with
  | nil => rfl
  | start h contentBlock _ ih =>
    rw [keys_concat_start, mem_append, not_or] at hi
    rw [deltasOf_concat_of_none rfl]
    exact ih hi.1
  | @delta events live j h delta hlive ih =>
    rw [starts_concat_of_none rfl] at hi
    have hne : j ≠ i := fun heq => hi (heq ▸ h.started hlive)
    rw [deltasOf_concat_delta, if_neg hne, append_nil]
    exact ih hi
  | stop h _ ih | other h ih =>
    rw [starts_concat_of_none rfl] at hi
    rw [deltasOf_concat_of_none rfl]
    exact ih hi

/-- The scratch index is that of one block at most. -/
lemma Streams.pairwise (i : ℕ) :
    ((blockStarts events).map (blockBehind parse toolName events live)).Pairwise fun a b =>
      decide (a.index = some i) → ¬decide (b.index = some i) := by
  have hkeys : ((blockStarts events).map Prod.fst).Nodup :=
    h.nodup.sublist (filter_sublist.map _)
  refine pairwise_map.mpr ((pairwise_map.mp hkeys).imp fun {x y} hxy ha hb => hxy ?_)
  rw [decide_eq_true_eq, index_blockBehind] at ha hb
  split_ifs at ha hb
  exact (Option.some.inj ha).trans (Option.some.inj hb).symm

/-- Each block is made by its own events, whatever stands between them. -/
theorem Streams.streamedBlocks_eq : streamedBlocks parse toolName events =
    (blockStarts events).map (blockBehind parse toolName events live) := by
  induction h with
  | nil => rfl
  | @start events live i h contentBlock hfresh ih =>
    have hold : ∀ x ∈ blockStarts events,
        blockBehind parse toolName (events ++ [.start i contentBlock]) (i :: live) x =
          blockBehind parse toolName events live x := by
      refine fun x hx => blockBehind_start x fun heq => hfresh ?_
      exact heq ▸ mem_map_of_mem (mem_of_mem_filter hx)
    have hnew : blockBehind parse toolName (events ++ [.start i contentBlock]) (i :: live)
        (i, contentBlock) = initialBlock toolName (i, contentBlock) := by
      rw [blockBehind, deltasOf_concat_of_none rfl, h.deltasOf_eq_nil hfresh, if_pos mem_cons_self]
      rfl
    rw [streamedBlocks_concat, ih, ← map_congr_left hold, blockStarts_concat, map_append]
    cases contentBlock with
    | other => exact (append_nil _).symm
    | _ => exact congrArg (_ ++ [·]) hnew.symm
  | @delta events live i h delta hlive ih =>
    have hupdate := update_findIdx? (fun b => (b.addDelta parse delta).1)
      (@Streams.pairwise parse toolName _ _ h i)
    rw [streamedBlocks_concat, ih, blockStarts_concat_of_none rfl]
    refine Eq.trans ?_ (hupdate.trans ?_)
    · rw [handleAnthropicEvent]
      cases List.findIdx? _ _ <;> rfl
    · rw [map_map]
      refine map_congr_left fun x _ => ?_
      simpa using blockBehind_delta x hlive
  | @stop events live i h hlive ih =>
    have hupdate := update_findIdx? (fun b => (b.finish parse).1)
      (@Streams.pairwise parse toolName _ _ h i)
    rw [streamedBlocks_concat, ih, blockStarts_concat_of_none rfl]
    refine Eq.trans ?_ (hupdate.trans ?_)
    · rw [handleAnthropicEvent]
      cases List.findIdx? _ _ <;> rfl
    · rw [map_map]
      refine map_congr_left fun x _ => ?_
      simpa using blockBehind_stop x hlive
  | other h ih =>
    rw [streamedBlocks_concat, ih, blockStarts_concat_of_none rfl]
    refine map_congr_left fun x _ => ?_
    rw [blockBehind, blockBehind, deltasOf_concat_of_none rfl]

end

/-! ## Finished blocks -/

variable {x : ℕ × ContentBlockStart}

/-- The deltas make of a block what they are meant to. -/
lemma addDeltas_initialBlock (hx : x.2 ≠ .other)
    (deltas : List ContentBlockDelta) :
    (initialBlock toolName x).addDeltas parse deltas =
      { block := assembled parse toolName x.2 deltas
        index := some x.1
        partialJson :=
          match x.2 with
          | .toolUse _ _ _ => some (String.join (deltas.filterMap inputJson?))
          | _ => none } := by
  obtain ⟨i, contentBlock⟩ := x
  replace hx : contentBlock ≠ .other := hx
  induction deltas using reverseRecOn with
  | nil =>
    cases contentBlock with
    | other => exact absurd rfl hx
    | redactedThinking data => simp [addDeltas, initialBlock, startedBlock, assembled]
    | _ => rfl
  | append_singleton deltas delta ih =>
    rw [addDeltas] at ih ⊢
    rw [foldl_concat, ih]
    cases contentBlock with
    | other => exact absurd rfl hx
    | _ =>
      cases delta <;> simp [addDelta, assembled, filterMap_cons, text?, thinking?,
        inputJson?, signature?, String.append_assoc]

/-- A tool block that is meant to keep the input of its start event has none to keep. -/
def LosesNoInput (x : ℕ × ContentBlockStart) (deltas : List ContentBlockDelta) : Prop :=
  ∀ id name input, x.2 = .toolUse id name input → deltas.filterMap inputJson? = [] →
    input.getD (.obj []) = .obj []

/-- A block behind all of its events. -/
lemma blockBehind_nil (hx : x.2 ≠ .other) :
    (blockBehind parse toolName events [] x).index = none ∧
      (blockBehind parse toolName events [] x).partialJson = none ∧
      ((blockBehind parse toolName events [] x).block =
          assembled parse toolName x.2 (deltasOf x.1 events) ↔
        LosesNoInput x (deltasOf x.1 events)) := by
  rw [blockBehind, addDeltas_initialBlock hx, if_neg not_mem_nil]
  obtain ⟨i, contentBlock⟩ := x
  cases contentBlock with
  | other => exact absurd rfl hx
  | toolUse id name input =>
    refine ⟨rfl, rfl, ?_⟩
    by_cases hnone : (deltasOf i events).filterMap inputJson? = []
    · simp [finish, assembled, hnone, LosesNoInput, parseStreamingJson, trim, eq_comm]
    · simp [finish, assembled, hnone, LosesNoInput]
  | _ => exact ⟨rfl, rfl, iff_of_true rfl nofun⟩

/-! ## The message -/

lemma Streams.of_append {before after : List AnthropicEvent} (h : Streams (before ++ after) live) :
    ∃ live', Streams before live' := by
  generalize hevents : before ++ after = events at h
  induction h generalizing after with
  | nil => exact ⟨[], append_eq_nil_iff.mp hevents |>.1 ▸ .nil⟩
  | start h contentBlock hfresh ih | delta h _ hlive ih | stop h hlive ih | other h ih =>
    rcases eq_nil_or_concat' after with rfl | ⟨after, event, rfl⟩
    · rw [append_nil] at hevents
      subst hevents
      first
        | exact ⟨_, h.start contentBlock hfresh⟩
        | exact ⟨_, h.delta _ hlive⟩
        | exact ⟨_, h.stop hlive⟩
        | exact ⟨_, h.other⟩
    · rw [← append_assoc] at hevents
      exact ih (append_inj' hevents rfl).1

/-- The block that an index is found in is the one that was started with it. -/
lemma Streams.exists_blockStart (h : Streams events live) {k : ℕ}
    (hk : (streamedBlocks parse toolName events).findIdx? (fun b => b.index = some i) = some k) :
    ∃ contentBlock, (blockStarts events)[k]? = some (i, contentBlock) := by
  obtain ⟨hlt, hidx, -⟩ := findIdx?_eq_some_iff_getElem.mp hk
  rw [decide_eq_true_eq] at hidx
  simp only [h.streamedBlocks_eq, getElem_map, index_blockBehind] at hidx
  rw [h.streamedBlocks_eq, length_map] at hlt
  split_ifs at hidx
  refine ⟨(blockStarts events)[k].2, ?_⟩
  rw [getElem?_eq_getElem hlt, ← Option.some.inj hidx]

lemma Streams.emitted (h : Streams events live) {k : ℕ} {e : BlockEvent}
    (he : (handleAnthropicEvent parse toolName (streamedBlocks parse toolName events) event).2 =
      some (k, e)) :
    ∃ x, (blockStarts (events ++ [event]))[k]? = some x ∧ event.index? = some x.1 := by
  have hopen {i : ℕ} (hi : event.index? = some i) (hnone : event.started? = none)
      (hk : (streamedBlocks parse toolName events).findIdx? (fun b => b.index = some i) = some k) :
      ∃ x, (blockStarts (events ++ [event]))[k]? = some x ∧ event.index? = some x.1 := by
    obtain ⟨contentBlock, hplaced⟩ := h.exists_blockStart hk
    exact ⟨_, blockStarts_concat_of_none hnone ▸ hplaced, hi⟩
  cases event with
  | start i contentBlock =>
    have hlen : (streamedBlocks parse toolName events).length = (blockStarts events).length := by
      rw [h.streamedBlocks_eq, length_map]
    refine ⟨(i, contentBlock), ?_, rfl⟩
    rw [handleAnthropicEvent] at he
    cases contentBlock <;> cases he
    all_goals
      rw [hlen, blockStarts_concat]
      exact getElem?_concat_length
  | delta i delta =>
    rw [handleAnthropicEvent] at he
    split at he
    next k' hk =>
      obtain ⟨b, -, he⟩ := Option.bind_eq_some_iff.mp he
      obtain ⟨_, -, heq⟩ := Option.map_eq_some_iff.mp he
      cases heq
      exact hopen rfl rfl hk
    next => cases he
  | stop i =>
    rw [handleAnthropicEvent] at he
    split at he
    next k' hk =>
      obtain ⟨b, -, heq⟩ := Option.map_eq_some_iff.mp he
      cases heq
      exact hopen rfl rfl hk
    next => cases he
  | other => cases he

/-- The message of a stream is what its blocks are meant to be, in the order of their starts; what
is emitted of a block bears its place; and no scratch field is left, also where the stream fails. -/
structure Assembles (parse : String → Json) (toolName : String → String)
    (events : List AnthropicEvent) : Prop where
  content : (streamedBlocks parse toolName events).map StreamBlock.block =
    (blockStarts events).map fun x => assembled parse toolName x.2 (deltasOf x.1 events)
  finished : ∀ b ∈ streamedBlocks parse toolName events, b.index = none ∧ b.partialJson = none
  emitted : ∀ before event after, events = before ++ event :: after → ∀ k e,
    (handleAnthropicEvent parse toolName (streamedBlocks parse toolName before) event).2 =
        some (k, e) →
      ∃ x, (blockStarts events)[k]? = some x ∧ event.index? = some x.1
  failed : ∀ before after, events = before ++ after →
    ∀ b ∈ failedBlocks (streamedBlocks parse toolName before), b.index = none ∧ b.partialJson = none

theorem assembles_iff (h : Streams events []) : Assembles parse toolName events ↔
    ∀ x ∈ blockStarts events, LosesNoInput x (deltasOf x.1 events) := by
  have hplaced : ∀ x ∈ blockStarts events, x.2 ≠ .other :=
    fun x hx => of_decide_eq_true (mem_filter.mp hx).2
  have hcontent : (streamedBlocks parse toolName events).map StreamBlock.block =
      (blockStarts events).map fun x => (blockBehind parse toolName events [] x).block := by
    rw [h.streamedBlocks_eq, map_map]
    rfl
  constructor
  · intro hassembles x hx
    have heq := hassembles.content
    rw [hcontent, map_inj_left] at heq
    exact (blockBehind_nil (hplaced x hx)).2.2.mp (heq x hx)
  · intro hkeeps
    refine
      { content := ?_
        finished := fun b hb => ?_
        emitted := fun before event after hevents k e he => ?_
        failed := fun before after _ b hb => ?_ }
    · rw [hcontent]
      exact map_congr_left fun x hx =>
        (blockBehind_nil (hplaced x hx)).2.2.mpr (hkeeps x hx)
    · rw [h.streamedBlocks_eq] at hb
      obtain ⟨x, hx, rfl⟩ := List.mem_map.mp hb
      have hbehind := @blockBehind_nil parse toolName events x (hplaced x hx)
      exact ⟨hbehind.1, hbehind.2.1⟩
    · subst hevents
      obtain ⟨live, hbefore⟩ := h.of_append
      obtain ⟨x, hx, hindex⟩ := hbefore.emitted he
      refine ⟨x, ?_, hindex⟩
      have hsplit : blockStarts (before ++ event :: after) =
          blockStarts (before ++ [event]) ++ blockStarts after := by
        rw [append_cons, blockStarts, starts, filterMap_append, filter_append]
        rfl
      obtain ⟨hlt, -⟩ := List.getElem?_eq_some_iff.mp hx
      rw [hsplit, getElem?_append_left hlt, hx]
    · obtain ⟨b, -, rfl⟩ := List.mem_map.mp hb
      exact ⟨rfl, rfl⟩

/-- A tool block with two deltas around the events of a text block. -/
theorem assembles_interleaved : Assembles (fun _ => .obj []) id
    [.start 0 (.toolUse "t" "ls" none), .start 1 .text, .delta 0 (.inputJson "\x7b"),
      .delta 1 (.text "a"), .stop 1, .delta 0 (.inputJson "\x7d"), .stop 0] := by
  have hstreams := Streams.nil.start (i := 0) (.toolUse "t" "ls" none) not_mem_nil
    |>.start (i := 1) .text (by decide) |>.delta (i := 0) (.inputJson "\x7b") (by decide)
    |>.delta (i := 1) (.text "a") (by decide) |>.stop (i := 1) (by decide)
    |>.delta (i := 0) (.inputJson "\x7d") (by decide) |>.stop (i := 0) (by decide)
  refine (assembles_iff hstreams).mpr fun x hx id name input htool hnone => ?_
  simp [blockStarts, starts, started?] at hx
  rcases hx with rfl | rfl
  · cases hnone
  · cases htool

theorem input_lost : ¬Assembles (fun _ => .obj []) id
    [.start 0 (.toolUse "t" "ls" (some (.obj [("path", .str ".")]))), .stop 0] := by
  intro h
  have hcontent := h.content
  simp [streamedBlocks, handleAnthropicEvent, startedBlock, finish, parseStreamingJson,
    trim, blockStarts, starts, started?, assembled, deltasOf, delta?]
    at hcontent

end Amide
