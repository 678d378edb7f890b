import Amide.Construction.Daemon.CompactSessionStream
import Amide.Framework.Machine

/-!
# Deltas rebuild the message

A producer starts its blocks empty, extends them by the deltas it reports and ends them with their
final content (`Produces`); sessions take turns, and a session may be cleared and seeded again at
any point (`streamMachine`).  Whatever the interleaving, the supervisor's message of a session that
it follows shows what the producer's does, which each update keeps (`receive_update`).
-/

namespace Amide

/-! ## What a block shows -/

/-- The kind of a block with what clients render of it. -/
inductive ShownBlock where
  | text (text : String)
  | thinking (thinking : String)
  | toolCall (name id : String) (arguments : Json)

def AssistantBlock.shown : AssistantBlock → ShownBlock
  | .text c => .text c.text
  | .thinking c => .thinking c.thinking
  | .toolCall c => .toolCall c.name c.id c.arguments

namespace StreamContent

variable {content content' : StreamContent} {index : ℕ} {block block' : AssistantBlock}

def shown (content : StreamContent) : List (Option ShownBlock) :=
  content.map (Option.map AssistantBlock.shown)

lemma block_assign (content : StreamContent) (index : ℕ) (block : AssistantBlock) :
    (content.assign index block).block index = some block := by
  rw [StreamContent.block, assign]
  split_ifs with hlt
  · rw [List.getElem?_set_self hlt]
    rfl
  · have hlen : (content ++ List.replicate (index - content.length) none).length = index := by
      rw [List.length_append, List.length_replicate]
      omega
    rw [List.getElem?_append_right hlen.le, hlen, Nat.sub_self]
    rfl

lemma shown_assign (hcont : content.shown = content'.shown) (hblock : block.shown = block'.shown)
    (index : ℕ) : (content.assign index block).shown = (content'.assign index block').shown := by
  have hlen : content.length = content'.length := by
    simpa [shown] using congrArg List.length hcont
  rw [shown, shown] at hcont
  rw [assign, assign, hlen]
  split_ifs with hlt
  · simp [shown, List.map_set, hcont, hblock]
  · simp [shown, hcont, hblock]

lemma map_shown_block (hcont : content.shown = content'.shown) (index : ℕ) :
    (content.block index).map AssistantBlock.shown =
      (content'.block index).map AssistantBlock.shown := by
  have hget := congrArg (fun shown => (shown[index]?).join) hcont
  simpa [shown, StreamContent.block, ← Option.join_map_eq_map_join] using hget

end StreamContent

/-! ## Producers -/

section Producers

open StreamContent

/-- What a producer does to its content with an event.  It may set or change what is not shown, such
as a signature, and the arguments of a tool call are what its JSON so far is read as. -/
inductive Produces (content : StreamContent) :
    CompactAssistantMessageEvent → StreamContent → Prop
  | textStart {index : ℕ} {c : TextContent} : c.text = "" →
    Produces content (.textStart index) (content.assign index (.text c))
  | textDelta {index : ℕ} {c c' : TextContent} {delta : String} :
    content.block index = some (.text c) → c'.text = c.text ++ delta →
    Produces content (.textDelta index delta) (content.assign index (.text c'))
  | textEnd {index : ℕ} {c c' : TextContent} :
    content.block index = some (.text c) →
    Produces content (.textEnd index c'.text) (content.assign index (.text c'))
  | thinkingStart {index : ℕ} {c : ThinkingContent} : c.thinking = "" →
    Produces content (.thinkingStart index) (content.assign index (.thinking c))
  | thinkingDelta {index : ℕ} {c c' : ThinkingContent} {delta : String} :
    content.block index = some (.thinking c) → c'.thinking = c.thinking ++ delta →
    Produces content (.thinkingDelta index delta) (content.assign index (.thinking c'))
  | thinkingEnd {index : ℕ} {c c' : ThinkingContent} :
    content.block index = some (.thinking c) →
    Produces content (.thinkingEnd index c'.thinking) (content.assign index (.thinking c'))
  | toolcallStart {index : ℕ} {c : ToolCall} : c.arguments = .obj [] →
    Produces content (.toolcallStart index) (content.assign index (.toolCall c))
  | toolcallDelta {index : ℕ} {c c' : ToolCall} {delta : String}
      {members : List (String × Json)} :
    content.block index = some (.toolCall c) → c'.id = c.id → c'.name = c.name →
    c'.arguments = .obj members →
    Produces content (.toolcallDelta index delta) (content.assign index (.toolCall c'))
  | toolcallEnd {index : ℕ} {c : ToolCall} :
    Produces content (.toolcallEnd index c) (content.assign index (.toolCall c))

variable {content shown' : StreamContent} {index : ℕ}

/-! A block of the producer's stands against one of its kind. -/

section
variable (hshown : shown'.shown = content.shown)
include hshown

lemma exists_text {c : TextContent} (hblock : content.block index = some (.text c)) :
    ∃ d : TextContent, shown'.block index = some (.text d) ∧ d.text = c.text := by
  have hmap := map_shown_block hshown index
  rw [hblock, Option.map_some, Option.map_eq_some_iff] at hmap
  obtain ⟨block, hblock', heq⟩ := hmap
  cases block with
  | text d => exact ⟨d, hblock', ShownBlock.text.inj heq⟩
  | thinking d => cases heq
  | toolCall d => cases heq

lemma exists_thinking {c : ThinkingContent} (hblock : content.block index = some (.thinking c)) :
    ∃ d : ThinkingContent, shown'.block index = some (.thinking d) ∧ d.thinking = c.thinking := by
  have hmap := map_shown_block hshown index
  rw [hblock, Option.map_some, Option.map_eq_some_iff] at hmap
  obtain ⟨block, hblock', heq⟩ := hmap
  cases block with
  | text d => cases heq
  | thinking d => exact ⟨d, hblock', ShownBlock.thinking.inj heq⟩
  | toolCall d => cases heq

lemma exists_toolCall {c : ToolCall} (hblock : content.block index = some (.toolCall c)) :
    ∃ d : ToolCall, shown'.block index = some (.toolCall d) ∧ d.name = c.name ∧ d.id = c.id := by
  have hmap := map_shown_block hshown index
  rw [hblock, Option.map_some, Option.map_eq_some_iff] at hmap
  obtain ⟨block, hblock', heq⟩ := hmap
  cases block with
  | text d => cases heq
  | thinking d => cases heq
  | toolCall d =>
    obtain ⟨hname, hid, -⟩ := ShownBlock.toolCall.inj heq
    exact ⟨d, hblock', hname, hid⟩

end

open CompactAssistantStreamReconstructor

/-- The delta of an update, applied to content that shows the same, goes on to show the same. -/
theorem exists_applyDelta {event : CompactAssistantMessageEvent} {content' : StreamContent}
    (hproduces : Produces content event content') (hshown : shown'.shown = content.shown)
    (parseStreamingJson : String → Json) (delta : CompactAssistantDelta)
    (hevent : delta.assistantMessageEvent = event) {rest : List (String × Json)}
    (hstart : delta.contentStart = compactContentStart ⟨content', rest⟩ event)
    (hargs : delta.toolCallArguments =
      (compactToolCallArguments ⟨content', rest⟩ event).filter fun a => truthy (some a))
    (toolCallJson : JsMap String String) :
    ∃ applied json, applyDelta parseStreamingJson delta shown' toolCallJson =
      some (applied, json) ∧ applied.shown = content'.shown := by
  cases hproduces with
  | @textStart index c hempty | @thinkingStart index c hempty =>
    simp only [compactContentStart, block_assign] at hstart
    rw [applyDelta, hevent, hstart]
    refine ⟨_, _, rfl, shown_assign hshown ?_ index⟩
    simp [AssistantBlock.shown, hempty]
  | textDelta hblock htext =>
    obtain ⟨d, hd, hsame⟩ := exists_text hshown hblock
    simp only [applyDelta, hevent, hd]
    refine ⟨_, _, rfl, shown_assign hshown ?_ _⟩
    simp [AssistantBlock.shown, htext, hsame]
  | textEnd hblock =>
    obtain ⟨d, hd, -⟩ := exists_text hshown hblock
    simp only [applyDelta, hevent, hd]
    refine ⟨_, _, rfl, shown_assign hshown ?_ _⟩
    rfl
  | thinkingDelta hblock htext =>
    obtain ⟨d, hd, hsame⟩ := exists_thinking hshown hblock
    simp only [applyDelta, hevent, hd]
    refine ⟨_, _, rfl, shown_assign hshown ?_ _⟩
    simp [AssistantBlock.shown, htext, hsame]
  | thinkingEnd hblock =>
    obtain ⟨d, hd, -⟩ := exists_thinking hshown hblock
    simp only [applyDelta, hevent, hd]
    refine ⟨_, _, rfl, shown_assign hshown ?_ _⟩
    rfl
  | @toolcallStart index c hempty =>
    simp only [compactContentStart, block_assign] at hstart
    simp only [applyDelta, hevent, hstart]
    refine ⟨_, _, rfl, shown_assign hshown ?_ index⟩
    simp [AssistantBlock.shown, hempty]
  | @toolcallDelta index c c' text members hblock hid hname hobj =>
    -- the arguments are a record, so they are in the delta and the JSON is not asked for
    obtain ⟨d, hd, hdname, hdid⟩ := exists_toolCall hshown hblock
    have hgiven : delta.toolCallArguments.filter (fun a => truthy (some a)) =
        some (.obj members) := by
      rw [hargs]
      simp [compactToolCallArguments, block_assign, hobj, truthy]
    simp only [applyDelta, hevent, hd, hgiven]
    refine ⟨_, _, rfl, shown_assign hshown ?_ index⟩
    simp [AssistantBlock.shown, hdname, hdid, hname, hid, hobj]
  | toolcallEnd =>
    rw [applyDelta, hevent]
    exact ⟨_, _, rfl, shown_assign hshown rfl _⟩

end Producers

/-! ## Sessions in turn -/

open CompactAssistantStreamReconstructor

/-- What the supervisor does with a message of a worker, which sends deltas where it can. -/
def CompactAssistantStreamReconstructor.receive (r : CompactAssistantStreamReconstructor)
    (parseStreamingJson : String → Json) (outbound : DaemonOutbound) :
    CompactAssistantStreamReconstructor × Option DaemonOutbound :=
  match createCompactAssistantDelta outbound with
  | some delta => r.reconstruct parseStreamingJson delta
  | none => (r.observe outbound, none)

/-- The message that each session's producer has under way, and the sessions whose message has been
started or seeded since it was last cleared. -/
structure StreamSystem where
  messages : String → StreamMessage
  followed : String → Bool := fun _ => false
  reconstructor : CompactAssistantStreamReconstructor := {}

inductive StreamInput where
  | outbound (message : DaemonOutbound)
  /-- The supervisor takes the message under way from a summary of the session. -/
  | seed (activeSessionId : String)

/-- What becomes of the producers' messages with what their workers send. -/
inductive Emits (messages : String → StreamMessage) :
    DaemonOutbound → (String → StreamMessage) → Prop
  | start (id : String) (message : StreamMessage) (eventMeta : Option Json) :
    Emits messages (.sessionEvent id (.messageStart (.assistant message)) eventMeta)
      (Function.update messages id message)
  | update {id : String} {message : StreamMessage} {event : StreamUpdate}
      (eventMeta : Option Json) :
    Produces (messages id).content event.compact message.content →
    Emits messages (.sessionEvent id (.messageUpdate (.assistant message) event) eventMeta)
      (Function.update messages id message)
  | startOther (id : String) (message : Json) (eventMeta : Option Json) :
    Emits messages (.sessionEvent id (.messageStart (.other message)) eventMeta) messages
  | updateOther (id : String) (message : Json) (event : StreamUpdate)
      (eventMeta : Option Json) :
    Emits messages (.sessionEvent id (.messageUpdate (.other message) event) eventMeta) messages
  | finish (id : String) (message : StreamedMessage) (eventMeta : Option Json) :
    Emits messages (.sessionEvent id (.messageEnd message) eventMeta) messages
  | otherEvent (id type : String) (eventMeta : Option Json) :
    Emits messages (.sessionEvent id (.other type) eventMeta) messages
  | replaced (id : String) : Emits messages (.sessionReplaced id) messages
  | resynced (id : String) : Emits messages (.sessionResynced id) messages
  | closed (id : String) : Emits messages (.sessionClosed id) messages
  | other (type : String) : Emits messages (.other type) messages

/-- The sessions followed after a message. -/
def followedAfter (followed : String → Bool) : DaemonOutbound → String → Bool
  | .sessionEvent id (.messageStart (.assistant _)) _ => Function.update followed id true
  | .sessionEvent id (.messageEnd _) _ | .sessionReplaced id | .sessionResynced id
  | .sessionClosed id => Function.update followed id false
  | _ => followed

/-- Workers send, and the supervisor receives; at any point it may seed a session. -/
inductive StreamStep (parseStreamingJson : String → Json) (s : StreamSystem) :
    StreamInput → StreamSystem → Prop
  | outbound {message : DaemonOutbound} {messages : String → StreamMessage} :
    Emits s.messages message messages →
    StreamStep parseStreamingJson s (.outbound message)
      { messages, followed := followedAfter s.followed message,
        reconstructor := (s.reconstructor.receive parseStreamingJson message).1 }
  | seed (id : String) : StreamStep parseStreamingJson s (.seed id)
      { s with followed := Function.update s.followed id true,
               reconstructor := s.reconstructor.seed id (s.messages id) }

def streamMachine (parseStreamingJson : String → Json) : Machine StreamSystem StreamInput where
  step := StreamStep parseStreamingJson

/-- What the supervisor has of a session against whether it follows it, and the producer's
message. -/
def Follows (kept : Option StreamMessage) (followed : Bool) (message : StreamMessage) : Prop :=
  match kept with
  | none => followed = false
  | some shown => followed = true ∧ shown.content.shown = message.content.shown

/-- The supervisor has the messages of the sessions that it follows, and they show what those of
the producers do. -/
def StreamSystem.Agrees (s : StreamSystem) : Prop :=
  ∀ id, Follows (s.reconstructor.partialMessages.get? id) (s.followed id) (s.messages id)

section Steps

variable {s s' : StreamSystem} {parseStreamingJson : String → Json} {id : String}
  {message : StreamMessage} {event : StreamUpdate} {eventMeta : Option Json}
  {r : CompactAssistantStreamReconstructor}

/-- An update is applied to the message that the supervisor has, if it has one. -/
theorem receive_update {followed : Bool} {before : StreamMessage}
    (hproduces : Produces before.content event.compact message.content)
    (hfollows : Follows (r.partialMessages.get? id) followed before)
    (parseStreamingJson : String → Json) (eventMeta : Option Json) :
    let received := r.receive parseStreamingJson
      (.sessionEvent id (.messageUpdate (.assistant message) event) eventMeta)
    (followed = false ∧ r.partialMessages.get? id = none ∧ received = (r, none)) ∨
      followed = true ∧ ∃ shown : StreamMessage, shown.content.shown = message.content.shown ∧
        received.1.partialMessages = r.partialMessages.set id shown ∧
        received.2 = some (.sessionEvent id
          (.messageUpdate (.assistant shown) { compact := event.compact }) eventMeta) := by
  intro received
  rcases hkept : r.partialMessages.get? id with _ | kept
  · rw [hkept] at hfollows
    refine .inl ⟨hfollows, rfl, ?_⟩
    simp only [received, receive, createCompactAssistantDelta, reconstruct, hkept]
  · rw [hkept] at hfollows
    obtain ⟨hfollowed, hshown⟩ := hfollows
    obtain ⟨applied, json, happly, hsame⟩ := exists_applyDelta hproduces hshown parseStreamingJson
      { activeSessionId := id, assistantMessageEvent := event.compact,
        contentStart := compactContentStart message event.compact,
        toolCallArguments := (compactToolCallArguments message event.compact).filter
          fun a => truthy (some a),
        eventMeta } rfl rfl rfl r.toolCallJson
    refine .inr ⟨hfollowed, { kept with content := applied }, hsame, ?_, ?_⟩
    · simp only [received, receive, createCompactAssistantDelta, reconstruct, hkept, happly]
    · simp only [received, receive, createCompactAssistantDelta, reconstruct, hkept, happly]

/-- A step that is about one session. -/
lemma StreamSystem.Agrees.update (hagrees : s.Agrees) (id : String) (message : StreamMessage)
    (followed : Bool) (r : CompactAssistantStreamReconstructor)
    (hself : Follows (r.partialMessages.get? id) followed message)
    (hother : ∀ id', id' ≠ id →
      r.partialMessages.get? id' = s.reconstructor.partialMessages.get? id') :
    StreamSystem.Agrees { messages := Function.update s.messages id message,
                          followed := Function.update s.followed id followed,
                          reconstructor := r } := by
  intro id'
  by_cases heq : id' = id
  · subst heq
    simpa using hself
  · simpa [Function.update_of_ne heq, hother id' heq] using hagrees id'

lemma StreamSystem.Agrees.start (hagrees : s.Agrees) (id : String) (message : StreamMessage) :
    StreamSystem.Agrees { messages := Function.update s.messages id message,
                          followed := Function.update s.followed id true,
                          reconstructor := s.reconstructor.seed id message } := by
  refine hagrees.update id message true _ ?_ fun id' hne => ?_
  · rw [CompactAssistantStreamReconstructor.seed, JsMap.get?_set_self]
    exact ⟨rfl, rfl⟩
  · rw [CompactAssistantStreamReconstructor.seed, JsMap.get?_set, if_neg (Ne.symm hne)]

lemma StreamSystem.Agrees.clear (hagrees : s.Agrees) (id : String) :
    StreamSystem.Agrees { s with followed := Function.update s.followed id false,
                                 reconstructor := s.reconstructor.clear id } := by
  have hupdate := hagrees.update id (s.messages id) false (s.reconstructor.clear id) (by
      rw [CompactAssistantStreamReconstructor.clear, JsMap.get?_delete, if_pos rfl]
      rfl) fun id' hne => by
      rw [CompactAssistantStreamReconstructor.clear, JsMap.get?_delete, if_neg (Ne.symm hne)]
  rwa [Function.update_eq_self] at hupdate

/-- Each step keeps the messages of the supervisor what they should be. -/
theorem StreamSystem.Agrees.step {input : StreamInput} (hagrees : s.Agrees)
    (hstep : (streamMachine parseStreamingJson).step s input s') : s'.Agrees := by
  cases hstep with
  | seed id =>
    have hseeded := hagrees.start id (s.messages id)
    rwa [Function.update_eq_self] at hseeded
  | outbound hemits =>
    cases hemits with
    | start id message eventMeta => exact hagrees.start id message
    | update eventMeta hproduces =>
      rename_i id message event
      obtain ⟨hfollowed', hnone, hrecv⟩ | ⟨hfollowed, shown, hsame, hset, -⟩ :=
        receive_update hproduces (hagrees id) parseStreamingJson eventMeta
      · have hupdate := hagrees.update id message (s.followed id)
          (s.reconstructor.receive parseStreamingJson _).1 (by
            rw [hrecv, hnone]
            exact hfollowed') fun id' _ => by rw [hrecv]
        rwa [Function.update_eq_self] at hupdate
      · have hupdate := hagrees.update id message (s.followed id)
          (s.reconstructor.receive parseStreamingJson _).1 (by
            rw [hset, JsMap.get?_set_self]
            exact ⟨hfollowed, hsame⟩) fun id' hne => by
            rw [hset, JsMap.get?_set, if_neg (Ne.symm hne)]
        rwa [Function.update_eq_self] at hupdate
    | startOther | updateOther | otherEvent | other => exact hagrees
    | finish id | replaced id | resynced id | closed id => exact hagrees.clear id

end Steps

/-! ## After a session is cleared -/

/-- The calls of a reconstructor. -/
inductive ReconstructorCall where
  | seed (activeSessionId : String) (message : StreamMessage)
  | observe (message : DaemonOutbound)
  | reconstruct (delta : CompactAssistantDelta)
  | clear (activeSessionId : String)

namespace ReconstructorCall

def perform (parseStreamingJson : String → Json) (r : CompactAssistantStreamReconstructor) :
    ReconstructorCall → CompactAssistantStreamReconstructor
  | seed activeSessionId message => r.seed activeSessionId message
  | observe message => r.observe message
  | reconstruct delta => (r.reconstruct parseStreamingJson delta).1
  | clear activeSessionId => r.clear activeSessionId

/-- A `message_start` or a seed for the session. -/
def Starts (id : String) : ReconstructorCall → Prop
  | seed activeSessionId _ => activeSessionId = id
  | observe (.sessionEvent activeSessionId (.messageStart (.assistant _)) _) =>
    activeSessionId = id
  | _ => False

/-- What clears the session. -/
def Clears (id : String) : ReconstructorCall → Prop
  | clear activeSessionId | observe (.sessionEvent activeSessionId (.messageEnd _) _)
  | observe (.sessionReplaced activeSessionId) | observe (.sessionResynced activeSessionId)
  | observe (.sessionClosed activeSessionId) => activeSessionId = id
  | _ => False

variable {id : String} {parseStreamingJson : String → Json}
  {r : CompactAssistantStreamReconstructor} {call : ReconstructorCall}

lemma perform_of_clears (h : call.Clears id) : call.perform parseStreamingJson r = r.clear id := by
  unfold Clears at h
  split at h
  all_goals first
    | exact h.elim
    | (subst h; rfl)

lemma get?_clear (id id' : String) : (r.clear id).partialMessages.get? id' =
    if id = id' then none else r.partialMessages.get? id' := JsMap.get?_delete ..

/-- What observing a message comes to. -/
lemma observe_cases (r : CompactAssistantStreamReconstructor) (message : DaemonOutbound) :
    r.observe message = r ∨ (∃ id', r.observe message = r.clear id') ∨
      ∃ id' started, r.observe message = r.seed id' started ∧ (observe message).Starts id' := by
  unfold CompactAssistantStreamReconstructor.observe
  split
  · exact .inr (.inr ⟨_, _, rfl, rfl⟩)
  · exact .inr (.inl ⟨_, rfl⟩)
  · exact .inr (.inl ⟨_, rfl⟩)
  · exact .inr (.inl ⟨_, rfl⟩)
  · exact .inr (.inl ⟨_, rfl⟩)
  · exact .inl rfl

lemma starts_unique {id' : String} (h : call.Starts id') (hne : ¬ call.Starts id) : id' ≠ id := by
  rintro rfl
  exact hne h

lemma get?_reconstruct (delta : CompactAssistantDelta)
    (hnone : r.partialMessages.get? id = none) :
    (r.reconstruct parseStreamingJson delta).1.partialMessages.get? id = none := by
  rw [CompactAssistantStreamReconstructor.reconstruct]
  rcases hkept : r.partialMessages.get? delta.activeSessionId with _ | kept
  · exact hnone
  · have hne : delta.activeSessionId ≠ id := by
      rintro rfl
      rw [hnone] at hkept
      cases hkept
    rcases happly : applyDelta parseStreamingJson delta kept.content r.toolCallJson with _ | applied
    · simp only [happly]
      exact hnone
    · simp only [happly]
      exact (JsMap.get?_set ..).trans ((if_neg hne).trans hnone)

/-- A session that has no message gets one from what starts it alone. -/
theorem get?_perform (hstarts : ¬ call.Starts id) (hnone : r.partialMessages.get? id = none) :
    (call.perform parseStreamingJson r).partialMessages.get? id = none := by
  cases call with
  | seed id' message =>
    have hne : id' ≠ id := hstarts
    exact (JsMap.get?_set ..).trans ((if_neg hne).trans hnone)
  | observe message =>
    obtain hsame | ⟨id', hclear⟩ | ⟨id', started, hseed, hstarts'⟩ := observe_cases r message
    · rw [perform, hsame]
      exact hnone
    · rw [perform, hclear, get?_clear, hnone, ite_self]
    · rw [perform, hseed]
      exact (JsMap.get?_set ..).trans ((if_neg (starts_unique hstarts' hstarts)).trans hnone)
  | reconstruct delta => exact get?_reconstruct delta hnone
  | clear id' => rw [perform, get?_clear, hnone, ite_self]

variable {calls : List ReconstructorCall}

lemma get?_performs
    (hcalls : ∀ call ∈ calls, ¬ call.Starts id) (hnone : r.partialMessages.get? id = none) :
    (calls.foldl (perform parseStreamingJson) r).partialMessages.get? id = none := by
  induction calls generalizing r with
  | nil => exact hnone
  | cons call calls ih =>
    obtain ⟨hcall, hcalls⟩ := List.forall_mem_cons.1 hcalls
    exact ih hcalls (get?_perform hcall hnone)

/-- After a session is cleared no delta is applied to it until something starts it. -/
theorem reconstruct_of_clears {clearing : ReconstructorCall} (hclears : clearing.Clears id)
    (hcalls : ∀ call ∈ calls, ¬ call.Starts id)
    {delta : CompactAssistantDelta} (hdelta : delta.activeSessionId = id) :
    let r' := (clearing :: calls).foldl (perform parseStreamingJson) r
    r'.reconstruct parseStreamingJson delta = (r', none) := by
  intro r'
  have hnone : r'.partialMessages.get? id = none := by
    refine get?_performs (r := clearing.perform parseStreamingJson r) hcalls ?_
    rw [perform_of_clears hclears, get?_clear, if_pos rfl]
  rw [CompactAssistantStreamReconstructor.reconstruct, hdelta, hnone]

end ReconstructorCall

/-! ## Whole streams -/

/-- In every run, the update that a producer makes next is rebuilt for a session that is followed,
with the same blocks as the producer's message has after it, and is not applied for another. -/
theorem compact_stream (parseStreamingJson : String → Json) :
    (∀ messages inputs s, (streamMachine parseStreamingJson).Run { messages } inputs s →
      ∀ id message event eventMeta, Produces (s.messages id).content
          event.compact message.content →
        let received := (s.reconstructor.receive parseStreamingJson
          (.sessionEvent id (.messageUpdate (.assistant message) event) eventMeta)).2
        (s.followed id = false → received = none) ∧ (s.followed id = true → ∃ shown : StreamMessage,
            received = some (.sessionEvent id
              (.messageUpdate (.assistant shown) { compact := event.compact }) eventMeta) ∧
            shown.content.shown = message.content.shown)) ∧
      ∀ r id (clearing : ReconstructorCall) (calls : List ReconstructorCall),
        clearing.Clears id → (∀ call ∈ calls, ¬ call.Starts id) →
        ∀ delta : CompactAssistantDelta, delta.activeSessionId = id →
        let r' := (clearing :: calls).foldl (ReconstructorCall.perform parseStreamingJson) r
        r'.reconstruct parseStreamingJson delta = (r', none) := by
  refine ⟨fun messages inputs s hrun id message event eventMeta hproduces => ?_,
    fun r id clearing calls hclears hcalls delta hdelta =>
      ReconstructorCall.reconstruct_of_clears hclears hcalls hdelta⟩
  have hagrees : s.Agrees := hrun.invariant (fun _ => rfl) fun _ _ _ h hstep => h.step hstep
  obtain ⟨hfollowed, -, hreceived⟩ | ⟨hfollowed, shown, hsame, -, hreceived⟩ :=
    receive_update hproduces (hagrees id) parseStreamingJson eventMeta
  · rw [hreceived, hfollowed]
    exact ⟨fun _ => rfl, nofun⟩
  · rw [hreceived, hfollowed]
    exact ⟨nofun, fun _ => ⟨shown, rfl, hsame⟩⟩

/-- A message of session `a` grows by an event. -/
def grows (message : StreamMessage) (event : CompactAssistantMessageEvent) : DaemonOutbound :=
  .sessionEvent "a" (.messageUpdate (.assistant message) { compact := event }) none

/-- A tool call begins, another session is seeded, and a text begins in front of the call. -/
theorem compact_stream_interleaved : ∃ s : StreamSystem, (streamMachine fun _ => .obj []).Run
      { messages := fun _ => {} }
      [.outbound (.sessionEvent "a" (.messageStart (.assistant {})) none),
        .outbound (grows ⟨[none, some (.toolCall ⟨"1", "read", .obj [], none⟩)], []⟩
          (.toolcallStart 1)), .seed "b",
        .outbound (grows ⟨[some (.text { text := "" }),
          some (.toolCall ⟨"1", "read", .obj [], none⟩)], []⟩ (.textStart 0))] s ∧
    s.followed "a" = true ∧ ∃ shown : StreamMessage,
      (s.reconstructor.receive (fun _ => .obj []) (grows ⟨[some (.text { text := "hi" }),
        some (.toolCall ⟨"1", "read", .obj [], none⟩)], []⟩ (.textDelta 0 "hi"))).2 =
        some (grows shown (.textDelta 0 "hi")) ∧
      shown.content.shown = [some (.text "hi"), some (.toolCall "read" "1" (.obj []))] := by
  let call : ToolCall := ⟨"1", "read", .obj [], none⟩
  have hcall : Produces [] (.toolcallStart 1) [none, some (.toolCall call)] :=
    @Produces.toolcallStart [] 1 call rfl
  have hstart : Produces [none, some (.toolCall call)] (.textStart 0)
      [some (.text { text := "" }), some (.toolCall call)] :=
    @Produces.textStart [none, _] 0 { text := "" } rfl
  have htext : Produces [some (.text { text := "" }), some (.toolCall call)] (.textDelta 0 "hi")
      [some (.text { text := "hi" }), some (.toolCall call)] :=
    @Produces.textDelta [some (.text { text := "" }), _] 0 _ { text := "hi" } _ rfl rfl
  have h₁ : (streamMachine fun _ => .obj []).Run { messages := fun _ => {} } [.outbound _] _ :=
    .single (.outbound (.start "a" {} none))
  have h₂ := h₁.snoc (.outbound (@Emits.update _ "a" { content := _ } ⟨_, none⟩ none hcall))
  have h₃ := h₂.snoc (.seed "b")
  have h₄ := h₃.snoc (.outbound (@Emits.update _ "a" { content := _ } ⟨_, none⟩ none hstart))
  obtain ⟨shown, hreceived, hshown⟩ := ((compact_stream fun _ => .obj []).1 _ _ _ h₄ "a"
    { content := _ } ⟨_, none⟩ none htext).2 rfl
  exact ⟨_, h₄, rfl, shown, hreceived, hshown⟩

end Amide
