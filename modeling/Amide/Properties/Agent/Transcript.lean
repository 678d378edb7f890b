import Amide.Properties.Agent.Asides

/-!
# The events of a run describe its transcript

A run of the agent loop that returns has told of each message that it added to the context, in
order: the messages of its `message_end` events are those of its one `agent_end` event, which comes
last, and those that the context has gained, and its `message_start` and `message_end` events come
in pairs, one for each of them (`describes_of_run`).  This rests on two things the loop does not
check (`LoopWorld.Conforms`).  A stream starts once: a second `start` would leave the first partial
message in the context.  And the sink does not reject the announcement of a response with an abort
error, which the loop would take for an abort of the stream, and announce another message.
-/

namespace Amide

open AgentLoop List
open Program (Ends Returns returns_pure wp_bind wp_mono)

/-! ## What is claimed -/

def AgentEvent.messageEnd? : AgentEvent → Option AgentMessage
  | .messageEnd message => some message
  | _ => none

/-- What `message_start` says of a message: the message, or a part of a response. -/
inductive Opens : AgentMessage → AgentMessage → Prop
  | same (message : AgentMessage) : Opens message message
  | part (part message : AssistantMessage) : Opens (.assistant part) (.assistant message)

/-- The events of a run and its context, `initial` at first, say the same of its messages. -/
structure Describes (initial messages : List AgentMessage) (s : LoopWorld) : Prop where
  context : s.locals.messages = initial ++ messages
  ends : s.events.filterMap AgentEvent.messageEnd? = messages
  pairs : ∃ starts, List.Forall₂ Opens starts messages ∧ s.events.filter AgentEvent.isBoundary =
      (starts.zip messages).flatMap fun p => [.messageStart p.1, .messageEnd p.2]
  last : ∃ before, s.events = before ++ [.agentEnd messages] ∧
    ∀ event ∈ before, event.isAgentEnd = false

/-- A stream starts once, and the sink does not reject the announcement of a response, or of its
start when there is no part of it, with an abort error. -/
def LoopWorld.Conforms (s : LoopWorld) : (e : LoopEffect) → Except LoopError e.Answer → Prop
  | .call .nextEvent, .ok (.ok (some (.start _))) => s.locals.partialMessage = none
  | .emit (.messageEnd _), .error error => isAbortError error = false
  | .emit (.messageStart _), .error error =>
    s.locals.partialMessage = none → isAbortError error = false
  | _, _ => True

/-- What an effect can do when the stream and the sink conform. -/
def LoopWorld.Conforming (s : LoopWorld) (e : LoopEffect) (r : Except LoopError e.Answer)
    (s' : LoopWorld) : Prop :=
  s.Answers e r s' ∧ s.Conforms e r

/-! ## What has been told -/

/-- The events tell of the messages, and have opened one more. -/
inductive Narrates : List AgentEvent → List AgentMessage → Option AgentMessage → Prop
  | nil : Narrates [] [] none
  | aside {events : List AgentEvent} {messages : List AgentMessage} {opened : Option AgentMessage}
      {event : AgentEvent} (h : Narrates events messages opened)
      (hboundary : event.isBoundary = false) (hend : event.isAgentEnd = false) :
      Narrates (events ++ [event]) messages opened
  | opens {events : List AgentEvent} {messages : List AgentMessage}
      (h : Narrates events messages none) (message : AgentMessage) :
      Narrates (events ++ [.messageStart message]) messages (some message)
  | closes {events : List AgentEvent} {messages : List AgentMessage} {start message : AgentMessage}
      (h : Narrates events messages (some start)) (hopens : Opens start message) :
      Narrates (events ++ [.messageEnd message]) (messages ++ [message]) none

namespace Narrates

variable {events : List AgentEvent} {messages : List AgentMessage} {opened : Option AgentMessage}

section
variable (h : Narrates events messages opened)
include h

lemma isAgentEnd_eq_false : ∀ event ∈ events, event.isAgentEnd = false := by
  induction h with
  | nil => exact fun _ => nofun
  | aside _ _ hend ih => exact List.forall_mem_append.mpr ⟨ih, by simpa using hend⟩
  | opens _ _ ih | closes _ _ ih =>
    exact List.forall_mem_append.mpr ⟨ih, by simp [AgentEvent.isAgentEnd]⟩

lemma filterMap_messageEnd? : events.filterMap AgentEvent.messageEnd? = messages := by
  induction h with
  | nil => rfl
  | @aside events messages opened event _ hbound _ ih =>
    rw [filterMap_append, ih]
    cases event <;> first | exact append_nil _ | cases hbound
  | opens _ _ ih => rw [filterMap_append, ih]; exact append_nil _
  | closes _ _ ih => rw [filterMap_append, ih]; rfl

/-- The boundaries are pairs, one for each message, and the start of the one that is open. -/
lemma filter_isBoundary :
    ∃ starts, List.Forall₂ Opens starts messages ∧ events.filter AgentEvent.isBoundary =
      ((starts.zip messages).flatMap fun p => [.messageStart p.1, .messageEnd p.2]) ++
        opened.toList.map .messageStart := by
  induction h with
  | nil => exact ⟨[], .nil, rfl⟩
  | aside _ hbound _ ih =>
    obtain ⟨starts, hstarts, heq⟩ := ih
    refine ⟨starts, hstarts, ?_⟩
    rw [filter_append, heq, filter_cons_of_neg (by simp [hbound]), filter_nil,
      append_nil]
  | opens _ message ih =>
    obtain ⟨starts, hstarts, heq⟩ := ih
    refine ⟨starts, hstarts, ?_⟩
    rw [filter_append, heq]
    simp [AgentEvent.isBoundary]
  | @closes events messages start message _ hopens ih =>
    obtain ⟨starts, hstarts, heq⟩ := ih
    have hlen := hstarts.length_eq
    refine ⟨starts ++ [start], rel_append hstarts (.cons hopens .nil), ?_⟩
    rw [filter_append, heq, zip_append hlen, flatMap_append]
    simp [AgentEvent.isBoundary]

end

end Narrates

/-- The variables and the events, whether or not the signal is aborted. -/
structure LoopWorld.Told (locals : LoopLocals) (messages : List AgentMessage)
    (opened : Option AgentMessage) (s : LoopWorld) : Prop where
  locals_eq : s.locals = locals
  narrates : Narrates s.events messages opened

def conforming : LoopCondition := ⟨LoopWorld.Conforms, fun _ _ => trivial, fun _ _ _ => trivial⟩

namespace AgentLoop

open LoopWorld

variable {C : LoopCondition} {s : LoopWorld} {locals : LoopLocals} {messages : List AgentMessage}
  {opened : Option AgentMessage}

lemma stable_told (locals : LoopLocals) (messages : List AgentMessage)
    (opened : Option AgentMessage) : Stable (Told locals messages opened) where
  abort _ _ h := ⟨h.locals_eq, h.narrates⟩
  emitted _ _ hbound hend h := ⟨h.locals_eq, h.narrates.aside hbound hend⟩

/-! ## Telling of messages -/

lemma emitMessage_told (message : AgentMessage) (hs : s.Told locals messages none) :
    (emitMessage message).Returns C.Handler
      (fun _ s' => s'.Told locals (messages ++ [message]) none) s := by
  have hstart : (emit (.messageStart message)).Returns C.Handler
      (fun _ s' => s'.Told locals messages (some message)) s := by
    apply wp_emit
    intro r raised _ _ _
    exact ⟨hs.locals_eq, hs.narrates.opens message⟩
  refine hstart.bind fun _ s₁ hs₁ => ?_
  apply wp_emit
  intro r raised _ _ _
  exact ⟨hs₁.locals_eq, hs₁.narrates.closes (.same message)⟩

lemma emitMessages_told (told : List AgentMessage) (hs : s.Told locals messages none) :
    (emitMessages told).Returns C.Handler
      (fun _ s' => s'.Told locals (messages ++ told) none) s := by
  induction told generalizing s messages with
  | nil =>
    rw [append_nil]
    exact returns_pure hs
  | cons message told ih =>
    rw [append_cons]
    exact (emitMessage_told message hs).bind fun _ s₁ hs₁ => ih hs₁

/-! ## A response -/

variable {α : Type}

section Response

variable {base new : List AgentMessage}

/-- While a response is streamed: the part of it that there is stands at the end of the context, and
its start has been told. -/
inductive InStream (base new messages : List AgentMessage) : LoopWorld → Prop
  | before {s : LoopWorld} (hs : s.Told ⟨base, new, none⟩ messages none) :
      InStream base new messages s
  | started {s : LoopWorld} {part first : AssistantMessage}
      (hs : s.Told ⟨base ++ [.assistant part], new, some part⟩ messages
        (some (.assistant first))) : InStream base new messages s

/-- The response is the last message of the context, and has been told. -/
structure Responded (base new messages : List AgentMessage) (message : AssistantMessage)
    (s : LoopWorld) : Prop where
  context : s.locals.messages = base ++ [.assistant message]
  newMessages : s.locals.newMessages = new
  narrates : Narrates s.events (messages ++ [.assistant message]) none

/-- What can come of streaming a response, when an abort is still to be taken care of. -/
def StreamEnd (base new messages : List AgentMessage) (r : Except LoopError AssistantMessage)
    (s : LoopWorld) : Prop :=
  match r with
  | .ok message => Responded base new messages message s
  | .error error => isAbortError error = true → InStream base new messages s

lemma InStream.aside {p : LoopProgram α} (h : InStream base new messages s)
    (hp : Aside p) : p.wp conforming.Handler (fun _ s' => InStream base new messages s') s := by
  cases h with
  | before hs => exact wp_mono (hp.wp (stable_told _ _ _) hs) fun _ _ => .before
  | started hs => exact wp_mono (hp.wp (stable_told _ _ _) hs) fun _ _ => .started

/-- The announcement of a message that is at the end of the context. -/
lemma wp_messageEnd {message : AssistantMessage} {start : AgentMessage}
    (hopens : Opens start (.assistant message)) {part : Option AssistantMessage}
    (hs : s.Told ⟨base ++ [.assistant message], new, part⟩ messages (some start)) :
    (emit (.messageEnd (.assistant message))).wp conforming.Handler (fun r s' => match r with
      | .ok _ => Responded base new messages message s'
      | .error error => isAbortError error = false) s := by
  apply wp_emit
  intro r raised hconforms
  cases r with
  | ok _ =>
    exact ⟨congrArg LoopLocals.messages hs.locals_eq, congrArg LoopLocals.newMessages hs.locals_eq,
      hs.narrates.closes hopens⟩
  | error error => exact hconforms

lemma finishMessage_responded (message : AssistantMessage) (h : InStream base new messages s) :
    (finishMessage message).wp conforming.Handler (fun r s' => match r with
      | .ok result => Responded base new messages result s'
      | .error error => isAbortError error = false) s := by
  simp only [finishMessage, wp_bind, wp_read]
  cases h with
  | before hs =>
    simp only [hs.locals_eq, Option.isSome_none, Bool.false_eq_true, if_false, wp_bind,
      wp_pushContext]
    apply wp_emit
    intro r raised hconforms
    cases r with
    | error error => exact hconforms rfl
    | ok _ =>
      have hopened : (((LoopWorld.emitted { s with locals := ⟨base ++ [.assistant message], new,
          none⟩ } (.messageStart (.assistant message)))).abort raised).Told
          ⟨base ++ [.assistant message], new, none⟩ messages (some (.assistant message)) :=
        ⟨rfl, hs.narrates.opens _⟩
      refine wp_mono (wp_messageEnd (.same _) hopened) ?_
      rintro (error | _) s' h
      · exact h
      · exact h
  | started hs =>
    simp only [hs.locals_eq, Option.isSome_some, if_true, wp_bind,
      wp_replaceLastInContext, dropLast_concat]
    refine wp_mono (wp_messageEnd (.part _ _) (s := { s with locals := ⟨_, _, _⟩ })
      ⟨rfl, hs.narrates⟩) ?_
    rintro (error | _) s' h
    · exact h
    · exact h

/-- An event of the stream; a response that has started does not start again. -/
lemma nextEvent_told (hs : s.Told locals messages opened) :
    (raceCall .nextEvent).wp conforming.Handler (fun r s' => s'.Told locals messages opened ∧
      ∀ part, r = .ok (some (.start part)) → locals.partialMessage = none) s := by
  rw [raceCall, wp_bind]
  apply Program.wp_effect.mpr
  rintro (error | operation) _ ⟨⟨⟩, hconforms⟩
  · exact ⟨(stable_told _ _ _).abort s _ hs, fun _ => nofun⟩
  · refine wp_mono ((asideWith_raceWithAbort operation).wp (stable_told _ _ _)
      ((stable_told _ _ _).abort s _ hs)) ?_
    rintro r s' ⟨hvalue, hs'⟩
    refine ⟨hs', ?_⟩
    intro part hpart
    rw [hvalue _ hpart] at hconforms
    rw [← hs.locals_eq]
    exact hconforms

lemma nextEvent_inStream (h : InStream base new messages s) :
    (raceCall .nextEvent).wp conforming.Handler (fun r s' => InStream base new messages s' ∧
      ∀ part, r = .ok (some (.start part)) → s'.Told ⟨base, new, none⟩ messages none) s := by
  cases h with
  | before hs =>
    refine wp_mono (nextEvent_told hs) ?_
    rintro r s' ⟨hs', _⟩
    exact ⟨.before hs', fun _ _ => hs'⟩
  | started hs =>
    refine wp_mono (nextEvent_told hs) ?_
    rintro r s' ⟨hs', hnone⟩
    exact ⟨.started hs', fun part hpart => nomatch hnone part hpart⟩

variable {next : LoopProgram AssistantMessage} {part : AssistantMessage}

/-- The start of a response puts its first part at the end of the context. -/
lemma start_inStream (hs : s.Told ⟨base, new, none⟩ messages none)
    (hnext : ∀ s', InStream base new messages s' →
      next.wp conforming.Handler (StreamEnd base new messages) s') :
    (do
      setPartialMessage (some part)
      pushContext (.assistant part)
      emit (.messageStart (.assistant part))
      next).wp conforming.Handler (StreamEnd base new messages) s := by
  simp only [wp_bind, wp_setPartialMessage, wp_pushContext, hs.locals_eq]
  apply wp_emit
  intro r raised _
  have hstarted : InStream base new messages (((LoopWorld.emitted
      { s with locals := ⟨base ++ [.assistant part], new, some part⟩ }
      (.messageStart (.assistant part)))).abort raised) :=
    .started ⟨rfl, hs.narrates.opens _⟩
  cases r with
  | error error => exact fun _ => hstarted
  | ok _ => exact hnext _ hstarted

/-- Every further part takes the place of the one before. -/
lemma update_inStream (h : InStream base new messages s)
    (hnext : ∀ s', InStream base new messages s' →
      next.wp conforming.Handler (StreamEnd base new messages) s') :
    (do
      if (← read).partialMessage.isSome then
        setPartialMessage (some part)
        replaceLastInContext (.assistant part)
        emit (.messageUpdate part (.update part))
      next).wp conforming.Handler (StreamEnd base new messages) s := by
  simp only [wp_bind, wp_read]
  cases h with
  | before hs =>
    simp only [hs.locals_eq, Option.isSome_none, Bool.false_eq_true, if_false]
    exact hnext s (.before hs)
  | started hs =>
    simp only [hs.locals_eq, Option.isSome_some, if_true, wp_bind, wp_setPartialMessage,
      wp_replaceLastInContext, dropLast_concat]
    apply wp_emit
    intro r raised _
    have hstarted : InStream base new messages (((LoopWorld.emitted
        { s with locals := ⟨base ++ [.assistant part], new, some part⟩ }
        (.messageUpdate part (.update part)))).abort raised) :=
      .started ⟨rfl, hs.narrates.aside rfl rfl⟩
    cases r with
    | error error => exact fun _ => hstarted
    | ok _ => exact hnext _ hstarted

lemma streamEvents_responded (fuel : ℕ) (h : InStream base new messages s) :
    (streamEvents fuel).wp conforming.Handler (StreamEnd base new messages) s := by
  induction fuel generalizing s with
  | zero => trivial
  | succ fuel ih =>
    have hfinish : ∀ message s', InStream base new messages s' →
        (finishMessage message).wp conforming.Handler (StreamEnd base new messages) s' := by
      intro message s' hs'
      refine wp_mono (finishMessage_responded message hs') ?_
      rintro (error | result) s'' h
      · intro herror
        rw [h] at herror
        cases herror
      · exact h
    have hres : ∀ {p : LoopProgram AssistantMessage} s', Aside p →
        InStream base new messages s' →
        (p >>= finishMessage).wp conforming.Handler (StreamEnd base new messages) s' := by
      intro p s' hp hs'
      rw [wp_bind]
      refine wp_mono (hs'.aside hp) ?_
      rintro (error | message) s'' hs''
      · exact fun _ => hs''
      · exact hfinish message s'' hs''
    rw [streamEvents, wp_bind]
    refine wp_mono (nextEvent_inStream h) ?_
    rintro (error | event) s₁ ⟨hs₁, hstart⟩
    · exact fun _ => hs₁
    · cases event with
      | none =>
        show (raceCall .result >>= finishMessage).wp conforming.Handler
            (StreamEnd base new messages) s₁
        exact hres s₁ (aside_raceCall _) hs₁
      | some event =>
        cases event with
        | start part => exact start_inStream (hstart part rfl) fun s' => ih
        | update part => exact update_inStream hs₁ fun s' => ih
        | done message | error message => exact hres s₁ (aside_resultOr message) hs₁

section
variable (config : AgentLoopConfig)
include config

lemma createAbortedAssistantMessage_aside (part : Option AssistantMessage) :
    Aside (createAbortedAssistantMessage config part) :=
  aside_now.bind fun _ => aside_pure _

lemma finishAbortedMessage_responded (h : InStream base new messages s) :
    (finishAbortedMessage config).Returns conforming.Handler
      (fun message s' => Responded base new messages message s') s := by
  rw [Returns, finishAbortedMessage, wp_bind, wp_read]
  show (createAbortedAssistantMessage config _ >>= finishMessage).wp conforming.Handler _ s
  rw [wp_bind]
  refine wp_mono (h.aside (createAbortedAssistantMessage_aside config _)) ?_
  rintro (error | message) s₁ hs₁
  · rintro _ ⟨⟩
  · refine wp_mono (finishMessage_responded message hs₁) ?_
    rintro (error | result) s₂ hs₂
    · rintro _ ⟨⟩
    · rintro _ ⟨⟩
      exact hs₂

/-- An abort is taken care of; any other error is an end of the run. -/
lemma catchAbort_responded {error : LoopError}
    (h : isAbortError error = true → InStream base new messages s) :
    (do
      if (← isAborted) && isAbortError error then
        finishAbortedMessage config
      else
        throw error : LoopProgram AssistantMessage).Returns conforming.Handler
      (fun message s' => Responded base new messages message s') s := by
  cases herror : isAbortError error with
  | true =>
    rw [Returns, wp_bind]
    refine wp_mono ((h herror).aside aside_isAborted) ?_
    rintro (error' | aborted) s₁ hs₁
    · rintro _ ⟨⟩
    · cases aborted with
      | true => exact finishAbortedMessage_responded config hs₁
      | false => rintro _ ⟨⟩
  | false =>
    rw [Returns, wp_bind]
    rintro r _ ⟨⟨⟩, _⟩
    simp only [Bool.and_false, Bool.false_eq_true, if_false]
    rintro _ ⟨⟩

/-- A response ends with a message, told of and at the end of the context, also when it is
aborted. -/
lemma streamAssistantResponse_responded (fuel : ℕ) {part : Option AssistantMessage}
    (hs : s.Told ⟨base, new, part⟩ messages none) :
    (streamAssistantResponse config fuel).Returns conforming.Handler
      (fun message s' => Responded base new messages message s') s := by
  rw [Returns, streamAssistantResponse, wp_bind, wp_setPartialMessage, hs.locals_eq]
  show (MonadExcept.tryCatch _ _ : LoopProgram AssistantMessage).wp conforming.Handler _ _
  rw [Program.wp_tryCatch, wp_bind]
  have hbefore : InStream base new messages { s with locals := ⟨base, new, none⟩ } :=
    .before ⟨rfl, hs.narrates⟩
  refine wp_mono (hbefore.aside (aside_requestResponse config)) ?_
  rintro (error | _) s₁ hs₁
  · exact catchAbort_responded config fun _ => hs₁
  · refine wp_mono (streamEvents_responded fuel hs₁) ?_
    rintro (error | message) s₂ hs₂
    · exact catchAbort_responded config hs₂
    · rintro _ ⟨⟩
      exact hs₂

end

end Response

/-! ## Tool results -/

/-- A call that was executed is told of by its result. -/
lemma answerToolCall_told (finalized : FinalizedToolCall) (hs : s.Told locals messages none) :
    (answerToolCall finalized).Returns C.Handler
      (fun result s' => s'.Told locals (messages ++ [.toolResult result]) none) s := by
  refine ((aside_createToolResultMessage finalized).returns (stable_told _ _ _) hs).bind ?_
  intro result s₁ hs₁
  refine (emitMessage_told (.toolResult result) hs₁).bind fun _ s₂ hs₂ => ?_
  exact returns_pure hs₂

lemma answerToolCalls_told (finalizedCalls : List FinalizedToolCall)
    (hs : s.Told locals messages none) :
    (answerToolCalls finalizedCalls).Returns C.Handler
      (fun results s' => s'.Told locals (messages ++ results.map .toolResult) none) s := by
  induction finalizedCalls generalizing s messages with
  | nil =>
    refine returns_pure ?_
    rw [map_nil, append_nil]
    exact hs
  | cons finalized finalizedCalls ih =>
    refine (answerToolCall_told finalized hs).bind fun result s₁ hs₁ => ?_
    refine (ih hs₁).bind fun results s₂ hs₂ => returns_pure ?_
    rw [map_cons, append_cons]
    exact hs₂

lemma executeEachToolCall_told (config : AgentLoopConfig) (toolCalls : List ToolCall)
    (hs : s.Told locals messages none) :
    (executeEachToolCall config toolCalls).Returns C.Handler
      (fun executed s' =>
        s'.Told locals (messages ++ (executed.map Prod.snd).map .toolResult) none) s := by
  induction toolCalls generalizing s messages with
  | nil =>
    refine returns_pure ?_
    rw [map_nil, map_nil, append_nil]
    exact hs
  | cons toolCall toolCalls ih =>
    refine (aside_isAborted.returns (stable_told _ _ _) hs).bind fun aborted s₁ hs₁ => ?_
    cases aborted with
    | true =>
      refine returns_pure ?_
      rw [map_nil, map_nil, append_nil]
      exact hs₁
    | false =>
      refine ((asideWith_executeToolCall config toolCall).aside.returns (stable_told _ _ _)
        hs₁).bind fun finalized s₂ hs₂ => ?_
      refine (answerToolCall_told finalized hs₂).bind fun result s₃ hs₃ => ?_
      refine (aside_isAborted.returns (stable_told _ _ _) hs₃).bind fun aborted s₄ hs₄ => ?_
      cases aborted with
      | true => exact returns_pure hs₄
      | false =>
        refine (ih hs₄).bind fun executed s₅ hs₅ => returns_pure ?_
        rw [map_cons, map_cons, append_cons]
        exact hs₅

lemma executeToolCalls_told (config : AgentLoopConfig) (fuel : ℕ) (toolCalls : List ToolCall)
    (hs : s.Told locals messages none) :
    (executeToolCalls config fuel toolCalls).Returns C.Handler
      (fun batch s' => s'.Told locals (messages ++ batch.messages.map .toolResult) none) s := by
  rw [executeToolCalls]
  split_ifs
  · refine (executeEachToolCall_told config toolCalls hs).bind fun executed s₁ hs₁ => ?_
    exact returns_pure hs₁
  · refine ((asideWith_startEachToolCall config toolCalls).returns (stable_told _ _ _) hs).bind ?_
    rintro finalizedCalls s₁ ⟨hfinalized, hs₁⟩
    refine ((asideWith_all fuel hfinalized).returns (stable_told _ _ _) hs₁).bind ?_
    rintro ordered s₂ ⟨_, hs₂⟩
    refine (answerToolCalls_told ordered hs₂).bind fun results s₃ hs₃ => ?_
    exact returns_pure hs₃

/-! ## Turns -/

section Turns

variable {initial new told : List AgentMessage} {part : Option AssistantMessage}

/-- Between the messages of a run: the context has gained those that have been told. -/
def Between (initial : List AgentMessage) (s : LoopWorld) : Prop :=
  ∃ new part, s.Told ⟨initial ++ new, new, part⟩ new none

/-- The end of a run. -/
def Ended (initial : List AgentMessage) (s : LoopWorld) : Prop :=
  ∃ new part before, s.locals = ⟨initial ++ new, new, part⟩ ∧
    s.events = before ++ [.agentEnd new] ∧ Narrates before new none

/-- The run is over, if the value says so. -/
def Continues {α : Type} (initial : List AgentMessage) (value : Option α) (s : LoopWorld) : Prop :=
  match value with
  | none => Ended initial s
  | some _ => Between initial s

lemma stable_between (initial : List AgentMessage) : Stable (Between initial) where
  abort := by
    rintro s raised ⟨new, part, hs⟩
    exact ⟨new, part, (stable_told _ _ _).abort s raised hs⟩
  emitted := by
    rintro s event hbound hend ⟨new, part, hs⟩
    exact ⟨new, part, (stable_told _ _ _).emitted s event hbound hend hs⟩

lemma emitAgentEnd_ended (hs : Between initial s) :
    emitAgentEnd.Returns C.Handler (fun _ s' => Ended initial s') s := by
  obtain ⟨new, part, hs⟩ := hs
  rw [Returns, emitAgentEnd, wp_bind, wp_read]
  apply wp_emit
  intro r raised _ _ _
  rw [hs.locals_eq]
  exact ⟨new, part, s.events, hs.locals_eq, rfl, hs.narrates⟩

/-- The run is over. -/
lemma endRun_continues (hs : Between initial s) : (do
      emitAgentEnd
      return none : LoopProgram (Option α)).Returns C.Handler (Continues initial) s :=
  (emitAgentEnd_ended hs).bind fun _ _ hs₁ => returns_pure hs₁

lemma injectMessages_between (pending : List AgentMessage) (hs : Between initial s) :
    (injectMessages pending).Returns C.Handler (fun _ s' => Between initial s') s := by
  induction pending generalizing s with
  | nil => exact returns_pure hs
  | cons message pending ih =>
    obtain ⟨new, part, hs⟩ := hs
    refine (emitMessage_told message hs).bind fun _ s₁ hs₁ => ?_
    rw [Returns, wp_bind, wp_pushContext, wp_bind, wp_pushNew]
    refine ih ⟨new ++ [message], part, ?_, hs₁.narrates⟩
    simp only [hs₁.locals_eq, append_assoc]

lemma pushToolResults_told (results : List ToolResultMessage)
    (hs : s.Told ⟨initial ++ new, new, part⟩ told none) :
    (pushToolResults results).Returns C.Handler (fun _ s' => s'.Told
      ⟨initial ++ (new ++ results.map .toolResult), new ++ results.map .toolResult, part⟩
        told none) s := by
  induction results generalizing s new with
  | nil =>
    refine returns_pure ?_
    rw [map_nil, append_nil]
    exact hs
  | cons result results ih =>
    rw [pushToolResults, Returns, wp_bind, wp_pushContext, wp_bind,
      wp_pushNew, map_cons, append_cons]
    refine ih ⟨?_, hs.narrates⟩
    simp only [hs.locals_eq, append_assoc]

/-- What tells of nothing leaves the run between two messages. -/
lemma Aside.between {p : LoopProgram α} (h : Aside p) (hs : Between initial s) :
    p.Returns C.Handler (fun _ s' => Between initial s') s :=
  h.returns (stable_between initial) hs

section
variable (config : AgentLoopConfig)
include config

lemma afterTurn_continues (hasMoreToolCalls : Bool) (hs : Between initial s) :
    (afterTurn config hasMoreToolCalls).Returns C.Handler (Continues initial) s := by
  refine (aside_isAborted.between hs).bind fun aborted s₁ hs₁ => ?_
  cases aborted with
  | true => exact endRun_continues hs₁
  | false =>
    refine (((aside_call _).callIf _ _).between hs₁).bind fun shouldStop s₂ hs₂ => ?_
    refine ((aside_raceWithAbort shouldStop).settlePostTurn.between hs₂).bind ?_
    rintro (_ | stop) s₃ hs₃
    · exact endRun_continues hs₃
    · have hbefore : Aside (if stop = true then pure true else shouldStopBeforeTurn config false) :=
        .ite (aside_pure _) (aside_shouldStopBeforeTurn config false)
      refine (hbefore.between hs₃).bind fun stop' s₄ hs₄ => ?_
      cases stop' with
      | true => exact endRun_continues hs₄
      | false =>
        refine ((aside_poll _ (aside_call _)).settlePostTurn.between hs₄).bind ?_
        rintro (_ | pending) s₅ hs₅
        · exact endRun_continues hs₅
        · have hafter : Aside (if pending.isEmpty = true then shouldStopBeforeTurn config false
              else pure false) :=
            .ite (aside_shouldStopBeforeTurn config false) (aside_pure _)
          refine (hafter.between hs₅).bind fun stop'' s₆ hs₆ => ?_
          cases stop'' with
          | true => exact endRun_continues hs₆
          | false => exact returns_pure hs₆

/-- What follows a response that the context has and that has been told of. -/
lemma finishTurn_continues (fuel : ℕ) (message : AssistantMessage) (hs : Between initial s) :
    (finishTurn config fuel message).Returns C.Handler (Continues initial) s := by
  have hturnEnd : ∀ results, Aside (emit (.turnEnd message results)) := fun _ => aside_emit rfl rfl
  rw [finishTurn]
  split_ifs
  · exact ((hturnEnd []).between hs).bind fun _ s₁ hs₁ => endRun_continues hs₁
  · exact ((hturnEnd []).between hs).bind fun _ s₁ hs₁ => afterTurn_continues config _ hs₁
  · obtain ⟨new, part, hs⟩ := hs
    refine (executeToolCalls_told config fuel message.toolCalls hs).bind fun batch s₁ hs₁ => ?_
    refine (pushToolResults_told batch.messages hs₁).bind fun _ s₂ hs₂ => ?_
    have hbetween : Between initial s₂ := ⟨_, _, hs₂⟩
    exact ((hturnEnd _).between hbetween).bind fun _ s₃ hs₃ => afterTurn_continues config _ hs₃

/-- A turn: messages are injected, a response is streamed, its tools are executed. -/
lemma runTurn_continues (fuel : ℕ) (firstTurn : Bool) (pending : List AgentMessage)
    (hs : Between initial s) :
    (runTurn config fuel firstTurn pending).Returns conforming.Handler (Continues initial) s := by
  have hturnStart : Aside (emit .turnStart) := aside_emit rfl rfl
  refine (aside_throwIfAborted.between hs).bind fun _ s₁ hs₁ => ?_
  refine ((hturnStart.runIf _).between hs₁).bind fun _ s₂ hs₂ => ?_
  refine (injectMessages_between pending hs₂).bind fun _ s₃ hs₃ => ?_
  obtain ⟨new, part, hs₃⟩ := hs₃
  refine (streamAssistantResponse_responded config fuel hs₃).bind fun message s₄ hs₄ => ?_
  rw [Returns, wp_bind, wp_pushNew]
  refine finishTurn_continues config fuel message ⟨new ++ [.assistant message],
    s₄.locals.partialMessage, ?_, hs₄.narrates⟩
  simp only [hs₄.context, hs₄.newMessages, append_assoc]

lemma runTurns_continues (fuel : ℕ) (firstTurn : Bool) (outcome : TurnOutcome)
    (hs : Between initial s) :
    (runTurns config fuel firstTurn outcome).Returns conforming.Handler (Continues initial) s := by
  induction fuel generalizing firstTurn outcome s with
  | zero => trivial
  | succ fuel ih =>
    rw [runTurns]
    split_ifs
    · refine (runTurn_continues config fuel firstTurn _ hs).bind ?_
      rintro (_ | outcome') s₁ hs₁
      · exact returns_pure hs₁
      · exact ih false outcome' hs₁
    · exact returns_pure hs

lemma nextMessages_continues (hs : Between initial s) :
    (nextMessages config).Returns C.Handler (Continues initial) s := by
  refine ((aside_shouldStopBeforeTurn config false).between hs).bind fun stop s₁ hs₁ => ?_
  cases stop with
  | true => exact endRun_continues hs₁
  | false =>
    refine ((aside_poll _ (aside_call _)).settlePostTurn.between hs₁).bind ?_
    rintro (_ | followUp) s₂ hs₂
    · exact endRun_continues hs₂
    · by_cases hfollowUp : (!followUp.isEmpty) = true
      · simp only [hfollowUp, if_true]
        exact returns_pure hs₂
      · simp only [hfollowUp]
        refine ((aside_shouldStopBeforeTurn config false).between hs₂).bind fun stop s₃ hs₃ => ?_
        cases stop with
        | true => exact endRun_continues hs₃
        | false =>
          refine (((aside_call _).callIf _ _).between hs₃).bind fun continuation s₄ hs₄ => ?_
          refine ((aside_raceWithAbort continuation).settlePostTurn.between hs₄).bind ?_
          rintro (_ | messages) s₅ hs₅
          · exact endRun_continues hs₅
          · dsimp only
            split_ifs
            · exact returns_pure hs₅
            · exact endRun_continues hs₅

lemma runLoopFrom_ended (fuel : ℕ) (firstTurn : Bool) (pending : List AgentMessage)
    (hs : Between initial s) :
    (runLoopFrom config fuel firstTurn pending).Returns conforming.Handler
      (fun _ s' => Ended initial s') s := by
  induction fuel generalizing firstTurn pending s with
  | zero => trivial
  | succ fuel ih =>
    refine (aside_throwIfAborted.between hs).bind fun _ s₁ hs₁ => ?_
    refine (runTurns_continues config fuel firstTurn _ hs₁).bind ?_
    rintro (_ | _) s₂ hs₂
    · exact returns_pure hs₂
    · refine (nextMessages_continues config hs₂).bind ?_
      rintro (_ | messages) s₃ hs₃
      · exact returns_pure hs₃
      · exact ih false messages hs₃

lemma runLoop_ended (fuel : ℕ) (hs : Between initial s) :
    (runLoop config fuel).Returns conforming.Handler (fun _ s' => Ended initial s') s := by
  refine ((aside_poll _ (aside_call _)).between hs).bind fun pending s₁ hs₁ => ?_
  exact runLoopFrom_ended config fuel true pending hs₁

end

end Turns

/-! ## Runs -/

lemma Ended.describes {initial messages : List AgentMessage} (hs : Ended initial s)
    (hmsgs : s.locals.newMessages = messages) : Describes initial messages s := by
  obtain ⟨new, part, before, hlocals, hevents, hnarrates⟩ := hs
  have hnew : new = messages := by rw [← hmsgs, hlocals]
  subst hnew
  obtain ⟨starts, hstarts, hpairs⟩ := hnarrates.filter_isBoundary
  refine ⟨by rw [hlocals], ?_, ⟨starts, hstarts, ?_⟩, ⟨before, hevents, ?_⟩⟩
  · rw [hevents, filterMap_append, hnarrates.filterMap_messageEnd?]
    exact append_nil _
  · rw [hevents, filter_append, hpairs]
    simp [AgentEvent.isBoundary]
  · exact hnarrates.isAgentEnd_eq_false

section
variable (config : AgentLoopConfig) (fuel : ℕ)
include config fuel

/-- A run that returns has come to its end. -/
lemma returns_of_runLoop {initial : List AgentMessage} (hs : Between initial s) : (do
      runLoop config fuel
      return (← read).newMessages : LoopProgram (List AgentMessage)).Returns conforming.Handler
      (Describes initial) s := by
  refine (runLoop_ended config fuel hs).bind fun _ s₁ hs₁ => ?_
  rw [Returns, wp_bind, wp_read]
  rintro _ ⟨⟩
  exact hs₁.describes rfl

lemma runAgentLoop_describes (prompts context : List AgentMessage) (aborted : Bool) :
    (runAgentLoop config fuel prompts).Returns conforming.Handler (Describes context)
      (LoopWorld.initial context aborted) := by
  have hstart : Aside (emit .agentStart) := aside_emit rfl rfl
  have hturn : Aside (emit .turnStart) := aside_emit rfl rfl
  rw [runAgentLoop, Returns, wp_bind, wp_read]
  dsimp only
  rw [wp_bind, wp_write]
  have hs : Told ⟨context ++ prompts, prompts, none⟩ [] none
      ⟨⟨context ++ prompts, prompts, none⟩, [], aborted⟩ := ⟨rfl, .nil⟩
  refine (hstart.returns (stable_told _ _ _) hs).bind fun _ s₁ hs₁ => ?_
  refine (hturn.returns (stable_told _ _ _) hs₁).bind fun _ s₂ hs₂ => ?_
  refine (emitMessages_told prompts hs₂).bind fun _ s₃ hs₃ => ?_
  exact returns_of_runLoop config fuel ⟨prompts, none, hs₃⟩

lemma runAgentLoopContinue_describes (context : List AgentMessage) (aborted : Bool) :
    (runAgentLoopContinue config fuel).Returns conforming.Handler (Describes context)
      (LoopWorld.initial context aborted) := by
  have hstart : Aside (emit .agentStart) := aside_emit rfl rfl
  have hturn : Aside (emit .turnStart) := aside_emit rfl rfl
  rw [runAgentLoopContinue, Returns, wp_bind, wp_read]
  dsimp only
  cases (LoopWorld.initial context aborted).locals.messages.getLast? with
  | none => rintro _ ⟨⟩
  | some last =>
    dsimp only
    split_ifs
    · rintro _ ⟨⟩
    · rw [wp_bind, wp_write]
      have hs : Told ⟨context ++ [], [], none⟩ [] none ⟨⟨context, [], none⟩, [], aborted⟩ :=
        ⟨by rw [append_nil], .nil⟩
      refine (hstart.returns (stable_told _ _ _) hs).bind fun _ s₁ hs₁ => ?_
      refine (hturn.returns (stable_told _ _ _) hs₁).bind fun _ s₂ hs₂ => ?_
      exact returns_of_runLoop config fuel ⟨[], none, hs₂⟩

end

end AgentLoop

/-- **Agent events describe the transcript**: in a run of the loop that returns, with streams that
start once and a sink that does not reject the announcement of a response with an abort error. -/
theorem describes_of_run {config : AgentLoopConfig} {fuel : ℕ} {kind : RunKind}
    {context messages : List AgentMessage} {aborted : Bool} {s : LoopWorld}
    (hrun : Ends LoopWorld.Conforming (kind.program config fuel)
      (LoopWorld.initial context aborted) (.ok messages) s) :
    Describes context messages s := by
  cases kind with
  | prompt prompts =>
    exact hrun.of_returns (runAgentLoop_describes config fuel prompts context aborted)
  | resume => exact hrun.of_returns (runAgentLoopContinue_describes config fuel context aborted)

/-! ## Two runs -/

section Played

/-- Hooks that ask for nothing, and a provider whose stream goes on as `next` says. -/
def played (next : LoopWorld → Option AssistantMessageEvent) (reply : AssistantMessage)
    (s : LoopWorld) (_ : Unit) : (e : LoopEffect) → Except LoopError e.Answer × LoopWorld × Unit
  | .emit event => (.ok (), (s.emitted event).abort false, ())
  | .isAborted => (.ok (s.abort false).aborted, s.abort false, ())
  | .wait => (.ok false, s.abort false, ())
  | .call .nextEvent => (.ok (.ok (next s)), s.abort false, ())
  | .call .result => (.ok (.ok reply), s.abort false, ())
  | .call .transformContext => (.ok (.ok ()), s.abort false, ())
  | .call .convertToLlm => (.ok (.ok ()), s.abort false, ())
  | .call .getApiKey => (.ok (.ok ()), s.abort false, ())
  | .call .streamFunction => (.ok (.ok ()), s.abort false, ())
  | .call .shouldStopAfterTurn => (.ok (.ok false), s.abort false, ())
  | .call .getSteeringMessages => (.ok (.ok []), s.abort false, ())
  | .call .getFollowUpMessages => (.ok (.ok []), s.abort false, ())
  | .call .getContinuationMessages => (.ok (.ok []), s.abort false, ())
  | .call (.beforeToolCall _ _) => (.ok (.ok none), s.abort false, ())
  | .call (.execute _ _) => (.ok (.ok ⟨[], none, none⟩), s.abort false, ())
  | .call (.afterToolCall _ _ _) => (.ok (.ok none), s.abort false, ())
  | .updates _ => (.ok [], s.abort false, ())
  | .getSystemPrompt => (.ok (), s.abort false, ())
  | .shouldStopBeforeTurn => (.ok false, s.abort false, ())
  | .prepareArguments _ => (.ok (), s.abort false, ())
  | .validateToolArguments toolCall => (.ok toolCall.arguments, s.abort false, ())
  | .now => (.ok 0, s, ())
  | .read => (.ok s.locals, s, ())
  | .write locals => (.ok (), { s with locals }, ())

lemma answers_played (next : LoopWorld → Option AssistantMessageEvent) (reply : AssistantMessage)
    (s : LoopWorld) (e : LoopEffect) :
    s.Answers e (played next reply s () e).1 (played next reply s () e).2.1 := by
  cases e with
  | emit event => exact .emit _
  | isAborted => exact .isAborted
  | wait => exact .wait nofun
  | call c => cases c <;> exact .call _
  | updates toolCall => exact .updates _
  | getSystemPrompt => exact .getSystemPrompt _
  | shouldStopBeforeTurn => exact .shouldStopBeforeTurn _
  | prepareArguments toolCall => exact .prepareArguments _
  | validateToolArguments toolCall => exact .validateToolArguments _
  | now => exact .now _
  | read => exact .read
  | write locals => exact .write

/-- Without hooks and tools. -/
def bareConfig : AgentLoopConfig where
  api := "messages"
  provider := "example"
  modelId := "model"
  tools := []
  toolExecution := none
  transformContext := false
  getSystemPrompt := false
  getApiKey := false
  shouldStopAfterTurn := false
  shouldStopBeforeTurn := false
  getSteeringMessages := false
  getFollowUpMessages := false
  getContinuationMessages := false
  beforeToolCall := false
  afterToolCall := false

def plainReply : AssistantMessage :=
  { content := [.text { text := "Hello." }], api := "messages", provider := "example",
    model := "model", usage := emptyUsage, stopReason := .stop, timestamp := 0 }

/-- A stream that starts once. -/
def startsOnce (s : LoopWorld) : Option AssistantMessageEvent :=
  if s.locals.partialMessage = none then some (.start plainReply) else some (.done plainReply)

/-- A stream that starts again. -/
def startsTwice (s : LoopWorld) : Option AssistantMessageEvent :=
  if s.locals.messages.length < 2 then some (.start plainReply) else some (.done plainReply)

lemma conforming_startsOnce (s : LoopWorld) (e : LoopEffect) :
    s.Conforming e (played startsOnce plainReply s () e).1
      (played startsOnce plainReply s () e).2.1 := by
  refine ⟨answers_played startsOnce plainReply s e, ?_⟩
  cases e with
  | call c =>
    cases c with
    | nextEvent =>
      show s.Conforms (.call .nextEvent) (.ok (.ok (startsOnce s)))
      rw [startsOnce]
      split_ifs with hnone
      · exact hnone
      · trivial
    | _ => trivial
  | emit event => cases event <;> trivial
  | _ => trivial

end Played

/-- A reply that is streamed, to no prompt. -/
theorem describes_of_run_reply : ∃ s, Ends LoopWorld.Conforming
    ((RunKind.prompt []).program bareConfig 9) (.initial [] false)
      (.ok [.assistant plainReply]) s ∧ Describes [] [.assistant plainReply] s := by
  have hrun := Ends.of_play (fun s _ e => conforming_startsOnce s e)
    (p := (RunKind.prompt []).program bareConfig 9) (s := .initial [] false) (t := ()) rfl
  exact ⟨_, hrun, describes_of_run hrun⟩

/-- A stream that starts twice: the context has two messages more, the events tell of one. -/
theorem not_describes_startsTwice : ¬ ∀ (config : AgentLoopConfig) (fuel : ℕ) (kind : RunKind)
    (context messages : List AgentMessage) (aborted : Bool) (s : LoopWorld),
      Ends LoopWorld.Answers (kind.program config fuel) (.initial context aborted)
        (.ok messages) s → Describes context messages s := by
  intro hall
  have hrun := Ends.of_play (fun s _ e => answers_played startsTwice plainReply s e)
    (p := (RunKind.prompt []).program bareConfig 9) (s := .initial [] false) (t := ()) rfl
  have hcontext := (hall _ _ _ _ _ _ _ hrun).context
  exact absurd (congrArg List.length hcontext) (by decide)

end Amide
