import Amide.Properties.Agent.Transcript

/-!
# Tool results in the messages of a run

Every response that a run gets is followed by the results of its tool calls, one for each call and
in their order (`Paired`).  Calls that are executed one after the other are the exception, where an
abort leaves the rest of them without results; the run is over then (`RunMessages.cut`).  So it is
when the sink rejects an event while tools are executed.

`Has` is what a run keeps track of: the messages it has, and those whose end it has told of.  They
differ while a message is told of that the run does not have yet.  Most of a run is asides, which
change neither; that executing a tool throws nothing, unless the sink does, is a matter of its own
(`Unfailing`).
-/

namespace Amide

open AgentLoop List
open Program (Always Ends Ensures ensures_pure wp_bind wp_mono)
open AgentMessage (assistant)

/-! ## What is claimed -/

/-- The calls that results are due for: none, when the response failed. -/
def AssistantMessage.dueCalls (message : AssistantMessage) : List ToolCall :=
  if message.stopReason = .error ∨ message.stopReason = .aborted then [] else message.toolCalls

/-- Messages handed in, and responses with the results of their calls. -/
inductive Paired (P : AgentMessage → Prop) : List AgentMessage → Prop
  | nil : Paired P []
  | handed {messages : List AgentMessage} {message : AgentMessage} (h : Paired P messages)
      (hmessage : P message) : Paired P (messages ++ [message])
  | answered {messages : List AgentMessage} {message : AssistantMessage}
      {results : List ToolResultMessage} (h : Paired P messages)
      (hresults : results.map (·.toolCallId) = message.dueCalls.map (·.id)) :
      Paired P (messages ++ .assistant message :: results.map .toolResult)

variable {messages : List AgentMessage}

lemma Paired.answered_nil {P : AgentMessage → Prop} {message : AssistantMessage}
    (h : Paired P messages) (hdue : message.dueCalls = []) :
    Paired P (messages ++ [.assistant message]) := by
  have hresults : ([] : List ToolResultMessage).map (·.toolCallId) =
      message.dueCalls.map (·.id) := by
    rw [hdue, map_nil, map_nil]
  exact h.answered hresults

/-- The run has the messages `new`, and has told of the end of those of `told`, as far as the sink
accepts every event. -/
structure Has (accepting : Prop) (new told : List AgentMessage) (s : LoopWorld) : Prop where
  newMessages : s.locals.newMessages = new
  told : accepting → s.events.filterMap AgentEvent.messageEnd? = told

/-- The calls are executed one after the other. -/
def AgentLoopConfig.Sequential (config : AgentLoopConfig) (toolCalls : List ToolCall) : Prop :=
  config.toolExecution = some .sequential ∨ ∃ toolCall ∈ toolCalls,
    ((config.tools.find? fun t => t.name = toolCall.name).bind (·.executionMode)) = some .sequential

/-- The messages of a run, which has failed or not: the last response may have results for the first
of its calls only. -/
inductive RunMessages (config : AgentLoopConfig) (P : AgentMessage → Prop) (accepting failed : Prop)
    (s : LoopWorld) : Prop
  | paired {new : List AgentMessage} (h : Paired P new) (hs : Has accepting new new s)
  | cut {before new : List AgentMessage} {message : AssistantMessage}
      {results : List ToolResultMessage} (h : Paired P before)
      (hnew : new = before ++ .assistant message :: results.map .toolResult)
      (hs : Has accepting new new s)
      (hresults : results.map (·.toolCallId) <+: message.dueCalls.map (·.id))
      (hcut : s.aborted = true ∧ config.Sequential message.dueCalls ∨ failed ∧ ¬ accepting)

/-- Hooks hand in messages with `P` only, and the sink rejects nothing if it is accepting. -/
def LoopWorld.Hands (P : AgentMessage → Prop) (accepting : Prop) (_ : LoopWorld) :
    (e : LoopEffect) → Except LoopError e.Answer → Prop
  | .call .getSteeringMessages, .ok (.ok messages) => ∀ message ∈ messages, P message
  | .call .getFollowUpMessages, .ok (.ok messages) => ∀ message ∈ messages, P message
  | .call .getContinuationMessages, .ok (.ok messages) => ∀ message ∈ messages, P message
  | .emit _, .error _ => ¬ accepting
  | _, _ => True

def handing (P : AgentMessage → Prop) (accepting : Prop) : LoopCondition :=
  ⟨LoopWorld.Hands P accepting, fun _ _ => trivial, fun _ _ _ => trivial⟩

def RunKind.prompts : RunKind → List AgentMessage
  | prompt prompts => prompts
  | resume => []

namespace AgentLoop

open LoopWorld

variable {P : AgentMessage → Prop} {accepting : Prop} {s : LoopWorld}
  {new told : List AgentMessage}

/-! ## Executing tools throws nothing -/

variable (finalized : FinalizedToolCall) (fuel : ℕ)

section Unfailing

variable {α β : Type} {R : α → Prop} {S : β → Prop} {p : LoopProgram α}

/-- When the sink rejects nothing, the program throws no error, and its values have `R`. -/
def Yields (P : AgentMessage → Prop) (R : α → Prop) (p : LoopProgram α) : Prop :=
  p.Always (handing P True).Handler (fun _ => True) fun r => ∃ a, r = .ok a ∧ R a

def Unfailing (P : AgentMessage → Prop) (p : LoopProgram α) : Prop :=
  Yields P (fun _ => True) p

lemma always_true (p : LoopProgram α) :
    p.Always (handing P True).Handler (fun _ => True) fun _ => True := by
  induction p with
  | pure a => trivial
  | throw error => trivial
  | perform e k ih => exact fun _ r _ _ _ => ⟨trivial, ih r⟩
  | choose n k ih => exact ih
  | spent => trivial

lemma yields_pure {a : α} (h : R a) : Yields P R (pure a : LoopProgram α) := ⟨a, rfl, h⟩

lemma unfailing_pure (a : α) : Unfailing P (pure a : LoopProgram α) := yields_pure trivial

lemma Yields.bind {p : LoopProgram β} {f : β → LoopProgram α} (h : Yields P S p)
    (hf : ∀ b, S b → Yields P R (f b)) : Yields P R (p >>= f) := by
  refine Always.bind h ?_ ?_
  · rintro b ⟨_, ⟨⟩, hb⟩
    exact hf b hb
  · rintro error ⟨_, ⟨⟩, _⟩

lemma Unfailing.bind {p : LoopProgram β} {f : β → LoopProgram α} (h : Unfailing P p)
    (hf : ∀ b, Yields P R (f b)) : Yields P R (p >>= f) :=
  Yields.bind h fun b _ => hf b

lemma Yields.ite {c : Prop} [Decidable c] {q : LoopProgram α} (hp : Yields P R p)
    (hq : Yields P R q) : Yields P R (if c then p else q) := by
  split_ifs
  · exact hp
  · exact hq

lemma unfailing_attempt (p : LoopProgram α) : Unfailing P p.attempt :=
  (always_true p).attempt fun r _ => ⟨r, rfl, trivial⟩

/-- An error is caught. -/
lemma unfailing_tryCatch (p : LoopProgram α) {handle : LoopError → LoopProgram α}
    (h : ∀ error, Unfailing P (handle error)) : Unfailing P (MonadExcept.tryCatch p handle) :=
  (always_true p).tryCatch (fun a _ => ⟨a, rfl, trivial⟩) fun error _ => h error

lemma unfailing_effect {e : LoopEffect}
    (h : ∀ s r s', (handing P True).Handler s e r s' → ∃ a, r = .ok a) :
    Unfailing P (Program.effect e) := by
  apply Always.effect
  intro s r s' _ hanswer
  obtain ⟨a, ha⟩ := h s r s' hanswer
  exact ⟨trivial, a, ha, trivial⟩

lemma unfailing_emit (event : AgentEvent) : Unfailing P (emit event) := by
  refine unfailing_effect ?_
  rintro s (error | a) s' ⟨_, haccepts⟩
  · exact absurd trivial haccepts
  · exact ⟨a, rfl⟩

lemma unfailing_isAborted : Unfailing P isAborted :=
  unfailing_effect fun _ _ _ h => by cases h.1; exact ⟨_, rfl⟩

lemma unfailing_prepareToolCall (config : AgentLoopConfig) (toolCall : ToolCall) :
    Unfailing P (prepareToolCall config toolCall) := by
  rw [prepareToolCall]
  cases config.tools.find? fun tool => tool.name = toolCall.name with
  | none => exact unfailing_pure _
  | some tool => exact unfailing_tryCatch _ fun error => unfailing_pure _

lemma unfailing_finishImmediate : Unfailing P (finishImmediate finalized) :=
  (unfailing_emit _).bind fun _ => unfailing_pure _

section
variable (config : AgentLoopConfig) (toolCall : ToolCall)
include config toolCall

lemma unfailing_runPreparedToolCall (args : Json) :
    Unfailing P (runPreparedToolCall config toolCall args) := by
  have hexecute : Unfailing P (executePreparedToolCall toolCall args) := by
    refine unfailing_tryCatch _ fun error => (unfailing_attempt _).bind fun _ => ?_
    exact unfailing_isAborted.bind fun aborted => .ite (unfailing_pure _) (unfailing_pure _)
  refine hexecute.bind fun executed => Unfailing.bind ?_ fun finalized => ?_
  · exact .ite (unfailing_pure _) (unfailing_tryCatch _ fun error => unfailing_pure _)
  · exact (unfailing_emit _).bind fun _ => unfailing_pure _

lemma unfailing_executeToolCall : Unfailing P (executeToolCall config toolCall) := by
  refine (unfailing_emit _).bind fun _ => ?_
  refine (unfailing_prepareToolCall config toolCall).bind fun preparation => ?_
  cases preparation with
  | immediate result isError => exact unfailing_finishImmediate _
  | prepared toolCall args => exact unfailing_runPreparedToolCall config toolCall args

/-- What is left of a call throws nothing either. -/
lemma yields_startToolCall : Yields P (Unfailing P) (startToolCall config toolCall) := by
  refine (unfailing_emit _).bind fun _ => ?_
  refine (unfailing_prepareToolCall config toolCall).bind fun preparation => ?_
  cases preparation with
  | immediate result isError =>
    exact (unfailing_finishImmediate _).bind fun finalized => yields_pure (unfailing_pure _)
  | prepared toolCall args => exact yields_pure (unfailing_runPreparedToolCall config toolCall args)

end

lemma yields_startEachToolCall (config : AgentLoopConfig) (toolCalls : List ToolCall) :
    Yields P (fun finalizedCalls => ∀ p ∈ finalizedCalls, Unfailing P p)
      (startEachToolCall config toolCalls) := by
  induction toolCalls with
  | nil => exact yields_pure fun _ => nofun
  | cons toolCall toolCalls ih =>
    refine (yields_startToolCall config toolCall).bind fun finalizedCall h => ?_
    refine ih.bind fun finalizedCalls hrest => yields_pure ?_
    exact forall_mem_cons.mpr ⟨h, hrest⟩

lemma unfailing_all {ps : List (LoopProgram α)} (h : ∀ p ∈ ps, Unfailing P p) :
    Unfailing P (Program.all fuel ps) := by
  refine (Program.always_all_ok fuel fun p hp => (h p hp).mono ?_).mono ?_
  · rintro r ⟨a, rfl, -⟩
    exact ⟨a, rfl⟩
  · rintro r ⟨as, rfl⟩
    exact ⟨as, rfl, trivial⟩

end Unfailing

/-! ## What a run keeps track of -/

/-- What events that end no message keep. -/
structure Keeps (I : LoopWorld → Prop) : Prop where
  abort : ∀ s raised, I s → I (s.abort raised)
  emitted : ∀ s event, event.messageEnd? = none → I s → I (s.emitted event)

variable {I : LoopWorld → Prop}

lemma Keeps.stable (h : Keeps I) : Stable I where
  abort := h.abort
  emitted s event hbound _ := by
    refine h.emitted s event ?_
    cases event <;> first | rfl | cases hbound

variable {event : AgentEvent} {C : LoopCondition}

lemma Keeps.emit (h : Keeps I)
    (hevent : event.messageEnd? = none) (hs : I s) :
    (emit event).wp C.Handler (fun _ s' => I s') s :=
  wp_emit fun _ _ _ => h.abort _ _ (h.emitted _ _ hevent hs)

lemma keeps_has (accepting : Prop) (new told : List AgentMessage) :
    Keeps (Has accepting new told) where
  abort _ _ h := ⟨h.newMessages, h.told⟩
  emitted s event hevent h := by
    refine ⟨h.newMessages, fun haccepting => ?_⟩
    rw [emitted, filterMap_append, h.told haccepting, filterMap_cons_none hevent,
      filterMap_nil, append_nil]

/-- The sink has rejected an event. -/
def Broken (accepting : Prop) (new : List AgentMessage) (_ : LoopError) (s : LoopWorld) : Prop :=
  ¬ accepting ∧ s.locals.newMessages = new

/-- Nothing is said of what was told of then. -/
lemma Broken.has {error : LoopError} (h : Broken accepting new error s) (told : List AgentMessage) :
    Has accepting new told s :=
  ⟨h.2, fun haccepting => absurd haccepting h.1⟩

/-- An aside that throws nothing, unless the sink does. -/
lemma AsideWith.has {α : Type} {R R' : α → Prop} {p : LoopProgram α} (h : AsideWith R p)
    (hp : accepting → Yields P R' p) (hs : Has accepting new told s) :
    p.Ensures (handing P accepting).Handler
      (fun a s' => (R a ∧ (accepting → R' a)) ∧ Has accepting new told s')
      (Broken accepting new) s := by
  have hwp := h.wp (C := handing P accepting) (keeps_has accepting new told).stable hs
  by_cases haccepting : accepting
  · obtain rfl : accepting = True := eq_true haccepting
    refine wp_mono (((hp trivial).wp trivial).and hwp) ?_
    rintro (error | a) s' ⟨⟨⟨b, hb, hR'⟩, _⟩, hR, hs'⟩
    · cases hb
    · cases hb
      exact ⟨⟨hR a rfl, fun _ => hR'⟩, hs'⟩
  · refine wp_mono hwp ?_
    rintro (error | a) s' ⟨hR, hs'⟩
    · exact ⟨haccepting, hs'.newMessages⟩
    · exact ⟨⟨hR a rfl, fun h => absurd h haccepting⟩, hs'⟩

lemma Aside.has {α : Type} {p : LoopProgram α} (h : Aside p) (hs : Has accepting new told s) :
    p.Ensures (handing P accepting).Handler (fun _ s' => Has accepting new told s')
      (fun _ s' => Has accepting new told s') s := by
  refine wp_mono (h.wp (keeps_has accepting new told).stable hs) ?_
  rintro (error | a) s' hs'
  · exact hs'
  · exact hs'

/-! ## Telling of messages -/

variable (message : AgentMessage)

lemma messageEnd_has (hs : Has accepting new told s) :
    (emit (.messageEnd message)).Ensures (handing P accepting).Handler
      (fun _ s' => Has accepting new (told ++ [message]) s') (Broken accepting new) s := by
  apply wp_emit
  rintro (error | _) raised haccepts
  · exact ⟨haccepts, hs.newMessages⟩
  · refine ⟨hs.newMessages, fun haccepting => ?_⟩
    show (s.events ++ [_]).filterMap AgentEvent.messageEnd? = _
    rw [filterMap_append, hs.told haccepting]
    rfl

lemma emit_has (hevent : event.messageEnd? = none) (hs : Has accepting new told s) :
    (emit event).Ensures (handing P accepting).Handler
      (fun _ s' => Has accepting new told s') (Broken accepting new) s := by
  apply wp_emit
  rintro (error | _) raised haccepts
  · exact ⟨haccepts, hs.newMessages⟩
  · exact (keeps_has _ _ _).abort _ _ ((keeps_has _ _ _).emitted _ _ hevent hs)

lemma emitMessage_has (hs : Has accepting new told s) :
    (emitMessage message).Ensures (handing P accepting).Handler
      (fun _ s' => Has accepting new (told ++ [message]) s') (Broken accepting new) s :=
  (emit_has rfl hs).bind fun _ _ hs₁ => messageEnd_has message hs₁

lemma emitMessages_has (messages : List AgentMessage) (hs : Has accepting new told s) :
    (emitMessages messages).Ensures (handing P accepting).Handler
      (fun _ s' => Has accepting new (told ++ messages) s') (Broken accepting new) s := by
  induction messages generalizing s told with
  | nil =>
    rw [append_nil]
    exact ensures_pure hs
  | cons message messages ih =>
    rw [append_cons]
    exact (emitMessage_has message hs).bind fun _ _ hs₁ => ih hs₁

/-- An event that ends no message, whether or not the sink rejects it. -/
lemma emit_same (hevent : event.messageEnd? = none) (hs : Has accepting new told s) :
    (emit event).Ensures (handing P accepting).Handler (fun _ s' => Has accepting new told s')
      (fun _ s' => Has accepting new told s') s :=
  (emit_has hevent hs).mono (fun _ _ => id) fun _ _ hbroken => hbroken.has told

/-! ## A response -/

section Response

variable {F : LoopError → LoopWorld → Prop}

/-- The program tells of the response it returns. -/
abbrev Responds (P : AgentMessage → Prop) (accepting : Prop) (new told : List AgentMessage)
    (p : LoopProgram AssistantMessage) (s : LoopWorld) : Prop :=
  p.Ensures (handing P accepting).Handler
    (fun result s' => Has accepting new (told ++ [assistant result]) s')
    (fun _ s' => Has accepting new told s') s

/-- The context is not looked at. -/
lemma setPartialMessage_has (part : Option AssistantMessage) (hs : Has accepting new told s) :
    (setPartialMessage part).Ensures (handing P accepting).Handler
      (fun _ s' => Has accepting new told s') F s := by
  rw [Ensures, wp_setPartialMessage]
  exact ⟨hs.newMessages, hs.told⟩

lemma pushContext_has (hs : Has accepting new told s) :
    (pushContext message).Ensures (handing P accepting).Handler
      (fun _ s' => Has accepting new told s') F s := by
  rw [Ensures, wp_pushContext]
  exact ⟨hs.newMessages, hs.told⟩

lemma replaceLastInContext_has (hs : Has accepting new told s) :
    (replaceLastInContext message).Ensures (handing P accepting).Handler
      (fun _ s' => Has accepting new told s') F s := by
  rw [Ensures, wp_replaceLastInContext]
  exact ⟨hs.newMessages, hs.told⟩

lemma read_has (hs : Has accepting new told s) : read.Ensures (handing P accepting).Handler
      (fun _ s' => Has accepting new told s') F s := by
  rw [Ensures, wp_read]
  exact hs

/-- Where the sink rejects an event, the response is not told of. -/
lemma finishMessage_has (message : AssistantMessage) (hs : Has accepting new told s) :
    Responds P accepting new told (finishMessage message) s := by
  have hend : ∀ s', Has accepting new told s' → Responds P accepting new told (do
        emit (.messageEnd (.assistant message))
        return message) s' := fun s' hs' =>
    ((messageEnd_has _ hs').mono (fun _ _ => id) fun _ _ hbroken => hbroken.has told).bind
      fun _ _ hs₁ => ensures_pure hs₁
  refine (read_has hs).bind fun locals s₁ hs₁ => ?_
  split_ifs
  · exact (replaceLastInContext_has _ hs₁).bind fun _ s₂ hs₂ => hend s₂ hs₂
  · refine (pushContext_has _ hs₁).bind fun _ s₂ hs₂ => ?_
    refine (emit_same rfl hs₂).bind ?_
    exact fun _ s₃ hs₃ => hend s₃ hs₃

lemma streamEvents_has (hs : Has accepting new told s) :
    Responds P accepting new told (streamEvents fuel) s := by
  induction fuel generalizing s with
  | zero => trivial
  | succ fuel ih =>
    have hres : ∀ {p : LoopProgram AssistantMessage} s', Aside p →
        Has accepting new told s' → Responds P accepting new told (p >>= finishMessage) s' :=
      fun s' hp hs' => (hp.has hs').bind fun message s₁ hs₁ => finishMessage_has message hs₁
    refine ((aside_raceCall .nextEvent).has hs).bind ?_
    rintro (_ | part | part | message | message) s₁ hs₁
    · exact hres s₁ (aside_raceCall .result) hs₁
    · refine (setPartialMessage_has _ hs₁).bind fun _ s₂ hs₂ => ?_
      refine (pushContext_has _ hs₂).bind fun _ s₃ hs₃ => ?_
      refine (emit_same rfl hs₃).bind ?_
      exact fun _ s₄ hs₄ => ih hs₄
    · have hnext : ∀ s', Has accepting new told s' →
          Responds P accepting new told (streamEvents fuel) s' := fun s' => ih
      refine (read_has hs₁).bind fun locals s₂ hs₂ => ?_
      split_ifs
      · refine (setPartialMessage_has _ hs₂).bind fun _ s₃ hs₃ => ?_
        refine (replaceLastInContext_has _ hs₃).bind fun _ s₄ hs₄ => ?_
        refine (emit_same rfl hs₄).bind ?_
        exact fun _ s₅ hs₅ => hnext s₅ hs₅
      · exact hnext s₂ hs₂
    · exact hres s₁ (aside_resultOr message) hs₁
    · exact hres s₁ (aside_resultOr message) hs₁

/-- A response is told of when there is one, also when it was aborted. -/
lemma streamAssistantResponse_has (config : AgentLoopConfig) (fuel : ℕ)
    (hs : Has accepting new told s) :
    Responds P accepting new told (streamAssistantResponse config fuel) s := by
  refine (setPartialMessage_has none hs).bind fun _ s₁ hs₁ => ?_
  refine Ensures.tryCatch (F := fun _ s' => Has accepting new told s') ?_ ?_
  · refine ((aside_requestResponse config).has hs₁).bind fun _ s₂ hs₂ => ?_
    exact streamEvents_has fuel hs₂
  · intro error s₂ hs₂
    refine (aside_isAborted.has hs₂).bind fun aborted s₃ hs₃ => ?_
    split_ifs
    · refine (read_has hs₃).bind fun locals s₄ hs₄ => ?_
      have hcreate : Aside (createAbortedAssistantMessage config locals.partialMessage) :=
        aside_now.bind fun _ => aside_pure _
      exact (hcreate.has hs₄).bind fun message s₅ hs₅ => finishMessage_has message hs₅
    · exact hs₃

end Response

/-! ## Tool results -/

/-- An aside that does not say what its values are. -/
lemma asideWith_createToolResultMessage :
    AsideWith (fun result => result.toolCallId = finalized.toolCall.id)
      (createToolResultMessage finalized) :=
  aside_now.bind fun _ => asideWith_pure rfl

lemma answerToolCall_has (hs : Has accepting new told s) :
    (answerToolCall finalized).Ensures (handing P accepting).Handler
      (fun result s' => result.toolCallId = finalized.toolCall.id ∧
        Has accepting new (told ++ [.toolResult result]) s') (Broken accepting new) s := by
  have hcreate : Unfailing P (createToolResultMessage finalized) :=
    (unfailing_effect fun _ _ _ h => by cases h.1; exact ⟨_, rfl⟩).bind fun _ => unfailing_pure _
  refine ((asideWith_createToolResultMessage finalized).has (fun _ => hcreate) hs).bind ?_
  rintro result s₁ ⟨⟨hid, _⟩, hs₁⟩
  refine (emitMessage_has (.toolResult result) hs₁).bind fun _ s₂ hs₂ => ?_
  exact ensures_pure ⟨hid, hs₂⟩

lemma answerToolCalls_has (finalizedCalls : List FinalizedToolCall)
    (hs : Has accepting new told s) :
    (answerToolCalls finalizedCalls).Ensures (handing P accepting).Handler
      (fun results s' => results.map (·.toolCallId) = finalizedCalls.map (·.toolCall.id) ∧
        Has accepting new (told ++ results.map .toolResult) s') (Broken accepting new) s := by
  induction finalizedCalls generalizing s told with
  | nil =>
    refine ensures_pure ⟨rfl, ?_⟩
    rw [map_nil, append_nil]
    exact hs
  | cons finalized finalizedCalls ih =>
    refine (answerToolCall_has finalized hs).bind ?_
    rintro result s₁ ⟨hid, hs₁⟩
    refine (ih hs₁).bind ?_
    rintro results s₂ ⟨hids, hs₂⟩
    refine ensures_pure ⟨?_, ?_⟩
    · rw [map_cons, map_cons, hid, hids]
    · rw [map_cons, append_cons]
      exact hs₂

/-- Whether the signal is aborted. -/
lemma isAborted_has (hs : Has accepting new told s) :
    isAborted.Ensures (handing P accepting).Handler
      (fun aborted s' => s'.aborted = aborted ∧ Has accepting new told s')
      (Broken accepting new) s := by
  rintro r _ ⟨⟨⟩, _⟩
  exact ⟨rfl, hs.newMessages, hs.told⟩

/-- One after the other, up to an abort. -/
lemma executeEachToolCall_has (config : AgentLoopConfig) (toolCalls : List ToolCall)
    (hs : Has accepting new told s) :
    (executeEachToolCall config toolCalls).Ensures (handing P accepting).Handler
      (fun executed s' => Has accepting new (told ++ (executed.map Prod.snd).map .toolResult) s' ∧
        ((executed.map Prod.snd).map (·.toolCallId) = toolCalls.map (·.id) ∨ s'.aborted = true ∧
            (executed.map Prod.snd).map (·.toolCallId) <+: toolCalls.map (·.id)))
      (Broken accepting new) s := by
  induction toolCalls generalizing s told with
  | nil =>
    refine ensures_pure ⟨?_, .inl rfl⟩
    rw [map_nil, map_nil, append_nil]
    exact hs
  | cons toolCall toolCalls ih =>
    refine (isAborted_has hs).bind ?_
    rintro (_ | _) s₁ ⟨haborted, hs₁⟩
    · refine ((asideWith_executeToolCall config toolCall).has
        (fun _ => unfailing_executeToolCall config toolCall) hs₁).bind ?_
      rintro finalized s₂ ⟨⟨hcall, _⟩, hs₂⟩
      refine (answerToolCall_has finalized hs₂).bind ?_
      rintro result s₃ ⟨hid, hs₃⟩
      rw [hcall] at hid
      refine (isAborted_has hs₃).bind ?_
      rintro (_ | _) s₄ ⟨haborted', hs₄⟩
      · refine (ih hs₄).bind ?_
        rintro executed s₅ ⟨hs₅, hids⟩
        refine ensures_pure ⟨?_, ?_⟩
        · rw [map_cons, map_cons, append_cons]
          exact hs₅
        · rw [map_cons, map_cons, map_cons, hid]
          refine hids.imp (congrArg _) fun hcut => ⟨hcut.1, ?_⟩
          exact cons_prefix_cons.mpr ⟨rfl, hcut.2⟩
      · refine ensures_pure ⟨hs₄, .inr ⟨haborted', ?_⟩⟩
        rw [map_cons, map_cons, hid]
        exact cons_prefix_cons.mpr ⟨rfl, nil_prefix⟩
    · refine ensures_pure ⟨?_, .inr ⟨haborted, nil_prefix⟩⟩
      rw [map_nil, map_nil, append_nil]
      exact hs₁

/-- All the results are there, or the calls were executed one after the other and aborted. -/
lemma executeToolCalls_has (config : AgentLoopConfig) (fuel : ℕ) (toolCalls : List ToolCall)
    (hs : Has accepting new told s) :
    (executeToolCalls config fuel toolCalls).Ensures (handing P accepting).Handler
      (fun batch s' => Has accepting new (told ++ batch.messages.map .toolResult) s' ∧
        (batch.messages.map (·.toolCallId) = toolCalls.map (·.id) ∨
          (s'.aborted = true ∧ config.Sequential toolCalls) ∧
            batch.messages.map (·.toolCallId) <+: toolCalls.map (·.id)))
      (Broken accepting new) s := by
  rw [executeToolCalls]
  split_ifs with hsequential
  · refine (executeEachToolCall_has config toolCalls hs).bind ?_
    rintro executed s₁ ⟨hs₁, hids⟩
    refine ensures_pure ⟨hs₁, hids.imp id fun hcut => ⟨⟨hcut.1, ?_⟩, hcut.2⟩⟩
    rw [Bool.or_eq_true, decide_eq_true_iff, any_eq_true] at hsequential
    rw [AgentLoopConfig.Sequential]
    simpa only [decide_eq_true_iff] using hsequential
  · refine ((asideWith_startEachToolCall config toolCalls).has
      (fun _ => yields_startEachToolCall config toolCalls) hs).bind ?_
    rintro finalizedCalls s₁ ⟨⟨hcalls, hunfailing⟩, hs₁⟩
    refine ((asideWith_all fuel hcalls).has (fun haccepting => unfailing_all fuel
      (hunfailing haccepting)) hs₁).bind ?_
    rintro ordered s₂ ⟨⟨hordered, _⟩, hs₂⟩
    refine (answerToolCalls_has ordered hs₂).bind ?_
    rintro results s₃ ⟨hids, hs₃⟩
    refine ensures_pure ⟨hs₃, .inl ?_⟩
    rw [hids, ← hordered, map_map]
    rfl

/-! ## Turns -/

section Turns

variable {config : AgentLoopConfig} {I : LoopWorld → Prop} {α β : Type} {R : α → Prop}
  {S : β → Prop} {p : LoopProgram α}

/-- Between two turns. -/
def Settled (P : AgentMessage → Prop) (accepting : Prop) (s : LoopWorld) : Prop :=
  ∃ new, Paired P new ∧ Has accepting new new s

/-- After the results of calls that an abort has cut short. -/
def CutShort (config : AgentLoopConfig) (P : AgentMessage → Prop) (accepting : Prop)
    (s : LoopWorld) : Prop :=
  ∃ (before : List AgentMessage) (message : AssistantMessage) (results : List ToolResultMessage),
    Paired P before ∧ Has accepting (before ++ .assistant message :: results.map .toolResult)
        (before ++ .assistant message :: results.map .toolResult) s ∧
      results.map (·.toolCallId) <+: message.dueCalls.map (·.id) ∧
      s.aborted = true ∧ config.Sequential message.dueCalls

/-- What the run has at its end, if it ends here. -/
structure Ending (config : AgentLoopConfig) (P : AgentMessage → Prop) (accepting : Prop)
    (I : LoopWorld → Prop) : Prop where
  keeps : Keeps I
  runMessages : ∀ failed s, I s → RunMessages config P accepting failed s

lemma ending_settled : Ending config P accepting (Settled P accepting) where
  keeps :=
    { abort := fun s raised ⟨new, hnew, hs⟩ => ⟨new, hnew, (keeps_has _ _ _).abort s raised hs⟩
      emitted := fun s event hevent ⟨new, hnew, hs⟩ =>
        ⟨new, hnew, (keeps_has _ _ _).emitted s event hevent hs⟩ }
  runMessages := fun _ _ ⟨_, hnew, hs⟩ => .paired hnew hs

lemma ending_cutShort : Ending config P accepting (CutShort config P accepting) where
  keeps :=
    { abort := fun s raised ⟨before, message, results, hbefore, hs, hids, haborted, hsequential⟩ =>
        ⟨before, message, results, hbefore, (keeps_has _ _ _).abort s raised hs, hids,
          by rw [abort, haborted, Bool.true_or], hsequential⟩
      emitted := fun s event hevent ⟨before, message, results, hbefore, hs, hrest⟩ =>
        ⟨before, message, results, hbefore, (keeps_has _ _ _).emitted s event hevent hs, hrest⟩ }
  runMessages := fun _ _ ⟨_, _, _, hbefore, hs, hids, haborted⟩ =>
    .cut hbefore rfl hs hids (.inl haborted)

/-- A program that changes no variable and tells of no message, and whose values, from hooks that
hand in messages with `P`, have `R`. -/
def Offers (P : AgentMessage → Prop) (accepting : Prop) (R : α → Prop) (p : LoopProgram α) : Prop :=
  ∀ I, Stable I → p.Always (handing P accepting).Handler I fun r => ∀ a, r = .ok a → R a

lemma AsideWith.offers (h : AsideWith R p) : Offers P accepting R p :=
  fun I hI => (h I hI).imp (fun _ _ _ _ => And.left) fun _ => id

lemma Offers.bind {p : LoopProgram β} {f : β → LoopProgram α} (h : Offers P accepting S p)
    (hf : ∀ b, S b → Offers P accepting R (f b)) : Offers P accepting R (p >>= f) :=
  fun I hI => (h I hI).bind (fun b hb => hf b (hb b rfl) I hI) fun _ _ _ => nofun

lemma Offers.ite {c : Prop} [Decidable c] {q : LoopProgram α} (hp : Offers P accepting R p)
    (hq : Offers P accepting R q) : Offers P accepting R (if c then p else q) := by
  split_ifs
  · exact hp
  · exact hq

/-- What the operation comes to, if it comes to anything. -/
lemma offers_raceWithAbort {operation : Settlement α} (h : ∀ a, operation = .ok a → R a) :
    Offers P accepting R (raceWithAbort operation) :=
  ((asideWith_raceWithAbort operation).mono h).offers

lemma Offers.settlePostTurn (h : Offers P accepting R p) :
    Offers P accepting (fun value => ∀ a, value = some a → R a) (settlePostTurn p) := by
  have hattempt : Offers P accepting (fun r => ∀ a, r = .ok a → R a) p.attempt := by
    intro I hI
    refine (h I hI).attempt fun r hr => ?_
    rintro _ ⟨⟩
    exact hr
  refine hattempt.bind fun r hr => ?_
  cases r with
  | ok value =>
    refine (asideWith_pure ?_).offers
    rintro _ ⟨⟩
    exact hr value rfl
  | error error =>
    refine aside_isAborted.offers.bind fun aborted _ => .ite ?_ (asideWith_throw _).offers
    exact (asideWith_pure fun _ => nofun).offers

lemma offers_call {c : LoopCall} {R : Settlement c.Answer → Prop}
    (h : ∀ s a, (handing P accepting).Holds s (.call c) (.ok a) → R a) :
    Offers P accepting R (call c) := by
  intro I hI
  apply Always.effect
  rintro s r _ hs ⟨⟨⟩, hhands⟩
  refine ⟨hI.abort _ _ hs, ?_⟩
  rintro a rfl
  exact h s a hhands

/-- Messages with `P`, if any. -/
def Offered (P : AgentMessage → Prop) (operation : Settlement (List AgentMessage)) : Prop :=
  ∀ messages, operation = .ok messages → ∀ message ∈ messages, P message

lemma offers_getSteeringMessages : Offers P accepting (Offered P) (call .getSteeringMessages) :=
  offers_call (c := .getSteeringMessages) fun _ _ h _ hok => by subst hok; exact h

lemma offers_getFollowUpMessages : Offers P accepting (Offered P) (call .getFollowUpMessages) :=
  offers_call (c := .getFollowUpMessages) fun _ _ h _ hok => by subst hok; exact h

lemma offers_getContinuationMessages :
    Offers P accepting (Offered P) (call .getContinuationMessages) :=
  offers_call (c := .getContinuationMessages) fun _ _ h _ hok => by subst hok; exact h

lemma offers_poll (present : Bool) {poll : LoopProgram (Settlement (List AgentMessage))}
    (h : Offers P accepting (Offered P) poll) :
    Offers P accepting (fun messages => ∀ message ∈ messages, P message)
      (pollMessagesUnlessAborted present poll) := by
  have hnone : Offers P accepting (fun messages => ∀ message ∈ messages, P message)
      (pure [] : LoopProgram (List AgentMessage)) := (asideWith_pure fun _ => nofun).offers
  refine .ite hnone (aside_isAborted.offers.bind fun aborted _ => .ite hnone ?_)
  exact h.bind fun operation hop => offers_raceWithAbort hop

/-- The program's ends have `Q`, and where it throws the run ends as it may. -/
abbrev Proceeds (config : AgentLoopConfig) (P : AgentMessage → Prop) (accepting : Prop)
    (p : LoopProgram α) (Q : α → LoopWorld → Prop) (s : LoopWorld) : Prop :=
  p.Ensures (handing P accepting).Handler Q (fun _ s' => RunMessages config P accepting True s') s

lemma Offers.ensures (h : Offers P accepting R p) (hI : Ending config P accepting I) (hs : I s) :
    Proceeds config P accepting p (fun a s' => R a ∧ I s') s := by
  refine wp_mono ((h I hI.keeps.stable).wp hs) ?_
  rintro (error | a) s' ⟨hR, hs'⟩
  · exact hI.runMessages True s' hs'
  · exact ⟨hR a rfl, hs'⟩

lemma Aside.ensures (h : Aside p) (hI : Ending config P accepting I) (hs : I s) :
    Proceeds config P accepting p (fun _ s' => I s') s :=
  (Offers.ensures (AsideWith.offers h) hI hs).mono (fun _ _ => And.right) fun _ _ => id

lemma emit_ensures (hevent : event.messageEnd? = none) (hI : Ending config P accepting I)
    (hs : I s) : Proceeds config P accepting (emit event) (fun _ s' => I s') s := by
  refine wp_mono (hI.keeps.emit hevent hs) ?_
  rintro (error | _) s' hs'
  · exact hI.runMessages True s' hs'
  · exact hs'

/-- The run is over, or goes on with a value that has `R`. -/
def GoesOn (config : AgentLoopConfig) (P : AgentMessage → Prop) (accepting : Prop) (R : α → Prop) :
    Option α → LoopWorld → Prop
  | none, s => RunMessages config P accepting False s
  | some a, s => R a ∧ Settled P accepting s

lemma endRun_goesOn (hI : Ending config P accepting I) (hs : I s) : Proceeds config P accepting (do
      emitAgentEnd
      return none : LoopProgram (Option α))
      (GoesOn config P accepting R) s := by
  have hend : Proceeds config P accepting emitAgentEnd (fun _ s' => I s') s := by
    rw [Proceeds, Ensures, emitAgentEnd, wp_bind, wp_read]
    exact emit_ensures rfl hI hs
  exact hend.bind fun _ s₁ hs₁ => ensures_pure (hI.runMessages False s₁ hs₁)

/-- Messages handed in. -/
def HandedIn (P : AgentMessage → Prop) (outcome : TurnOutcome) : Prop :=
  ∀ message ∈ outcome.pendingMessages, P message

lemma afterTurn_goesOn (hasMoreToolCalls : Bool) (hs : Settled P accepting s) :
    Proceeds config P accepting (afterTurn config hasMoreToolCalls)
      (GoesOn config P accepting (HandedIn P)) s := by
  have hI : Ending config P accepting (Settled P accepting) := ending_settled
  refine (aside_isAborted.ensures hI hs).bind fun aborted s₁ hs₁ => ?_
  cases aborted with
  | true => exact endRun_goesOn hI hs₁
  | false =>
    refine (((aside_call _).callIf _ _).ensures hI hs₁).bind fun shouldStop s₂ hs₂ => ?_
    refine ((aside_raceWithAbort shouldStop).settlePostTurn.ensures hI hs₂).bind ?_
    rintro (_ | stop) s₃ hs₃
    · exact endRun_goesOn hI hs₃
    · have hbefore : Aside (if stop = true then pure true else shouldStopBeforeTurn config false) :=
        .ite (aside_pure _) (aside_shouldStopBeforeTurn config false)
      refine (hbefore.ensures hI hs₃).bind fun stop' s₄ hs₄ => ?_
      cases stop' with
      | true => exact endRun_goesOn hI hs₄
      | false =>
        refine ((offers_poll _ offers_getSteeringMessages).settlePostTurn.ensures hI hs₄).bind ?_
        rintro (_ | pending) s₅ ⟨hpend, hs₅⟩
        · exact endRun_goesOn hI hs₅
        · have hafter : Aside (if pending.isEmpty = true then shouldStopBeforeTurn config false
              else pure false) :=
            .ite (aside_shouldStopBeforeTurn config false) (aside_pure _)
          refine (hafter.ensures hI hs₅).bind fun stop'' s₆ hs₆ => ?_
          cases stop'' with
          | true => exact endRun_goesOn hI hs₆
          | false => exact ensures_pure ⟨hpend pending rfl, hs₆⟩

/-- After an abort, there is no other turn. -/
lemma afterTurn_cutShort (hasMoreToolCalls : Bool) (hs : CutShort config P accepting s) :
    Proceeds config P accepting (afterTurn config hasMoreToolCalls)
      (GoesOn config P accepting (HandedIn P)) s := by
  have haborted : Proceeds config P accepting isAborted
      (fun aborted s' => aborted = true ∧ CutShort config P accepting s') s := by
    rintro r s' ⟨hanswer, _⟩
    cases hanswer with
    | @isAborted raised =>
      have hs' := ending_cutShort.keeps.abort s raised hs
      obtain ⟨_, _, _, _, _, _, haborted, _⟩ := id hs'
      exact ⟨haborted, hs'⟩
  refine haborted.bind ?_
  rintro _ s₁ ⟨rfl, hs₁⟩
  exact endRun_goesOn ending_cutShort hs₁

/-! ### What follows a response -/

lemma wp_pushToolResults {Q : Except LoopError Unit → LoopWorld → Prop}
    (results : List ToolResultMessage) :
    (pushToolResults results).wp C.Handler Q s ↔ Q (.ok ()) { s with locals := { s.locals with
      messages := s.locals.messages ++ results.map .toolResult
      newMessages := s.locals.newMessages ++ results.map .toolResult } } := by
  induction results generalizing s with
  | nil => simp [pushToolResults]
  | cons result results ih =>
    rw [pushToolResults, wp_bind, wp_pushContext, wp_bind, wp_pushNew, ih,
      map_cons, append_assoc, append_assoc]
    rfl

/-- After a response that the run has and has told of. -/
lemma finishTurn_goesOn {message : AssistantMessage} {before : List AgentMessage}
    (hbefore : Paired P before)
    (hs : Has accepting (before ++ [.assistant message]) (before ++ [.assistant message]) s) :
    Proceeds config P accepting (finishTurn config fuel message)
      (GoesOn config P accepting (HandedIn P)) s := by
  have hI : Ending config P accepting (Settled P accepting) := ending_settled
  have hsettled (hdue : message.dueCalls = []) : Settled P accepting s :=
    ⟨_, hbefore.answered_nil hdue, hs⟩
  rw [finishTurn]
  split_ifs with hfailed hnone
  · have hdue : message.dueCalls = [] := by
      rw [AssistantMessage.dueCalls, if_pos (by simpa using hfailed)]
    exact (emit_ensures rfl hI (hsettled hdue)).bind fun _ s₁ hs₁ => endRun_goesOn hI hs₁
  · have hdue : message.dueCalls = [] := by
      rw [AssistantMessage.dueCalls, List.isEmpty_iff.mp hnone, ite_self]
    exact (emit_ensures rfl hI (hsettled hdue)).bind fun _ s₁ hs₁ => afterTurn_goesOn _ hs₁
  · have hdue : message.toolCalls = message.dueCalls := by
      rw [AssistantMessage.dueCalls, if_neg (by simpa using hfailed)]
    rw [hdue]
    refine ((executeToolCalls_has config fuel message.dueCalls hs).mono (fun _ _ => id) ?_).bind ?_
    · rintro error s₁ ⟨hnot, hnew⟩
      have hnone : before ++ [.assistant message] =
          before ++ .assistant message :: ([] : List ToolResultMessage).map .toolResult := rfl
      exact .cut hbefore hnone ⟨hnew, fun haccepting => absurd haccepting hnot⟩ nil_prefix
        (.inr ⟨trivial, hnot⟩)
    · rintro batch s₁ ⟨hs₁, hids⟩
      rw [Ensures, wp_bind, wp_pushToolResults]
      rw [append_assoc, singleton_append] at hs₁
      have hs₂ : Has accepting
          (before ++ .assistant message :: batch.messages.map .toolResult)
          (before ++ .assistant message :: batch.messages.map .toolResult)
          { s₁ with locals := { s₁.locals with
            messages := s₁.locals.messages ++ batch.messages.map .toolResult
            newMessages := s₁.locals.newMessages ++ batch.messages.map .toolResult } } := by
        refine ⟨?_, hs₁.told⟩
        show s₁.locals.newMessages ++ _ = _
        rw [hs₁.newMessages, append_assoc, singleton_append]
      rcases hids with hids | ⟨hcut, hids⟩
      · exact (emit_ensures rfl hI ⟨_, hbefore.answered hids, hs₂⟩).bind
          fun _ s₃ hs₃ => afterTurn_goesOn _ hs₃
      · exact (emit_ensures rfl ending_cutShort ⟨_, _, _, hbefore, hs₂, hids, hcut⟩).bind
          fun _ s₃ hs₃ => afterTurn_cutShort _ hs₃

lemma injectMessages_settled (messages : List AgentMessage) (hP : ∀ message ∈ messages, P message)
    (hs : Settled P accepting s) :
    Proceeds config P accepting (injectMessages messages)
      (fun _ s' => Settled P accepting s') s := by
  induction messages generalizing s with
  | nil => exact ensures_pure hs
  | cons message messages ih =>
    obtain ⟨new, hnew, hs⟩ := hs
    obtain ⟨hmsg, hmsgs⟩ := forall_mem_cons.mp hP
    refine ((emitMessage_has message hs).mono (fun _ _ => id) fun _ _ hbroken =>
      .paired hnew (hbroken.has new)).bind fun _ s₁ hs₁ => ?_
    rw [Ensures, wp_bind, wp_pushContext, wp_bind, wp_pushNew]
    refine ih hmsgs ⟨new ++ [message], hnew.handed hmsg, ?_, hs₁.told⟩
    show s₁.locals.newMessages ++ _ = _
    rw [hs₁.newMessages]

lemma runTurn_goesOn (firstTurn : Bool) (pending : List AgentMessage)
    (hP : ∀ message ∈ pending, P message) (hs : Settled P accepting s) :
    Proceeds config P accepting (runTurn config fuel firstTurn pending)
      (GoesOn config P accepting (HandedIn P)) s := by
  have hI : Ending config P accepting (Settled P accepting) := ending_settled
  have hturnStart : Aside (emit .turnStart) := aside_emit rfl rfl
  refine (aside_throwIfAborted.ensures hI hs).bind fun _ s₁ hs₁ => ?_
  refine ((hturnStart.runIf _).ensures hI hs₁).bind fun _ s₂ hs₂ => ?_
  refine (injectMessages_settled pending hP hs₂).bind fun _ s₃ hs₃ => ?_
  obtain ⟨new, hnew, hs₃⟩ := hs₃
  refine ((streamAssistantResponse_has config fuel hs₃).mono (fun _ _ => id)
    fun _ _ hs₄ => .paired hnew hs₄).bind fun message s₄ hs₄ => ?_
  rw [Ensures, wp_bind, wp_pushNew]
  refine finishTurn_goesOn fuel hnew ⟨?_, hs₄.told⟩
  show s₄.locals.newMessages ++ _ = _
  rw [hs₄.newMessages]

lemma runTurns_goesOn (firstTurn : Bool) (outcome : TurnOutcome) (hP : HandedIn P outcome)
    (hs : Settled P accepting s) :
    Proceeds config P accepting (runTurns config fuel firstTurn outcome)
      (GoesOn config P accepting fun _ => True) s := by
  induction fuel generalizing firstTurn outcome s with
  | zero => trivial
  | succ fuel ih =>
    rw [runTurns]
    split_ifs
    · refine (runTurn_goesOn fuel firstTurn _ hP hs).bind ?_
      rintro (_ | outcome') s₁ hs₁
      · exact ensures_pure hs₁
      · exact ih false outcome' hs₁.1 hs₁.2
    · exact ensures_pure ⟨trivial, hs⟩

lemma nextMessages_goesOn (hs : Settled P accepting s) :
    Proceeds config P accepting (nextMessages config)
      (GoesOn config P accepting fun messages => ∀ message ∈ messages, P message) s := by
  have hI : Ending config P accepting (Settled P accepting) := ending_settled
  refine ((aside_shouldStopBeforeTurn config false).ensures hI hs).bind fun stop s₁ hs₁ => ?_
  cases stop with
  | true => exact endRun_goesOn hI hs₁
  | false =>
    refine ((offers_poll _ offers_getFollowUpMessages).settlePostTurn.ensures hI hs₁).bind ?_
    rintro (_ | followUp) s₂ ⟨hfollowUp, hs₂⟩
    · exact endRun_goesOn hI hs₂
    · dsimp only
      split_ifs with hsome
      · exact ensures_pure ⟨hfollowUp followUp rfl, hs₂⟩
      · refine ((aside_shouldStopBeforeTurn config false).ensures hI hs₂).bind fun stop s₃ hs₃ => ?_
        cases stop with
        | true => exact endRun_goesOn hI hs₃
        | false =>
          have hcall : Offers P accepting (Offered P)
              (callIf config.getContinuationMessages (call .getContinuationMessages) []) := by
            refine .ite offers_getContinuationMessages (asideWith_pure ?_).offers
            rintro _ ⟨⟩ message ⟨⟩
          refine (hcall.ensures hI hs₃).bind ?_
          rintro continuation s₄ ⟨hcont, hs₄⟩
          refine ((offers_raceWithAbort hcont).settlePostTurn.ensures hI hs₄).bind ?_
          rintro (_ | messages) s₅ ⟨hmsgs, hs₅⟩
          · exact endRun_goesOn hI hs₅
          · dsimp only
            split_ifs
            · exact ensures_pure ⟨hmsgs messages rfl, hs₅⟩
            · exact endRun_goesOn hI hs₅

lemma runLoopFrom_runMessages (firstTurn : Bool) (pending : List AgentMessage)
    (hP : ∀ message ∈ pending, P message) (hs : Settled P accepting s) :
    Proceeds config P accepting (runLoopFrom config fuel firstTurn pending)
      (fun _ s' => RunMessages config P accepting False s') s := by
  induction fuel generalizing firstTurn pending s with
  | zero => trivial
  | succ fuel ih =>
    refine (aside_throwIfAborted.ensures ending_settled hs).bind fun _ s₁ hs₁ => ?_
    refine (runTurns_goesOn fuel firstTurn ⟨true, pending⟩ hP hs₁).bind ?_
    rintro (_ | _) s₂ hs₂
    · exact ensures_pure hs₂
    · refine (nextMessages_goesOn hs₂.2).bind ?_
      rintro (_ | messages) s₃ hs₃
      · exact ensures_pure hs₃
      · exact ih false messages hs₃.1 hs₃.2

lemma runLoop_runMessages (hs : Settled P accepting s) :
    Proceeds config P accepting (runLoop config fuel)
      (fun _ s' => RunMessages config P accepting False s') s := by
  refine ((offers_poll _ offers_getSteeringMessages).ensures ending_settled hs).bind ?_
  rintro pending s₁ ⟨hpend, hs₁⟩
  exact runLoopFrom_runMessages fuel true pending hpend hs₁

end Turns

/-! ## Runs -/

section Runs

variable {config : AgentLoopConfig}

/-- What a run returns is what it has. -/
lemma returns_of_runMessages (hs : Settled P accepting s) : Proceeds config P accepting (do
      runLoop config fuel
      return (← read).newMessages : LoopProgram (List AgentMessage))
      (fun messages s' => s'.locals.newMessages = messages ∧
        RunMessages config P accepting False s') s := by
  refine (runLoop_runMessages fuel hs).bind fun _ s₁ hs₁ => ?_
  rw [Ensures, wp_bind, wp_read]
  exact ⟨rfl, hs₁⟩

lemma paired_of_forall (h : ∀ message ∈ messages, P message) : Paired P messages := by
  induction messages using reverseRecOn with
  | nil => exact .nil
  | append_singleton messages message ih =>
    obtain ⟨hmsgs, hmsg⟩ := List.forall_mem_append.mp h
    exact (ih hmsgs).handed (hmsg message (mem_singleton_self message))

lemma runAgentLoop_runMessages {prompts : List AgentMessage}
    (hprompts : ∀ message ∈ prompts, P message) (context : List AgentMessage) (aborted : Bool) :
    Proceeds config P accepting (runAgentLoop config fuel prompts)
      (fun messages s' => s'.locals.newMessages = messages ∧
        RunMessages config P accepting False s') (LoopWorld.initial context aborted) := by
  have hpaired := paired_of_forall hprompts
  have hbroken (error : LoopError) (s' : LoopWorld) (h : Broken accepting prompts error s') :
      RunMessages config P accepting True s' := .paired hpaired (h.has prompts)
  rw [runAgentLoop, Proceeds, Ensures, wp_bind, wp_read]
  dsimp only
  rw [wp_bind, wp_write]
  have hs : Has accepting prompts []
      ⟨⟨context ++ prompts, prompts, none⟩, [], aborted⟩ := ⟨rfl, fun _ => rfl⟩
  refine ((emit_has rfl hs).mono (fun _ _ => id) hbroken).bind fun _ s₁ hs₁ => ?_
  refine ((emit_has rfl hs₁).mono (fun _ _ => id) hbroken).bind fun _ s₂ hs₂ => ?_
  refine ((emitMessages_has prompts hs₂).mono (fun _ _ => id) hbroken).bind fun _ s₃ hs₃ => ?_
  exact returns_of_runMessages fuel ⟨prompts, hpaired, hs₃⟩

lemma runAgentLoopContinue_runMessages (context : List AgentMessage) (aborted : Bool) :
    Proceeds config P accepting (runAgentLoopContinue config fuel)
      (fun messages s' => s'.locals.newMessages = messages ∧
        RunMessages config P accepting False s') (LoopWorld.initial context aborted) := by
  have hinitial : RunMessages config P accepting True (LoopWorld.initial context aborted) :=
    .paired .nil ⟨rfl, fun _ => rfl⟩
  have hbroken (error : LoopError) (s' : LoopWorld) (h : Broken accepting [] error s') :
      RunMessages config P accepting True s' := .paired .nil (h.has [])
  rw [runAgentLoopContinue, Proceeds, Ensures, wp_bind, wp_read]
  dsimp only
  cases (LoopWorld.initial context aborted).locals.messages.getLast? with
  | none => exact hinitial
  | some last =>
    dsimp only
    split_ifs
    · exact hinitial
    · rw [wp_bind, wp_write]
      have hs : Has accepting [] [] ⟨⟨context, [], none⟩, [], aborted⟩ := ⟨rfl, fun _ => rfl⟩
      refine ((emit_has rfl hs).mono (fun _ _ => id) hbroken).bind fun _ s₁ hs₁ => ?_
      refine ((emit_has rfl hs₁).mono (fun _ _ => id) hbroken).bind fun _ s₂ hs₂ => ?_
      exact returns_of_runMessages fuel ⟨[], .nil, hs₂⟩

end Runs

end AgentLoop

/-- The run has ended with an error. -/
def Failed (r : Except LoopError (List AgentMessage)) : Prop := ∃ error, r = .error error

/-- **Tool calls have their results** in the messages of every run that ends, however it does,
unless calls that are executed one after the other are aborted or the sink rejects an event. -/
theorem tool_results_paired {config : AgentLoopConfig} {fuel : ℕ} {kind : RunKind}
    {context : List AgentMessage} {aborted : Bool} {P : AgentMessage → Prop} {accepting : Prop}
    (hprompts : ∀ message ∈ kind.prompts, P message)
    {r : Except LoopError (List AgentMessage)} {s : LoopWorld}
    (hrun : Ends (handing P accepting).Handler (kind.program config fuel)
      (.initial context aborted) r s) :
    RunMessages config P accepting (Failed r) s ∧
      ∀ messages, r = .ok messages → s.locals.newMessages = messages := by
  have hends : (kind.program config fuel).Ensures (handing P accepting).Handler
      (fun messages s' => s'.locals.newMessages = messages ∧
        RunMessages config P accepting False s')
      (fun _ s' => RunMessages config P accepting True s') (.initial context aborted) := by
    cases kind with
    | prompt prompts => exact runAgentLoop_runMessages fuel hprompts context aborted
    | resume => exact runAgentLoopContinue_runMessages fuel context aborted
  cases r with
  | ok messages =>
    obtain ⟨hmessages, hrunMessages⟩ := hrun.of_ensures hends
    refine ⟨?_, fun _ hok => by cases hok; exact hmessages⟩
    cases hrunMessages with
    | paired h hs => exact .paired h hs
    | cut h hnew hs hresults hcut => exact .cut h hnew hs hresults (hcut.imp id fun hf => hf.1.elim)
  | error error =>
    refine ⟨?_, fun _ => nofun⟩
    cases hrun.of_ensures_error hends with
    | paired h hs => exact .paired h hs
    | cut h hnew hs hresults hcut =>
      exact .cut h hnew hs hresults (hcut.imp id fun hf => ⟨⟨error, rfl⟩, hf.2⟩)

/-! ## Two runs -/

/-- A reply that calls two tools. -/
def callingReply : AssistantMessage :=
  { plainReply with
    content := [.toolCall { id := "a", name := "first", arguments := .obj [] },
      .toolCall { id := "b", name := "second", arguments := .obj [] }]
    stopReason := .toolUse }

/-- The run is stopped after the first turn. -/
def stopping (s : LoopWorld) (_ : Unit) :
    (e : LoopEffect) → Except LoopError e.Answer × LoopWorld × Unit
  | .call .shouldStopAfterTurn => (.ok (.ok true), s.abort false, ())
  | e => played (fun _ => some (.done callingReply)) callingReply s () e

/-- The signal is aborted while the end of a tool's execution is told of. -/
def abortingTool (s : LoopWorld) (_ : Unit) :
    (e : LoopEffect) → Except LoopError e.Answer × LoopWorld × Unit
  | .emit (.toolExecutionEnd toolCallId toolName result isError) =>
    (.ok (), (s.emitted (.toolExecutionEnd toolCallId toolName result isError)).abort true, ())
  | e => played (fun _ => some (.done callingReply)) callingReply s () e

lemma handler_played (next : LoopWorld → Option AssistantMessageEvent) (reply : AssistantMessage)
    (s : LoopWorld) (e : LoopEffect) :
    (handing (fun _ => False) True).Handler s e (played next reply s () e).1
      (played next reply s () e).2.1 := by
  refine ⟨answers_played next reply s e, ?_⟩
  cases e with
  | call c => cases c <;> first | trivial | exact fun _ => nofun
  | _ => trivial

lemma handler_stopping (s : LoopWorld) (e : LoopEffect) :
    (handing (fun _ => False) True).Handler s e (stopping s () e).1 (stopping s () e).2.1 := by
  rw [stopping.eq_def]
  split
  · exact ⟨.call _, trivial⟩
  · exact handler_played _ _ s e

lemma handler_abortingTool (s : LoopWorld) (e : LoopEffect) :
    (handing (fun _ => False) True).Handler s e (abortingTool s () e).1
      (abortingTool s () e).2.1 := by
  rw [abortingTool.eq_def]
  split
  · exact ⟨.emit _, trivial⟩
  · exact handler_played _ _ s e

/-- Two calls at the same time, and their results. -/
theorem tool_results_paired_callingReply : ∃ messages s,
    Ends (handing (fun _ => False) True).Handler
      ((RunKind.prompt []).program { bareConfig with shouldStopAfterTurn := true } 9)
      (.initial [] false) (.ok messages) s ∧ messages.length = 3 ∧
    (RunMessages { bareConfig with shouldStopAfterTurn := true } (fun _ => False) True
      (Failed (.ok messages)) s ∧ ∀ messages', (.ok messages : Except LoopError _) = .ok messages' →
          s.locals.newMessages = messages') := by
  have hrun := Ends.of_play (fun s _ e => handler_stopping s e)
    (p := (RunKind.prompt []).program { bareConfig with shouldStopAfterTurn := true } 9)
    (s := .initial [] false) (t := ()) rfl
  exact ⟨_, _, hrun, rfl, tool_results_paired (fun _ => nofun) hrun⟩

lemma not_paired_one_result (hlen : messages.length = 2)
    (hhead : messages.head? = some (.assistant callingReply))
    (hlast : messages.getLast?.all AgentMessage.isAssistant = false) :
    ¬ Paired (fun _ => False) messages := by
  intro hpaired
  cases hpaired with
  | nil => cases hlen
  | handed _ hmsg => exact hmsg
  | @answered before message results _ hresults =>
    rw [length_append, length_cons, length_map] at hlen
    have hids := congrArg List.length hresults
    rw [length_map, length_map] at hids
    cases before with
    | nil =>
      cases hhead
      have hcalls : callingReply.dueCalls.length = 2 := rfl
      omega
    | cons first before =>
      rw [length_cons] at hlen
      have hnone : results = [] := length_eq_zero_iff.mp (by omega)
      rw [hnone, map_nil, getLast?_concat] at hlast
      cases hlast

/-- One after the other, the second call has no result when the first is aborted. -/
theorem not_paired_abortingTool : ¬ ∀ (config : AgentLoopConfig) (fuel : ℕ) (kind : RunKind)
    (context : List AgentMessage) (aborted : Bool) (r : Except LoopError (List AgentMessage))
    (s : LoopWorld), Ends (handing (fun _ => False) True).Handler
      (kind.program config fuel) (.initial context aborted) r s →
        Paired (fun _ => False) s.locals.newMessages := by
  intro hall
  have hrun := Ends.of_play (fun s _ e => handler_abortingTool s e)
    (p := (RunKind.prompt []).program { bareConfig with toolExecution := some .sequential } 9)
    (s := .initial [] false) (t := ()) rfl
  exact not_paired_one_result rfl rfl rfl (hall _ _ _ _ _ _ _ hrun)

end Amide
