import Amide.Construction.Agent.AgentLoop

/-!
# What a run does without telling of a message

The variables of a run are read and written by effects that do just that (`wp_read`, `wp_write`).
Most of what a run does between its messages changes none of them and opens or closes no message:
it waits, asks its hooks, executes its tools.  Such a program is an `Aside`, and keeps whatever does
not depend on that (`Stable`); asides are closed under all that programs are made of, also under
running at the same time (`asideWith_all`).
-/

namespace Amide

open Program (Always effect wp_bind wp_mono)

/-- The events that open and close a message. -/
def AgentEvent.isBoundary : AgentEvent → Bool
  | .messageStart _ => true
  | .messageEnd _ => true
  | _ => false

def AgentEvent.isAgentEnd : AgentEvent → Bool
  | .agentEnd _ => true
  | _ => false

/-- A condition on the answers to effects, which leaves the variables alone. -/
structure LoopCondition where
  Holds : (s : LoopWorld) → (e : LoopEffect) → Except LoopError e.Answer → Prop
  read : ∀ s r, Holds s .read r
  write : ∀ s locals r, Holds s (.write locals) r

/-- What an effect can do under the condition. -/
def LoopCondition.Handler (C : LoopCondition) (s : LoopWorld) (e : LoopEffect)
    (r : Except LoopError e.Answer) (s' : LoopWorld) : Prop :=
  s.Answers e r s' ∧ C.Holds s e r

namespace AgentLoop

open LoopWorld

variable {C : LoopCondition} {s : LoopWorld}

/-! ## The variables -/

section Locals

variable {Q : Except LoopError Unit → LoopWorld → Prop}

lemma wp_read {Q : Except LoopError LoopLocals → LoopWorld → Prop} :
    read.wp C.Handler Q s ↔ Q (.ok s.locals) s := by
  constructor
  · intro h
    exact h (.ok s.locals) s ⟨.read, C.read _ _⟩
  · rintro h _ _ ⟨⟨⟩, _⟩
    exact h

lemma wp_write (locals : LoopLocals) :
    (write locals).wp C.Handler Q s ↔ Q (.ok ()) { s with locals } := by
  constructor
  · intro h
    exact h (.ok ()) { s with locals } ⟨.write, C.write _ _ _⟩
  · rintro h _ _ ⟨⟨⟩, _⟩
    exact h

variable (message : AgentMessage)

lemma wp_pushContext : (pushContext message).wp C.Handler Q s ↔
    Q (.ok ()) { s with locals := { s.locals with
      messages := s.locals.messages ++ [message] } } := by
  simp only [pushContext, wp_bind, wp_read, wp_write]

lemma wp_replaceLastInContext : (replaceLastInContext message).wp C.Handler Q s ↔
      Q (.ok ()) { s with locals := { s.locals with
        messages := s.locals.messages.dropLast ++ [message] } } := by
  simp only [replaceLastInContext, wp_bind, wp_read, wp_write]

lemma wp_pushNew : (pushNew message).wp C.Handler Q s ↔
    Q (.ok ()) { s with locals := { s.locals with
      newMessages := s.locals.newMessages ++ [message] } } := by
  simp only [pushNew, wp_bind, wp_read, wp_write]

lemma wp_setPartialMessage (part : Option AssistantMessage) :
    (setPartialMessage part).wp C.Handler Q s ↔
      Q (.ok ()) { s with locals := { s.locals with partialMessage := part } } := by
  simp only [setPartialMessage, wp_bind, wp_read, wp_write]

end Locals

/-! ## What tells of nothing -/

/-- What does not depend on the signal, nor on events between those that tell of messages. -/
structure Stable (I : LoopWorld → Prop) : Prop where
  abort : ∀ s raised, I s → I (s.abort raised)
  emitted : ∀ s event, event.isBoundary = false → event.isAgentEnd = false → I s →
    I (s.emitted event)

/-- A program that changes no variable and tells of no message, and whose values have `R`. -/
def AsideWith {α : Type} (R : α → Prop) (p : LoopProgram α) : Prop :=
  ∀ I, Stable I → p.Always Answers I fun r => ∀ a, r = .ok a → R a

def Aside {α : Type} (p : LoopProgram α) : Prop := AsideWith (fun _ => True) p

section Aside

variable {α β : Type} {R R' : α → Prop} {S : β → Prop} {p : LoopProgram α}
variable {I : LoopWorld → Prop}

lemma AsideWith.wp (h : AsideWith R p) (hI : Stable I) (hs : I s) :
    p.wp C.Handler (fun r s' => (∀ a, r = .ok a → R a) ∧ I s') s :=
  ((h I hI).imp (fun _ _ _ _ => And.left) fun _ => id).wp hs

lemma AsideWith.returns (h : AsideWith R p) (hI : Stable I) (hs : I s) :
    p.Returns C.Handler (fun a s' => R a ∧ I s') s :=
  wp_mono (h.wp hI hs) fun _ _ hR a ha => ⟨hR.1 a ha, hR.2⟩

lemma AsideWith.mono (h : AsideWith R p) (hR : ∀ a, R a → R' a) : AsideWith R' p :=
  fun I hI => (h I hI).mono fun _ hP a ha => hR a (hP a ha)

lemma AsideWith.aside (h : AsideWith R p) : Aside p := h.mono fun _ _ => trivial

variable {f : β → LoopProgram α}

lemma AsideWith.bind {p : LoopProgram β} (h : AsideWith S p)
    (hf : ∀ b, S b → AsideWith R (f b)) : AsideWith R (p >>= f) :=
  fun I hI => (h I hI).bind (fun b hb => hf b (hb b rfl) I hI) fun _ _ _ => nofun

lemma AsideWith.tryCatch {handle : LoopError → LoopProgram α} (h : AsideWith R p)
    (hhandle : ∀ error, AsideWith R (handle error)) :
    AsideWith R (MonadExcept.tryCatch p handle) :=
  fun I hI => (h I hI).tryCatch (fun _ hP => hP) fun error _ => hhandle error I hI

lemma AsideWith.ite {c : Prop} [Decidable c] {q : LoopProgram α} (hp : AsideWith R p)
    (hq : AsideWith R q) : AsideWith R (if c then p else q) := by
  split_ifs
  · exact hp
  · exact hq

lemma asideWith_pure {a : α} (h : R a) : AsideWith R (pure a : LoopProgram α) := by
  rintro I hI _ ⟨⟩
  exact h

lemma asideWith_throw (error : LoopError) : AsideWith R (throw error : LoopProgram α) :=
  fun _ _ _ => nofun

lemma Aside.wp (h : Aside p) (hI : Stable I) (hs : I s) : p.wp C.Handler (fun _ s' => I s') s :=
  wp_mono (AsideWith.wp h hI hs) fun _ _ => And.right

lemma Aside.returns (h : Aside p) (hI : Stable I) (hs : I s) :
    p.Returns C.Handler (fun _ s' => I s') s :=
  wp_mono (h.wp hI hs) fun _ _ hs' _ _ => hs'

lemma Aside.bind {p : LoopProgram β} (h : Aside p)
    (hf : ∀ b, AsideWith R (f b)) : AsideWith R (p >>= f) :=
  AsideWith.bind h fun b _ => hf b

lemma Aside.attempt (h : Aside p) : Aside p.attempt :=
  fun I hI => (h I hI).attempt fun _ _ _ _ => trivial

lemma aside_pure (a : α) : Aside (pure a : LoopProgram α) := asideWith_pure trivial

lemma aside_throw (error : LoopError) : Aside (throw error : LoopProgram α) := asideWith_throw error

/-- An effect that only lets the signal be aborted. -/
lemma aside_effect {e : LoopEffect}
    (h : ∀ s r s', Answers s e r s' → s' = s ∨ ∃ raised, s' = s.abort raised) :
    Aside (effect e) := by
  intro I hI
  apply Always.effect
  intro s r s' hs hanswer
  refine ⟨?_, fun _ _ => trivial⟩
  obtain rfl | ⟨raised, rfl⟩ := h s r s' hanswer
  · exact hs
  · exact hI.abort s raised hs

lemma aside_isAborted : Aside isAborted :=
  aside_effect fun _ _ _ h => by cases h; exact .inr ⟨_, rfl⟩

lemma aside_wait : Aside wait :=
  aside_effect fun _ _ _ h => by cases h; exact .inr ⟨_, rfl⟩

lemma aside_call (c : LoopCall) : Aside (call c) :=
  aside_effect fun _ _ _ h => by cases h; exact .inr ⟨_, rfl⟩

lemma aside_now : Aside now :=
  aside_effect fun _ _ _ h => by cases h; exact .inl rfl

lemma aside_emit {event : AgentEvent} (hbound : event.isBoundary = false)
    (hend : event.isAgentEnd = false) : Aside (emit event) := by
  intro I hI
  apply Always.effect
  rintro s r _ hs ⟨⟩
  exact ⟨hI.abort _ _ (hI.emitted s event hbound hend hs), fun _ _ => trivial⟩

lemma aside_throwIfAborted : Aside throwIfAborted :=
  aside_isAborted.bind fun _ => .ite (aside_throw _) (aside_pure _)

/-- A race tells of nothing, and a value that it returns is that of the operation. -/
lemma asideWith_raceWithAbort (operation : Settlement α) :
    AsideWith (fun value => operation = .ok value) (raceWithAbort operation) := by
  refine aside_isAborted.bind fun aborted => ?_
  cases aborted with
  | true => exact asideWith_throw _
  | false =>
    refine aside_wait.bind fun abortFirst => ?_
    cases abortFirst with
    | true => exact asideWith_throw _
    | false =>
      cases operation with
      | ok value => exact asideWith_pure rfl
      | error error => exact asideWith_throw error

lemma aside_raceWithAbort (operation : Settlement α) : Aside (raceWithAbort operation) :=
  (asideWith_raceWithAbort operation).aside

lemma aside_raceCall (c : LoopCall) : Aside (raceCall c) :=
  (aside_call c).bind fun _ => aside_raceWithAbort _

lemma aside_resultOr (message : AssistantMessage) : Aside (resultOr message) := by
  refine (aside_raceCall .result).attempt.bind fun r => ?_
  cases r with
  | ok value => exact aside_pure _
  | error error => exact aside_isAborted.bind fun aborted => .ite (aside_throw _) (aside_pure _)

lemma Aside.settlePostTurn {p : LoopProgram α} (h : Aside p) : Aside (settlePostTurn p) := by
  refine h.attempt.bind fun r => ?_
  cases r with
  | ok value => exact aside_pure _
  | error error =>
    exact aside_isAborted.bind fun aborted => .ite (aside_pure _) (aside_throw _)

lemma aside_poll (present : Bool) {poll : LoopProgram (Settlement (List AgentMessage))}
    (h : Aside poll) : Aside (pollMessagesUnlessAborted present poll) := by
  refine .ite (aside_pure _) ?_
  refine aside_isAborted.bind fun aborted => .ite (aside_pure _) ?_
  exact h.bind fun _ => aside_raceWithAbort _

variable (config : AgentLoopConfig)

lemma aside_shouldStopBeforeTurn (firstTurn : Bool) :
    Aside (shouldStopBeforeTurn config firstTurn) :=
  .ite (aside_pure _) (aside_effect fun _ _ _ h => by cases h; exact .inr ⟨_, rfl⟩)

lemma Aside.runIf {p : LoopProgram Unit} (h : Aside p) (condition : Bool) :
    Aside (runIf condition p) :=
  .ite h (aside_pure _)

lemma Aside.callIf {p : LoopProgram (Settlement α)} (h : Aside p) (present : Bool)
    (otherwise : α) : Aside (callIf present p otherwise) :=
  .ite h (aside_pure _)

lemma aside_requestResponse : Aside (requestResponse config) := by
  have hprompt : Aside (effect LoopEffect.getSystemPrompt : LoopProgram Unit) :=
    aside_effect fun _ _ _ h => by cases h; exact .inr ⟨_, rfl⟩
  refine aside_throwIfAborted.bind fun _ => ?_
  refine ((aside_raceCall _).runIf _).bind fun _ => ?_
  refine (aside_raceCall _).bind fun _ => ?_
  refine ((aside_raceCall _).runIf _).bind fun _ => ?_
  exact (hprompt.runIf _).bind fun _ => aside_raceCall _

/-! ### Tools -/

lemma aside_validatedArguments (tool : AgentTool) (toolCall : ToolCall) :
    Aside (validatedArguments tool toolCall) := by
  have hprepare : Aside (effect (LoopEffect.prepareArguments toolCall) : LoopProgram Unit) :=
    aside_effect fun _ _ _ h => by cases h; exact .inr ⟨_, rfl⟩
  refine (hprepare.runIf _).bind fun _ => ?_
  exact aside_effect fun _ _ _ h => by cases h; exact .inr ⟨_, rfl⟩

lemma aside_blockReason (toolCall : ToolCall) (args : Json) :
    Aside (blockReason config toolCall args) := by
  refine .ite (aside_pure _) ((aside_raceCall _).bind fun result => ?_)
  split
  · exact aside_pure _
  · exact aside_pure _

/-- A call that is prepared is the call itself. -/
lemma asideWith_prepareToolCall (toolCall : ToolCall) :
    AsideWith (fun preparation => ∀ prepared args, preparation = .prepared prepared args →
      prepared = toolCall) (prepareToolCall config toolCall) := by
  rw [prepareToolCall]
  cases config.tools.find? fun tool => tool.name = toolCall.name with
  | none => exact asideWith_pure fun _ _ => nofun
  | some tool =>
    refine AsideWith.tryCatch ?_ fun error => asideWith_pure fun _ _ => nofun
    refine (aside_validatedArguments tool toolCall).bind fun args => ?_
    refine (aside_blockReason config toolCall args).bind fun blocked => ?_
    cases blocked with
    | some reason => exact asideWith_pure fun _ _ => nofun
    | none =>
      apply asideWith_pure
      rintro _ _ ⟨⟩
      rfl

lemma aside_emitUpdates (toolCall : ToolCall) (partialResults : List AgentToolResult) :
    Aside (emitUpdates toolCall partialResults) := by
  induction partialResults with
  | nil => exact aside_pure _
  | cons partialResult partialResults ih =>
    refine aside_isAborted.bind fun aborted => .ite ih ?_
    refine (aside_emit rfl rfl).attempt.bind fun first => ?_
    exact ih.bind fun rest => aside_pure _

lemma aside_executePreparedToolCall (toolCall : ToolCall) (args : Json) :
    Aside (executePreparedToolCall toolCall args) := by
  refine AsideWith.tryCatch ?_ fun error => ?_
  · have hupdates : Aside (effect (LoopEffect.updates toolCall)) :=
      aside_effect fun _ _ _ h => by cases h; exact .inr ⟨_, rfl⟩
    refine aside_throwIfAborted.bind fun _ => hupdates.bind fun partialResults => ?_
    refine (aside_emitUpdates toolCall partialResults).bind fun updates => ?_
    refine (aside_raceCall _).bind fun result => ?_
    refine (aside_raceWithAbort updates).attempt.bind fun settled => ?_
    cases settled with
    | ok _ => exact aside_pure _
    | error error =>
      exact aside_isAborted.bind fun aborted => .ite (aside_throw _) (aside_pure _)
  · refine (aside_raceWithAbort _).attempt.bind fun _ => ?_
    exact aside_isAborted.bind fun aborted => .ite (aside_pure _) (aside_pure _)

lemma asideWith_finalizeExecutedToolCall (toolCall : ToolCall) (executed : AgentToolResult × Bool) :
    AsideWith (fun finalized => finalized.toolCall = toolCall)
      (finalizeExecutedToolCall config toolCall executed) := by
  refine .ite (asideWith_pure rfl) ?_
  refine AsideWith.tryCatch ?_ fun error => asideWith_pure rfl
  refine (aside_raceCall _).bind fun after => ?_
  cases after with
  | none | some after => exact asideWith_pure rfl

variable (finalized : FinalizedToolCall)

lemma aside_emitToolExecutionEnd : Aside (emitToolExecutionEnd finalized) :=
  aside_emit rfl rfl

lemma asideWith_runPreparedToolCall (toolCall : ToolCall) (args : Json) :
    AsideWith (fun finalized => finalized.toolCall = toolCall)
      (runPreparedToolCall config toolCall args) := by
  refine (aside_executePreparedToolCall toolCall args).bind fun executed => ?_
  refine (asideWith_finalizeExecutedToolCall config toolCall executed).bind fun finalized h => ?_
  exact (aside_emitToolExecutionEnd finalized).bind fun _ => asideWith_pure h

lemma aside_createToolResultMessage : Aside (createToolResultMessage finalized) :=
  aside_now.bind fun _ => aside_pure _

lemma asideWith_finishImmediate :
    AsideWith (fun result => result.toolCall = finalized.toolCall) (finishImmediate finalized) :=
  (aside_emitToolExecutionEnd finalized).bind fun _ => asideWith_pure rfl

lemma asideWith_executeToolCall (toolCall : ToolCall) :
    AsideWith (fun finalized => finalized.toolCall = toolCall)
      (executeToolCall config toolCall) := by
  refine (aside_emit rfl rfl).bind fun _ => ?_
  refine (asideWith_prepareToolCall config toolCall).bind fun preparation h => ?_
  cases preparation with
  | immediate result isError => exact asideWith_finishImmediate _
  | prepared prepared args =>
    obtain rfl := h prepared args rfl
    exact asideWith_runPreparedToolCall config prepared args

/-- What is left of a call tells of nothing either, and comes to that call. -/
lemma asideWith_startToolCall (toolCall : ToolCall) :
    AsideWith (AsideWith fun finalized => finalized.toolCall = toolCall)
      (startToolCall config toolCall) := by
  refine (aside_emit rfl rfl).bind fun _ => ?_
  refine (asideWith_prepareToolCall config toolCall).bind fun preparation h => ?_
  cases preparation with
  | immediate result isError =>
    refine (asideWith_finishImmediate _).bind fun finalized hfinalized => ?_
    exact asideWith_pure (asideWith_pure hfinalized)
  | prepared prepared args =>
    obtain rfl := h prepared args rfl
    exact asideWith_pure (asideWith_runPreparedToolCall config prepared args)

lemma asideWith_startEachToolCall (toolCalls : List ToolCall) :
    AsideWith (fun finalizedCalls => List.Forall₂ (fun p toolCall =>
        AsideWith (fun finalized : FinalizedToolCall => finalized.toolCall = toolCall) p)
      finalizedCalls toolCalls) (startEachToolCall config toolCalls) := by
  induction toolCalls with
  | nil => exact asideWith_pure .nil
  | cons toolCall toolCalls ih =>
    refine (asideWith_startToolCall config toolCall).bind fun finalizedCall h => ?_
    exact ih.bind fun finalizedCalls hrest => asideWith_pure (.cons h hrest)

/-- The calls that run at the same time come to results in their order. -/
lemma asideWith_all (fuel : ℕ) {ps : List (LoopProgram FinalizedToolCall)}
    {toolCalls : List ToolCall} (h : List.Forall₂ (fun p toolCall =>
      AsideWith (fun finalized : FinalizedToolCall => finalized.toolCall = toolCall) p)
      ps toolCalls) :
    AsideWith (fun finalizedCalls => finalizedCalls.map (·.toolCall) = toolCalls)
      (Program.all fuel ps) := by
  intro I hI
  have hall : Program.AllAlways Answers I ps
      (toolCalls.map fun toolCall finalized => finalized.toolCall = toolCall) := by
    rw [Program.AllAlways, List.forall₂_map_right_iff]
    exact h.imp fun p toolCall hp => hp I hI
  refine (Program.always_all fuel hall).mono fun r hr finalizedCalls hok => ?_
  have hforall := hr finalizedCalls hok
  rw [List.forall₂_map_right_iff] at hforall
  have hmap : List.Forall₂ Eq (finalizedCalls.map (·.toolCall)) toolCalls := by
    rwa [List.forall₂_map_left_iff]
  rwa [List.forall₂_eq_eq_eq] at hmap

end Aside

/-! ## Events -/

lemma wp_emit {event : AgentEvent} {Q : Except LoopError Unit → LoopWorld → Prop}
    (h : ∀ r raised, C.Holds s (.emit event) r → Q r ((s.emitted event).abort raised)) :
    (emit event).wp C.Handler Q s := by
  apply Program.wp_effect.mpr
  rintro r _ ⟨⟨⟩, hholds⟩
  exact h r _ hholds

end AgentLoop

end Amide
