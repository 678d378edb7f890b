import Amide.Construction.Agent.PendingMessages
import Amide.Properties.Agent.Transcript

/-!
# Queued messages of a run

A run that takes messages out of a queue tells of them at the start of its next turn.  Between the
two it waits for the hook that has taken them out and looks twice whether it is aborted, and if it
is the messages are in neither place (`Undisturbed`).

Everything else that a run does drains nothing (`Unpolled`), and only adds to what has been told.
-/

namespace Amide

open AgentLoop
open Program (Ends Only effect only_pure wp_bind wp_effect wp_mono)

/-! ## What is claimed -/

def AgentEvent.messageStart? : AgentEvent → Option AgentMessage
  | .messageStart message => some message
  | _ => none

namespace AgentWorld

/-- The messages whose start the run has told of. -/
def started (s : AgentWorld) : List AgentMessage :=
  s.loop.events.filterMap AgentEvent.messageStart?

/-- The messages whose end the run has told of. -/
def ended (s : AgentWorld) : List AgentMessage :=
  s.loop.events.filterMap AgentEvent.messageEnd?

/-- Every drained message has been told of, in its turn, or is in a queue. -/
def NoneLost (s : AgentWorld) : Prop :=
  ∃ told queued, s.drained.Perm (told ++ queued) ∧ told.Sublist s.started ∧ told.Sublist s.ended ∧
    ∀ message ∈ queued, message ∈ s.steeringQueue.messages ++ s.followUpQueue.messages

/-- The drained messages have been told of. -/
structure Told (s : AgentWorld) : Prop where
  started : s.drained.Sublist s.started
  ended : s.drained.Sublist s.ended

/-- As long as a drained message has not been told of, the sink rejects no event, and the signal is
aborted by no effect but an event. -/
def Undisturbed (s : AgentWorld) (e : LoopEffect) (r : Except LoopError e.Answer)
    (s' : AgentWorld) : Prop :=
  s'.Told ∨ match e, r with
    | .emit _, r => ∃ a, r = .ok a
    | _, _ => s'.loop.aborted = s.loop.aborted

def UndisturbedHandler (s : AgentWorld) (e : LoopEffect) (r : Except LoopError e.Answer)
    (s' : AgentWorld) : Prop :=
  s.Handler e r s' ∧ s.Undisturbed e r s'

end AgentWorld

/-! ## What drains nothing -/

namespace AgentLoop

/-- The effects that drain no queue. -/
def DrainsNothing (e : LoopEffect) : Prop :=
  e ≠ .call .getSteeringMessages ∧ e ≠ .call .getFollowUpMessages

section Unpolled

variable {α β : Type} {p : LoopProgram α}

def Unpolled (p : LoopProgram α) : Prop := p.Only DrainsNothing fun _ => True

lemma Unpolled.bind {p : LoopProgram β} {f : β → LoopProgram α} (h : Unpolled p)
    (hf : ∀ b, Unpolled (f b)) : Unpolled (p >>= f) :=
  Only.bind h fun b _ => hf b

lemma unpolled_pure (a : α) : Unpolled (pure a : LoopProgram α) := trivial

lemma unpolled_throw (error : LoopError) : Unpolled (throw error : LoopProgram α) := trivial

lemma unpolled_effect (e : LoopEffect) (h : DrainsNothing e) : Unpolled (effect e) :=
  Program.only_effect h

lemma unpolled_emit (event : AgentEvent) : Unpolled (emit event) :=
  unpolled_effect _ ⟨nofun, nofun⟩

lemma unpolled_isAborted : Unpolled isAborted := unpolled_effect _ ⟨nofun, nofun⟩

lemma unpolled_read : Unpolled read := unpolled_effect _ ⟨nofun, nofun⟩

lemma unpolled_write (locals : LoopLocals) : Unpolled (write locals) :=
  unpolled_effect _ ⟨nofun, nofun⟩

variable (message : AgentMessage)

lemma unpolled_pushContext : Unpolled (pushContext message) :=
  unpolled_read.bind fun _ => unpolled_write _

lemma unpolled_replaceLastInContext : Unpolled (replaceLastInContext message) :=
  unpolled_read.bind fun _ => unpolled_write _

lemma unpolled_pushNew : Unpolled (pushNew message) :=
  unpolled_read.bind fun _ => unpolled_write _

lemma unpolled_setPartialMessage (part : Option AssistantMessage) :
    Unpolled (setPartialMessage part) :=
  unpolled_read.bind fun _ => unpolled_write _

lemma unpolled_throwIfAborted : Unpolled throwIfAborted :=
  unpolled_isAborted.bind fun _ => .ite (unpolled_throw _) (unpolled_pure _)

lemma unpolled_raceWithAbort (operation : Settlement α) : Unpolled (raceWithAbort operation) := by
  refine unpolled_isAborted.bind fun aborted => ?_
  refine Only.ite (unpolled_throw _) (Unpolled.bind (unpolled_effect _ ⟨nofun, nofun⟩) ?_)
  refine fun abortFirst => Only.ite (unpolled_throw _) ?_
  cases operation with
  | ok value => exact unpolled_pure value
  | error error => exact unpolled_throw error

lemma unpolled_raceCall (c : LoopCall) (h : DrainsNothing (.call c)) : Unpolled (raceCall c) :=
  (unpolled_effect _ h).bind fun _ => unpolled_raceWithAbort _

lemma Unpolled.runIf {p : LoopProgram Unit} (h : Unpolled p) (condition : Bool) :
    Unpolled (runIf condition p) :=
  .ite h (unpolled_pure _)

lemma Unpolled.settlePostTurn (h : Unpolled p) : Unpolled (settlePostTurn p) := by
  refine Unpolled.bind (Only.attempt h) fun r => ?_
  cases r with
  | ok value => exact unpolled_pure _
  | error error =>
    exact unpolled_isAborted.bind fun _ => .ite (unpolled_pure _) (unpolled_throw _)

lemma unpolled_shouldStopBeforeTurn (config : AgentLoopConfig) (firstTurn : Bool) :
    Unpolled (shouldStopBeforeTurn config firstTurn) :=
  .ite (unpolled_pure _) (unpolled_effect _ ⟨nofun, nofun⟩)

lemma unpolled_emitAgentEnd : Unpolled emitAgentEnd :=
  unpolled_read.bind fun _ => unpolled_emit _

lemma unpolled_emitMessage : Unpolled (emitMessage message) :=
  (unpolled_emit _).bind fun _ => unpolled_emit _

lemma unpolled_emitMessages (messages : List AgentMessage) : Unpolled (emitMessages messages) := by
  induction messages with
  | nil => exact unpolled_pure _
  | cons message messages ih => exact (unpolled_emitMessage message).bind fun _ => ih

lemma unpolled_injectMessages (messages : List AgentMessage) :
    Unpolled (injectMessages messages) := by
  induction messages with
  | nil => exact unpolled_pure _
  | cons message messages ih =>
    refine (unpolled_emitMessage message).bind fun _ => ?_
    exact (unpolled_pushContext _).bind fun _ => (unpolled_pushNew _).bind fun _ => ih

/-! ### A response -/

lemma unpolled_finishMessage (message : AssistantMessage) : Unpolled (finishMessage message) := by
  have hend := (unpolled_emit (.messageEnd (.assistant message))).bind
    fun _ => unpolled_pure message
  refine unpolled_read.bind fun locals => ?_
  split_ifs
  · exact (unpolled_replaceLastInContext _).bind fun _ => hend
  · exact (unpolled_pushContext _).bind fun _ => (unpolled_emit _).bind fun _ => hend

lemma unpolled_resultOr (message : AssistantMessage) : Unpolled (resultOr message) := by
  refine Unpolled.bind (Only.attempt (unpolled_raceCall .result ⟨nofun, nofun⟩)) fun r => ?_
  cases r with
  | ok value => exact unpolled_pure _
  | error error =>
    exact unpolled_isAborted.bind fun _ => .ite (unpolled_throw _) (unpolled_pure _)

lemma unpolled_streamEvents (fuel : ℕ) : Unpolled (streamEvents fuel) := by
  induction fuel with
  | zero => trivial
  | succ fuel ih =>
    refine (unpolled_raceCall .nextEvent ⟨nofun, nofun⟩).bind ?_
    rintro (_ | part | part | message | message)
    · exact (unpolled_raceCall .result ⟨nofun, nofun⟩).bind fun _ => unpolled_finishMessage _
    · refine (unpolled_setPartialMessage _).bind fun _ => (unpolled_pushContext _).bind fun _ => ?_
      exact (unpolled_emit _).bind fun _ => ih
    · refine unpolled_read.bind fun locals => ?_
      split_ifs
      · refine (unpolled_setPartialMessage _).bind fun _ => ?_
        exact (unpolled_replaceLastInContext _).bind fun _ => (unpolled_emit _).bind fun _ => ih
      · exact ih
    · exact (unpolled_resultOr _).bind fun _ => unpolled_finishMessage _
    · exact (unpolled_resultOr _).bind fun _ => unpolled_finishMessage _

lemma unpolled_streamAssistantResponse (config : AgentLoopConfig) (fuel : ℕ) :
    Unpolled (streamAssistantResponse config fuel) := by
  refine (unpolled_setPartialMessage none).bind fun _ => Only.tryCatch ?_ fun error => ?_
  · have hreq : Unpolled (requestResponse config) := by
      refine unpolled_throwIfAborted.bind fun _ => ?_
      refine ((unpolled_raceCall .transformContext ⟨nofun, nofun⟩).runIf _).bind fun _ => ?_
      refine (unpolled_raceCall .convertToLlm ⟨nofun, nofun⟩).bind fun _ => ?_
      refine ((unpolled_raceCall .getApiKey ⟨nofun, nofun⟩).runIf _).bind fun _ => ?_
      refine Unpolled.bind (.runIf (unpolled_effect .getSystemPrompt ⟨nofun, nofun⟩) _)
        fun _ => ?_
      exact unpolled_raceCall .streamFunction ⟨nofun, nofun⟩
    exact hreq.bind fun _ => unpolled_streamEvents fuel
  · refine unpolled_isAborted.bind fun _ => .ite ?_ (unpolled_throw _)
    refine unpolled_read.bind fun locals => Unpolled.bind ?_ fun _ => unpolled_finishMessage _
    exact Unpolled.bind (unpolled_effect _ ⟨nofun, nofun⟩) fun _ => unpolled_pure _

/-! ### Tools -/

lemma unpolled_prepareToolCall (config : AgentLoopConfig) (toolCall : ToolCall) :
    Unpolled (prepareToolCall config toolCall) := by
  rw [prepareToolCall]
  cases config.tools.find? fun tool => tool.name = toolCall.name with
  | none => exact unpolled_pure _
  | some tool =>
    refine Only.tryCatch ?_ fun error => unpolled_pure _
    have hvalidated : Unpolled (validatedArguments tool toolCall) :=
      Unpolled.bind
        (.runIf (unpolled_effect (.prepareArguments toolCall) (by simp [DrainsNothing])) _)
        fun _ => unpolled_effect (.validateToolArguments toolCall) (by simp [DrainsNothing])
    have hblocked (args : Json) : Unpolled (blockReason config toolCall args) := by
      refine Only.ite (unpolled_pure _) ?_
      refine (unpolled_raceCall (.beforeToolCall toolCall args) (by simp [DrainsNothing])).bind
        fun _ => ?_
      split
      · exact unpolled_pure _
      · exact unpolled_pure _
    refine hvalidated.bind fun args => (hblocked args).bind fun blocked => ?_
    cases blocked with
    | none | some reason => exact unpolled_pure _

lemma unpolled_emitUpdates (toolCall : ToolCall) (partialResults : List AgentToolResult) :
    Unpolled (emitUpdates toolCall partialResults) := by
  induction partialResults with
  | nil => exact unpolled_pure _
  | cons partialResult partialResults ih =>
    refine unpolled_isAborted.bind fun _ => .ite ih ?_
    refine Unpolled.bind (Only.attempt (unpolled_emit _)) fun first => ?_
    exact ih.bind fun rest => unpolled_pure _

lemma unpolled_executePreparedToolCall (toolCall : ToolCall) (args : Json) :
    Unpolled (executePreparedToolCall toolCall args) := by
  refine Only.tryCatch ?_ fun error => ?_
  · refine unpolled_throwIfAborted.bind fun _ => ?_
    refine Unpolled.bind (unpolled_effect _ ⟨nofun, nofun⟩) fun partialResults => ?_
    refine (unpolled_emitUpdates toolCall partialResults).bind fun updates => ?_
    refine (unpolled_raceCall (.execute toolCall args) ⟨nofun, nofun⟩).bind fun result => ?_
    refine Unpolled.bind (Only.attempt (unpolled_raceWithAbort updates)) fun settled => ?_
    cases settled with
    | ok _ => exact unpolled_pure _
    | error error =>
      exact unpolled_isAborted.bind fun _ => .ite (unpolled_throw _) (unpolled_pure _)
  · refine Unpolled.bind (Only.attempt (unpolled_raceWithAbort _)) fun _ => ?_
    exact unpolled_isAborted.bind fun _ => .ite (unpolled_pure _) (unpolled_pure _)

lemma unpolled_runPreparedToolCall (config : AgentLoopConfig) (toolCall : ToolCall) (args : Json) :
    Unpolled (runPreparedToolCall config toolCall args) := by
  refine (unpolled_executePreparedToolCall toolCall args).bind fun executed => ?_
  refine Unpolled.bind ?_ fun finalized => (unpolled_emit _).bind fun _ => unpolled_pure _
  refine Only.ite (unpolled_pure _) (Only.tryCatch ?_ fun error => unpolled_pure _)
  refine (unpolled_raceCall (.afterToolCall toolCall executed.1 executed.2)
    ⟨nofun, nofun⟩).bind fun after => ?_
  cases after with
  | none | some after => exact unpolled_pure _

lemma unpolled_finishImmediate (finalized : FinalizedToolCall) :
    Unpolled (finishImmediate finalized) :=
  (unpolled_emit _).bind fun _ => unpolled_pure _

lemma unpolled_answerToolCall (finalized : FinalizedToolCall) :
    Unpolled (answerToolCall finalized) := by
  have hcreate : Unpolled (createToolResultMessage finalized) :=
    Unpolled.bind (unpolled_effect _ ⟨nofun, nofun⟩) fun _ => unpolled_pure _
  exact hcreate.bind fun result =>
    (unpolled_emitMessage (.toolResult result)).bind fun _ => unpolled_pure _

lemma unpolled_executeEachToolCall (config : AgentLoopConfig) (toolCalls : List ToolCall) :
    Unpolled (executeEachToolCall config toolCalls) := by
  induction toolCalls with
  | nil => exact unpolled_pure _
  | cons toolCall toolCalls ih =>
    have hexecute : Unpolled (executeToolCall config toolCall) := by
      refine (unpolled_emit _).bind fun _ => ?_
      refine (unpolled_prepareToolCall config toolCall).bind fun preparation => ?_
      cases preparation with
      | immediate result isError => exact unpolled_finishImmediate _
      | prepared toolCall args => exact unpolled_runPreparedToolCall config toolCall args
    refine unpolled_isAborted.bind fun _ => .ite (unpolled_pure _) ?_
    refine hexecute.bind fun finalized => (unpolled_answerToolCall finalized).bind fun result => ?_
    refine unpolled_isAborted.bind fun _ => .ite (unpolled_pure _) ?_
    exact ih.bind fun rest => unpolled_pure _

/-- What is left of the calls drains nothing either. -/
lemma only_startEachToolCall (config : AgentLoopConfig) (toolCalls : List ToolCall) :
    (startEachToolCall config toolCalls).Only DrainsNothing fun ps => ∀ p ∈ ps, Unpolled p := by
  induction toolCalls with
  | nil => exact only_pure fun _ => nofun
  | cons toolCall toolCalls ih =>
    have hstart : (startToolCall config toolCall).Only DrainsNothing Unpolled := by
      refine Only.bind (unpolled_emit _) fun _ _ => ?_
      refine Only.bind (unpolled_prepareToolCall config toolCall) fun preparation _ => ?_
      cases preparation with
      | immediate result isError =>
        exact Only.bind (unpolled_finishImmediate _) fun finalized _ =>
          only_pure (unpolled_pure finalized)
      | prepared toolCall args =>
        exact only_pure (unpolled_runPreparedToolCall config toolCall args)
    refine hstart.bind fun p hp => Only.bind ih fun ps hps => only_pure ?_
    exact List.forall_mem_cons.mpr ⟨hp, hps⟩

lemma unpolled_executeToolCalls (config : AgentLoopConfig) (fuel : ℕ) (toolCalls : List ToolCall) :
    Unpolled (executeToolCalls config fuel toolCalls) := by
  rw [executeToolCalls]
  split_ifs
  · exact (unpolled_executeEachToolCall config toolCalls).bind fun executed => unpolled_pure _
  · refine Only.bind (only_startEachToolCall config toolCalls) fun ps hps => ?_
    refine Only.bind (Program.only_all fuel hps) fun ordered _ => ?_
    have hanswer : Unpolled (answerToolCalls ordered) := by
      induction ordered with
      | nil => exact unpolled_pure _
      | cons finalized ordered ih =>
        exact (unpolled_answerToolCall finalized).bind fun result =>
          ih.bind fun results => unpolled_pure _
    exact hanswer.bind fun messages => unpolled_pure _

lemma unpolled_pushToolResults (results : List ToolResultMessage) :
    Unpolled (pushToolResults results) := by
  induction results with
  | nil => exact unpolled_pure _
  | cons result results ih =>
    exact (unpolled_pushContext _).bind fun _ => (unpolled_pushNew _).bind fun _ => ih

end Unpolled

/-! ## What has been told -/

open AgentWorld

variable {s s' : AgentWorld} {pending : List AgentMessage}

/-- The drained messages have been told of, but for the last ones, `pending`. -/
def Due (pending : List AgentMessage) (s : AgentWorld) : Prop :=
  ∃ done, s.drained = done ++ pending ∧ done.Sublist s.started ∧ done.Sublist s.ended

/-- So far, the run is not aborted either. -/
structure Waiting (pending : List AgentMessage) (s : AgentWorld) : Prop where
  aborted : s.loop.aborted = false
  due : Due pending s

lemma due_nil_iff : Due [] s ↔ s.Told := by
  constructor
  · rintro ⟨done, hdrained, hstarted, hended⟩
    rw [List.append_nil] at hdrained
    rw [← hdrained] at hstarted hended
    exact ⟨hstarted, hended⟩
  · exact fun h => ⟨s.drained, (List.append_nil _).symm, h.started, h.ended⟩

variable {e : LoopEffect} {r : Except LoopError e.Answer}

lemma exists_events {w w' : LoopWorld} (h : w.Answers e r w') :
    ∃ new, w'.events = w.events ++ new := by
  cases h <;> first | exact ⟨_, rfl⟩ | exact ⟨[], (List.append_nil _).symm⟩

/-- What drains nothing can only tell of more. -/
lemma Due.step (h : Due pending s) (he : DrainsNothing e)
    (hanswer : s.Handler e r s') : Due pending s' := by
  obtain ⟨done, hdrained, hstarted, hended⟩ := h
  obtain ⟨steeringQueue, followUpQueue, hanswer⟩ := hanswer
  cases hanswer with
  | getSteeringMessages | skipSteeringMessages => exact absurd rfl he.1
  | getFollowUpMessages => exact absurd rfl he.2
  | @other _ _ loop hloop =>
    obtain ⟨new, hnew⟩ := exists_events hloop
    have hmore (f : AgentEvent → Option AgentMessage) :
        (s.loop.events.filterMap f).Sublist (loop.events.filterMap f) := by
      rw [hnew]
      exact (List.sublist_append_left ..).filterMap f
    exact ⟨done, hdrained, hstarted.trans (hmore _), hended.trans (hmore _)⟩

variable {α : Type}

lemma Unpolled.due {p : LoopProgram α} (h : Unpolled p) (hs : Due pending s) :
    p.wp UndisturbedHandler (fun _ s' => Due pending s') s := by
  have halways : p.Always UndisturbedHandler (Due pending) fun _ => True :=
    h.always fun _ _ _ _ he hdue hanswer => hdue.step he hanswer.1
  exact wp_mono (halways.wp hs) fun _ _ => And.right

section Delivers

variable {α β : Type} {S : β → AgentWorld → Prop} {T : α → AgentWorld → Prop}

/-- The program leaves everything told of, or returns a value and leaves what `T` says. -/
def Delivers (T : α → AgentWorld → Prop) (p : LoopProgram α) (s : AgentWorld) : Prop :=
  p.wp UndisturbedHandler (fun r s' => s'.Told ∨ ∃ a, r = .ok a ∧ T a s') s

lemma delivers_pure {a : α} (h : s.Told ∨ T a s) : Delivers T (pure a) s :=
  h.imp id fun hT => ⟨a, rfl, hT⟩

lemma Delivers.mono {T' : α → AgentWorld → Prop} {p : LoopProgram α} (h : Delivers T p s)
    (hT : ∀ a s', T a s' → T' a s') : Delivers T' p s := by
  refine wp_mono h ?_
  rintro r s' (htold | ⟨a, rfl, ha⟩)
  · exact .inl htold
  · exact .inr ⟨a, rfl, hT a s' ha⟩

lemma Delivers.bind {p : LoopProgram β} {f : β → LoopProgram α} (h : Delivers S p s)
    (htold : ∀ b s', s'.Told → Delivers T (f b) s')
    (hnext : ∀ b s', S b s' → Delivers T (f b) s') : Delivers T (p >>= f) s := by
  rw [Delivers, wp_bind]
  refine wp_mono h ?_
  rintro (error | b) s' (hs' | ⟨b', hb, hS⟩)
  · exact .inl hs'
  · cases hb
  · exact htold b s' hs'
  · cases hb
    exact hnext b s' hS

lemma Delivers.bind_either {p : LoopProgram β} {f : β → LoopProgram α} (h : Delivers S p s)
    (hf : ∀ b s', s'.Told ∨ S b s' → Delivers T (f b) s') : Delivers T (p >>= f) s :=
  h.bind (fun b s' hs' => hf b s' (.inl hs')) fun b s' hs' => hf b s' (.inr hs')

lemma Unpolled.delivers {p : LoopProgram α} (h : Unpolled p) (hs : s.Told) : Delivers T p s :=
  wp_mono (h.due (due_nil_iff.mpr hs)) fun _ _ hs' => .inl (due_nil_iff.mp hs')

/-- Everything has been told of, and stays so. -/
lemma Unpolled.bind_delivers {p : LoopProgram β} {f : β → LoopProgram α} (h : Unpolled p)
    (hs : s.Told) (hf : ∀ b s', s'.Told → Delivers T (f b) s') : Delivers T (p >>= f) s :=
  Delivers.bind (S := fun _ _ => False) (h.delivers hs) hf fun _ _ => False.elim

end Delivers

/-! ### Between the hook and the messages -/

section Waiting

variable {α : Type}

lemma isAborted_waiting (hs : Waiting pending s) :
    Delivers (fun aborted s' => aborted = false ∧ Waiting pending s') isAborted s := by
  rintro r s' ⟨⟨steeringQueue, followUpQueue, hanswer⟩, hundisturbed⟩
  cases hanswer with
  | other hloop =>
    cases hloop
    refine hundisturbed.imp id fun hsame => ⟨_, rfl, ?_⟩
    have haborted := hsame.trans hs.aborted
    exact ⟨haborted, haborted, hs.due⟩

lemma wait_waiting (hs : Waiting pending s) :
    Delivers (fun abortFirst s' => abortFirst = false ∧ Waiting pending s') wait s := by
  rintro r s' ⟨⟨steeringQueue, followUpQueue, hanswer⟩, hundisturbed⟩
  cases hanswer with
  | other hloop =>
    cases hloop with
    | wait habort =>
      refine hundisturbed.imp id fun hsame => ⟨_, rfl, ?_, hsame.trans hs.aborted, hs.due⟩
      rw [Bool.eq_false_iff]
      intro hfirst
      have haborted := hsame.trans hs.aborted
      cases (habort hfirst).symm.trans haborted

lemma throwIfAborted_waiting (hs : Waiting pending s) :
    Delivers (fun _ s' => Waiting pending s') throwIfAborted s := by
  refine (isAborted_waiting hs).bind (fun aborted s₁ hs₁ => ?_) ?_
  · exact Unpolled.delivers (.ite (unpolled_throw _) (unpolled_pure _)) hs₁
  · rintro _ s₁ ⟨rfl, hs₁⟩
    exact delivers_pure (.inr hs₁)

/-- The hook's messages are there, and nothing has come first. -/
lemma raceWithAbort_waiting (value : α) (hs : Waiting pending s) :
    Delivers (fun value' s' => value' = value ∧ Waiting pending s')
      (raceWithAbort (.ok value)) s := by
  have hwait : Unpolled (do
      if ← wait then
        throw createAbortError
      return value : LoopProgram α) :=
    Unpolled.bind (unpolled_effect _ ⟨nofun, nofun⟩) fun abortFirst =>
      .ite (unpolled_throw _) (unpolled_pure _)
  refine (isAborted_waiting hs).bind (fun aborted s₁ hs₁ => ?_) ?_
  · exact Unpolled.delivers (.ite (unpolled_throw _) hwait) hs₁
  · rintro _ s₁ ⟨rfl, hs₁⟩
    refine (wait_waiting hs₁).bind (fun abortFirst s₂ hs₂ => ?_) ?_
    · exact Unpolled.delivers (.ite (unpolled_throw _) (unpolled_pure _)) hs₂
    · rintro _ s₂ ⟨rfl, hs₂⟩
      exact delivers_pure (.inr ⟨rfl, hs₂⟩)

end Waiting

/-! ### Hooks that drain a queue -/

/-- The messages that the hook has taken out are due now. -/
lemma waiting_drained (hs : s.Told) {messages : List AgentMessage}
    (hdrained : s'.drained = s.drained ++ messages) (hevents : s'.loop.events = s.loop.events)
    (haborted : s'.loop.aborted = false) : Waiting messages s' := by
  refine ⟨haborted, s.drained, hdrained, ?_, ?_⟩
  · rw [AgentWorld.started, hevents]
    exact hs.started
  · rw [AgentWorld.ended, hevents]
    exact hs.ended

lemma getSteeringMessages_delivers (hs : s.Told) (haborted : s.loop.aborted = false) :
    Delivers (fun operation s' => ∃ messages, operation = .ok messages ∧ Waiting messages s')
      (call .getSteeringMessages) s := by
  apply wp_effect.mpr
  rintro r s' ⟨⟨steeringQueue, followUpQueue, hanswer⟩, hundisturbed⟩
  refine hundisturbed.imp id fun hsame => ?_
  cases hanswer with
  | getSteeringMessages hskip =>
    exact ⟨_, rfl, _, rfl, waiting_drained hs rfl rfl (hsame.trans haborted)⟩
  | skipSteeringMessages hskip =>
    exact ⟨_, rfl, _, rfl, waiting_drained hs (List.append_nil _).symm rfl (hsame.trans haborted)⟩
  | other _ hsteering => exact absurd rfl hsteering

lemma getFollowUpMessages_delivers (hs : s.Told) (haborted : s.loop.aborted = false) :
    Delivers (fun operation s' => ∃ messages, operation = .ok messages ∧ Waiting messages s')
      (call .getFollowUpMessages) s := by
  apply wp_effect.mpr
  rintro r s' ⟨⟨steeringQueue, followUpQueue, hanswer⟩, hundisturbed⟩
  refine hundisturbed.imp id fun hsame => ?_
  cases hanswer with
  | getFollowUpMessages =>
    exact ⟨_, rfl, _, rfl, waiting_drained hs rfl rfl (hsame.trans haborted)⟩
  | other _ _ hfollowUp => exact absurd rfl hfollowUp

/-- The queue is not drained by a run that is aborted. -/
lemma poll_delivers (present : Bool) {poll : LoopProgram (Settlement (List AgentMessage))}
    (hpoll : ∀ s : AgentWorld, s.Told → s.loop.aborted = false →
      Delivers (fun operation s' => ∃ messages, operation = .ok messages ∧ Waiting messages s')
        poll s) (hs : s.Told) :
    Delivers Waiting (pollMessagesUnlessAborted present poll) s := by
  rw [pollMessagesUnlessAborted]
  split_ifs
  · exact delivers_pure (.inl hs)
  · have haborted : isAborted.wp UndisturbedHandler
        (fun r s' => s'.Told ∧ r = .ok s'.loop.aborted) s := by
      rintro r s' ⟨hanswer, -⟩
      have hdrains : DrainsNothing .isAborted := ⟨nofun, nofun⟩
      have htold := due_nil_iff.mp ((due_nil_iff.mpr hs).step hdrains hanswer)
      obtain ⟨steeringQueue, followUpQueue, hanswer⟩ := hanswer
      cases hanswer with
      | other hloop =>
        cases hloop
        exact ⟨htold, rfl⟩
    rw [Delivers, wp_bind]
    refine wp_mono haborted ?_
    rintro _ s₁ ⟨hs₁, rfl⟩
    dsimp only
    split_ifs with habort
    · exact delivers_pure (.inl hs₁)
    · refine (hpoll s₁ hs₁ (Bool.not_eq_true _ ▸ habort)).bind (fun operation s₂ hs₂ => ?_) ?_
      · exact (unpolled_raceWithAbort operation).delivers hs₂
      · rintro _ s₂ ⟨messages, rfl, hs₂⟩
        refine (raceWithAbort_waiting messages hs₂).mono ?_
        rintro _ s₃ ⟨rfl, hs₃⟩
        exact hs₃

lemma Delivers.settlePostTurn {T : α → AgentWorld → Prop} {p : LoopProgram α} (h : Delivers T p s) :
    Delivers (fun value s' => ∃ a, value = some a ∧ T a s') (settlePostTurn p) s := by
  rw [AgentLoop.settlePostTurn, Delivers, wp_bind, Program.wp_attempt]
  refine wp_mono h ?_
  rintro r s' (hs' | ⟨a, rfl, ha⟩)
  · cases r with
    | ok value => exact (unpolled_pure _).delivers hs'
    | error error =>
      refine Unpolled.delivers ?_ hs'
      exact unpolled_isAborted.bind fun _ => .ite (unpolled_pure _) (unpolled_throw _)
  · exact delivers_pure (.inr ⟨a, rfl, ha⟩)

/-! ### Turns -/

/-- What the run goes on with waits, if it is anything. -/
def GoesOnWaiting (value : Option TurnOutcome) (s : AgentWorld) : Prop :=
  ∃ outcome, value = some outcome ∧ Waiting outcome.pendingMessages s

lemma unpolled_endRun : Unpolled (do
    emitAgentEnd
    return none : LoopProgram (Option α)) :=
  unpolled_emitAgentEnd.bind fun _ => unpolled_pure _

lemma afterTurn_delivers (config : AgentLoopConfig) (hasMoreToolCalls : Bool) (hs : s.Told) :
    Delivers GoesOnWaiting (afterTurn config hasMoreToolCalls) s := by
  refine unpolled_isAborted.bind_delivers hs fun aborted s₁ hs₁ => ?_
  split_ifs
  · exact unpolled_endRun.delivers hs₁
  · have hstop : Unpolled (callIf config.shouldStopAfterTurn (call .shouldStopAfterTurn) false) :=
      .ite (unpolled_effect _ ⟨nofun, nofun⟩) (unpolled_pure _)
    refine hstop.bind_delivers hs₁ fun shouldStop s₂ hs₂ => ?_
    refine (unpolled_raceWithAbort shouldStop).settlePostTurn.bind_delivers hs₂ ?_
    rintro (_ | stop) s₃ hs₃
    · exact unpolled_endRun.delivers hs₃
    · have hbefore : Unpolled
          (if stop = true then pure true else shouldStopBeforeTurn config false) :=
        .ite (unpolled_pure _) (unpolled_shouldStopBeforeTurn config false)
      refine hbefore.bind_delivers hs₃ fun stop' s₄ hs₄ => ?_
      split_ifs
      · exact unpolled_endRun.delivers hs₄
      · have hgoesOn (pending : List AgentMessage) (stop'' : Bool) : Unpolled (if stop'' = true then
              (do
                emitAgentEnd
                return none)
            else return some ⟨hasMoreToolCalls, pending⟩ : LoopProgram (Option TurnOutcome)) :=
          .ite unpolled_endRun (unpolled_pure _)
        have hafter (pending : List AgentMessage) : Unpolled
            (if pending.isEmpty = true then shouldStopBeforeTurn config false else pure false) :=
          .ite (unpolled_shouldStopBeforeTurn config false) (unpolled_pure _)
        refine (poll_delivers _ (fun _ => getSteeringMessages_delivers) hs₄).settlePostTurn.bind
          ?_ ?_
        · rintro (_ | pending) s₅ hs₅
          · exact unpolled_endRun.delivers hs₅
          · exact ((hafter pending).bind (hgoesOn pending)).delivers hs₅
        · rintro _ s₅ ⟨pending, rfl, hs₅⟩
          cases pending with
          | nil =>
            exact ((hafter []).bind (hgoesOn [])).delivers (due_nil_iff.mp hs₅.due)
          | cons message pending => exact delivers_pure (.inr ⟨_, rfl, hs₅⟩)

/-- The run never goes on with drained messages but after a turn. -/
lemma finishTurn_delivers (config : AgentLoopConfig) (fuel : ℕ) (message : AssistantMessage)
    (hs : s.Told) : Delivers GoesOnWaiting (finishTurn config fuel message) s := by
  rw [finishTurn]
  split_ifs
  · exact ((unpolled_emit _).bind fun _ => unpolled_endRun).delivers hs
  · exact (unpolled_emit _).bind_delivers hs fun _ s₁ hs₁ => afterTurn_delivers config _ hs₁
  · refine (unpolled_executeToolCalls config fuel _).bind_delivers hs fun batch s₁ hs₁ => ?_
    refine (unpolled_pushToolResults _).bind_delivers hs₁ fun _ s₂ hs₂ => ?_
    exact (unpolled_emit _).bind_delivers hs₂ fun _ s₃ hs₃ => afterTurn_delivers config _ hs₃

/-- The sink takes every event as long as a message is due. -/
lemma emit_due (event : AgentEvent) {T : Unit → AgentWorld → Prop}
    (h : ∀ s' : AgentWorld, s'.drained = s.drained →
      (∃ raised, s'.loop = (s.loop.emitted event).abort raised) → s'.Told ∨ T () s') :
    Delivers T (emit event) s := by
  apply wp_effect.mpr
  rintro r s' ⟨⟨steeringQueue, followUpQueue, hanswer⟩, hundisturbed⟩
  rcases hundisturbed with htold | ⟨⟨⟩, rfl⟩
  · exact .inl htold
  · cases hanswer with
    | other hloop =>
      cases hloop with
      | @emit _ raised _ => exact Or.imp id (fun hT => ⟨(), rfl, hT⟩) (h _ rfl ⟨raised, rfl⟩)

section
variable {event : AgentEvent} {raised : Bool} (h : s'.loop = (s.loop.emitted event).abort raised)
include h

lemma started_emitted : s'.started = s.started ++ [event].filterMap AgentEvent.messageStart? := by
  rw [AgentWorld.started, h]
  exact List.filterMap_append

lemma ended_emitted : s'.ended = s.ended ++ [event].filterMap AgentEvent.messageEnd? := by
  rw [AgentWorld.ended, h]
  exact List.filterMap_append

end

lemma emitMessage_due {message : AgentMessage} (hs : Due (message :: pending) s) :
    Delivers (fun _ s' => Due pending s') (emitMessage message) s := by
  obtain ⟨done, hdrained, hstarted, hended⟩ := hs
  have hstart : Delivers (fun _ s' => s'.drained = done ++ message :: pending ∧
      (done ++ [message]).Sublist s'.started ∧ done.Sublist s'.ended)
      (emit (.messageStart message)) s := by
    refine emit_due _ ?_
    rintro s' hsame ⟨raised, hloop⟩
    refine .inr ⟨hsame.trans hdrained, ?_, ?_⟩
    · rw [started_emitted hloop]
      exact hstarted.append (List.Sublist.refl _)
    · rw [ended_emitted hloop]
      exact hended.trans (List.sublist_append_left _ _)
  refine hstart.bind (fun _ s₁ hs₁ => (unpolled_emit _).delivers hs₁) ?_
  rintro _ s₁ ⟨hdrained₁, hstarted₁, hended₁⟩
  refine emit_due _ ?_
  rintro s' hsame ⟨raised, hloop⟩
  refine .inr ⟨done ++ [message], ?_, ?_, ?_⟩
  · rw [hsame, hdrained₁, List.append_cons]
  · rw [started_emitted hloop]
    exact hstarted₁.trans (List.sublist_append_left _ _)
  · rw [ended_emitted hloop]
    exact hended₁.append (List.Sublist.refl _)

lemma effect_due (he : DrainsNothing e)
    (hok : ∀ w r w', LoopWorld.Answers w e r w' → ∃ a, r = .ok a) (hs : Due pending s) :
    Delivers (fun _ s' => Due pending s') (effect e) s := by
  rintro r s' ⟨hanswer, -⟩
  have hdue := hs.step he hanswer
  obtain ⟨steeringQueue, followUpQueue, hanswer⟩ := hanswer
  cases hanswer with
  | getSteeringMessages => exact absurd rfl he.1
  | skipSteeringMessages => exact absurd rfl he.1
  | getFollowUpMessages => exact absurd rfl he.2
  | other hloop =>
    obtain ⟨a, rfl⟩ := hok _ _ _ hloop
    exact .inr ⟨a, rfl, hdue⟩

/-- Reading and writing the variables throws nothing. -/
lemma update_due (update : LoopLocals → LoopLocals) (hs : Due pending s) :
    Delivers (fun _ s' => Due pending s')
      (do
        let locals ← read
        write (update locals)) s := by
  have hread : Delivers (fun _ s' => Due pending s') read s := by
    refine effect_due ⟨nofun, nofun⟩ ?_ hs
    rintro w r w' ⟨⟩
    exact ⟨_, rfl⟩
  refine hread.bind (fun locals s₁ hs₁ => (unpolled_write _).delivers hs₁) fun locals s₁ hs₁ => ?_
  refine effect_due ⟨nofun, nofun⟩ ?_ hs₁
  rintro w r w' ⟨⟩
  exact ⟨_, rfl⟩

lemma injectMessages_due (hs : Due pending s) :
    Delivers (fun _ _ => False) (injectMessages pending) s := by
  induction pending generalizing s with
  | nil => exact delivers_pure (.inl (due_nil_iff.mp hs))
  | cons message pending ih =>
    have hrest := unpolled_injectMessages pending
    refine (emitMessage_due hs).bind (fun _ s₁ hs₁ => ?_) fun _ s₁ hs₁ => ?_
    · have hpush := (unpolled_pushContext message).bind fun _ =>
        (unpolled_pushNew message).bind fun _ => hrest
      exact hpush.delivers hs₁
    · refine (update_due _ hs₁).bind (fun _ s₂ hs₂ => ?_) fun _ s₂ hs₂ => ?_
      · exact ((unpolled_pushNew message).bind fun _ => hrest).delivers hs₂
      · exact (update_due _ hs₂).bind (fun _ s₃ hs₃ => hrest.delivers hs₃) fun _ _ => ih

lemma throwIfAborted_delivers (hs : s.Told ∨ Waiting pending s) :
    Delivers (fun _ s' => Waiting pending s') throwIfAborted s := by
  rcases hs with hs | hs
  · exact unpolled_throwIfAborted.delivers hs
  · exact throwIfAborted_waiting hs

section
variable (config : AgentLoopConfig)
include config

/-- A turn begins with the messages that wait for it, if any do. -/
lemma runTurn_delivers (fuel : ℕ) (firstTurn : Bool) (hs : s.Told ∨ Waiting pending s) :
    Delivers GoesOnWaiting (runTurn config fuel firstTurn pending) s := by
  have hresp (s : AgentWorld) (hs : s.Told) : Delivers GoesOnWaiting
      (do
        let message ← streamAssistantResponse config fuel
        pushNew (.assistant message)
        finishTurn config fuel message) s := by
    refine (unpolled_streamAssistantResponse config fuel).bind_delivers hs fun message s₁ hs₁ => ?_
    refine (unpolled_pushNew _).bind_delivers hs₁ fun _ s₂ hs₂ => ?_
    exact finishTurn_delivers config fuel message hs₂
  have hinject (s : AgentWorld) (hs : s.Told) : Delivers GoesOnWaiting
      (do
        injectMessages pending
        let message ← streamAssistantResponse config fuel
        pushNew (.assistant message)
        finishTurn config fuel message) s :=
    (unpolled_injectMessages pending).bind_delivers hs fun _ => hresp
  have hstart : Unpolled (runIf (!firstTurn) (emit .turnStart)) := (unpolled_emit _).runIf _
  refine (throwIfAborted_delivers hs).bind (fun _ s₁ hs₁ => ?_) fun _ s₁ hs₁ => ?_
  · exact hstart.bind_delivers hs₁ fun _ => hinject
  · have hdue : Delivers (fun _ s' => Due pending s')
        (runIf (!firstTurn) (emit .turnStart)) s₁ := by
      rw [runIf]
      split_ifs
      · refine emit_due _ ?_
        rintro s' hsame ⟨raised, hloop⟩
        obtain ⟨done, hdrained, hstarted, hended⟩ := hs₁.due
        refine .inr ⟨done, hsame.trans hdrained, ?_, ?_⟩
        · rw [started_emitted hloop]
          exact hstarted.trans (List.sublist_append_left _ _)
        · rw [ended_emitted hloop]
          exact hended.trans (List.sublist_append_left _ _)
      · exact delivers_pure (.inr hs₁.due)
    refine hdue.bind (fun _ => hinject) fun _ s₂ hs₂ => ?_
    exact (injectMessages_due hs₂).bind (fun _ => hresp) fun _ _ => False.elim

lemma runTurns_delivers (fuel : ℕ) (firstTurn : Bool) (outcome : TurnOutcome)
    (hs : s.Told ∨ Waiting outcome.pendingMessages s) :
    Delivers (fun _ _ => False) (runTurns config fuel firstTurn outcome) s := by
  induction fuel generalizing firstTurn outcome s with
  | zero => trivial
  | succ fuel ih =>
    obtain ⟨hasMoreToolCalls, pending⟩ := outcome
    rw [runTurns]
    split_ifs with hturn
    · refine (runTurn_delivers config fuel firstTurn hs).bind ?_ ?_
      · rintro (_ | outcome) s₁ hs₁
        · exact delivers_pure (.inl hs₁)
        · exact ih false outcome (.inl hs₁)
      · rintro _ s₁ ⟨outcome, rfl, hs₁⟩
        exact ih false outcome (.inr hs₁)
    · refine delivers_pure (.inl ?_)
      have hnone : pending = [] := by
        by_contra hsome
        exact hturn (Bool.or_eq_true_iff.mpr (.inr (by simpa using hsome)))
      subst hnone
      exact hs.elim id fun hwaiting => due_nil_iff.mp hwaiting.due

lemma nextMessages_delivers (hs : s.Told) :
    Delivers (fun value s' => ∃ messages, value = some messages ∧ Waiting messages s')
      (nextMessages config) s := by
  refine (unpolled_shouldStopBeforeTurn config false).bind_delivers hs fun stop s₁ hs₁ => ?_
  split_ifs
  · exact unpolled_endRun.delivers hs₁
  · have hcontinue : Unpolled
        (callIf config.getContinuationMessages (call .getContinuationMessages) []) :=
      .ite (unpolled_effect _ (by simp [DrainsNothing])) (unpolled_pure _)
    refine (poll_delivers _
      (fun _ => getFollowUpMessages_delivers) hs₁).settlePostTurn.bind_either ?_
    rintro (_ | messages) s₂ hs₂
    · obtain hs₂ | ⟨_, ⟨⟩, -⟩ := hs₂
      exact unpolled_endRun.delivers hs₂
    · dsimp only
      split_ifs with hsome
      · exact delivers_pure hs₂
      -- no message is left, so all that were taken have been told of
      have htold : s₂.Told := by
        obtain hs₂ | ⟨_, ⟨⟩, hs₂⟩ := hs₂
        · exact hs₂
        · obtain rfl : messages = [] := by simpa using hsome
          exact due_nil_iff.mp hs₂.due
      refine (unpolled_shouldStopBeforeTurn config false).bind_delivers htold fun stop s₃ hs₃ => ?_
      split_ifs
      · exact unpolled_endRun.delivers hs₃
      · refine hcontinue.bind_delivers hs₃ fun continuation s₄ hs₄ => ?_
        refine (unpolled_raceWithAbort continuation).settlePostTurn.bind_delivers hs₄ ?_
        rintro (_ | messages) s₅ hs₅
        · exact unpolled_endRun.delivers hs₅
        · have hgoesOn : Unpolled (if (!messages.isEmpty) = true then pure (some messages) else do
              emitAgentEnd
              return none) := .ite (unpolled_pure _) unpolled_endRun
          exact hgoesOn.delivers hs₅

lemma runLoopFrom_delivers (fuel : ℕ) (firstTurn : Bool) (hs : s.Told ∨ Waiting pending s) :
    Delivers (fun _ _ => False) (runLoopFrom config fuel firstTurn pending) s := by
  induction fuel generalizing firstTurn pending s with
  | zero => trivial
  | succ fuel ih =>
    refine (throwIfAborted_delivers hs).bind_either fun _ s₁ hs₁ => ?_
    refine (runTurns_delivers config fuel firstTurn ⟨true, pending⟩ hs₁).bind ?_
      fun _ _ => False.elim
    rintro (_ | _) s₂ hs₂
    · exact delivers_pure (.inl hs₂)
    · refine (nextMessages_delivers config hs₂).bind ?_ ?_
      · rintro (_ | messages) s₃ hs₃
        · exact delivers_pure (.inl hs₃)
        · exact ih false (.inl hs₃)
      · rintro _ s₃ ⟨messages, rfl, hs₃⟩
        exact ih false (.inr hs₃)

lemma runLoop_delivers (fuel : ℕ) (hs : s.Told) :
    Delivers (fun _ _ => False) (runLoop config fuel) s :=
  (poll_delivers _ (fun _ => getSteeringMessages_delivers) hs).bind
    (fun _ _ hs₁ => runLoopFrom_delivers config fuel true (.inl hs₁))
    fun _ _ hs₁ => runLoopFrom_delivers config fuel true (.inr hs₁)

/-- After the last turn, what the run returns is read. -/
lemma runLoop_told (fuel : ℕ) (hs : s.Told) : Delivers (fun _ _ => False)
      (do
        runLoop config fuel
        return (← read).newMessages) s :=
  (runLoop_delivers config fuel hs).bind
    (fun _ _ hs₁ => (unpolled_read.bind fun _ => unpolled_pure _).delivers hs₁)
    fun _ _ => False.elim

lemma runAgentLoop_told (fuel : ℕ) (prompts : List AgentMessage) (hs : s.Told) :
    Delivers (fun _ _ => False) (runAgentLoop config fuel prompts) s := by
  refine unpolled_read.bind_delivers hs fun locals s₁ hs₁ => ?_
  refine (unpolled_write _).bind_delivers hs₁ fun _ s₂ hs₂ => ?_
  refine (unpolled_emit _).bind_delivers hs₂ fun _ s₃ hs₃ => ?_
  refine (unpolled_emit _).bind_delivers hs₃ fun _ s₄ hs₄ => ?_
  exact (unpolled_emitMessages prompts).bind_delivers hs₄ fun _ _ => runLoop_told config fuel

lemma runAgentLoopContinue_told (fuel : ℕ) (hs : s.Told) :
    Delivers (fun _ _ => False) (runAgentLoopContinue config fuel) s := by
  refine unpolled_read.bind_delivers hs fun locals s₁ hs₁ => ?_
  cases locals.messages.getLast? with
  | none => exact (unpolled_throw _).delivers hs₁
  | some last =>
    dsimp only
    split_ifs
    · exact (unpolled_throw _).delivers hs₁
    · refine (unpolled_write _).bind_delivers hs₁ fun _ s₂ hs₂ => ?_
      refine (unpolled_emit _).bind_delivers hs₂ fun _ s₃ hs₃ => ?_
      exact (unpolled_emit _).bind_delivers hs₃ fun _ _ => runLoop_told config fuel

end

end AgentLoop

/-! ## The result -/

lemma AgentWorld.Told.noneLost {s : AgentWorld} (h : s.Told) : s.NoneLost :=
  ⟨s.drained, [], (List.append_nil _).symm ▸ .refl _, h.started, h.ended, nofun⟩

/-- A run that is undisturbed has told of all the messages that it has drained. -/
theorem queued_messages_told {config : AgentLoopConfig} {fuel : ℕ} {kind : RunKind}
    {context : List AgentMessage} {aborted skip : Bool}
    {steeringQueue followUpQueue : PendingMessageQueue}
    {r : Except LoopError (List AgentMessage)} {s : AgentWorld}
    (hrun : Ends AgentWorld.UndisturbedHandler (kind.program config fuel)
      (.initial context aborted skip steeringQueue followUpQueue) r s) : s.NoneLost := by
  have hinitial : (AgentWorld.initial context aborted skip steeringQueue followUpQueue).Told :=
    ⟨List.nil_sublist _, List.nil_sublist _⟩
  have htold : Delivers (fun _ _ => False) (kind.program config fuel)
      (.initial context aborted skip steeringQueue followUpQueue) := by
    cases kind with
    | prompt prompts => exact runAgentLoop_told config fuel prompts hinitial
    | resume => exact runAgentLoopContinue_told config fuel hinitial
  obtain hs | ⟨_, _, ⟨⟩⟩ := hrun.of_wp htold
  exact hs.noneLost

/-! ## Two runs -/

def queuedMessage : AgentMessage := .user { content := .string "Stop.", timestamp := 0 }

def queueOfOne : PendingMessageQueue := ⟨.all, [[queuedMessage]]⟩

/-- Nobody adds to the queues, and the provider has its reply at once. -/
def playedQueues (s : AgentWorld) (_ : Unit) :
    (e : LoopEffect) → Except LoopError e.Answer × AgentWorld × Unit
  | .call .getSteeringMessages =>
    if s.skipInitialSteeringPoll then
      (.ok (.ok []), { s with loop := s.loop.abort false, skipInitialSteeringPoll := false }, ())
    else
      (.ok (.ok s.steeringQueue.drain.1), { s with
          loop := s.loop.abort false
          steeringQueue := s.steeringQueue.drain.2
          drained := s.drained ++ s.steeringQueue.drain.1 }, ())
  | .call .getFollowUpMessages =>
    (.ok (.ok s.followUpQueue.drain.1), { s with
        loop := s.loop.abort false
        followUpQueue := s.followUpQueue.drain.2
        drained := s.drained ++ s.followUpQueue.drain.1 }, ())
  | e =>
    let answer := played startsOnce plainReply s.loop () e
    (answer.1, { s with loop := answer.2.1 }, ())

/-- The signal is aborted while the hook's messages are waited for. -/
def abortingWait (s : AgentWorld) (_ : Unit) :
    (e : LoopEffect) → Except LoopError e.Answer × AgentWorld × Unit
  | .wait => (.ok true, { s with loop := s.loop.abort true }, ())
  | e => playedQueues s () e

section
variable (s : AgentWorld) (e : LoopEffect)
include s e

lemma answers_playedQueues :
    AgentWorld.Answers s e (playedQueues s () e).1 (playedQueues s () e).2.1 := by
  rw [playedQueues.eq_def]
  split
  · split_ifs with hskip
    · exact .skipSteeringMessages hskip
    · exact .getSteeringMessages (Bool.not_eq_true _ ▸ hskip)
  · exact .getFollowUpMessages
  · rename_i hsteering hfollowUp
    exact .other (answers_played _ _ _ _) hsteering hfollowUp

lemma handler_playedQueues : s.Handler e (playedQueues s () e).1 (playedQueues s () e).2.1 :=
  ⟨_, _, answers_playedQueues s e⟩

lemma undisturbed_playedQueues :
    s.UndisturbedHandler e (playedQueues s () e).1 (playedQueues s () e).2.1 := by
  refine ⟨handler_playedQueues s e, .inr ?_⟩
  cases e with
  | emit event => exact ⟨(), rfl⟩
  | call c =>
    cases c with
    | getSteeringMessages =>
      rw [playedQueues]
      split_ifs <;> exact Bool.or_false _
    | _ => exact Bool.or_false _
  | now => rfl
  | read => rfl
  | write locals => rfl
  | _ => exact Bool.or_false _

lemma handler_abortingWait : s.Handler e (abortingWait s () e).1 (abortingWait s () e).2.1 := by
  rw [abortingWait.eq_def]
  split
  · exact ⟨_, _, .other (.wait fun _ => Bool.or_true _) nofun nofun⟩
  · exact handler_playedQueues s _

end

/-- A message that is in the queue when the run starts, and is told of in its first turn. -/
theorem queued_messages_told_plainReply : ∃ s, Ends AgentWorld.UndisturbedHandler
    ((RunKind.prompt []).program { bareConfig with getSteeringMessages := true } 9)
      (.initial [] false false queueOfOne ⟨.all, []⟩)
      (.ok [queuedMessage, .assistant plainReply]) s ∧ s.drained = [queuedMessage] ∧
    s.NoneLost := by
  have hrun := Ends.of_play (fun s _ e => undisturbed_playedQueues s e)
    (p := (RunKind.prompt []).program { bareConfig with getSteeringMessages := true } 9)
    (s := .initial [] false false queueOfOne ⟨.all, []⟩) (t := ()) rfl
  exact ⟨_, hrun, rfl, queued_messages_told hrun⟩

/-- The queue has been drained, and the run ends as its first poll is aborted. -/
theorem not_told_abortingWait : ¬ ∀ (config : AgentLoopConfig) (fuel : ℕ) (kind : RunKind)
    (context : List AgentMessage) (aborted skip : Bool)
    (steeringQueue followUpQueue : PendingMessageQueue)
    (r : Except LoopError (List AgentMessage)) (s : AgentWorld),
      Ends AgentWorld.Handler (kind.program config fuel)
        (.initial context aborted skip steeringQueue followUpQueue) r s → s.NoneLost := by
  intro hall
  have hrun := Ends.of_play (fun s _ e => handler_abortingWait s e)
    (p := (RunKind.prompt []).program { bareConfig with getSteeringMessages := true } 9)
    (s := .initial [] false false queueOfOne ⟨.all, []⟩) (t := ()) rfl
  obtain ⟨told, queued, hperm, hstarted, -, hqueued⟩ := hall _ _ _ _ _ _ _ _ _ _ hrun
  have htold : told = [] := List.sublist_nil.mp hstarted
  have hnone : queued = [] := List.eq_nil_iff_forall_not_mem.mpr fun message hmessage =>
    List.not_mem_nil (hqueued message hmessage)
  rw [htold, hnone] at hperm
  exact absurd hperm.length_eq (by decide)

end Amide
