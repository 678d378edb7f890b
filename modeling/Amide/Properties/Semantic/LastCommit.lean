import Amide.Properties.Semantic.LedgerFile
import Amide.Properties.Semantic.LedgerIds
import Amide.Properties.Semantic.Requests

/-!
# The last commit of a recorder and of the fold

The fold takes a request to have committed in a session where it was in flight there.  A recorder
takes the last request that any event of the ledger finishes.  They agree in just the runs in which
each recorder finishes requests of its own that are in flight, or its last commit once more, and in
which the last event to finish a request in a ledger that is opened again did so too
(`agree_iff_commitsOwn`).
-/

namespace Amide

open SemanticEdgeRecorder (appended memory memory_recorded prepare prepare_eq replay replayAll_eq
  replay_sessionId)

/-- The events that the ledger file holds. -/
def LedgerState.events (s : LedgerState) : List SemanticEdgeLedgerEvent :=
  match parseLedgerContent (s.file.getD []) with
  | .ok parsed => parsed.events
  | .error _ => []

/-- The recorder that is open, and can write, has the last commit that the fold has for its
session. -/
def LedgerState.LastCommitAgrees (s : LedgerState) : Prop :=
  ∀ recorder existing, s.opened = some ⟨recorder, existing⟩ → recorder.disabled = false →
    recorder.lastCommittedRequestId =
      ((foldEvents s.events).session recorder.sessionId).lastRequestId

/-- The request is the last that has finished while it was in flight in the session. -/
inductive LastCommit (sessionId : String) : List SemanticEdgeLedgerEvent → String → Prop
  | committed {events : List SemanticEdgeLedgerEvent} {requestId : String}
      (hstatus : requestStatus events requestId = .inFlight sessionId) :
      LastCommit sessionId (events ++ [.requestFinished requestId]) requestId
  | later {events : List SemanticEdgeLedgerEvent} {event : SemanticEdgeLedgerEvent}
      {requestId : String} (hlast : LastCommit sessionId events requestId)
      (hother : ∀ other, event = .requestFinished other →
        requestStatus events other ≠ .inFlight sessionId) :
      LastCommit sessionId (events ++ [event]) requestId

/-- A request is in flight in the session, or is its last commit. -/
def OwnRequest (events : List SemanticEdgeLedgerEvent) (sessionId requestId : String) : Prop :=
  requestStatus events requestId = .inFlight sessionId ∨ LastCommit sessionId events requestId

/-- The last event that finishes a request finished one of the session's own. -/
def LastFinishOwn (events : List SemanticEdgeLedgerEvent) (sessionId : String) : Prop :=
  ∀ before requestId after, events = before ++ .requestFinished requestId :: after →
    (∀ other, .requestFinished other ∉ after) → OwnRequest before sessionId requestId

/-- Recorders finish requests of their own, and open ledgers in which that was done last. -/
def LedgerState.CommitsOwn (s : LedgerState) : RecorderLabel → Prop
  | .opens options _ => registeredIn s.events options.sessionId = true →
      LastFinishOwn s.events options.sessionId
  | .calls (.finishRequest (some requestId)) .completed => ∀ recorder existing,
      s.opened = some ⟨recorder, existing⟩ → recorder.disabled = false →
        OwnRequest s.events recorder.sessionId requestId
  | _ => True

/-! ## One event -/

section Event

variable {events : List SemanticEdgeLedgerEvent} {event : SemanticEdgeLedgerEvent}
  {sessionId requestId : String}

lemma lastRequestId_finished :
    ((foldEvents (events ++ [.requestFinished requestId])).session sessionId).lastRequestId =
      if requestStatus events requestId = .inFlight sessionId then some requestId
      else ((foldEvents events).session sessionId).lastRequestId := by
  have hstep := foldStep_step (foldEvents events) (.requestFinished requestId)
  rw [← foldEvents_concat] at hstep
  cases hstep with
  | finishedUnknown hreq heq =>
    rw [heq, if_neg]
    intro hstatus
    obtain ⟨request, hsome, -⟩ := exists_inFlight hstatus
    rw [hreq] at hsome
    cases hsome
  | @finished _ request hreq hsess =>
    rw [hsess, status_of_inFlight hreq]
    simp only [RequestStatus.inFlight.injEq]
    split_ifs <;> rfl

lemma lastRequestId_concat (hevent : ∀ requestId, event ≠ .requestFinished requestId) :
    ((foldEvents (events ++ [event])).session sessionId).lastRequestId =
      ((foldEvents events).session sessionId).lastRequestId := by
  have hstep := foldStep_step (foldEvents events) event
  rw [← foldEvents_concat] at hstep
  rcases hstep.lastRequestId sessionId with heq | ⟨ended, -, rfl, -⟩
  · exact heq
  · exact absurd rfl (hevent ended)

/-- The fold remembers the last commit of each session. -/
lemma lastRequestId_eq_some_iff :
    ((foldEvents events).session sessionId).lastRequestId = some requestId ↔
      LastCommit sessionId events requestId := by
  constructor
  · intro h
    induction events using List.reverseRecOn with
    | nil => cases h
    | append_singleton events event ih =>
      by_cases hevent : ∃ finished, event = .requestFinished finished
      · obtain ⟨finished, rfl⟩ := hevent
        rw [lastRequestId_finished] at h
        split_ifs at h with hstatus
        · cases h
          exact .committed hstatus
        · refine .later (ih h) ?_
          rintro other ⟨⟩
          exact hstatus
      · rw [not_exists] at hevent
        rw [lastRequestId_concat hevent] at h
        exact .later (ih h) fun other heq => absurd heq (hevent other)
  · intro h
    induction h with
    | committed hstatus => rw [lastRequestId_finished, if_pos hstatus]
    | @later events event requestId _ hother ih =>
      by_cases hevent : ∃ finished, event = .requestFinished finished
      · obtain ⟨finished, rfl⟩ := hevent
        rw [lastRequestId_finished, if_neg (hother finished rfl), ih]
      · rw [not_exists] at hevent
        rw [lastRequestId_concat hevent, ih]

/-- The fold takes a request for the last commit just where it is the session's own. -/
lemma lastRequestId_finished_iff : some requestId =
        ((foldEvents (events ++ [.requestFinished requestId])).session sessionId).lastRequestId ↔
      OwnRequest events sessionId requestId := by
  rw [lastRequestId_finished, OwnRequest, ← lastRequestId_eq_some_iff]
  split_ifs with hstatus
  · simp [hstatus]
  · simp [hstatus, eq_comm]

variable {recorder : SemanticEdgeRecorder}

lemma replay_lastCommittedRequestId
    (hevent : ∀ requestId, event ≠ .requestFinished requestId) :
    (recorder.replay event).lastCommittedRequestId = recorder.lastCommittedRequestId := by
  cases event with
  | requestFinished requestId => exact absurd rfl (hevent requestId)
  | _ =>
    simp only [replay]
    try split_ifs <;> rfl

lemma lastFinishOwn_finished : LastFinishOwn (events ++ [.requestFinished requestId]) sessionId ↔
      OwnRequest events sessionId requestId := by
  constructor
  · exact fun h => h events requestId [] rfl fun _ => List.not_mem_nil
  · rintro h before finished after heq hafter
    rcases append_singleton_eq heq with ⟨-, hfin, rfl⟩ | ⟨after', rfl, -⟩
    · cases hfin
      exact h
    · exact absurd (List.mem_append_right _ (List.mem_singleton_self _)) (hafter requestId)

lemma lastFinishOwn_concat (hevent : ∀ requestId, event ≠ .requestFinished requestId) :
    LastFinishOwn (events ++ [event]) sessionId ↔ LastFinishOwn events sessionId := by
  constructor
  · rintro h before finished after rfl hafter
    refine h before finished (after ++ [event]) (by simp) fun other hother => ?_
    rcases List.mem_append.mp hother with hother | hother
    · exact hafter other hother
    · exact hevent other (List.mem_singleton.mp hother).symm
  · rintro h before finished after heq hafter
    rcases append_singleton_eq heq with ⟨-, hfin, -⟩ | ⟨after', rfl, hinit⟩
    · exact absurd hfin.symm (hevent finished)
    · exact h before finished after' hinit fun other hother =>
        hafter other (List.mem_append_left _ hother)

/-- **Replayed from the start**, the events give the last commit that the fold has, just where the
last request that they finish is the session's own. -/
lemma lastFinishOwn_iff
    (hrecorder : recorder.lastCommittedRequestId = none) :
    LastFinishOwn events sessionId ↔ (recorder.replayAll events).lastCommittedRequestId =
      ((foldEvents events).session sessionId).lastRequestId := by
  induction events using List.reverseRecOn with
  | nil =>
    refine iff_of_true ?_ hrecorder
    rintro before finished after heq
    exact absurd heq.symm (List.append_ne_nil_of_right_ne_nil _ (List.cons_ne_nil _ _))
  | append_singleton events event ih =>
    rw [SemanticEdgeRecorder.replayAll_concat]
    by_cases hevent : ∃ requestId, event = .requestFinished requestId
    · obtain ⟨requestId, rfl⟩ := hevent
      rw [lastFinishOwn_finished, ← lastRequestId_finished_iff]
      rfl
    · rw [not_exists] at hevent
      rw [lastFinishOwn_concat hevent, ih, lastRequestId_concat hevent,
        replay_lastCommittedRequestId hevent]

end Event

/-! ## One step -/

namespace LedgerState

variable {s s' : LedgerState} {recorder prepared after : SemanticEdgeRecorder}
  {existing : List SemanticEdgeLedgerEvent} {event : SemanticEdgeLedgerEvent} {ending : AppendEnd}
  {label : RecorderLabel}

lemma Faithful.events_eq (hs : s.Faithful) : s.events = written s.history := by
  obtain ⟨repair, hfile⟩ := hs.file
  obtain ⟨parsed, hparse, hevents, -⟩ := hfile.parse
  rw [LedgerState.events, hparse]
  exact hevents

/-- Sessions are registered before they are acted on, and before their recorders are used. -/
structure Registered (s : LedgerState) : Prop where
  acts : ∀ event ∈ written s.history, ∀ sessionId, event.actsOn? = some sessionId →
    registeredIn (written s.history) sessionId = true
  opened : ∀ recorder existing, s.opened = some ⟨recorder, existing⟩ → recorder.disabled = false →
    registeredIn (written s.history) recorder.sessionId = true

variable {sessionId : String}

/-- A session that is not registered has no last commit. -/
lemma Registered.lastRequestId (hs : s.Registered)
    (hnew : registeredIn (written s.history) sessionId ≠ true) :
    ((foldEvents (written s.history)).session sessionId).lastRequestId = none := by
  have hhas : (foldEvents (written s.history)).sessions.has sessionId = false := by
    rw [← Bool.not_eq_true]
    intro hhas
    rcases registered_or_acts hhas with hreg | ⟨event, hevent, hacts⟩
    · exact hnew hreg
    · exact hnew (hs.acts event hevent sessionId hacts)
  rw [FoldState.session, JsMap.has_eq_false_iff.mp hhas]
  rfl

lemma registeredIn_append {events events' : List SemanticEdgeLedgerEvent}
    (h : registeredIn events sessionId = true) :
    registeredIn (events ++ events') sessionId = true := by
  rw [registeredIn, List.any_append, Bool.or_eq_true]
  exact .inl h

/-- What an append leaves of its event in the ledger. -/
lemma Appends.written_history (h : s.Appends recorder existing event after ending s') :
    written s'.history = written s.history ∨ written s'.history = written s.history ++ [event] := by
  cases h with
  | completed => exact .inr (written_concat_line _ _)
  | brokeRepairing =>
    rw [written_concat, if_neg, List.append_nil]
    · exact .inl rfl
    · rw [List.prefix_nil]
      exact encode_ne_nil event
  | brokeWriting =>
    rw [written_concat]
    split_ifs
    · exact .inr rfl
    · exact .inl (List.append_nil _)

/-- A recorder that is enabled after an append has completed it. -/
lemma Appends.enabled (h : s.Appends recorder existing event after ending s')
    {recorder' : SemanticEdgeRecorder} {existing' : List SemanticEdgeLedgerEvent}
    (hopened : s'.opened = some ⟨recorder', existing'⟩) (henabled : recorder'.disabled = false) :
    ending = .completed ∧ recorder' = after ∧
      written s'.history = written s.history ++ [event] := by
  cases h with
  | completed =>
    cases hopened
    exact ⟨rfl, rfl, written_concat_line _ _⟩
  | brokeRepairing | brokeWriting =>
    split_ifs at hopened
    cases hopened
    cases henabled

lemma Registered.appends (hs : s.Registered)
    (hevent : ∀ sessionId, event.actsOn? = some sessionId →
      registeredIn (written s.history) sessionId = true)
    (hafter : registeredIn (written s.history ++ [event]) after.sessionId = true)
    (h : s.Appends recorder existing event after ending s') : s'.Registered := by
  refine ⟨?_, fun recorder' existing' hopened henabled => ?_⟩
  · rcases h.written_history with heq | heq
    · rw [heq]
      exact hs.acts
    · rw [heq]
      intro event' hevent' sessionId hacts
      apply registeredIn_append
      rcases List.mem_append.mp hevent' with hevent' | hevent'
      · exact hs.acts event' hevent' sessionId hacts
      · rw [List.mem_singleton.mp hevent'] at hacts
        exact hevent sessionId hacts
  · obtain ⟨-, rfl, hwritten⟩ := h.enabled hopened henabled
    rw [hwritten]
    exact hafter

variable {call : RecorderCall}

/-- The events of a recorder act on its session. -/
lemma prepare_actsOn (h : recorder.prepare call = (prepared, some event))
    (hacts : event.actsOn? = some sessionId) : sessionId = recorder.sessionId := by
  cases call <;> simp only [prepare, Prod.mk.injEq, Option.map_eq_some_iff,
    Option.some.injEq, reduceCtorEq, and_false, Option.ite_none_right_eq_some] at h
  case startTurnRequest | beginCompaction | startCompactionRequest =>
    rw [← h.2] at hacts
    exact (Option.some.inj hacts).symm
  case finishRequest | failRequest =>
    obtain ⟨-, requestId, -, rfl⟩ := h
    cases hacts
  case finishCompaction =>
    rw [← h.2.2] at hacts
    cases hacts
  case recordChildReturned =>
    obtain ⟨-, requestId, -, rfl⟩ := h
    exact (Option.some.inj hacts).symm

/-- **Step lemma** for registrations. -/
lemma Registered.step (hs : s.Faithful) (hreg : s.Registered) (h : s.Step label s') :
    s'.Registered := by
  obtain ⟨repair, hfile⟩ := hs.file
  cases h with
  | @resumes options existing recorder ending hopening =>
    obtain ⟨hin, rfl, rfl⟩ := opening_resumes hfile hopening
    refine ⟨hreg.acts, ?_⟩
    rintro _ _ ⟨⟩ -
    rw [(replayAll_eq _).1]
    exact hin
  | @registers options existing recorder event ending s' hopening happends =>
    obtain ⟨-, -, rfl, rfl⟩ := opening_registers hfile hopening
    refine hreg.appends (fun _ hacts => by cases hacts) ?_ happends
    rw [appended, replay_sessionId, registeredIn, List.any_append]
    simp
  | @ignores call recorder existing ending hopened hnothing =>
    refine ⟨hreg.acts, ?_⟩
    rintro _ _ ⟨⟩ henabled
    obtain ⟨hsess, -, hdisabled, -⟩ := @prepare_eq recorder call
    rw [hsess]
    exact hreg.opened recorder existing hopened (hdisabled ▸ henabled)
  | @appends call recorder prepared existing event ending s' hopened henabled hprepare happends =>
    have hin := hreg.opened recorder existing hopened henabled
    have hsess := (@prepare_eq recorder call).1
    rw [hprepare] at hsess
    refine hreg.appends (fun sessionId hacts => ?_) ?_ happends
    · rw [prepare_actsOn hprepare hacts]
      exact hin
    · rw [(memory_recorded hprepare).1, hsess]
      exact registeredIn_append hin

/-- The event of a call finishes a request only where the call does. -/
lemma prepare_finished {requestId : String}
    (h : recorder.prepare call = (prepared, some (.requestFinished requestId))) :
    call = .finishRequest (some requestId) := by
  cases call <;> simp_all [prepare]

lemma commitsOwn_calls_iff : s.CommitsOwn (.calls call ending) ↔
      ∀ requestId, call = .finishRequest (some requestId) → ending = .completed →
        ∀ recorder existing, s.opened = some ⟨recorder, existing⟩ → recorder.disabled = false →
          OwnRequest s.events recorder.sessionId requestId := by
  constructor
  · rintro h requestId rfl rfl
    exact h
  · intro h
    unfold CommitsOwn
    split
    next => contradiction
    next requestId heq =>
      cases heq
      exact h requestId rfl rfl
    next => trivial

/-- **Each step** leaves the last commits in agreement just where its commits are its own. -/
lemma commitsOwn_iff (hs : s.Faithful) (hreg : s.Registered) (hagrees : s.LastCommitAgrees)
    (h : s.Step label s') : s.CommitsOwn label ↔ s'.LastCommitAgrees := by
  have hs' := hs.step h
  rw [LastCommitAgrees, hs.events_eq] at hagrees
  rw [LastCommitAgrees, hs'.events_eq]
  obtain ⟨repair, hfile⟩ := hs.file
  cases h with
  | @resumes options existing recorder ending hopening =>
    obtain ⟨hin, rfl, rfl⟩ := opening_resumes hfile hopening
    obtain ⟨hsess, -, hdisabled⟩ := @replayAll_eq
      { sessionId := options.sessionId, pendingRepair := repair } (written s.history)
    have hiff := @lastFinishOwn_iff (written s.history) options.sessionId
      { sessionId := options.sessionId, pendingRepair := repair } rfl
    rw [CommitsOwn, hs.events_eq]
    constructor
    · rintro hown _ _ ⟨⟩ -
      rw [hsess]
      exact hiff.mp (hown hin)
    · intro hagrees' _
      have heq := hagrees' _ _ rfl hdisabled
      rw [hsess] at heq
      exact hiff.mpr heq
  | @registers options existing recorder event ending s' hopening happends =>
    obtain ⟨hin, -, rfl, rfl⟩ := opening_registers hfile hopening
    rw [CommitsOwn, hs.events_eq]
    refine iff_of_true (fun hreg' => absurd hreg' hin) ?_
    intro recorder' existing' hopened henabled
    obtain ⟨-, rfl, hwritten⟩ := happends.enabled hopened henabled
    rw [hwritten, lastRequestId_concat (fun _ heq => by cases heq), appended,
      replay_sessionId, hreg.lastRequestId hin]
    rfl
  | @ignores call recorder existing ending hopened hnothing =>
    obtain ⟨hsess, -, hdisabled, hmemory⟩ := @prepare_eq recorder call
    apply iff_of_true
    · rw [commitsOwn_calls_iff]
      rintro requestId rfl - recorder' existing' hopened' henabled
      rw [hopened] at hopened'
      cases hopened'
      rcases hnothing with hnothing | hnothing
      · rw [henabled] at hnothing
        cases hnothing
      · cases hnothing
    · rintro _ _ ⟨⟩ henabled
      have heq := hagrees recorder existing hopened (hdisabled ▸ henabled)
      rw [hsess, ← heq]
      exact congrArg RecorderMemory.lastCommittedRequestId hmemory
  | @appends call recorder prepared existing event ending s' hopened henabled hprepare happends =>
    have hlast := hagrees recorder existing hopened henabled
    obtain ⟨hsess, -, hdisabled, hmemory⟩ := @prepare_eq recorder call
    rw [hprepare] at hsess hdisabled hmemory
    obtain ⟨hsess', -, hdisabled', hmemory'⟩ := memory_recorded hprepare
    replace hmemory := congrArg RecorderMemory.lastCommittedRequestId hmemory
    replace hmemory' := congrArg RecorderMemory.lastCommittedRequestId hmemory'
    dsimp only [memory] at hsess hmemory hmemory'
    rw [commitsOwn_calls_iff, hs.events_eq]
    by_cases hfinish : ending = .completed ∧ ∃ requestId, event = .requestFinished requestId
    · obtain ⟨rfl, requestId, rfl⟩ := hfinish
      obtain rfl := prepare_finished hprepare
      cases happends
      have hwritten := written_concat_line s.history (.requestFinished requestId)
      constructor
      · rintro hown _ _ ⟨⟩ -
        rw [hsess', hsess, hmemory', hwritten]
        exact lastRequestId_finished_iff.mpr
          (hown requestId rfl rfl recorder existing hopened henabled)
      · rintro hagrees' _ ⟨⟩ - recorder' existing' hopened' -
        rw [hopened] at hopened'
        cases hopened'
        have heq := hagrees' _ _ rfl (hdisabled'.trans (hdisabled.trans henabled))
        rw [hsess', hsess, hmemory', hwritten] at heq
        exact lastRequestId_finished_iff.mp heq
    · apply iff_of_true
      · rintro requestId rfl rfl
        refine absurd ⟨rfl, ?_⟩ hfinish
        simp only [prepare, Option.map_some, Prod.mk.injEq, Option.some.injEq] at hprepare
        exact ⟨requestId, hprepare.2.symm⟩
      · intro recorder' existing' hopened' henabled'
        obtain ⟨rfl, rfl, hwritten⟩ := happends.enabled hopened' henabled'
        have hevent : ∀ requestId, event ≠ .requestFinished requestId :=
          fun requestId heq => hfinish ⟨rfl, requestId, heq⟩
        rw [hwritten, hsess', hsess, hmemory', lastRequestId_concat hevent, ← hlast, ← hmemory,
          replay_lastCommittedRequestId hevent]

end LedgerState

/-- **The last commits agree**, after every step of a run, if and only if all its commits are
their sessions' own. -/
theorem agree_iff_commitsOwn {s : LedgerState} {labels : List RecorderLabel} :
    (recorderMachine.guard LedgerState.CommitsOwn).Run {} labels s ↔
      (recorderMachine.staying LedgerState.LastCommitAgrees).Run {} labels s := by
  have hinit : LedgerState.Faithful {} ∧ LedgerState.Registered {} := by
    refine ⟨LedgerState.Faithful.of_run .nil, ⟨?_, nofun⟩⟩
    intro event hevent
    cases hevent
  apply Machine.guard_run_iff_staying_run (fun s => s.Faithful ∧ s.Registered) hinit
  · intro recorder existing hopened
    cases hopened
  · rintro s₁ label s₂ ⟨hs, hregistered⟩ hstep
    exact ⟨hs.step hstep, hregistered.step hs hstep⟩
  · rintro s₁ label s₂ ⟨hs, hregistered⟩ hagrees hstep
    exact LedgerState.commitsOwn_iff hs hregistered hagrees hstep

/-- A session finishes its first turn once more after its second. -/
def finishedAgain : List RecorderLabel :=
  [.opens { sessionId := "root" } .completed, .calls (.startTurnRequest none "a") .completed,
    .calls (.finishRequest (some "a")) .completed, .calls (.startTurnRequest none "b") .completed,
    .calls (.finishRequest (some "b")) .completed, .calls (.finishRequest (some "a")) .completed]

theorem not_lastCommitAgrees_finishedAgain :
    ∃ s, recorderMachine.Run {} finishedAgain s ∧ ¬ s.LastCommitAgrees := by
  have hrun := rootLedger_run.snoc (@wholeLedger_calls _ _ _ { sessionId := "root" }
    (.requestStarted "a" "root" none) (.startTurnRequest none "a") rfl rfl rfl)
  replace hrun := hrun.snoc (wholeLedger_calls (.finishRequest (some "a")) rfl rfl rfl)
  replace hrun := hrun.snoc (wholeLedger_calls (.startTurnRequest none "b") rfl rfl rfl)
  replace hrun := hrun.snoc (wholeLedger_calls (.finishRequest (some "b")) rfl rfl rfl)
  replace hrun := hrun.snoc (wholeLedger_calls (.finishRequest (some "a")) rfl rfl rfl)
  refine ⟨_, hrun, fun hagrees => ?_⟩
  have heq := hagrees _ _ rfl rfl
  rw [(LedgerState.Faithful.of_run hrun).events_eq, written_wholeLedger] at heq
  revert heq
  decide +kernel

end Amide
