import Amide.Construction.Semantic.Edges
import Amide.Framework.Histories

/-!
# What the events say of a request

A request is in flight from its start until it finishes, which commits it, or fails.  The fold
holds just the requests that are in flight (`inFlight_eq`).  Where requests are started again only
after they failed, a commit is for good, and the requests that edges lead to and that sessions
remember have committed (`Committed`).
-/

namespace Amide

open FoldState

inductive RequestStatus where
  | unknown
  | inFlight (sessionId : String)
  | committed (sessionId : String)
  | failed
  deriving DecidableEq

namespace RequestStatus

def session? : RequestStatus → Option String
  | .inFlight sessionId => some sessionId
  | _ => none

def finished : RequestStatus → RequestStatus
  | .inFlight sessionId => .committed sessionId
  | status => status

def failedIfInFlight : RequestStatus → RequestStatus
  | .inFlight _ => .failed
  | status => status

/-- The status of a request after one event more. -/
def after (requestId : String) (status : RequestStatus) : SemanticEdgeLedgerEvent → RequestStatus
  | .requestStarted started sessionId _ =>
    if started = requestId then .inFlight sessionId else status
  | .requestFinished ended => if ended = requestId then status.finished else status
  | .requestFailed ended => if ended = requestId then status.failedIfInFlight else status
  | _ => status

end RequestStatus

def requestStatus (events : List SemanticEdgeLedgerEvent) (requestId : String) : RequestStatus :=
  events.foldl (RequestStatus.after requestId) .unknown

@[simp] lemma requestStatus_concat (events : List SemanticEdgeLedgerEvent)
    (event : SemanticEdgeLedgerEvent) (requestId : String) :
    requestStatus (events ++ [event]) requestId =
      (requestStatus events requestId).after requestId event := by
  rw [requestStatus, List.foldl_append]
  rfl

/-- A request that an event starts is new, or has failed. -/
def StartsAnew (before : List SemanticEdgeLedgerEvent) : SemanticEdgeLedgerEvent → Prop
  | .requestStarted requestId _ _ =>
    requestStatus before requestId = .unknown ∨ requestStatus before requestId = .failed
  | _ => True

instance (before : List SemanticEdgeLedgerEvent) (event : SemanticEdgeLedgerEvent) :
    Decidable (StartsAnew before event) :=
  match event with
  | .requestStarted _ _ _ => inferInstanceAs (Decidable (_ ∨ _))
  | .sessionRegistered _ _ _ | .requestFinished _ | .requestFailed _ | .compactionBegun _ _
  | .compactionFinished _ _ | .childReturned _ _ _ => isTrue trivial

/-- Requests are started again only after they failed. -/
def RestartsAfterFailure (events : List SemanticEdgeLedgerEvent) : Prop := AtEach StartsAnew events

instance (events : List SemanticEdgeLedgerEvent) : Decidable (RestartsAfterFailure events) :=
  inferInstanceAs (Decidable (AtEach StartsAnew events))

variable {events : List SemanticEdgeLedgerEvent}

/-! ## Requests in flight -/

/-- Finishing compactions does not touch the requests. -/
@[simp] lemma finishCompaction_inFlight (s : FoldState) (compactionId : String)
    (status : CompactionStatus) :
    (s.finishCompaction compactionId status).inFlight = s.inFlight := by
  simp only [FoldState.finishCompaction]
  split_ifs
  · rfl
  · split
    · rfl
    · split <;> rfl

/-- The fold holds the requests that are in flight. -/
theorem inFlight_eq (events : List SemanticEdgeLedgerEvent) (requestId : String) :
    ((foldEvents events).inFlight.get? requestId).map FoldRequest.sessionId =
      (requestStatus events requestId).session? := by
  induction events using List.reverseRecOn with
  | nil => rfl
  | append_singleton events event ih =>
    rw [foldEvents_concat, requestStatus_concat]
    generalize foldEvents events = s at ih ⊢
    generalize requestStatus events requestId = status at ih ⊢
    cases event with
    | sessionRegistered sessionId | childReturned =>
      rw [FoldState.step]
      split_ifs <;> exact ih
    | requestStarted started sessionId compactionId =>
      cases compactionId <;> simp only [FoldState.step, startRequest, JsMap.get?_set,
        RequestStatus.after] <;> split_ifs <;> first | rfl | exact ih
    | requestFinished ended =>
      simp only [FoldState.step, finishRequest, RequestStatus.after]
      cases hreq : s.inFlight.get? ended with
      | none =>
        split_ifs with hended
        · subst hended
          cases status <;> simp_all [RequestStatus.finished, RequestStatus.session?]
        · exact ih
      | some request =>
        simp only [JsMap.get?_delete]
        split_ifs with hended
        · cases status <;> rfl
        · exact ih
    | requestFailed ended =>
      simp only [FoldState.step, failRequest, RequestStatus.after]
      cases hreq : s.inFlight.get? ended with
      | none =>
        split_ifs with hended
        · subst hended
          cases status <;> simp_all [RequestStatus.failedIfInFlight, RequestStatus.session?]
        · exact ih
      | some request =>
        simp only [JsMap.get?_delete]
        split_ifs with hended
        · cases status <;> rfl
        · exact ih
    | compactionBegun => exact ih
    | compactionFinished compactionId status =>
      rw [FoldState.step, finishCompaction_inFlight]
      exact ih

variable {requestId sessionId : String}

lemma exists_inFlight (h : requestStatus events requestId = .inFlight sessionId) :
    ∃ request, (foldEvents events).inFlight.get? requestId = some request ∧
      request.sessionId = sessionId := by
  have heq := inFlight_eq events requestId
  rw [h] at heq
  exact Option.map_eq_some_iff.mp heq

variable {request : FoldRequest}

lemma status_of_inFlight
    (h : (foldEvents events).inFlight.get? requestId = some request) :
    requestStatus events requestId = .inFlight request.sessionId := by
  have heq := inFlight_eq events requestId
  generalize requestStatus events requestId = status at heq
  cases status <;> simp_all [RequestStatus.session?]

lemma inFlight_eq_none
    (h : requestStatus events requestId = .unknown ∨ requestStatus events requestId = .failed) :
    (foldEvents events).inFlight.get? requestId = none := by
  have heq := inFlight_eq events requestId
  rcases h with h | h <;> rw [h] at heq <;> exact Option.map_eq_none_iff.mp heq

/-! ## One event -/

/-- Where a compaction, finishing with a status, delivers what is pending: a session and a slice of
it. -/
def FoldState.delivery? (s : FoldState) (compactionId : String) (status : CompactionStatus) :
    Option (String × String) :=
  if status = .completed then
    (s.compactions.get? compactionId).bind fun compaction =>
      (s.slice? compaction).map fun slice => (compaction.sessionId, slice)
  else none

/-- A session among others. -/
def FoldState.HasSession (s s' : FoldState) (sessionId : String) (state : FoldSession) : Prop :=
  ∀ other, s'.session other = if sessionId = other then state else s.session other

variable {s s' : FoldState}

lemma FoldState.HasSession.field {β : Type*} {state : FoldSession}
    (h : s.HasSession s' sessionId state) (f : FoldSession → β)
    (hf : f state = f (s.session sessionId)) (other : String) :
    f (s'.session other) = f (s.session other) := by
  rw [h]
  split_ifs with hother
  · rw [hf, hother]
  · rfl

/-- What an event does to the sessions, the requests in flight and the edges, one case for each
way through the fold. -/
inductive FoldStep (s s' : FoldState) : SemanticEdgeLedgerEvent → Prop
  | registeredAgain {sessionId : String} {parent spawner : Option String}
      (hsession : s.sessions.has sessionId = true) (heq : s' = s) :
      FoldStep s s' (.sessionRegistered sessionId parent spawner)
  | registered {sessionId : String} {parent spawner : Option String}
      (hnew : s.sessions.get? sessionId = none)
      (hsession : s.HasSession s' sessionId { spawnedByRequestId := spawner })
      (hinFlight : s'.inFlight = s.inFlight) (hedges : s'.edges = s.edges) :
      FoldStep s s' (.sessionRegistered sessionId parent spawner)
  | startedTurn {requestId sessionId : String}
      (hsession : s.HasSession s' sessionId (s.session sessionId).claimed)
      (hinFlight : s'.inFlight = s.inFlight.set requestId ⟨sessionId, false,
        (s.session sessionId).continuing (s.session sessionId).claimable⟩)
      (hedges : s'.edges = s.edges) : FoldStep s s' (.requestStarted requestId sessionId none)
  | startedSlice {requestId sessionId compactionId : String}
      (hsession : ∀ other, s'.session other = s.session other)
      (hinFlight : s'.inFlight = s.inFlight.set requestId ⟨sessionId, true,
        (s.session sessionId).continuing []⟩)
      (hedges : s'.edges = s.edges) :
      FoldStep s s' (.requestStarted requestId sessionId (some compactionId))
  | finishedUnknown {requestId : String} (hrequest : s.inFlight.get? requestId = none)
      (heq : s' = s) : FoldStep s s' (.requestFinished requestId)
  | finished {requestId : String} {request : FoldRequest}
      (hrequest : s.inFlight.get? requestId = some request)
      (hsession : s.HasSession s' request.sessionId
        { s.session request.sessionId with lastRequestId := some requestId })
      (hinFlight : s'.inFlight = s.inFlight.delete requestId)
      (hedges : s'.edges = s.edges ++ request.inbound.map (InboundEdge.into requestId)) :
      FoldStep s s' (.requestFinished requestId)
  | failedUnknown {requestId : String} (hrequest : s.inFlight.get? requestId = none)
      (heq : s' = s) : FoldStep s s' (.requestFailed requestId)
  | failedSlice {requestId : String} {request : FoldRequest}
      (hrequest : s.inFlight.get? requestId = some request) (hsummary : request.summary = true)
      (hsession : ∀ other, s'.session other = s.session other)
      (hinFlight : s'.inFlight = s.inFlight.delete requestId) (hedges : s'.edges = s.edges) :
      FoldStep s s' (.requestFailed requestId)
  | failedTurn {requestId : String} {request : FoldRequest}
      (hrequest : s.inFlight.get? requestId = some request) (hsummary : request.summary = false)
      (hsession : s.HasSession s' request.sessionId { s.session request.sessionId with
        pending := request.inbound ++ (s.session request.sessionId).pending })
      (hinFlight : s'.inFlight = s.inFlight.delete requestId) (hedges : s'.edges = s.edges) :
      FoldStep s s' (.requestFailed requestId)
  | begun {compactionId sessionId : String} (hsession : ∀ other, s'.session other = s.session other)
      (hinFlight : s'.inFlight = s.inFlight) (hedges : s'.edges = s.edges) :
      FoldStep s s' (.compactionBegun compactionId sessionId)
  | undelivered {compactionId : String} {status : CompactionStatus}
      (hdelivery : s.delivery? compactionId status = none)
      (hsession : ∀ other, s'.session other = s.session other)
      (hinFlight : s'.inFlight = s.inFlight) (hedges : s'.edges = s.edges) :
      FoldStep s s' (.compactionFinished compactionId status)
  | delivered {compactionId sessionId slice : String} {status : CompactionStatus}
      (hdelivery : s.delivery? compactionId status = some (sessionId, slice))
      (hlast : (s.session sessionId).lastRequestId = some slice)
      (hsession : s.HasSession s' sessionId
        { s.session sessionId with pending := [⟨slice, .compaction⟩] })
      (hinFlight : s'.inFlight = s.inFlight)
      (hedges : s'.edges = s.delivered (s.session sessionId).pending slice) :
      FoldStep s s' (.compactionFinished compactionId status)
  | returnedAgain {sessionId childSessionId requestId : String}
      (hchild : childSessionId ∈ s.returnedChildren) (heq : s' = s) :
      FoldStep s s' (.childReturned sessionId childSessionId requestId)
  | returned {sessionId childSessionId requestId : String}
      (hchild : childSessionId ∉ s.returnedChildren)
      (hsession : s.HasSession s' sessionId { s.session sessionId with
        pending := (s.session sessionId).pending ++ [⟨requestId, .subagentReturn⟩] })
      (hinFlight : s'.inFlight = s.inFlight) (hedges : s'.edges = s.edges) :
      FoldStep s s' (.childReturned sessionId childSessionId requestId)

namespace FoldStep

variable {s : FoldState}

lemma hasSession_set (sessionId : String) (state : FoldSession)
    (h : s'.sessions = s.sessions.set sessionId state) : s.HasSession s' sessionId state := by
  intro other
  rw [session, h, JsMap.get?_set]
  split_ifs <;> rfl

/-- Writing a session back changes none. -/
lemma session_set_self (sessionId : String)
    (h : s'.sessions = s.sessions.set sessionId (s.session sessionId)) (other : String) :
    s'.session other = s.session other := by
  rw [hasSession_set sessionId (s.session sessionId) h other]
  split_ifs with heq
  · rw [heq]
  · rfl

lemma step_compactionFinished (s : FoldState) (compactionId : String) (status : CompactionStatus) :
    FoldStep s (s.step (.compactionFinished compactionId status))
      (.compactionFinished compactionId status) := by
  simp only [FoldState.step, FoldState.finishCompaction]
  split_ifs with hstatus
  · exact .undelivered (if_neg hstatus) (fun _ => rfl) rfl rfl
  · split
    next hcomp =>
      exact .undelivered (by simp [delivery?, hcomp]) (fun _ => rfl) rfl rfl
    next compaction hcomp =>
      split
      next hslice =>
        exact .undelivered (by simp [delivery?, hcomp, hslice])
          (session_set_self compaction.sessionId rfl) rfl rfl
      next slice hslice =>
        have hlast := (Option.filter_eq_some_iff.mp hslice).1
        exact .delivered (by simp [delivery?, hcomp, hslice, hstatus]) hlast
          (hasSession_set _ _ rfl) rfl rfl

end FoldStep

/-- **Every event** takes one of these steps. -/
theorem foldStep_step (s : FoldState) (event : SemanticEdgeLedgerEvent) :
    FoldStep s (s.step event) event := by
  cases event with
  | sessionRegistered sessionId parent spawner =>
    rw [FoldState.step]
    split_ifs with hsess
    · exact .registeredAgain hsess rfl
    · rw [Bool.not_eq_true, JsMap.has_eq_false_iff] at hsess
      exact .registered hsess (FoldStep.hasSession_set _ _ rfl) rfl rfl
  | requestStarted requestId sessionId compactionId =>
    cases compactionId with
    | none => exact .startedTurn (FoldStep.hasSession_set _ _ rfl) rfl rfl
    | some compactionId => exact .startedSlice (FoldStep.session_set_self sessionId rfl) rfl rfl
  | requestFinished requestId =>
    simp only [FoldState.step, finishRequest]
    split
    next hreq => exact .finishedUnknown hreq rfl
    next request hreq => exact .finished hreq (FoldStep.hasSession_set _ _ rfl) rfl rfl
  | requestFailed requestId =>
    simp only [FoldState.step, failRequest]
    split
    next hreq => exact .failedUnknown hreq rfl
    next request hreq =>
      by_cases hsum : request.summary = true
      · simp only [if_pos hsum]
        exact .failedSlice hreq hsum (fun _ => rfl) rfl rfl
      · simp only [if_neg hsum]
        exact .failedTurn hreq (by simpa using hsum) (FoldStep.hasSession_set _ _ rfl) rfl
          rfl
  | compactionBegun compactionId sessionId => exact .begun (fun _ => rfl) rfl rfl
  | compactionFinished compactionId status => exact .step_compactionFinished s compactionId status
  | childReturned sessionId childSessionId requestId =>
    rw [FoldState.step]
    split_ifs with hchild
    · exact .returnedAgain hchild rfl
    · exact .returned hchild (FoldStep.hasSession_set _ _ rfl) rfl rfl

/-! ## Commits are for good -/

section Commits

variable {event : SemanticEdgeLedgerEvent}

/-- A committed request stays committed. -/
lemma committed_concat (h : RestartsAfterFailure (events ++ [event]))
    (hcommit : requestStatus events requestId = .committed sessionId) :
    requestStatus (events ++ [event]) requestId = .committed sessionId := by
  rw [requestStatus_concat, hcommit]
  cases event with
  | requestStarted started startedIn compactionId =>
    rw [RequestStatus.after]
    split_ifs with hstarted
    · subst hstarted
      have hfresh : StartsAnew events (.requestStarted started startedIn compactionId) :=
        (AtEach.concat_iff.mp h).2
      rw [StartsAnew, hcommit] at hfresh
      rcases hfresh with hfresh | hfresh <;> cases hfresh
    · rfl
  | requestFinished ended | requestFailed ended =>
    rw [RequestStatus.after]
    split_ifs <;> rfl
  | _ => rfl

/-- The last commit of a session changes where one of its requests commits. -/
lemma FoldStep.lastRequestId (h : FoldStep s s' event) (sessionId : String) :
    (s'.session sessionId).lastRequestId = (s.session sessionId).lastRequestId ∨
      ∃ ended request, event = .requestFinished ended ∧ s.inFlight.get? ended = some request ∧
        request.sessionId = sessionId ∧ (s'.session sessionId).lastRequestId = some ended := by
  cases h with
  | registeredAgain _ heq | finishedUnknown _ heq | failedUnknown _ heq | returnedAgain _ heq =>
    rw [heq]
    exact .inl rfl
  | startedSlice hsess | failedSlice _ _ hsess | begun hsess | undelivered _ hsess =>
    rw [hsess]
    exact .inl rfl
  | registered hnew hsess =>
    exact .inl (hsess.field FoldSession.lastRequestId (by simp [session, hnew]) _)
  | startedTurn hsess | failedTurn _ _ hsess | delivered _ _ hsess
  | returned _ hsess => exact .inl (hsess.field FoldSession.lastRequestId rfl _)
  | @finished ended request hreq hsess =>
    by_cases hsid : request.sessionId = sessionId
    · refine .inr ⟨ended, request, rfl, hreq, hsid, ?_⟩
      rw [hsess, if_pos hsid]
    · rw [hsess, if_neg hsid]
      exact .inl rfl

/-- An edge that an event adds leads to the request that it commits, or to the last commit of a
session. -/
lemma FoldStep.mem_edges (h : FoldStep s s' event) {edge : SemanticEdge} (hedge : edge ∈ s'.edges) :
    edge ∈ s.edges ∨ (∃ request, event = .requestFinished edge.targetRequestId ∧
        s.inFlight.get? edge.targetRequestId = some request) ∨
      ∃ sessionId, (s.session sessionId).lastRequestId = some edge.targetRequestId := by
  cases h with
  | registeredAgain _ heq | finishedUnknown _ heq | failedUnknown _ heq | returnedAgain _ heq =>
    rw [heq] at hedge
    exact .inl hedge
  | startedSlice _ _ hedges | failedSlice _ _ _ _ hedges | begun _ _ hedges
  | undelivered _ _ _ hedges | registered _ _ _ hedges | startedTurn _ _ hedges
  | failedTurn _ _ _ _ hedges | returned _ _ _ hedges =>
    rw [hedges] at hedge
    exact .inl hedge
  | @finished ended request hreq _ _ hedges =>
    rw [hedges, List.mem_append, List.mem_map] at hedge
    rcases hedge with hedge | ⟨inbound, -, rfl⟩
    · exact .inl hedge
    · exact .inr (.inl ⟨request, rfl, hreq⟩)
  | @delivered _ sessionId slice _ _ hlast _ _ hedges =>
    rw [hedges, FoldState.delivered, List.mem_append, List.mem_map] at hedge
    rcases hedge with hedge | ⟨inbound, -, rfl⟩
    · exact .inl (List.diff_subset _ _ hedge)
    · exact .inr (.inr ⟨sessionId, hlast⟩)

end Commits

/-- What sessions remember as their last commits has committed in them, and so has what edges lead
to. -/
structure Committed (events : List SemanticEdgeLedgerEvent) : Prop where
  last : ∀ {sessionId last}, ((foldEvents events).session sessionId).lastRequestId = some last →
    requestStatus events last = .committed sessionId
  target : ∀ {edge}, edge ∈ (foldEvents events).edges →
    ∃ sessionId, requestStatus events edge.targetRequestId = .committed sessionId

/-- A request in flight that finishes commits. -/
lemma requestStatus_finished
    (h : (foldEvents events).inFlight.get? requestId = some request) :
    requestStatus (events ++ [.requestFinished requestId]) requestId =
      .committed request.sessionId := by
  rw [requestStatus_concat, status_of_inFlight h, RequestStatus.after, if_pos rfl]
  rfl

/-- **Commits are for good**, where requests start again only after they failed. -/
theorem committed_of_restartsAfterFailure (h : RestartsAfterFailure events) : Committed events := by
  induction events using List.reverseRecOn with
  | nil => exact ⟨nofun, nofun⟩
  | append_singleton events event ih =>
    have ih := ih (AtEach.concat_iff.mp h).1
    have hstep := foldStep_step (foldEvents events) event
    rw [← foldEvents_concat] at hstep
    constructor
    · intro sessionId last hlast
      rcases hstep.lastRequestId sessionId with heq | ⟨ended, request, rfl, hreq, rfl, heq⟩
      · rw [heq] at hlast
        exact committed_concat h (ih.last hlast)
      · rw [heq] at hlast
        cases hlast
        exact requestStatus_finished hreq
    · intro edge hedge
      rcases hstep.mem_edges hedge with hedge | ⟨request, rfl, hreq⟩ | ⟨sessionId, hlast⟩
      · obtain ⟨sessionId, hcommit⟩ := ih.target hedge
        exact ⟨sessionId, committed_concat h hcommit⟩
      · exact ⟨request.sessionId, requestStatus_finished hreq⟩
      · exact ⟨sessionId, committed_concat h (ih.last hlast)⟩

end Amide
