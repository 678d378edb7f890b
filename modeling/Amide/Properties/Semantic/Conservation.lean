import Amide.Properties.Semantic.Requests
import Amide.Properties.Semantic.LedgerIds

/-!
# Pending edges are conserved

A spawned session, a returned child and a completed compaction each oblige the fold to an edge
into some request of a session.  The edge is unclaimed or pending on the session, carried by a
request in flight, or emitted, and never in two of these places (`conserved`).  Continuations are
no obligations: a request that makes one anew drops it when it fails.
-/

namespace Amide

open FoldState List

/-! ## Obligations -/

section Obligations

variable (compacts : List SemanticEdgeLedgerEvent → String → CompactionStatus →
  Option (String × String))

def returnedIn (events : List SemanticEdgeLedgerEvent) (childSessionId : String) : Bool :=
  events.any fun
    | .childReturned _ returned _ => returned = childSessionId
    | _ => false

/-- The edge that an event obliges to, with the session that it leads into: a spawn with the first
registration, a return with the first return of a child, and the edge of a compaction from the
slice that it committed. -/
def obligation? (before : List SemanticEdgeLedgerEvent) :
    SemanticEdgeLedgerEvent → Option (String × InboundEdge)
  | .sessionRegistered sessionId _ spawnedByRequestId =>
    if registeredIn before sessionId = true then none
    else spawnedByRequestId.map fun source => (sessionId, ⟨source, .subagentCall⟩)
  | .childReturned sessionId childSessionId requestId =>
    if returnedIn before childSessionId = true then none
    else some (sessionId, ⟨requestId, .subagentReturn⟩)
  | .compactionFinished compactionId status =>
    (compacts before compactionId status).map fun delivery =>
      (delivery.1, ⟨delivery.2, .compaction⟩)
  | _ => none

def obligationsAfter (before : List SemanticEdgeLedgerEvent) :
    List SemanticEdgeLedgerEvent → List (String × InboundEdge)
  | [] => []
  | event :: events =>
    (obligation? compacts before event).toList ++ obligationsAfter (before ++ [event]) events

def obligations (events : List SemanticEdgeLedgerEvent) : List (String × InboundEdge) :=
  obligationsAfter compacts [] events

lemma obligationsAfter_concat (before events : List SemanticEdgeLedgerEvent)
    (event : SemanticEdgeLedgerEvent) :
    obligationsAfter compacts before (events ++ [event]) =
      obligationsAfter compacts before events ++
        (obligation? compacts (before ++ events) event).toList := by
  induction events generalizing before with
  | nil => simp [obligationsAfter]
  | cons first events ih =>
    rw [cons_append, obligationsAfter, obligationsAfter, ih, append_assoc,
      append_assoc, singleton_append]

lemma obligations_concat (events : List SemanticEdgeLedgerEvent) (event : SemanticEdgeLedgerEvent) :
    obligations compacts (events ++ [event]) =
      obligations compacts events ++ (obligation? compacts events event).toList :=
  obligationsAfter_concat compacts [] events event

end Obligations

/-- A completed compaction commits the last commit of its session, if that is one of its slices. -/
def compactsLastCommit (before : List SemanticEdgeLedgerEvent) :
    String → CompactionStatus → Option (String × String) :=
  (foldEvents before).delivery?

/-- A completed compaction commits the last of its slices that has committed. -/
def compactsSlice (before : List SemanticEdgeLedgerEvent) (compactionId : String)
    (status : CompactionStatus) : Option (String × String) :=
  if status = .completed then
    ((foldEvents before).compactions.get? compactionId).bind fun compaction =>
      (compaction.summaryRequestIds.reverse.find? fun requestId =>
        requestStatus before requestId = .committed compaction.sessionId).map fun slice =>
          (compaction.sessionId, slice)
  else none

/-! ## Places -/

/-- An edge waits on its session: unclaimed or pending. -/
def FoldState.waiting (s : FoldState) (sessionId : String) (inbound : InboundEdge) : ℕ :=
  (s.session sessionId).spawnEdges.count inbound + (s.session sessionId).pending.count inbound

/-- A request of the session, in flight, carries the edge. -/
def FoldState.carried (s : FoldState) (sessionId : String) (inbound : InboundEdge) : ℕ :=
  s.inFlight.sum fun _ request =>
    if request.sessionId = sessionId then request.inbound.count inbound else 0

/-- The edge has been emitted, into a request that committed in the session. -/
def emitted (events : List SemanticEdgeLedgerEvent) (sessionId : String) (inbound : InboundEdge) :
    ℕ :=
  (foldEvents events).edges.countP fun edge =>
    edge.sourceRequestId = inbound.source ∧ edge.type = inbound.type ∧
      requestStatus events edge.targetRequestId = .committed sessionId

def placed (events : List SemanticEdgeLedgerEvent) (sessionId : String) (inbound : InboundEdge) :
    ℕ :=
  (foldEvents events).waiting sessionId inbound + (foldEvents events).carried sessionId inbound +
    emitted events sessionId inbound

/-- After every part of the events each obligation is in one place. -/
def Conserved (compacts : List SemanticEdgeLedgerEvent → String → CompactionStatus →
    Option (String × String)) (events : List SemanticEdgeLedgerEvent) : Prop :=
  ∀ before, before <+: events → ∀ sessionId inbound, inbound.type ≠ .continuation →
    (obligations compacts before).count (sessionId, inbound) = placed before sessionId inbound

/-- A registration comes before the events that act on its session, unless it is not the first. -/
def RegistersFirst (before : List SemanticEdgeLedgerEvent) : SemanticEdgeLedgerEvent → Prop
  | .sessionRegistered sessionId _ _ =>
    registeredIn before sessionId = true ∨ ∀ event ∈ before, event.actsOn? ≠ some sessionId
  | _ => True

instance (before : List SemanticEdgeLedgerEvent) (event : SemanticEdgeLedgerEvent) :
    Decidable (RegistersFirst before event) :=
  match event with
  | .sessionRegistered _ _ _ => inferInstanceAs (Decidable (_ ∨ _))
  | .requestStarted _ _ _ | .requestFinished _ | .requestFailed _ | .compactionBegun _ _
  | .compactionFinished _ _ | .childReturned _ _ _ => isTrue trivial

variable {events : List SemanticEdgeLedgerEvent} {event : SemanticEdgeLedgerEvent}

/-! ## Registrations and returns -/

variable {s : FoldState} {sessionId : String}

/-- A session stays in the fold. -/
lemma has_step (h : s.sessions.has sessionId = true) :
    (s.step event).sessions.has sessionId = true := by
  have hset : ∀ other state, (s.sessions.set other state).has sessionId = true :=
    fun other state => JsMap.has_set_iff.mpr (.inr h)
  cases event with
  | sessionRegistered | childReturned =>
    rw [FoldState.step]
    split_ifs
    · exact h
    · exact hset _ _
  | requestStarted requestId sid compactionId => cases compactionId <;> exact hset _ _
  | requestFinished =>
    rw [FoldState.step, finishRequest]
    split
    · exact h
    · exact hset _ _
  | requestFailed =>
    rw [FoldState.step, failRequest]
    split
    · exact h
    · split_ifs
      · exact h
      · exact hset _ _
  | compactionBegun => exact h
  | compactionFinished =>
    simp only [FoldState.step, FoldState.finishCompaction]
    split_ifs
    · exact h
    · split
      · exact h
      · split <;> exact hset _ _

lemma has_of_registeredIn (h : registeredIn events sessionId = true) :
    (foldEvents events).sessions.has sessionId = true := by
  induction events using reverseRecOn with
  | nil => cases h
  | append_singleton events event ih =>
    rw [registeredIn, any_append, Bool.or_eq_true] at h
    rw [foldEvents_concat]
    rcases h with h | h
    · exact has_step (ih h)
    · rw [any_cons, any_nil, Bool.or_false] at h
      cases event with
      | sessionRegistered registered =>
        rw [decide_eq_true_iff] at h
        rw [FoldState.step]
        split_ifs with hreg
        · exact h ▸ hreg
        · exact JsMap.has_set_iff.mpr (.inl h)
      | _ => cases h

/-- Where registrations come first, the fold has a session at its registration if that is not the
first. -/
lemma registeredIn_of_has {parent spawner : Option String}
    (hfirst : RegistersFirst events (.sessionRegistered sessionId parent spawner))
    (h : (foldEvents events).sessions.has sessionId = true) :
    registeredIn events sessionId = true := by
  rcases hfirst with hreg | hacts
  · exact hreg
  · rcases registered_or_acts h with hreg | ⟨event, hevent, hactsOn⟩
    · exact hreg
    · exact absurd hactsOn (hacts event hevent)

@[simp] lemma startRequest_returnedChildren (s : FoldState) (requestId sessionId : String)
    (compactionId : Option String) :
    (s.startRequest requestId sessionId compactionId).returnedChildren = s.returnedChildren := by
  cases compactionId <;> rfl

@[simp] lemma finishRequest_returnedChildren (s : FoldState) (requestId : String) :
    (s.finishRequest requestId).returnedChildren = s.returnedChildren := by
  rw [finishRequest]
  split <;> rfl

@[simp] lemma failRequest_returnedChildren (s : FoldState) (requestId : String) :
    (s.failRequest requestId).returnedChildren = s.returnedChildren := by
  rw [failRequest]
  split <;> rfl

@[simp] lemma finishCompaction_returnedChildren (s : FoldState) (compactionId : String)
    (status : CompactionStatus) :
    (s.finishCompaction compactionId status).returnedChildren = s.returnedChildren := by
  simp only [FoldState.finishCompaction]
  split_ifs
  · rfl
  · split
    · rfl
    · split <;> rfl

lemma mem_returnedChildren_iff {childSessionId : String} :
    childSessionId ∈ (foldEvents events).returnedChildren ↔
      returnedIn events childSessionId = true := by
  induction events using reverseRecOn with
  | nil => exact iff_of_false nofun nofun
  | append_singleton events event ih =>
    rw [foldEvents_concat, returnedIn, any_append, Bool.or_eq_true, ← returnedIn, ← ih,
      any_cons, any_nil, Bool.or_false]
    cases event with
    | childReturned sessionId returned requestId =>
      rw [FoldState.step, decide_eq_true_iff]
      split_ifs with hchild
      · constructor
        · exact .inl
        · rintro (h | rfl)
          · exact h
          · exact hchild
      · rw [mem_append, mem_singleton, eq_comm]
    | sessionRegistered =>
      rw [FoldState.step]
      split_ifs <;> simp
    | compactionBegun | _ => simp [FoldState.step]

/-! ## One event -/

section Step

variable {sessionId : String} {inbound : InboundEdge}

/-- A continuation that a request makes anew is not counted. -/
lemma count_continuing (state : FoldSession) (inbounds : List InboundEdge)
    (hne : inbound.type ≠ .continuation) :
    (state.continuing inbounds).count inbound = inbounds.count inbound := by
  rw [FoldSession.continuing]
  split
  · rfl
  next last _ =>
    split_ifs
    · rfl
    · have hlast : (⟨last, .continuation⟩ : InboundEdge) ≠ inbound := by
        rintro rfl
        exact hne rfl
      rw [count_append, count_singleton, if_neg (by simpa using hlast), Nat.add_zero]

@[simp] lemma claimed_spawnEdges (state : FoldSession) : state.claimed.spawnEdges = [] := by
  rw [FoldSession.spawnEdges, FoldSession.claimed]
  cases hspawner : state.spawnedByRequestId <;> simp

variable {requestId : String} {request : FoldRequest}

/-- What leads to slices in flight are continuations. -/
lemma summary_inbound (h : (foldEvents events).inFlight.get? requestId = some request)
    (hsum : request.summary = true) : ∀ x ∈ request.inbound, x.type = .continuation := by
  induction events using reverseRecOn generalizing requestId request with
  | nil => cases h
  | append_singleton events event ih =>
    have hstep := foldStep_step (foldEvents events) event
    rw [← foldEvents_concat] at hstep
    cases hstep with
    | registeredAgain _ heq | finishedUnknown _ heq | failedUnknown _ heq | returnedAgain _ heq =>
      rw [heq] at h
      exact ih h hsum
    | registered _ _ hflight | begun _ hflight | undelivered _ _ hflight
    | delivered _ _ _ hflight | returned _ _ hflight =>
      rw [hflight] at h
      exact ih h hsum
    | finished _ _ hflight | failedSlice _ _ _ hflight | failedTurn _ _ _ hflight =>
      rw [hflight] at h
      exact ih (JsMap.of_get?_delete h) hsum
    | startedTurn _ hflight =>
      rw [hflight, JsMap.get?_set] at h
      split_ifs at h
      · cases h
        cases hsum
      · exact ih h hsum
    | @startedSlice _ sid _ _ hflight =>
      rw [hflight, JsMap.get?_set] at h
      split_ifs at h
      · cases h
        intro x hx
        by_contra hne
        have hcount := count_continuing ((foldEvents events).session sid) [] hne
        rw [count_nil, count_eq_zero] at hcount
        exact hcount hx
      · exact ih h hsum

section
variable (hcommit : Committed events) (hrestarts : RestartsAfterFailure (events ++ [event]))
include hcommit hrestarts

/-- An edge leads into the session that its target committed in, now as before. -/
lemma countP_edges : ((foldEvents events).edges.countP fun edge =>
      edge.sourceRequestId = inbound.source ∧ edge.type = inbound.type ∧
        requestStatus (events ++ [event]) edge.targetRequestId = .committed sessionId) =
      emitted events sessionId inbound := by
  apply countP_congr
  intro edge hedge
  obtain ⟨target, htarget⟩ := hcommit.target hedge
  rw [committed_concat hrestarts htarget, htarget]

lemma emitted_concat {added : List SemanticEdge}
    (hadded : (foldEvents (events ++ [event])).edges = (foldEvents events).edges ++ added) :
    emitted (events ++ [event]) sessionId inbound =
      emitted events sessionId inbound + added.countP fun edge =>
        edge.sourceRequestId = inbound.source ∧ edge.type = inbound.type ∧
          requestStatus (events ++ [event]) edge.targetRequestId = .committed sessionId := by
  rw [emitted, hadded, countP_append, countP_edges hcommit hrestarts]

lemma emitted_concat_of_eq
    (heq : (foldEvents (events ++ [event])).edges = (foldEvents events).edges) :
    emitted (events ++ [event]) sessionId inbound = emitted events sessionId inbound := by
  rw [emitted_concat hcommit hrestarts (heq.trans (append_nil _).symm), countP_nil, Nat.add_zero]

end

/-- Of the edges into a request that has committed in a session, those from an inbound edge are as
many as its copies. -/
lemma countP_map_into {events : List SemanticEdgeLedgerEvent} {target targetSession : String}
    (hcommit : requestStatus events target = .committed targetSession)
    (inbounds : List InboundEdge) :
    ((inbounds.map (InboundEdge.into target)).countP fun edge =>
      edge.sourceRequestId = inbound.source ∧ edge.type = inbound.type ∧
        requestStatus events edge.targetRequestId = .committed sessionId) =
      if targetSession = sessionId then inbounds.count inbound else 0 := by
  rw [countP_map]
  split_ifs with hsid
  · apply countP_congr
    rintro ⟨source, type⟩ -
    rw [beq_iff_eq, InboundEdge.mk.injEq]
    simp only [Function.comp_apply, InboundEdge.into, hcommit, hsid, and_true, decide_eq_true_eq]
  · rw [countP_eq_zero]
    rintro x -
    simp [InboundEdge.into, hcommit, hsid]

lemma countP_erase_of_false {α : Type*} [DecidableEq α] {p : α → Bool} {a : α} (ha : p a = false)
    (l : List α) : (l.erase a).countP p = l.countP p := by
  by_cases hmem : a ∈ l
  · rw [(perm_cons_erase hmem).countP_eq p, countP_cons, ha]
    rfl
  · rw [erase_of_not_mem hmem]

/-- Delivering replaces no edge but continuations. -/
lemma countP_diff_continuations (edges : List SemanticEdge) (sources : List String)
    (slice : String) {p : SemanticEdge → Bool}
    (hp : ∀ source, p ⟨source, slice, .continuation⟩ = false) :
    (edges.diff (sources.map fun source => ⟨source, slice, .continuation⟩)).countP p =
      edges.countP p := by
  induction sources generalizing edges with
  | nil => rfl
  | cons source sources ih =>
    rw [map_cons, diff_cons, ih, countP_erase_of_false (hp source)]

variable {s' : FoldState}

lemma waiting_of_eq (h : s'.session sessionId = s.session sessionId) :
    s'.waiting sessionId inbound = s.waiting sessionId inbound := by
  rw [waiting, h, waiting]

lemma waiting_of_hasSession {changed : String} {state : FoldSession}
    (h : s.HasSession s' changed state) :
    s'.waiting sessionId inbound =
      if changed = sessionId then state.spawnEdges.count inbound + state.pending.count inbound
      else s.waiting sessionId inbound := by
  rw [waiting, h]
  split_ifs <;> rfl

lemma carried_of_eq (h : s'.inFlight = s.inFlight) :
    s'.carried sessionId inbound = s.carried sessionId inbound := by
  rw [carried, h, carried]

/-- A request that starts carries what is inbound. -/
lemma carried_of_started (hnew : s.inFlight.get? requestId = none)
    (h : s'.inFlight = s.inFlight.set requestId request) :
    s'.carried sessionId inbound = s.carried sessionId inbound +
      if request.sessionId = sessionId then request.inbound.count inbound else 0 := by
  rw [carried, h, JsMap.sum_set_of_get?_none _ hnew, carried]

/-- A request that ends carries nothing any more. -/
lemma carried_of_ended (sessionId : String) (inbound : InboundEdge)
    (hreq : s.inFlight.get? requestId = some request)
    (h : s'.inFlight = s.inFlight.delete requestId) :
    s'.carried sessionId inbound +
      (if request.sessionId = sessionId then request.inbound.count inbound else 0) =
        s.carried sessionId inbound := by
  rw [carried, h, JsMap.sum_delete _ hreq, carried]

lemma count_singleton_pair (sessionId obliged : String) (inbound x : InboundEdge) :
    [(obliged, x)].count (sessionId, inbound) =
      if obliged = sessionId then [x].count inbound else 0 := by
  simp only [count_singleton, beq_iff_eq, Prod.mk.injEq]
  split_ifs <;> simp_all

/-- **Each event** places the edge that it obliges to, and otherwise only moves edges. -/
lemma placed_concat (hcommit : Committed events) (hfirst : RegistersFirst events event)
    (hrestarts : RestartsAfterFailure (events ++ [event])) (hne : inbound.type ≠ .continuation) :
    placed (events ++ [event]) sessionId inbound = placed events sessionId inbound +
      (obligation? compactsLastCommit events event).toList.count (sessionId, inbound) := by
  have hstep := foldStep_step (foldEvents events) event
  have hanew : StartsAnew events event := (AtEach.concat_iff.mp hrestarts).2
  rw [← foldEvents_concat] at hstep
  generalize hs : foldEvents events = s at hstep
  generalize hs' : foldEvents (events ++ [event]) = s' at hstep
  have hsame (heq : s'.edges = s.edges) :
      emitted (events ++ [event]) sessionId inbound = emitted events sessionId inbound :=
    emitted_concat_of_eq hcommit hrestarts (by rw [hs, hs', heq])
  rw [placed, placed, hs, hs']
  cases hstep with
  | registeredAgain hsess heq =>
    rw [← hs] at hsess
    rw [heq, hsame (by rw [heq]), obligation?, if_pos (registeredIn_of_has hfirst hsess)]
    rfl
  | @registered registered parent spawner hnew hsess hflight hedges =>
    have hunregistered : registeredIn events registered ≠ true := by
      intro hreg
      have hhas := has_of_registeredIn hreg
      rw [hs, JsMap.has, hnew] at hhas
      cases hhas
    rw [hsame hedges, carried_of_eq hflight, waiting_of_hasSession hsess, obligation?,
      if_neg hunregistered]
    have hobliged : (spawner.map fun source =>
        (registered, (⟨source, .subagentCall⟩ : InboundEdge))).toList.count (sessionId, inbound) =
          if registered = sessionId then
            (FoldSession.spawnEdges { spawnedByRequestId := spawner }).count inbound else 0 := by
      cases spawner with
      | none => simp [FoldSession.spawnEdges]
      | some source => exact count_singleton_pair _ _ _ _
    rw [hobliged]
    split_ifs with hsid
    · have hwaiting : s.waiting sessionId inbound = 0 := by
        rw [waiting, ← hsid, session, hnew]
        rfl
      rw [hwaiting, count_nil]
      omega
    · omega
  | @startedTurn requestId sid hsess hflight hedges =>
    have hnew := inFlight_eq_none hanew
    rw [hs] at hnew
    have hclaimed : (s.session sid).claimed.pending = [] := rfl
    rw [hsame hedges, carried_of_started hnew hflight, waiting_of_hasSession hsess,
      claimed_spawnEdges, hclaimed, count_continuing _ _ hne, FoldSession.claimable,
      count_append]
    dsimp only [obligation?]
    split_ifs with hsid
    · subst hsid
      rw [waiting]
      simp only [count_nil, Option.toList_none]
      omega
    · rfl
  | @startedSlice requestId sid _ hsess hflight hedges =>
    have hnew := inFlight_eq_none hanew
    rw [hs] at hnew
    rw [hsame hedges, carried_of_started hnew hflight, waiting_of_eq (hsess sessionId),
      count_continuing _ _ hne, count_nil, ite_self]
    rfl
  | finishedUnknown hreq heq | failedUnknown hreq heq =>
    rw [heq, hsame (by rw [heq])]
    rfl
  | @finished requestId request hreq hsess hflight hedges =>
    have hcarried := carried_of_ended sessionId inbound hreq hflight
    have hstatus : requestStatus (events ++ [.requestFinished requestId]) requestId =
        .committed request.sessionId := requestStatus_finished (hs ▸ hreq)
    have hwaiting : s'.waiting sessionId inbound = s.waiting sessionId inbound := by
      rw [waiting, hsess.field FoldSession.pending rfl,
        hsess.field FoldSession.spawnEdges rfl, waiting]
    rw [emitted_concat hcommit hrestarts (by rw [hs, hs', hedges]), countP_map_into hstatus,
      hwaiting]
    simp only [obligation?, Option.toList_none, count_nil]
    omega
  | @failedSlice requestId request hreq hsum hsess hflight hedges =>
    have hcarried := carried_of_ended sessionId inbound hreq hflight
    have hnone : request.inbound.count inbound = 0 := by
      rw [count_eq_zero]
      exact fun hinbound => hne (summary_inbound (hs ▸ hreq) hsum inbound hinbound)
    rw [hnone, ite_self] at hcarried
    rw [hsame hedges, waiting_of_eq (hsess sessionId)]
    simp only [obligation?, Option.toList_none, count_nil]
    omega
  | @failedTurn requestId request hreq hsum hsess hflight hedges =>
    have hcarried := carried_of_ended sessionId inbound hreq hflight
    rw [hsame hedges, waiting_of_hasSession hsess, count_append]
    simp only [obligation?, Option.toList_none, count_nil]
    split_ifs at hcarried ⊢ with hsid
    · subst hsid
      rw [waiting]
      show (s.session request.sessionId).spawnEdges.count inbound + _ + _ + _ = _
      omega
    · omega
  | begun hsess hflight hedges =>
    rw [hsame hedges, carried_of_eq hflight, waiting_of_eq (hsess sessionId)]
    rfl
  | undelivered hdeliv hsess hflight hedges =>
    rw [hsame hedges, carried_of_eq hflight, waiting_of_eq (hsess sessionId), obligation?,
      compactsLastCommit, hs, hdeliv]
    rfl
  | @delivered compactionId sid slice status hdeliv hlast hsess hflight hedges =>
    have hslice : requestStatus events slice = .committed sid := hcommit.last (hs ▸ hlast)
    have hslice' := committed_concat hrestarts hslice
    have hdelivered : emitted (events ++ [.compactionFinished compactionId status]) sessionId
        inbound = emitted events sessionId inbound +
          if sid = sessionId then (s.session sid).pending.count inbound else 0 := by
      rw [emitted, hs', hedges, FoldState.delivered, countP_append, countP_map_into hslice',
        countP_diff_continuations]
      · rw [← hs, countP_edges hcommit hrestarts]
      · intro source
        simp [Ne.symm hne]
    rw [hdelivered, carried_of_eq hflight, waiting_of_hasSession hsess, obligation?,
      compactsLastCommit, hs, hdeliv, Option.map_some, Option.toList_some,
      count_singleton_pair]
    by_cases hsid : sid = sessionId
    · subst hsid
      simp only [if_pos, waiting]
      show (s.session sid).spawnEdges.count inbound +
        [(⟨slice, .compaction⟩ : InboundEdge)].count inbound + _ + _ = _
      omega
    · simp only [if_neg hsid]
      omega
  | @returnedAgain sid child requestId hchild heq =>
    rw [← hs, mem_returnedChildren_iff] at hchild
    rw [heq, hsame (by rw [heq]), obligation?, if_pos hchild]
    rfl
  | @returned sid child requestId hchild hsess hflight hedges =>
    rw [← hs, mem_returnedChildren_iff] at hchild
    rw [hsame hedges, carried_of_eq hflight, waiting_of_hasSession hsess, obligation?,
      if_neg hchild, Option.toList_some, count_singleton_pair, count_append]
    split_ifs with hsid
    · subst hsid
      rw [waiting]
      show (s.session sid).spawnEdges.count inbound + _ + _ + _ = _
      omega
    · omega

end Step

/-- **Pending edges are conserved**: where registrations come first and requests start again only
after they failed, each obligation is in one place after every part of the events. -/
theorem conserved (events : List SemanticEdgeLedgerEvent) (hfirst : AtEach RegistersFirst events)
    (hrestarts : RestartsAfterFailure events) : Conserved compactsLastCommit events := by
  rintro before ⟨after, rfl⟩ sessionId inbound hne
  replace hfirst := hfirst.of_append
  replace hrestarts : RestartsAfterFailure before := AtEach.of_append hrestarts
  induction before using reverseRecOn with
  | nil => rfl
  | append_singleton events event ih =>
    have hcommit := committed_of_restartsAfterFailure (AtEach.concat_iff.mp hrestarts).1
    rw [AtEach.concat_iff] at hfirst
    rw [obligations_concat, count_append, ih hfirst.1 (AtEach.concat_iff.mp hrestarts).1,
      placed_concat hcommit hfirst.2 hrestarts hne]

/-- A child session is spawned and compacted, and returns a child of its own. -/
def compactedLedger : List SemanticEdgeLedgerEvent :=
  [.sessionRegistered "child" (some "root") (some "spawn"), .requestStarted "a" "child" none,
    .requestFinished "a", .compactionBegun "c" "child", .requestStarted "r" "child" (some "c"),
    .requestFinished "r", .childReturned "child" "grandchild" "g",
    .compactionFinished "c" .completed]

/-- A turn commits between the slice of a compaction and its completion. -/
def overtakenLedger : List SemanticEdgeLedgerEvent :=
  [.sessionRegistered "root" none none, .compactionBegun "c" "root",
    .requestStarted "r" "root" (some "c"), .requestStarted "a" "root" none, .requestFinished "r",
    .requestFinished "a", .compactionFinished "c" .completed]

theorem conserved_compacted : Conserved compactsLastCommit compactedLedger :=
  conserved compactedLedger (by decide +kernel) (by decide +kernel)

theorem not_conserved_overtaken :
    AtEach RegistersFirst overtakenLedger ∧ RestartsAfterFailure overtakenLedger ∧
      ¬ Conserved compactsSlice overtakenLedger := by
  refine ⟨by decide +kernel, by decide +kernel, ?_⟩
  intro hconserved
  have hcount := hconserved overtakenLedger (prefix_refl _) "root" ⟨"r", .compaction⟩ nofun
  revert hcount
  decide +kernel

end Amide
