import Amide.Properties.Semantic.Requests

/-!
# Semantic edges that repeat

The fold emits an edge once, unless what is pending repeats: two requests of a session that
overlap have the same continuation, and both return it where they fail; two children may return
one request; and a slice that two compactions deliver to may get an edge from both.  Without such
repeats no edge is emitted twice.
-/

namespace Amide

lemma InboundEdge.into_injective (target : String) :
    Function.Injective (InboundEdge.into target) := by
  rintro ⟨source, type⟩ ⟨source', type'⟩ heq
  cases heq
  rfl

/-- An event after which nothing that is pending is pending twice, or delivered again. -/
def FoldState.RequeuesOnce (s : FoldState) : SemanticEdgeLedgerEvent → Prop
  | .requestFailed requestId => ∀ request ∈ s.inFlight.get? requestId, request.summary = false →
      ∀ inbound ∈ request.inbound, inbound ∉ (s.session request.sessionId).pending
  | .childReturned sessionId childSessionId requestId => childSessionId ∉ s.returnedChildren →
      ⟨requestId, .subagentReturn⟩ ∉ (s.session sessionId).pending
  | .compactionFinished compactionId status => ∀ delivery ∈ s.delivery? compactionId status,
      ∀ inbound ∈ (s.session delivery.1).pending, inbound.type ≠ .continuation →
        inbound.into delivery.2 ∉ s.edges
  | _ => True

instance (s : FoldState) (event : SemanticEdgeLedgerEvent) : Decidable (s.RequeuesOnce event) :=
  match event with
  | .requestFailed requestId =>
    inferInstanceAs (Decidable (∀ request ∈ s.inFlight.get? requestId, _))
  | .childReturned _ _ _ => inferInstanceAs (Decidable (_ → _))
  | .compactionFinished compactionId status =>
    inferInstanceAs (Decidable (∀ delivery ∈ s.delivery? compactionId status, _))
  | .sessionRegistered _ _ _ | .requestStarted _ _ _ | .requestFinished _
  | .compactionBegun _ _ => isTrue trivial

/-! ## Spawn edges are claimed once -/

/-- An edge is pending on the session or held by a request of it. -/
def FoldState.Holds (s : FoldState) (sessionId : String) (inbound : InboundEdge) : Prop :=
  inbound ∈ (s.session sessionId).pending ∨
    ∃ requestId request, s.inFlight.get? requestId = some request ∧
      request.sessionId = sessionId ∧ inbound ∈ request.inbound

variable {state : FoldSession}

section Held

variable {s s' : FoldState} {event : SemanticEdgeLedgerEvent} {sessionId : String}
  {inbound : InboundEdge}

lemma FoldState.Holds.of_eq (h : s'.Holds sessionId inbound)
    (hpend : ∀ other, (s'.session other).pending = (s.session other).pending)
    (hflight : s'.inFlight = s.inFlight) : s.Holds sessionId inbound := by
  rw [Holds, hpend, hflight] at h
  exact h

lemma FoldSession.mem_continuing {inbounds : List InboundEdge}
    (h : inbound ∈ state.continuing inbounds) :
    inbound ∈ inbounds ∨ inbound.type = .continuation := by
  rw [continuing] at h
  split at h
  · exact .inl h
  · split_ifs at h
    · exact .inl h
    · rcases List.mem_append.mp h with h | h
      · exact .inl h
      · rw [List.mem_singleton.mp h]
        exact .inr rfl

lemma FoldSession.mem_spawnEdges (h : inbound ∈ state.spawnEdges) :
    state.spawnClaimed = false ∧ state.claimed.spawnClaimed = true ∧
      inbound.type = .subagentCall := by
  rw [spawnEdges] at h
  split_ifs at h with hclaimed
  · cases h
  · cases hspawner : state.spawnedByRequestId with
    | none => simp [hspawner] at h
    | some source =>
      rw [hspawner, Option.map_some, Option.toList_some, List.mem_singleton] at h
      rw [h]
      exact ⟨by simpa using hclaimed, by simp [claimed, hspawner], rfl⟩

/-- What is held after an event was held before, or it is new. -/
lemma FoldStep.holds (h : FoldStep s s' event) (hheld : s'.Holds sessionId inbound) :
    s.Holds sessionId inbound ∨ inbound.type ≠ .subagentCall ∨
      (s'.session sessionId).spawnClaimed = true := by
  cases h with
  | registeredAgain _ heq | finishedUnknown _ heq | failedUnknown _ heq | returnedAgain _ heq =>
    rw [← heq]
    exact .inl hheld
  | begun hsess hflight | undelivered _ hsess hflight =>
    exact .inl (hheld.of_eq (fun other => by rw [hsess]) hflight)
  | registered hnew hsess hflight =>
    exact .inl (hheld.of_eq (hsess.field FoldSession.pending (by simp [FoldState.session, hnew]))
      hflight)
  | @startedTurn requestId sid hsess hflight =>
    rcases hheld with hpend | ⟨held, request, hreq, hsid, hinbound⟩
    · rw [hsess] at hpend
      split_ifs at hpend
      · cases hpend
      · exact .inl (.inl hpend)
    · rw [hflight, JsMap.get?_set] at hreq
      split_ifs at hreq
      · cases hreq
        rw [← hsid]
        rcases FoldSession.mem_continuing hinbound with hinbound | htype
        · rcases List.mem_append.mp hinbound with hinbound | hinbound
          · exact .inl (.inl hinbound)
          · refine .inr (.inr ?_)
            rw [hsess, if_pos rfl]
            exact (FoldSession.mem_spawnEdges hinbound).2.1
        · exact .inr (.inl (by simp [htype]))
      · exact .inl (.inr ⟨held, request, hreq, hsid, hinbound⟩)
  | startedSlice hsess hflight =>
    rcases hheld with hpend | ⟨held, request, hreq, hsid, hinbound⟩
    · rw [hsess] at hpend
      exact .inl (.inl hpend)
    · rw [hflight, JsMap.get?_set] at hreq
      split_ifs at hreq
      · cases hreq
        rcases FoldSession.mem_continuing hinbound with hinbound | htype
        · cases hinbound
        · exact .inr (.inl (by simp [htype]))
      · exact .inl (.inr ⟨held, request, hreq, hsid, hinbound⟩)
  | finished hreq hsess hflight =>
    left
    rcases hheld with hpend | ⟨held, request, hheld, hsid, hinbound⟩
    · rw [hsess.field FoldSession.pending rfl] at hpend
      exact .inl hpend
    · rw [hflight] at hheld
      exact .inr ⟨held, request, (JsMap.of_get?_delete hheld), hsid, hinbound⟩
  | failedSlice hreq hsum hsess hflight =>
    left
    rcases hheld with hpend | ⟨held, request, hheld, hsid, hinbound⟩
    · rw [hsess] at hpend
      exact .inl hpend
    · rw [hflight] at hheld
      exact .inr ⟨held, request, (JsMap.of_get?_delete hheld), hsid, hinbound⟩
  | @failedTurn failed request hreq hsum hsess hflight =>
    left
    rcases hheld with hpend | ⟨held, request, hheld, hsid, hinbound⟩
    · rw [hsess] at hpend
      split_ifs at hpend with hsid
      · rcases List.mem_append.mp hpend with hpend | hpend
        · exact .inr ⟨failed, request, hreq, hsid, hpend⟩
        · rw [hsid] at hpend
          exact .inl hpend
      · exact .inl hpend
    · rw [hflight] at hheld
      exact .inr ⟨held, request, (JsMap.of_get?_delete hheld), hsid, hinbound⟩
  | delivered hdeliv hlast hsess hflight =>
    rcases hheld with hpend | hheld
    · rw [hsess] at hpend
      split_ifs at hpend
      · rw [List.mem_singleton.mp hpend]
        exact .inr (.inl (by simp))
      · exact .inl (.inl hpend)
    · rw [hflight] at hheld
      exact .inl (.inr hheld)
  | returned hchild hsess hflight =>
    rcases hheld with hpend | hheld
    · rw [hsess] at hpend
      split_ifs at hpend with hsid
      · rcases List.mem_append.mp hpend with hpend | hpend
        · rw [hsid] at hpend
          exact .inl (.inl hpend)
        · rw [List.mem_singleton.mp hpend]
          exact .inr (.inl (by simp))
      · exact .inl (.inl hpend)
    · rw [hflight] at hheld
      exact .inl (.inr hheld)

/-- A claimed spawn stays claimed. -/
lemma FoldStep.spawnClaimed (h : FoldStep s s' event)
    (hclaimed : (s.session sessionId).spawnClaimed = true) :
    (s'.session sessionId).spawnClaimed = true := by
  cases h with
  | registeredAgain _ heq | finishedUnknown _ heq | failedUnknown _ heq | returnedAgain _ heq =>
    rw [heq]
    exact hclaimed
  | startedSlice hsess | failedSlice _ _ hsess | begun hsess | undelivered _ hsess =>
    rw [hsess]
    exact hclaimed
  | registered hnew hsess =>
    rw [hsess.field FoldSession.spawnClaimed (by simp [FoldState.session, hnew])]
    exact hclaimed
  | finished _ hsess | failedTurn _ _ hsess | delivered _ _ hsess
  | returned _ hsess =>
    rw [hsess.field FoldSession.spawnClaimed rfl]
    exact hclaimed
  | @startedTurn _ sid hsess =>
    rw [hsess]
    split_ifs with hsid
    · rw [hsid, FoldSession.claimed]
      simp [hclaimed]
    · exact hclaimed

end Held

variable {events : List SemanticEdgeLedgerEvent}

/-- A session that holds a spawn edge has claimed it. -/
lemma spawnClaimed_of_holds {sessionId : String} {inbound : InboundEdge}
    (hheld : (foldEvents events).Holds sessionId inbound) (htype : inbound.type = .subagentCall) :
    ((foldEvents events).session sessionId).spawnClaimed = true := by
  induction events using List.reverseRecOn with
  | nil => rcases hheld with hheld | ⟨requestId, request, hreq, -⟩ <;> contradiction
  | append_singleton events event ih =>
    have hstep := foldStep_step (foldEvents events) event
    rw [← foldEvents_concat] at hstep
    rcases hstep.holds hheld with hheld | hne | hclaimed
    · exact hstep.spawnClaimed (ih hheld)
    · exact absurd htype hne
    · exact hclaimed

/-! ## Nothing repeats -/

/-- No edge, nothing pending and nothing that a request carries repeats. -/
structure FoldState.RepeatFree (s : FoldState) : Prop where
  edges : s.edges.Nodup
  pending : ∀ sessionId, (s.session sessionId).pending.Nodup
  inbound : ∀ {requestId request}, s.inFlight.get? requestId = some request → request.inbound.Nodup

lemma FoldSession.nodup_continuing (state : FoldSession) {inbound : List InboundEdge}
    (h : inbound.Nodup) : (state.continuing inbound).Nodup := by
  rw [continuing]
  split
  · exact h
  · split_ifs with hany
    · exact h
    · rw [List.nodup_append]
      refine ⟨h, List.nodup_singleton _, ?_⟩
      rintro edge hedge _ hlast rfl
      rw [List.mem_singleton] at hlast
      apply hany
      rw [List.any_eq_true]
      exact ⟨edge, hedge, by simp [hlast]⟩

lemma FoldSession.nodup_claimable (h : state.pending.Nodup)
    (hclaimed : ∀ inbound ∈ state.pending, inbound.type = .subagentCall →
      state.spawnClaimed = true) :
    state.claimable.Nodup := by
  rw [claimable, List.nodup_append]
  refine ⟨h, ?_, ?_⟩
  · rw [spawnEdges]
    split_ifs
    · exact List.nodup_nil
    · cases state.spawnedByRequestId <;> simp
  · rintro inbound hinbound _ hspawn rfl
    obtain ⟨hunclaimed, -, htype⟩ := mem_spawnEdges hspawn
    rw [hclaimed inbound hinbound htype] at hunclaimed
    contradiction

/-- Delivering replaces continuations, and adds nothing that is there already. -/
lemma FoldState.nodup_delivered {s : FoldState} (hedges : s.edges.Nodup)
    {pending : List InboundEdge} {slice : String} (hpend : pending.Nodup)
    (hnew : ∀ inbound ∈ pending, inbound.type ≠ .continuation → inbound.into slice ∉ s.edges) :
    (s.delivered pending slice).Nodup := by
  rw [delivered, List.nodup_append]
  refine ⟨hedges.diff, hpend.map (InboundEdge.into_injective slice), ?_⟩
  rintro edge hleft _ hright rfl
  obtain ⟨inbound, hinbound, rfl⟩ := List.mem_map.mp hright
  rw [hedges.mem_sdiff_iff] at hleft
  by_cases htype : inbound.type = .continuation
  · apply hleft.2
    simp only [List.mem_map, List.mem_eraseDups, InboundEdge.into]
    exact ⟨inbound.source, ⟨inbound, hinbound, rfl⟩, by rw [htype]⟩
  · exact hnew inbound hinbound htype hleft.1

/-- One event, with nothing pending that repeats, repeats nothing. -/
lemma repeatFree_concat {event : SemanticEdgeLedgerEvent} (hcommit : Committed events)
    (hrequeues : (foldEvents events).RequeuesOnce event) (h : (foldEvents events).RepeatFree) :
    (foldEvents (events ++ [event])).RepeatFree := by
  have hstep := foldStep_step (foldEvents events) event
  rw [← foldEvents_concat] at hstep
  cases hstep with
  | registeredAgain _ heq | finishedUnknown _ heq | failedUnknown _ heq | returnedAgain _ heq =>
    rw [heq]
    exact h
  | begun hsess hflight hedges | undelivered _ hsess hflight hedges =>
    refine ⟨hedges ▸ h.edges, fun sessionId => ?_, hflight ▸ h.inbound⟩
    rw [hsess]
    exact h.pending sessionId
  | registered hnew hsess hflight hedges =>
    refine ⟨hedges ▸ h.edges, fun sessionId => ?_, hflight ▸ h.inbound⟩
    rw [hsess.field FoldSession.pending (by simp [FoldState.session, hnew])]
    exact h.pending sessionId
  | @startedTurn requestId sid hsess hflight hedges =>
    refine ⟨hedges ▸ h.edges, fun sessionId => ?_, fun {held request} hreq => ?_⟩
    · rw [hsess]
      split_ifs
      · exact List.nodup_nil
      · exact h.pending sessionId
    · rw [hflight, JsMap.get?_set] at hreq
      split_ifs at hreq
      · cases hreq
        apply FoldSession.nodup_continuing
        apply FoldSession.nodup_claimable (h.pending sid)
        exact fun inbound hinbound => spawnClaimed_of_holds (.inl hinbound)
      · exact h.inbound hreq
  | startedSlice hsess hflight hedges =>
    refine ⟨hedges ▸ h.edges, fun sessionId => ?_, fun {held request} hreq => ?_⟩
    · rw [hsess]
      exact h.pending sessionId
    · rw [hflight, JsMap.get?_set] at hreq
      split_ifs at hreq
      · cases hreq
        exact FoldSession.nodup_continuing _ List.nodup_nil
      · exact h.inbound hreq
  | @finished ended request hreq hsess hflight hedges =>
    refine ⟨?_, fun sessionId => ?_, fun {held request} hheld => ?_⟩
    · -- No edge leads to the request before it commits.
      rw [hedges, List.nodup_append]
      refine ⟨h.edges, (h.inbound hreq).map (InboundEdge.into_injective ended), ?_⟩
      rintro edge hedge _ hinto rfl
      obtain ⟨inbound, -, rfl⟩ := List.mem_map.mp hinto
      obtain ⟨sessionId, hstatus⟩ := hcommit.target hedge
      rw [show (inbound.into ended).targetRequestId = ended from rfl,
        status_of_inFlight hreq] at hstatus
      contradiction
    · rw [hsess.field FoldSession.pending rfl]
      exact h.pending sessionId
    · rw [hflight] at hheld
      exact h.inbound (JsMap.of_get?_delete hheld)
  | failedSlice hreq hsum hsess hflight hedges =>
    refine ⟨hedges ▸ h.edges, fun sessionId => ?_, fun {held request} hheld => ?_⟩
    · rw [hsess]
      exact h.pending sessionId
    · rw [hflight] at hheld
      exact h.inbound (JsMap.of_get?_delete hheld)
  | @failedTurn failed request hreq hsum hsess hflight hedges =>
    refine ⟨hedges ▸ h.edges, fun sessionId => ?_, fun {held request} hheld => ?_⟩
    · rw [hsess]
      split_ifs
      · rw [List.nodup_append']
        exact ⟨h.inbound hreq, h.pending _, hrequeues request hreq hsum⟩
      · exact h.pending sessionId
    · rw [hflight] at hheld
      exact h.inbound (JsMap.of_get?_delete hheld)
  | @delivered compactionId sid slice status hdeliv hlast hsess hflight hedges =>
    refine ⟨?_, fun sessionId => ?_, hflight ▸ h.inbound⟩
    · rw [hedges]
      exact FoldState.nodup_delivered h.edges (h.pending sid) (hrequeues (sid, slice) hdeliv)
    · rw [hsess]
      split_ifs
      · exact List.nodup_singleton _
      · exact h.pending sessionId
  | @returned sid child requestId hchild hsess hflight hedges =>
    refine ⟨hedges ▸ h.edges, fun sessionId => ?_, hflight ▸ h.inbound⟩
    rw [hsess]
    split_ifs
    · rw [List.nodup_append']
      refine ⟨h.pending sid, List.nodup_singleton _, ?_⟩
      rw [List.disjoint_singleton]
      exact hrequeues hchild
    · exact h.pending sessionId

/-- **Each edge is emitted once**, after every event, where no event requeues or delivers an edge
again. -/
theorem nodup_deriveSemanticEdges (ledgers : List (List SemanticEdgeLedgerEvent))
    (hrestarts : RestartsAfterFailure ledgers.flatten)
    (hrequeues : AtEach (fun before event => (foldEvents before).RequeuesOnce event)
      ledgers.flatten) : (deriveSemanticEdges ledgers).Nodup := by
  rw [deriveSemanticEdges]
  generalize ledgers.flatten = events at hrestarts hrequeues
  suffices h : (foldEvents events).RepeatFree from h.edges
  induction events using List.reverseRecOn with
  | nil => exact ⟨List.nodup_nil, fun _ => List.nodup_nil, nofun⟩
  | append_singleton events event ih =>
    rw [RestartsAfterFailure, AtEach.concat_iff] at hrestarts
    rw [AtEach.concat_iff] at hrequeues
    exact repeatFree_concat (committed_of_restartsAfterFailure hrestarts.1) hrequeues.2
      (ih hrestarts.1 hrequeues.1)

/-- A spawned session: its first request fails and is made again, then a child returns and a
compaction delivers the return to its summary. -/
def spawnedLedger : List SemanticEdgeLedgerEvent :=
  [.sessionRegistered "child" (some "root") (some "spawn"), .requestStarted "a" "child" none,
    .requestFailed "a", .requestStarted "a" "child" none, .requestFinished "a",
    .childReturned "child" "grandchild" "g", .compactionBegun "c" "child",
    .requestStarted "r" "child" (some "c"), .requestFinished "r",
    .compactionFinished "c" .completed]

/-- Two requests of a session overlap and fail, so that their continuation is pending twice. -/
def overlappingLedger : List SemanticEdgeLedgerEvent :=
  [.sessionRegistered "root" none none, .requestStarted "p" "root" none, .requestFinished "p",
    .requestStarted "a" "root" none, .requestStarted "b" "root" none, .requestFailed "a",
    .requestFailed "b", .requestStarted "d" "root" none, .requestFinished "d"]

theorem nodup_deriveSemanticEdges_spawned : (deriveSemanticEdges [spawnedLedger]).Nodup :=
  nodup_deriveSemanticEdges [spawnedLedger] (by decide +kernel) (by decide +kernel)

theorem not_nodup_deriveSemanticEdges_overlapping :
    RestartsAfterFailure [overlappingLedger].flatten ∧
      ¬ (deriveSemanticEdges [overlappingLedger]).Nodup := by
  decide +kernel

end Amide
