import Amide.Construction.Semantic.Edges

/-!
# The ids that events name

Sessions, requests, compactions and returned children have ids, each of a kind of its own.  What
the fold holds goes under ids that events have named (`within_foldEvents`).
-/

namespace Amide

inductive LedgerId where
  | session (id : String)
  | request (id : String)
  | compaction (id : String)
  | child (id : String)
  deriving DecidableEq

/-- The session acted on, the request started, finished or failed, the compaction and the child
returned. -/
def SemanticEdgeLedgerEvent.ids : SemanticEdgeLedgerEvent → List LedgerId
  | .sessionRegistered sessionId _ _ => [.session sessionId]
  | .requestStarted requestId sessionId compactionId =>
    .request requestId :: .session sessionId :: (compactionId.map .compaction).toList
  | .requestFinished requestId => [.request requestId]
  | .requestFailed requestId => [.request requestId]
  | .compactionBegun compactionId sessionId => [.compaction compactionId, .session sessionId]
  | .compactionFinished compactionId _ => [.compaction compactionId]
  | .childReturned sessionId childSessionId _ => [.session sessionId, .child childSessionId]

def ledgerIds (events : List SemanticEdgeLedgerEvent) : List LedgerId :=
  events.flatMap SemanticEdgeLedgerEvent.ids

@[simp] lemma ledgerIds_concat (events : List SemanticEdgeLedgerEvent)
    (event : SemanticEdgeLedgerEvent) :
    ledgerIds (events ++ [event]) = ledgerIds events ++ event.ids := by
  simp [ledgerIds]

/-- All that the state holds goes under the ids. -/
structure FoldState.Within (s : FoldState) (ids : List LedgerId) : Prop where
  sessions : ∀ {sessionId}, s.sessions.has sessionId = true → .session sessionId ∈ ids
  inFlight : ∀ {requestId request}, s.inFlight.get? requestId = some request →
    .request requestId ∈ ids ∧ .session request.sessionId ∈ ids
  compactions : ∀ {compactionId compaction}, s.compactions.get? compactionId = some compaction →
    .compaction compactionId ∈ ids ∧ .session compaction.sessionId ∈ ids ∧
      ∀ requestId ∈ compaction.summaryRequestIds, .request requestId ∈ ids
  children : ∀ {childSessionId}, childSessionId ∈ s.returnedChildren → .child childSessionId ∈ ids
  targets : ∀ {edge}, edge ∈ s.edges → .request edge.targetRequestId ∈ ids

variable {sessionId : String}

namespace FoldState.Within

variable {s : FoldState} {ids : List LedgerId}

section
variable (h : s.Within ids)
include h

lemma slice? {compactionId : String} {compaction : FoldCompaction}
    (hcomp : s.compactions.get? compactionId = some compaction) {slice : String}
    (hslice : s.slice? compaction = some slice) : .request slice ∈ ids := by
  rw [FoldState.slice?, Option.filter_eq_some_iff] at hslice
  exact (h.compactions hcomp).2.2 slice (by simpa using hslice.2)

lemma sessions_set (hid : .session sessionId ∈ ids) (state : FoldSession) {other : String}
    (hother : (s.sessions.set sessionId state).has other = true) : .session other ∈ ids := by
  rcases JsMap.has_set_iff.mp hother with rfl | hother
  · exact hid
  · exact h.sessions hother

lemma startRequest {requestId : String} {compactionId : Option String}
    (hids : ∀ id ∈ (SemanticEdgeLedgerEvent.requestStarted requestId sessionId compactionId).ids,
      id ∈ ids) :
    (s.startRequest requestId sessionId compactionId).Within ids := by
  have hreq : .request requestId ∈ ids := hids _ (by simp [SemanticEdgeLedgerEvent.ids])
  have hsess : .session sessionId ∈ ids := hids _ (by simp [SemanticEdgeLedgerEvent.ids])
  cases compactionId with
  | none =>
    refine ⟨h.sessions_set hsess _, ?_, h.compactions, h.children, h.targets⟩
    intro held request hheld
    rw [FoldState.startRequest, JsMap.get?_set] at hheld
    split_ifs at hheld with heq
    · cases hheld
      exact ⟨heq ▸ hreq, hsess⟩
    · exact h.inFlight hheld
  | some compactionId =>
    refine ⟨h.sessions_set hsess _, ?_, ?_, h.children, h.targets⟩
    · intro held request hheld
      rw [FoldState.startRequest, JsMap.get?_set] at hheld
      split_ifs at hheld with heq
      · cases hheld
        exact ⟨heq ▸ hreq, hsess⟩
      · exact h.inFlight hheld
    · intro held compaction hheld
      simp only [FoldState.startRequest, FoldState.withSlice] at hheld
      split at hheld
      next begun hbegun =>
        split_ifs at hheld with heq
        · rw [JsMap.get?_set] at hheld
          split_ifs at hheld with hid
          · cases hheld
            obtain ⟨hcomp, hof, hslices⟩ := h.compactions hbegun
            refine ⟨hid ▸ hcomp, hof, fun slice hslice => ?_⟩
            rcases List.mem_append.mp hslice with hslice | hslice
            · exact hslices slice hslice
            · rw [List.mem_singleton.mp hslice]
              exact hreq
          · exact h.compactions hheld
        · exact h.compactions hheld
      next => exact h.compactions hheld

lemma finishRequest (requestId : String) : (s.finishRequest requestId).Within ids := by
  rw [FoldState.finishRequest]
  split
  next => exact h
  next request hreq =>
    obtain ⟨hid, hsess⟩ := h.inFlight hreq
    refine ⟨h.sessions_set hsess _, ?_, h.compactions, h.children, ?_⟩
    · intro held request hheld
      exact h.inFlight (JsMap.of_get?_delete hheld)
    · intro edge hedge
      rcases List.mem_append.mp hedge with hedge | hedge
      · exact h.targets hedge
      · obtain ⟨inbound, -, rfl⟩ := List.mem_map.mp hedge
        exact hid

lemma failRequest (requestId : String) : (s.failRequest requestId).Within ids := by
  rw [FoldState.failRequest]
  split
  next => exact h
  next request hreq =>
    refine ⟨?_, ?_, h.compactions, h.children, h.targets⟩
    · intro other hother
      split_ifs at hother
      · exact h.sessions hother
      · exact h.sessions_set (h.inFlight hreq).2 _ hother
    · intro held request hheld
      exact h.inFlight (JsMap.of_get?_delete hheld)

lemma finishCompaction (compactionId : String) (status : CompactionStatus) :
    (s.finishCompaction compactionId status).Within ids := by
  have hdel : ∀ {held compaction},
      (s.compactions.delete compactionId).get? held = some compaction →
        .compaction held ∈ ids ∧ .session compaction.sessionId ∈ ids ∧
          ∀ requestId ∈ compaction.summaryRequestIds, .request requestId ∈ ids := by
    intro held compaction hheld
    exact h.compactions (JsMap.of_get?_delete hheld)
  simp only [FoldState.finishCompaction]
  split_ifs
  · exact ⟨h.sessions, h.inFlight, hdel, h.children, h.targets⟩
  · split
    next => exact ⟨h.sessions, h.inFlight, hdel, h.children, h.targets⟩
    next compaction hcomp =>
      have hsess := (h.compactions hcomp).2.1
      split
      next => exact ⟨h.sessions_set hsess _, h.inFlight, hdel, h.children, h.targets⟩
      next slice hslice =>
        refine ⟨h.sessions_set hsess _, h.inFlight, hdel, h.children, ?_⟩
        intro edge hedge
        rcases List.mem_append.mp hedge with hedge | hedge
        · exact h.targets (List.diff_subset _ _ hedge)
        · obtain ⟨inbound, -, rfl⟩ := List.mem_map.mp hedge
          exact h.slice? hcomp hslice

lemma step {event : SemanticEdgeLedgerEvent} (hids : ∀ id ∈ event.ids, id ∈ ids) :
    (s.step event).Within ids := by
  cases event with
  | sessionRegistered sessionId =>
    rw [FoldState.step]
    split_ifs
    · exact h
    · have hsess : .session sessionId ∈ ids := hids _ (by simp [SemanticEdgeLedgerEvent.ids])
      exact ⟨h.sessions_set hsess _, h.inFlight, h.compactions, h.children, h.targets⟩
  | requestStarted => exact h.startRequest hids
  | requestFinished requestId => exact h.finishRequest requestId
  | requestFailed requestId => exact h.failRequest requestId
  | compactionBegun compactionId sessionId =>
    refine ⟨h.sessions, h.inFlight, ?_, h.children, h.targets⟩
    intro held compaction hheld
    rw [FoldState.step, JsMap.get?_set] at hheld
    split_ifs at hheld with hid
    · cases hheld
      exact ⟨hid ▸ hids _ (by simp [SemanticEdgeLedgerEvent.ids]),
        hids _ (by simp [SemanticEdgeLedgerEvent.ids]), nofun⟩
    · exact h.compactions hheld
  | compactionFinished compactionId status => exact h.finishCompaction compactionId status
  | childReturned sessionId childSessionId requestId =>
    rw [FoldState.step]
    split_ifs
    · exact h
    · have hsess : .session sessionId ∈ ids := hids _ (by simp [SemanticEdgeLedgerEvent.ids])
      refine ⟨h.sessions_set hsess _, h.inFlight, h.compactions, ?_, h.targets⟩
      intro child hchild
      rcases List.mem_append.mp hchild with hchild | hchild
      · exact h.children hchild
      · rw [List.mem_singleton.mp hchild]
        exact hids _ (by simp [SemanticEdgeLedgerEvent.ids])

end

lemma empty (ids : List LedgerId) : FoldState.Within {} ids := ⟨nofun, nofun, nofun, nofun, nofun⟩

lemma mono {ids' : List LedgerId} (h : s.Within ids) (hids : ∀ id ∈ ids, id ∈ ids') :
    s.Within ids' where
  sessions hsess := hids _ (h.sessions hsess)
  inFlight hreq := (h.inFlight hreq).imp (hids _) (hids _)
  compactions hcomp :=
    (h.compactions hcomp).imp (hids _) (And.imp (hids _) fun hslices slice hslice =>
      hids _ (hslices slice hslice))
  children hchild := hids _ (h.children hchild)
  targets hedge := hids _ (h.targets hedge)

end FoldState.Within

/-- **The fold holds only what the events name.** -/
theorem within_foldEvents (events : List SemanticEdgeLedgerEvent) :
    (foldEvents events).Within (ledgerIds events) := by
  induction events using List.reverseRecOn with
  | nil => exact .empty _
  | append_singleton events event ih =>
    rw [foldEvents_concat, ledgerIds_concat]
    apply FoldState.Within.step
    · exact ih.mono fun id hid => List.mem_append_left _ hid
    · exact fun id hid => List.mem_append_right _ hid

/-- The session that an event, other than its registration, acts on. -/
def SemanticEdgeLedgerEvent.actsOn? : SemanticEdgeLedgerEvent → Option String
  | .requestStarted _ sessionId _ => some sessionId
  | .compactionBegun _ sessionId => some sessionId
  | .childReturned sessionId _ _ => some sessionId
  | _ => none

/-- A session is in the fold only where it has been registered or acted on. -/
lemma registered_or_acts {events : List SemanticEdgeLedgerEvent}
    (h : (foldEvents events).sessions.has sessionId = true) :
    registeredIn events sessionId = true ∨ ∃ event ∈ events, event.actsOn? = some sessionId := by
  have hid := (within_foldEvents events).sessions h
  obtain ⟨event, hevent, hid⟩ := List.mem_flatMap.mp hid
  by_cases hacts : event.actsOn? = some sessionId
  · exact .inr ⟨event, hevent, hacts⟩
  · left
    rw [registeredIn, List.any_eq_true]
    refine ⟨event, hevent, ?_⟩
    cases event <;> simp_all [SemanticEdgeLedgerEvent.ids, SemanticEdgeLedgerEvent.actsOn?]

end Amide
