import Amide.Properties.Semantic.LedgerIds

/-!
# Ledgers in any order

Ledgers that name different ids do not meet in the fold: folded after others, a ledger acts as it
does alone (`FoldState.ActsAs`), and adds the edges that it has alone.  So the edges of such
ledgers are the same in every order.
-/

namespace Amide

/-- On the ids the state is as another, whose edges come after the earlier ones. -/
structure FoldState.ActsAs (s t : FoldState) (ids : List LedgerId) (earlier : List SemanticEdge) :
    Prop where
  sessions : ∀ sessionId, .session sessionId ∈ ids →
    s.sessions.get? sessionId = t.sessions.get? sessionId
  inFlight : ∀ requestId, .request requestId ∈ ids →
    s.inFlight.get? requestId = t.inFlight.get? requestId
  compactions : ∀ compactionId, .compaction compactionId ∈ ids →
    s.compactions.get? compactionId = t.compactions.get? compactionId
  children : ∀ childSessionId, .child childSessionId ∈ ids →
    (childSessionId ∈ s.returnedChildren ↔ childSessionId ∈ t.returnedChildren)
  edges : s.edges = earlier ++ t.edges

/-- Erasing what is not in the first part leaves it as it is. -/
lemma append_diff {α : Type*} [DecidableEq α] {l₁ erased : List α}
    (h : ∀ a ∈ erased, a ∉ l₁) (l₂ : List α) : (l₁ ++ l₂).diff erased = l₁ ++ l₂.diff erased := by
  induction erased generalizing l₂ with
  | nil => simp
  | cons a erased ih =>
    rw [List.forall_mem_cons] at h
    rw [List.diff_cons, List.diff_cons, List.erase_append_right _ h.1, ih h.2]

section MapsAgree

variable {κ ν : Type*} [DecidableEq κ] {p : κ → Prop} {m m' : JsMap κ ν}

lemma get?_set_of_agree (h : ∀ k, p k → m.get? k = m'.get? k) (a : κ) (v : ν) (k : κ) (hk : p k) :
    (m.set a v).get? k = (m'.set a v).get? k := by
  rw [JsMap.get?_set, JsMap.get?_set, h k hk]

lemma get?_delete_of_agree (h : ∀ k, p k → m.get? k = m'.get? k) (a : κ) (k : κ) (hk : p k) :
    (m.delete a).get? k = (m'.delete a).get? k := by
  rw [JsMap.get?_delete, JsMap.get?_delete, h k hk]

end MapsAgree

namespace FoldState.ActsAs

variable {s t : FoldState} {ids : List LedgerId} {earlier : List SemanticEdge} {sessionId : String}

lemma session (h : s.ActsAs t ids earlier) (hid : .session sessionId ∈ ids) :
    s.session sessionId = t.session sessionId := by
  rw [FoldState.session, FoldState.session, h.sessions sessionId hid]

variable {requestId : String}

lemma startRequest (h : s.ActsAs t ids earlier) {compactionId : Option String}
    (hids : ∀ id ∈ (SemanticEdgeLedgerEvent.requestStarted requestId sessionId compactionId).ids,
      id ∈ ids) :
    (s.startRequest requestId sessionId compactionId).ActsAs
      (t.startRequest requestId sessionId compactionId) ids earlier := by
  have hsess : s.session sessionId = t.session sessionId :=
    h.session (hids _ (by simp [SemanticEdgeLedgerEvent.ids]))
  cases compactionId with
  | none =>
    rw [FoldState.startRequest, FoldState.startRequest, hsess]
    exact ⟨get?_set_of_agree h.sessions _ _, get?_set_of_agree h.inFlight _ _, h.compactions,
      h.children, h.edges⟩
  | some compactionId =>
    have hcomp := h.compactions compactionId (hids _ (by simp [SemanticEdgeLedgerEvent.ids]))
    rw [FoldState.startRequest, FoldState.startRequest, hsess]
    refine ⟨get?_set_of_agree h.sessions _ _, get?_set_of_agree h.inFlight _ _, ?_, h.children,
      h.edges⟩
    rw [FoldState.withSlice, FoldState.withSlice, hcomp]
    split
    · split_ifs
      · exact get?_set_of_agree h.compactions _ _
      · exact h.compactions
    · exact h.compactions

lemma finishRequest (h : s.ActsAs t ids earlier) (ht : t.Within ids)
    (hid : .request requestId ∈ ids) :
    (s.finishRequest requestId).ActsAs (t.finishRequest requestId) ids earlier := by
  rw [FoldState.finishRequest, FoldState.finishRequest, h.inFlight requestId hid]
  split
  next => exact h
  next request hreq =>
    rw [h.session (ht.inFlight hreq).2]
    refine ⟨get?_set_of_agree h.sessions _ _, get?_delete_of_agree h.inFlight _, h.compactions,
      h.children, ?_⟩
    rw [h.edges, List.append_assoc]

lemma failRequest (h : s.ActsAs t ids earlier) (ht : t.Within ids)
    (hid : .request requestId ∈ ids) :
    (s.failRequest requestId).ActsAs (t.failRequest requestId) ids earlier := by
  rw [FoldState.failRequest, FoldState.failRequest, h.inFlight requestId hid]
  split
  next => exact h
  next request hreq =>
    rw [h.session (ht.inFlight hreq).2]
    refine ⟨?_, get?_delete_of_agree h.inFlight _, h.compactions, h.children, h.edges⟩
    split_ifs
    · exact h.sessions
    · exact get?_set_of_agree h.sessions _ _

/-- What is delivered to a slice among the ids replaces no earlier edge. -/
lemma delivered (h : s.ActsAs t ids earlier)
    (hearlier : ∀ edge ∈ earlier, .request edge.targetRequestId ∉ ids) {slice : String}
    (hslice : .request slice ∈ ids) (pending : List InboundEdge) :
    s.delivered pending slice = earlier ++ t.delivered pending slice := by
  rw [FoldState.delivered, FoldState.delivered, h.edges, append_diff, List.append_assoc]
  intro edge hedge hmem
  obtain ⟨source, -, rfl⟩ := List.mem_map.mp hedge
  exact hearlier _ hmem hslice

section
variable (h : s.ActsAs t ids earlier) (ht : t.Within ids)
  (hearlier : ∀ edge ∈ earlier, .request edge.targetRequestId ∉ ids)
include h ht hearlier

lemma finishCompaction {compactionId : String} (hid : .compaction compactionId ∈ ids)
    (status : CompactionStatus) :
    (s.finishCompaction compactionId status).ActsAs (t.finishCompaction compactionId status) ids
      earlier := by
  have hdel := get?_delete_of_agree h.compactions compactionId
  simp only [FoldState.finishCompaction, h.compactions compactionId hid]
  split_ifs
  · exact ⟨h.sessions, h.inFlight, hdel, h.children, h.edges⟩
  · split
    next => exact ⟨h.sessions, h.inFlight, hdel, h.children, h.edges⟩
    next compaction hcomp =>
      have hsess := h.session (ht.compactions hcomp).2.1
      have hslice : s.slice? compaction = t.slice? compaction := by
        rw [FoldState.slice?, FoldState.slice?, hsess]
      rw [hslice, hsess]
      split
      next =>
        exact ⟨get?_set_of_agree h.sessions _ _, h.inFlight, hdel, h.children, h.edges⟩
      next slice hslice =>
        exact ⟨get?_set_of_agree h.sessions _ _, h.inFlight, hdel, h.children,
          h.delivered hearlier (ht.slice? hcomp hslice) _⟩

/-- An event that names only these ids does the same to both states. -/
lemma step {event : SemanticEdgeLedgerEvent} (hids : ∀ id ∈ event.ids, id ∈ ids) :
    (s.step event).ActsAs (t.step event) ids earlier := by
  cases event with
  | sessionRegistered sessionId =>
    have hhas : s.sessions.has sessionId = t.sessions.has sessionId := by
      rw [JsMap.has, JsMap.has, h.sessions _ (hids _ (by simp [SemanticEdgeLedgerEvent.ids]))]
    rw [FoldState.step, FoldState.step, hhas]
    split_ifs
    · exact h
    · exact ⟨get?_set_of_agree h.sessions _ _, h.inFlight, h.compactions, h.children, h.edges⟩
  | requestStarted => exact h.startRequest hids
  | requestFinished requestId =>
    exact h.finishRequest ht (hids _ (by simp [SemanticEdgeLedgerEvent.ids]))
  | requestFailed requestId =>
    exact h.failRequest ht (hids _ (by simp [SemanticEdgeLedgerEvent.ids]))
  | compactionBegun compactionId sessionId =>
    exact ⟨h.sessions, h.inFlight, get?_set_of_agree h.compactions _ _, h.children, h.edges⟩
  | compactionFinished compactionId status =>
    exact h.finishCompaction ht hearlier (hids _ (by simp [SemanticEdgeLedgerEvent.ids])) status
  | childReturned sessionId childSessionId requestId =>
    have hchild := h.children childSessionId (hids _ (by simp [SemanticEdgeLedgerEvent.ids]))
    have hsess := h.session (hids (.session sessionId) (by simp [SemanticEdgeLedgerEvent.ids]))
    rw [FoldState.step, FoldState.step, hsess]
    simp only [hchild]
    split_ifs
    · exact h
    · refine ⟨get?_set_of_agree h.sessions _ _, h.inFlight, h.compactions, ?_, h.edges⟩
      intro child hid
      rw [List.mem_append, List.mem_append, h.children child hid]

end

end FoldState.ActsAs

/-- **A ledger folded after others acts as it does alone.** -/
lemma actsAs_foldl {s : FoldState} {others ids : List LedgerId} (hs : s.Within others)
    (hdisj : ∀ id ∈ others, id ∉ ids) {events : List SemanticEdgeLedgerEvent}
    (hevents : ∀ id ∈ ledgerIds events, id ∈ ids) :
    (events.foldl FoldState.step s).ActsAs (foldEvents events) ids s.edges := by
  induction events using List.reverseRecOn with
  | nil =>
    refine ⟨fun sessionId hid => ?_, fun requestId hid => ?_, fun compactionId hid => ?_,
      fun child hid => ?_, (List.append_nil _).symm⟩
    · exact JsMap.has_eq_false_iff.mp (by
        rw [← Bool.not_eq_true]
        exact fun hhas => hdisj _ (hs.sessions hhas) hid)
    · rw [foldEvents_nil, JsMap.get?_empty, Option.eq_none_iff_forall_ne_some]
      exact fun request hreq => hdisj _ (hs.inFlight hreq).1 hid
    · rw [foldEvents_nil, JsMap.get?_empty, Option.eq_none_iff_forall_ne_some]
      exact fun compaction hcomp => hdisj _ (hs.compactions hcomp).1 hid
    · exact iff_of_false (fun hchild => hdisj _ (hs.children hchild) hid) nofun
  | append_singleton events event ih =>
    rw [ledgerIds_concat] at hevents
    rw [foldEvents_concat, List.foldl_append, List.foldl_cons, List.foldl_nil]
    have hbefore : ∀ id ∈ ledgerIds events, id ∈ ids :=
      fun id hid => hevents id (List.mem_append_left _ hid)
    apply (ih hbefore).step ((within_foldEvents events).mono hbefore)
    · exact fun edge hedge => hdisj _ (hs.targets hedge)
    · exact fun id hid => hevents id (List.mem_append_right _ hid)

/-- Two ledgers name no id in common. -/
def LedgersDisjoint (ledger ledger' : List SemanticEdgeLedgerEvent) : Prop :=
  ∀ id ∈ ledgerIds ledger, id ∉ ledgerIds ledger'

instance (ledger ledger' : List SemanticEdgeLedgerEvent) :
    Decidable (LedgersDisjoint ledger ledger') :=
  inferInstanceAs (Decidable (∀ id ∈ ledgerIds ledger, id ∉ ledgerIds ledger'))

lemma LedgersDisjoint.symm {ledger ledger' : List SemanticEdgeLedgerEvent}
    (h : LedgersDisjoint ledger ledger') : LedgersDisjoint ledger' ledger :=
  fun id hid hid' => h id hid' hid

/-- The edges of ledgers that name different ids are the edges of each. -/
theorem deriveSemanticEdges_eq_flatMap {ledgers : List (List SemanticEdgeLedgerEvent)}
    (h : ledgers.Pairwise LedgersDisjoint) :
    deriveSemanticEdges ledgers = ledgers.flatMap fun ledger => (foldEvents ledger).edges := by
  induction ledgers using List.reverseRecOn with
  | nil => rfl
  | append_singleton ledgers ledger ih =>
    rw [List.pairwise_append] at h
    have hdisj : ∀ id ∈ ledgerIds ledgers.flatten, id ∉ ledgerIds ledger := by
      intro id hid
      rw [ledgerIds, List.flatMap_def, List.mem_flatten] at hid
      obtain ⟨_, hids, hid⟩ := hid
      obtain ⟨event, hevent, rfl⟩ := List.mem_map.mp hids
      obtain ⟨other, hother, hevent⟩ := List.mem_flatten.mp hevent
      exact h.2.2 other hother ledger (List.mem_singleton_self _) id
        (List.mem_flatMap.mpr ⟨event, hevent, hid⟩)
    have hacts := actsAs_foldl (within_foldEvents ledgers.flatten) hdisj (fun _ hid => hid)
    rw [deriveSemanticEdges, List.flatten_append, foldEvents, List.foldl_append,
      List.flatten_singleton, ← foldEvents, hacts.edges, List.flatMap_append, ← ih h.1]
    simp [deriveSemanticEdges]

/-- **The order of ledgers does not matter.** -/
theorem perm_deriveSemanticEdges {ledgers ledgers' : List (List SemanticEdgeLedgerEvent)}
    (hdisjoint : ledgers.Pairwise LedgersDisjoint) (hperm : ledgers.Perm ledgers') :
    (deriveSemanticEdges ledgers).Perm (deriveSemanticEdges ledgers') := by
  have hdisjoint' := hdisjoint.perm hperm fun h => h.symm
  rw [deriveSemanticEdges_eq_flatMap hdisjoint, deriveSemanticEdges_eq_flatMap hdisjoint']
  exact hperm.flatMap_right _

/-- The ledger of a session whose child returns a request of its own ledger. -/
def parentLedger : List SemanticEdgeLedgerEvent :=
  [.sessionRegistered "root" none none, .requestStarted "p" "root" none, .requestFinished "p",
    .childReturned "root" "child" "a", .requestStarted "q" "root" none, .requestFinished "q"]

def childLedger : List SemanticEdgeLedgerEvent :=
  [.sessionRegistered "child" (some "root") (some "p"), .requestStarted "a" "child" none,
    .requestFinished "a"]

theorem perm_deriveSemanticEdges_child : (deriveSemanticEdges [parentLedger, childLedger]).Perm
      (deriveSemanticEdges [childLedger, parentLedger]) :=
  perm_deriveSemanticEdges (by decide +kernel) (List.Perm.swap childLedger parentLedger [])

end Amide
