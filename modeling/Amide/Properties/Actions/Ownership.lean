import Amide.Framework.Machine
import Amide.Properties.Actions.Outcomes

/-!
# No action of a store is lost or duplicated

Through sequences of operations, some of which throw: an action that was enqueued and not released
since is once in the list its delivery names and in no other list, the ids with a ticket are those
of the owned actions, and an operation that throws changes nothing.  Two operations can break this.
`releaseTerminal` deletes the ticket for the id of its action even where it does not own the
action, and `remove` cancels the candidates it is given one after the other, up to one that cannot
be cancelled.  The sequences that do neither are just those that keep all of it
(`conserves_iff_admissible`).
-/

namespace Amide

open ActionStore

/-- A store, and the actions that were enqueued and not released since. -/
structure StoreHistory where
  store : ActionStore
  unreleased : List ℕ

namespace StoreHistory

/-- What is unreleased after an operation that did not throw. -/
def unreleasedAfter (unreleased : List ℕ) : StoreOperation → List ℕ
  | .enqueue action => action :: unreleased
  | .enqueueFront action => action :: unreleased
  | .releaseTerminal action => unreleased.filter (· ≠ action)
  | _ => unreleased

def after (h : StoreHistory) (operation : StoreOperation) : StoreHistory :=
  match operation.outcome h.store with
  | (none, store) => ⟨store, unreleasedAfter h.unreleased operation⟩
  | (some _, store) => ⟨store, h.unreleased⟩

def empty (objects : ℕ → SessionAction) : StoreHistory := ⟨.empty objects, []⟩

/-- Every unreleased action is once in the list its delivery names and in no other, and a ticket
exists for an id exactly when an owned action has it. -/
structure Conserved (h : StoreHistory) : Prop where
  listed : ∀ action ∈ h.unreleased,
    (h.store.list (h.store.objects action).delivery).count action = 1 ∧
      ∀ policy, policy ≠ (h.store.objects action).delivery → action ∉ h.store.list policy
  ticketed : ∀ id, h.store.tickets.has id = true ↔
    ∃ action ∈ h.store.ownedActions, (h.store.objects action).id = id

end StoreHistory

/-- The lists, the tickets and the lifecycle of every action are the same. -/
structure ActionStore.Unchanged (s s' : ActionStore) : Prop where
  lists : ∀ policy, s'.list policy = s.list policy
  tickets : s'.tickets = s.tickets
  lifecycles : ∀ action, (s'.objects action).lifecycle = (s.objects action).lifecycle

/-- Sequences of operations, some of which may throw. -/
def storeMachine : Machine StoreHistory StoreOperation where
  step h operation h' := h' = h.after operation

/-- A step to a store in which nothing is lost, and that changes nothing if it throws. -/
def Conserves (h : StoreHistory) (operation : StoreOperation) (h' : StoreHistory) : Prop :=
  h'.Conserved ∧ ((operation.outcome h.store).1.isSome = true → h.store.Unchanged h'.store)

/-- An action released is one of the store, or there is no ticket for its id.  Actions to remove
that a caller has named can be cancelled, all of them, or not even the first. -/
def StoreOperation.Admissible (s : ActionStore) : StoreOperation → Prop
  | .releaseTerminal action => (s.objects action).isTerminal = true →
      action ∈ s.list (s.objects action).delivery ∨ s.tickets.has (s.objects action).id = false
  | .remove predicate (some candidates) =>
      ((candidates.filter predicate).Nodup ∧
        ∀ action ∈ candidates.filter predicate, (s.objects action).isTerminal = false) ∨
      ∃ first, (candidates.filter predicate).head? = some first ∧
        (s.objects first).isTerminal = true
  | _ => True

/-! ## Cancelling one action after the other -/

variable {action : ℕ} {message : String}

section Cancel

variable {s s' : ActionStore} {actions : List ℕ} {action : ℕ}

/-- The cancellation of each of the actions, in order. -/
def cancelEach (actions : List ℕ) : StoreM Unit :=
  actions.forM fun action => transitionSessionAction action .cancelled none

lemma run_cancelEach_cons (s : ActionStore) (action : ℕ) (actions : List ℕ) :
    ((s.objects action).isTerminal = true ∧
      ∃ message, (cancelEach (action :: actions)).run s = .error message s) ∨
      ((s.objects action).isTerminal = false ∧ (cancelEach (action :: actions)).run s =
        (cancelEach actions).run (s.setLifecycle action .cancelled)) := by
  rw [cancelEach, List.forM_eq_forM, List.forM_cons, EStateM.run_bind]
  obtain ⟨hterm, message, hrun⟩ | ⟨hterm, hrun⟩ := run_cancel s action
  · exact .inl ⟨hterm, message, by rw [hrun]⟩
  · refine .inr ⟨hterm, ?_⟩
    rw [hrun]
    rfl

lemma isTerminal_setLifecycle_cancelled (s : ActionStore) (action : ℕ) :
    ((s.setLifecycle action .cancelled).objects action).isTerminal = true := by
  rw [objects_setLifecycle, if_pos rfl]
  rfl

lemma objects_setLifecycle_of_ne (s : ActionStore) {other : ℕ} (hne : other ≠ action)
    (lifecycle : ActionLifecycle) :
    (s.setLifecycle action lifecycle).objects other = s.objects other := by
  rw [objects_setLifecycle, if_neg hne]

/-- Without an error there was no action twice and none in a terminal state. -/
lemma cancelEach_ok_iff (s : ActionStore) (actions : List ℕ) :
    (∃ s', (cancelEach actions).run s = .ok () s') ↔
      actions.Nodup ∧ ∀ action ∈ actions, (s.objects action).isTerminal = false := by
  induction actions generalizing s with
  | nil => exact ⟨fun _ => ⟨.nil, nofun⟩, fun _ => ⟨s, rfl⟩⟩
  | cons action actions ih =>
    rw [List.nodup_cons, List.forall_mem_cons]
    obtain ⟨hterm, message, hrun⟩ | ⟨hterm, hrun⟩ := run_cancelEach_cons s action actions
    · constructor
      · rintro ⟨s', hok⟩
        rw [hrun] at hok
        cases hok
      · rintro ⟨_, hfirst, _⟩
        rw [hterm] at hfirst
        cases hfirst
    · rw [hrun, ih]
      constructor
      · rintro ⟨hnodup, hrest⟩
        have hnotMem : action ∉ actions := by
          intro hmem
          have hfalse := hrest action hmem
          rw [isTerminal_setLifecycle_cancelled] at hfalse
          cases hfalse
        refine ⟨⟨hnotMem, hnodup⟩, hterm, ?_⟩
        intro other hother
        have hne : other ≠ action := fun heq => hnotMem (heq ▸ hother)
        rw [← objects_setLifecycle_of_ne s hne .cancelled]
        exact hrest other hother
      · rintro ⟨⟨hnotMem, hnodup⟩, _, hrest⟩
        refine ⟨hnodup, ?_⟩
        intro other hother
        have hne : other ≠ action := fun heq => hnotMem (heq ▸ hother)
        rw [objects_setLifecycle_of_ne s hne]
        exact hrest other hother

/-- What is in a terminal state stays as it is. -/
lemma objects_cancelEach (actions : List ℕ) {s s' : ActionStore}
    (hrun : (cancelEach actions).run s = .error message s')
    (hterm : (s.objects action).isTerminal = true) : s'.objects action = s.objects action := by
  induction actions generalizing s with
  | nil => cases hrun
  | cons other actions ih =>
    obtain ⟨_, message', hrun'⟩ | ⟨hother, hrun'⟩ := run_cancelEach_cons s other actions
    · rw [hrun'] at hrun
      cases hrun
      rfl
    · rw [hrun'] at hrun
      have hne : action ≠ other := by
        rintro rfl
        rw [hterm] at hother
        cases hother
      rw [← objects_setLifecycle_of_ne s hne .cancelled] at hterm ⊢
      exact ih hrun hterm

/-- An error leaves everything as it was when it came at the first action, and only then. -/
lemma unchanged_cancelEach_iff (hrun : (cancelEach actions).run s = .error message s') :
    s.Unchanged s' ↔ ∃ first, actions.head? = some first ∧ (s.objects first).isTerminal = true := by
  cases actions with
  | nil => cases hrun
  | cons action actions =>
    obtain ⟨hterm, message', hrun'⟩ | ⟨hterm, hrun'⟩ := run_cancelEach_cons s action actions
    · rw [hrun'] at hrun
      cases hrun
      exact ⟨fun _ => ⟨action, rfl, hterm⟩, fun _ => ⟨fun _ => rfl, rfl, fun _ => rfl⟩⟩
    · constructor
      · intro hunchanged
        rw [hrun'] at hrun
        have hsame := objects_cancelEach actions hrun (isTerminal_setLifecycle_cancelled s action)
        have hcancelled : (s.objects action).lifecycle = .cancelled := by
          rw [← hunchanged.lifecycles action, hsame, objects_setLifecycle, if_pos rfl]
        rw [SessionAction.isTerminal, hcancelled] at hterm
        cases hterm
      · rintro ⟨first, hfirst, hfirst'⟩
        cases hfirst
        rw [hterm] at hfirst'
        cases hfirst'

end Cancel

/-! ## The invariant -/

/-- The lists are in order, no two owned actions share an id, the tickets are for the ids of owned
actions, and these are the actions that are unreleased. -/
structure StoreHistory.Held (h : StoreHistory) : Prop where
  ordered : h.store.Ordered
  ids : (h.store.ownedActions.map fun action => (h.store.objects action).id).Nodup
  ticketed : ∀ id, h.store.tickets.has id = true ↔
    ∃ action ∈ h.store.ownedActions, (h.store.objects action).id = id
  unreleased : ∀ action, action ∈ h.unreleased ↔ action ∈ h.store.ownedActions

namespace StoreHistory

variable {h : StoreHistory} {operation : StoreOperation} {s' : ActionStore}

lemma Held.conserves_all (hheld : h.Held) : h.Conserved where
  listed action hact := by
    obtain ⟨policy, hpolicy⟩ :=
      mem_ownedActions_iff.mp ((hheld.unreleased action).mp hact)
    have hdeliv := hheld.ordered.delivered policy action hpolicy
    refine ⟨?_, ?_⟩
    · obtain ⟨others, howned, _⟩ := h.store.ownedActions_perm policy
      have hnodup := (List.nodup_append.mp (howned.nodup_iff.mp hheld.ordered.nodup)).1
      rw [hdeliv]
      exact List.count_eq_one_of_mem hnodup hpolicy
    · intro policy' hne hmem
      exact hne (hheld.ordered.delivered policy' action hmem).symm
  ticketed := hheld.ticketed

lemma held_empty (objects : ℕ → SessionAction) : (empty objects).Held where
  ordered := by
    refine ⟨.nil, ?_⟩
    intro policy action hact
    cases policy <;> cases hact
  ids := .nil
  ticketed id := by
    constructor
    · intro hhas
      cases hhas
    · rintro ⟨_, hact, _⟩
      cases hact
  unreleased action := Iff.rfl

section
variable (hheld : h.Held)
include hheld

/-- What rearranges a store keeps the invariant. -/
lemma Held.rearranged (hs' : h.store.Rearranged s') : (⟨s', h.unreleased⟩ : StoreHistory).Held where
  ordered := hs'.ordered hheld.ordered
  ids := by
    show (s'.ownedActions.map fun action => (s'.objects action).id).Nodup
    rw [funext hs'.ids]
    exact (hs'.owned.map _).nodup_iff.mpr hheld.ids
  ticketed id := by
    show s'.tickets.has id = true ↔ ∃ action ∈ s'.ownedActions, (s'.objects action).id = id
    simp only [hs'.tickets, hs'.owned.mem_iff, hs'.ids]
    exact hheld.ticketed id
  unreleased action := by
    rw [hheld.unreleased, hs'.owned.mem_iff]

lemma Held.notMem_of_has (hnew : h.store.tickets.has (h.store.objects action).id = false) :
    action ∉ h.store.ownedActions := by
  intro hact
  have hhas := (hheld.ticketed _).mpr ⟨action, hact, rfl⟩
  rw [hnew] at hhas
  cases hhas

/-- An action whose id has no ticket is new to the store. -/
lemma Held.entered {actions : List ℕ}
    (hnew : h.store.tickets.has (h.store.objects action).id = false)
    (hactions : actions.Perm (action :: h.store.list (h.store.objects action).delivery)) :
    (⟨(h.store.setList actions (h.store.objects action).delivery).addTicket action,
      action :: h.unreleased⟩ : StoreHistory).Held := by
  have hnotMem := hheld.notMem_of_has hnew
  set s := h.store.setList actions (h.store.objects action).delivery with hs
  have howned : s.ownedActions.Perm (action :: h.store.ownedActions) :=
    ownedActions_setList_cons hactions
  have hobjects : s.objects = h.store.objects := objects_setList actions
  have hordered : s.Ordered := hheld.ordered.setList_cons hnotMem hactions
  refine ⟨⟨hordered.nodup, hordered.delivered⟩, ?_, ?_, ?_⟩
  · show (s.ownedActions.map fun a => (s.objects a).id).Nodup
    rw [(howned.map _).nodup_iff, hobjects, List.map_cons, List.nodup_cons]
    refine ⟨?_, hheld.ids⟩
    intro hmem
    obtain ⟨other, hother, hid⟩ := List.mem_map.mp hmem
    have hhas := (hheld.ticketed _).mpr ⟨other, hother, hid⟩
    rw [hnew] at hhas
    cases hhas
  · intro id
    show (s.tickets.set (s.objects action).id _).has id = true ↔
      ∃ a ∈ s.ownedActions, (s.objects a).id = id
    rw [JsMap.has_set_iff, hobjects, hs, tickets_setList, hheld.ticketed, ← hs]
    constructor
    · rintro (hid | ⟨other, hother, hid⟩)
      · exact ⟨action, howned.mem_iff.mpr List.mem_cons_self, hid⟩
      · exact ⟨other, howned.mem_iff.mpr (List.mem_cons_of_mem action hother), hid⟩
    · rintro ⟨other, hother, hid⟩
      rcases List.mem_cons.mp (howned.mem_iff.mp hother) with rfl | hother
      · exact .inl hid
      · exact .inr ⟨other, hother, hid⟩
  · intro other
    show other ∈ action :: h.unreleased ↔ other ∈ s.ownedActions
    rw [howned.mem_iff, List.mem_cons, List.mem_cons, hheld.unreleased]

/-- An action of the store goes together with its ticket. -/
lemma Held.released (hact : action ∈ h.store.list (h.store.objects action).delivery) :
    (⟨(h.store.setList ((h.store.list (h.store.objects action).delivery).erase action)
        (h.store.objects action).delivery).deleteTicket action,
      h.unreleased.filter (· ≠ action)⟩ : StoreHistory).Held := by
  have hrest := List.perm_cons_erase hact
  obtain ⟨hnotMem, hordered⟩ := hheld.ordered.setList_rest hrest
  have howned := ownedActions_perm_cons hrest
  set s := h.store.setList ((h.store.list (h.store.objects action).delivery).erase action)
    (h.store.objects action).delivery with hs
  have hobjects : s.objects = h.store.objects := objects_setList _
  have hids : (h.store.objects action).id ∉ s.ownedActions.map (fun a => (h.store.objects a).id) ∧
      (s.ownedActions.map fun a => (h.store.objects a).id).Nodup := by
    have hnodup := (howned.map fun a => (h.store.objects a).id).nodup_iff.mp hheld.ids
    rwa [List.map_cons, List.nodup_cons] at hnodup
  refine ⟨⟨hordered.nodup, hordered.delivered⟩, ?_, ?_, ?_⟩
  · show (s.ownedActions.map fun a => (s.objects a).id).Nodup
    rw [hobjects]
    exact hids.2
  · intro id
    show (s.tickets.delete (s.objects action).id).has id = true ↔
      ∃ a ∈ s.ownedActions, (s.objects a).id = id
    rw [JsMap.has_delete_iff, hobjects, hs, tickets_setList, hheld.ticketed, ← hs]
    constructor
    · rintro ⟨hne, other, hother, hid⟩
      rcases List.mem_cons.mp (howned.mem_iff.mp hother) with rfl | hother
      · exact absurd hid hne
      · exact ⟨other, hother, hid⟩
    · rintro ⟨other, hother, hid⟩
      refine ⟨?_, other, howned.mem_iff.mpr (List.mem_cons_of_mem action hother), hid⟩
      intro heq
      exact hids.1 (List.mem_map.mpr ⟨other, hother, hid.trans heq.symm⟩)
  · intro other
    show other ∈ h.unreleased.filter (· ≠ action) ↔ other ∈ s.ownedActions
    rw [List.mem_filter, hheld.unreleased, howned.mem_iff, List.mem_cons, decide_eq_true_iff]
    constructor
    · rintro ⟨heq | hother, hne⟩
      · exact absurd heq hne
      · exact hother
    · intro hother
      refine ⟨.inr hother, ?_⟩
      rintro rfl
      exact hnotMem hother

/-- What is not there, and whose id has no ticket, is released without a trace. -/
lemma Held.released_absent (hnew : h.store.tickets.has (h.store.objects action).id = false) :
    (⟨(h.store.setList ((h.store.list (h.store.objects action).delivery).erase action)
        (h.store.objects action).delivery).deleteTicket action,
      h.unreleased.filter (· ≠ action)⟩ : StoreHistory).Held := by
  have hnotMem := hheld.notMem_of_has hnew
  have hlist : action ∉ h.store.list (h.store.objects action).delivery :=
    fun hmem => hnotMem (mem_ownedActions_iff.mpr ⟨_, hmem⟩)
  have hunreleased : h.unreleased.filter (· ≠ action) = h.unreleased := by
    rw [List.filter_eq_self]
    intro other hother
    rw [decide_eq_true_iff]
    rintro rfl
    exact hnotMem ((hheld.unreleased other).mp hother)
  rw [List.erase_of_not_mem hlist, setList_list, deleteTicket,
    JsMap.delete_of_get?_none (JsMap.has_eq_false_iff.mp hnew), hunreleased]
  exact hheld

/-- An action that is not there, but whose id has a ticket, takes the ticket of an owned one. -/
lemma Held.not_conserved_released {unreleased : List ℕ}
    (hlist : action ∉ h.store.list (h.store.objects action).delivery)
    (hhas : h.store.tickets.has (h.store.objects action).id = true) :
    ¬ (⟨(h.store.setList ((h.store.list (h.store.objects action).delivery).erase action)
        (h.store.objects action).delivery).deleteTicket action, unreleased⟩ :
          StoreHistory).Conserved := by
  rw [List.erase_of_not_mem hlist, setList_list]
  intro hcons
  have hdel := (hcons.ticketed (h.store.objects action).id).mpr
    ((hheld.ticketed _).mp hhas)
  exact (JsMap.has_delete_iff.mp hdel).1 rfl

end

/-! ## One operation -/

lemma after_of_ok (hok : operation.outcome h.store = (none, s')) :
    h.after operation = ⟨s', unreleasedAfter h.unreleased operation⟩ := by
  rw [after, hok]

lemma after_of_error (herror : operation.outcome h.store = (some message, s')) :
    h.after operation = ⟨s', h.unreleased⟩ := by
  rw [after, herror]

lemma unreleasedAfter_of_ne (hop : ∀ action, operation ≠ .enqueue action ∧
    operation ≠ .enqueueFront action ∧ operation ≠ .releaseTerminal action)
    (unreleased : List ℕ) : unreleasedAfter unreleased operation = unreleased := by
  cases operation with
  | enqueue action => exact absurd rfl (hop action).1
  | enqueueFront action => exact absurd rfl (hop action).2.1
  | releaseTerminal action => exact absurd rfl (hop action).2.2
  | _ => rfl

lemma Held.after_of_released (hheld : h.Held)
    (hrel : ∀ action, operation = .releaseTerminal action →
      (h.store.objects action).isTerminal = true →
        action ∈ h.store.list (h.store.objects action).delivery ∨
          h.store.tickets.has (h.store.objects action).id = false) :
    (h.after operation).Held := by
  have hyields := StoreOperation.yields_outcome hheld.ordered operation
  generalize houtcome : operation.outcome h.store = outcome at hyields
  obtain ⟨error, s'⟩ := outcome
  cases hyields with
  | threw =>
    rw [after_of_error houtcome]
    exact hheld
  | entered hop hnew hactions =>
    rw [after_of_ok houtcome]
    rcases hop with rfl | rfl
    · exact hheld.entered hnew hactions
    · exact hheld.entered hnew hactions
  | rearranged hop hs' =>
    rw [after_of_ok houtcome, unreleasedAfter_of_ne hop]
    exact hheld.rearranged hs'
  | cancelled hs' =>
    rw [after_of_error houtcome]
    exact hheld.rearranged hs'
  | released hterm =>
    rw [after_of_ok houtcome]
    rcases hrel _ rfl hterm with hact | hnew
    · exact hheld.released hact
    · exact hheld.released_absent hnew

lemma Held.after (hheld : h.Held) (hadmissible : operation.Admissible h.store) :
    (h.after operation).Held := by
  refine hheld.after_of_released ?_
  rintro action rfl
  exact hadmissible

/-! ## Operations that throw -/

/-- The actions to cancel where a caller has named none can be cancelled. -/
lemma Held.cancelEach_clearable (hheld : h.Held) (predicate : ℕ → Bool) :
    ∃ s', (cancelEach ((h.store.clearableActions none).filter predicate)).run h.store =
      .ok () s' := by
  rw [cancelEach_ok_iff]
  refine ⟨(hheld.ordered.nodup.filter _).filter _, ?_⟩
  intro action hact
  have hclearable := (List.mem_filter.mp (List.mem_of_mem_filter hact)).2
  rw [SessionAction.isClearable] at hclearable
  rw [SessionAction.isTerminal]
  cases hstate : (h.store.objects action).lifecycle.state <;> rw [hstate] at hclearable <;>
    first | rfl | cases hclearable

lemma outcome_remove (s : ActionStore) (predicate : ℕ → Bool) (candidates : Option (List ℕ)) :
    (StoreOperation.remove predicate candidates).outcome s =
      match (cancelEach ((candidates.getD (s.clearableActions none)).filter predicate)).run s with
      | .ok _ s' => (none, s')
      | .error message s' => (some message, s') := by
  rw [StoreOperation.outcome, StoreOperation.run_remove]
  rfl

/-- Where a caller has named the candidates, `remove` throws after a change just if it is not
admissible. -/
lemma remove_unchanged_iff (s : ActionStore) (predicate : ℕ → Bool) (candidates : List ℕ) :
    (((StoreOperation.remove predicate (some candidates)).outcome s).1.isSome = true →
      s.Unchanged ((StoreOperation.remove predicate (some candidates)).outcome s).2) ↔
      (StoreOperation.remove predicate (some candidates)).Admissible s := by
  have hok := cancelEach_ok_iff s (candidates.filter predicate)
  rw [outcome_remove, Option.getD_some, StoreOperation.Admissible]
  cases hrun : (cancelEach (candidates.filter predicate)).run s with
  | ok _ s' => exact ⟨fun _ => .inl (hok.mp ⟨s', hrun⟩), fun _ => nofun⟩
  | error message s' =>
    have hnot : ¬ ((candidates.filter predicate).Nodup ∧
        ∀ action ∈ candidates.filter predicate, (s.objects action).isTerminal = false) := by
      rw [← hok, hrun]
      exact nofun
    rw [or_iff_right hnot, ← unchanged_cancelEach_iff hrun]
    exact ⟨fun hsame => hsame rfl, fun hsame _ => hsame⟩

lemma Held.conserves_of_admissible (hheld : h.Held) (hadmissible : operation.Admissible h.store) :
    Conserves h operation (h.after operation) := by
  refine ⟨(hheld.after hadmissible).conserves_all, ?_⟩
  have hyields := StoreOperation.yields_outcome hheld.ordered operation
  generalize houtcome : operation.outcome h.store = outcome at hyields
  obtain ⟨error, s'⟩ := outcome
  intro hthrew
  cases hyields with
  | threw =>
    rw [after_of_error houtcome]
    exact ⟨fun _ => rfl, rfl, fun _ => rfl⟩
  | entered => cases hthrew
  | rearranged => cases hthrew
  | @cancelled predicate candidates message s' hs' =>
    rw [after_of_error houtcome]
    cases candidates with
    | none =>
      obtain ⟨s'', hrun⟩ := hheld.cancelEach_clearable predicate
      rw [outcome_remove, Option.getD_none, hrun] at houtcome
      cases houtcome
    | some candidates =>
      have hsame := (remove_unchanged_iff h.store predicate candidates).mpr hadmissible
      rw [houtcome] at hsame
      exact hsame rfl
  | released => cases hthrew

lemma Held.admissible_of_conserves (hheld : h.Held)
    (hconserves : Conserves h operation (h.after operation)) : operation.Admissible h.store := by
  cases operation with
  | releaseTerminal action =>
    intro hterm
    by_contra hnot
    rw [not_or, Bool.not_eq_false] at hnot
    have hcons := hconserves.1
    rw [after_of_ok (StoreOperation.outcome_releaseTerminal hterm)] at hcons
    exact hheld.not_conserved_released hnot.1 hnot.2 hcons
  | remove predicate candidates =>
    cases candidates with
    | none => trivial
    | some candidates =>
      rw [← remove_unchanged_iff]
      intro hthrew
      have hsame := hconserves.2 hthrew
      rw [Option.isSome_iff_exists] at hthrew
      obtain ⟨message, hmsg⟩ := hthrew
      rwa [after_of_error (Prod.ext hmsg rfl)] at hsame
  | _ => trivial

end StoreHistory

/-! ## Sequences of operations -/

open StoreHistory in
/-- **No action is lost or duplicated** by just the sequences of admissible operations, from an
empty store and whatever actions there are: in each store they come to every unreleased action is
once in the list its delivery names, the tickets are those of the owned actions, and an operation
that throws changes nothing. -/
theorem conserves_iff_admissible (objects : ℕ → SessionAction) (operations : List StoreOperation)
    (h : StoreHistory) :
    (storeMachine.guard fun h operation => operation.Admissible h.store).Run (.empty objects)
        operations h ↔
      (storeMachine.restrict Conserves).Run (.empty objects) operations h := by
  apply Machine.guard_run_iff_restrict_run Held (held_empty objects)
  · rintro h operation _ hheld rfl hconserves
    exact hheld.after (hheld.admissible_of_conserves hconserves)
  · rintro h operation _ hheld rfl
    exact ⟨hheld.conserves_of_admissible, hheld.admissible_of_conserves⟩

/-- An action that was cancelled and released is released once more, when another action has its
id: that one stays in its list, without its ticket. -/
theorem not_conserved_releasedTwice : ¬ ∀ (objects : ℕ → SessionAction)
    (operations : List StoreOperation) (h : StoreHistory),
      storeMachine.Run (.empty objects) operations h → h.Conserved := by
  intro hall
  let objects : ℕ → SessionAction := fun _ => ⟨"x", .whenRunIdle, .sessionCommand "/name", .queued⟩
  let operations : List StoreOperation := [.enqueue 0, .transitionSessionAction 0 .cancelled none,
    .releaseTerminal 0, .enqueue 1, .releaseTerminal 0]
  have hrun : storeMachine.Run (.empty objects) operations
      (operations.foldl StoreHistory.after (.empty objects)) :=
    Machine.Run.of_foldl (fun _ _ => rfl) _ operations
  have hticketed := (hall objects operations _ hrun).ticketed "x"
  have hhas := hticketed.mpr ⟨1, by decide +kernel, by decide +kernel⟩
  exact absurd hhas (by decide +kernel)

end Amide
