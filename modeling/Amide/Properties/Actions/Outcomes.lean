import Amide.Construction.Actions.ActionStore
import Mathlib.Data.List.Perm.Basic

/-!
# What the operations of an action store can do

In a store whose lists are in order (`ActionStore.Ordered`: each action is in one list, the one its
delivery names) an operation that throws leaves the store as it was, or it is `remove`, which
cancels one action after the other.  One that does not throw takes an action in, releases one, or
rearranges those there are.  `StoreOperation.Yields` lists these outcomes.
-/

namespace Amide

variable (actions : List ℕ)

namespace ActionStore

/-! ## Rearranged stores -/

/-- Each action is in one list, once, and that is the one its delivery names. -/
structure Ordered (s : ActionStore) : Prop where
  nodup : s.ownedActions.Nodup
  delivered : ∀ policy, ∀ action ∈ s.list policy, (s.objects action).delivery = policy

/-- A store with the same actions and tickets, and the lists as they should be. -/
structure Rearranged (s s' : ActionStore) : Prop where
  ids : ∀ action, (s'.objects action).id = (s.objects action).id
  owned : s'.ownedActions.Perm s.ownedActions
  delivered : ∀ policy, ∀ action ∈ s'.list policy, (s'.objects action).delivery = policy
  tickets : s'.tickets = s.tickets

variable {s s' : ActionStore} {action : ℕ} {policy : DeliveryPolicy}

lemma mem_ownedActions_iff : action ∈ s.ownedActions ↔ ∃ policy, action ∈ s.list policy := by
  show action ∈ s.nextTurnBoundary ++ s.whenRunIdle ↔ _
  rw [List.mem_append]
  constructor
  · rintro (h | h)
    · exact ⟨.nextTurnBoundary, h⟩
    · exact ⟨.whenRunIdle, h⟩
  · rintro ⟨_ | _, h⟩
    · exact .inl h
    · exact .inr h

@[simp] lemma list_setList_self : (s.setList actions policy).list policy = actions := by
  cases policy <;> rfl

lemma list_setList_of_ne {policy' : DeliveryPolicy} (hne : policy' ≠ policy) (actions : List ℕ) :
    (s.setList actions policy).list policy' = s.list policy' := by
  cases policy <;> cases policy' <;> first | rfl | exact absurd rfl hne

@[simp] lemma setList_list (s : ActionStore) (policy : DeliveryPolicy) :
    s.setList (s.list policy) policy = s := by
  cases policy <;> rfl

@[simp] lemma objects_setList : (s.setList actions policy).objects = s.objects := by
  cases policy <;> rfl

@[simp] lemma tickets_setList : (s.setList actions policy).tickets = s.tickets := by
  cases policy <;> rfl

/-- The owned actions, those of one list first. -/
lemma ownedActions_perm (s : ActionStore) (policy : DeliveryPolicy) :
    ∃ others, s.ownedActions.Perm (s.list policy ++ others) ∧
      ∀ actions, (s.setList actions policy).ownedActions.Perm (actions ++ others) := by
  cases policy with
  | nextTurnBoundary => exact ⟨s.whenRunIdle, .refl _, fun actions => .refl _⟩
  | whenRunIdle =>
    exact ⟨s.nextTurnBoundary, List.perm_append_comm, fun actions => List.perm_append_comm⟩

variable {actions : List ℕ}

lemma ownedActions_setList_perm (h : actions.Perm (s.list policy)) :
    (s.setList actions policy).ownedActions.Perm s.ownedActions := by
  obtain ⟨others, hs, hset⟩ := s.ownedActions_perm policy
  exact (hset actions).trans ((h.append_right others).trans hs.symm)

lemma ownedActions_setList_cons (h : actions.Perm (action :: s.list policy)) :
    (s.setList actions policy).ownedActions.Perm (action :: s.ownedActions) := by
  obtain ⟨others, hs, hset⟩ := s.ownedActions_perm policy
  exact (hset actions).trans ((h.append_right others).trans (hs.symm.cons action))

lemma ownedActions_perm_cons (h : (s.list policy).Perm (action :: actions)) :
    s.ownedActions.Perm (action :: (s.setList actions policy).ownedActions) := by
  obtain ⟨others, hs, hset⟩ := s.ownedActions_perm policy
  exact hs.trans ((h.append_right others).trans ((hset actions).symm.cons action))

lemma Ordered.rearranged_refl (h : s.Ordered) : s.Rearranged s :=
  ⟨fun _ => rfl, .refl _, h.delivered, rfl⟩

lemma Rearranged.ordered (h : s.Ordered) (h' : s.Rearranged s') : s'.Ordered :=
  ⟨h'.owned.nodup_iff.mpr h.nodup, h'.delivered⟩

lemma Rearranged.trans {s'' : ActionStore} (h : s.Rearranged s') (h' : s'.Rearranged s'') :
    s.Rearranged s'' :=
  ⟨fun a => (h'.ids a).trans (h.ids a), h'.owned.trans h.owned, h'.delivered,
    h'.tickets.trans h.tickets⟩

@[simp] lemma list_setLifecycle (lifecycle : ActionLifecycle) :
    (s.setLifecycle action lifecycle).list policy = s.list policy := by
  cases policy <;> rfl

lemma objects_setLifecycle (lifecycle : ActionLifecycle) (other : ℕ) :
    (s.setLifecycle action lifecycle).objects other =
      if other = action then { s.objects action with lifecycle } else s.objects other := by
  simp only [setLifecycle, Function.update_apply]

lemma Ordered.setLifecycle (h : s.Ordered) (action : ℕ) (lifecycle : ActionLifecycle) :
    s.Rearranged (s.setLifecycle action lifecycle) where
  ids other := by
    rw [objects_setLifecycle]
    split_ifs with heq
    · rw [heq]
    · rfl
  owned := .refl _
  delivered policy other hother := by
    have hpolicy := h.delivered policy other hother
    rw [objects_setLifecycle]
    split_ifs with heq
    · rw [← hpolicy, heq]
    · exact hpolicy
  tickets := rfl

lemma Ordered.setList (h : s.Ordered) (hactions : actions.Perm (s.list policy)) :
    s.Rearranged (s.setList actions policy) where
  ids other := by rw [objects_setList]
  owned := ownedActions_setList_perm hactions
  delivered policy' other hother := by
    rw [objects_setList]
    by_cases hpolicy : policy' = policy
    · rw [hpolicy, list_setList_self, hactions.mem_iff] at hother
      rw [hpolicy]
      exact h.delivered policy other hother
    · rw [list_setList_of_ne hpolicy] at hother
      exact h.delivered policy' other hother
  tickets := tickets_setList actions

/-- A new action goes into the list that its delivery names. -/
lemma Ordered.setList_cons (h : s.Ordered) (hnew : action ∉ s.ownedActions)
    (hactions : actions.Perm (action :: s.list (s.objects action).delivery)) :
    (s.setList actions (s.objects action).delivery).Ordered where
  nodup := by
    rw [(ownedActions_setList_cons hactions).nodup_iff]
    exact List.nodup_cons.mpr ⟨hnew, h.nodup⟩
  delivered policy other hother := by
    rw [objects_setList]
    by_cases hpolicy : policy = (s.objects action).delivery
    · rw [hpolicy, list_setList_self, hactions.mem_iff] at hother
      rw [hpolicy]
      rcases List.mem_cons.mp hother with hother | hother
      · rw [hother]
      · exact h.delivered _ other hother
    · rw [list_setList_of_ne hpolicy] at hother
      exact h.delivered policy other hother

/-- One action fewer. -/
lemma Ordered.setList_rest (h : s.Ordered) {rest : List ℕ}
    (hrest : (s.list policy).Perm (action :: rest)) :
    action ∉ (s.setList rest policy).ownedActions ∧ (s.setList rest policy).Ordered := by
  have hnodup := (ownedActions_perm_cons hrest).nodup_iff.mp h.nodup
  obtain ⟨hnotMem, hothers⟩ := List.nodup_cons.mp hnodup
  refine ⟨hnotMem, hothers, ?_⟩
  intro policy' other hother
  rw [objects_setList]
  by_cases hpolicy : policy' = policy
  · rw [hpolicy, list_setList_self] at hother
    rw [hpolicy]
    exact h.delivered policy other (hrest.mem_iff.mpr (List.mem_cons_of_mem action hother))
  · rw [list_setList_of_ne hpolicy] at hother
    exact h.delivered policy' other hother

@[simp] lemma list_setDelivery (delivery : DeliveryPolicy) :
    (s.setDelivery action delivery).list policy = s.list policy := by
  cases policy <;> rfl

lemma objects_setDelivery (delivery : DeliveryPolicy) (other : ℕ) :
    (s.setDelivery action delivery).objects other =
      if other = action then { s.objects action with delivery } else s.objects other := by
  simp only [setDelivery, Function.update_apply]

/-- An action that no list has can be given another delivery. -/
lemma Ordered.setDelivery (h : s.Ordered) (hnew : action ∉ s.ownedActions)
    (delivery : DeliveryPolicy) : (s.setDelivery action delivery).Ordered where
  nodup := h.nodup
  delivered policy other hother := by
    have hne : other ≠ action := by
      rintro rfl
      exact hnew (mem_ownedActions_iff.mpr ⟨policy, hother⟩)
    rw [objects_setDelivery, if_neg hne]
    exact h.delivered policy other hother

/-- An action taken out of its list, given a delivery and put into the list that this names. -/
lemma Ordered.move (h : s.Ordered) {rest : List ℕ}
    (hrest : (s.list (s.objects action).delivery).Perm (action :: rest))
    (hactions : actions.Perm (action :: (s.setList rest (s.objects action).delivery).list policy)) :
    s.Rearranged (((s.setList rest (s.objects action).delivery).setDelivery action policy).setList
      actions policy) := by
  have howned := ownedActions_perm_cons hrest
  obtain ⟨hnew, hordered⟩ := h.setList_rest hrest
  set without := s.setList rest (s.objects action).delivery with hwithout
  set readdressed := without.setDelivery action policy with hreaddressed
  have hdeliv : (readdressed.objects action).delivery = policy := by
    rw [hreaddressed, objects_setDelivery, if_pos rfl]
  have hperm : actions.Perm (action :: readdressed.list (readdressed.objects action).delivery) := by
    rwa [hdeliv, hreaddressed, list_setDelivery]
  have hmoved := (hordered.setDelivery hnew policy).setList_cons hnew hperm
  rw [hdeliv] at hmoved hperm
  refine ⟨?_, (ownedActions_setList_cons hperm).trans howned.symm, hmoved.delivered, ?_⟩
  · intro other
    rw [objects_setList, hreaddressed, objects_setDelivery, hwithout, objects_setList]
    split_ifs with heq
    · rw [heq]
    · rfl
  · rw [tickets_setList]
    exact tickets_setList rest

end ActionStore

/-! ## The outcomes -/

/-- What an operation throws, if it does, and the store that it leaves. -/
inductive StoreOperation.Yields (s : ActionStore) :
    StoreOperation → Option String → ActionStore → Prop
  | threw {operation : StoreOperation} {message : String} : Yields s operation (some message) s
  | entered {operation : StoreOperation} {action : ℕ} {actions : List ℕ}
      (hoperation : operation = .enqueue action ∨ operation = .enqueueFront action)
      (hnew : s.tickets.has (s.objects action).id = false)
      (hactions : actions.Perm (action :: s.list (s.objects action).delivery)) :
      Yields s operation none ((s.setList actions (s.objects action).delivery).addTicket action)
  | rearranged {operation : StoreOperation} {s' : ActionStore}
      (hoperation : ∀ action, operation ≠ .enqueue action ∧ operation ≠ .enqueueFront action ∧
        operation ≠ .releaseTerminal action)
      (hs' : s.Rearranged s') : Yields s operation none s'
  | cancelled {predicate : ℕ → Bool} {candidates : Option (List ℕ)} {message : String}
      {s' : ActionStore} (hs' : s.Rearranged s') :
      Yields s (.remove predicate candidates) (some message) s'
  | released {action : ℕ} (hterminal : (s.objects action).isTerminal = true) :
      Yields s (.releaseTerminal action) none
        ((s.setList ((s.list (s.objects action).delivery).erase action)
          (s.objects action).delivery).deleteTicket action)

/-! ### Transitions -/

lemma run_transitionSessionAction (s : ActionStore) (action : ℕ) (next : ActionLifecycle)
    (proof : Option RollbackProof) :
    (∃ message, (transitionSessionAction action next proof).run s = .error message s) ∨
      (transitionSessionAction action next proof).run s = .ok () (s.setLifecycle action next) := by
  simp only [transitionSessionAction, EStateM.run_bind, EStateM.run_get]
  split_ifs
  all_goals first | exact .inl ⟨_, rfl⟩ | exact .inr rfl

lemma isTerminal_of_run {action : ℕ} {next : ActionLifecycle} {proof : Option RollbackProof}
    {s s' : ActionStore} (h : (transitionSessionAction action next proof).run s = .ok () s') :
    (s.objects action).isTerminal = false := by
  simp only [transitionSessionAction, EStateM.run_bind, EStateM.run_get] at h
  rw [SessionAction.isTerminal]
  cases hstate : (s.objects action).lifecycle.state
  case completed | failed | cancelled =>
    rw [hstate, if_pos (by exact List.not_mem_nil)] at h
    cases h
  all_goals rfl

/-- An action is cancelled unless it is in a terminal state. -/
lemma run_cancel (s : ActionStore) (action : ℕ) : ((s.objects action).isTerminal = true ∧
      ∃ message, (transitionSessionAction action .cancelled none).run s = .error message s) ∨
      ((s.objects action).isTerminal = false ∧
        (transitionSessionAction action .cancelled none).run s =
          .ok () (s.setLifecycle action .cancelled)) := by
  simp only [transitionSessionAction, EStateM.run_bind, EStateM.run_get, SessionAction.isTerminal]
  cases hstate : (s.objects action).lifecycle.state
  all_goals first
    | exact .inr ⟨rfl, rfl⟩
    | exact .inl ⟨rfl, _, rfl⟩

lemma rearranged_of_cancel {s : ActionStore} (h : s.Ordered) : ∃ s', s.Rearranged s' ∧
      ((actions.forM fun action => transitionSessionAction action .cancelled none).run s =
          .ok () s' ∨
        ∃ message, (actions.forM fun action =>
          transitionSessionAction action .cancelled none).run s = .error message s') := by
  induction actions generalizing s with
  | nil => exact ⟨s, h.rearranged_refl, .inl rfl⟩
  | cons action actions ih =>
    rw [List.forM_eq_forM, List.forM_cons, EStateM.run_bind]
    obtain ⟨_, message, hrun⟩ | ⟨_, hrun⟩ := run_cancel s action
    · rw [hrun]
      exact ⟨s, h.rearranged_refl, .inr ⟨message, rfl⟩⟩
    · have hfirst := h.setLifecycle action .cancelled
      obtain ⟨s', hs', hrest⟩ := ih (hfirst.ordered h)
      rw [hrun]
      exact ⟨s', hfirst.trans hs', hrest⟩

/-! ### The operations -/

namespace StoreOperation

variable {s s' : ActionStore} {operation : StoreOperation}

lemma outcome_of_ok (h : operation.perform.run s = .ok () s') :
    operation.outcome s = (none, s') := by
  rw [outcome, h]

lemma outcome_of_error {message : String} (h : operation.perform.run s = .error message s') :
    operation.outcome s = (some message, s') := by
  rw [outcome, h]

lemma yields_of_ok (h : operation.perform.run s = .ok () s')
    (hyields : operation.Yields s none s') :
    operation.Yields s (operation.outcome s).1 (operation.outcome s).2 := by
  rwa [outcome_of_ok h]

lemma yields_of_error {message : String} (h : operation.perform.run s = .error message s) :
    operation.Yields s (operation.outcome s).1 (operation.outcome s).2 := by
  rw [outcome_of_error h]
  exact .threw

lemma run_assertNewAction (s : ActionStore) (action : ℕ) :
    (∃ message, (ActionStore.assertNewAction action).run s = .error message s) ∨
      ((s.objects action).isQueued = true ∧ s.tickets.has (s.objects action).id = false ∧
        (ActionStore.assertNewAction action).run s = .ok () s) := by
  simp only [ActionStore.assertNewAction, EStateM.run_bind, EStateM.run_get]
  by_cases hqueued : (s.objects action).isQueued = true
  · rw [if_neg (by simp [hqueued])]
    by_cases hhas : s.tickets.has (s.objects action).id = true
    · rw [if_pos hhas]
      exact .inl ⟨_, rfl⟩
    · rw [if_neg hhas]
      exact .inr ⟨hqueued, by simpa using hhas, rfl⟩
  · rw [if_pos (by simp [hqueued])]
    exact .inl ⟨_, rfl⟩

lemma run_enqueue (s : ActionStore) (action : ℕ) :
    (∃ message, (ActionStore.enqueue action).run s = .error message s) ∨
      ((s.objects action).isQueued = true ∧ s.tickets.has (s.objects action).id = false ∧
        (ActionStore.enqueue action).run s = .ok ()
          ((s.setList (s.list (s.objects action).delivery ++ [action])
            (s.objects action).delivery).addTicket action)) := by
  obtain ⟨message, hrun⟩ | ⟨hqueued, hnew, hrun⟩ := run_assertNewAction s action
  · refine .inl ⟨message, ?_⟩
    simp only [ActionStore.enqueue, EStateM.run_bind, hrun]
  · refine .inr ⟨hqueued, hnew, ?_⟩
    simp only [ActionStore.enqueue, EStateM.run_bind, hrun, EStateM.run_get, EStateM.run_set,
      EStateM.run_modify]

lemma run_enqueueFront (s : ActionStore) (action : ℕ) :
    (∃ message, (ActionStore.enqueueFront action).run s = .error message s) ∨
      ((s.objects action).isQueued = true ∧ s.tickets.has (s.objects action).id = false ∧
        (ActionStore.enqueueFront action).run s = .ok ()
          ((s.setList ((s.list (s.objects action).delivery).insertIdx
            ((s.list (s.objects action).delivery).findIdx fun item => (s.objects item).isQueued)
              action) (s.objects action).delivery).addTicket action)) := by
  obtain ⟨message, hrun⟩ | ⟨hqueued, hnew, hrun⟩ := run_assertNewAction s action
  · refine .inl ⟨message, ?_⟩
    simp only [ActionStore.enqueueFront, EStateM.run_bind, hrun]
  · refine .inr ⟨hqueued, hnew, ?_⟩
    simp only [ActionStore.enqueueFront, EStateM.run_bind, hrun, EStateM.run_get, EStateM.run_set,
      EStateM.run_modify]

lemma yields_enqueue (s : ActionStore) (action : ℕ) :
    (enqueue action).Yields s ((enqueue action).outcome s).1 ((enqueue action).outcome s).2 := by
  obtain ⟨message, hrun⟩ | ⟨_, hnew, hrun⟩ := run_enqueue s action
  · exact yields_of_error hrun
  · exact yields_of_ok hrun (.entered (.inl rfl) hnew (List.perm_append_singleton action _))

lemma yields_enqueueFront (s : ActionStore) (action : ℕ) :
    (enqueueFront action).Yields s ((enqueueFront action).outcome s).1
      ((enqueueFront action).outcome s).2 := by
  obtain ⟨message, hrun⟩ | ⟨_, hnew, hrun⟩ := run_enqueueFront s action
  · exact yields_of_error hrun
  · exact yields_of_ok hrun
      (.entered (.inr rfl) hnew (List.perm_insertIdx action _ List.findIdx_le_length))

lemma yields_transition (h : s.Ordered) (hop : ∀ action, operation ≠ .enqueue action ∧
    operation ≠ .enqueueFront action ∧ operation ≠ .releaseTerminal action) (action : ℕ)
    (next : ActionLifecycle) (proof : Option RollbackProof)
    (hrun : operation.perform.run s = (Amide.transitionSessionAction action next proof).run s) :
    operation.Yields s (operation.outcome s).1 (operation.outcome s).2 := by
  obtain ⟨message, hrun'⟩ | hrun' := run_transitionSessionAction s action next proof
  · exact yields_of_error (hrun.trans hrun')
  · exact yields_of_ok (hrun.trans hrun') (.rearranged hop (h.setLifecycle action next))

lemma run_discard {α : Type} (x : StoreM α) (s : ActionStore) :
    (discard x : StoreM Unit).run s = match x.run s with
      | .ok _ s' => .ok () s'
      | .error message s' => .error message s' := by
  show EStateM.map (Function.const α ()) x s = _
  rw [EStateM.map, EStateM.run]
  cases x s <;> rfl

lemma yields_selectFirst (h : s.Ordered) :
    selectFirst.Yields s (selectFirst.outcome s).1 (selectFirst.outcome s).2 := by
  have hop : ∀ action, selectFirst ≠ .enqueue action ∧ selectFirst ≠ .enqueueFront action ∧
      selectFirst ≠ .releaseTerminal action := fun _ => ⟨nofun, nofun, nofun⟩
  cases hfirst : (s.nextTurnBoundary.find? fun item => (s.objects item).isQueued).or
      (s.whenRunIdle.find? fun item => (s.objects item).isQueued) with
  | none =>
    refine yields_of_ok ?_ (.rearranged hop h.rearranged_refl)
    simp only [perform, run_discard, ActionStore.selectFirst, EStateM.run_bind, EStateM.run_get,
      hfirst]
    rfl
  | some action =>
    apply yields_transition h hop action .selected none
    simp only [perform, run_discard, ActionStore.selectFirst, EStateM.run_bind, EStateM.run_get,
      hfirst]
    obtain ⟨message, hrun⟩ | hrun := run_transitionSessionAction s action .selected none
    · rw [hrun]
    · rw [hrun]
      rfl

lemma run_remove (s : ActionStore) (predicate : ℕ → Bool) (candidates : Option (List ℕ)) :
    (perform (.remove predicate candidates)).run s =
      (((candidates.getD (s.clearableActions none)).filter predicate).forM fun action =>
        Amide.transitionSessionAction action .cancelled none).run s := by
  simp only [perform, run_discard, ActionStore.remove, EStateM.run_bind, EStateM.run_get]
  cases (((candidates.getD (s.clearableActions none)).filter predicate).forM fun action =>
    Amide.transitionSessionAction action .cancelled none).run s <;> rfl

lemma yields_remove (h : s.Ordered) (predicate : ℕ → Bool) (candidates : Option (List ℕ)) :
    (remove predicate candidates).Yields s ((remove predicate candidates).outcome s).1
      ((remove predicate candidates).outcome s).2 := by
  obtain ⟨s', hs', hrun⟩ := rearranged_of_cancel
    ((candidates.getD (s.clearableActions none)).filter predicate) h
  rw [← run_remove] at hrun
  rcases hrun with hrun | ⟨message, hrun⟩
  · exact yields_of_ok hrun (.rearranged (fun _ => ⟨nofun, nofun, nofun⟩) hs')
  · rw [outcome_of_error hrun]
    exact .cancelled hs'

lemma run_swapQueued (s : ActionStore) (left right : ℕ) :
    (∃ message, (ActionStore.swapQueued left right).run s = .error message s) ∨
      ((s.objects left).isQueued = true ∧ (s.objects right).isQueued = true ∧
        ∃ leftIndex rightIndex policy, (s.list policy).idxOf? left = some leftIndex ∧
          (s.list policy).idxOf? right = some rightIndex ∧
          (ActionStore.swapQueued left right).run s = .ok () (s.setList
            (((s.list policy).set leftIndex right).set rightIndex left) policy)) := by
  simp only [ActionStore.swapQueued, EStateM.run_bind, EStateM.run_get]
  split_ifs with hthrows
  · exact .inl ⟨_, rfl⟩
  · simp only [Bool.or_eq_true, Bool.not_eq_true', not_or, Bool.not_eq_false] at hthrows
    cases hleft : (s.list (s.objects left).delivery).idxOf? left with
    | none => exact .inl ⟨_, rfl⟩
    | some leftIndex =>
      cases hright : (s.list (s.objects left).delivery).idxOf? right with
      | none => exact .inl ⟨_, rfl⟩
      | some rightIndex =>
        exact .inr ⟨hthrows.1.1, hthrows.1.2, leftIndex, rightIndex, _, hleft, hright, rfl⟩

lemma yields_swapQueued (h : s.Ordered) (left right : ℕ) :
    (swapQueued left right).Yields s ((swapQueued left right).outcome s).1
      ((swapQueued left right).outcome s).2 := by
  obtain ⟨message, hrun⟩ | ⟨-, -, leftIndex, rightIndex, policy, hleft, hright, hrun⟩ :=
    run_swapQueued s left right
  · exact yields_of_error hrun
  · refine yields_of_ok hrun (.rearranged (fun _ => ⟨nofun, nofun, nofun⟩) (h.setList ?_))
    obtain ⟨hleft, hleftIndex, _⟩ := List.idxOf?_eq_some_iff.mp hleft
    obtain ⟨hright, hrightIndex, _⟩ := List.idxOf?_eq_some_iff.mp hright
    rw [← hleftIndex, ← hrightIndex]
    exact List.set_set_perm hleft hright

/-- Where an action goes that moves to the lane, before the queued action at the index. -/
def moveTarget (s : ActionStore) (delivery : DeliveryPolicy) (index : ℤ) : ℕ :=
  let queued := s.queuedActions (some delivery)
  match queued[(max 0 (min index queued.length)).toNat]? with
  | some before => (s.list delivery).idxOf before
  | none => (s.list delivery).length

lemma moveTarget_le (s : ActionStore) (delivery : DeliveryPolicy) (index : ℤ) :
    moveTarget s delivery index ≤ (s.list delivery).length := by
  rw [moveTarget]
  split
  · exact List.idxOf_le_length
  · exact Nat.le_refl _

/-- An action that moves is taken from its list and put into the other. -/
lemma run_moveQueued (s : ActionStore) (action : ℕ) (delivery : DeliveryPolicy) (index : ℤ) :
    (∃ message, (ActionStore.moveQueued action delivery index).run s = .error message s) ∨
      ((s.objects action).isQueued = true ∧ ∃ sourceIndex,
        (s.list (s.objects action).delivery).idxOf? action = some sourceIndex ∧
        let without := (s.setList ((s.list (s.objects action).delivery).eraseIdx sourceIndex)
          (s.objects action).delivery).setDelivery action delivery
        (ActionStore.moveQueued action delivery index).run s =
          .ok () (without.setList ((without.list delivery).insertIdx
            (moveTarget without delivery index) action) delivery)) := by
  simp only [ActionStore.moveQueued, EStateM.run_bind, EStateM.run_get]
  split_ifs with hthrows
  · exact .inl ⟨_, rfl⟩
  · cases hsource : (s.list (s.objects action).delivery).idxOf? action with
    | none => exact .inl ⟨_, rfl⟩
    | some sourceIndex => exact .inr ⟨by simpa using hthrows, sourceIndex, rfl, rfl⟩

lemma yields_moveQueued (h : s.Ordered) (action : ℕ) (delivery : DeliveryPolicy) (index : ℤ) :
    (moveQueued action delivery index).Yields s ((moveQueued action delivery index).outcome s).1
      ((moveQueued action delivery index).outcome s).2 := by
  obtain ⟨message, hrun⟩ | ⟨-, sourceIndex, hsource, hrun⟩ := run_moveQueued s action delivery index
  · exact yields_of_error hrun
  · refine yields_of_ok hrun (.rearranged (fun _ => ⟨nofun, nofun, nofun⟩) ?_)
    obtain ⟨hlt, hat, _⟩ := List.idxOf?_eq_some_iff.mp hsource
    have hrest := List.getElem_cons_eraseIdx_perm hlt
    rw [hat] at hrest
    refine h.move hrest.symm ?_
    have hinserted := List.perm_insertIdx action _ (moveTarget_le ((s.setList
      ((s.list (s.objects action).delivery).eraseIdx sourceIndex)
        (s.objects action).delivery).setDelivery action delivery) delivery index)
    rwa [ActionStore.list_setDelivery] at hinserted ⊢

lemma outcome_releaseTerminal {action : ℕ} (hterm : (s.objects action).isTerminal = true) :
    (releaseTerminal action).outcome s = (none,
      (s.setList ((s.list (s.objects action).delivery).erase action)
        (s.objects action).delivery).deleteTicket action) := by
  apply outcome_of_ok
  simp only [perform, ActionStore.releaseTerminal, EStateM.run_bind, EStateM.run_get, hterm]
  rfl

lemma exists_throws {action : ℕ} (hterm : (s.objects action).isTerminal ≠ true) :
    ∃ message, (perform (.releaseTerminal action)).run s = .error message s := by
  simp only [perform, ActionStore.releaseTerminal, EStateM.run_bind, EStateM.run_get, hterm]
  exact ⟨_, rfl⟩

lemma yields_releaseTerminal (s : ActionStore) (action : ℕ) :
    (releaseTerminal action).Yields s ((releaseTerminal action).outcome s).1
      ((releaseTerminal action).outcome s).2 := by
  by_cases hterm : (s.objects action).isTerminal = true
  · rw [outcome_releaseTerminal hterm]
    exact .released hterm
  · obtain ⟨message, hrun⟩ := exists_throws hterm
    exact yields_of_error hrun

/-- What an operation can do to a store in order. -/
theorem yields_outcome (h : s.Ordered) (operation : StoreOperation) :
    operation.Yields s (operation.outcome s).1 (operation.outcome s).2 := by
  cases operation with
  | enqueue action => exact yields_enqueue s action
  | enqueueFront action => exact yields_enqueueFront s action
  | selectFirst => exact yields_selectFirst h
  | remove predicate candidates => exact yields_remove h predicate candidates
  | rollback action proof =>
    exact yields_transition h (fun _ => ⟨nofun, nofun, nofun⟩) action .queued proof rfl
  | swapQueued left right => exact yields_swapQueued h left right
  | moveQueued action delivery index => exact yields_moveQueued h action delivery index
  | releaseTerminal action => exact yields_releaseTerminal s action
  | transitionSessionAction action next proof =>
    exact yields_transition h (fun _ => ⟨nofun, nofun, nofun⟩) action next proof rfl

end StoreOperation

end Amide
