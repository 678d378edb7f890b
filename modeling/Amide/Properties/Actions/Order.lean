import Amide.Framework.ListOrder
import Amide.Properties.Actions.Ownership

/-!
# The order of the actions of a store

The lanes of a store hold actions in every state of their lifecycle, and what an operation does not
place (`StoreOperation.placed`) keeps its order (`filter_list_outcome`).  An action that is selected
is placed by nothing, so when it is rolled back it is where it was.  What is enqueued at the front
meanwhile comes behind it, unless an action before it was queued again by then.
-/

namespace Amide

open ListOrder StoreOperation ActionStore List

/-! ## What is claimed -/

/-- The actions that an operation puts in a place. -/
def StoreOperation.placing : StoreOperation → List ℕ
  | enqueue action => [action]
  | enqueueFront action => [action]
  | swapQueued left right => [left, right]
  | moveQueued action _ _ => [action]
  | _ => []

/-- None, if it throws. -/
def StoreOperation.placed (operation : StoreOperation) (s : ActionStore) : List ℕ :=
  if (operation.outcome s).1 = none then operation.placing else []

/-- Both are in the lane, the first before the second. -/
def ActionStore.Before (s : ActionStore) (policy : DeliveryPolicy) (a b : ℕ) : Prop :=
  [a, b].Sublist (s.list policy)

/-- A queued action comes to stand at an index of a lane's queue, and leaves the other. -/
def MovesQueued (action : ℕ) (delivery : DeliveryPolicy) (index : ℤ) (s s' : ActionStore) : Prop :=
  let others := (s.queuedActions (some delivery)).filter (· ≠ action)
  s'.queuedActions (some delivery) =
      others.insertIdx (max 0 (min index others.length)).toNat action ∧
    ∀ policy, policy ≠ delivery →
      s'.queuedActions (some policy) = (s.queuedActions (some policy)).filter (· ≠ action)

/-- Whatever is done to the store, its actions keep their order. -/
structure StoreHistory.KeepsOrder (h : StoreHistory) : Prop where
  relative : ∀ (operation : StoreOperation) (policy : DeliveryPolicy) (a b : ℕ),
    h.store.Before policy a b →
    a ∉ operation.placed h.store → b ∉ operation.placed h.store →
    a ∈ (h.after operation).store.list policy → b ∈ (h.after operation).store.list policy →
      (h.after operation).store.Before policy a b
  placed : ∀ (operation : StoreOperation), ∀ a ∈ operation.placed h.store,
    (h.store.objects a).isQueued = true
  enqueued : ∀ a b, ((StoreOperation.enqueue b).outcome h.store).1 = none →
    a ∈ h.store.list (h.store.objects b).delivery →
      (h.after (.enqueue b)).store.Before (h.store.objects b).delivery a b
  /-- As long as nothing up to an action is queued, the front is behind it. -/
  enqueuedFront : ∀ a b, ((StoreOperation.enqueueFront b).outcome h.store).1 = none →
    a ∈ h.store.list (h.store.objects b).delivery → (h.store.objects a).isQueued = false →
    (∀ c, h.store.Before (h.store.objects b).delivery c a → (h.store.objects c).isQueued = false) →
      (h.after (.enqueueFront b)).store.Before (h.store.objects b).delivery a b
  /-- When the first of two actions is queued, after whatever has been done to others. -/
  selectedAgain : ∀ (operations : List StoreOperation) (h' : StoreHistory)
    (policy : DeliveryPolicy) (a b : ℕ), (storeMachine.guard fun h operation =>
      a ∉ operation.placed h.store ∧ b ∉ operation.placed h.store).Run h operations h' →
    h.store.Before policy a b → (h'.store.objects a).isQueued = true →
    ∀ s', ActionStore.selectFirst.run h'.store ≠ .ok (some b) s'
  first : ∃ s', ActionStore.selectFirst.run h.store =
    .ok ((h.store.queuedActions (some .nextTurnBoundary)).head?.or
      (h.store.queuedActions (some .whenRunIdle)).head?) s'
  moved : ∀ (action : ℕ) (delivery : DeliveryPolicy) (index : ℤ),
    ((StoreOperation.moveQueued action delivery index).outcome h.store).1 = none →
    MovesQueued action delivery index h.store (h.after (.moveQueued action delivery index)).store

/-! ## The lists -/

variable {action i : ℕ}

section Lists

variable {s s' : ActionStore} {operation : StoreOperation} {policy : DeliveryPolicy} {a b : ℕ}

lemma outcome_eq_of_run (h : operation.perform.run s = .ok () s' ∨
    ∃ message, operation.perform.run s = .error message s') : (operation.outcome s).2 = s' := by
  rcases h with h | ⟨message, h⟩
  · rw [outcome_of_ok h]
  · rw [outcome_of_error h]

lemma list_cancelEach (actions : List ℕ) (s : ActionStore) :
    ∃ s', ((cancelEach actions).run s = .ok () s' ∨
        ∃ message, (cancelEach actions).run s = .error message s') ∧
      (∀ policy, s'.list policy = s.list policy) ∧
      ∀ a, (s.objects a).isTerminal = true → (s'.objects a).isTerminal = true := by
  induction actions generalizing s with
  | nil => exact ⟨s, .inl rfl, fun _ => rfl, fun _ => id⟩
  | cons action actions ih =>
    obtain ⟨_, message, hrun⟩ | ⟨_, hrun⟩ := run_cancelEach_cons s action actions
    · exact ⟨s, .inr ⟨message, hrun⟩, fun _ => rfl, fun _ => id⟩
    · obtain ⟨s', hrun', hlist, hterm⟩ := ih (s.setLifecycle action .cancelled)
      rw [← hrun] at hrun'
      refine ⟨s', hrun', fun policy => (hlist policy).trans ?_, fun a ha => hterm a ?_⟩
      · exact ActionStore.list_setLifecycle _
      · by_cases hsame : a = action
        · rw [hsame]
          exact isTerminal_setLifecycle_cancelled s action
        · rwa [objects_setLifecycle_of_ne s hsame]

/-- The operations that only change what an action does: the lists stay as they are, and what is
in a terminal state stays in one. -/
structure ActionStore.SameLists (s s' : ActionStore) : Prop where
  lists : ∀ policy, s'.list policy = s.list policy
  terminal : ∀ a, (s.objects a).isTerminal = true → (s'.objects a).isTerminal = true

lemma ActionStore.SameLists.of_transition {next : ActionLifecycle} {proof : Option RollbackProof}
    (hrun : operation.perform.run s = (transitionSessionAction action next proof).run s) :
    s.SameLists (operation.outcome s).2 := by
  obtain ⟨message, hrun'⟩ | hrun' := run_transitionSessionAction s action next proof
  · rw [outcome_of_error (hrun.trans hrun')]
    exact ⟨fun _ => rfl, fun _ => id⟩
  · rw [outcome_of_ok (hrun.trans hrun')]
    refine ⟨fun _ => list_setLifecycle next, fun a ha => ?_⟩
    have hne : a ≠ action := by
      rintro rfl
      rw [isTerminal_of_run hrun'] at ha
      cases ha
    rwa [objects_setLifecycle_of_ne s hne]

/-- What is not placed keeps its place, unless it is released, and what is in a terminal state
stays in one. -/
structure ActionStore.Keeps (placed : List ℕ) (s s' : ActionStore) : Prop where
  lists : ∀ policy, (s'.list policy).filter (· ∉ placed) = (s.list policy).filter (· ∉ placed)
  terminal : ∀ a, (s.objects a).isTerminal = true → (s'.objects a).isTerminal = true

lemma ActionStore.SameLists.keeps (h : s.SameLists s') (placed : List ℕ) : s.Keeps placed s' :=
  ⟨fun policy => by rw [h.lists policy], h.terminal⟩

lemma ActionStore.Keeps.setList {actions placed : List ℕ} {s₁ : ActionStore}
    (hactions : actions.filter (· ∉ placed) = (s.list policy).filter (· ∉ placed))
    (hlists : ∀ policy', s'.list policy' = (s₁.setList actions policy).list policy')
    (hs₁ : ∀ policy', policy' ≠ policy →
      (s₁.list policy').filter (· ∉ placed) = (s.list policy').filter (· ∉ placed))
    (hobjects : ∀ a, (s'.objects a).lifecycle = (s.objects a).lifecycle) :
    s.Keeps placed s' where
  lists policy' := by
    rw [hlists]
    by_cases hpolicy : policy' = policy
    · rw [hpolicy, list_setList_self, hactions]
    · rw [list_setList_of_ne hpolicy, hs₁ policy' hpolicy]
  terminal a ha := by
    rw [SessionAction.isTerminal] at ha ⊢
    rwa [hobjects]

lemma placed_of_error {message : String} (h : operation.perform.run s = .error message s') :
    operation.placed s = [] := by
  rw [StoreOperation.placed, outcome_of_error h, if_neg nofun]

lemma placed_of_ok (h : operation.perform.run s = .ok () s') :
    operation.placed s = operation.placing := by
  rw [StoreOperation.placed, outcome_of_ok h, if_pos rfl]

lemma keeps_of_error {message : String} (h : operation.perform.run s = .error message s) :
    s.Keeps (operation.placed s) (operation.outcome s).2 := by
  rw [outcome_of_error h]
  exact ⟨fun _ => rfl, fun _ => id⟩

/-- A queued action can be selected. -/
lemma run_select (hqueued : (s.objects action).isQueued = true) :
    (transitionSessionAction action .selected none).run s =
      .ok () (s.setLifecycle action .selected) := by
  have hstate : (s.objects action).lifecycle.state = .queued := by
    simpa [SessionAction.isQueued] using hqueued
  simp only [transitionSessionAction, EStateM.run_bind, EStateM.run_get, hstate]
  rfl

lemma run_selectFirst (s : ActionStore) : ∃ s', ActionStore.selectFirst.run s =
        .ok ((s.queuedActions (some .nextTurnBoundary)).head?.or
          (s.queuedActions (some .whenRunIdle)).head?) s' ∧ s.SameLists s' := by
  have hfind (policy : DeliveryPolicy) : (s.queuedActions (some policy)).head? =
      (s.list policy).find? fun item => (s.objects item).isQueued := head?_filter
  rw [hfind, hfind]
  cases hfirst : (s.nextTurnBoundary.find? fun item => (s.objects item).isQueued).or
      (s.whenRunIdle.find? fun item => (s.objects item).isQueued) with
  | none =>
    refine ⟨s, ?_, fun _ => rfl, fun _ => id⟩
    simp only [ActionStore.selectFirst, EStateM.run_bind, EStateM.run_get, list, hfirst]
    rfl
  | some action =>
    have hqueued : (s.objects action).isQueued = true := by
      rcases Option.or_eq_some_iff.mp hfirst with h | ⟨-, h⟩
      · simpa using find?_some h
      · simpa using find?_some h
    have hsame : s.SameLists ((StoreOperation.transitionSessionAction action .selected none).outcome
        s).2 := .of_transition rfl
    have hok : (perform (.transitionSessionAction action .selected none)).run s =
        .ok () _ := run_select hqueued
    rw [outcome_of_ok hok] at hsame
    refine ⟨s.setLifecycle action .selected, ?_, hsame⟩
    simp only [ActionStore.selectFirst, EStateM.run_bind, EStateM.run_get, list, hfirst,
      run_select hqueued]
    rfl

lemma filter_swapped {l : List ℕ} {left right j : ℕ} (hi : l.idxOf? left = some i)
    (hj : l.idxOf? right = some j) :
    (((l.set i right).set j left).filter (· ∉ [left, right])) = l.filter (· ∉ [left, right]) := by
  have hat {x k : ℕ} (hk : l.idxOf? x = some k) : ∀ y, l[k]? = some y → y = x := by
    intro y hy
    obtain ⟨hlt, hget, _⟩ := idxOf?_eq_some_iff.mp hk
    rw [getElem?_eq_getElem hlt, hget] at hy
    exact (Option.some.inj hy).symm
  rw [filter_set_of_false _ (by simp), filter_set_of_false _ (by simp)]
  · intro y hy
    simp [hat hi y hy]
  · intro y hy
    rw [getElem?_set] at hy
    split_ifs at hy
    · simp [← Option.some.inj hy]
    · simp [hat hj y hy]

lemma filter_eraseIdx_idxOf {l : List ℕ} (hi : l.idxOf? action = some i) :
    (l.eraseIdx i).filter (· ∉ [action]) = l.filter (· ∉ [action]) := by
  obtain ⟨hlt, hget, _⟩ := idxOf?_eq_some_iff.mp hi
  rw [eraseIdx_eq_take_drop_succ, filter_append]
  conv_rhs => rw [← take_append_drop i l, filter_append,
    drop_eq_getElem_cons hlt, hget, filter_cons_of_neg (by simp)]

/-- Whatever the store, and in whatever state its lists are. -/
lemma keeps_outcome (hop : ∀ a, operation ≠ .releaseTerminal a) :
    s.Keeps (operation.placed s) (operation.outcome s).2 := by
  cases operation with
  | enqueue action =>
    obtain ⟨message, hrun⟩ | ⟨-, -, hrun⟩ := run_enqueue s action
    · exact keeps_of_error hrun
    · have hok : (perform (.enqueue action)).run s = .ok () _ := hrun
      rw [placed_of_ok hok, outcome_of_ok hok, placing]
      refine .setList ?_ (fun _ => rfl) (fun _ _ => rfl) fun a => ?_
      · simp
      · show (((s.setList _ _).objects a).lifecycle) = _
        rw [objects_setList]
  | enqueueFront action =>
    obtain ⟨message, hrun⟩ | ⟨-, -, hrun⟩ := run_enqueueFront s action
    · exact keeps_of_error hrun
    · have hok : (perform (.enqueueFront action)).run s = .ok () _ := hrun
      rw [placed_of_ok hok, outcome_of_ok hok, placing]
      refine .setList ?_ (fun _ => rfl) (fun _ _ => rfl) fun a => ?_
      · exact filter_insertIdx_of_false (by simp) _ _
      · show (((s.setList _ _).objects a).lifecycle) = _
        rw [objects_setList]
  | selectFirst =>
    obtain ⟨s', hrun, hsame⟩ := run_selectFirst s
    have hok : StoreOperation.selectFirst.outcome s = (none, s') := by
      refine outcome_of_ok ?_
      rw [perform, run_discard, hrun]
    rw [hok]
    exact hsame.keeps _
  | remove predicate candidates =>
    obtain ⟨s', hrun, hlist, hterm⟩ := list_cancelEach
      ((candidates.getD (s.clearableActions none)).filter predicate) s
    rw [cancelEach, ← run_remove] at hrun
    rw [outcome_eq_of_run hrun]
    exact SameLists.keeps ⟨hlist, hterm⟩ _
  | rollback action proof | transitionSessionAction action next proof =>
    exact (SameLists.of_transition rfl).keeps _
  | swapQueued left right =>
    obtain ⟨message, hrun⟩ | ⟨-, -, leftIndex, rightIndex, policy, hleft, hright, hrun⟩ :=
      run_swapQueued s left right
    · exact keeps_of_error hrun
    · have hok : (perform (.swapQueued left right)).run s = .ok () _ := hrun
      rw [placed_of_ok hok, outcome_of_ok hok, placing]
      refine .setList (filter_swapped hleft hright) (fun _ => rfl) (fun _ _ => rfl) fun a => ?_
      rw [objects_setList]
  | moveQueued action delivery index =>
    obtain ⟨message, hrun⟩ | ⟨-, sourceIndex, hsource, hrun⟩ :=
      run_moveQueued s action delivery index
    · exact keeps_of_error hrun
    · have hok : (perform (.moveQueued action delivery index)).run s = .ok () _ := hrun
      rw [placed_of_ok hok, outcome_of_ok hok, placing]
      have htaken (policy : DeliveryPolicy) :
          ((s.setList ((s.list (s.objects action).delivery).eraseIdx sourceIndex)
            (s.objects action).delivery).list policy).filter (· ∉ [action]) =
          (s.list policy).filter (· ∉ [action]) := by
        by_cases hpolicy : policy = (s.objects action).delivery
        · rw [hpolicy, ActionStore.list_setList_self, filter_eraseIdx_idxOf hsource]
        · rw [ActionStore.list_setList_of_ne hpolicy]
      refine .setList ?_ (fun _ => rfl) (fun policy _ => ?_) fun a => ?_
      · rw [filter_insertIdx_of_false (by simp), list_setDelivery, htaken]
      · rw [list_setDelivery, htaken]
      · rw [objects_setList, objects_setDelivery, objects_setList]
        split_ifs with hsame
        · rw [hsame]
        · rfl
  | releaseTerminal action => exact absurd rfl (hop action)

lemma outcome_releaseTerminal_cases (s : ActionStore) (action : ℕ) :
    (∃ message, (StoreOperation.releaseTerminal action).outcome s = (some message, s)) ∨
      (s.objects action).isTerminal = true ∧ (StoreOperation.releaseTerminal action).outcome s =
        (none, (s.setList ((s.list (s.objects action).delivery).erase action)
          (s.objects action).delivery).deleteTicket action) := by
  by_cases hterm : (s.objects action).isTerminal = true
  · exact .inr ⟨hterm, outcome_releaseTerminal hterm⟩
  · obtain ⟨message, hrun⟩ := exists_throws hterm
    exact .inl ⟨message, outcome_of_error hrun⟩

lemma filter_list_outcome (s : ActionStore) (operation : StoreOperation) (policy : DeliveryPolicy) :
    (((operation.outcome s).2.list policy).filter (· ∉ operation.placed s)).Sublist
      ((s.list policy).filter (· ∉ operation.placed s)) := by
  by_cases hreleases : ∃ action, operation = .releaseTerminal action
  · obtain ⟨action, rfl⟩ := hreleases
    refine List.Sublist.filter _ ?_
    obtain ⟨message, houtcome⟩ | ⟨-, houtcome⟩ := outcome_releaseTerminal_cases s action
    · rw [houtcome]
    · rw [houtcome]
      show ((s.setList _ _).list policy).Sublist _
      by_cases hpolicy : policy = (s.objects action).delivery
      · rw [hpolicy, ActionStore.list_setList_self]
        exact erase_sublist
      · rw [ActionStore.list_setList_of_ne hpolicy]
  · rw [(keeps_outcome fun action hsame => hreleases ⟨action, hsame⟩).lists policy]

/-- An action stays in its lane, or it is in a terminal state and remains so. -/
lemma stays_outcome (h : a ∈ s.list policy ∨ (s.objects a).isTerminal = true)
    (hplaced : a ∉ operation.placed s) :
    a ∈ (operation.outcome s).2.list policy ∨
      ((operation.outcome s).2.objects a).isTerminal = true := by
  by_cases hreleases : ∃ action, operation = .releaseTerminal action
  · obtain ⟨action, rfl⟩ := hreleases
    obtain ⟨message, houtcome⟩ | ⟨hterm, houtcome⟩ := outcome_releaseTerminal_cases s action
    · rwa [houtcome]
    · rw [houtcome]
      show a ∈ (s.setList _ _).list policy ∨ ((s.setList _ _).objects a).isTerminal = true
      rw [objects_setList]
      by_cases hsame : a = action
      · exact .inr (hsame ▸ hterm)
      · refine h.imp_left fun hmem => ?_
        by_cases hpolicy : policy = (s.objects action).delivery
        · rw [hpolicy] at hmem
          rw [hpolicy, ActionStore.list_setList_self]
          exact (mem_erase_of_ne hsame).mpr hmem
        · rwa [ActionStore.list_setList_of_ne hpolicy]
  · have hkeeps : s.Keeps (operation.placed s) (operation.outcome s).2 :=
      keeps_outcome fun action hsame => hreleases ⟨action, hsame⟩
    refine h.imp (fun hmem => ?_) (hkeeps.terminal a)
    have hfilter : a ∈ (s.list policy).filter (· ∉ operation.placed s) :=
      mem_filter.mpr ⟨hmem, decide_eq_true hplaced⟩
    rw [← hkeeps.lists policy] at hfilter
    exact mem_of_mem_filter hfilter

lemma mem_of_mem_outcome (ha : a ∈ (operation.outcome s).2.list policy)
    (hplaced : a ∉ operation.placed s) : a ∈ s.list policy :=
  mem_of_mem_filter ((filter_list_outcome s operation policy).subset
    (mem_filter.mpr ⟨ha, decide_eq_true hplaced⟩))

/-- What has not come before an action does not come before it. -/
lemma before_of_before_outcome (h : (operation.outcome s).2.Before policy a b)
    (ha : a ∉ operation.placed s) (hb : b ∉ operation.placed s) : s.Before policy a b := by
  have hfilter := List.Sublist.filter (fun x => decide (x ∉ operation.placed s)) h
  have hpair : [a, b].filter (fun x => decide (x ∉ operation.placed s)) = [a, b] := by
    simp [ha, hb]
  rw [hpair] at hfilter
  exact (hfilter.trans (filter_list_outcome s operation policy)).trans filter_sublist

end Lists

/-! ## The parts of the claim -/

namespace StoreHistory

variable {h : StoreHistory} {operation : StoreOperation} {policy : DeliveryPolicy} {a b : ℕ}

lemma store_after (h : StoreHistory) (operation : StoreOperation) :
    (h.after operation).store = (operation.outcome h.store).2 := by
  rw [after]
  split <;> rename_i houtcome <;> rw [houtcome]

lemma Held.nodup_list (hheld : h.Held) (policy : DeliveryPolicy) : (h.store.list policy).Nodup := by
  obtain ⟨others, howned, _⟩ := h.store.ownedActions_perm policy
  exact (nodup_append.mp (howned.nodup_iff.mp hheld.ordered.nodup)).1

lemma relative_order (hheld : h.Held) (hbefore : h.store.Before policy a b)
    (ha : a ∉ operation.placed h.store) (hb : b ∉ operation.placed h.store)
    (ha' : a ∈ (h.after operation).store.list policy)
    (hb' : b ∈ (h.after operation).store.list policy) :
    (h.after operation).store.Before policy a b := by
  have hnot := not_pair_sublist (hheld.nodup_list policy) hbefore
  have hne : a ≠ b := by
    rintro rfl
    exact hnot hbefore
  refine pair_sublist_of_not hne ha' hb' fun hbehind => hnot ?_
  rw [store_after] at hbehind
  exact before_of_before_outcome hbehind hb ha

variable {s : ActionStore}

lemma isQueued_of_placed (ha : a ∈ operation.placed s) : (s.objects a).isQueued = true := by
  have hnone {message : String} {s' : ActionStore}
      (hrun : operation.perform.run s = .error message s') : (s.objects a).isQueued = true := by
    rw [placed_of_error hrun] at ha
    cases ha
  have hsome {s' : ActionStore} (hrun : operation.perform.run s = .ok () s')
      (hqueued : ∀ a ∈ operation.placing, (s.objects a).isQueued = true) :
      (s.objects a).isQueued = true := by
    rw [placed_of_ok hrun] at ha
    exact hqueued a ha
  cases operation with
  | enqueue action =>
    obtain ⟨message, hrun⟩ | ⟨hqueued, -, hrun⟩ := run_enqueue s action
    · exact hnone hrun
    · exact hsome hrun (by simpa [placing] using hqueued)
  | enqueueFront action =>
    obtain ⟨message, hrun⟩ | ⟨hqueued, -, hrun⟩ := run_enqueueFront s action
    · exact hnone hrun
    · exact hsome hrun (by simpa [placing] using hqueued)
  | swapQueued left right =>
    obtain ⟨message, hrun⟩ | ⟨hleft, hright, _, _, _, _, _, hrun⟩ :=
      run_swapQueued s left right
    · exact hnone hrun
    · exact hsome hrun (by simpa [placing] using ⟨hleft, hright⟩)
  | moveQueued action delivery index =>
    obtain ⟨message, hrun⟩ | ⟨hqueued, _, _, hrun⟩ :=
      run_moveQueued s action delivery index
    · exact hnone hrun
    · exact hsome hrun (by simpa [placing] using hqueued)
  | _ =>
    rw [StoreOperation.placed] at ha
    split_ifs at ha <;> cases ha

lemma enqueued_order (hok : ((StoreOperation.enqueue b).outcome h.store).1 = none)
    (ha : a ∈ h.store.list (h.store.objects b).delivery) :
    (h.after (.enqueue b)).store.Before (h.store.objects b).delivery a b := by
  obtain ⟨message, hrun⟩ | ⟨-, -, hrun⟩ := run_enqueue h.store b
  · have herror : (perform (.enqueue b)).run h.store = .error message _ := hrun
    rw [outcome_of_error herror] at hok
    cases hok
  · have hrun' : (perform (.enqueue b)).run h.store = .ok () _ := hrun
    rw [store_after, outcome_of_ok hrun']
    show [a, b].Sublist ((h.store.setList _ _).list _)
    rw [ActionStore.list_setList_self]
    exact (singleton_sublist.mpr ha).append (List.Sublist.refl [b])

lemma enqueuedFront_order (hok : ((StoreOperation.enqueueFront b).outcome h.store).1 = none)
    (ha : a ∈ h.store.list (h.store.objects b).delivery)
    (hqueued : (h.store.objects a).isQueued = false)
    (hbefore : ∀ c, h.store.Before (h.store.objects b).delivery c a →
      (h.store.objects c).isQueued = false) :
    (h.after (.enqueueFront b)).store.Before (h.store.objects b).delivery a b := by
  obtain ⟨message, hrun⟩ | ⟨-, -, hrun⟩ := run_enqueueFront h.store b
  · have herror : (perform (.enqueueFront b)).run h.store = .error message _ := hrun
    rw [outcome_of_error herror] at hok
    cases hok
  · have hrun' : (perform (.enqueueFront b)).run h.store = .ok () _ := hrun
    rw [store_after, outcome_of_ok hrun']
    show [a, b].Sublist ((h.store.setList _ _).list _)
    rw [ActionStore.list_setList_self]
    obtain ⟨before, after, hlist⟩ := append_of_mem ha
    rw [hlist]
    refine pair_sublist_insertIdx_findIdx (fun c hc => hbefore c ?_) hqueued
    rw [Before, hlist]
    exact (singleton_sublist.mpr hc).append
      (singleton_sublist.mpr mem_cons_self)

/-! ### Selecting again -/

/-- `b` does not stand before `a` in the lane nor stand elsewhere, and `a` stands in it, unless it
is in a terminal state. -/
structure Ahead (policy : DeliveryPolicy) (a b : ℕ) (s : ActionStore) : Prop where
  order : ¬ s.Before policy b a
  lane : ∀ policy', policy' ≠ policy → b ∉ s.list policy'
  stays : a ∈ s.list policy ∨ (s.objects a).isTerminal = true

lemma Ahead.outcome (hs : Ahead policy a b s) (ha : a ∉ operation.placed s)
    (hb : b ∉ operation.placed s) : Ahead policy a b (operation.outcome s).2 where
  order hbefore := hs.order (before_of_before_outcome hbefore hb ha)
  lane policy' hpolicy hmem := hs.lane policy' hpolicy (mem_of_mem_outcome hmem hb)
  stays := stays_outcome hs.stays ha

lemma Held.ahead (hheld : h.Held) (hbefore : h.store.Before policy a b) :
    Ahead policy a b h.store where
  order := not_pair_sublist (hheld.nodup_list policy) hbefore
  lane policy' hpolicy hmem := by
    have hb : b ∈ h.store.list policy :=
      hbefore.subset (mem_cons_of_mem a (mem_singleton_self b))
    exact hpolicy ((hheld.ordered.delivered policy' b hmem).symm.trans
      (hheld.ordered.delivered policy b hb))
  stays := .inl (hbefore.subset mem_cons_self)

/-- As long as `a` is queued, it is not `b` that is selected. -/
lemma Ahead.not_selected {s' : ActionStore} (hs : Ahead policy a b s) (hne : a ≠ b)
    (hqueued : (s.objects a).isQueued = true) :
    ActionStore.selectFirst.run s ≠ .ok (some b) s' := by
  intro hrun
  obtain ⟨s'', hrun', -⟩ := run_selectFirst s
  rw [hrun'] at hrun
  have hhead : ∃ policy', (s.queuedActions (some policy')).head? = some b := by
    have hfirst := (EStateM.Result.ok.inj hrun).1
    rcases Option.or_eq_some_iff.mp hfirst with h | ⟨-, h⟩
    · exact ⟨_, h⟩
    · exact ⟨_, h⟩
  obtain ⟨policy', hhead⟩ := hhead
  have hmem : b ∈ s.queuedActions (some policy') := mem_of_head? hhead
  obtain rfl : policy' = policy := by
    by_contra hpolicy
    exact hs.lane policy' hpolicy (mem_of_mem_filter hmem)
  have hlane : a ∈ s.list policy' := by
    refine hs.stays.resolve_right fun hterm => ?_
    rw [SessionAction.isQueued, beq_iff_eq] at hqueued
    rw [SessionAction.isTerminal, hqueued] at hterm
    cases hterm
  have ha : a ∈ s.queuedActions (some policy') := mem_filter.mpr ⟨hlane, hqueued⟩
  obtain ⟨rest, hrest⟩ := head?_eq_some_iff.mp hhead
  rw [hrest] at ha
  have harest : a ∈ rest := (mem_cons.mp ha).resolve_left hne
  have hbefore : [b, a].Sublist (s.queuedActions (some policy')) := by
    rw [hrest]
    exact (singleton_sublist.mpr harest).cons_cons b
  exact hs.order (hbefore.trans filter_sublist)

variable {operations : List StoreOperation}

lemma selected_again (hheld : h.Held) {h' : StoreHistory}
    (hrun : (storeMachine.guard fun h operation =>
      a ∉ operation.placed h.store ∧ b ∉ operation.placed h.store).Run h operations h')
    (hbefore : h.store.Before policy a b) (hqueued : (h'.store.objects a).isQueued = true)
    (s' : ActionStore) : ActionStore.selectFirst.run h'.store ≠ .ok (some b) s' := by
  have hahead : Ahead policy a b h'.store := by
    refine hrun.invariant (I := fun h => Ahead policy a b h.store) (hheld.ahead hbefore) ?_
    rintro h₁ operation _ hh₁ ⟨rfl, ha, hb⟩
    rw [store_after]
    exact hh₁.outcome ha hb
  have hne : a ≠ b := by
    rintro rfl
    exact not_pair_sublist (hheld.nodup_list policy) hbefore hbefore
  exact hahead.not_selected hne hqueued

/-! ### Moving -/

/-- The lists that are left when an action is taken from its own. -/
lemma Held.list_taken (hheld : h.Held)
    (hi : (h.store.list (h.store.objects action).delivery).idxOf? action = some i)
    (policy : DeliveryPolicy) :
    (h.store.setList ((h.store.list (h.store.objects action).delivery).eraseIdx i)
      (h.store.objects action).delivery).list policy =
        (h.store.list policy).filter (· ≠ action) := by
  by_cases hpolicy : policy = (h.store.objects action).delivery
  · have herase : (h.store.list (h.store.objects action).delivery).eraseIdx i =
        (h.store.list (h.store.objects action).delivery).erase action := by
      rw [erase_eq_eraseIdx, hi]
    rw [hpolicy, ActionStore.list_setList_self, herase, (hheld.nodup_list _).erase_eq_filter]
    exact filter_congr fun x _ => by by_cases hx : x = action <;> simp [hx]
  · rw [ActionStore.list_setList_of_ne hpolicy, eq_comm, filter_eq_self]
    intro other hother
    refine decide_eq_true ?_
    rintro rfl
    exact hpolicy (hheld.ordered.delivered policy other hother).symm

lemma moved_order (hheld : h.Held) {delivery : DeliveryPolicy} {index : ℤ}
    (hok : ((StoreOperation.moveQueued action delivery index).outcome h.store).1 = none) :
    MovesQueued action delivery index h.store
      (h.after (.moveQueued action delivery index)).store := by
  obtain ⟨message, hrun⟩ | ⟨hqueued, sourceIndex, hsource, hrun⟩ :=
    run_moveQueued h.store action delivery index
  · have herror : (perform (.moveQueued action delivery index)).run h.store =
        .error message _ := hrun
    rw [outcome_of_error herror] at hok
    cases hok
  · have hrun' : (perform (.moveQueued action delivery index)).run h.store =
        .ok () _ := hrun
    have hs' : (h.after (.moveQueued action delivery index)).store = _ :=
      (store_after h _).trans (by rw [outcome_of_ok hrun'])
    set taken := h.store.setList ((h.store.list (h.store.objects action).delivery).eraseIdx
      sourceIndex) (h.store.objects action).delivery with htaken
    set without := taken.setDelivery action delivery with hwithout
    have hlists (policy : DeliveryPolicy) :
        without.list policy = (h.store.list policy).filter (· ≠ action) := by
      exact hheld.list_taken hsource policy
    have hqueues (x : ℕ) : (without.objects x).isQueued = (h.store.objects x).isQueued := by
      rw [hwithout, objects_setDelivery, htaken, objects_setList]
      split_ifs with hsame
      · rw [hsame]
        rfl
      · rfl
    have hothers (policy : DeliveryPolicy) : without.queuedActions (some policy) =
        (h.store.queuedActions (some policy)).filter (· ≠ action) := by
      show (without.list policy).filter _ = ((h.store.list policy).filter _).filter _
      rw [hlists, filter_filter, filter_filter]
      exact filter_congr fun x _ => by rw [hqueues, Bool.and_comm]
    rw [hs']
    refine ⟨?_, fun policy hpolicy => ?_⟩
    · have hnodup : (without.list delivery).Nodup := by
        rw [hlists]
        exact (hheld.nodup_list delivery).filter _
      have hmine : (without.objects action).isQueued = true := (hqueues action).trans hqueued
      show ((without.setList _ delivery).list delivery).filter
        (fun x => ((without.setList _ delivery).objects x).isQueued) = _
      rw [ActionStore.list_setList_self, objects_setList, ← hothers delivery, moveTarget]
      cases hat : (without.queuedActions (some delivery))[(max 0 (min index
          (without.queuedActions (some delivery)).length)).toNat]? with
      | some before => exact filter_insertIdx_idxOf hnodup hat hmine
      | none =>
        have hlast : (max 0 (min index (without.queuedActions (some delivery)).length)).toNat =
            (without.queuedActions (some delivery)).length := by
          have hle := List.getElem?_eq_none_iff.mp hat
          omega
        have hsingle : [action].filter (fun x => (without.objects x).isQueued) = [action] := by
          rw [filter_singleton, hmine]
          rfl
        rw [hlast, insertIdx_length_self, insertIdx_length_self, filter_append, hsingle]
        rfl
    · show ((without.setList _ delivery).list policy).filter
        (fun x => ((without.setList _ delivery).objects x).isQueued) = _
      rw [ActionStore.list_setList_of_ne hpolicy, objects_setList]
      exact hothers policy

/-! ## The result -/

lemma ids_outcome (hheld : h.Held) (operation : StoreOperation) (a : ℕ) :
    ((operation.outcome h.store).2.objects a).id = (h.store.objects a).id := by
  have hyields := yields_outcome hheld.ordered operation
  generalize operation.outcome h.store = outcome at hyields
  obtain ⟨error, s'⟩ := outcome
  cases hyields with
  | threw => rfl
  | entered | released =>
    show ((h.store.setList _ _).objects a).id = _
    rw [objects_setList]
  | rearranged _ hs' | cancelled hs' => exact hs'.ids a

/-- With distinct ids, a ticket for the id of a released action is its own. -/
lemma held_of_run {objects : ℕ → SessionAction}
    (hids : Function.Injective fun action => (objects action).id)
    (hrun : storeMachine.Run (.empty objects) operations h) : h.Held := by
  suffices hboth : h.Held ∧ ∀ a, (h.store.objects a).id = (objects a).id from hboth.1
  refine hrun.invariant (I := fun h => h.Held ∧ ∀ a, (h.store.objects a).id = (objects a).id)
    ⟨held_empty objects, fun _ => rfl⟩ ?_
  rintro h₁ operation _ ⟨hheld, hsame⟩ rfl
  refine ⟨hheld.after_of_released ?_, fun a => ?_⟩
  · rintro action - -
    by_cases hhas : h₁.store.tickets.has (h₁.store.objects action).id = true
    · obtain ⟨owned, howned, hid⟩ := (hheld.ticketed _).mp hhas
      have heq : owned = action := hids (by
        show (objects owned).id = (objects action).id
        rw [← hsame, ← hsame, hid])
      obtain ⟨policy, hpolicy⟩ := mem_ownedActions_iff.mp (heq ▸ howned)
      exact .inl ((hheld.ordered.delivered policy action hpolicy) ▸ hpolicy)
    · exact .inr (Bool.eq_false_iff.mpr hhas)
  · rw [store_after, ids_outcome hheld, hsame]

end StoreHistory

/-- **The actions keep their order**, in every store that operations on actions with distinct ids
come to. -/
theorem actions_keep_order {objects : ℕ → SessionAction}
    (hids : Function.Injective fun action => (objects action).id)
    {operations : List StoreOperation} {h : StoreHistory}
    (hrun : storeMachine.Run (.empty objects) operations h) : h.KeepsOrder := by
  have hheld := StoreHistory.held_of_run hids hrun
  refine ⟨fun operation policy a b => StoreHistory.relative_order hheld,
    fun operation a => StoreHistory.isQueued_of_placed,
    fun a b => StoreHistory.enqueued_order, fun a b => StoreHistory.enqueuedFront_order,
    fun operations h' policy a b => StoreHistory.selected_again hheld, ?_,
    fun action delivery index => StoreHistory.moved_order hheld⟩
  obtain ⟨s', hfirst, -⟩ := run_selectFirst h.store
  exact ⟨s', hfirst⟩

/-! ## Two stores -/

/-- Commands, each with an id of another length. -/
def numberedActions (n : ℕ) : SessionAction :=
  ⟨String.ofList (List.replicate n 'x'), .nextTurnBoundary, .sessionCommand "/name", .queued⟩

lemma numberedActions_injective : Function.Injective fun action => (numberedActions action).id := by
  intro m n h
  have hlists := congrArg String.toList h
  simp only [numberedActions, String.toList_ofList] at hlists
  simpa using congrArg List.length hlists

def earlierOperations : List StoreOperation := [.enqueue 0, .enqueue 1, .selectFirst]

/-- A store after operations on them. -/
def numberedHistory (operations : List StoreOperation) : StoreHistory :=
  operations.foldl StoreHistory.after (.empty numberedActions)

lemma run_numberedHistory (operations : List StoreOperation) :
    storeMachine.Run (.empty numberedActions) operations (numberedHistory operations) :=
  Machine.Run.of_foldl (fun _ _ => rfl) _ operations

/-- One action selected, and another behind it. -/
theorem actions_keep_order_two : (numberedHistory earlierOperations).KeepsOrder :=
  actions_keep_order numberedActions_injective (run_numberedHistory earlierOperations)

/-- The first of two selected actions is queued again when a third is enqueued at the front, which
then comes before the second as well. -/
theorem not_selected_again_two : ¬ ∀ (objects : ℕ → SessionAction)
    (earlier between : List StoreOperation) (h₁ h₂ : StoreHistory) (a b : ℕ) (s s' : ActionStore),
      (Function.Injective fun action => (objects action).id) →
      storeMachine.Run (.empty objects) earlier h₁ →
      ActionStore.selectFirst.run h₁.store = .ok (some a) s →
      storeMachine.Run (h₁.after .selectFirst) between h₂ →
      .enqueueFront b ∈ between →
      (∀ operation ∈ between, (∀ left right, operation ≠ .swapQueued left right) ∧
        ∀ action delivery index, operation ≠ .moveQueued action delivery index) →
      (h₂.store.objects a).isQueued = false →
      ActionStore.selectFirst.run (h₂.after (.rollback a none)).store ≠ .ok (some b) s' := by
  intro hall
  let between : List StoreOperation := [.rollback 0 none, .enqueueFront 2]
  have hbetween : storeMachine.Run ((numberedHistory earlierOperations).after .selectFirst) between
      (numberedHistory (earlierOperations ++ .selectFirst :: between)) := by
    have hsplit : numberedHistory (earlierOperations ++ .selectFirst :: between) = between.foldl
        StoreHistory.after ((numberedHistory earlierOperations).after .selectFirst) :=
      foldl_append
    exact Machine.Run.of_foldl (fun _ _ => rfl) _ between
  obtain ⟨s, hfirst, -⟩ := run_selectFirst (numberedHistory earlierOperations).store
  obtain ⟨s', hlast, -⟩ := run_selectFirst
    ((numberedHistory (earlierOperations ++ .selectFirst :: between)).after
      (.rollback 1 none)).store
  have hone : (((numberedHistory earlierOperations).store.queuedActions
      (some .nextTurnBoundary)).head?.or ((numberedHistory earlierOperations).store.queuedActions
        (some .whenRunIdle)).head?) = some 1 := by decide +kernel
  have htwo : ((((numberedHistory (earlierOperations ++ .selectFirst :: between)).after
      (.rollback 1 none)).store.queuedActions (some .nextTurnBoundary)).head?.or
        (((numberedHistory (earlierOperations ++ .selectFirst :: between)).after
          (.rollback 1 none)).store.queuedActions (some .whenRunIdle)).head?) = some 2 := by
    decide +kernel
  rw [htwo] at hlast
  refine hall numberedActions earlierOperations between _ _ 1 2 s s' numberedActions_injective
    (run_numberedHistory earlierOperations) hfirst hbetween
    (mem_cons_of_mem _ mem_cons_self) ?_ (by decide +kernel) hlast
  intro operation hoperation
  simp only [between, mem_cons, not_mem_nil, or_false] at hoperation
  rcases hoperation with rfl | rfl
  · simp
  · simp

end Amide
