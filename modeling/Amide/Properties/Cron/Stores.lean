import Amide.Properties.Cron.Operations

/-!
# The store through a run

A merge makes no job up (`mem_writeJobs`), and under the locks a job keeps its id and its
schedule and is not opened again (`LockedOp.apply_spec`).  So the schedule of every job in a store
is one that was accepted when it was given (`accepted_of_run`).
-/

namespace Amide

open CronSystem List

/-! ## Merging -/

section Merge

variable {jobs currentJobs nextJobs : List AgentCronJob} {merged : JsMap String AgentCronJob}
  {job : AgentCronJob} {k : String}

lemma mergeJob_eq_or (merged : JsMap String AgentCronJob) (job : AgentCronJob) :
    mergeJob merged job = merged.set job.id job ∨ mergeJob merged job = merged := by
  rw [mergeJob]
  split
  · exact .inl rfl
  · split_ifs
    · exact .inl rfl
    · exact .inr rfl

lemma get?_foldl_mergeJob (h : (nextJobs.foldl mergeJob merged).get? k = some job) :
    merged.get? k = some job ∨ (job ∈ nextJobs ∧ job.id = k) := by
  induction nextJobs generalizing merged with
  | nil => exact .inl h
  | cons next nextJobs ih =>
    rcases ih h with hmerged | ⟨hmem, hid⟩
    · rcases mergeJob_eq_or merged next with heq | heq
      · rw [heq, JsMap.get?_set] at hmerged
        split_ifs at hmerged with hk
        · cases hmerged
          exact .inr ⟨mem_cons_self, hk⟩
        · exact .inl hmerged
      · exact .inl (heq ▸ hmerged)
    · exact .inr ⟨mem_cons_of_mem _ hmem, hid⟩

lemma get?_mergeFreshJobs
    (h : (nextJobs.foldl mergeJob (JsMap.index AgentCronJob.id currentJobs)).get? k = some job) :
    (job ∈ currentJobs ∨ job ∈ nextJobs) ∧ job.id = k := by
  rcases get?_foldl_mergeJob h with hcur | ⟨hnext, hid⟩
  · obtain ⟨hmem, hid⟩ := JsMap.mem_of_get?_index _ hcur
    exact ⟨.inl hmem, hid⟩
  · exact ⟨.inr hnext, hid⟩

lemma mem_mergeFreshJobs (h : job ∈ mergeFreshJobs currentJobs nextJobs) :
    job ∈ currentJobs ∨ job ∈ nextJobs := by
  obtain ⟨k, hk⟩ := JsMap.mem_values_iff.mp h
  exact (get?_mergeFreshJobs hk).1

namespace CronStore

variable {store store' : CronStore}

lemma mem_mergedLane {sessionId : String} {current : CronJobsState}
    (h : job ∈ mergedLane jobs sessionId current) : job ∈ current.jobs ∨ job ∈ jobs :=
  (mem_mergeFreshJobs h).imp mem_of_mem_filter mem_of_mem_filter

lemma mem_readJobs : job ∈ store.readJobs ↔ ∃ state ∈ store.states, job ∈ state.jobs :=
  mem_flatMap

lemma states_mapLanes {f : String → CronJobsState → CronJobsState}
    {lanes : JsMap String CronJobsState} :
    (mapLanes f lanes).values = lanes.entries.map fun lane => f lane.1 lane.2 := by
  rw [JsMap.values, mapLanes, map_map]
  rfl

/-- **A merge makes no job up.** -/
lemma mem_writeJobs (h : store.writeJobs jobs = .ok store') (hjob : job ∈ store'.readJobs) :
    job ∈ store.readJobs ∨ job ∈ jobs := by
  cases store with
  | file state =>
    cases h
    obtain ⟨_, hstate, hjob⟩ := mem_readJobs.mp hjob
    obtain rfl := mem_singleton.mp hstate
    exact (mem_mergeFreshJobs hjob).imp_left fun hcur =>
      mem_readJobs.mpr ⟨state, mem_singleton_self _, hcur⟩
  | artifacts lanes =>
    rw [writeJobs] at h
    split at h
    · cases h
    · cases h
      obtain ⟨_, hstate, hjob⟩ := mem_readJobs.mp hjob
      rw [states, states_mapLanes, mem_map] at hstate
      obtain ⟨lane, hlane, rfl⟩ := hstate
      exact (mem_mergedLane hjob).imp_left fun hcur =>
        mem_readJobs.mpr ⟨lane.2, mem_map_of_mem hlane, hcur⟩

end CronStore

end Merge

/-! ## Under the locks -/

/-- A job and what becomes of it under the locks. -/
structure LockedStep (job job' : AgentCronJob) : Prop where
  id : job'.id = job.id
  schedule : job'.schedule = job.schedule
  isOpen : job'.isOpen = true → job.isOpen = true

def StateStep (state state' : CronJobsState) : Prop :=
  List.Forall₂ LockedStep state.jobs state'.jobs

variable {job job' : AgentCronJob}

namespace LockedStep

protected lemma refl (job : AgentCronJob) : LockedStep job job := ⟨rfl, rfl, fun h => h⟩

lemma of_status (hid : job'.id = job.id) (hsched : job'.schedule = job.schedule)
    (hstatus : job'.status = job.status) : LockedStep job job' :=
  ⟨hid, hsched, fun h => by rwa [AgentCronJob.isOpen, hstatus] at h⟩

/-- A job that comes to its end, if it only runs once. -/
lemma of_finish (hid : job'.id = job.id) (hsched : job'.schedule = job.schedule)
    (hstatus : job'.status = if job.schedule.kind = .once then .completed else job.status) :
    LockedStep job job' := by
  refine ⟨hid, hsched, fun h => ?_⟩
  split_ifs at hstatus
  · rw [AgentCronJob.isOpen, hstatus] at h
    cases h
  · rwa [AgentCronJob.isOpen, hstatus] at h

end LockedStep

lemma StateStep.refl (state : CronJobsState) : StateStep state state :=
  forall₂_same.mpr fun job _ => .refl job

variable {store : CronStore}

section Locked

variable {env : CronEnv} {dueAt claimedAt : ℤ} {state state' : CronJobsState}
  {states : List CronJobsState}

lemma advanceJob_step {zone : TimeZone} (h : advanceJob claimedAt zone job = .ok job') :
    LockedStep job job' := by
  obtain ⟨next, -, hjob⟩ := Except.of_bind h
  cases next with
  | none =>
    cases hjob
    exact .of_status rfl rfl rfl
  | some date =>
    obtain ⟨nextRunAt, -, hjob⟩ := Except.of_bind hjob
    cases hjob
    exact .of_status rfl rfl rfl

/-- A due job is advanced, and dispatched or marked as skipped; another one stays as it is. -/
def ClaimedAs (env : CronEnv) (dueAt claimedAt : ℤ) (dispatches : List AgentCronDispatch)
    (job job' : AgentCronJob) : Prop :=
  if job.isDueJob dueAt = true then
    ∃ advanced, advanceJob claimedAt env.zone job = .ok advanced ∧
      ((job' = advanced ∧ ∃ d ∈ dispatches, d.job = advanced) ∨
        job' = { advanced with lastSkippedAt := some claimedAt })
  else job' = job

variable {dispatches : List AgentCronDispatch}

lemma ClaimedAs.mono {dispatches' : List AgentCronDispatch} (hsub : dispatches ⊆ dispatches')
    (h : ClaimedAs env dueAt claimedAt dispatches job job') :
    ClaimedAs env dueAt claimedAt dispatches' job job' := by
  rw [ClaimedAs] at h ⊢
  split_ifs at h ⊢
  · obtain ⟨advanced, hadv, hcases⟩ := h
    refine ⟨advanced, hadv, hcases.imp_left ?_⟩
    rintro ⟨hjob, d, hd, hdjob⟩
    exact ⟨hjob, d, hsub hd, hdjob⟩
  · exact h

variable {n : ℕ}

lemma claimJobs_spec {claimedJobIds : List String} {jobs : List AgentCronJob}
    {result : List AgentCronJob × List (AgentCronDispatchRecord × AgentCronDispatch)}
    (h : claimJobs env dueAt claimedAt claimedJobIds n jobs = .ok result) :
    List.Forall₂ (ClaimedAs env dueAt claimedAt (result.2.map Prod.snd)) jobs result.1 := by
  induction jobs generalizing n result with
  | nil =>
    cases h
    exact .nil
  | cons job jobs ih =>
    rw [claimJobs] at h
    split at h
    next hdue =>
      obtain ⟨advanced, hadv, h⟩ := Except.of_bind h
      split at h
      · obtain ⟨⟨rest, dispatches⟩, hrest, h⟩ := Except.of_bind h
        cases h
        refine .cons ?_ (ih hrest)
        rw [ClaimedAs, if_pos hdue]
        exact ⟨advanced, hadv, .inr rfl⟩
      · obtain ⟨⟨rest, dispatches⟩, hrest, h⟩ := Except.of_bind h
        cases h
        refine .cons ?_ ((ih hrest).imp fun _ _ => ClaimedAs.mono (subset_cons_self _ _))
        rw [ClaimedAs, if_pos hdue]
        exact ⟨advanced, hadv, .inl ⟨rfl, _, mem_cons_self, rfl⟩⟩
    next hdue =>
      obtain ⟨⟨rest, dispatches⟩, hrest, h⟩ := Except.of_bind h
      cases h
      refine .cons ?_ (ih hrest)
      rw [ClaimedAs, if_neg hdue]

lemma claimDueInState_spec
    (h : claimDueInState env dueAt claimedAt n state = .ok (state', dispatches)) :
    List.Forall₂ (ClaimedAs env dueAt claimedAt dispatches) state.jobs state'.jobs := by
  obtain ⟨result, hclaim, hstate⟩ := Except.of_bind h
  cases hstate
  exact claimJobs_spec hclaim

/-- **A claim that succeeds.** -/
lemma claimStates_spec (h : (claimStates env dueAt claimedAt n states).2 = .ok dispatches) :
    List.Forall₂ (fun state state' : CronJobsState =>
        List.Forall₂ (ClaimedAs env dueAt claimedAt dispatches) state.jobs state'.jobs)
      states (claimStates env dueAt claimedAt n states).1 := by
  induction states generalizing n dispatches with
  | nil => exact .nil
  | cons state states ih =>
    rw [claimStates] at h ⊢
    split at h
    · cases h
    next state' dispatches₁ hclaim =>
      obtain ⟨dispatches₂, hrest, rfl⟩ := Except.map_eq_ok_iff.mp h
      refine .cons ?_ ((ih hrest).imp fun _ _ hjobs => hjobs.imp fun _ _ => ?_)
      · exact (claimDueInState_spec hclaim).imp fun _ _ =>
          ClaimedAs.mono (subset_append_left _ _)
      · exact ClaimedAs.mono (subset_append_right _ _)

lemma claimDueInState_step
    (h : claimDueInState env dueAt claimedAt n state = .ok (state', dispatches)) :
    StateStep state state' := by
  refine (claimDueInState_spec h).imp ?_
  intro job job' hjob
  rw [ClaimedAs] at hjob
  split_ifs at hjob
  · obtain ⟨advanced, hadv, ⟨rfl, -⟩ | rfl⟩ := hjob
    · exact advanceJob_step hadv
    · have hstep := advanceJob_step hadv
      exact ⟨hstep.id, hstep.schedule, hstep.isOpen⟩
  · cases hjob
    exact .refl job

lemma claimStates_step :
    List.Forall₂ StateStep states (claimStates env dueAt claimedAt n states).1 := by
  induction states generalizing n with
  | nil => exact .nil
  | cons state states ih =>
    rw [claimStates]
    split
    · exact .cons (.refl state) (forall₂_same.mpr fun state _ => .refl state)
    next hclaim => exact .cons (claimDueInState_step hclaim) ih

lemma mutateStates_step {mutator : CronJobsState → Except String CronJobsState}
    (hmutator : ∀ state state', mutator state = .ok state' → StateStep state state') :
    List.Forall₂ StateStep states (mutateStates mutator states).1 := by
  induction states with
  | nil => exact .nil
  | cons state states ih =>
    rw [mutateStates]
    split
    · exact .cons (.refl state) (forall₂_same.mpr fun state _ => .refl state)
    next hstate => exact .cons (hmutator _ _ hstate) ih

lemma recordDispatchInState_step {dispatchId : String} {outcome : AgentCronJobRunResult}
    {error : Option String}
    (h : recordDispatchInState env dispatchId outcome error state = .ok state') :
    StateStep state state' := by
  rw [recordDispatchInState] at h
  split at h
  · cases h
    exact .refl state
  · obtain ⟨jobs, hjobs, hstate⟩ := Except.of_bind h
    cases hstate
    refine (Except.mapM_eq_ok_iff.mp hjobs).imp ?_
    intro job job' hjob
    split_ifs at hjob
    · simp only [recordResult] at hjob
      split at hjob
      · obtain ⟨nextRunAt, -, hjob⟩ := Except.of_bind hjob
        cases hjob
        exact .of_finish rfl rfl rfl
      · cases hjob
        exact .of_finish rfl rfl rfl
    · cases hjob
      exact .refl job

lemma recoverInterruptedInState_step {dispatchIds : Option (List String)} :
    StateStep state (recoverInterruptedInState env dispatchIds state) := by
  rw [StateStep, recoverInterruptedInState, forall₂_map_right_iff]
  refine forall₂_same.mpr fun job _ => ?_
  split_ifs
  · exact .of_finish rfl rfl rfl
  · exact .refl job

namespace CronStore

variable {store : CronStore}

lemma states_withStates {states : List CronJobsState}
    (h : states.length = store.states.length) : (store.withStates states).states = states := by
  cases store with
  | file state =>
    obtain ⟨state', rfl⟩ := length_eq_one_iff.mp h
    rfl
  | artifacts lanes =>
    have hlen : lanes.entries.length ≤ states.length := by
      rw [h, CronStore.states, JsMap.values, length_map]
    have hlen' : states.length ≤ lanes.entries.length := by
      rw [h, CronStore.states, JsMap.values, length_map]
    have hkeys : ((lanes.entries.zip states).map fun p => (p.1.1, p.2)).map Prod.fst =
        lanes.entries.map Prod.fst := by
      calc ((lanes.entries.zip states).map fun p => (p.1.1, p.2)).map Prod.fst
          = ((lanes.entries.zip states).map Prod.fst).map Prod.fst := by
            rw [map_map, map_map]
            rfl
        _ = lanes.entries.map Prod.fst := by rw [map_fst_zip hlen]
    rw [withStates, dif_pos hkeys, CronStore.states, JsMap.values, map_map]
    exact map_snd_zip hlen'

end CronStore

/-- **What happens under the locks**: a job keeps its id and its schedule, and is not opened. -/
lemma LockedOp.apply_spec {op : LockedOp} :
    List.Forall₂ StateStep store.states (op.apply env store).states := by
  have hstates {states : List CronJobsState} (h : List.Forall₂ StateStep store.states states) :
      List.Forall₂ StateStep store.states (store.withStates states).states := by
    rwa [CronStore.states_withStates h.length_eq.symm]
  cases op with
  | claimDue dueAt => exact hstates claimStates_step
  | recordDispatchResult dispatchId outcome error =>
    exact hstates (mutateStates_step fun _ _ => recordDispatchInState_step)
  | recoverInterruptedDispatches | recoverInterruptedDispatchesById dispatchIds =>
    exact hstates (mutateStates_step fun _ _ h => Except.ok.inj h ▸ recoverInterruptedInState_step)
  | recoverSessionArtifact sessionId =>
    cases store with
    | file state => exact .cons (.refl state) .nil
    | artifacts lanes =>
      rw [apply, CronStore.states, CronStore.states, CronStore.states_mapLanes, JsMap.values,
        forall₂_map_left_iff, forall₂_map_right_iff]
      refine forall₂_same.mpr fun lane _ => ?_
      split_ifs
      · exact recoverInterruptedInState_step
      · exact .refl lane.2

/-- A job of a store that was changed under the locks, and what it was before. -/
lemma LockedOp.exists_of_mem_apply {op : LockedOp} (h : job' ∈ (op.apply env store).readJobs) :
    ∃ job ∈ store.readJobs, LockedStep job job' := by
  obtain ⟨state', hstate', hjob'⟩ := CronStore.mem_readJobs.mp h
  obtain ⟨state, hstate, hstep⟩ := exists_of_mem_forall₂ apply_spec hstate'
  obtain ⟨job, hjob, hlocked⟩ := exists_of_mem_forall₂ hstep hjob'
  exact ⟨job, CronStore.mem_readJobs.mpr ⟨state, hstate, hjob⟩, hlocked⟩

end Locked

/-! ## Runs -/

section Runs

variable {P : Type*} [DecidableEq P] {s s' : CronSystem P}

lemma CronSystem.process_set (s : CronSystem P) (p q : P) (phase : CronProcess) :
    (s.set p phase).process q = if q = p then phase else s.process q :=
  Function.update_apply s.process p phase q

variable {label : CronLabel P}

/-- The steps are those that can be performed. -/
lemma CronSystem.perform_eq_some_iff :
    s.perform label = some s' ↔ cronMachine.step s label s' := by
  constructor
  · intro h
    cases label with
    | start p op env =>
      rw [perform] at h
      split at h
      next hidle =>
        split_ifs at h with henabled
        exact ⟨hidle, henabled.1, henabled.2, (Option.some.inj h).symm⟩
      · cases h
    | read p =>
      rw [perform] at h
      split at h
      next op env seen hstarted => exact ⟨op, env, seen, hstarted, (Option.some.inj h).symm⟩
      · cases h
    | write p =>
      rw [perform] at h
      split at h
      next jobs hwriting => exact ⟨jobs, hwriting, (Option.some.inj h).symm⟩
      · cases h
    | locked op env =>
      rw [perform] at h
      split_ifs at h with hclock
      exact ⟨hclock, (Option.some.inj h).symm⟩
  · intro h
    cases label with
    | start p op env =>
      obtain ⟨hidle, hclock, hname, rfl⟩ := h
      rw [perform, hidle]
      exact if_pos ⟨hclock, hname⟩
    | read p =>
      obtain ⟨op, env, seen, hstarted, rfl⟩ := h
      rw [perform, hstarted]
    | write p =>
      obtain ⟨jobs, hwriting, rfl⟩ := h
      rw [perform, hwriting]
    | locked op env =>
      obtain ⟨hclock, rfl⟩ := h
      exact if_pos hclock

variable {labels : List (CronLabel P)}

/-- A run whose steps are performed. -/
lemma exists_run_of_perform
    (h : (labels.foldlM perform s).map CronSystem.store = some store) :
    ∃ s', cronMachine.Run s labels s' ∧ s'.store = store := by
  obtain ⟨s', hperform, hstore⟩ := Option.map_eq_some_iff.mp h
  exact ⟨s', .of_foldlM (fun _ _ _ => perform_eq_some_iff.mp) hperform, hstore⟩

/-- The jobs of the store, and those that are about to be written, have accepted schedules. -/
structure AcceptedSystem (s : CronSystem P) : Prop where
  store : ∀ job ∈ s.store.readJobs, job.schedule.Accepted
  writing : ∀ p jobs, s.process p = .writing jobs → ∀ job ∈ jobs, job.schedule.Accepted

omit [DecidableEq P] in
lemma CronSystem.Initial.accepted (h : s.Initial) : AcceptedSystem s where
  store job hjob := by
    obtain ⟨state, hstate, hmem⟩ := CronStore.mem_readJobs.mp hjob
    rw [h.1 state hstate] at hmem
    cases hmem
  writing p jobs hp := by
    rw [h.2 p] at hp
    cases hp

/-- What an operation has computed from accepted schedules. -/
lemma StoreOp.compute_accepted {op : StoreOp} {env : CronEnv}
    {seen jobs jobs' : List AgentCronJob} (hjobs : ∀ job ∈ jobs, job.schedule.Accepted)
    (h : op.compute env seen jobs = .ok (some jobs')) :
    ∀ job ∈ jobs', job.schedule.Accepted := by
  obtain ⟨edited, new, rfl, hsteps, hnew⟩ := StoreOp.compute_spec h
  intro job hjob
  rcases mem_append.mp hjob with hmem | hmem
  · obtain ⟨job₀, hjob₀, hstep⟩ := exists_of_mem_forall₂ hsteps hmem
    exact hstep.accepted (hjobs job₀ hjob₀)
  · rcases hnew with rfl | ⟨job₁, rfl, hjob₁⟩
    · cases hmem
    · rw [mem_singleton.mp hmem]
      exact hjob₁.accepted

lemma AcceptedSystem.step (hs : AcceptedSystem s)
    (hstep : cronMachine.step s label s') : AcceptedSystem s' := by
  cases label with
  | start p op env =>
    obtain ⟨-, -, -, rfl⟩ := hstep
    refine ⟨hs.store, fun q jobs hq => ?_⟩
    rw [process_set] at hq
    split_ifs at hq
    exact hs.writing q jobs hq
  | read p =>
    obtain ⟨op, env, seen, -, rfl⟩ := hstep
    refine ⟨hs.store, fun q jobs hq => ?_⟩
    rw [process_set] at hq
    split_ifs at hq
    · split at hq
      next jobs' hcompute =>
        cases hq
        exact StoreOp.compute_accepted hs.store hcompute
      · cases hq
    · exact hs.writing q jobs hq
  | write p =>
    obtain ⟨jobs, hp, rfl⟩ := hstep
    refine ⟨fun job hjob => ?_, fun q jobs' hq => ?_⟩
    · cases hwrite : s.store.writeJobs jobs with
      | error message =>
        rw [hwrite] at hjob
        exact hs.store job hjob
      | ok store' =>
        rw [hwrite] at hjob
        exact (CronStore.mem_writeJobs hwrite hjob).elim (hs.store job) (hs.writing p jobs hp job)
    · rw [process_set] at hq
      split_ifs at hq
      exact hs.writing q jobs' hq
  | locked op env =>
    obtain ⟨-, rfl⟩ := hstep
    refine ⟨fun job hjob => ?_, hs.writing⟩
    obtain ⟨job₀, hjob₀, hlocked⟩ := LockedOp.exists_of_mem_apply hjob
    rw [hlocked.schedule]
    exact hs.store job₀ hjob₀

/-- **Every schedule in the store was accepted**, whatever the processes do, and in whatever
order. -/
theorem accepted_of_run (h₀ : s.Initial)
    (hrun : cronMachine.Run s labels s') : AcceptedSystem s' :=
  hrun.invariant h₀.accepted fun _ _ _ => AcceptedSystem.step

end Runs

end Amide
