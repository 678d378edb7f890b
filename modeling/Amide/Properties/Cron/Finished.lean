import Amide.Properties.Cron.Merge
import Amide.Properties.Cron.Claims

/-!
# Finished jobs

A job that was cancelled or completed can be opened again by an operation that read it before:
its write is stamped with the operation's own time, and a merge lets the later stamp win.  In a
run without such writes (`KeepsFinished`) a finished job stays finished and is not claimed
(`finished_of_run`); that no id is there twice, and that every name is new, holds of every run
(`NamedSystem`).
-/

namespace Amide

open CronStore List

open CronSystem (process_set)

/-! ## Names -/

/-- The ids a process has at hand. -/
def CronProcess.ids : CronProcess → List String
  | .idle => []
  | .started _ env _ => [env.randomUUID 0]
  | .writing jobs => jobs.map AgentCronJob.id

variable {jobs jobs' : List AgentCronJob} {store : CronStore}

section Names

variable {P : Type*} [DecidableEq P] {s s' : CronSystem P} {label : CronLabel P}

/-- No id is there twice, every id is a name that was given, and the name of an operation under
way is nowhere else yet. -/
structure NamedSystem (s : CronSystem P) : Prop where
  unique : s.store.UniqueIds
  named : ∀ job ∈ s.store.readJobs, job.id ∈ s.names
  nodup : ∀ p, (s.process p).ids.Nodup
  process_named : ∀ p, ∀ id ∈ (s.process p).ids, id ∈ s.names
  fresh : ∀ p op env seen, s.process p = .started op env seen →
    (∀ job ∈ s.store.readJobs, job.id ≠ env.randomUUID 0) ∧
      ∀ q, q ≠ p → env.randomUUID 0 ∉ (s.process q).ids

omit [DecidableEq P] in
lemma CronSystem.Initial.namedSystem (h : s.Initial) : NamedSystem s := by
  have hempty : s.store.readJobs = [] := by
    rw [readJobs, flatMap_eq_nil_iff]
    intro state hstate
    rw [h.1 state hstate]
  refine ⟨?_, ?_, ?_, ?_, ?_⟩
  · rw [UniqueIds, hempty]
    exact nodup_nil
  · rw [hempty]
    intro job hjob
    cases hjob
  · intro p
    rw [h.2 p]
    exact nodup_nil
  · intro p id hid
    rw [h.2 p] at hid
    cases hid
  · intro p op env seen hp
    rw [h.2 p] at hp
    cases hp

lemma map_id_eq (h : List.Forall₂ (fun job job' : AgentCronJob => job'.id = job.id) jobs jobs') :
    jobs'.map AgentCronJob.id = jobs.map AgentCronJob.id := map_eq_of_forall₂ h

variable {op : StoreOp} {env : CronEnv} {seen : List AgentCronJob}

/-- The ids of what an operation writes. -/
lemma StoreOp.compute_ids (h : op.compute env seen jobs = .ok (some jobs')) :
    jobs'.map AgentCronJob.id = jobs.map AgentCronJob.id ∨
      jobs'.map AgentCronJob.id = jobs.map AgentCronJob.id ++ [env.randomUUID 0] := by
  obtain ⟨edited, new, rfl, hsteps, hnew⟩ := StoreOp.compute_spec h
  have hedited : edited.map AgentCronJob.id = jobs.map AgentCronJob.id :=
    map_id_eq (hsteps.imp fun _ _ hstep => hstep.id)
  rw [map_append, hedited]
  rcases hnew with rfl | ⟨job, rfl, hjob⟩
  · left
    exact append_nil _
  · right
    rw [map_singleton, hjob.id]

/-- Under the locks no id changes. -/
lemma LockedOp.apply_ids {op : LockedOp} :
    (op.apply env store).readJobs.map AgentCronJob.id = store.readJobs.map AgentCronJob.id := by
  have hsteps : List.Forall₂ StateStep store.states (op.apply env store).states := apply_spec
  rw [readJobs, readJobs, map_flatMap, map_flatMap]
  generalize store.states = states at hsteps
  generalize (op.apply env store).states = states' at hsteps
  induction hsteps with
  | nil => rfl
  | cons hstep _ ih =>
    rw [flatMap_cons, flatMap_cons, ih, map_id_eq (hstep.imp fun _ _ hjob => hjob.id)]

omit [DecidableEq P] in
lemma NamedSystem.not_mem (hs : NamedSystem s) {name : String} (hname : name ∉ s.names) :
    (∀ job ∈ s.store.readJobs, job.id ≠ name) ∧ ∀ p, name ∉ (s.process p).ids := by
  refine ⟨?_, fun p hp => hname (hs.process_named p name hp)⟩
  rintro job hjob rfl
  exact hname (hs.named job hjob)

omit [DecidableEq P] in
/-- The ids of what an operation writes are unique: they are in the store, or new. -/
lemma NamedSystem.computed (hs : NamedSystem s) {p : P} (hp : s.process p = .started op env seen)
    (h : op.compute env seen s.store.readJobs = .ok (some jobs)) :
    (jobs.map AgentCronJob.id).Nodup ∧ ∀ id ∈ jobs.map AgentCronJob.id,
      (∃ job ∈ s.store.readJobs, job.id = id) ∨ id = env.randomUUID 0 := by
  have hfresh := (hs.fresh p op env seen hp).1
  rcases StoreOp.compute_ids h with hids | hids
  · rw [hids]
    exact ⟨hs.unique, fun id hid => .inl (List.mem_map.mp hid)⟩
  · rw [hids]
    constructor
    · rw [← concat_eq_append]
      refine List.Nodup.concat ?_ hs.unique
      rw [mem_map]
      rintro ⟨job, hjob, hid⟩
      exact hfresh job hjob hid
    · intro id hid
      rcases mem_append.mp hid with hid | hid
      · exact .inl (List.mem_map.mp hid)
      · exact .inr (mem_singleton.mp hid)

lemma NamedSystem.start_step (hs : NamedSystem s) {p : P} (hname : env.randomUUID 0 ∉ s.names) :
    NamedSystem { s.set p (.started op env seen) with
      clock := env.now, names := env.randomUUID 0 :: s.names } := by
  obtain ⟨hstore, hprocess⟩ := hs.not_mem hname
  refine ⟨hs.unique, fun job hjob => mem_cons_of_mem _ (hs.named job hjob), ?_, ?_, ?_⟩
  · intro q
    show ((s.set p _).process q).ids.Nodup
    rw [process_set]
    split_ifs
    · exact nodup_singleton _
    · exact hs.nodup q
  · intro q id hid
    rw [process_set] at hid
    split_ifs at hid
    · rw [mem_singleton.mp hid]
      exact mem_cons_self
    · exact mem_cons_of_mem _ (hs.process_named q id hid)
  · intro q op' env' seen' hq
    rw [process_set] at hq
    split_ifs at hq with hqp
    · cases hq
      refine ⟨hstore, fun r hr => ?_⟩
      show _ ∉ ((s.set p _).process r).ids
      rw [process_set, if_neg (hqp ▸ hr)]
      exact hprocess r
    · obtain ⟨hstore', hprocess'⟩ := hs.fresh q op' env' seen' hq
      refine ⟨hstore', fun r hr => ?_⟩
      show _ ∉ ((s.set p _).process r).ids
      rw [process_set]
      split_ifs
      · intro hmem
        have hq' : env'.randomUUID 0 ∈ (s.process q).ids := by
          rw [hq]
          exact mem_singleton_self _
        rw [mem_singleton.mp hmem] at hq'
        exact hprocess q hq'
      · exact hprocess' r hr

/-- A process comes to hold ids of the store, or that were its own already, and the store ids of
the process. -/
lemma NamedSystem.of_phase (hs : NamedSystem s) {p : P} {phase : CronProcess}
    (hunique : store.UniqueIds) (hnodup : phase.ids.Nodup)
    (hstore : ∀ job ∈ store.readJobs,
      (∃ job' ∈ s.store.readJobs, job'.id = job.id) ∨ job.id ∈ (s.process p).ids)
    (hids : ∀ id ∈ phase.ids, (∃ job' ∈ s.store.readJobs, job'.id = id) ∨ id ∈ (s.process p).ids)
    (hphase : ∀ op env seen, phase ≠ .started op env seen) :
    NamedSystem { s.set p phase with store := store } := by
  have hnamed : ∀ id, (∃ job' ∈ s.store.readJobs, job'.id = id) ∨ id ∈ (s.process p).ids →
      id ∈ s.names := by
    rintro id (⟨job', hjob', rfl⟩ | hid)
    · exact hs.named job' hjob'
    · exact hs.process_named p id hid
  refine ⟨hunique, fun job hjob => hnamed _ (hstore job hjob), ?_, ?_, ?_⟩
  · intro q
    show ((s.set p _).process q).ids.Nodup
    rw [process_set]
    split_ifs
    · exact hnodup
    · exact hs.nodup q
  · intro q id hid
    rw [process_set] at hid
    split_ifs at hid
    · exact hnamed id (hids id hid)
    · exact hs.process_named q id hid
  · intro q op env seen hq
    rw [process_set] at hq
    split_ifs at hq with hqp
    · exact absurd hq (hphase op env seen)
    · obtain ⟨hfresh, hother⟩ := hs.fresh q op env seen hq
      have hnot : ∀ id, (∃ job' ∈ s.store.readJobs, job'.id = id) ∨ id ∈ (s.process p).ids →
          id ≠ env.randomUUID 0 := by
        rintro id (⟨job', hjob', rfl⟩ | hid)
        · exact hfresh job' hjob'
        · rintro rfl
          exact hother p (Ne.symm hqp) hid
      refine ⟨fun job hjob => hnot _ (hstore job hjob), fun r hr hmem => ?_⟩
      rw [process_set] at hmem
      split_ifs at hmem
      · exact hnot _ (hids _ hmem) rfl
      · exact hother r hr hmem

/-- **Names stay unique**, whatever step is taken. -/
lemma NamedSystem.step (hs : NamedSystem s) (hstep : cronMachine.step s label s') :
    NamedSystem s' := by
  cases label with
  | start p op env =>
    obtain ⟨-, -, hname, rfl⟩ := hstep
    exact hs.start_step hname
  | read p =>
    obtain ⟨op, env, seen, hp, rfl⟩ := hstep
    have hids : (s.process p).ids = [env.randomUUID 0] := by rw [hp]; rfl
    apply hs.of_phase hs.unique
    · split
      next jobs hcompute => exact (hs.computed hp hcompute).1
      · exact nodup_nil
    · exact fun job hjob => .inl ⟨job, hjob, rfl⟩
    · rw [hids]
      split
      next jobs hcompute =>
        intro id hid
        exact ((hs.computed hp hcompute).2 id hid).imp_right mem_singleton.mpr
      · intro id hid
        cases hid
    · intro op' env' seen'
      split
      · exact nofun
      · exact nofun
  | write p =>
    obtain ⟨jobs, hp, rfl⟩ := hstep
    have hids : (s.process p).ids = jobs.map AgentCronJob.id := by rw [hp]; rfl
    have hnodup : (jobs.map AgentCronJob.id).Nodup := hids ▸ hs.nodup p
    cases hwrite : s.store.writeJobs jobs with
    | error message =>
      exact hs.of_phase hs.unique nodup_nil (fun job hjob => .inl ⟨job, hjob, rfl⟩)
        (fun _ hid => by cases hid) fun _ _ _ h => by cases h
    | ok store' =>
      refine hs.of_phase (uniqueIds_writeJobs hs.unique hnodup hwrite) nodup_nil ?_
        (fun _ hid => by cases hid) fun _ _ _ h => by cases h
      intro job hjob
      rw [hids]
      exact (mem_writeJobs hwrite hjob).imp (fun h => ⟨job, h, rfl⟩)
        fun h => mem_map_of_mem h
  | locked op env =>
    obtain ⟨-, rfl⟩ := hstep
    have hmem : ∀ job ∈ (op.apply env s.store).readJobs,
        ∃ job' ∈ s.store.readJobs, job'.id = job.id := by
      intro job hjob
      obtain ⟨job', hjob', hlocked⟩ := LockedOp.exists_of_mem_apply hjob
      exact ⟨job', hjob', hlocked.id.symm⟩
    refine ⟨?_, ?_, hs.nodup, hs.process_named, ?_⟩
    · rw [UniqueIds, LockedOp.apply_ids]
      exact hs.unique
    · intro job hjob
      obtain ⟨job', hjob', hid⟩ := hmem job hjob
      exact hid ▸ hs.named job' hjob'
    · intro p op' env' seen hp
      obtain ⟨hfresh, hother⟩ := hs.fresh p op' env' seen hp
      refine ⟨?_, hother⟩
      intro job hjob
      obtain ⟨job', hjob', hid⟩ := hmem job hjob
      exact hid ▸ hfresh job' hjob'

end Names

/-! ## Claims -/

section Claims

variable {env : CronEnv} {dueAt claimedAt : ℤ} {id : String}

/-- A job of the id is due. -/
def HasDue (dueAt : ℤ) (jobs : List AgentCronJob) (id : String) : Prop :=
  ∃ job ∈ jobs, job.id = id ∧ job.isDueJob dueAt = true

namespace CronStore

def dispatches (store : CronStore) : List AgentCronDispatchRecord :=
  store.states.flatMap CronJobsState.dispatches

/-- Claiming takes a job of the id: its dispatch is recorded, or handed out. -/
def Claims (env : CronEnv) (dueAt claimedAt : ℤ) (store : CronStore) (id : String) : Prop :=
  (∃ record ∈ (store.claimDue env dueAt claimedAt).1.dispatches,
    record.jobId = id ∧ record ∉ store.dispatches) ∨
  ∃ dispatches, (store.claimDue env dueAt claimedAt).2 = .ok dispatches ∧
    ∃ dispatch ∈ dispatches, dispatch.job.id = id

end CronStore

lemma HasDue.mono (hsub : jobs ⊆ jobs') (h : HasDue dueAt jobs id) : HasDue dueAt jobs' id := by
  obtain ⟨job, hjob, hdue⟩ := h
  exact ⟨job, hsub hjob, hdue⟩

variable {n : ℕ}

/-- Only due jobs are claimed. -/
lemma claimJobs_due {claimedJobIds : List String}
    {result : List AgentCronJob × List (AgentCronDispatchRecord × AgentCronDispatch)}
    (h : claimJobs env dueAt claimedAt claimedJobIds n jobs = .ok result) :
    ∀ dispatch ∈ result.2, HasDue dueAt jobs dispatch.1.jobId ∧
      HasDue dueAt jobs dispatch.2.job.id := by
  induction jobs generalizing n result with
  | nil =>
    cases h
    intro dispatch hmem
    cases hmem
  | cons job jobs ih =>
    have htail {n' : ℕ}
        {rest : List AgentCronJob × List (AgentCronDispatchRecord × AgentCronDispatch)}
        (hrest : claimJobs env dueAt claimedAt claimedJobIds n' jobs = .ok rest) :
        ∀ dispatch ∈ rest.2, HasDue dueAt (job :: jobs) dispatch.1.jobId ∧
          HasDue dueAt (job :: jobs) dispatch.2.job.id := fun dispatch hmem =>
      (ih hrest dispatch hmem).imp (HasDue.mono (subset_cons_self _ _))
        (HasDue.mono (subset_cons_self _ _))
    rw [claimJobs] at h
    split at h
    next hdue =>
      obtain ⟨advanced, hadv, h⟩ := Except.of_bind h
      split at h
      · obtain ⟨rest, hrest, h⟩ := Except.of_bind h
        cases h
        intro dispatch hmem
        exact htail hrest dispatch hmem
      · obtain ⟨rest, hrest, h⟩ := Except.of_bind h
        cases h
        intro dispatch hmem
        rcases mem_cons.mp hmem with rfl | hmem
        · have hid : advanced.id = job.id := (advanceJob_step hadv).id
          exact ⟨⟨job, mem_cons_self, rfl, hdue⟩, ⟨job, mem_cons_self, hid.symm, hdue⟩⟩
        · exact htail hrest dispatch hmem
    · obtain ⟨rest, hrest, h⟩ := Except.of_bind h
      cases h
      intro dispatch hmem
      exact htail hrest dispatch hmem

lemma claimDueInState_due {state state' : CronJobsState} {dispatches : List AgentCronDispatch}
    (h : claimDueInState env dueAt claimedAt n state = .ok (state', dispatches)) :
    (∀ record ∈ state'.dispatches,
        record ∈ state.dispatches ∨ HasDue dueAt state.jobs record.jobId) ∧
      ∀ dispatch ∈ dispatches, HasDue dueAt state.jobs dispatch.job.id := by
  obtain ⟨result, hclaim, hstate⟩ := Except.of_bind h
  have hdue := claimJobs_due hclaim
  cases hstate
  constructor
  · intro record hmem
    rcases mem_append.mp hmem with hmem | hmem
    · exact .inl hmem
    · obtain ⟨dispatch, hdisp, rfl⟩ := List.mem_map.mp hmem
      exact .inr (hdue dispatch hdisp).1
  · intro dispatch hmem
    obtain ⟨pair, hpair, rfl⟩ := List.mem_map.mp hmem
    exact (hdue pair hpair).2

lemma claimStates_due {states : List CronJobsState} :
    (∀ record ∈ (claimStates env dueAt claimedAt n states).1.flatMap CronJobsState.dispatches,
        record ∈ states.flatMap CronJobsState.dispatches ∨
          HasDue dueAt (states.flatMap CronJobsState.jobs) record.jobId) ∧
      ∀ dispatches, (claimStates env dueAt claimedAt n states).2 = .ok dispatches →
        ∀ dispatch ∈ dispatches,
          HasDue dueAt (states.flatMap CronJobsState.jobs) dispatch.job.id := by
  induction states generalizing n with
  | nil =>
    constructor
    · intro record hmem
      cases hmem
    · rintro dispatches ⟨⟩ dispatch hmem
      cases hmem
  | cons state states ih =>
    rw [claimStates]
    split
    · refine ⟨fun record hmem => .inl hmem, ?_⟩
      rintro dispatches ⟨⟩
    next state' dispatches₁ hclaim =>
      obtain ⟨hrec, hdisp⟩ := claimDueInState_due hclaim
      obtain ⟨hrecords, hdispatches⟩ := ih (n := n + dispatches₁.length)
      constructor
      · intro record hmem
        rcases mem_append.mp hmem with hmem | hmem
        · exact (hrec record hmem).imp (mem_append_left _)
            (HasDue.mono (subset_append_left _ _))
        · exact (hrecords record hmem).imp (mem_append_right _)
            (HasDue.mono (subset_append_right _ _))
      · intro dispatches hok dispatch hmem
        obtain ⟨dispatches₂, hrest, rfl⟩ := Except.map_eq_ok_iff.mp hok
        rcases mem_append.mp hmem with hmem | hmem
        · exact (hdisp dispatch hmem).mono (subset_append_left _ _)
        · exact (hdispatches dispatches₂ hrest dispatch hmem).mono
            (subset_append_right _ _)

/-- **Only a due job is claimed.** -/
lemma CronStore.Claims.hasDue (h : store.Claims env dueAt claimedAt id) :
    HasDue dueAt store.readJobs id := by
  obtain ⟨hrecords, hdispatches⟩ := @claimStates_due env dueAt claimedAt 0 store.states
  rcases h with ⟨record, hmem, rfl, hnew⟩ | ⟨dispatches, hok, dispatch, hmem, rfl⟩
  · have hstates : (store.claimDue env dueAt claimedAt).1.states =
        (claimStates env dueAt claimedAt 0 store.states).1 :=
      states_withStates claimStates_step.length_eq.symm
    rw [CronStore.dispatches, hstates] at hmem
    exact (hrecords record hmem).resolve_left hnew
  · exact hdispatches dispatches hok dispatch hmem

end Claims

/-! ## Runs -/

section Runs

variable {P : Type*} [DecidableEq P] {s s' : CronSystem P} {label : CronLabel P} {id : String}

/-- A step that writes nothing which opens a finished job again. -/
def KeepsFinished (s : CronSystem P) : CronLabel P → Prop
  | .write p =>
    match s.process p with
    | .writing jobs => ¬s.store.Reopens jobs
    | _ => True
  | _ => True

instance (s : CronSystem P) (label : CronLabel P) : Decidable (KeepsFinished s label) :=
  match label with
  | .write p =>
    match h : s.process p with
    | .writing jobs => decidable_of_iff (¬s.store.Reopens jobs) (by simp [KeepsFinished, h])
    | .idle => .isTrue (by simp [KeepsFinished, h])
    | .started .. => .isTrue (by simp [KeepsFinished, h])
  | .start .. | .read _ | .locked .. => .isTrue trivial

/-- Names are unique, and the store has a finished job of the id. -/
structure FinishedSystem (id : String) (s : CronSystem P) : Prop extends NamedSystem s where
  finished : ∃ job ∈ s.store.readJobs, job.id = id ∧ job.isOpen = false

omit [DecidableEq P] in
lemma FinishedSystem.isOpen_eq_false (hs : FinishedSystem id s) {job : AgentCronJob}
    (hjob : job ∈ s.store.readJobs) (hid : job.id = id) : job.isOpen = false := by
  obtain ⟨job', hjob', hid', hfin⟩ := hs.finished
  rwa [eq_of_id hs.unique hjob hjob' (hid.trans hid'.symm)]

/-- **A step that keeps finished jobs.** -/
lemma FinishedSystem.step (hs : FinishedSystem id s)
    (hstep : (cronMachine.guard KeepsFinished).step s label s') : FinishedSystem id s' := by
  obtain ⟨hstep, hkeeps⟩ := hstep
  refine ⟨hs.toNamedSystem.step hstep, ?_⟩
  obtain ⟨job, hjob, hid, hfin⟩ := hs.finished
  cases label with
  | start p op env =>
    obtain ⟨-, -, -, rfl⟩ := hstep
    exact hs.finished
  | read p =>
    obtain ⟨op, env, seen, -, rfl⟩ := hstep
    exact hs.finished
  | write p =>
    obtain ⟨jobs, hp, rfl⟩ := hstep
    simp only [KeepsFinished, hp] at hkeeps
    have hnodup : (jobs.map AgentCronJob.id).Nodup := by
      have hids := hs.nodup p
      rwa [hp] at hids
    cases hwrite : s.store.writeJobs jobs with
    | error message => exact hs.finished
    | ok store' =>
      obtain ⟨job', hjob', hid'⟩ := exists_mem_writeJobs hnodup hwrite hjob
      exact ⟨job', hjob', hid'.trans hid, isOpen_eq_false_of_writeJobs hs.unique hnodup
        hwrite hkeeps hjob hfin hjob' hid'⟩
  | locked op env =>
    obtain ⟨-, rfl⟩ := hstep
    have hmem : job.id ∈ (op.apply env s.store).readJobs.map AgentCronJob.id := by
      rw [LockedOp.apply_ids]
      exact mem_map_of_mem hjob
    obtain ⟨job', hjob', hid'⟩ := List.mem_map.mp hmem
    refine ⟨job', hjob', hid'.trans hid, Bool.eq_false_of_not_eq_true fun hopen => ?_⟩
    obtain ⟨job₀, hjob₀, hlocked⟩ := LockedOp.exists_of_mem_apply hjob'
    have hclosed := hs.isOpen_eq_false hjob₀ (hlocked.id.symm.trans (hid'.trans hid))
    exact absurd (hlocked.isOpen hopen) (by rw [hclosed]; exact Bool.false_ne_true)

/-! ### Two processes -/

def noJobs : CronSystem Bool := ⟨.file {}, fun _ => .idle, 0, []⟩

/-- A heartbeat is created and then cancelled; meanwhile another process has read it. -/
def cancelledMeanwhile (op : StoreOp) : List (CronLabel Bool) :=
  [.start false (.createRlmHeartbeat (inputOf "every 10s")) (hostAt "watch" 0), .read false,
    .write false, .start false (.cancel "watch") (hostAt "cancel" 5), .read false,
    .start true op (hostAt "tick" 6), .read true, .write false]

/-- **A finished job stays finished** in a run that writes no stale copy which would open it
again, and it is not claimed. -/
theorem finished_of_run {s₀ s s' : CronSystem P} {labels labels' : List (CronLabel P)}
    {id : String} (h₀ : s₀.Initial) (hrun : (cronMachine.guard KeepsFinished).Run s₀ labels s)
    (hrun' : (cronMachine.guard KeepsFinished).Run s labels' s')
    (hfinished : ∃ job ∈ s.store.readJobs, job.id = id ∧ job.isOpen = false) :
    (∀ job ∈ s'.store.readJobs, job.id = id → job.isOpen = false) ∧
      ∀ env dueAt claimedAt, ¬s'.store.Claims env dueAt claimedAt id := by
  have hnamed : NamedSystem s :=
    hrun.of_guard.invariant h₀.namedSystem fun _ _ _ hs hstep => hs.step hstep
  have hend : FinishedSystem id s' :=
    hrun'.invariant ⟨hnamed, hfinished⟩ fun _ _ _ hs hstep => hs.step hstep
  refine ⟨fun job hjob hid => hend.isOpen_eq_false hjob hid, ?_⟩
  intro env dueAt claimedAt hclaims
  obtain ⟨job, hjob, hid, hdue⟩ := hclaims.hasDue
  have hclosed := hend.isOpen_eq_false hjob hid
  simp only [AgentCronJob.isOpen, Bool.or_eq_false_iff, decide_eq_false_iff_not] at hclosed
  simp only [AgentCronJob.isDueJob, Bool.and_eq_true, decide_eq_true_eq] at hdue
  exact hclosed.1 hdue.1

/-- The other process creates a job, and writes the heartbeat as it read it: nothing comes of it. -/
theorem finished_of_run_cancelledMeanwhile : ∃ s s' : CronSystem Bool,
    cronMachine.Run s [.write true] s' ∧
      (∃ job ∈ s.store.readJobs, job.id = "watch" ∧ job.isOpen = false) ∧
      (∀ job ∈ s'.store.readJobs, job.id = "watch" → job.isOpen = false) ∧
        ∀ env dueAt claimedAt, ¬s'.store.Claims env dueAt claimedAt "watch" := by
  let perform := fun (s : CronSystem Bool) (label : CronLabel Bool) =>
    if KeepsFinished s label then s.perform label else none
  have hperform : ∀ s label s', perform s label = some s' →
      (cronMachine.guard KeepsFinished).step s label s' := by
    intro s label s' h
    have hkeeps : KeepsFinished s label := by
      by_contra hkeeps
      simp only [perform, if_neg hkeeps] at h
      cases h
    simp only [perform, if_pos hkeeps] at h
    exact ⟨CronSystem.perform_eq_some_iff.mp h, hkeeps⟩
  have hcancelled : (((cancelledMeanwhile (.create (inputOf "every 10s"))).foldlM perform
      noJobs).map fun s => s.store.readJobs.any fun job => job.id = "watch" && !job.isOpen) =
        some true := by decide +kernel
  obtain ⟨s, hs, hfinished⟩ := Option.map_eq_some_iff.mp hcancelled
  have hwritten : ((cancelledMeanwhile (.create (inputOf "every 10s")) ++
      ([.write true] : List (CronLabel Bool))).foldlM perform noJobs).isSome = true := by
    decide +kernel
  rw [foldlM_append, hs] at hwritten
  obtain ⟨s', hs'⟩ := Option.isSome_iff_exists.mp hwritten
  simp only [any_eq_true, Bool.and_eq_true, decide_eq_true_eq, Bool.not_eq_true'] at hfinished
  have hrun' := Machine.Run.of_foldlM hperform hs'
  have hinitial : noJobs.Initial := ⟨fun state hstate => mem_singleton.mp hstate, fun _ => rfl⟩
  obtain ⟨hclosed, hclaims⟩ := finished_of_run hinitial (.of_foldlM hperform hs) hrun' hfinished
  exact ⟨s, s', hrun'.of_guard, hfinished, hclosed, hclaims⟩

/-- **A cancelled heartbeat comes back**: the other process renames it, one millisecond after its
cancellation was stamped, and writes it last. -/
theorem cancelled_reopened : ∃ s s' : CronSystem Bool, cronMachine.Run noJobs
      (cancelledMeanwhile (.updateRlmHeartbeat "live" "watch" { label := some "w" })) s ∧
    cronMachine.Run s [.write true] s' ∧
      (∃ job ∈ s.store.readJobs, job.id = "watch" ∧ job.status = .cancelled) ∧
        ∃ job ∈ s'.store.readJobs, job.id = "watch" ∧ job.status = .active := by
  have hstep : ∀ (s : CronSystem Bool) label s', s.perform label = some s' →
      cronMachine.step s label s' := fun _ _ _ => CronSystem.perform_eq_some_iff.mp
  have hcancelled : (((cancelledMeanwhile (.updateRlmHeartbeat "live" "watch"
      { label := some "w" })).foldlM CronSystem.perform noJobs).map fun s =>
        s.store.readJobs.any fun job => job.id = "watch" && job.status = .cancelled) =
          some true := by decide +kernel
  obtain ⟨s, hs, hfinished⟩ := Option.map_eq_some_iff.mp hcancelled
  have hwritten : ((cancelledMeanwhile (.updateRlmHeartbeat "live" "watch"
      { label := some "w" }) ++ ([.write true] : List (CronLabel Bool))).foldlM CronSystem.perform
        noJobs).map (fun s : CronSystem Bool => s.store.readJobs.any fun job =>
          job.id = "watch" && job.status = .active) = some true := by decide +kernel
  rw [foldlM_append, hs] at hwritten
  obtain ⟨s', hs', hopen⟩ := Option.map_eq_some_iff.mp hwritten
  simp only [any_eq_true, Bool.and_eq_true, decide_eq_true_eq] at hfinished hopen
  exact ⟨s, s', .of_foldlM hstep hs, .of_foldlM hstep hs', hfinished, hopen⟩

end Runs

end Amide
