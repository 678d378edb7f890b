import Amide.Properties.Cron.Finished

/-!
# The life of a dispatch

A due job is claimed: a dispatch for it is recorded beside it.  The dispatch is outstanding until
its result is recorded, or until it is found interrupted.  Runs of these operations on one store are
observed from outside (`DispatchSystem`): a dispatch that comes into the store has been claimed, one
that goes out of it has been resolved.  A process may die in the middle of an operation, and then
only the first lanes are written.

In every state reached a job has at most one outstanding dispatch, one that runs once has been
dispatched at most once, and what has been claimed is outstanding or has been resolved once
(`disciplined_of_run`).
-/

namespace Amide

open List

variable {env : CronEnv} {dueAt claimedAt : ℤ} {n : ℕ} {state state' : CronJobsState}
  {states states' : List CronJobsState}

/-! ## Jobs and dispatches of the lanes -/

def jobsOf (states : List CronJobsState) : List AgentCronJob := states.flatMap CronJobsState.jobs

def dispatchesOf (states : List CronJobsState) : List AgentCronDispatchRecord :=
  states.flatMap CronJobsState.dispatches

lemma jobsOf_cons (state : CronJobsState) (states : List CronJobsState) :
    jobsOf (state :: states) = state.jobs ++ jobsOf states := flatMap_cons

lemma dispatchesOf_cons (state : CronJobsState) (states : List CronJobsState) :
    dispatchesOf (state :: states) = state.dispatches ++ dispatchesOf states := flatMap_cons

/-- The ids of jobs, and of dispatches, are unique; no job has two dispatches, and those it has lie
in its lane. -/
structure SoundLanes (states : List CronJobsState) : Prop where
  ids : ((jobsOf states).map AgentCronJob.id).Nodup
  names : ((dispatchesOf states).map AgentCronDispatchRecord.id).Nodup
  one : ((dispatchesOf states).map AgentCronDispatchRecord.jobId).Nodup
  beside : ∀ state ∈ states, ∀ dispatch ∈ state.dispatches,
    dispatch.jobId ∈ (jobsOf states).map AgentCronJob.id →
      dispatch.jobId ∈ state.jobs.map AgentCronJob.id

variable {job : AgentCronJob} {dispatch : AgentCronDispatchRecord}

namespace SoundLanes

lemma tail (h : SoundLanes (state :: states)) : SoundLanes states where
  ids := by
    have hids := h.ids
    rw [jobsOf_cons, map_append] at hids
    exact hids.of_append_right
  names := by
    have hnames := h.names
    rw [dispatchesOf_cons, map_append] at hnames
    exact hnames.of_append_right
  one := by
    have hone := h.one
    rw [dispatchesOf_cons, map_append] at hone
    exact hone.of_append_right
  beside := by
    intro lane hlane dispatch hdisp hjob
    refine h.beside lane (mem_cons_of_mem _ hlane) dispatch hdisp ?_
    rw [jobsOf_cons, map_append]
    exact mem_append_right _ hjob

lemma names_of_mem (h : SoundLanes states) (hstate : state ∈ states) :
    (state.dispatches.map AgentCronDispatchRecord.id).Nodup := by
  have hnames := h.names
  rw [dispatchesOf, map_flatMap, nodup_flatMap] at hnames
  exact hnames.1 state hstate

/-- The dispatches of other lanes are for other jobs. -/
lemma jobId_ne_of_head (h : SoundLanes (state :: states)) (hjob : job ∈ state.jobs)
    (hdisp : dispatch ∈ dispatchesOf states) : dispatch.jobId ≠ job.id := by
  intro heq
  have hids := h.ids
  rw [jobsOf_cons, map_append] at hids
  obtain ⟨lane, hlane, hmem⟩ := mem_flatMap.mp hdisp
  have hbeside := h.beside lane (mem_cons_of_mem _ hlane) dispatch hmem (by
    rw [jobsOf_cons, map_append, heq]
    exact mem_append_left _ (mem_map_of_mem hjob))
  refine (nodup_append.mp hids).2.2 job.id (mem_map_of_mem hjob) dispatch.jobId ?_ heq.symm
  obtain ⟨other, hother, hid⟩ := mem_map.mp hbeside
  exact mem_map.mpr ⟨other, mem_flatMap.mpr ⟨lane, hlane, hother⟩, hid⟩

lemma jobId_ne_of_tail (h : SoundLanes (state :: states)) (hjob : job ∈ jobsOf states)
    (hdisp : dispatch ∈ state.dispatches) : dispatch.jobId ≠ job.id := by
  intro heq
  have hids := h.ids
  rw [jobsOf_cons, map_append] at hids
  have hbeside := h.beside state mem_cons_self dispatch hdisp (by
    rw [jobsOf_cons, map_append, heq]
    exact mem_append_right _ (mem_map_of_mem hjob))
  exact (nodup_append.mp hids).2.2 dispatch.jobId hbeside job.id (mem_map_of_mem hjob) heq

end SoundLanes

/-! ## Claiming -/

/-- What claiming leaves of a job as it is. -/
structure ClaimStep (job job' : AgentCronJob) : Prop where
  id : job'.id = job.id
  schedule : job'.schedule = job.schedule
  status : job'.status = job.status
  runCount : job'.runCount = job.runCount
  lastRunAt : job'.lastRunAt = job.lastRunAt
  lastError : job'.lastError = job.lastError
  spent : job.schedule.kind = .once → job.nextRunAt = none → job'.nextRunAt = none

/-- A due job that a dispatch is for: if it runs once, it never runs again. -/
structure Taken (dispatch : AgentCronDispatchRecord) (job job' : AgentCronJob) : Prop where
  jobId : dispatch.jobId = job.id
  active : job.status = .active
  due : job.nextRunAt ≠ none
  spent : job.schedule.kind = .once → job'.nextRunAt = none

/-- The jobs of lanes that are claimed, and the new dispatches; `n` names have been used. -/
structure ClaimedJobs (env : CronEnv) (n : ℕ) (claimedJobIds : List String)
    (jobs jobs' : List AgentCronJob) (new : List AgentCronDispatchRecord) : Prop where
  names : new.map AgentCronDispatchRecord.id = (range' n new.length).map env.randomUUID
  jobIds : new.map AgentCronDispatchRecord.jobId <+ jobs.map AgentCronJob.id
  unclaimed : ∀ dispatch ∈ new, dispatch.jobId ∉ claimedJobIds
  taken : ∀ dispatch ∈ new, ∃ job ∈ jobs, ∃ job' ∈ jobs', job'.id = job.id ∧ Taken dispatch job job'
  steps : Forall₂ ClaimStep jobs jobs'

namespace ClaimedJobs

variable {claimedJobIds claimedJobIds' : List String} {jobs jobs' jobs₁ jobs₁' : List AgentCronJob}
  {new new₁ : List AgentCronDispatchRecord}

protected lemma refl (jobs : List AgentCronJob) : ClaimedJobs env n claimedJobIds jobs jobs [] where
  names := rfl
  jobIds := nil_sublist _
  unclaimed _ h := by cases h
  taken _ h := by cases h
  steps := forall₂_same.mpr fun _ _ => ⟨rfl, rfl, rfl, rfl, rfl, rfl, fun _ h => h⟩

lemma append (h : ClaimedJobs env n claimedJobIds jobs jobs' new)
    (h₁ : ClaimedJobs env (n + new.length) claimedJobIds jobs₁ jobs₁' new₁) :
    ClaimedJobs env n claimedJobIds (jobs ++ jobs₁) (jobs' ++ jobs₁') (new ++ new₁) where
  names := by
    rw [map_append, h.names, h₁.names, length_append, ← map_append, range'_append_1]
  jobIds := by
    rw [map_append, map_append]
    exact h.jobIds.append h₁.jobIds
  unclaimed dispatch hmem := by
    rcases mem_append.mp hmem with hmem | hmem
    · exact h.unclaimed dispatch hmem
    · exact h₁.unclaimed dispatch hmem
  taken dispatch hmem := by
    rcases mem_append.mp hmem with hmem | hmem
    · obtain ⟨job, hjob, job', hjob', htaken⟩ := h.taken dispatch hmem
      exact ⟨job, mem_append_left _ hjob, job', mem_append_left _ hjob', htaken⟩
    · obtain ⟨job, hjob, job', hjob', htaken⟩ := h₁.taken dispatch hmem
      exact ⟨job, mem_append_right _ hjob, job', mem_append_right _ hjob', htaken⟩
  steps := rel_append h.steps h₁.steps

lemma mono (h : ClaimedJobs env n claimedJobIds jobs jobs' new)
    (hids : ∀ job ∈ jobs, job.id ∉ claimedJobIds → job.id ∉ claimedJobIds') :
    ClaimedJobs env n claimedJobIds' jobs jobs' new where
  names := h.names
  jobIds := h.jobIds
  unclaimed dispatch hmem := by
    obtain ⟨job, hjob, _, _, _, htaken⟩ := h.taken dispatch hmem
    rw [htaken.jobId]
    exact hids job hjob (htaken.jobId ▸ h.unclaimed dispatch hmem)
  taken := h.taken
  steps := h.steps

end ClaimedJobs

/-- A claimed job keeps all but its next run; one that runs once has none any more. -/
lemma advanceJob_claimStep {advanced : AgentCronJob}
    (h : advanceJob claimedAt env.zone job = .ok advanced) :
    ClaimStep job advanced ∧ (job.schedule.kind = .once → advanced.nextRunAt = none) := by
  obtain ⟨next, hnext, hjob⟩ := Except.of_bind h
  cases next with
  | none =>
    cases hjob
    exact ⟨⟨rfl, rfl, rfl, rfl, rfl, rfl, fun _ _ => rfl⟩, fun _ => rfl⟩
  | some date =>
    obtain ⟨nextRunAt, -, hjob⟩ := Except.of_bind hjob
    cases hjob
    have honce : job.schedule.kind ≠ .once := by
      intro honce
      rw [nextRunAtForSchedule, honce] at hnext
      cases hnext
    exact ⟨⟨rfl, rfl, rfl, rfl, rfl, rfl, fun h _ => absurd h honce⟩, fun h => absurd h honce⟩

lemma claimJobs_claimed {claimedJobIds : List String} {jobs : List AgentCronJob}
    {result : List AgentCronJob × List (AgentCronDispatchRecord × AgentCronDispatch)}
    (h : claimJobs env dueAt claimedAt claimedJobIds n jobs = .ok result) :
    ClaimedJobs env n claimedJobIds jobs result.1 (result.2.map Prod.fst) := by
  induction jobs generalizing n result with
  | nil =>
    cases h
    exact .refl []
  | cons job jobs ih =>
    rw [claimJobs] at h
    split at h
    next hdue =>
      obtain ⟨advanced, hadv, h⟩ := Except.of_bind h
      obtain ⟨hstep, hspent⟩ := advanceJob_claimStep hadv
      split at h
      · obtain ⟨rest, hrest, h⟩ := Except.of_bind h
        cases h
        have hskipped : ClaimStep job { advanced with lastSkippedAt := some claimedAt } :=
          ⟨hstep.id, hstep.schedule, hstep.status, hstep.runCount, hstep.lastRunAt,
            hstep.lastError, hstep.spent⟩
        have hone : ClaimedJobs env n claimedJobIds [job]
            [{ advanced with lastSkippedAt := some claimedAt }] [] :=
          ⟨rfl, nil_sublist _, by simp, by simp, .cons hskipped .nil⟩
        exact hone.append (ih hrest)
      next hclaimed =>
        obtain ⟨rest, hrest, h⟩ := Except.of_bind h
        cases h
        rw [AgentCronJob.isDueJob, Bool.and_eq_true, decide_eq_true_iff] at hdue
        have hnext : job.nextRunAt ≠ none := by
          intro hnone
          rw [hnone] at hdue
          cases hdue.2
        have hone : ClaimedJobs env n claimedJobIds [job] [advanced]
            [{ id := env.randomUUID n, jobId := job.id, claimedAt,
               scheduledFor := job.nextRunAt.getD 0 }] := by
          refine ⟨rfl, Sublist.refl _, ?_, ?_, .cons hstep .nil⟩
          · simpa using hclaimed
          · intro dispatch hmem
            rw [mem_singleton.mp hmem]
            exact ⟨job, mem_singleton_self _, advanced, mem_singleton_self _, hstep.id,
              ⟨rfl, hdue.1, hnext, hspent⟩⟩
        exact hone.append (ih hrest)
    · obtain ⟨rest, hrest, h⟩ := Except.of_bind h
      cases h
      exact (ClaimedJobs.refl [job]).append (ih hrest)

/-- A lane that is claimed. -/
structure LaneClaimed (env : CronEnv) (n : ℕ) (state state' : CronJobsState)
    (new : List AgentCronDispatchRecord) : Prop where
  dispatches : state'.dispatches = state.dispatches ++ new
  jobs : ClaimedJobs env n (state.dispatches.map AgentCronDispatchRecord.jobId) state.jobs
    state'.jobs new

lemma claimDueInState_claimed {dispatches : List AgentCronDispatch}
    (h : claimDueInState env dueAt claimedAt n state = .ok (state', dispatches)) :
    ∃ new, new.length = dispatches.length ∧ LaneClaimed env n state state' new := by
  obtain ⟨result, hclaim, hstate⟩ := Except.of_bind h
  cases hstate
  exact ⟨result.2.map Prod.fst, by simp, rfl, claimJobs_claimed hclaim⟩

/-- The lanes claimed up to the last, to one where it throws, or to where the process dies. -/
inductive ClaimedLanes (env : CronEnv) : ℕ → List CronJobsState → List CronJobsState →
    List AgentCronDispatchRecord → Prop
  | stop (n : ℕ) (states : List CronJobsState) : ClaimedLanes env n states states []
  | lane {n : ℕ} {state state' : CronJobsState} {states states' : List CronJobsState}
      {new new' : List AgentCronDispatchRecord} : LaneClaimed env n state state' new →
      ClaimedLanes env (n + new.length) states states' new' →
      ClaimedLanes env n (state :: states) (state' :: states') (new ++ new')

lemma claimStates_claimed :
    ∃ new, ClaimedLanes env n states (claimStates env dueAt claimedAt n states).1 new := by
  induction states generalizing n with
  | nil => exact ⟨[], .stop n []⟩
  | cons state states ih =>
    rw [claimStates]
    split
    · exact ⟨[], .stop n (state :: states)⟩
    next state' dispatches hclaim =>
      obtain ⟨new, hlen, hlane⟩ := claimDueInState_claimed hclaim
      obtain ⟨new', hlanes⟩ := @ih (n + dispatches.length)
      exact ⟨new ++ new', .lane hlane (hlen ▸ hlanes)⟩

namespace ClaimedLanes

variable {new : List AgentCronDispatchRecord}

section
variable (h : ClaimedLanes env n states states' new)
include h

lemma cutOff (written : ℕ) :
    ∃ new', ClaimedLanes env n states (states'.take written ++ states.drop written) new' := by
  induction h generalizing written with
  | stop n states => exact ⟨[], by rw [take_append_drop]; exact .stop n states⟩
  | @lane n state _ states _ _ _ hlane _ ih =>
    cases written with
    | zero => exact ⟨[], .stop n (state :: states)⟩
    | succ written =>
      obtain ⟨new', hlanes⟩ := ih written
      exact ⟨_, .lane hlane hlanes⟩

/-- Claiming lane by lane is claiming all the jobs. -/
lemma claimedJobs (hsound : SoundLanes states) :
    ClaimedJobs env n ((dispatchesOf states).map AgentCronDispatchRecord.jobId) (jobsOf states)
      (jobsOf states') new := by
  induction h with
  | stop n states => exact .refl _
  | @lane n state _ states _ _ _ hlane _ ih =>
    have hhead : ∀ job ∈ state.jobs, job.id ∉ state.dispatches.map AgentCronDispatchRecord.jobId →
          job.id ∉ (dispatchesOf (state :: states)).map AgentCronDispatchRecord.jobId := by
      intro job hjob hnot hmem
      rw [dispatchesOf_cons, map_append] at hmem
      obtain ⟨dispatch, hdisp, hid⟩ := mem_map.mp ((mem_append.mp hmem).resolve_left hnot)
      exact hsound.jobId_ne_of_head hjob hdisp hid
    have htail : ∀ job ∈ jobsOf states,
        job.id ∉ (dispatchesOf states).map AgentCronDispatchRecord.jobId →
          job.id ∉ (dispatchesOf (state :: states)).map AgentCronDispatchRecord.jobId := by
      intro job hjob hnot hmem
      rw [dispatchesOf_cons, map_append] at hmem
      obtain ⟨dispatch, hdisp, hid⟩ := mem_map.mp ((mem_append.mp hmem).resolve_right hnot)
      exact hsound.jobId_ne_of_tail hjob hdisp hid
    exact (hlane.jobs.mono hhead).append ((ih hsound.tail).mono htail)

lemma perm : (dispatchesOf states').Perm (dispatchesOf states ++ new) := by
  induction h with
  | stop n states => rw [append_nil]
  | @lane n state state' states states' new new' hlane _ ih =>
    rw [dispatchesOf_cons, dispatchesOf_cons, hlane.dispatches]
    calc state.dispatches ++ new ++ dispatchesOf states'
      _ ~ state.dispatches ++ new ++ (dispatchesOf states ++ new') := ih.append_left _
      _ ~ state.dispatches ++ dispatchesOf states ++ (new ++ new') := by
        simp only [append_assoc]
        refine Perm.append_left _ ?_
        rw [← append_assoc, ← append_assoc]
        exact perm_append_comm.append_right _

/-- The new dispatches are told apart from the old ones. -/
lemma filter_eq {isNew : AgentCronDispatchRecord → Bool}
    (hold : ∀ r ∈ dispatchesOf states, isNew r = false) (hnew : ∀ r ∈ new, isNew r = true) :
    (dispatchesOf states').filter isNew = new := by
  induction h with
  | stop n states => exact filter_eq_nil_iff.mpr fun r hr => by simp [hold r hr]
  | lane hlane _ ih =>
    simp only [dispatchesOf_cons, forall_mem_append] at hold hnew
    rw [dispatchesOf_cons, hlane.dispatches, filter_append, filter_append, ih hold.2 hnew.2,
      filter_eq_self.mpr hnew.1, filter_eq_nil_iff.mpr fun r hr => by simp [hold.1 r hr],
      nil_append]

end

end ClaimedLanes

/-! ## Resolving -/

/-- What becomes of an active job whose dispatch is over. -/
structure Settles (job job' : AgentCronJob) : Prop where
  id : job'.id = job.id
  schedule : job'.schedule = job.schedule
  status : job'.status = if job.schedule.kind = .once then .completed else job.status
  runCount : job'.runCount ≤ job.runCount + 1

/-- The active jobs of the dispatches gone are settled, the others stay as they are. -/
structure ResolvedAs (gone : List AgentCronDispatchRecord) (job job' : AgentCronJob) : Prop where
  settled : job.id ∈ gone.map AgentCronDispatchRecord.jobId → job.status = .active →
    Settles job job'
  kept : ¬(job.id ∈ gone.map AgentCronDispatchRecord.jobId ∧ job.status = .active) → job' = job

variable {gone : List AgentCronDispatchRecord} {job' : AgentCronJob}

lemma ResolvedAs.congr {gone' : List AgentCronDispatchRecord}
    (h : ResolvedAs gone job job')
    (hiff : job.id ∈ gone'.map AgentCronDispatchRecord.jobId ↔
      job.id ∈ gone.map AgentCronDispatchRecord.jobId) :
    ResolvedAs gone' job job' where
  settled := by
    rw [hiff]
    exact h.settled
  kept := by
    rw [hiff]
    exact h.kept

/-- The dispatches that go out. -/
def goneFrom (before after : List AgentCronDispatchRecord) : List AgentCronDispatchRecord :=
  before.filter (· ∉ after)

structure LaneResolved (state state' : CronJobsState) : Prop where
  dispatches : state'.dispatches <+ state.dispatches
  jobs : Forall₂ (ResolvedAs (goneFrom state.dispatches state'.dispatches)) state.jobs state'.jobs

variable {before after : List AgentCronDispatchRecord}

lemma mem_goneFrom : dispatch ∈ goneFrom before after ↔ dispatch ∈ before ∧ dispatch ∉ after := by
  simp [goneFrom]

lemma goneFrom_self (dispatches : List AgentCronDispatchRecord) :
    goneFrom dispatches dispatches = [] := by
  simp [goneFrom]

lemma goneFrom_append {before' after' : List AgentCronDispatchRecord} (h : after ⊆ before)
    (h' : after' ⊆ before') (hdisj : ∀ r ∈ before, ∀ r' ∈ before', r ≠ r') :
    goneFrom (before ++ before') (after ++ after') =
      goneFrom before after ++ goneFrom before' after' := by
  rw [goneFrom, filter_append]
  congr 1
  · refine filter_congr fun r hr => ?_
    have hnot : r ∉ after' := fun hmem => hdisj r hr r (h' hmem) rfl
    simp [hnot]
  · refine filter_congr fun r hr => ?_
    have hnot : r ∉ after := fun hmem => hdisj r (h hmem) r hr rfl
    simp [hnot]

lemma goneFrom_of_subset (h : before ⊆ after) : goneFrom before after = [] :=
  filter_eq_nil_iff.mpr fun r hr => by simp [h hr]

/-- What has not gone is still there. -/
lemma perm_append_goneFrom (h : after <+ before) (hnodup : before.Nodup) :
    before.Perm (after ++ goneFrom before after) := by
  have hstay : (before.filter (· ∈ after)).Perm after := by
    refine (perm_ext_iff_of_nodup (hnodup.filter _) (hnodup.sublist h)).mpr fun r => ?_
    simp only [mem_filter, decide_eq_true_eq]
    exact ⟨And.right, fun hr => ⟨h.subset hr, hr⟩⟩
  have hsplit := filter_append_perm (fun r => decide (r ∈ after)) before
  refine hsplit.symm.trans (Perm.trans ?_ (hstay.append_right _))
  simp [goneFrom]

lemma LaneResolved.refl (state : CronJobsState) : LaneResolved state state where
  dispatches := Sublist.refl _
  jobs := by
    rw [goneFrom_self]
    exact forall₂_same.mpr fun job _ => ⟨by simp, fun _ => rfl⟩

variable {error : Option String}

lemma recordResult_settles {outcome : AgentCronJobRunResult}
    (h : recordResult env outcome error job = .ok job') :
    Settles job job' := by
  simp only [recordResult] at h
  split at h
  · obtain ⟨nextRunAt, -, hjob⟩ := Except.of_bind h
    cases hjob
    exact ⟨rfl, rfl, rfl, Nat.le_succ _⟩
  · cases h
    exact ⟨rfl, rfl, rfl, le_rfl⟩

lemma recordDispatchInState_resolved {dispatchId : String} {outcome : AgentCronJobRunResult}
    (hnames : (state.dispatches.map AgentCronDispatchRecord.id).Nodup)
    (h : recordDispatchInState env dispatchId outcome error state = .ok state') :
    LaneResolved state state' := by
  rw [recordDispatchInState] at h
  split at h
  · cases h
    exact .refl state
  next dispatch hfind =>
    obtain ⟨jobs, hjobs, hstate⟩ := Except.of_bind h
    cases hstate
    have hmem := mem_of_find?_eq_some hfind
    have hid : dispatch.id = dispatchId := by simpa using find?_some hfind
    have hgone : ∀ r, r ∈ goneFrom state.dispatches (state.dispatches.filter fun candidate =>
        candidate.id ≠ dispatchId) ↔ r = dispatch := by
      intro r
      rw [mem_goneFrom]
      constructor
      · rintro ⟨hr, hout⟩
        have hrid : r.id = dispatchId := by simpa [hr] using hout
        exact inj_on_of_nodup_map hnames hr hmem (hrid.trans hid.symm)
      · rintro rfl
        exact ⟨hmem, by simp [hid]⟩
    refine ⟨filter_sublist, (Except.mapM_eq_ok_iff.mp hjobs).imp ?_⟩
    intro job job' hjob
    have hiff : job.id ∈ (goneFrom state.dispatches (state.dispatches.filter fun candidate =>
        candidate.id ≠ dispatchId)).map AgentCronDispatchRecord.jobId ↔
      job.id = dispatch.jobId := by
      rw [mem_map]
      constructor
      · rintro ⟨r, hr, hjobId⟩
        rw [(hgone r).mp hr] at hjobId
        exact hjobId.symm
      · intro hjobId
        exact ⟨dispatch, (hgone dispatch).mpr rfl, hjobId.symm⟩
    split_ifs at hjob with hdue
    · exact ⟨fun _ _ => recordResult_settles hjob, fun h => absurd (hdue.imp_left hiff.mpr) h⟩
    · exact ⟨fun h hactive => absurd ⟨hiff.mp h, hactive⟩ hdue, fun _ => (Except.ok.inj hjob).symm⟩

lemma recoverInterruptedInState_resolved {dispatchIds : Option (List String)} :
    LaneResolved state (recoverInterruptedInState env dispatchIds state) where
  dispatches := filter_sublist
  jobs := by
    have hgone : ∀ r, r ∈ goneFrom state.dispatches
        (recoverInterruptedInState env dispatchIds state).dispatches ↔
          r ∈ state.dispatches.filter fun dispatch =>
            dispatchIds.all fun ids => ids.contains dispatch.id := by
      intro r
      simp only [mem_goneFrom, recoverInterruptedInState, mem_filter, Bool.not_eq_true', not_and,
        Bool.not_eq_false]
      exact and_congr_right fun hr => by simp [hr]
    rw [recoverInterruptedInState, forall₂_map_right_iff]
    refine forall₂_same.mpr fun job _ => ?_
    have hiff : job.id ∈ (goneFrom state.dispatches
        (recoverInterruptedInState env dispatchIds state).dispatches).map
          AgentCronDispatchRecord.jobId ↔
        ((state.dispatches.filter fun dispatch => dispatchIds.all fun ids =>
          ids.contains dispatch.id).map AgentCronDispatchRecord.jobId).contains job.id = true := by
      rw [contains_iff_mem]
      simp only [mem_map, hgone]
    split_ifs with hdue
    · refine ⟨fun _ _ => ⟨rfl, rfl, rfl, Nat.le_succ _⟩, fun h => absurd (hdue.imp_left hiff.mpr) h⟩
    · exact ⟨fun h hactive => absurd ⟨hiff.mp h, hactive⟩ hdue, fun _ => rfl⟩

/-! ## All the lanes -/

/-- Resolving lane by lane is resolving all the dispatches gone. -/
lemma resolvedAs_of_lanes (h : Forall₂ LaneResolved states states') (hsound : SoundLanes states) :
    dispatchesOf states' <+ dispatchesOf states ∧
      Forall₂ (ResolvedAs (goneFrom (dispatchesOf states) (dispatchesOf states'))) (jobsOf states)
        (jobsOf states') := by
  induction h with
  | nil => exact ⟨Sublist.refl _, .nil⟩
  | @cons state state' states states' hlane hrest ih =>
    obtain ⟨hsub, hjobs⟩ := ih hsound.tail
    have hnodup := hsound.names.of_map
    rw [dispatchesOf_cons, nodup_append] at hnodup
    have hgone : ∀ id, id ∈ (goneFrom (dispatchesOf (state :: states))
        (dispatchesOf (state' :: states'))).map AgentCronDispatchRecord.jobId ↔
          id ∈ (goneFrom state.dispatches state'.dispatches).map AgentCronDispatchRecord.jobId ∨
          id ∈ (goneFrom (dispatchesOf states) (dispatchesOf states')).map
            AgentCronDispatchRecord.jobId := by
      intro id
      rw [dispatchesOf_cons, dispatchesOf_cons,
        goneFrom_append hlane.dispatches.subset hsub.subset hnodup.2.2, map_append, mem_append]
    refine ⟨hlane.dispatches.append hsub, rel_append ?_ ?_⟩
    · have hjobs' := (forall₂_and_left (p := (· ∈ state.jobs)) _ _).mpr
        ⟨fun _ hjob => hjob, hlane.jobs⟩
      refine hjobs'.imp ?_
      rintro job job' ⟨hjob, hres⟩
      refine hres.congr ((hgone job.id).trans (or_iff_left ?_))
      rw [mem_map]
      rintro ⟨r, hr, hid⟩
      exact hsound.jobId_ne_of_head hjob (mem_goneFrom.mp hr).1 hid
    · have hjobs' := (forall₂_and_left (p := (· ∈ jobsOf states)) _ _).mpr
        ⟨fun _ hjob => hjob, hjobs⟩
      refine hjobs'.imp ?_
      rintro job job' ⟨hjob, hres⟩
      refine hres.congr ((hgone job.id).trans (or_iff_right ?_))
      rw [mem_map]
      rintro ⟨r, hr, hid⟩
      exact hsound.jobId_ne_of_tail hjob (mem_goneFrom.mp hr).1 hid

/-! ## Sound lanes stay sound -/

/-- A lane keeps the ids of its jobs, and gets dispatches for them only. -/
structure LaneKept (state state' : CronJobsState) : Prop where
  ids : state'.jobs.map AgentCronJob.id = state.jobs.map AgentCronJob.id
  dispatches : ∀ dispatch ∈ state'.dispatches,
    dispatch ∈ state.dispatches ∨ dispatch.jobId ∈ state.jobs.map AgentCronJob.id

lemma LaneResolved.kept (h : LaneResolved state state') : LaneKept state state' where
  ids := by
    refine map_id_eq (h.jobs.imp fun job job' hjob => ?_)
    by_cases hdue : job.id ∈ (goneFrom state.dispatches state'.dispatches).map
        AgentCronDispatchRecord.jobId ∧ job.status = .active
    · exact (hjob.settled hdue.1 hdue.2).id
    · rw [hjob.kept hdue]
  dispatches _ hmem := .inl (h.dispatches.subset hmem)

variable {new : List AgentCronDispatchRecord}

lemma LaneClaimed.kept (h : LaneClaimed env n state state' new) : LaneKept state state' where
  ids := map_id_eq (h.jobs.steps.imp fun _ _ hstep => hstep.id)
  dispatches dispatch hmem := by
    rw [h.dispatches] at hmem
    exact (mem_append.mp hmem).imp_right fun hnew => h.jobs.jobIds.subset (mem_map_of_mem hnew)

lemma ClaimedLanes.kept (h : ClaimedLanes env n states states' new) :
    Forall₂ LaneKept states states' := by
  induction h with
  | stop n states => exact forall₂_same.mpr fun _ _ => ⟨rfl, fun _ hmem => .inl hmem⟩
  | lane hlane _ ih => exact .cons hlane.kept ih

lemma jobsOf_ids (h : Forall₂ LaneKept states states') :
    (jobsOf states').map AgentCronJob.id = (jobsOf states).map AgentCronJob.id := by
  induction h with
  | nil => rfl
  | cons hlane _ ih =>
    rw [jobsOf_cons, jobsOf_cons, map_append, map_append, hlane.ids, ih]

lemma beside_of_kept (hsound : SoundLanes states) (h : Forall₂ LaneKept states states') :
    ∀ state ∈ states', ∀ dispatch ∈ state.dispatches,
      dispatch.jobId ∈ (jobsOf states').map AgentCronJob.id →
        dispatch.jobId ∈ state.jobs.map AgentCronJob.id := by
  intro state' hstate' dispatch hdisp hjob
  obtain ⟨state, hstate, hlane⟩ := exists_of_mem_forall₂ h hstate'
  rw [jobsOf_ids h] at hjob
  rw [hlane.ids]
  rcases hlane.dispatches dispatch hdisp with hold | hnew
  · exact hsound.beside state hstate dispatch hold hjob
  · exact hnew

/-! ## Observing a store -/

namespace LockedOp

def isClaim : LockedOp → Bool
  | claimDue _ => true
  | _ => false

/-- The store a process leaves that dies when it has written this many lanes. -/
def cutOff (op : LockedOp) (env : CronEnv) (store : CronStore) (written : ℕ) : CronStore :=
  store.withStates ((op.apply env store).states.take written ++ store.states.drop written)

/-- The store an operation leaves; `written` tells where its process dies, if it does. -/
def outcome (op : LockedOp) (env : CronEnv) (store : CronStore) (written : Option ℕ) : CronStore :=
  match written with
  | none => op.apply env store
  | some written => op.cutOff env store written

end LockedOp

/-- A store with every dispatch ever claimed, the ones that have been resolved, and the updates of
jobs made for them: a dispatch's id, and its job's. -/
structure DispatchSystem where
  store : CronStore
  claimed : List AgentCronDispatchRecord
  resolved : List AgentCronDispatchRecord
  updates : List (String × String)

structure DispatchLabel where
  op : LockedOp
  env : CronEnv
  written : Option ℕ

namespace DispatchSystem

/-- The jobs that have changed, of dispatches that have gone. -/
def updatesFor (gone : List AgentCronDispatchRecord) (before after : List AgentCronJob) :
    List (String × String) :=
  gone.flatMap fun dispatch =>
    (before.filter fun job => job.id = dispatch.jobId ∧ job ∉ after).map fun job =>
      (dispatch.id, job.id)

/-- What is observed when the store changes. -/
def observe (s : DispatchSystem) (store : CronStore) : DispatchSystem where
  store
  claimed := s.claimed ++ goneFrom store.dispatches s.store.dispatches
  resolved := s.resolved ++ goneFrom s.store.dispatches store.dispatches
  updates := s.updates ++
    updatesFor (goneFrom s.store.dispatches store.dispatches) s.store.readJobs store.readJobs

def perform (s : DispatchSystem) (label : DispatchLabel) : DispatchSystem :=
  s.observe (label.op.outcome label.env s.store label.written)

/-- No id that `randomUUID` gives has been given before. -/
def machine : Machine DispatchSystem DispatchLabel where
  step s label s' :=
    Function.Injective label.env.randomUUID ∧
      (∀ n, label.env.randomUUID n ∉ s.claimed.map AgentCronDispatchRecord.id) ∧
      s' = s.perform label

/-- A store as it is found, its outstanding dispatches included. -/
structure Initial (s : DispatchSystem) : Prop where
  sound : SoundLanes s.store.states
  claimed : s.claimed = s.store.dispatches
  resolved : s.resolved = []
  updates : s.updates = []

end DispatchSystem

/-! ## What a step does to the lanes -/

section Steps

variable {store : CronStore} {op : LockedOp} {written : Option ℕ}

lemma claimDue_claimed (dueAt : ℤ) : ∃ new, ClaimedLanes env 0 store.states
      ((LockedOp.claimDue dueAt).outcome env store written).states new := by
  obtain ⟨new, hlanes⟩ := @claimStates_claimed env dueAt env.now 0 store.states
  have hstates : ((LockedOp.claimDue dueAt).apply env store).states =
      (claimStates env dueAt env.now 0 store.states).1 :=
    CronStore.states_withStates hlanes.kept.length_eq.symm
  cases written with
  | none =>
    rw [LockedOp.outcome, hstates]
    exact ⟨new, hlanes⟩
  | some written =>
    obtain ⟨new', hcut⟩ := hlanes.cutOff written
    refine ⟨new', ?_⟩
    rw [LockedOp.outcome, LockedOp.cutOff, hstates,
      CronStore.states_withStates hcut.kept.length_eq.symm]
    exact hcut

lemma mutateStates_resolved {mutator : CronJobsState → Except String CronJobsState}
    (hmutator : ∀ state ∈ states, ∀ state', mutator state = .ok state' →
      LaneResolved state state') : Forall₂ LaneResolved states (mutateStates mutator states).1 := by
  induction states with
  | nil => exact .nil
  | cons state states ih =>
    rw [mutateStates]
    split
    · exact forall₂_same.mpr fun state _ => .refl state
    next hstate =>
      exact .cons (hmutator _ mem_cons_self _ hstate)
        (ih fun state hmem => hmutator state (mem_cons_of_mem _ hmem))

lemma apply_resolved (hsound : SoundLanes store.states) (hop : op.isClaim = false) :
    Forall₂ LaneResolved store.states (op.apply env store).states := by
  have hstates {states : List CronJobsState} (h : Forall₂ LaneResolved store.states states) :
      Forall₂ LaneResolved store.states (store.withStates states).states := by
    rwa [CronStore.states_withStates h.length_eq.symm]
  cases op with
  | claimDue dueAt => cases hop
  | recordDispatchResult dispatchId outcome error =>
    refine hstates (mutateStates_resolved fun state hstate state' => ?_)
    exact recordDispatchInState_resolved (hsound.names_of_mem hstate)
  | recoverInterruptedDispatches | recoverInterruptedDispatchesById dispatchIds =>
    exact hstates (mutateStates_resolved fun _ _ _ h =>
      Except.ok.inj h ▸ recoverInterruptedInState_resolved)
  | recoverSessionArtifact sessionId =>
    cases store with
    | file state => exact .cons (.refl state) .nil
    | artifacts lanes =>
      rw [LockedOp.apply, CronStore.states, CronStore.states, CronStore.states_mapLanes,
        JsMap.values, forall₂_map_left_iff, forall₂_map_right_iff]
      refine forall₂_same.mpr fun lane _ => ?_
      split_ifs
      · exact recoverInterruptedInState_resolved
      · exact .refl lane.2

lemma outcome_resolved (hsound : SoundLanes store.states) (hop : op.isClaim = false) :
    Forall₂ LaneResolved store.states (op.outcome env store written).states := by
  have hall := @apply_resolved env store op hsound hop
  cases written with
  | none => exact hall
  | some written =>
    have hcut : Forall₂ LaneResolved store.states
        ((op.apply env store).states.take written ++ store.states.drop written) := by
      have hrest : Forall₂ LaneResolved (store.states.drop written) (store.states.drop written) :=
        forall₂_same.mpr fun state _ => .refl state
      have happend : Forall₂ LaneResolved (store.states.take written ++ store.states.drop written)
          ((op.apply env store).states.take written ++ store.states.drop written) :=
        rel_append (forall₂_take written hall) hrest
      rwa [take_append_drop] at happend
    rw [LockedOp.outcome, LockedOp.cutOff, CronStore.states_withStates hcut.length_eq.symm]
    exact hcut

end Steps

/-! ## Runs -/

namespace DispatchSystem

variable {s s' : DispatchSystem} {label : DispatchLabel}

/-- A job's dispatches, in what was ever claimed. -/
def dispatchCount (s : DispatchSystem) (id : String) : ℕ :=
  (s.claimed.map AgentCronDispatchRecord.jobId).count id

/-- One outstanding dispatch a job; a job that runs once is dispatched once at most; what has been
claimed is outstanding or has been resolved, once; and it has led to one update at most, of its own
job. -/
structure Disciplined (s : DispatchSystem) : Prop where
  outstanding : (s.store.dispatches.map AgentCronDispatchRecord.jobId).Nodup
  once : ∀ job ∈ s.store.readJobs, job.schedule.kind = .once → s.dispatchCount job.id ≤ 1
  lifecycle : s.claimed.Perm (s.store.dispatches ++ s.resolved)
  names : (s.claimed.map AgentCronDispatchRecord.id).Nodup
  updates : (s.updates.map Prod.fst).Nodup
  updated : ∀ update ∈ s.updates, ∃ dispatch ∈ s.resolved, update = (dispatch.id, dispatch.jobId)

/-- A job has its dispatch resolved in a step, or keeps its results; only claiming may change it
then. -/
def Attributed (op : LockedOp) (s s' : DispatchSystem) : Prop :=
  Forall₂ (fun job job' : AgentCronJob => job'.id = job.id ∧
    ((∃ dispatch ∈ s.store.dispatches, dispatch ∉ s'.store.dispatches ∧
        dispatch.jobId = job.id ∧ job'.runCount ≤ job.runCount + 1) ∨
      (job'.runCount = job.runCount ∧ job'.lastRunAt = job.lastRunAt ∧
        job'.lastError = job.lastError ∧ (op.isClaim = false → job' = job))))
    s.store.readJobs s'.store.readJobs

/-- A job that will not be claimed as long as it has no dispatch outstanding. -/
def Spent (s : DispatchSystem) (job : AgentCronJob) : Prop :=
  job.nextRunAt = none ∨ job.status ≠ .active ∨
    job.id ∈ s.store.dispatches.map AgentCronDispatchRecord.jobId

structure Kept (s : DispatchSystem) : Prop where
  sound : SoundLanes s.store.states
  lifecycle : s.claimed.Perm (s.store.dispatches ++ s.resolved)
  names : (s.claimed.map AgentCronDispatchRecord.id).Nodup
  once : ∀ job ∈ s.store.readJobs, job.schedule.kind = .once → s.dispatchCount job.id ≤ 1 ∧
    (job.id ∈ s.claimed.map AgentCronDispatchRecord.jobId → s.Spent job)
  updates : s.updates.map Prod.fst <+ s.resolved.map AgentCronDispatchRecord.id
  updated : ∀ update ∈ s.updates, ∃ dispatch ∈ s.resolved, update = (dispatch.id, dispatch.jobId)

/-- The part of it that holds whoever writes the jobs. -/
structure Recorded (s : DispatchSystem) : Prop where
  sound : SoundLanes s.store.states
  lifecycle : s.claimed.Perm (s.store.dispatches ++ s.resolved)
  names : (s.claimed.map AgentCronDispatchRecord.id).Nodup

lemma Kept.recorded (h : s.Kept) : s.Recorded := ⟨h.sound, h.lifecycle, h.names⟩

lemma Initial.kept (h : s.Initial) : s.Kept where
  sound := h.sound
  lifecycle := by rw [h.claimed, h.resolved, append_nil]
  names := h.claimed ▸ h.sound.names
  once job _ _ := by
    refine ⟨?_, fun hclaimed => .inr (.inr (h.claimed ▸ hclaimed))⟩
    rw [dispatchCount, h.claimed]
    exact nodup_iff_count_le_one.mp h.sound.one job.id
  updates := by rw [h.updates]; exact nil_sublist _
  updated := by simp [h.updates]

lemma Kept.disciplined (h : s.Kept) : s.Disciplined where
  outstanding := h.sound.one
  once job hjob honce := (h.once job hjob honce).1
  lifecycle := h.lifecycle
  names := h.names
  updates := by
    have hnames := (h.lifecycle.map AgentCronDispatchRecord.id).nodup_iff.mp h.names
    rw [map_append] at hnames
    exact hnames.of_append_right.sublist h.updates
  updated := h.updated

variable {store' : CronStore}

namespace Recorded

lemma id_mem_claimed (h : s.Recorded) (hdisp : dispatch ∈ s.store.dispatches) :
    dispatch.id ∈ s.claimed.map AgentCronDispatchRecord.id :=
  mem_map_of_mem (h.lifecycle.mem_iff.mpr (mem_append_left _ hdisp))

section Claim

variable {new : List AgentCronDispatchRecord} {store' : CronStore}

section
variable (h : s.Recorded) (hlanes : ClaimedLanes env 0 s.store.states store'.states new)
  (hfresh : ∀ n, env.randomUUID n ∉ s.claimed.map AgentCronDispatchRecord.id)
include h hlanes hfresh

lemma id_notMem_of_new : ∀ r ∈ new, r.id ∉ s.claimed.map AgentCronDispatchRecord.id := by
  intro r hr
  have hname := mem_map_of_mem (f := AgentCronDispatchRecord.id) hr
  rw [(hlanes.claimedJobs h.sound).names] at hname
  obtain ⟨m, -, hm⟩ := mem_map.mp hname
  rw [← hm]
  exact hfresh m

/-- What is seen to come into the store is what has been claimed, in the order of the claims. -/
lemma came_eq : goneFrom store'.dispatches s.store.dispatches = new := by
  refine hlanes.filter_eq (fun r hr => ?_) fun r hr => ?_
  · have hr : r ∈ s.store.dispatches := hr
    simp [hr]
  · have hnot : r ∉ s.store.dispatches :=
      fun hmem => h.id_notMem_of_new hlanes hfresh r hr (h.id_mem_claimed hmem)
    simp [hnot]

end

lemma gone_eq_nil (hlanes : ClaimedLanes env 0 s.store.states store'.states new) :
    goneFrom s.store.dispatches store'.dispatches = [] :=
  goneFrom_of_subset fun _ hr => hlanes.perm.mem_iff.mpr (mem_append_left _ hr)

/-- A step that claims. -/
lemma claim (h : s.Recorded) (hlanes : ClaimedLanes env 0 s.store.states store'.states new)
    (hinj : Function.Injective env.randomUUID)
    (hfresh : ∀ n, env.randomUUID n ∉ s.claimed.map AgentCronDispatchRecord.id) :
    (s.observe store').Recorded := by
  have hjobs := hlanes.claimedJobs h.sound
  have hperm : store'.dispatches.Perm (s.store.dispatches ++ new) := hlanes.perm
  have hnewName := h.id_notMem_of_new hlanes hfresh
  have hnewNames : (new.map AgentCronDispatchRecord.id).Nodup := by
    rw [hjobs.names]
    exact (nodup_range' ..).map hinj
  have hdisj : ∀ r ∈ new,
      r.jobId ∉ s.store.dispatches.map AgentCronDispatchRecord.jobId := hjobs.unclaimed
  exact {
    sound := {
      ids := by
        rw [observe, jobsOf_ids hlanes.kept]
        exact h.sound.ids
      names := by
        refine (hperm.map AgentCronDispatchRecord.id).nodup_iff.mpr ?_
        rw [map_append, nodup_append]
        refine ⟨h.sound.names, hnewNames, ?_⟩
        intro name hname name' hname' heq
        obtain ⟨r, hr, rfl⟩ := mem_map.mp hname
        obtain ⟨r', hr', rfl⟩ := mem_map.mp hname'
        exact hnewName r' hr' (heq ▸ h.id_mem_claimed hr)
      one := by
        refine (hperm.map AgentCronDispatchRecord.jobId).nodup_iff.mpr ?_
        rw [map_append, nodup_append]
        refine ⟨h.sound.one, h.sound.ids.sublist hjobs.jobIds, ?_⟩
        intro id hid id' hid' heq
        obtain ⟨r, hr, rfl⟩ := mem_map.mp hid'
        exact hdisj r hr (heq ▸ hid)
      beside := beside_of_kept h.sound hlanes.kept }
    lifecycle := by
      rw [observe, gone_eq_nil hlanes, append_nil, h.came_eq hlanes hfresh]
      calc s.claimed ++ new
        _ ~ s.store.dispatches ++ s.resolved ++ new := h.lifecycle.append_right _
        _ ~ s.store.dispatches ++ new ++ s.resolved := by
          rw [append_assoc, append_assoc]
          exact perm_append_comm.append_left _
        _ ~ store'.dispatches ++ s.resolved := hperm.symm.append_right _
    names := by
      rw [observe, h.came_eq hlanes hfresh, map_append, nodup_append]
      refine ⟨h.names, hnewNames, ?_⟩
      intro name hname name' hname' heq
      obtain ⟨r, hr, rfl⟩ := mem_map.mp hname'
      exact hnewName r hr (heq ▸ hname) }

end Claim

/-- What is seen to go has been outstanding. -/
lemma perm_gone (h : s.Recorded) (hlanes : Forall₂ LaneResolved s.store.states store'.states) :
    s.store.dispatches.Perm
      (store'.dispatches ++ goneFrom s.store.dispatches store'.dispatches) :=
  perm_append_goneFrom (resolvedAs_of_lanes hlanes h.sound).1 h.sound.names.of_map

/-- A step that resolves. -/
lemma resolve (h : s.Recorded) (hlanes : Forall₂ LaneResolved s.store.states store'.states) :
    (s.observe store').Recorded := by
  obtain ⟨hsub, hjobs⟩ := resolvedAs_of_lanes hlanes h.sound
  have hsub : store'.dispatches <+ s.store.dispatches := hsub
  have hkept : Forall₂ LaneKept s.store.states store'.states :=
    hlanes.imp fun _ _ hlane => hlane.kept
  have hcame : goneFrom store'.dispatches s.store.dispatches = [] := goneFrom_of_subset hsub.subset
  exact {
    sound := {
      ids := by
        rw [observe, jobsOf_ids hkept]
        exact h.sound.ids
      names := h.sound.names.sublist (hsub.map _)
      one := h.sound.one.sublist (hsub.map _)
      beside := beside_of_kept h.sound hkept }
    lifecycle := by
      rw [observe, hcame, append_nil]
      calc s.claimed
        _ ~ s.store.dispatches ++ s.resolved := h.lifecycle
        _ ~ store'.dispatches ++ goneFrom s.store.dispatches store'.dispatches ++ s.resolved :=
          (h.perm_gone hlanes).append_right _
        _ ~ store'.dispatches ++ (s.resolved ++ goneFrom s.store.dispatches store'.dispatches) := by
          rw [append_assoc]
          exact perm_append_comm.append_left _
    names := by
      rw [observe, hcame, append_nil]
      exact h.names }

end Recorded

/-- A step that claims. -/
lemma Kept.claim (h : s.Kept) (hlanes : ClaimedLanes env 0 s.store.states store'.states new)
    (hinj : Function.Injective env.randomUUID)
    (hfresh : ∀ n, env.randomUUID n ∉ s.claimed.map AgentCronDispatchRecord.id) :
    (s.observe store').Kept := by
  have hrec := h.recorded.claim hlanes hinj hfresh
  have hcame := h.recorded.came_eq hlanes hfresh
  have hgone := Recorded.gone_eq_nil hlanes
  have hjobs := hlanes.claimedJobs h.sound
  have hids : (jobsOf store'.states).map AgentCronJob.id =
      (jobsOf s.store.states).map AgentCronJob.id := jobsOf_ids hlanes.kept
  exact {
    sound := hrec.sound
    lifecycle := hrec.lifecycle
    names := hrec.names
    once := by
      intro job' hjob' honce
      obtain ⟨job, hjob, hstep⟩ := exists_of_mem_forall₂ hjobs.steps hjob'
      rw [hstep.schedule] at honce
      obtain ⟨hcountOld, hspent⟩ := h.once job hjob honce
      rw [dispatchCount, observe, hcame, map_append, count_append, hstep.id]
      by_cases hnew : job.id ∈ new.map AgentCronDispatchRecord.jobId
      · -- The job is claimed now, and so was not before.
        obtain ⟨r, hr, hjobId⟩ := mem_map.mp hnew
        obtain ⟨taken, htaken, taken', htaken', hid, ht⟩ := hjobs.taken r hr
        obtain rfl : taken = job :=
          inj_on_of_nodup_map h.sound.ids htaken hjob (ht.jobId.symm.trans hjobId)
        obtain rfl : taken' = job' :=
          inj_on_of_nodup_map (hids ▸ h.sound.ids) htaken' hjob' (hid.trans hstep.id.symm)
        have hbefore : taken.id ∉ s.claimed.map AgentCronDispatchRecord.jobId := by
          intro hclaimed
          rcases hspent hclaimed with hnext | hstatus | hout
          · exact ht.due hnext
          · exact hstatus ht.active
          · exact hjobs.unclaimed r hr (hjobId ▸ hout)
        refine ⟨?_, fun _ => .inl (ht.spent honce)⟩
        rw [count_eq_zero.mpr hbefore, Nat.zero_add]
        exact nodup_iff_count_le_one.mp (h.sound.ids.sublist hjobs.jobIds) taken.id
      · rw [count_eq_zero.mpr hnew]
        refine ⟨hcountOld, fun hclaimed => ?_⟩
        have hold := (mem_append.mp hclaimed).resolve_right hnew
        rcases hspent hold with hnext | hstatus | hout
        · exact .inl (hstep.spent honce hnext)
        · exact .inr (.inl (hstep.status ▸ hstatus))
        · refine .inr (.inr ?_)
          rw [hstep.id]
          exact (hlanes.perm.map _).mem_iff.mpr (by rw [map_append]; exact mem_append_left _ hout)
    updates := by
      rw [observe, hgone]
      simpa [updatesFor] using h.updates
    updated := by
      rw [observe, hgone]
      simpa [updatesFor] using h.updated }

variable {before after : List AgentCronJob}

/-- A dispatch that goes makes one update at most. -/
lemma updatesFor_sublist
    (hids : (before.map AgentCronJob.id).Nodup) :
    (updatesFor gone before after).map Prod.fst <+ gone.map AgentCronDispatchRecord.id := by
  induction gone with
  | nil => exact Sublist.refl _
  | cons dispatch gone ih =>
    have hone : ((before.filter fun job => job.id = dispatch.jobId ∧ job ∉ after).map fun _ =>
        dispatch.id) <+ [dispatch.id] := by
      cases hfilter : before.filter fun job => job.id = dispatch.jobId ∧ job ∉ after with
      | nil => exact nil_sublist _
      | cons job rest =>
        -- Another job of the dispatch would have the same id.
        have hjobs : (before.filter fun job => job.id = dispatch.jobId ∧ job ∉ after) <+ before :=
          filter_sublist
        have hnodup := hids.sublist (hjobs.map AgentCronJob.id)
        have hid : ∀ other ∈ job :: rest, other.id = dispatch.jobId := by
          intro other hother
          rw [← hfilter] at hother
          exact (of_decide_eq_true (mem_filter.mp hother).2).1
        rw [hfilter, map_cons, nodup_cons] at hnodup
        cases rest with
        | nil => exact Sublist.refl _
        | cons other rest =>
          refine absurd (mem_map.mpr ⟨other, mem_cons_self, ?_⟩) hnodup.1
          rw [hid other (by simp), hid job (by simp)]
    have hmap : ((before.filter fun job => job.id = dispatch.jobId ∧ job ∉ after).map fun job =>
        (dispatch.id, job.id)).map Prod.fst = (before.filter fun job =>
          job.id = dispatch.jobId ∧ job ∉ after).map fun _ => dispatch.id := by
      rw [map_map]
      rfl
    rw [updatesFor, flatMap_cons, map_append, hmap, map_cons]
    exact hone.append ih

lemma mem_updatesFor {update : String × String}
    (h : update ∈ updatesFor gone before after) :
    ∃ dispatch ∈ gone, update = (dispatch.id, dispatch.jobId) := by
  obtain ⟨dispatch, hdisp, hmem⟩ := mem_flatMap.mp h
  obtain ⟨job, hjob, rfl⟩ := mem_map.mp hmem
  have hid := (of_decide_eq_true (mem_filter.mp hjob).2).1
  exact ⟨dispatch, hdisp, by rw [hid]⟩

/-- A step that resolves. -/
lemma Kept.resolve (h : s.Kept) (hlanes : Forall₂ LaneResolved s.store.states store'.states) :
    (s.observe store').Kept := by
  obtain ⟨hsub, hjobs⟩ := resolvedAs_of_lanes hlanes h.sound
  have hcame : goneFrom store'.dispatches s.store.dispatches = [] := goneFrom_of_subset hsub.subset
  have hperm := h.recorded.perm_gone hlanes
  have hrec := h.recorded.resolve hlanes
  exact {
    sound := hrec.sound
    lifecycle := hrec.lifecycle
    names := hrec.names
    once := by
      intro job' hjob' honce
      obtain ⟨job, hjob, hres⟩ := exists_of_mem_forall₂ hjobs hjob'
      rw [dispatchCount, observe, hcame, append_nil]
      by_cases hdue : job.id ∈ (goneFrom s.store.dispatches store'.dispatches).map
          AgentCronDispatchRecord.jobId ∧ job.status = .active
      · -- The job has come to its end.
        have hsettles := hres.settled hdue.1 hdue.2
        rw [hsettles.schedule] at honce
        rw [hsettles.id]
        refine ⟨(h.once job hjob honce).1, fun _ => .inr (.inl ?_)⟩
        rw [hsettles.status, if_pos honce]
        nofun
      · obtain rfl := hres.kept hdue
        refine ⟨(h.once job' hjob honce).1, fun hclaimed => ?_⟩
        rcases (h.once job' hjob honce).2 hclaimed with hnext | hstatus | hout
        · exact .inl hnext
        · exact .inr (.inl hstatus)
        · rw [(hperm.map _).mem_iff, map_append, mem_append] at hout
          rcases hout with hout | hgone
          · exact .inr (.inr hout)
          · exact .inr (.inl fun hactive => hdue ⟨hgone, hactive⟩)
    updates := by
      rw [observe, map_append, map_append]
      exact h.updates.append (updatesFor_sublist h.sound.ids)
    updated := by
      intro update hupdate
      rw [observe, mem_append] at hupdate
      rcases hupdate with hupdate | hupdate
      · obtain ⟨dispatch, hdisp, heq⟩ := h.updated update hupdate
        exact ⟨dispatch, mem_append_left _ hdisp, heq⟩
      · obtain ⟨dispatch, hdisp, heq⟩ := mem_updatesFor hupdate
        exact ⟨dispatch, mem_append_right _ hdisp, heq⟩ }

lemma isClaim_iff {op : LockedOp} : op.isClaim = true ↔ ∃ dueAt, op = .claimDue dueAt := by
  cases op <;> simp [LockedOp.isClaim]

lemma Kept.step (h : s.Kept) (hstep : machine.step s label s') :
    s'.Kept ∧ Attributed label.op s s' := by
  obtain ⟨hinj, hfresh, rfl⟩ := hstep
  obtain ⟨op, env, written⟩ := label
  cases hop : op.isClaim with
  | true =>
    obtain ⟨dueAt, rfl⟩ := isClaim_iff.mp hop
    obtain ⟨new, hlanes⟩ := @claimDue_claimed env s.store written dueAt
    refine ⟨h.claim hlanes hinj hfresh, (hlanes.claimedJobs h.sound).steps.imp ?_⟩
    intro job job' hclaim
    exact ⟨hclaim.id, .inr ⟨hclaim.runCount, hclaim.lastRunAt, hclaim.lastError, nofun⟩⟩
  | false =>
    have hlanes := @outcome_resolved env s.store op written h.sound hop
    refine ⟨h.resolve hlanes, (resolvedAs_of_lanes hlanes h.sound).2.imp ?_⟩
    intro job job' hres
    by_cases hdue : job.id ∈ (goneFrom s.store.dispatches
        (op.outcome env s.store written).dispatches).map AgentCronDispatchRecord.jobId ∧
          job.status = .active
    · have hsettles := hres.settled hdue.1 hdue.2
      obtain ⟨dispatch, hgone, hid⟩ := mem_map.mp hdue.1
      obtain ⟨hbefore, hafter⟩ := mem_goneFrom.mp hgone
      exact ⟨hsettles.id, .inl ⟨dispatch, hbefore, hafter, hid, hsettles.runCount⟩⟩
    · obtain rfl := hres.kept hdue
      exact ⟨rfl, .inr ⟨rfl, rfl, rfl, fun _ => rfl⟩⟩

/-- **The discipline of dispatches.**  In every state of every run each job has at most one
outstanding dispatch, a job that runs once has been dispatched at most once, and every dispatch
ever claimed is outstanding or has been resolved once, with one update of its job at most; and no
step updates the results of a job otherwise. -/
theorem disciplined_of_run {s₀ : DispatchSystem} {labels : List DispatchLabel} (h₀ : s₀.Initial)
    (h : machine.Run s₀ labels s) :
    s.Disciplined ∧ ∀ label s', machine.step s label s' → Attributed label.op s s' := by
  have hkept : s.Kept := h.invariant h₀.kept fun _ _ _ hkept hstep => (hkept.step hstep).1
  exact ⟨hkept.disciplined, fun label s' hstep => (hkept.step hstep).2⟩

/-! ## Two jobs, one of which runs once -/

/-- A host that names what it makes with one letter. -/
def hostNaming (letter : Char) (now : ℤ) : CronEnv where
  zone := .universal
  parseDate _ := none
  randomUUID n := String.ofList (List.replicate (n + 1) letter)
  now

lemma hostNaming_injective (letter : Char) (now : ℤ) :
    Function.Injective (hostNaming letter now).randomUUID := by
  intro m n h
  have hlen := congrArg List.length (String.ofList_injective h)
  simpa using hlen

def dueJob (id : String) (schedule : AgentCronSchedule) : AgentCronJob where
  id
  status := .active
  activeSessionId := "active"
  sessionId := "session"
  sessionFile := "file"
  cwd := "/"
  prompt := "go on"
  schedule
  createdAt := 0
  updatedAt := 0
  nextRunAt := some 0

def twoDue : DispatchSystem where
  store := .file { jobs := [dueJob "once" ⟨.once, "in 1m", none⟩,
    dueJob "ticks" ⟨.interval, "every 1m", some 60000⟩] }
  claimed := []
  resolved := []
  updates := []

/-- Both jobs are claimed, and the one that runs once has run. -/
def claimsAndRuns : List DispatchLabel :=
  [⟨.claimDue 0, hostNaming 'a' 0, none⟩,
    ⟨.recordDispatchResult "a" .ran none, hostNaming 'b' 1, none⟩]

lemma twoDue_initial : twoDue.Initial where
  sound := ⟨by decide, by decide, by decide, by decide⟩
  claimed := rfl
  resolved := rfl
  updates := rfl

theorem disciplined_of_run_twoDue : ∃ s, machine.Run twoDue claimsAndRuns s ∧
    s.updates = [("a", "once")] ∧ s.Disciplined := by
  have hclaimed : (twoDue.perform ⟨.claimDue 0, hostNaming 'a' 0, none⟩).claimed.map
      AgentCronDispatchRecord.id = ["a", "aa"] := by decide +kernel
  have hfirst : machine.step twoDue ⟨.claimDue 0, hostNaming 'a' 0, none⟩
      (twoDue.perform ⟨.claimDue 0, hostNaming 'a' 0, none⟩) :=
    ⟨hostNaming_injective 'a' 0, fun n => not_mem_nil, rfl⟩
  have hsecond : machine.step _ ⟨.recordDispatchResult "a" .ran none, hostNaming 'b' 1, none⟩ _ :=
    ⟨hostNaming_injective 'b' 1, fun n => by
      rw [hclaimed]
      simp [hostNaming, List.replicate_succ, ← String.toList_inj], rfl⟩
  have hrun := (Machine.Run.nil.snoc hfirst).snoc hsecond
  exact ⟨_, hrun, by decide +kernel, (disciplined_of_run twoDue_initial hrun).1⟩

end DispatchSystem

end Amide
