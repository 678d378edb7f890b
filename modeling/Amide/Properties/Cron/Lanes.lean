import Amide.Framework.KeyedList
import Amide.Construction.Cron.Scheduler
import Amide.Properties.Cron.Dispatches

/-!
# The lanes of the cron scheduler

Claims, job runs and their ends are interleaved with the cleanup of lanes and with edits of the jobs
by others (`scheduling`).  In every run at most one `runJob` is active for an active session, the
dispatches of a session start in the order they were claimed, each when the ones before it have
settled (`InLanes`).

Not every dispatch is resolved.  The scheduler does not queue what a claim wrote before it threw,
and a task that cannot record its result settles all the same.  In runs without such steps
(`Resolves`) what was claimed has been resolved once, or waits in its lane or runs; and as long as
something waits or runs, a task can go on, which brings the tasks nearer to their end
(`dispatches_settle_in_lanes`).
-/

namespace Amide

open List AgentCronDispatchRecord AgentCronJob
open LockedOp (apply isClaim)

variable {env : CronEnv} {dueAt claimedAt : ℤ} {n : ℕ} {state state' : CronJobsState}
  {states states' : List CronJobsState}

/-! ## Jobs and their sessions -/

def AgentCronJob.session (job : AgentCronJob) : String × String := (job.id, job.activeSessionId)

def AgentCronDispatchRecord.ref (r : AgentCronDispatchRecord) : String × String := (r.id, r.jobId)

def AgentCronDispatch.ref (dispatch : AgentCronDispatch) : String × String :=
  (dispatch.id, dispatch.job.id)

def sessionsOf (states : List CronJobsState) : List (String × String) :=
  (jobsOf states).map session

lemma sessionsOf_cons (state : CronJobsState) (states : List CronJobsState) :
    sessionsOf (state :: states) = state.jobs.map session ++ sessionsOf states := by
  rw [sessionsOf, jobsOf_cons, map_append, sessionsOf]

variable {job : AgentCronJob}

lemma advanceJob_session {zone : TimeZone} {advanced : AgentCronJob}
    (h : advanceJob claimedAt zone job = .ok advanced) : advanced.session = job.session := by
  obtain ⟨next, -, hjob⟩ := Except.of_bind h
  cases next with
  | none =>
    cases hjob
    rfl
  | some date =>
    obtain ⟨nextRunAt, -, hjob⟩ := Except.of_bind hjob
    cases hjob
    rfl

variable {claimedJobIds : List String} {jobs : List AgentCronJob}

variable {result : List AgentCronJob × List (AgentCronDispatchRecord × AgentCronDispatch)}

lemma claimJobs_session
    (h : claimJobs env dueAt claimedAt claimedJobIds n jobs = .ok result) :
    result.1.map session = jobs.map session ∧
      ∀ p ∈ result.2, p.2.ref = p.1.ref ∧ p.2.job ∈ result.1 := by
  induction jobs generalizing n result with
  | nil =>
    cases h
    exact ⟨rfl, by simp⟩
  | cons job jobs ih =>
    have hkeep {rest : List AgentCronJob × List (AgentCronDispatchRecord × AgentCronDispatch)}
        {m : ℕ} (hrest : claimJobs env dueAt claimedAt claimedJobIds m jobs = .ok rest)
        {job' : AgentCronJob} (hsess : job'.session = job.session) :
        (job' :: rest.1).map session = (job :: jobs).map session ∧
          ∀ p ∈ rest.2, p.2.ref = p.1.ref ∧ p.2.job ∈ job' :: rest.1 := by
      obtain ⟨hsessions, hpairs⟩ := ih hrest
      refine ⟨by rw [map_cons, map_cons, hsess, hsessions], fun p hp => ?_⟩
      exact ⟨(hpairs p hp).1, mem_cons_of_mem _ (hpairs p hp).2⟩
    rw [claimJobs] at h
    split at h
    · obtain ⟨advanced, hadv, h⟩ := Except.of_bind h
      have hsess := advanceJob_session hadv
      split at h
      · obtain ⟨rest, hrest, h⟩ := Except.of_bind h
        cases h
        exact hkeep hrest hsess
      · obtain ⟨rest, hrest, h⟩ := Except.of_bind h
        cases h
        obtain ⟨hsessions, hpairs⟩ := hkeep hrest hsess
        refine ⟨hsessions, forall_mem_cons.mpr ⟨⟨?_, mem_cons_self⟩, hpairs⟩⟩
        exact Prod.ext rfl (congrArg Prod.fst hsess)
    · obtain ⟨rest, hrest, h⟩ := Except.of_bind h
      cases h
      exact hkeep hrest rfl

/-! ## Claiming -/

variable {message : String}

lemma claimStates_cons_error (h : claimDueInState env dueAt claimedAt n state = .error message) :
    claimStates env dueAt claimedAt n (state :: states) = (state :: states, .error message) := by
  rw [claimStates, h]

variable {dispatches : List AgentCronDispatch}

lemma claimStates_cons_ok
    (h : claimDueInState env dueAt claimedAt n state = .ok (state', dispatches)) :
    claimStates env dueAt claimedAt n (state :: states) =
      (state' :: (claimStates env dueAt claimedAt (n + dispatches.length) states).1,
        (claimStates env dueAt claimedAt (n + dispatches.length) states).2.map
          (dispatches ++ ·)) := by
  rw [claimStates, h]

/-- What a claim that does not throw returns is what it has put into the lanes. -/
lemma claimStates_ok (h : (claimStates env dueAt claimedAt n states).2 = .ok dispatches) :
    ∃ new, ClaimedLanes env n states (claimStates env dueAt claimedAt n states).1 new ∧
      new.map ref = dispatches.map AgentCronDispatch.ref ∧
      ∀ dispatch ∈ dispatches,
        dispatch.job ∈ jobsOf (claimStates env dueAt claimedAt n states).1 := by
  induction states generalizing n dispatches with
  | nil =>
    cases h
    refine ⟨[], ?_, rfl, by simp⟩
    exact .stop n []
  | cons state states ih =>
    cases hclaim : claimDueInState env dueAt claimedAt n state with
    | error message =>
      rw [claimStates_cons_error hclaim] at h
      cases h
    | ok claimed =>
      rw [claimStates_cons_ok hclaim] at h ⊢
      obtain ⟨rest, hrest, rfl⟩ := Except.map_eq_ok_iff.mp h
      obtain ⟨new', hlanes, hrefs, hjobs⟩ := ih hrest
      obtain ⟨result, hres, hstate⟩ := Except.of_bind hclaim
      cases hstate
      have hpairs := (claimJobs_session hres).2
      have hlane : LaneClaimed env n state ⟨result.1, state.dispatches ++ result.2.map Prod.fst⟩
          (result.2.map Prod.fst) := ⟨rfl, claimJobs_claimed hres⟩
      have hlen : (result.2.map Prod.snd).length = (result.2.map Prod.fst).length := by simp
      rw [hlen] at hlanes ⊢
      refine ⟨_, .lane hlane hlanes, ?_, ?_⟩
      · rw [map_append, map_append, hrefs, map_map, map_map]
        exact congrArg (· ++ _) (map_congr_left fun p hp => (hpairs p hp).1.symm)
      · intro dispatch hdisp
        rcases mem_append.mp hdisp with hmem | hmem
        · obtain ⟨p, hp, rfl⟩ := mem_map.mp hmem
          exact mem_append_left _ (hpairs p hp).2
        · rw [hlen] at hjobs
          exact mem_append_right _ (hjobs dispatch hmem)

lemma claimStates_sessions :
    sessionsOf (claimStates env dueAt claimedAt n states).1 = sessionsOf states := by
  induction states generalizing n with
  | nil => rfl
  | cons state states ih =>
    cases hclaim : claimDueInState env dueAt claimedAt n state with
    | error message => rw [claimStates_cons_error hclaim]
    | ok claimed =>
      rw [claimStates_cons_ok hclaim]
      obtain ⟨result, hres, hstate⟩ := Except.of_bind hclaim
      cases hstate
      rw [sessionsOf_cons, sessionsOf_cons, ih, (claimJobs_session hres).1]

/-- A due job that would be dispatched. -/
def DueUnclaimed (dueAt : ℤ) (state : CronJobsState) : Prop :=
  ∃ job ∈ state.jobs, job.isDueJob dueAt = true ∧
    job.id ∉ state.dispatches.map jobId

/-- A due job whose next run is not found. -/
def Unadvanceable (env : CronEnv) (dueAt : ℤ) (state : CronJobsState) : Prop :=
  ∃ job ∈ state.jobs, job.isDueJob dueAt = true ∧
    ∃ message, advanceJob env.now env.zone job = .error message

/-- No job is dispatched in a lane in front of one that makes the claim throw. -/
def ClaimsAtOnce (env : CronEnv) (dueAt : ℤ) (states : List CronJobsState) : Prop :=
  ∀ earlier state later, states = earlier ++ state :: later → Unadvanceable env dueAt state →
    ∀ lane ∈ earlier, ¬DueUnclaimed dueAt lane

lemma claimJobs_error (h : claimJobs env dueAt env.now claimedJobIds n jobs = .error message) :
    ∃ job ∈ jobs, job.isDueJob dueAt = true ∧
      ∃ message, advanceJob env.now env.zone job = .error message := by
  induction jobs generalizing n message with
  | nil => cases h
  | cons job jobs ih =>
    by_cases hrest : ∃ m message, claimJobs env dueAt env.now claimedJobIds m jobs = .error message
    · obtain ⟨m, message, hrest⟩ := hrest
      obtain ⟨other, hother, hdue⟩ := ih hrest
      exact ⟨other, mem_cons_of_mem _ hother, hdue⟩
    · have hok (m : ℕ) : ∃ rest, claimJobs env dueAt env.now claimedJobIds m jobs = .ok rest := by
        cases hclaim : claimJobs env dueAt env.now claimedJobIds m jobs with
        | error message => exact absurd ⟨m, message, hclaim⟩ hrest
        | ok rest => exact ⟨rest, rfl⟩
      rw [claimJobs] at h
      split at h
      next hdue =>
        cases hadv : advanceJob env.now env.zone job with
        | error message => exact ⟨job, mem_cons_self, hdue, message, hadv⟩
        | ok advanced =>
          rw [hadv] at h
          split at h
          · obtain ⟨rest, hclaim⟩ := hok n
            rw [hclaim] at h
            cases h
          · obtain ⟨rest, hclaim⟩ := hok (n + 1)
            rw [hclaim] at h
            cases h
      · obtain ⟨rest, hclaim⟩ := hok n
        rw [hclaim] at h
        cases h

lemma claimJobs_nil
    (hnone : ∀ job ∈ jobs, job.isDueJob dueAt = true → job.id ∈ claimedJobIds)
    (h : claimJobs env dueAt claimedAt claimedJobIds n jobs = .ok result) : result.2 = [] := by
  induction jobs generalizing result with
  | nil =>
    cases h
    rfl
  | cons job jobs ih =>
    have hrest := fun rest => @ih rest fun other hother => hnone other (mem_cons_of_mem _ hother)
    rw [claimJobs] at h
    split at h
    next hdue =>
      obtain ⟨advanced, -, h⟩ := Except.of_bind h
      rw [if_pos (contains_iff_mem.mpr (hnone job mem_cons_self hdue))] at h
      obtain ⟨rest, hclaim, h⟩ := Except.of_bind h
      cases h
      exact hrest rest hclaim
    · obtain ⟨rest, hclaim, h⟩ := Except.of_bind h
      cases h
      exact hrest rest hclaim

lemma claimStates_error (h : (claimStates env dueAt env.now n states).2 = .error message) :
    ∃ earlier state later, states = earlier ++ state :: later ∧ Unadvanceable env dueAt state := by
  induction states generalizing n message with
  | nil => cases h
  | cons state states ih =>
    cases hclaim : claimDueInState env dueAt env.now n state with
    | error message =>
      refine ⟨[], state, states, rfl, ?_⟩
      cases hjobs : claimJobs env dueAt env.now
          (state.dispatches.map jobId) n state.jobs with
      | error message => exact claimJobs_error hjobs
      | ok result =>
        rw [claimDueInState, hjobs] at hclaim
        cases hclaim
    | ok claimed =>
      rw [claimStates_cons_ok hclaim] at h
      cases hrest : (claimStates env dueAt env.now (n + claimed.2.length) states).2 with
      | error message =>
        obtain ⟨earlier, bad, later, hsplit, hbad⟩ := ih hrest
        exact ⟨state :: earlier, bad, later, by rw [hsplit, cons_append], hbad⟩
      | ok rest =>
        rw [hrest] at h
        cases h

/-- A claim that throws has dispatched nothing then. -/
lemma claimStates_atOnce (honce : ClaimsAtOnce env dueAt states)
    (h : (claimStates env dueAt env.now n states).2 = .error message) :
    ClaimedLanes env n states (claimStates env dueAt env.now n states).1 [] := by
  induction states generalizing n message with
  | nil => exact .stop n []
  | cons state states ih =>
    cases hclaim : claimDueInState env dueAt env.now n state with
    | error message =>
      rw [claimStates_cons_error hclaim]
      exact .stop n (state :: states)
    | ok claimed =>
      rw [claimStates_cons_ok hclaim] at h ⊢
      cases hrest : (claimStates env dueAt env.now (n + claimed.2.length) states).2 with
      | ok rest =>
        rw [hrest] at h
        cases h
      | error message =>
        -- a later lane makes the claim throw, and so this one has dispatched nothing
        obtain ⟨earlier, bad, later, hsplit, hbad⟩ := claimStates_error hrest
        have hnone := honce (state :: earlier) bad later (by rw [hsplit, cons_append]) hbad state
          mem_cons_self
        obtain ⟨result, hres, hstate⟩ := Except.of_bind hclaim
        cases hstate
        have hnil : result.2 = [] := by
          refine claimJobs_nil (fun job hjob hdue => ?_) hres
          by_contra hunclaimed
          exact hnone ⟨job, hjob, hdue, hunclaimed⟩
        have htail : ClaimsAtOnce env dueAt states :=
          fun earlier bad later hstates hbad lane hlane =>
            honce (state :: earlier) bad later (by rw [hstates, cons_append]) hbad lane
              (mem_cons_of_mem _ hlane)
        have hlane : LaneClaimed env n state ⟨result.1, state.dispatches ++ result.2.map Prod.fst⟩
            [] := ⟨by rw [hnil]; rfl, by simpa [hnil] using claimJobs_claimed hres⟩
        have hlanes := ih htail hrest
        rw [hnil] at hlanes hlane ⊢
        exact .lane hlane hlanes

/-! ## Recording and recovering -/

variable {mutator : CronJobsState → Except String CronJobsState}

lemma mutateStates_sessions
    (hmutator : ∀ state state', mutator state = .ok state' →
      state'.jobs.map session = state.jobs.map session) :
    sessionsOf (mutateStates mutator states).1 = sessionsOf states := by
  induction states with
  | nil => rfl
  | cons state states ih =>
    rw [mutateStates]
    split
    · rfl
    next hstate => rw [sessionsOf_cons, sessionsOf_cons, ih, hmutator _ _ hstate]

variable {outcome : AgentCronJobRunResult} {error : Option String}

lemma recordResult_session {job' : AgentCronJob}
    (h : recordResult env outcome error job = .ok job') : job'.session = job.session := by
  simp only [recordResult] at h
  split at h
  · obtain ⟨nextRunAt, -, hjob⟩ := Except.of_bind h
    cases hjob
    rfl
  · cases h
    rfl

variable {dispatchId : String}

lemma recordDispatchInState_session
    (h : recordDispatchInState env dispatchId outcome error state = .ok state') :
    state'.jobs.map session = state.jobs.map session := by
  rw [recordDispatchInState] at h
  split at h
  · cases h
    rfl
  · obtain ⟨jobs, hjobs, hstate⟩ := Except.of_bind h
    cases hstate
    refine map_eq_of_forall₂ ((Except.mapM_eq_ok_iff.mp hjobs).imp fun job job' hjob => ?_)
    split_ifs at hjob
    · exact recordResult_session hjob
    · cases hjob
      rfl

lemma recoverInterruptedInState_session {dispatchIds : Option (List String)} :
    (recoverInterruptedInState env dispatchIds state).jobs.map session =
      state.jobs.map session := by
  rw [recoverInterruptedInState, map_map]
  refine map_congr_left fun job _ => ?_
  rw [Function.comp_apply]
  split_ifs <;> rfl

/-- The result can be recorded for the job of the dispatch, if that is active. -/
def Recordable (env : CronEnv) (dispatchId : String) (outcome : AgentCronJobRunResult)
    (error : Option String) (states : List CronJobsState) : Prop :=
  ∀ state ∈ states, ∀ r ∈ state.dispatches, r.id = dispatchId → ∀ job ∈ state.jobs,
    job.id = r.jobId → job.status = .active → ∃ job', recordResult env outcome error job = .ok job'

lemma exists_recordResult
    (h : outcome = .skipped ∧ error = none →
      ∃ next, nextRunText env job.schedule env.now = .ok next) :
    ∃ job', recordResult env outcome error job = .ok job' := by
  simp only [recordResult]
  by_cases hskip : outcome = .skipped ∧ error = none
  · obtain ⟨next, hnext⟩ := h hskip
    rw [if_pos hskip]
    exact ⟨_, Except.bind_eq_ok_iff.mpr ⟨next, hnext, rfl⟩⟩
  · rw [if_neg hskip]
    exact ⟨_, rfl⟩

/-- What has been recorded is no longer outstanding. -/
lemma dispatchesOf_record
    (h : Recordable env dispatchId outcome error states) :
    dispatchesOf (mutateStates (recordDispatchInState env dispatchId outcome error) states).1 =
      (dispatchesOf states).filter fun r => r.id ≠ dispatchId := by
  induction states with
  | nil => rfl
  | cons state states ih =>
    have hstate : ∃ jobs, recordDispatchInState env dispatchId outcome error state =
        .ok ⟨jobs, state.dispatches.filter fun r => r.id ≠ dispatchId⟩ := by
      rw [recordDispatchInState]
      cases hfind : state.dispatches.find? fun candidate => candidate.id == dispatchId with
      | none =>
        refine ⟨state.jobs, ?_⟩
        rw [filter_eq_self.mpr fun r hr => by simpa using find?_eq_none.mp hfind r hr]
      | some r =>
        have hid : r.id = dispatchId := by simpa using find?_some hfind
        have hall : ∀ job ∈ state.jobs, ∃ job', (if job.id = r.jobId ∧ job.status = .active then
            recordResult env outcome error job else .ok job) = .ok job' := by
          intro job hjob
          split_ifs with hdue
          · exact h state mem_cons_self r (mem_of_find?_eq_some hfind) hid job hjob hdue.1 hdue.2
          · exact ⟨job, rfl⟩
        obtain ⟨jobs, hjobs⟩ := Except.exists_mapM_eq_ok hall
        exact ⟨jobs, Except.bind_eq_ok_iff.mpr ⟨jobs, hjobs, rfl⟩⟩
    obtain ⟨jobs, hjobs⟩ := hstate
    have hrest := ih fun lane hlane => h lane (mem_cons_of_mem _ hlane)
    rw [mutateStates, hjobs]
    rw [dispatchesOf_cons, dispatchesOf_cons, filter_append, hrest]

lemma dispatchesOf_recover {ids : List String} :
    dispatchesOf (mutateStates (.ok ∘ recoverInterruptedInState env (some ids)) states).1 =
      (dispatchesOf states).filter fun r => r.id ∉ ids := by
  induction states with
  | nil => rfl
  | cons state states ih =>
    change dispatchesOf (recoverInterruptedInState env (some ids) state :: _) = _
    rw [dispatchesOf_cons, dispatchesOf_cons, filter_append, ih]
    congr 1
    exact filter_congr fun r _ => by simp

/-! ## The job of a dispatch -/

/-- A job's dispatch lies in one lane. -/
lemma SoundLanes.eq_of_jobId (h : SoundLanes states) (hstate : state ∈ states)
    (hstate' : state' ∈ states) {r r' : AgentCronDispatchRecord} (hr : r ∈ state.dispatches)
    (hr' : r' ∈ state'.dispatches) (hjob : r.jobId = r'.jobId) : state = state' := by
  by_contra hne
  have hone := h.one
  rw [dispatchesOf, map_flatMap, nodup_flatMap] at hone
  have hsymm : Std.Symm (Function.onFun Disjoint fun state : CronJobsState =>
      state.dispatches.map jobId) := ⟨fun _ _ => disjoint_symm⟩
  exact hone.2.forall hstate hstate' hne (mem_map_of_mem hr) (hjob ▸ mem_map_of_mem hr')

variable {store : CronStore}

lemma mem_of_getClaimedJob {id : String} (h : store.getClaimedJob id = some job) :
    job ∈ store.readJobs ∧ job.id = id := by
  obtain ⟨state, hstate, hjob⟩ := Option.bind_eq_some_iff.mp h
  refine ⟨mem_flatMap.mpr ⟨state, mem_of_find?_eq_some hstate, mem_of_find?_eq_some hjob⟩, ?_⟩
  have hid := find?_some hjob
  simp only [Bool.and_eq_true, beq_iff_eq] at hid
  exact hid.1

/-- When the job of a dispatch is no longer active, that it was skipped can be recorded. -/
lemma recordable_of_getClaimedJob {r : AgentCronDispatchRecord} (hsound : SoundLanes store.states)
    (hr : r ∈ store.dispatches) (h : store.getClaimedJob r.jobId = none) :
    Recordable env r.id outcome error store.states := by
  intro state hstate r' hr' hid job hjob hjobId hactive
  obtain rfl : r' = r := inj_on_of_nodup_map hsound.names
    (mem_flatMap.mpr ⟨state, hstate, hr'⟩) hr hid
  rw [CronStore.getClaimedJob, Option.bind_eq_none_iff] at h
  cases hfind : store.states.find? fun state => state.dispatches.any fun dispatch =>
      dispatch.jobId == r'.jobId with
  | none =>
    have hnone := find?_eq_none.mp hfind state hstate
    rw [any_eq_true] at hnone
    exact absurd ⟨r', hr', beq_self_eq_true _⟩ hnone
  | some lane =>
    have hlane := h lane hfind
    have hany : (lane.dispatches.any fun dispatch => dispatch.jobId == r'.jobId) = true :=
      (find?_eq_some_iff_append.mp hfind).1
    obtain ⟨other, hother, hotherId⟩ := any_eq_true.mp hany
    obtain rfl := hsound.eq_of_jobId hstate (mem_of_find?_eq_some hfind) hr' hother
      (beq_iff_eq.mp hotherId).symm
    have hjob' := find?_eq_none.mp hlane job hjob
    simp [hjobId, hactive] at hjob'

/-! ## The scheduler and its store -/

lemma length_mutateStates :
    (mutateStates mutator states).1.length = states.length := by
  induction states with
  | nil => rfl
  | cons state states ih =>
    rw [mutateStates]
    split
    · rfl
    · rw [length_cons, length_cons, ih]

/-- The operations on the store leave the jobs with their sessions. -/
lemma sessionsOf_apply (op : LockedOp) (store : CronStore) :
    sessionsOf (op.apply env store).states = sessionsOf store.states := by
  cases op with
  | claimDue dueAt =>
    rw [apply, CronStore.claimDue,
      CronStore.states_withStates claimStates_step.length_eq.symm, claimStates_sessions]
  | recordDispatchResult dispatchId outcome error =>
    rw [apply, CronStore.states_withStates length_mutateStates,
      mutateStates_sessions fun _ _ => recordDispatchInState_session]
  | recoverInterruptedDispatches | recoverInterruptedDispatchesById ids =>
    rw [apply, CronStore.states_withStates length_mutateStates]
    refine mutateStates_sessions fun state state' h => ?_
    rw [← Except.ok.inj h, recoverInterruptedInState_session]
  | recoverSessionArtifact sessionId =>
    cases store with
    | file state => rfl
    | artifacts lanes =>
      rw [apply, CronStore.states, CronStore.states, CronStore.states_mapLanes,
        JsMap.values, sessionsOf, sessionsOf, jobsOf, jobsOf, map_flatMap, map_flatMap,
        flatMap_map, flatMap_map]
      refine flatMap_congr fun lane _ => ?_
      split_ifs
      · exact recoverInterruptedInState_session
      · rfl

/-- The scheduler, with its store as it is observed. -/
structure SchedulerSystem where
  system : DispatchSystem
  lanes : DispatchLanes

/-- The steps of the scheduler, with what the host gives them, and edits by others. -/
inductive SchedulerLabel where
  | runDue (dueAt : ℤ) (env recovery : CronEnv) (hooks : BeginDispatchHooks)
  | startTask (i : ℕ) (env : CronEnv)
  | endTask (i : ℕ) (env : CronEnv) (ending : RunJobEnd)
  | forgetLane (i : ℕ)
  | edit (store : CronStore)

/-- A task starts or goes on. -/
def SchedulerLabel.isTask : SchedulerLabel → Bool
  | startTask _ _ => true
  | endTask _ _ _ => true
  | _ => false

/-- Others may write jobs, but leave them in their sessions, and the dispatches with them. -/
structure CronStore.Edited (store store' : CronStore) : Prop where
  sound : SoundLanes store'.states
  dispatches : store'.dispatches.Perm store.dispatches
  sessions : sessionsOf store.states ⊆ sessionsOf store'.states

namespace SchedulerSystem

def scheduler (s : SchedulerSystem) : AgentCronScheduler := ⟨s.system.store, s.lanes⟩

def act (s : SchedulerSystem) (effect : List LockedCall × DispatchLanes) : SchedulerSystem where
  system := effect.1.foldl (fun system call => system.perform ⟨call.op, call.env, none⟩) s.system
  lanes := effect.2

/-- `runJob` and the hooks end as the labels say; a task starts when it is ready.  The names that
`randomUUID` gives are new. -/
def scheduling : Machine SchedulerSystem SchedulerLabel where
  step s label s' :=
    match label with
    | .runDue dueAt env recovery hooks => Function.Injective env.randomUUID ∧
        (∀ n, env.randomUUID n ∉ s.system.claimed.map AgentCronDispatchRecord.id) ∧
        s' = s.act (s.scheduler.runDue dueAt env recovery hooks)
    | .startTask i env => ∃ task, s.lanes.tasks[i]? = some task ∧ s.lanes.Ready task ∧
        s' = s.act (s.scheduler.startTask i task.item env)
    | .endTask i env ending => ∃ task job, s.lanes.tasks[i]? = some task ∧
        task.phase = .running job ∧ s' = s.act (s.scheduler.endTask i task.item env ending)
    | .forgetLane i => ∃ task, s.lanes.tasks[i]? = some task ∧ task.phase = .settled ∧
        s' = s.act (s.scheduler.forgetLane i task.key)
    | .edit store => s.system.store.Edited store ∧ s' = { s with system := { s.system with store } }

end SchedulerSystem

/-! ## What is recorded -/

namespace DispatchSystem.Recorded

variable {system : DispatchSystem} {new : List AgentCronDispatchRecord}

/-- A claim, and what it has put into the lanes. -/
lemma perform_claim (h : system.Recorded) (hinj : Function.Injective env.randomUUID)
    (hfresh : ∀ n, env.randomUUID n ∉ system.claimed.map AgentCronDispatchRecord.id)
    (hlanes : ClaimedLanes env 0 system.store.states
      (claimStates env dueAt env.now 0 system.store.states).1 new) :
    (system.perform ⟨.claimDue dueAt, env, none⟩).Recorded ∧
      (system.perform ⟨.claimDue dueAt, env, none⟩).claimed = system.claimed ++ new ∧
      (system.perform ⟨.claimDue dueAt, env, none⟩).store.dispatches.Perm
        (system.store.dispatches ++ new) ∧
      ∀ r ∈ new, r.id ∉ system.claimed.map AgentCronDispatchRecord.id := by
  have hstates : ((LockedOp.claimDue dueAt).apply env system.store).states =
      (claimStates env dueAt env.now 0 system.store.states).1 :=
    CronStore.states_withStates hlanes.kept.length_eq.symm
  rw [← hstates] at hlanes
  exact ⟨h.claim hlanes hinj hfresh, congrArg _ (h.came_eq hlanes hfresh), hlanes.perm,
    h.id_notMem_of_new hlanes hfresh⟩

lemma perform (h : system.Recorded) (call : LockedCall) (hop : call.op.isClaim = false) :
    (system.perform ⟨call.op, call.env, none⟩).Recorded ∧
      (system.perform ⟨call.op, call.env, none⟩).claimed = system.claimed := by
  have hlanes := @apply_resolved call.env system.store call.op h.sound hop
  refine ⟨h.resolve hlanes, ?_⟩
  have hcame : goneFrom (call.op.apply call.env system.store).dispatches
      system.store.dispatches = [] :=
    goneFrom_of_subset (resolvedAs_of_lanes hlanes h.sound).1.subset
  exact (congrArg (system.claimed ++ ·) hcame).trans (append_nil _)

end DispatchSystem.Recorded

namespace SchedulerSystem

variable {s s' : SchedulerSystem} {label : SchedulerLabel} {calls : List LockedCall}
  {lanes : DispatchLanes}

lemma sessionsOf_act :
    sessionsOf (s.act (calls, lanes)).system.store.states = sessionsOf s.system.store.states := by
  obtain ⟨system, _⟩ := s
  rw [act]
  induction calls generalizing system with
  | nil => rfl
  | cons call calls ih =>
    rw [foldl_cons, ih]
    exact sessionsOf_apply call.op system.store

lemma subset_sessionsOf_act :
    sessionsOf s.system.store.states ⊆ sessionsOf (s.act (calls, lanes)).system.store.states := by
  rw [sessionsOf_act]
  exact Subset.refl _

lemma recorded_act (h : s.system.Recorded) (hcalls : ∀ call ∈ calls, call.op.isClaim = false) :
    (s.act (calls, lanes)).system.Recorded ∧
      (s.act (calls, lanes)).system.claimed = s.system.claimed := by
  obtain ⟨system, _⟩ := s
  rw [act]
  induction calls generalizing system with
  | nil => exact ⟨h, rfl⟩
  | cons call calls ih =>
    rw [forall_mem_cons] at hcalls
    obtain ⟨hrec, hclaimed⟩ := h.perform call hcalls.1
    obtain ⟨hrec', hclaimed'⟩ := ih hcalls.2 _ hrec
    exact ⟨hrec', hclaimed'.trans hclaimed⟩

/-! ## Lanes -/

/-- The lanes are chained, a running job is of its task's session, and the tasks are queued in the
order of the claims. -/
structure Laned (s : SchedulerSystem) : Prop where
  recorded : s.system.Recorded
  chained : s.lanes.Chained
  keyed : ∀ t ∈ s.lanes.tasks, t.key = t.item.job.activeSessionId
  bound : ∀ t ∈ s.lanes.tasks, (t.item.job.id, t.key) ∈ sessionsOf s.system.store.states
  running : ∀ t ∈ s.lanes.tasks, ∀ job, t.phase = .running job → job.activeSessionId = t.key
  order : s.lanes.items.map AgentCronDispatch.id <+ s.system.claimed.map AgentCronDispatchRecord.id

variable {i : ℕ} {t : LaneTask String AgentCronDispatch AgentCronJob} {env recovery : CronEnv}
  {hooks : BeginDispatchHooks}

namespace Laned

section
variable (h : s.Laned)
include h

/-- The tasks stay as they are, or one goes on. -/
lemma move (hrec : s'.system.Recorded) (hchained : s'.lanes.Chained)
    (hsessions : sessionsOf s.system.store.states ⊆ sessionsOf s'.system.store.states)
    (hclaimed : s.system.claimed <+ s'.system.claimed)
    (htasks : ∀ u ∈ s'.lanes.tasks, ∃ t ∈ s.lanes.tasks, u.key = t.key ∧ u.item = t.item ∧
      ∀ job, u.phase = .running job → t.phase = .running job ∨ job.activeSessionId = t.key)
    (hitems : s'.lanes.items = s.lanes.items) : s'.Laned where
  recorded := hrec
  chained := hchained
  keyed := by
    intro u hu
    obtain ⟨t, ht, hkey, hitem, -⟩ := htasks u hu
    rw [hkey, hitem]
    exact h.keyed t ht
  bound := by
    intro u hu
    obtain ⟨t, ht, hkey, hitem, -⟩ := htasks u hu
    rw [hkey, hitem]
    exact hsessions (h.bound t ht)
  running := by
    intro u hu job hjob
    obtain ⟨t, ht, hkey, -, hrunning⟩ := htasks u hu
    rw [hkey]
    exact (hrunning job hjob).elim (h.running t ht job) id
  order := by
    rw [hitems]
    exact h.order.trans (hclaimed.map _)

lemma queueDispatch {dispatch : AgentCronDispatch}
    (hbound : dispatch.job.session ∈ sessionsOf s.system.store.states)
    (horder : s.lanes.items.map AgentCronDispatch.id ++ [dispatch.id] <+
      s.system.claimed.map AgentCronDispatchRecord.id) :
    ({ s with lanes := Amide.queueDispatch s.lanes dispatch } : SchedulerSystem).Laned := by
  have hmem : ∀ t ∈ (Amide.queueDispatch s.lanes dispatch).tasks, t ∈ s.lanes.tasks ∨
      t = ⟨dispatch.job.activeSessionId, dispatch,
        s.lanes.tails.get? dispatch.job.activeSessionId, .waiting⟩ := by
    intro t ht
    rcases mem_append.mp ht with hold | hnew
    · exact .inl hold
    · exact .inr (mem_singleton.mp hnew)
  exact {
    recorded := h.recorded
    chained := h.chained.queue _ _
    keyed := by
      intro t ht
      rcases hmem t ht with hold | rfl
      · exact h.keyed t hold
      · rfl
    bound := by
      intro t ht
      rcases hmem t ht with hold | rfl
      · exact h.bound t hold
      · exact hbound
    running := by
      intro t ht job hjob
      rcases hmem t ht with hold | rfl
      · exact h.running t hold job hjob
      · cases hjob
    order := by
      rw [Amide.queueDispatch, Lanes.items_queue, map_append]
      exact horder }

lemma queueAll
    (hbound : ∀ dispatch ∈ dispatches, dispatch.job.session ∈ sessionsOf s.system.store.states)
    (horder : s.lanes.items.map AgentCronDispatch.id ++ dispatches.map AgentCronDispatch.id <+
      s.system.claimed.map AgentCronDispatchRecord.id) :
    ({ s with lanes := dispatches.foldl Amide.queueDispatch s.lanes } : SchedulerSystem).Laned := by
  induction dispatches generalizing s with
  | nil => exact h
  | cons dispatch dispatches ih =>
    rw [forall_mem_cons] at hbound
    refine ih (s := { s with lanes := Amide.queueDispatch s.lanes dispatch })
      (h.queueDispatch hbound.1 (Sublist.trans ?_ horder)) hbound.2 ?_
    · exact (singleton_sublist.mpr mem_cons_self).append_left _
    · rw [Amide.queueDispatch, Lanes.items_queue, map_append, append_assoc]
      exact horder

/-- A task goes on, and the store with it. -/
lemma act_setPhase {phase : TaskPhase AgentCronJob} (ht : s.lanes.tasks[i]? = some t)
    (hcalls : ∀ call ∈ calls, call.op.isClaim = false)
    (hchained : (s.lanes.setPhase i phase).Chained)
    (hrunning : ∀ job, phase = .running job → job.activeSessionId = t.key) :
    (s.act (calls, s.lanes.setPhase i phase)).Laned := by
  obtain ⟨hrec, hclaimed⟩ := @recorded_act s calls (s.lanes.setPhase i phase) h.recorded hcalls
  refine h.move hrec hchained subset_sessionsOf_act (hclaimed ▸ Sublist.refl _) ?_
    (Lanes.items_setPhase phase)
  intro u hu
  obtain ⟨v, hv, hkey, hitem, hphase | ⟨hv', hphase⟩⟩ := Lanes.exists_of_mem_setPhase hu
  · exact ⟨v, hv, hkey, hitem, fun job hjob => .inl (hphase ▸ hjob)⟩
  · obtain rfl : t = v := Option.mem_unique ht hv'
    exact ⟨t, hv, hkey, hitem, fun job hjob => .inr (hrunning job (hphase ▸ hjob))⟩

/-- The job of a task that starts is of the task's session. -/
lemma activeSessionId_of_getClaimedJob (ht : t ∈ s.lanes.tasks)
    (hjob : s.system.store.getClaimedJob t.item.job.id = some job) :
    job.activeSessionId = t.key := by
  obtain ⟨hmem, hid⟩ := mem_of_getClaimedJob hjob
  obtain ⟨other, hother, hsess⟩ := mem_map.mp (h.bound t ht)
  obtain ⟨hotherId, hkey⟩ := Prod.mk.inj hsess
  obtain rfl := inj_on_of_nodup_map h.recorded.sound.ids hother hmem (hotherId.trans hid.symm)
  exact hkey

lemma startTask (ht : s.lanes.tasks[i]? = some t) (hready : s.lanes.Ready t) :
    (s.act (s.scheduler.startTask i t.item env)).Laned := by
  rw [AgentCronScheduler.startTask]
  split
  · refine h.act_setPhase ht (by simp [isClaim]) (h.chained.start ht hready) ?_
    intro job hjob
    cases hjob
  next job hjob =>
    refine h.act_setPhase ht (by simp) (h.chained.start ht hready) fun job' hjob' => ?_
    cases hjob'
    exact h.activeSessionId_of_getClaimedJob (mem_of_getElem? ht) hjob

lemma endTask {ending : RunJobEnd} (ht : s.lanes.tasks[i]? = some t)
    (hjob : t.phase = .running job) : (s.act (s.scheduler.endTask i t.item env ending)).Laned := by
  refine h.act_setPhase ht ?_ (h.chained.settle ht hjob) ?_
  · split <;> simp [isClaim]
  · intro job hjob
    cases hjob

/-- What has been claimed is queued behind what was. -/
lemma runDue (hinj : Function.Injective env.randomUUID)
    (hfresh : ∀ n, env.randomUUID n ∉ s.system.claimed.map AgentCronDispatchRecord.id) :
    (s.act (s.scheduler.runDue dueAt env recovery hooks)).Laned := by
  have hclaim {new : List AgentCronDispatchRecord} (hlanes : ClaimedLanes env 0
      s.system.store.states (claimStates env dueAt env.now 0 s.system.store.states).1 new) :
      (s.act ([⟨.claimDue dueAt, env⟩], s.lanes)).Laned := by
    obtain ⟨hrec, hclaimed, -, -⟩ := h.recorded.perform_claim hinj hfresh hlanes
    refine h.move hrec h.chained subset_sessionsOf_act ?_
      (fun t ht => ⟨t, ht, rfl, rfl, fun _ => .inl⟩) rfl
    exact hclaimed ▸ sublist_append_left _ _
  obtain ⟨new, hlanes⟩ := @claimStates_claimed env dueAt env.now 0 s.system.store.states
  unfold AgentCronScheduler.runDue
  split
  · exact hclaim hlanes
  next dispatches hres =>
    obtain ⟨new, hlanes, hrefs, hjobs⟩ := claimStates_ok hres
    have hlaned := hclaim hlanes
    obtain ⟨-, hclaimed, -, -⟩ := h.recorded.perform_claim hinj hfresh hlanes
    have hids : new.map AgentCronDispatchRecord.id = dispatches.map AgentCronDispatch.id := by
      have hfst := congrArg (map Prod.fst) hrefs
      rwa [map_map, map_map] at hfst
    refine hlaned.queueAll (fun dispatch hdisp => ?_) ?_
    · rw [sessionsOf_act, ← @claimStates_sessions env dueAt env.now 0]
      exact mem_map_of_mem (hjobs dispatch hdisp)
    · have hclaimed : (s.act ([⟨.claimDue dueAt, env⟩], s.lanes)).system.claimed =
          s.system.claimed ++ new := hclaimed
      rw [hclaimed, map_append, ← hids]
      exact h.order.append_right _
  next dispatches hres =>
    have hlaned := hclaim hlanes
    obtain ⟨hrec, hclaimed⟩ := @recorded_act _
      [⟨.recoverInterruptedDispatchesById (dispatches.map AgentCronDispatch.id), recovery⟩] s.lanes
      hlaned.recorded (by simp [isClaim])
    exact hlaned.move hrec h.chained subset_sessionsOf_act (hclaimed ▸ Sublist.refl _)
      (fun t ht => ⟨t, ht, rfl, rfl, fun _ => .inl⟩) rfl
  · exact hclaim hlanes

lemma step (hstep : scheduling.step s label s') : s'.Laned := by
  cases label with
  | runDue dueAt env recovery hooks =>
    obtain ⟨hinj, hfresh, rfl⟩ := hstep
    exact h.runDue hinj hfresh
  | startTask i env =>
    obtain ⟨t, ht, hready, rfl⟩ := hstep
    exact h.startTask ht hready
  | endTask i env ending =>
    obtain ⟨t, job, ht, hjob, rfl⟩ := hstep
    exact h.endTask ht hjob
  | forgetLane i =>
    obtain ⟨t, ht, hsettled, rfl⟩ := hstep
    refine h.move h.recorded (h.chained.forget ht hsettled) (Subset.refl _) (Sublist.refl _) ?_ ?_
    · intro u hu
      exact ⟨u, Lanes.tasks_forget (l := s.lanes) t.key ▸ hu, rfl, rfl, fun _ => .inl⟩
    · exact congrArg (map LaneTask.item) (Lanes.tasks_forget t.key)
  | edit store =>
    obtain ⟨hedited, rfl⟩ := hstep
    refine h.move ⟨hedited.sound, ?_, h.recorded.names⟩ h.chained hedited.sessions
      (Sublist.refl _) (fun t ht => ⟨t, ht, rfl, rfl, fun _ => .inl⟩) rfl
    exact h.recorded.lifecycle.trans (hedited.dispatches.symm.append_right _)

end

end Laned

/-- At most one job runs for an active session, and its dispatches start in the order they were
claimed, each when those before it have settled. -/
structure InLanes (s : SchedulerSystem) : Prop where
  exclusive : ∀ (i j : ℕ) (t u : LaneTask String AgentCronDispatch AgentCronJob) (job job'),
    s.lanes.tasks[i]? = some t → s.lanes.tasks[j]? = some u → t.phase = .running job →
      u.phase = .running job' → job.activeSessionId = job'.activeSessionId → i = j
  inOrder : ∀ (i j : ℕ) (t u : LaneTask String AgentCronDispatch AgentCronJob),
    s.lanes.tasks[i]? = some t → s.lanes.tasks[j]? = some u → i < j →
      t.item.job.activeSessionId = u.item.job.activeSessionId → u.phase ≠ .waiting →
        t.phase = .settled
  claimOrder : s.lanes.items.map AgentCronDispatch.id <+
    s.system.claimed.map AgentCronDispatchRecord.id

lemma Laned.inLanes (h : s.Laned) : s.InLanes where
  exclusive := by
    intro i j t u job job' ht hu hjob hjob' hsess
    refine h.chained.eq_of_running ht hu ?_ hjob hjob'
    rw [← h.running t (mem_of_getElem? ht) job hjob, ← h.running u (mem_of_getElem? hu) job' hjob',
      hsess]
  inOrder := by
    intro i j t u ht hu hlt hsess hbegun
    refine h.chained.begun i j t u ht hu hlt ?_ hbegun
    rw [h.keyed t (mem_of_getElem? ht), h.keyed u (mem_of_getElem? hu), hsess]
  claimOrder := h.order

/-! ## Resolving -/

/-- The store has the dispatches that were found in it, and those of the tasks that are left. -/
def Accounted (found : List (String × String)) (s : SchedulerSystem) : Prop :=
  (s.system.store.dispatches.map ref).Perm
    (found ++ s.lanes.pending.map AgentCronDispatch.ref)

/-- A claim that throws has dispatched nothing, and no `endDispatch` throws behind a claim.  A
result is recorded: `onError` does not throw, and if the run was skipped, the job's next run is
found. -/
def Resolves (s : SchedulerSystem) : SchedulerLabel → Prop
  | .runDue dueAt env _ hooks => hooks ≠ .threw true ∧ ClaimsAtOnce env dueAt s.system.store.states
  | .endTask i env ending => ending.recorded ≠ none ∧
      (ending.recorded = some (.skipped, none) → ∀ t, s.lanes.tasks[i]? = some t →
        ∀ state ∈ s.system.store.states, ∀ r ∈ state.dispatches, r.id = t.item.id →
          ∀ job ∈ state.jobs, job.id = r.jobId → job.status = .active →
            ∃ next, nextRunText env job.schedule env.now = .ok next)
  | _ => True

lemma pending_queueAll (lanes : DispatchLanes) (dispatches : List AgentCronDispatch) :
    (dispatches.foldl queueDispatch lanes).pending = lanes.pending ++ dispatches := by
  induction dispatches generalizing lanes with
  | nil => rw [foldl_nil, append_nil]
  | cons dispatch dispatches ih =>
    rw [foldl_cons, ih, queueDispatch, Lanes.pending_queue, append_assoc, singleton_append]

variable {found : List (String × String)}

lemma Accounted.exists_ref (hall : s.Accounted found) (ht : s.lanes.tasks[i]? = some t)
    (hleft : t.phase.isSettled = false) : ∃ r ∈ s.system.store.dispatches, r.ref = t.item.ref := by
  have hpend := (Lanes.pending_settle ht hleft).map AgentCronDispatch.ref
  refine mem_map.mp (hall.mem_iff.mpr (mem_append_right _ (hpend.mem_iff.mpr ?_)))
  exact mem_cons_self

namespace Laned

section
variable (h : s.Laned) (hall : s.Accounted found)
include h hall

/-- A task settles, and its dispatch is resolved. -/
lemma accounted_settle (ht : s.lanes.tasks[i]? = some t) (hleft : t.phase.isSettled = false)
    (hrecordable : Recordable env t.item.id outcome error s.system.store.states) :
    (s.act ([⟨.recordDispatchResult t.item.id outcome error, env⟩],
      s.lanes.setPhase i .settled)).Accounted found := by
  have hpend := (Lanes.pending_settle ht hleft).map AgentCronDispatch.ref
  obtain ⟨r, hr, href⟩ := hall.exists_ref ht hleft
  have hid : r.id = t.item.id := congrArg Prod.fst href
  have hsplit : s.system.store.dispatches.Perm
      (r :: s.system.store.dispatches.filter fun r => r.id ≠ t.item.id) := by
    rw [← hid]
    exact KeyedList.perm_cons_filter_key h.recorded.sound.names hr
  have hrest : (s.act ([⟨.recordDispatchResult t.item.id outcome error, env⟩],
      s.lanes.setPhase i .settled)).system.store.dispatches =
        s.system.store.dispatches.filter fun r => r.id ≠ t.item.id := by
    refine Eq.trans ?_ (dispatchesOf_record hrecordable)
    exact congrArg dispatchesOf (CronStore.states_withStates length_mutateStates)
  have hrefs := (hsplit.map ref).symm.trans hall
  rw [map_cons, href, ← hrest] at hrefs
  exact (hrefs.trans ((hpend.append_left found).trans perm_middle)).cons_inv

lemma accounted_startTask (ht : s.lanes.tasks[i]? = some t) (hready : s.lanes.Ready t) :
    (s.act (s.scheduler.startTask i t.item env)).Accounted found := by
  have hleft : t.phase.isSettled = false := by rw [hready.1]; rfl
  unfold AgentCronScheduler.startTask
  split
  next hnone =>
    refine h.accounted_settle hall ht hleft ?_
    obtain ⟨r, hr, href⟩ := hall.exists_ref ht hleft
    obtain ⟨hid, hjobId⟩ := Prod.mk.inj href
    rw [← hid]
    exact recordable_of_getClaimedJob h.recorded.sound hr (hjobId ▸ hnone)
  next job hjob =>
    have hpend : (s.lanes.setPhase i (.running job)).pending = s.lanes.pending :=
      Lanes.pending_setPhase ht hleft rfl
    refine hall.trans (Perm.of_eq ?_)
    exact congrArg (fun pending => found ++ map AgentCronDispatch.ref pending) hpend.symm

lemma accounted_endTask {ending : RunJobEnd} (ht : s.lanes.tasks[i]? = some t)
    (hjob : t.phase = .running job) (hresolves : s.Resolves (.endTask i env ending)) :
    (s.act (s.scheduler.endTask i t.item env ending)).Accounted found := by
  obtain ⟨hrec, hskipped⟩ := hresolves
  rw [AgentCronScheduler.endTask]
  cases hending : ending.recorded with
  | none => exact absurd hending hrec
  | some recorded =>
    obtain ⟨outcome, error⟩ := recorded
    refine h.accounted_settle hall ht (by rw [hjob]; rfl) fun state hstate r hr hid job' hjob'
      hjobId hactive => exists_recordResult ?_
    rintro ⟨rfl, rfl⟩
    exact hskipped hending t ht state hstate r hr hid job' hjob' hjobId hactive

lemma accounted_runDue (hinj : Function.Injective env.randomUUID)
    (hfresh : ∀ n, env.randomUUID n ∉ s.system.claimed.map AgentCronDispatchRecord.id)
    (hresolves : s.Resolves (.runDue dueAt env recovery hooks)) :
    (s.act (s.scheduler.runDue dueAt env recovery hooks)).Accounted found := by
  obtain ⟨hhooks, honce⟩ := hresolves
  have hclaim {new : List AgentCronDispatchRecord} (hlanes : ClaimedLanes env 0
      s.system.store.states (claimStates env dueAt env.now 0 s.system.store.states).1 new) :
      ((s.act ([⟨.claimDue dueAt, env⟩], s.lanes)).system.store.dispatches.map
        ref).Perm (found ++ s.lanes.pending.map AgentCronDispatch.ref ++
          new.map ref) := by
    obtain ⟨-, -, hperm, -⟩ := h.recorded.perform_claim hinj hfresh hlanes
    refine (hperm.map _).trans ?_
    rw [map_append]
    exact hall.append_right _
  unfold AgentCronScheduler.runDue
  split
  next message hres =>
    have hdispatches := hclaim (claimStates_atOnce honce hres)
    rwa [map_nil, append_nil] at hdispatches
  next dispatches hres =>
    obtain ⟨new, hlanes, hrefs, -⟩ := claimStates_ok hres
    have hdispatches := hclaim hlanes
    rw [hrefs, append_assoc, ← map_append] at hdispatches
    rw [Accounted, act]
    rw [pending_queueAll]
    exact hdispatches
  next dispatches hres =>
    obtain ⟨new, hlanes, hrefs, -⟩ := claimStates_ok hres
    obtain ⟨-, -, hperm, hnew⟩ := h.recorded.perform_claim hinj hfresh hlanes
    have hids : new.map AgentCronDispatchRecord.id = dispatches.map AgentCronDispatch.id := by
      have hfst := congrArg (map Prod.fst) hrefs
      rwa [map_map, map_map] at hfst
    have hrest : (s.act ([⟨.claimDue dueAt, env⟩, ⟨.recoverInterruptedDispatchesById
        (dispatches.map AgentCronDispatch.id), recovery⟩], s.lanes)).system.store.dispatches =
          (s.act ([⟨.claimDue dueAt, env⟩], s.lanes)).system.store.dispatches.filter fun r =>
            r.id ∉ dispatches.map AgentCronDispatch.id := by
      refine Eq.trans ?_ (@dispatchesOf_recover recovery _ _)
      exact congrArg dispatchesOf (CronStore.states_withStates length_mutateStates)
    -- the recovery takes out what the claim has put in
    have hold : s.system.store.dispatches.filter
        (fun r => r.id ∉ dispatches.map AgentCronDispatch.id) = s.system.store.dispatches := by
      refine filter_eq_self.mpr fun r hr => decide_eq_true fun hmem => ?_
      rw [← hids] at hmem
      obtain ⟨r', hr', hid⟩ := mem_map.mp hmem
      exact hnew r' hr' (hid ▸ h.recorded.id_mem_claimed hr)
    have hgone : new.filter (fun r => r.id ∉ dispatches.map AgentCronDispatch.id) = [] := by
      refine filter_eq_nil_iff.mpr fun r hr => ?_
      rw [decide_eq_true_iff, not_not, ← hids]
      exact mem_map_of_mem hr
    have hfilter := hperm.filter fun r => r.id ∉ dispatches.map AgentCronDispatch.id
    rw [filter_append, hold, hgone, append_nil] at hfilter
    refine Perm.trans ?_ hall
    refine Perm.map _ ((Perm.of_eq hrest).trans hfilter)
  · exact absurd rfl hhooks

lemma accounted_step (hstep : (scheduling.guard Resolves).step s label s') :
    s'.Accounted found := by
  obtain ⟨hstep, hresolves⟩ := hstep
  cases label with
  | runDue dueAt env recovery hooks =>
    obtain ⟨hinj, hfresh, rfl⟩ := hstep
    exact h.accounted_runDue hall hinj hfresh hresolves
  | startTask i env =>
    obtain ⟨t, ht, hready, rfl⟩ := hstep
    exact h.accounted_startTask hall ht hready
  | endTask i env ending =>
    obtain ⟨t, job, ht, hjob, rfl⟩ := hstep
    exact h.accounted_endTask hall ht hjob hresolves
  | forgetLane i =>
    obtain ⟨t, ht, -, rfl⟩ := hstep
    refine hall.trans (Perm.of_eq ?_)
    exact congrArg (fun pending => found ++ map AgentCronDispatch.ref pending)
      (Lanes.pending_forget t.key).symm
  | edit store =>
    obtain ⟨hedited, rfl⟩ := hstep
    exact (hedited.dispatches.map _).trans hall

end

end Laned

/-- What was claimed since has been resolved, or a task is left for it, and never both; and as long
as one is left, one can go on, after which the tasks are nearer to their end. -/
structure Settles (s₀ s : SchedulerSystem) : Prop where
  accounted : (s.system.claimed.map ref).Perm
    (s₀.system.claimed.map ref ++
      (s.lanes.pending.map AgentCronDispatch.ref ++
        s.system.resolved.map ref))
  once : (s.system.claimed.map AgentCronDispatchRecord.id).Nodup
  progress : s.lanes.pending ≠ [] → ∀ env ending, ∃ i s',
    scheduling.step s (.startTask i env) s' ∨ scheduling.step s (.endTask i env ending) s'
  nearer : ∀ label s', label.isTask = true → scheduling.step s label s' →
    s'.lanes.remaining < s.lanes.remaining

structure Initial (s : SchedulerSystem) : Prop where
  system : s.system.Initial
  lanes : s.lanes = .empty

lemma Initial.laned (h : s.Initial) : s.Laned where
  recorded := h.system.kept.recorded
  chained := h.lanes ▸ Lanes.chained_empty
  keyed t ht := by
    rw [h.lanes] at ht
    cases ht
  bound t ht := by
    rw [h.lanes] at ht
    cases ht
  running t ht := by
    rw [h.lanes] at ht
    cases ht
  order := by
    rw [h.lanes]
    exact nil_sublist _

lemma Initial.accounted (h : s.Initial) :
    s.Accounted (s.system.claimed.map ref) := by
  rw [Accounted, h.lanes, h.system.claimed]
  exact Perm.of_eq (append_nil _).symm

lemma Laned.progress (h : s.Laned) (hleft : s.lanes.pending ≠ []) (env : CronEnv)
    (ending : RunJobEnd) : ∃ i s',
      scheduling.step s (.startTask i env) s' ∨ scheduling.step s (.endTask i env ending) s' := by
  obtain ⟨dispatch, hdisp⟩ := exists_mem_of_ne_nil _ hleft
  obtain ⟨t, ht, -⟩ := mem_map.mp hdisp
  obtain ⟨ht, hunset⟩ := mem_filter.mp ht
  obtain ⟨i, hi⟩ := mem_iff_getElem?.mp ht
  have hphase : t.phase ≠ .settled := by
    intro hsettled
    rw [hsettled] at hunset
    cases hunset
  obtain ⟨j, u, hu, hready | ⟨job, hjob⟩⟩ := h.chained.exists_active hi hphase
  · exact ⟨j, _, .inl ⟨u, hu, hready, rfl⟩⟩
  · exact ⟨j, _, .inr ⟨u, job, hu, hjob, rfl⟩⟩

lemma remaining_lt (hlabel : label.isTask = true) (hstep : scheduling.step s label s') :
    s'.lanes.remaining < s.lanes.remaining := by
  cases label with
  | startTask i env =>
    obtain ⟨t, ht, hready, rfl⟩ := hstep
    obtain ⟨phase, hlanes, hphase⟩ : ∃ phase, (s.act (s.scheduler.startTask i t.item env)).lanes =
        s.lanes.setPhase i phase ∧ phase.remaining < 2 := by
      unfold AgentCronScheduler.startTask
      split
      · exact ⟨.settled, rfl, by decide⟩
      next job _ => exact ⟨.running job, rfl, Nat.one_lt_two⟩
    have hremaining := Lanes.remaining_setPhase phase ht
    rw [hready.1, ← hlanes] at hremaining
    have hwaiting : (TaskPhase.waiting : TaskPhase AgentCronJob).remaining = 2 := rfl
    omega
  | endTask i env ending =>
    obtain ⟨t, job, ht, hjob, rfl⟩ := hstep
    have hremaining := Lanes.remaining_setPhase .settled ht
    rw [hjob] at hremaining
    exact Nat.lt_of_succ_le hremaining.le
  | runDue | forgetLane | edit => cases hlabel

lemma inLanes_of_run {s₀ : SchedulerSystem} {labels : List SchedulerLabel} (h₀ : s₀.Initial)
    (hrun : scheduling.Run s₀ labels s) : s.InLanes :=
  (hrun.invariant h₀.laned fun _ _ _ => Laned.step).inLanes

/-- **Dispatches settle in lanes.**  At most one job runs for an active session, and its dispatches
start in the order they were claimed.  In a run of steps that resolve what they claim or end, every
dispatch that was claimed has been resolved once, or a task is left for it; and the tasks that are
left come to their end. -/
theorem dispatches_settle_in_lanes {s₀ : SchedulerSystem} {labels : List SchedulerLabel}
    (h₀ : s₀.Initial) (hrun : (scheduling.guard Resolves).Run s₀ labels s) :
    s.InLanes ∧ s₀.Settles s := by
  obtain ⟨hlaned, hall⟩ : s.Laned ∧
      s.Accounted (s₀.system.claimed.map ref) :=
    hrun.invariant (I := fun s => s.Laned ∧
      s.Accounted (s₀.system.claimed.map ref)) ⟨h₀.laned, h₀.accounted⟩
      fun _ _ _ h hstep => ⟨h.1.step hstep.1, h.1.accounted_step h.2 hstep⟩
  refine ⟨inLanes_of_run h₀ hrun.of_guard, ?_, hlaned.recorded.names, hlaned.progress,
    fun _ _ => remaining_lt⟩
  have hlifecycle := hlaned.recorded.lifecycle.map ref
  rw [map_append] at hlifecycle
  refine hlifecycle.trans ((hall.append_right _).trans (Perm.of_eq ?_))
  rw [append_assoc]

/-! ## Two jobs of one session, and two of two sessions -/

open DispatchSystem (dueJob hostNaming hostNaming_injective)

def twoInLane : SchedulerSystem := ⟨DispatchSystem.twoDue, .empty⟩

lemma twoInLane_initial : twoInLane.Initial := ⟨DispatchSystem.twoDue_initial, rfl⟩

/-- Both are claimed, and the first has run. -/
def firstRuns : List SchedulerLabel :=
  [.runDue 0 (hostNaming 'a' 0) (hostNaming 'a' 0) .begun, .startTask 0 (hostNaming 'b' 0),
    .endTask 0 (hostNaming 'b' 1) (.returned none)]

/-- The task of the first, in a phase. -/
def firstTask (phase : TaskPhase AgentCronJob) :
    LaneTask String AgentCronDispatch AgentCronJob where
  key := "active"
  item := ⟨"a", { dueJob "once" ⟨.once, "in 1m", none⟩ with nextRunAt := none }⟩
  previous := none
  phase

theorem dispatches_settle_in_lanes_twoInLane : ∃ s, (scheduling.guard Resolves).Run twoInLane
    firstRuns s ∧ s.system.resolved.map AgentCronDispatchRecord.id = ["a"] ∧
      s.lanes.pending.map AgentCronDispatch.id = ["aa"] ∧ s.InLanes ∧ twoInLane.Settles s := by
  let claimed := twoInLane.act
    (twoInLane.scheduler.runDue 0 (hostNaming 'a' 0) (hostNaming 'a' 0) .begun)
  let started := claimed.act (claimed.scheduler.startTask 0 (firstTask .waiting).item
    (hostNaming 'b' 0))
  let ended := started.act (started.scheduler.endTask 0 (firstTask .waiting).item
    (hostNaming 'b' 1) (.returned none))
  have hclaim : (scheduling.guard Resolves).step twoInLane
      (.runDue 0 (hostNaming 'a' 0) (hostNaming 'a' 0) .begun) claimed := by
    refine ⟨⟨hostNaming_injective 'a' 0, fun n => not_mem_nil, rfl⟩, nofun, ?_⟩
    intro earlier state later hstates _ lane hlane
    have hlength := congrArg length hstates
    rw [length_append, length_cons] at hlength
    rw [length_eq_zero_iff.mp (show earlier.length = 0 by
      change 1 = _ at hlength
      omega)] at hlane
    cases hlane
  have hstart : (scheduling.guard Resolves).step claimed (.startTask 0 (hostNaming 'b' 0))
      started :=
    ⟨⟨firstTask .waiting, by decide +kernel, ⟨rfl, fun p hp => by cases hp⟩, rfl⟩, trivial⟩
  have hend : (scheduling.guard Resolves).step started
      (.endTask 0 (hostNaming 'b' 1) (.returned none)) ended :=
    ⟨⟨firstTask (.running (firstTask .waiting).item.job), _, by decide +kernel, rfl, rfl⟩,
      by decide, fun hskipped => by cases hskipped⟩
  have hrun := ((Machine.Run.nil.snoc hclaim).snoc hstart).snoc hend
  exact ⟨ended, hrun, by decide +kernel, by decide +kernel,
    dispatches_settle_in_lanes twoInLane_initial hrun⟩

/-- A job every ten seconds, of another session than the one on leap days. -/
def otherTick : AgentCronJob :=
  { tickJob with activeSessionId := "other", sessionId := "other", sessionFile := "other.jsonl" }

/-- Both jobs, in their session artifacts. -/
def tickAndLeap : SchedulerSystem where
  system := {
    store := .artifacts ⟨[("other", { jobs := [otherTick] }), ("session", { jobs := [leapJob] })],
      by decide⟩
    claimed := []
    resolved := []
    updates := [] }
  lanes := .empty

def tickDispatch : AgentCronDispatch :=
  ⟨"a", { otherTick with nextRunAt := some (leapDay + 10000), updatedAt := leapDay }⟩

def tickClaimed : CronJobsState :=
  ⟨[tickDispatch.job], [⟨"a", "tick", leapDay, leapDay - 50000⟩]⟩

/-- When claiming throws, nothing is queued. -/
lemma act_runDue_of_error {s : SchedulerSystem} {dueAt : ℤ}
    (h : s.system.store.claimDue env dueAt env.now = (store, .error message)) :
    s.act (s.scheduler.runDue dueAt env recovery hooks) = ⟨s.system.observe store, s.lanes⟩ := by
  have hclaim : s.scheduler.store.claimDue env dueAt env.now = (store, .error message) := h
  have hrunDue : s.scheduler.runDue dueAt env recovery hooks =
      ([⟨.claimDue dueAt, env⟩], s.lanes) := by
    unfold AgentCronScheduler.runDue
    rw [hclaim]
    rfl
  have hperform : s.system.perform ⟨.claimDue dueAt, env, none⟩ = s.system.observe store := by
    change s.system.observe (s.system.store.claimDue env dueAt env.now).1 = _
    rw [h]
  rw [hrunDue, act]
  dsimp only [List.foldl]
  rw [hperform]

lemma claimDue_tickAndLeap : tickAndLeap.system.store.claimDue (hostNaming 'a' leapDay) leapDay
        (hostNaming 'a' leapDay).now =
      (.artifacts ⟨[("other", tickClaimed), ("session", { jobs := [leapJob] })], by decide⟩,
        .error "Cron schedule did not match within one year: 0 0 29 2 *") := by
  have htick : claimDueInState (hostNaming 'a' leapDay) leapDay leapDay 0 { jobs := [otherTick] } =
      .ok (tickClaimed, [tickDispatch]) := by decide +kernel
  have hdue : leapJob.isDueJob leapDay = true := by decide +kernel
  have hleap : claimDueInState (hostNaming 'a' leapDay) leapDay leapDay 1 { jobs := [leapJob] } =
      .error "Cron schedule did not match within one year: 0 0 29 2 *" := by
    rw [claimDueInState, claimJobs, if_pos hdue, show (hostNaming 'a' leapDay).zone = .universal
      from rfl, advanceJob_leap]
    rfl
  have hstates : claimStates (hostNaming 'a' leapDay) leapDay leapDay 0
      [{ jobs := [otherTick] }, { jobs := [leapJob] }] = ([tickClaimed, { jobs := [leapJob] }],
        .error "Cron schedule did not match within one year: 0 0 29 2 *") := by
    rw [claimStates_cons_ok htick]
    change (_ :: (claimStates _ _ _ 1 _).1, (claimStates _ _ _ 1 _).2.map _) = _
    rw [claimStates_cons_error hleap]
    rfl
  have hread : tickAndLeap.system.store.states =
      [{ jobs := [otherTick] }, { jobs := [leapJob] }] := rfl
  rw [CronStore.claimDue, hread, show (hostNaming 'a' leapDay).now = leapDay from rfl, hstates]
  rfl

/-- On a leap day what is claimed of the first is left behind: no task will resolve it. -/
theorem claim_left_behind : ∃ s, tickAndLeap.Initial ∧
    scheduling.Run tickAndLeap [.runDue leapDay (hostNaming 'a' leapDay) (hostNaming 'a' leapDay)
      .begun] s ∧ s.system.claimed.map ref = [("a", "tick")] ∧
      s.system.resolved = [] ∧ s.lanes.pending = [] ∧
      ∀ label s', label.isTask = true → ¬scheduling.step s label s' := by
  have hinitial : tickAndLeap.Initial :=
    ⟨⟨⟨by decide +kernel, by decide +kernel, by decide +kernel, by decide +kernel⟩, rfl, rfl, rfl⟩,
      rfl⟩
  refine ⟨_, hinitial, Machine.Run.single ⟨hostNaming_injective 'a' leapDay, fun n => not_mem_nil,
    rfl⟩, ?_⟩
  rw [act_runDue_of_error claimDue_tickAndLeap]
  refine ⟨by decide +kernel, by decide +kernel, rfl, fun label s' hlabel hstep => ?_⟩
  cases label with
  | startTask i env =>
    obtain ⟨t, ht, -⟩ := hstep
    cases ht
  | endTask i env ending =>
    obtain ⟨t, job, ht, -⟩ := hstep
    cases ht
  | runDue | forgetLane | edit => cases hlabel

end SchedulerSystem

end Amide
