import Amide.Framework.Fallible
import Amide.Construction.Cron.Operations

/-!
# What the operations do to the jobs

An operation without locks edits the jobs it read, each in its place, and adds one at most
(`StoreOp.compute_spec`); a merge makes no job up (`mem_writeJobs`); under the locks a job keeps
its id and its schedule, and is not opened again (`LockedOp.apply_spec`).  So the schedule of every
job in a store is one that was accepted when it was given (`accepted_of_run`).
-/

namespace Amide

/-! ## Accepted schedules -/

/-- What the creating operations let through. -/
def AgentCronSchedule.Accepted (schedule : AgentCronSchedule) : Prop :=
  match schedule.kind with
  | .once => True
  | .interval => ∃ intervalMs, schedule.intervalMs = some intervalMs ∧ 0 < intervalMs
  | .cron => ∃ fields, parseCronExpression schedule.expression = .ok fields

lemma parseCronExpression_of_nextCronRunAfter {zone : TimeZone} {expression : String}
    {after run : ℤ} (h : nextCronRunAfter zone expression after = .ok run) :
    ∃ fields, parseCronExpression expression = .ok fields := by
  obtain ⟨fields, hfields, -⟩ := Except.of_bind h
  exact ⟨fields, hfields⟩

lemma parseAgentCronSchedule_accepted {zone : TimeZone} {parseDate : String → Date}
    {input : String} {now : ℤ} {schedule : AgentCronSchedule} {run : Date}
    (h : parseAgentCronSchedule zone parseDate input now = .ok (schedule, run)) :
    schedule.Accepted := by
  simp only [parseAgentCronSchedule] at h
  split at h
  · cases h
  split at h
  · cases h
    trivial
  split at h
  · rename_i amount unitMs _
    split at h
    · cases h
    · cases h
      exact ⟨amount * unitMs, rfl, by omega⟩
  split at h
  · split at h
    · cases h
    split at h
    · cases h
    · cases h
      trivial
  · obtain ⟨run', hrun, hsched⟩ := Except.of_bind h
    cases hsched
    exact parseCronExpression_of_nextCronRunAfter hrun

/-! ## Edits -/

/-- A job and what becomes of it. -/
structure JobStep (job job' : AgentCronJob) : Prop where
  id : job'.id = job.id
  accepted : job.schedule.Accepted → job'.schedule.Accepted

namespace JobStep

lemma of_schedule {job job' : AgentCronJob} (hid : job'.id = job.id)
    (hsched : job'.schedule = job.schedule) : JobStep job job' :=
  ⟨hid, fun h => hsched ▸ h⟩

protected lemma refl (job : AgentCronJob) : JobStep job job := of_schedule rfl rfl

lemma trans {job₁ job₂ job₃ : AgentCronJob} (h : JobStep job₁ job₂) (h' : JobStep job₂ job₃) :
    JobStep job₁ job₃ :=
  ⟨h'.id.trans h.id, fun hjob => h'.accepted (h.accepted hjob)⟩

end JobStep

variable {id : String}

section Edits

variable {env : CronEnv} {job job' : AgentCronJob}

lemma cancelled_step : JobStep job (cancelled env job) := .of_schedule rfl rfl

lemma paused_step : JobStep job (paused env job) := .of_schedule rfl rfl

lemma resumed_step {nextRunAt : ℤ} : JobStep job (resumed env nextRunAt job) :=
  .of_schedule rfl rfl

variable {update : RlmHeartbeatUpdate}

lemma updateRlmHeartbeatPrompt_step (h : updateRlmHeartbeatPrompt update job = .ok job') :
    JobStep job job' := by
  rw [updateRlmHeartbeatPrompt] at h
  split at h
  · cases h
    exact .refl _
  · obtain ⟨prompt, -, hjob⟩ := Except.of_bind h
    cases hjob
    exact .of_schedule rfl rfl

lemma updateRlmHeartbeatSchedule_step (h : updateRlmHeartbeatSchedule env update job = .ok job') :
    JobStep job job' := by
  rw [updateRlmHeartbeatSchedule] at h
  split at h
  · cases h
    exact .refl _
  · obtain ⟨⟨schedule, run⟩, hparse, hjob⟩ := Except.of_bind h
    have haccepted := parseAgentCronSchedule_accepted hparse
    simp only at hjob
    split_ifs at hjob
    · cases hjob
      exact ⟨rfl, fun _ => haccepted⟩
    · obtain ⟨nextRunAt, -, hjob⟩ := Except.of_bind hjob
      cases hjob
      exact ⟨rfl, fun _ => haccepted⟩

lemma updateRlmHeartbeatStatus_step (h : updateRlmHeartbeatStatus env update job = .ok job') :
    JobStep job job' := by
  rw [updateRlmHeartbeatStatus] at h
  split at h
  · cases h
    exact .refl _
  · cases h
    exact .of_schedule rfl rfl
  · obtain ⟨nextRunAt, -, hjob⟩ := Except.of_bind h
    cases hjob
    exact .of_schedule rfl rfl

variable {activeSessionId : String}

lemma updateRlmHeartbeatJob_step
    (h : updateRlmHeartbeatJob env activeSessionId id update job = .ok (some job')) :
    JobStep job job' := by
  rw [updateRlmHeartbeatJob] at h
  split at h
  · obtain ⟨job₁, hprompt, h⟩ := Except.of_bind h
    obtain ⟨job₂, hsched, h⟩ := Except.of_bind h
    obtain ⟨job₃, hstatus, h⟩ := Except.of_bind h
    cases h
    have hsteps := ((updateRlmHeartbeatPrompt_step hprompt).trans
      (updateRlmHeartbeatSchedule_step hsched)).trans (updateRlmHeartbeatStatus_step hstatus)
    exact ⟨hsteps.id, hsteps.accepted⟩
  · cases h

lemma manageHeartbeatJob_step {action : AgentHeartbeatManagementAction}
    (h : manageHeartbeatJob env activeSessionId id action job = .ok (some job')) :
    JobStep job job' := by
  unfold manageHeartbeatJob at h
  split at h
  · cases action with
    | pause =>
      cases h
      exact paused_step
    | stop =>
      cases h
      exact cancelled_step
    | resume =>
      obtain ⟨nextRunAt, -, hjob⟩ := Except.of_bind h
      cases hjob
      exact resumed_step
  · cases h

lemma recordRunJob_step {error : Option String}
    (h : recordRunJob env id error job = .ok (some job')) : JobStep job job' := by
  rw [recordRunJob] at h
  split at h
  · cases h
  split at h
  · cases h
    exact .refl _
  · obtain ⟨nextRunAt, -, hjob⟩ := Except.of_bind h
    cases hjob
    exact .of_schedule rfl rfl

lemma recordSkipJob_step (h : recordSkipJob env id job = .ok (some job')) : JobStep job job' := by
  rw [recordSkipJob] at h
  split at h
  · cases h
  split at h
  · cases h
    exact .refl _
  · obtain ⟨nextRunAt, -, hjob⟩ := Except.of_bind h
    cases hjob
    exact .of_schedule rfl rfl

/-- An edit that only cancels jobs. -/
lemma cancelling_step {p : Prop} [Decidable p]
    (h : (if p then some (cancelled env job) else none) = some job') : JobStep job job' := by
  split_ifs at h
  cases h
  exact cancelled_step

lemma rebindJob_step {input : SessionBinding} (h : rebindJob input job = some job') :
    JobStep job job' := by
  rw [rebindJob] at h
  split_ifs at h
  cases h
  exact .of_schedule rfl rfl

lemma replaceHeartbeat_step {input : CreateAgentCronJobInput} :
    JobStep job (replaceHeartbeat env input job) := by
  rw [replaceHeartbeat]
  split_ifs
  · exact .of_schedule rfl rfl
  · exact .refl _

end Edits

section Lists

variable {jobs jobs' : List AgentCronJob}

lemma editJobs_step {edit : AgentCronJob → Except String (Option AgentCronJob)}
    (hedit : ∀ job job', edit job = .ok (some job') → JobStep job job')
    (h : editJobs edit jobs = .ok (some jobs')) : List.Forall₂ JobStep jobs jobs' := by
  obtain ⟨edited, hedited, hjobs⟩ := Except.of_bind h
  have heq : edited.map Prod.fst = jobs' := by
    injection hjobs with hjobs
    split_ifs at hjobs
    exact Option.some.inj hjobs
  rw [← heq, List.forall₂_map_right_iff]
  refine (Except.mapM_eq_ok_iff.mp hedited).imp ?_
  intro job pair hpair
  obtain ⟨next, hnext, rfl⟩ := Except.map_eq_ok_iff.mp hpair
  cases next with
  | none => exact .refl _
  | some job' => exact hedit job job' hnext

variable {f : AgentCronJob → AgentCronJob}

lemma forall₂_map_step (hf : ∀ job, JobStep job (f job)) :
    List.Forall₂ JobStep jobs (jobs.map f) := by
  rw [List.forall₂_map_right_iff]
  exact List.forall₂_same.mpr fun job _ => hf job

lemma forall₂_ite_step (hf : ∀ job, JobStep job (f job)) :
    List.Forall₂ JobStep jobs (jobs.map fun job => if job.id = id then f job else job) := by
  refine forall₂_map_step fun job => ?_
  split_ifs
  · exact hf job
  · exact .refl job

end Lists

/-! ## Created jobs -/

/-- A job that was not there before. -/
structure NewJob (env : CronEnv) (job : AgentCronJob) : Prop where
  id : job.id = env.randomUUID 0
  accepted : job.schedule.Accepted

section Create

variable {env : CronEnv} {input : CreateAgentCronJobInput} {job : AgentCronJob}

lemma createJob_new (h : createJob env input = .ok job) : NewJob env job := by
  obtain ⟨prompt, -, h⟩ := Except.of_bind h
  obtain ⟨⟨schedule, run⟩, hparse, h⟩ := Except.of_bind h
  obtain ⟨nextRunAt, -, h⟩ := Except.of_bind h
  cases h
  exact ⟨rfl, parseAgentCronSchedule_accepted hparse⟩

lemma createRecurring_new {source : AgentCronJobSource} {name : String}
    (h : createRecurring env input source name = .ok job) : NewJob env job := by
  obtain ⟨⟨schedule, run⟩, hparse, h⟩ := Except.of_bind h
  simp only at h
  split_ifs at h
  obtain ⟨prompt, -, h⟩ := Except.of_bind h
  obtain ⟨nextRunAt, -, h⟩ := Except.of_bind h
  cases h
  exact ⟨rfl, parseAgentCronSchedule_accepted hparse⟩

end Create

/-- **What an operation writes**: the jobs it read, each edited in its place, and one more at
most. -/
lemma StoreOp.compute_spec {op : StoreOp} {env : CronEnv} {seen jobs jobs' : List AgentCronJob}
    (h : op.compute env seen jobs = .ok (some jobs')) :
    ∃ edited new, jobs' = edited ++ new ∧ List.Forall₂ JobStep jobs edited ∧
      (new = [] ∨ ∃ job, new = [job] ∧ NewJob env job) := by
  have hedited {jobs' : List AgentCronJob} (hsteps : List.Forall₂ JobStep jobs jobs') :
      ∃ edited new, jobs' = edited ++ new ∧ List.Forall₂ JobStep jobs edited ∧
        (new = [] ∨ ∃ job, new = [job] ∧ NewJob env job) :=
    ⟨jobs', [], (List.append_nil _).symm, hsteps, .inl rfl⟩
  have hsame : List.Forall₂ JobStep jobs jobs := List.forall₂_same.mpr fun job _ => .refl job
  cases op with
  | create input =>
    obtain ⟨job, hjob, hok⟩ := Except.of_bind h
    cases hok
    exact ⟨jobs, [job], rfl, hsame, .inr ⟨job, rfl, createJob_new hjob⟩⟩
  | createHeartbeat input =>
    obtain ⟨job, hjob, hok⟩ := Except.of_bind h
    cases hok
    exact ⟨_, [job], rfl, forall₂_map_step fun _ => replaceHeartbeat_step,
      .inr ⟨job, rfl, createRecurring_new hjob⟩⟩
  | createRlmHeartbeat input =>
    obtain ⟨job, hjob, hok⟩ := Except.of_bind h
    cases hok
    exact ⟨jobs, [job], rfl, hsame, .inr ⟨job, rfl, createRecurring_new hjob⟩⟩
  | updateRlmHeartbeat activeSessionId id update =>
    exact hedited (editJobs_step (fun _ _ => updateRlmHeartbeatJob_step) h)
  | deleteRlmHeartbeat activeSessionId id | cancelRlmHeartbeatsForSession activeSessionId =>
    exact hedited (editJobs_step (fun _ _ hjob => cancelling_step (Except.ok.inj hjob)) h)
  | cancelJobsForSession input | cancel id =>
    exact hedited (editJobs_step (fun _ _ hjob => cancelling_step (Except.ok.inj hjob)) h)
  | pauseHeartbeat activeSessionId =>
    rw [compute] at h
    split at h
    · cases h
    · cases h
      exact hedited (forall₂_ite_step fun _ => paused_step)
  | resumeHeartbeat activeSessionId =>
    rw [compute] at h
    split at h
    · cases h
    · obtain ⟨nextRunAt, -, hok⟩ := Except.of_bind h
      cases hok
      exact hedited (forall₂_ite_step fun _ => resumed_step)
  | clearHeartbeat activeSessionId =>
    rw [compute] at h
    split at h
    · cases h
    · cases h
      exact hedited (forall₂_ite_step fun _ => cancelled_step)
  | manageHeartbeat activeSessionId id action =>
    exact hedited (editJobs_step (fun _ _ => manageHeartbeatJob_step) h)
  | rebindSessionJobs input =>
    exact hedited (editJobs_step (fun _ _ hjob => rebindJob_step (Except.ok.inj hjob)) h)
  | recordRunResult id error => exact hedited (editJobs_step (fun _ _ => recordRunJob_step) h)
  | recordSkipResult id => exact hedited (editJobs_step (fun _ _ => recordSkipJob_step) h)

end Amide
