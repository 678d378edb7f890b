import Amide.Construction.Cron.Jobs
import Amide.Framework.Machine

/-!
# Operations on the store of cron jobs (`core/cron-jobs.ts`)

Processes share a store.  An operation takes its time, reads the jobs without a lock, computes
what to write from them, and writes it later under the locks (`CronProcess`); what other
processes write in between is only seen by the merge.  The operations on a session's heartbeat
read the jobs twice: once to find the heartbeat, and again to change it (`StoreOp.compute`).
Claiming, recording a result and recovering are one step each, under the locks (`LockedOp`).

`cronMachine` has the steps of any number of processes in any order.  A process that dies takes no
more steps, and no name that `randomUUID` gives to an operation has been given before.
-/

namespace Amide

inductive AgentCronJobRunResult where
  | ran
  | skipped
  deriving DecidableEq

inductive AgentHeartbeatManagementAction where
  | pause
  | resume
  | stop

inductive AgentRlmHeartbeatStatusUpdate where
  | pause
  | resume

structure RlmHeartbeatUpdate where
  label : Option String := none
  prompt : Option String := none
  scheduleText : Option String := none
  status : Option AgentRlmHeartbeatStatusUpdate := none
  deliveryMode : Option AgentHeartbeatDeliveryMode := none

/-- The session that is meant, by any of its names. -/
structure SessionJobsInput where
  activeSessionId : Option String := none
  sessionId : Option String := none
  sessionFile : Option String := none

/-- Where a session's jobs are bound to. -/
structure SessionBinding where
  activeSessionId : String
  sessionId : String
  sessionFile : String
  cwd : String

/-! ## Edits of jobs -/

/-- The jobs with the edited ones in their places, unless no job is edited. -/
def editJobs (edit : AgentCronJob → Except String (Option AgentCronJob))
    (jobs : List AgentCronJob) : Except String (Option (List AgentCronJob)) := do
  let edited ← jobs.mapM fun job => (edit job).map fun next => (next.getD job, next.isSome)
  .ok (if edited.any Prod.snd then some (edited.map Prod.fst) else none)

section Edits

variable (env : CronEnv)

def cancelled (job : AgentCronJob) : AgentCronJob :=
  ({ job with status := .cancelled, updatedAt := env.now } : AgentCronJob).withoutNextRunAt

def paused (job : AgentCronJob) : AgentCronJob :=
  ({ job with status := .paused, updatedAt := env.now } : AgentCronJob).withoutNextRunAt

def resumed (nextRunAt : ℤ) (job : AgentCronJob) : AgentCronJob :=
  { job with status := .active, nextRunAt := some nextRunAt, updatedAt := env.now }

/-- Throws for a schedule that does not recur. -/
def recurringRunAt (message : String) (schedule : AgentCronSchedule) : Except String ℤ := do
  let next ← nextRunAtForSchedule env.zone schedule env.now
  match next with
  | none => .error message
  | some date => toISOString date

def updateRlmHeartbeatPrompt (update : RlmHeartbeatUpdate) (job : AgentCronJob) :
    Except String AgentCronJob :=
  match update.prompt with
  | none => .ok job
  | some text => do
    let prompt ← trimmedPrompt text "RLM heartbeat instruction cannot be empty"
    .ok { job with prompt }

def updateRlmHeartbeatSchedule (update : RlmHeartbeatUpdate) (job : AgentCronJob) :
    Except String AgentCronJob :=
  match update.scheduleText with
  | none => .ok job
  | some text => do
    let (schedule, nextRunAt) ← parseAgentCronSchedule env.zone env.parseDate text env.now
    if schedule.kind = .once then .error "RLM heartbeat schedule must be recurring"
    else if job.status = .paused then
      .ok ({ job with schedule } : AgentCronJob).withoutNextRunAt
    else do
      let nextRunAt ← toISOString nextRunAt
      .ok { job with schedule, nextRunAt := some nextRunAt }

def updateRlmHeartbeatStatus (update : RlmHeartbeatUpdate) (job : AgentCronJob) :
    Except String AgentCronJob :=
  match update.status with
  | none => .ok job
  | some .pause => .ok ({ job with status := .paused } : AgentCronJob).withoutNextRunAt
  | some .resume => do
    let nextRunAt ← recurringRunAt env "RLM heartbeat schedule must be recurring" job.schedule
    .ok { job with status := .active, nextRunAt := some nextRunAt }

def updateRlmHeartbeatJob (activeSessionId id : String) (update : RlmHeartbeatUpdate)
    (job : AgentCronJob) : Except String (Option AgentCronJob) :=
  if job.id = id ∧ job.activeSessionId = activeSessionId ∧ job.source = some .rlmHeartbeat ∧
      job.isOpen = true then do
    let job : AgentCronJob := { job with
      label := match update.label with
        | none => job.label
        | some label => normalizeOptionalLabel (some label)
      deliveryMode := update.deliveryMode <|> job.deliveryMode }
    let job ← updateRlmHeartbeatPrompt update job
    let job ← updateRlmHeartbeatSchedule env update job
    let job ← updateRlmHeartbeatStatus env update job
    .ok (some { job with updatedAt := env.now })
  else .ok none

/-- Whatever its status. -/
def deleteRlmHeartbeatJob (activeSessionId id : String) (job : AgentCronJob) :
    Option AgentCronJob :=
  if job.id = id ∧ job.activeSessionId = activeSessionId ∧ job.source = some .rlmHeartbeat then
    some (cancelled env job)
  else none

def cancelRlmHeartbeatJob (activeSessionId : String) (job : AgentCronJob) : Option AgentCronJob :=
  if job.activeSessionId = activeSessionId ∧ job.source = some .rlmHeartbeat ∧
      job.isOpen = true then
    some (cancelled env job)
  else none

def cancelSessionJob (input : SessionJobsInput) (job : AgentCronJob) : Option AgentCronJob :=
  if (input.activeSessionId = some job.activeSessionId ∨ input.sessionId = some job.sessionId ∨
      input.sessionFile.filter (· ≠ "") = some job.sessionFile) ∧ job.isOpen = true then
    some (cancelled env job)
  else none

def manageHeartbeatJob (activeSessionId id : String) (action : AgentHeartbeatManagementAction)
    (job : AgentCronJob) : Except String (Option AgentCronJob) :=
  if job.id = id ∧ job.activeSessionId = activeSessionId ∧ job.isHeartbeatCronJob = true ∧
      job.isOpen = true then
    match action with
    | .pause => .ok (some (paused env job))
    | .stop => .ok (some (cancelled env job))
    | .resume => do
      let nextRunAt ← recurringRunAt env "Heartbeat schedule must be recurring" job.schedule
      .ok (some (resumed env nextRunAt job))
  else .ok none

/-- A completed job is cancelled as well. -/
def cancelJob (id : String) (job : AgentCronJob) : Option AgentCronJob :=
  if job.id = id ∧ job.status ≠ .cancelled then some (cancelled env job) else none

def rebindJob (input : SessionBinding) (job : AgentCronJob) : Option AgentCronJob :=
  if (job.activeSessionId = input.activeSessionId ∨ job.sessionFile = input.sessionFile) ∧
      ¬(job.activeSessionId = input.activeSessionId ∧ job.sessionId = input.sessionId ∧
        job.sessionFile = input.sessionFile ∧ job.cwd = input.cwd) then
    -- not a change that makes the job any fresher
    some { job with
      activeSessionId := input.activeSessionId, sessionId := input.sessionId,
      sessionFile := input.sessionFile, cwd := input.cwd }
  else none

def nextRunText (schedule : AgentCronSchedule) (after : ℤ) : Except String (Option ℤ) := do
  let next ← nextRunAtForSchedule env.zone schedule after
  match next with
  | none => .ok none
  | some date => (toISOString date).map some

/-- When a job runs again that has just run. -/
def nextRunAfterRun (job : AgentCronJob) : Except String (Option ℤ) :=
  match job.schedule.kind with
  | .cron => nextRunText env job.schedule (env.now + 1)
  | .interval => nextRunText env job.schedule env.now
  | .once => .ok none

/-- Written anew, but not changed, when it is not active. -/
def recordRunJob (id : String) (error : Option String) (job : AgentCronJob) :
    Except String (Option AgentCronJob) :=
  if job.id ≠ id then .ok none
  else if job.status ≠ .active then .ok (some job)
  else do
    let nextRunAt ← nextRunAfterRun env job
    .ok (some { job with
      status := if job.schedule.kind = .once then .completed else .active
      nextRunAt, lastRunAt := some env.now, lastError := error, runCount := job.runCount + 1,
      updatedAt := env.now })

def recordSkipJob (id : String) (job : AgentCronJob) : Except String (Option AgentCronJob) :=
  if job.id ≠ id then .ok none
  else if job.status ≠ .active then .ok (some job)
  else do
    let nextRunAt ← nextRunText env job.schedule env.now
    .ok (some { job with nextRunAt, lastSkippedAt := some env.now, updatedAt := env.now })

/-- The freshest of the session's open heartbeats. -/
def getHeartbeat (activeSessionId : String) (jobs : List AgentCronJob) : Option AgentCronJob :=
  (jobs.filter fun job => job.activeSessionId = activeSessionId ∧
      job.source = some .heartbeat ∧ job.isOpen = true).foldl
    (fun best job =>
      match best with
      | none => some job
      | some current => if current.updatedAt < job.updatedAt then some job else some current)
    none

end Edits

/-! ## Operations -/

/-- The operations that write jobs read without a lock. -/
inductive StoreOp where
  | create (input : CreateAgentCronJobInput)
  | createHeartbeat (input : CreateAgentCronJobInput)
  | createRlmHeartbeat (input : CreateAgentCronJobInput)
  | updateRlmHeartbeat (activeSessionId id : String) (update : RlmHeartbeatUpdate)
  | deleteRlmHeartbeat (activeSessionId id : String)
  | cancelRlmHeartbeatsForSession (activeSessionId : String)
  | cancelJobsForSession (input : SessionJobsInput)
  | pauseHeartbeat (activeSessionId : String)
  | resumeHeartbeat (activeSessionId : String)
  | clearHeartbeat (activeSessionId : String)
  | manageHeartbeat (activeSessionId id : String) (action : AgentHeartbeatManagementAction)
  | cancel (id : String)
  | rebindSessionJobs (input : SessionBinding)
  | recordRunResult (id : String) (error : Option String)
  | recordSkipResult (id : String)

namespace StoreOp

variable (env : CronEnv)

/-- The jobs an operation writes, if any, from the jobs it saw when it started and the jobs it
read afterwards.  Only the first look is used to find a session's heartbeat. -/
def compute (seen jobs : List AgentCronJob) : StoreOp → Except String (Option (List AgentCronJob))
  | create input => do
    let job ← createJob env input
    .ok (some (jobs ++ [job]))
  | createHeartbeat input => do
    let job ← createHeartbeatJob env input
    .ok (some (jobs.map (replaceHeartbeat env input) ++ [job]))
  | createRlmHeartbeat input => do
    let job ← createRlmHeartbeatJob env input
    .ok (some (jobs ++ [job]))
  | updateRlmHeartbeat activeSessionId id update =>
    editJobs (updateRlmHeartbeatJob env activeSessionId id update) jobs
  | deleteRlmHeartbeat activeSessionId id =>
    editJobs (.ok ∘ deleteRlmHeartbeatJob env activeSessionId id) jobs
  | cancelRlmHeartbeatsForSession activeSessionId =>
    editJobs (.ok ∘ cancelRlmHeartbeatJob env activeSessionId) jobs
  | cancelJobsForSession input => editJobs (.ok ∘ cancelSessionJob env input) jobs
  | pauseHeartbeat activeSessionId =>
    match getHeartbeat activeSessionId seen with
    | none => .ok none
    | some current =>
      .ok (some (jobs.map fun job => if job.id = current.id then paused env job else job))
  | resumeHeartbeat activeSessionId =>
    match getHeartbeat activeSessionId seen with
    | none => .ok none
    | some current => do
      let nextRunAt ← recurringRunAt env "Heartbeat schedule must be recurring" current.schedule
      .ok (some (jobs.map fun job =>
        if job.id = current.id then resumed env nextRunAt job else job))
  | clearHeartbeat activeSessionId =>
    match getHeartbeat activeSessionId seen with
    | none => .ok none
    | some current =>
      .ok (some (jobs.map fun job => if job.id = current.id then cancelled env job else job))
  | manageHeartbeat activeSessionId id action =>
    editJobs (manageHeartbeatJob env activeSessionId id action) jobs
  | cancel id => editJobs (.ok ∘ cancelJob env id) jobs
  | rebindSessionJobs input => editJobs (.ok ∘ rebindJob input) jobs
  | recordRunResult id error => editJobs (recordRunJob env id error) jobs
  | recordSkipResult id => editJobs (recordSkipJob env id) jobs

end StoreOp

/-! ## Under the locks -/

section Locked

variable (env : CronEnv)

/-- A job whose dispatch is over. -/
def recordResult (outcome : AgentCronJobRunResult) (error : Option String) (job : AgentCronJob) :
    Except String AgentCronJob :=
  let status := if job.schedule.kind = .once then .completed else job.status
  if outcome = .skipped ∧ error = none then do
    let nextRunAt ← nextRunText env job.schedule env.now
    .ok { job with status, nextRunAt, lastSkippedAt := some env.now, updatedAt := env.now }
  else
    .ok { job with
      status, lastRunAt := some env.now, lastError := error, runCount := job.runCount + 1,
      updatedAt := env.now }

def recordDispatchInState (dispatchId : String) (outcome : AgentCronJobRunResult)
    (error : Option String) (state : CronJobsState) : Except String CronJobsState :=
  match state.dispatches.find? fun candidate => candidate.id == dispatchId with
  | none => .ok state
  | some dispatch => do
    let jobs ← state.jobs.mapM fun job =>
      if job.id = dispatch.jobId ∧ job.status = .active then recordResult env outcome error job
      else .ok job
    .ok ⟨jobs, state.dispatches.filter fun candidate => candidate.id ≠ dispatchId⟩

/-- A job whose dispatch was cut off. -/
def interruptedJob (job : AgentCronJob) : AgentCronJob :=
  { job with
    status := if job.schedule.kind = .once then .completed else job.status
    lastError := some "Interrupted before scheduled operation completion"
    updatedAt := env.now }

/-- Without ids, every dispatch is taken for cut off. -/
def recoverInterruptedInState (dispatchIds : Option (List String)) (state : CronJobsState) :
    CronJobsState :=
  let isInterrupted := fun dispatch : AgentCronDispatchRecord =>
    dispatchIds.all fun ids => ids.contains dispatch.id
  let interruptedIds := (state.dispatches.filter isInterrupted).map AgentCronDispatchRecord.jobId
  ⟨state.jobs.map fun job =>
      if interruptedIds.contains job.id ∧ job.status = .active then interruptedJob env job
      else job,
    state.dispatches.filter fun dispatch => !isInterrupted dispatch⟩

/-- One state after the other, up to the first that throws. -/
def mutateStates (mutator : CronJobsState → Except String CronJobsState) :
    List CronJobsState → List CronJobsState × Except String Unit
  | [] => ([], .ok ())
  | state :: states =>
    match mutator state with
    | .error message => (state :: states, .error message)
    | .ok state' =>
      let (states', result) := mutateStates mutator states
      (state' :: states', result)

end Locked

/-- The operations that read and write under the locks.  A recovered artifact is one lane. -/
inductive LockedOp where
  | claimDue (dueAt : ℤ)
  | recordDispatchResult (dispatchId : String) (outcome : AgentCronJobRunResult)
      (error : Option String)
  | recoverInterruptedDispatches
  | recoverInterruptedDispatchesById (dispatchIds : List String)
  | recoverSessionArtifact (sessionId : String)

namespace LockedOp

/-- The store afterwards, also when the operation throws. -/
def apply (env : CronEnv) (store : CronStore) : LockedOp → CronStore
  | claimDue dueAt => (store.claimDue env dueAt env.now).1
  | recordDispatchResult dispatchId outcome error =>
    store.withStates
      (mutateStates (recordDispatchInState env dispatchId outcome error) store.states).1
  | recoverInterruptedDispatches =>
    store.withStates
      (mutateStates (.ok ∘ recoverInterruptedInState env none) store.states).1
  | recoverInterruptedDispatchesById dispatchIds =>
    store.withStates
      (mutateStates (.ok ∘ recoverInterruptedInState env (some dispatchIds)) store.states).1
  | recoverSessionArtifact sessionId =>
    match store with
    | .file state => .file state
    | .artifacts lanes =>
      .artifacts (CronStore.mapLanes (fun name state =>
        if name = sessionId then recoverInterruptedInState env none state else state) lanes)

end LockedOp

/-! ## Processes that share a store -/

/-- Where a process stands in an operation. -/
inductive CronProcess where
  | idle
  | started (op : StoreOp) (env : CronEnv) (seen : List AgentCronJob)
  | writing (jobs : List AgentCronJob)

/-- With the time and the names given out so far. -/
structure CronSystem (P : Type*) where
  store : CronStore
  process : P → CronProcess
  clock : ℤ
  names : List String

inductive CronLabel (P : Type*) where
  | start (p : P) (op : StoreOp) (env : CronEnv)
  | read (p : P)
  | write (p : P)
  | locked (op : LockedOp) (env : CronEnv)

section Machine

variable {P : Type*} [DecidableEq P]

def CronSystem.set (s : CronSystem P) (p : P) (phase : CronProcess) : CronSystem P :=
  { s with process := Function.update s.process p phase }

/-- The clock is shared and does not go back.  An operation that throws writes nothing. -/
def cronMachine : Machine (CronSystem P) (CronLabel P) where
  step s label s' :=
    match label with
    | .start p op env => s.process p = .idle ∧ s.clock ≤ env.now ∧ env.randomUUID 0 ∉ s.names ∧
        s' = { s.set p (.started op env s.store.readJobs) with
          clock := env.now, names := env.randomUUID 0 :: s.names }
    | .read p => ∃ op env seen, s.process p = .started op env seen ∧
        s' = s.set p (match op.compute env seen s.store.readJobs with
          | .ok (some jobs) => .writing jobs
          | _ => .idle)
    | .write p => ∃ jobs, s.process p = .writing jobs ∧
        s' = { s.set p .idle with store := (s.store.writeJobs jobs).toOption.getD s.store }
    | .locked op env => s.clock ≤ env.now ∧
        s' = { s with store := op.apply env s.store, clock := env.now }

/-- The state after a step, if it can be taken. -/
def CronSystem.perform (s : CronSystem P) : CronLabel P → Option (CronSystem P)
  | .start p op env =>
    match s.process p with
    | .idle =>
      if s.clock ≤ env.now ∧ env.randomUUID 0 ∉ s.names then
        some { s.set p (.started op env s.store.readJobs) with
          clock := env.now, names := env.randomUUID 0 :: s.names }
      else none
    | _ => none
  | .read p =>
    match s.process p with
    | .started op env seen =>
      some (s.set p (match op.compute env seen s.store.readJobs with
        | .ok (some jobs) => .writing jobs
        | _ => .idle))
    | _ => none
  | .write p =>
    match s.process p with
    | .writing jobs =>
      some { s.set p .idle with store := (s.store.writeJobs jobs).toOption.getD s.store }
    | _ => none
  | .locked op env =>
    if s.clock ≤ env.now then some { s with store := op.apply env s.store, clock := env.now }
    else none

/-- No jobs yet, and nothing under way. -/
def CronSystem.Initial (s : CronSystem P) : Prop :=
  (∀ state ∈ s.store.states, state = {}) ∧ ∀ p, s.process p = .idle

end Machine

end Amide
