import Amide.Framework.JsMap
import Amide.Construction.Cron.Schedules

/-!
# The store of cron jobs (`core/cron-jobs.ts`)

A store is one file or, in session artifact mode, one file for each registered session.  Jobs are
written under the locks, where they are merged with what is there by then
(`CronStore.writeJobs`).  `create` and its likes make a job; due jobs are claimed and advanced in
one go, under the locks (`CronStore.claimDue`).

The files hold what was last written, as whole files are renamed into place.  `randomUUID` is a
stream of names, and paths are compared as they stand.  The heartbeat signature, which only
notifies listeners, is left out.
-/

namespace Amide

inductive AgentCronJobStatus where
  | active
  | paused
  | completed
  | cancelled
  deriving DecidableEq

inductive AgentCronJobSource where
  | cron
  | heartbeat
  | rlmHeartbeat
  deriving DecidableEq

inductive AgentCronJobRuntimeKind where
  | topLevel
  | subagent
  deriving DecidableEq

inductive AgentHeartbeatDeliveryMode where
  | steer
  | followUp
  deriving DecidableEq

structure AgentCronJob where
  id : String
  status : AgentCronJobStatus
  source : Option AgentCronJobSource := none
  runtimeKind : Option AgentCronJobRuntimeKind := none
  deliveryMode : Option AgentHeartbeatDeliveryMode := none
  activeSessionId : String
  sessionId : String
  sessionFile : String
  cwd : String
  label : Option String := none
  prompt : String
  schedule : AgentCronSchedule
  createdAt : ℤ
  updatedAt : ℤ
  nextRunAt : Option ℤ := none
  lastRunAt : Option ℤ := none
  lastSkippedAt : Option ℤ := none
  lastError : Option String := none
  runCount : ℕ := 0
  deriving DecidableEq

structure AgentCronDispatchRecord where
  id : String
  jobId : String
  claimedAt : ℤ
  scheduledFor : ℤ
  deriving DecidableEq

structure AgentCronDispatch where
  id : String
  job : AgentCronJob
  deriving DecidableEq

structure CronJobsState where
  jobs : List AgentCronJob := []
  dispatches : List AgentCronDispatchRecord := []
  deriving DecidableEq

inductive CronStore where
  | file (state : CronJobsState)
  | artifacts (lanes : JsMap String CronJobsState)
  deriving DecidableEq

namespace AgentCronJob

/-- Not cancelled and not completed. -/
def isOpen (job : AgentCronJob) : Bool := job.status = .active || job.status = .paused

def withoutNextRunAt (job : AgentCronJob) : AgentCronJob := { job with nextRunAt := none }

def isDueJob (job : AgentCronJob) (now : ℤ) : Bool :=
  job.status = .active && job.nextRunAt.any (· ≤ now)

def isHeartbeatCronJob (job : AgentCronJob) : Bool :=
  job.source = some .heartbeat || job.source = some .rlmHeartbeat

end AgentCronJob

def normalizeOptionalLabel (label : Option String) : Option String :=
  (label.map fun text => String.ofList (Chars.trim text.toList)).filter (· ≠ "")

/-! ## Reading and writing -/

def isAtLeastAsFresh (candidate current : AgentCronJob) : Bool :=
  current.updatedAt ≤ candidate.updatedAt

def mergeJob (merged : JsMap String AgentCronJob) (job : AgentCronJob) :
    JsMap String AgentCronJob :=
  match merged.get? job.id with
  | none => merged.set job.id job
  | some current => if isAtLeastAsFresh job current then merged.set job.id job else merged

/-- The jobs written last count, unless the ones there are fresher. -/
def mergeFreshJobs (currentJobs nextJobs : List AgentCronJob) : List AgentCronJob :=
  (nextJobs.foldl mergeJob (JsMap.index AgentCronJob.id currentJobs)).values

namespace CronStore

def states : CronStore → List CronJobsState
  | file state => [state]
  | artifacts lanes => lanes.values

def readJobs (store : CronStore) : List AgentCronJob := store.states.flatMap CronJobsState.jobs

/-- What a lane keeps of its own jobs: those that are not written, or written to the lane. -/
def retainedJobs (jobs : List AgentCronJob) (sessionId : String) (current : CronJobsState) :
    List AgentCronJob :=
  current.jobs.filter fun job =>
    match (JsMap.index AgentCronJob.id jobs).get? job.id with
    | none => true
    | some incoming => incoming.sessionId == sessionId

def mergedLane (jobs : List AgentCronJob) (sessionId : String) (current : CronJobsState) :
    List AgentCronJob :=
  mergeFreshJobs (retainedJobs jobs sessionId current)
    (jobs.filter fun job => job.sessionId == sessionId)

/-- The last lane that holds a job of the given id. -/
def laneOf (lanes : List (String × CronJobsState)) (jobs : List AgentCronJob) (id : String) :
    Option String :=
  (lanes.reverse.find? fun lane => (mergedLane jobs lane.1 lane.2).any fun job => job.id == id).map
    Prod.fst

def nextLane (lanes : List (String × CronJobsState)) (jobs : List AgentCronJob)
    (sessionId : String) (current : CronJobsState) : CronJobsState where
  jobs := mergedLane jobs sessionId current
  dispatches := (lanes.flatMap fun lane => lane.2.dispatches).filter fun dispatch =>
    laneOf lanes jobs dispatch.jobId = some sessionId

/-- Replaces the states of the lanes. -/
def mapLanes (f : String → CronJobsState → CronJobsState) (lanes : JsMap String CronJobsState) :
    JsMap String CronJobsState where
  entries := lanes.entries.map fun lane => (lane.1, f lane.1 lane.2)
  nodup := by
    have hkeys : (lanes.entries.map fun lane => (lane.1, f lane.1 lane.2)).map Prod.fst =
        lanes.entries.map Prod.fst := by
      rw [List.map_map]
      rfl
    rw [hkeys]
    exact lanes.nodup

def writeJobs (jobs : List AgentCronJob) : CronStore → Except String CronStore
  | file state => .ok (file { state with jobs := mergeFreshJobs state.jobs jobs })
  | artifacts lanes =>
    match jobs.find? fun job => !lanes.has job.sessionId with
    | some unregistered =>
      .error s!"Cron job {unregistered.id} targets an unregistered session artifact"
    | none => .ok (artifacts (mapLanes (nextLane lanes.entries jobs) lanes))

end CronStore

/-! ## Creating jobs -/

structure CreateAgentCronJobInput where
  activeSessionId : String
  sessionId : String
  sessionFile : String
  cwd : String
  label : Option String := none
  prompt : String
  scheduleText : String
  source : Option AgentCronJobSource := none
  runtimeKind : Option AgentCronJobRuntimeKind := none
  deliveryMode : Option AgentHeartbeatDeliveryMode := none

/-- What an operation gets from its host. -/
structure CronEnv where
  zone : TimeZone
  parseDate : String → Date
  randomUUID : ℕ → String
  now : ℤ

def trimmedPrompt (prompt message : String) : Except String String :=
  let prompt := String.ofList (Chars.trim prompt.toList)
  if prompt = "" then .error message else .ok prompt

section Create

variable (env : CronEnv) (input : CreateAgentCronJobInput)

def newJob (source : AgentCronJobSource) (deliveryMode : Option AgentHeartbeatDeliveryMode)
    (prompt : String) (schedule : AgentCronSchedule) (nextRunAt : ℤ) : AgentCronJob where
  id := env.randomUUID 0
  status := .active
  source := some source
  runtimeKind := input.runtimeKind
  deliveryMode := deliveryMode
  activeSessionId := input.activeSessionId
  sessionId := input.sessionId
  sessionFile := input.sessionFile
  cwd := input.cwd
  label := normalizeOptionalLabel input.label
  prompt := prompt
  schedule := schedule
  createdAt := env.now
  updatedAt := env.now
  nextRunAt := some nextRunAt
  runCount := 0

/-- `create`. -/
def createJob : Except String AgentCronJob := do
  let prompt ← trimmedPrompt input.prompt "Cron job prompt cannot be empty"
  let (schedule, nextRunAt) ← parseAgentCronSchedule env.zone env.parseDate input.scheduleText
    env.now
  let nextRunAt ← toISOString nextRunAt
  .ok (newJob env input (input.source.getD .cron) none prompt schedule nextRunAt)

/-- The job of `createHeartbeat` and `createRlmHeartbeat`. -/
def createRecurring (source : AgentCronJobSource) (name : String) : Except String AgentCronJob := do
  let (schedule, nextRunAt) ← parseAgentCronSchedule env.zone env.parseDate input.scheduleText
    env.now
  if schedule.kind = .once then .error s!"{name} schedule must be recurring"
  else do
    let prompt ← trimmedPrompt input.prompt s!"{name} instruction cannot be empty"
    let nextRunAt ← toISOString nextRunAt
    .ok (newJob env input source (some (input.deliveryMode.getD .steer)) prompt schedule nextRunAt)

def createHeartbeatJob : Except String AgentCronJob :=
  createRecurring env input .heartbeat "Heartbeat"

def createRlmHeartbeatJob : Except String AgentCronJob :=
  createRecurring env input .rlmHeartbeat "RLM heartbeat"

/-- A new heartbeat takes the place of the session's open one. -/
def replaceHeartbeat (job : AgentCronJob) : AgentCronJob :=
  if job.activeSessionId = input.activeSessionId ∧ job.source = some .heartbeat ∧
      job.isOpen = true then
    { job with status := .cancelled, nextRunAt := none, updatedAt := env.now }
  else job

end Create

/-! ## Claims and their results -/

section Claims

variable (env : CronEnv) (dueAt claimedAt : ℤ)

/-- A claimed job's next run, behind the claim. -/
def advanceJob (zone : TimeZone) (job : AgentCronJob) : Except String AgentCronJob := do
  let next ← nextRunAtForSchedule zone job.schedule claimedAt
  match next with
  | none => .ok ({ job with updatedAt := claimedAt } : AgentCronJob).withoutNextRunAt
  | some date => do
    let nextRunAt ← toISOString date
    .ok { job with nextRunAt := some nextRunAt, updatedAt := claimedAt }

/-- The jobs as they are left, and the dispatches; `n` names have been used. -/
def claimJobs (claimedJobIds : List String) :
    ℕ → List AgentCronJob → Except String (List AgentCronJob × List (AgentCronDispatchRecord ×
      AgentCronDispatch))
  | _, [] => .ok ([], [])
  | n, job :: jobs =>
    if job.isDueJob dueAt then do
      let advanced ← advanceJob claimedAt env.zone job
      if claimedJobIds.contains job.id then do
        let (rest, dispatches) ← claimJobs claimedJobIds n jobs
        .ok ({ advanced with lastSkippedAt := some claimedAt } :: rest, dispatches)
      else do
        let dispatch : AgentCronDispatchRecord :=
          { id := env.randomUUID n, jobId := job.id, claimedAt,
            scheduledFor := job.nextRunAt.getD 0 }
        let (rest, dispatches) ← claimJobs claimedJobIds (n + 1) jobs
        .ok (advanced :: rest, (dispatch, ⟨dispatch.id, advanced⟩) :: dispatches)
    else do
      let (rest, dispatches) ← claimJobs claimedJobIds n jobs
      .ok (job :: rest, dispatches)

def claimDueInState (n : ℕ) (state : CronJobsState) :
    Except String (CronJobsState × List AgentCronDispatch) := do
  let (jobs, dispatches) ← claimJobs env dueAt claimedAt
    (state.dispatches.map AgentCronDispatchRecord.jobId) n state.jobs
  .ok (⟨jobs, state.dispatches ++ dispatches.map Prod.fst⟩, dispatches.map Prod.snd)

/-- One state after the other; what was written before one throws stays written. -/
def claimStates : ℕ → List CronJobsState →
    List CronJobsState × Except String (List AgentCronDispatch)
  | _, [] => ([], .ok [])
  | n, state :: states =>
    match claimDueInState env dueAt claimedAt n state with
    | .error message => (state :: states, .error message)
    | .ok (state', dispatches) =>
      let (states', result) := claimStates (n + dispatches.length) states
      (state' :: states', result.map (dispatches ++ ·))

end Claims

/-- The states of a store, replaced one by one. -/
def CronStore.withStates (store : CronStore) (states : List CronJobsState) : CronStore :=
  match store with
  | .file state => .file (states.headD state)
  | .artifacts lanes =>
    if h : ((lanes.entries.zip states).map fun p => (p.1.1, p.2)).map Prod.fst =
        lanes.entries.map Prod.fst then
      .artifacts ⟨(lanes.entries.zip states).map fun p => (p.1.1, p.2), h ▸ lanes.nodup⟩
    else store

def CronStore.claimDue (env : CronEnv) (dueAt claimedAt : ℤ) (store : CronStore) :
    CronStore × Except String (List AgentCronDispatch) :=
  let (states, result) := claimStates env dueAt claimedAt 0 store.states
  (store.withStates states, result)

end Amide
