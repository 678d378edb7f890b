import Amide.Framework.TaskLanes
import Amide.Construction.Cron.Operations

/-!
# The cron scheduler (`core/cron-jobs.ts`)

`AgentCronScheduler` claims what is due and runs it in lanes, one lane for each active session.
What a piece of it does that runs without a break is the operations on the store it makes, one
after the other (`LockedCall`), and the lanes it leaves: `runDue` up to its `await`, a task up to
the call of `runJob` (`startTask`), and a task from the end of `runJob` on (`endTask`).

The hooks are given with each piece: how `runJob` ends, and which of the others throw.  Reading and
writing the files does not fail.
-/

namespace Amide

/-- Only the first state that knows a dispatch of the job counts. -/
def CronStore.getClaimedJob (store : CronStore) (id : String) : Option AgentCronJob :=
  (store.states.find? fun state => state.dispatches.any fun dispatch => dispatch.jobId == id).bind
    fun state => state.jobs.find? fun job => job.id == id && job.status = .active

structure LockedCall where
  op : LockedOp
  env : CronEnv

structure AgentCronScheduler where
  store : CronStore
  dispatchLanes : Lanes String AgentCronDispatch AgentCronJob

/-- Whether `beginDispatch` throws for a dispatch, and then an `endDispatch` as well. -/
inductive BeginDispatchHooks where
  | begun
  | threw (endDispatchThrows : Bool)

/-- How `runJob` ends; if it throws, `onError` may throw as well. -/
inductive RunJobEnd where
  | returned (result : Option AgentCronJobRunResult)
  | threw (error : Option String) (onErrorThrows : Bool)

/-- What is recorded of a run, if anything is. -/
def RunJobEnd.recorded : RunJobEnd → Option (AgentCronJobRunResult × Option String)
  | returned result => some (if result = some .skipped then .skipped else .ran, none)
  | threw error onErrorThrows => if onErrorThrows then none else some (.ran, error)

abbrev DispatchLanes := Lanes String AgentCronDispatch AgentCronJob

def queueDispatch (lanes : DispatchLanes) (dispatch : AgentCronDispatch) : DispatchLanes :=
  lanes.queue dispatch.job.activeSessionId dispatch

namespace AgentCronScheduler

variable (s : AgentCronScheduler)

/-- Claims what is due and queues it.  What has been claimed before `beginDispatch` throws is
recovered; when claiming throws, it is not known what has been claimed. -/
def runDue (dueAt : ℤ) (env recovery : CronEnv) (hooks : BeginDispatchHooks) :
    List LockedCall × DispatchLanes :=
  let claim : LockedCall := ⟨.claimDue dueAt, env⟩
  match (s.store.claimDue env dueAt env.now).2, hooks with
  | .error _, _ => ([claim], s.dispatchLanes)
  | .ok dispatches, .begun => ([claim], dispatches.foldl queueDispatch s.dispatchLanes)
  | .ok dispatches, .threw false =>
    ([claim, ⟨.recoverInterruptedDispatchesById (dispatches.map AgentCronDispatch.id), recovery⟩],
      s.dispatchLanes)
  | .ok _, .threw true => ([claim], s.dispatchLanes)

/-- The first part of a task of `queueDispatch`, up to `runJob`. -/
def startTask (i : ℕ) (dispatch : AgentCronDispatch) (env : CronEnv) :
    List LockedCall × DispatchLanes :=
  match s.store.getClaimedJob dispatch.job.id with
  | none => ([⟨.recordDispatchResult dispatch.id .skipped none, env⟩],
      s.dispatchLanes.setPhase i .settled)
  | some job => ([], s.dispatchLanes.setPhase i (.running job))

/-- The rest of it.  The task settles whether or not its result could be recorded. -/
def endTask (i : ℕ) (dispatch : AgentCronDispatch) (env : CronEnv) (ending : RunJobEnd) :
    List LockedCall × DispatchLanes :=
  (match ending.recorded with
    | none => []
    | some (outcome, error) => [⟨.recordDispatchResult dispatch.id outcome error, env⟩],
    s.dispatchLanes.setPhase i .settled)

/-- The cleanup behind a task. -/
def forgetLane (i : ℕ) (key : String) : List LockedCall × DispatchLanes :=
  ([], s.dispatchLanes.forget i key)

def act (effect : List LockedCall × DispatchLanes) : AgentCronScheduler where
  store := effect.1.foldl (fun store call => call.op.apply call.env store) s.store
  dispatchLanes := effect.2

end AgentCronScheduler

end Amide
