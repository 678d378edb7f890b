import Amide.Construction.Agent.AgentLoop

/-!
# The queues of an agent (`agent/src/agent.ts`)

Messages for an agent that is at work wait in one of its two queues, which two hooks of its runs
drain.  A run is one of the loop (`Construction/Agent/AgentLoop.lean`) where these hooks are the
agent's; whenever it does anything, others may have changed the queues.  What the hooks have taken
out of the queues is recorded.
-/

namespace Amide

inductive QueueMode where
  | all
  | oneAtATime

structure PendingMessageQueue where
  mode : QueueMode
  batches : List (List AgentMessage) := []

namespace PendingMessageQueue

variable (queue : PendingMessageQueue)

def messages : List AgentMessage := queue.batches.flatten

/-- What is taken out, and the queue that is left. -/
def drain : List AgentMessage × PendingMessageQueue :=
  match queue.mode, queue.batches with
  | .all, batches => (batches.flatten, { queue with batches := [] })
  | .oneAtATime, [] => ([], queue)
  | .oneAtATime, first :: rest => (first, { queue with batches := rest })

end PendingMessageQueue

structure AgentWorld where
  loop : LoopWorld
  steeringQueue : PendingMessageQueue
  followUpQueue : PendingMessageQueue
  skipInitialSteeringPoll : Bool
  /-- What the hooks have taken out of the queues. -/
  drained : List AgentMessage

namespace AgentWorld

/-- What an effect can do when the hooks are those of `createLoopConfig`. -/
inductive Answers : AgentWorld → (e : LoopEffect) → Except LoopError e.Answer → AgentWorld → Prop
  | getSteeringMessages {s : AgentWorld} {raised : Bool}
      (hskip : s.skipInitialSteeringPoll = false) :
      Answers s (.call .getSteeringMessages) (.ok (.ok s.steeringQueue.drain.1))
        { s with
          loop := s.loop.abort raised
          steeringQueue := s.steeringQueue.drain.2
          drained := s.drained ++ s.steeringQueue.drain.1 }
  | skipSteeringMessages {s : AgentWorld} {raised : Bool}
      (hskip : s.skipInitialSteeringPoll = true) :
      Answers s (.call .getSteeringMessages) (.ok (.ok []))
        { s with loop := s.loop.abort raised, skipInitialSteeringPoll := false }
  | getFollowUpMessages {s : AgentWorld} {raised : Bool} :
      Answers s (.call .getFollowUpMessages) (.ok (.ok s.followUpQueue.drain.1))
        { s with
          loop := s.loop.abort raised
          followUpQueue := s.followUpQueue.drain.2
          drained := s.drained ++ s.followUpQueue.drain.1 }
  | other {s : AgentWorld} {e : LoopEffect} {r : Except LoopError e.Answer} {loop : LoopWorld}
      (h : s.loop.Answers e r loop) (hsteering : e ≠ .call .getSteeringMessages)
      (hfollowUp : e ≠ .call .getFollowUpMessages) : Answers s e r { s with loop }

/-- Others may have changed the queues. -/
def Handler (s : AgentWorld) (e : LoopEffect) (r : Except LoopError e.Answer) (s' : AgentWorld) :
    Prop :=
  ∃ steeringQueue followUpQueue, Answers { s with steeringQueue, followUpQueue } e r s'

/-- Before a run. -/
def initial (context : List AgentMessage) (aborted skipInitialSteeringPoll : Bool)
    (steeringQueue followUpQueue : PendingMessageQueue) : AgentWorld :=
  ⟨.initial context aborted, steeringQueue, followUpQueue, skipInitialSteeringPoll, []⟩

end AgentWorld

end Amide
