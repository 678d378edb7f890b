import Amide.Framework.Machine
import Mathlib.Data.Int.Notation

/-!
# Semaphore (`utils/semaphore.ts`)

The calls of `run` are numbered in the order they are made.  A function that waits for a permit is
known by the number of its call, and so is the listener that takes it out of the queue.
-/

namespace Amide

structure Semaphore where
  available : ℕ
  waiters : List ℕ
  deriving DecidableEq

/-- `new Semaphore(permits)`; a number that is not whole is refused like one below 1. -/
def Semaphore.create (permits : ℤ) : Except String Semaphore :=
  if permits < 1 then .error s!"Semaphore permits must be a positive integer, got {permits}"
  else .ok ⟨permits.toNat, []⟩

/-- Where a call of `run` is. -/
inductive RunPhase where
  /-- The promise of `acquire` is pending. -/
  | waiting
  /-- The promise is resolved, and `run` has yet to go on. -/
  | acquired
  /-- `fn` has been called. -/
  | running
  /-- The permit has been released. -/
  | settled
  /-- `acquire` has thrown. -/
  | rejected
  deriving DecidableEq

structure RunCall where
  signal : Option ℕ
  phase : RunPhase
  listening : Bool
  deriving DecidableEq

/-- A promise that is settled stays as it is. -/
def RunCall.settle (phase : RunPhase) (call : RunCall) : RunCall :=
  { call with
    listening := false
    phase := if call.phase = .waiting then phase else call.phase }

/-- A semaphore with its calls, the signals that have been aborted, and the calls that have been
given a permit, in this order. -/
structure SemaphoreSystem where
  semaphore : Semaphore
  calls : List RunCall
  aborted : List ℕ
  obtained : List ℕ
  deriving DecidableEq

inductive SemaphoreStep where
  | run (signal : Option ℕ)
  | abort (signal : ℕ)
  /-- The signal of a call reaches its listener.  Other listeners may call `run` before. -/
  | onAbort (i : ℕ)
  | resume (i : ℕ)
  /-- `fn` has returned or thrown. -/
  | finish (i : ℕ)

namespace SemaphoreSystem

def start (semaphore : Semaphore) : SemaphoreSystem := ⟨semaphore, [], [], []⟩

def acquire (s : SemaphoreSystem) (signal : Option ℕ) : SemaphoreSystem :=
  if signal.any (· ∈ s.aborted) then { s with calls := s.calls ++ [⟨signal, .rejected, false⟩] }
  else if s.semaphore.available > 0 then
    { s with
      semaphore := { s.semaphore with available := s.semaphore.available - 1 }
      calls := s.calls ++ [⟨signal, .acquired, false⟩]
      obtained := s.obtained ++ [s.calls.length] }
  else
    { s with
      semaphore := { s.semaphore with waiters := s.semaphore.waiters ++ [s.calls.length] }
      calls := s.calls ++ [⟨signal, .waiting, signal.isSome⟩] }

/-- `onAbort`: the waiter is taken out of the queue, and the promise is rejected. -/
def onAbort (s : SemaphoreSystem) (i : ℕ) : SemaphoreSystem :=
  { s with
    semaphore := { s.semaphore with waiters := s.semaphore.waiters.erase i }
    calls := s.calls.modify i (·.settle .rejected) }

def release (s : SemaphoreSystem) : SemaphoreSystem :=
  match s.semaphore.waiters with
  | next :: waiters =>
    { s with
      semaphore := { s.semaphore with waiters }
      calls := s.calls.modify next (·.settle .acquired)
      obtained := s.obtained ++ [next] }
  | [] => { s with semaphore := { s.semaphore with available := s.semaphore.available + 1 } }

def setPhase (s : SemaphoreSystem) (i : ℕ) (phase : RunPhase) : SemaphoreSystem :=
  { s with calls := s.calls.modify i fun call => { call with phase } }

def phase? (s : SemaphoreSystem) (i : ℕ) : Option RunPhase := s.calls[i]?.map RunCall.phase

/-- The listener of the call is registered with a signal that has been aborted. -/
def hears (s : SemaphoreSystem) (i : ℕ) : Bool :=
  s.calls[i]?.any fun call => call.listening && call.signal.any (· ∈ s.aborted)

def next (s : SemaphoreSystem) : SemaphoreStep → Option SemaphoreSystem
  | .run signal => some (s.acquire signal)
  | .abort signal => some { s with aborted := signal :: s.aborted }
  | .onAbort i => if s.hears i then some (s.onAbort i) else none
  | .resume i => if s.phase? i = some .acquired then some (s.setPhase i .running) else none
  | .finish i => if s.phase? i = some .running then some (s.setPhase i .settled).release else none

def machine : Machine SemaphoreSystem SemaphoreStep where
  step s l s' := s.next l = some s'

end SemaphoreSystem

end Amide
