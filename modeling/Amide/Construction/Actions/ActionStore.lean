import Amide.Framework.JsMap
import Mathlib.Data.Int.Notation
import Mathlib.Data.List.InsertIdx

/-!
# The store of session actions (`core/session-action-store.ts`)

An `ActionStore` owns the actions a session has been asked for: those to deliver at the next turn
boundary and those to deliver when a run is idle, a list for each, and a ticket for each action by
its id.  Actions are objects that the rest of the session holds on to as well, so the lists hold
their addresses, and a store comes with the objects there are.

An operation is a computation in `StoreM`: one that throws leaves behind what it has changed up to
there.  The promises of a ticket are left out, as is what of an action no operation reads.
-/

namespace Amide

/-! ## Actions -/

inductive DeliveryPolicy
  | nextTurnBoundary
  | whenRunIdle
  deriving DecidableEq

inductive DeliveryRole
  | primary
  | prefixed
  | nextTurn
  deriving DecidableEq

/-- A message of a turn; `message` is the address of the message object. -/
structure DeliveryRecord where
  role : DeliveryRole
  message : ℕ

inductive SessionActionPayload
  | turn (records : List DeliveryRecord) (text : String) (preview : Option String)
  | sessionCommand (text : String)

inductive ActionExecution
  | agentTurn
  | sessionCommand

inductive ActionState
  | queued
  | selected
  | preparing
  | committing
  | running
  | completed
  | failed
  | cancelled
  deriving DecidableEq

/-- The lifecycle of an action; `preparation` is the address of an object. -/
inductive ActionLifecycle
  | queued
  | selected
  | preparing (preparation : Option ℕ)
  | committing
  | running (execution : ActionExecution)
  | completed
  | failed (error : String)
  | cancelled

structure SessionAction where
  id : String
  delivery : DeliveryPolicy
  payload : SessionActionPayload
  lifecycle : ActionLifecycle

structure RollbackProof where
  dispatchSettled : Bool
  transcript : List ℕ

structure ActionTicketController where
  id : String

namespace ActionState

def text : ActionState → String
  | queued => "queued"
  | selected => "selected"
  | preparing => "preparing"
  | committing => "committing"
  | running => "running"
  | completed => "completed"
  | failed => "failed"
  | cancelled => "cancelled"

def terminalStates : List ActionState := [completed, failed, cancelled]

def activeStates : List ActionState := [selected, preparing, committing, running]

def clearableStates : List ActionState := [queued, selected, preparing]

def legalTransitions : ActionState → List ActionState
  | queued => [selected, failed, cancelled]
  | selected => [queued, preparing, running, failed, cancelled]
  | preparing => [queued, committing, failed, cancelled]
  | committing => [queued, running, failed, cancelled]
  | running => [completed, failed, cancelled]
  | completed => []
  | failed => []
  | cancelled => []

end ActionState

def ActionLifecycle.state : ActionLifecycle → ActionState
  | queued => .queued
  | selected => .selected
  | preparing _ => .preparing
  | committing => .committing
  | running _ => .running
  | completed => .completed
  | failed _ => .failed
  | cancelled => .cancelled

namespace SessionAction

variable (action : SessionAction)

def isQueued : Bool := action.lifecycle.state == .queued

def isTerminal : Bool := action.lifecycle.state ∈ ActionState.terminalStates

def isActive : Bool := action.lifecycle.state ∈ ActionState.activeStates

def isClearable : Bool := action.lifecycle.state ∈ ActionState.clearableStates

def primaryRecords : List DeliveryRecord :=
  match action.payload with
  | .turn records _ _ => records.filter fun record => record.role = .primary
  | .sessionCommand _ => []

def previewText : String :=
  match action.payload with
  | .turn _ text preview => preview.getD text
  | .sessionCommand text => text

def carries (message : ℕ) : Bool :=
  match action.payload with
  | .turn records _ _ => records.any fun record => record.message = message
  | .sessionCommand _ => false

end SessionAction

/-! ## The store -/

/-- The fields of the store, and the actions there are, by address. -/
structure ActionStore where
  objects : ℕ → SessionAction
  nextTurnBoundary : List ℕ
  whenRunIdle : List ℕ
  tickets : JsMap String ActionTicketController

namespace ActionStore

/-- A new store. -/
def empty (objects : ℕ → SessionAction) : ActionStore :=
  ⟨objects, [], [], JsMap.empty⟩

variable (s : ActionStore)

def list : DeliveryPolicy → List ℕ
  | .nextTurnBoundary => s.nextTurnBoundary
  | .whenRunIdle => s.whenRunIdle

def setList (actions : List ℕ) : DeliveryPolicy → ActionStore
  | .nextTurnBoundary => { s with nextTurnBoundary := actions }
  | .whenRunIdle => { s with whenRunIdle := actions }

def setLifecycle (action : ℕ) (lifecycle : ActionLifecycle) : ActionStore :=
  { s with objects := Function.update s.objects action { s.objects action with lifecycle } }

def setDelivery (action : ℕ) (delivery : DeliveryPolicy) : ActionStore :=
  { s with objects := Function.update s.objects action { s.objects action with delivery } }

def addTicket (action : ℕ) : ActionStore :=
  { s with tickets := s.tickets.set (s.objects action).id ⟨(s.objects action).id⟩ }

def deleteTicket (action : ℕ) : ActionStore :=
  { s with tickets := s.tickets.delete (s.objects action).id }

/-! ### Reading it -/

def actions : Option DeliveryPolicy → List ℕ
  | some policy => s.list policy
  | none => s.nextTurnBoundary ++ s.whenRunIdle

def queuedActions (policy : Option DeliveryPolicy) : List ℕ :=
  (s.actions policy).filter fun action => (s.objects action).isQueued

def clearableActions (policy : Option DeliveryPolicy) : List ℕ :=
  (s.actions policy).filter fun action => (s.objects action).isClearable

def unfinishedActions (policy : Option DeliveryPolicy) : List ℕ :=
  (s.actions policy).filter fun action => !(s.objects action).isTerminal

def activeActions (policy : Option DeliveryPolicy) : List ℕ :=
  (s.actions policy).filter fun action => (s.objects action).isActive

def queuePreview (policy : DeliveryPolicy) : List String :=
  (s.queuedActions (some policy)).map fun action => (s.objects action).previewText

def ownedActions : List ℕ := s.actions none

def actionsForMessage (message : ℕ) : List ℕ :=
  (s.actions none).filter fun action => (s.objects action).carries message

def ticketFor (action : ℕ) : Except String ActionTicketController :=
  match s.tickets.get? (s.objects action).id with
  | some ticket => .ok ticket
  | none => .error s!"Session action {(s.objects action).id} is not owned by this store"

end ActionStore

/-! ## The operations -/

/-- Computations on a store that may throw. -/
abbrev StoreM := EStateM String ActionStore

def transitionSessionAction (action : ℕ) (next : ActionLifecycle)
    (rollbackProof : Option RollbackProof) : StoreM Unit := do
  let object := (← get).objects action
  let previous := object.lifecycle.state
  if next.state ∉ previous.legalTransitions then
    throw s!"Illegal session action lifecycle transition: {previous.text} -> {next.state.text}"
  if previous = .committing ∧ next.state = .queued then
    let settled := rollbackProof.any (·.dispatchSettled)
    if !settled then
      throw "Committing session action rollback requires a settled dispatch and transcript proof"
    let transcript := (rollbackProof.map (·.transcript)).getD []
    if object.primaryRecords.any fun record => transcript.contains record.message then
      throw "Cannot roll back a session action whose primary message is durable in the transcript"
  modify fun s => s.setLifecycle action next

namespace ActionStore

def assertNewAction (action : ℕ) : StoreM Unit := do
  let s ← get
  if !(s.objects action).isQueued then
    throw "Only queued session actions can be enqueued"
  if s.tickets.has (s.objects action).id then
    throw s!"Duplicate session action id: {(s.objects action).id}"

def enqueue (action : ℕ) : StoreM Unit := do
  assertNewAction action
  let s ← get
  let policy := (s.objects action).delivery
  set (s.setList (s.list policy ++ [action]) policy)
  modify fun s => s.addTicket action

def enqueueFront (action : ℕ) : StoreM Unit := do
  assertNewAction action
  let s ← get
  let policy := (s.objects action).delivery
  -- `findIdx` is the length of the list where no action of it is queued
  let firstQueued := (s.list policy).findIdx fun item => (s.objects item).isQueued
  set (s.setList ((s.list policy).insertIdx firstQueued action) policy)
  modify fun s => s.addTicket action

def selectFirst : StoreM (Option ℕ) := do
  let s ← get
  let queued item := (s.objects item).isQueued
  match (s.nextTurnBoundary.find? queued).or (s.whenRunIdle.find? queued) with
  | some action =>
    transitionSessionAction action .selected none
    return some action
  | none => return none

/-- Cancels the candidates with `predicate`; with none named, the clearable actions are the
candidates. -/
def remove (predicate : ℕ → Bool) (candidates : Option (List ℕ)) : StoreM (List ℕ) := do
  let removed := (candidates.getD ((← get).clearableActions none)).filter predicate
  removed.forM fun action => transitionSessionAction action .cancelled none
  return removed

def rollback (action : ℕ) (proof : Option RollbackProof) : StoreM Unit :=
  transitionSessionAction action .queued proof

def swapQueued (left right : ℕ) : StoreM Unit := do
  let s ← get
  if !(s.objects left).isQueued || !(s.objects right).isQueued ||
      (s.objects left).delivery ≠ (s.objects right).delivery then
    throw "Only queued actions in the same lane can be swapped"
  let policy := (s.objects left).delivery
  match (s.list policy).idxOf? left, (s.list policy).idxOf? right with
  | some leftIndex, some rightIndex =>
    set (s.setList (((s.list policy).set leftIndex right).set rightIndex left) policy)
  | _, _ => throw "Queued action is not owned by this store"

/-- An index that is no integer acts as the one beyond all queued actions or the one before. -/
def moveQueued (action : ℕ) (delivery : DeliveryPolicy) (index : ℤ) : StoreM Unit := do
  let s ← get
  if !(s.objects action).isQueued then
    throw "Only queued actions can be moved"
  let source := (s.objects action).delivery
  match (s.list source).idxOf? action with
  | none => throw s!"Session action {(s.objects action).id} is not owned by this store"
  | some sourceIndex =>
    set (s.setList ((s.list source).eraseIdx sourceIndex) source)
    modify fun s => s.setDelivery action delivery
    let s ← get
    let target := s.list delivery
    let queued := s.queuedActions (some delivery)
    let place := match queued[(max 0 (min index queued.length)).toNat]? with
      | some before => target.idxOf before
      | none => target.length
    set (s.setList (target.insertIdx place action) delivery)

def releaseTerminal (action : ℕ) : StoreM Unit := do
  let s ← get
  if !(s.objects action).isTerminal then
    throw s!"Cannot release nonterminal session action {(s.objects action).id}"
  let policy := (s.objects action).delivery
  set (s.setList ((s.list policy).erase action) policy)
  modify fun s => s.deleteTicket action

end ActionStore

/-! ## One operation after another -/

inductive StoreOperation
  | enqueue (action : ℕ)
  | enqueueFront (action : ℕ)
  | selectFirst
  | remove (predicate : ℕ → Bool) (candidates : Option (List ℕ))
  | rollback (action : ℕ) (proof : Option RollbackProof)
  | swapQueued (left right : ℕ)
  | moveQueued (action : ℕ) (delivery : DeliveryPolicy) (index : ℤ)
  | releaseTerminal (action : ℕ)
  | transitionSessionAction (action : ℕ) (next : ActionLifecycle)
      (rollbackProof : Option RollbackProof)

namespace StoreOperation

def perform : StoreOperation → StoreM Unit
  | enqueue action => ActionStore.enqueue action
  | enqueueFront action => ActionStore.enqueueFront action
  | selectFirst => discard ActionStore.selectFirst
  | remove predicate candidates => discard (ActionStore.remove predicate candidates)
  | rollback action proof => ActionStore.rollback action proof
  | swapQueued left right => ActionStore.swapQueued left right
  | moveQueued action delivery index => ActionStore.moveQueued action delivery index
  | releaseTerminal action => ActionStore.releaseTerminal action
  | transitionSessionAction action next rollbackProof =>
    Amide.transitionSessionAction action next rollbackProof

/-- The error that an operation throws, if it does, and the store it leaves. -/
def outcome (operation : StoreOperation) (s : ActionStore) : Option String × ActionStore :=
  match operation.perform.run s with
  | .ok _ s' => (none, s')
  | .error message s' => (some message, s')

end StoreOperation

end Amide
