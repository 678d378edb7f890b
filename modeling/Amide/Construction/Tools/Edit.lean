import Amide.Framework.JsMap
import Amide.Framework.Machine

/-!
# The edit tool and its queue (`core/tools/edit.ts`, `core/tools/file-mutation-queue.ts`)

An edit waits until the edits queued on its file before it have let go, then reads the file,
computes the new content and writes it.  Its promise settles when the body is done, or at once
when the signal aborts: the listener rejects without looking where the body is.  What settles the
promise lets the next edit in.

Every await is a point where others may step in.  What an edit makes of a content is a parameter
(`FileEdit.apply`, which may throw); files are known by their real paths, and no file comes or goes.
-/

namespace Amide

structure FileEdit where
  path : String
  realPath : String
  apply : List UInt8 → Except String (List UInt8)

inductive FileEditPromise where
  | pending
  | resolved
  | rejected (message : String)
  deriving DecidableEq

/-- Where the body of an edit stands. -/
inductive FileEditPhase where
  /-- It awaits the queue. -/
  | queued
  | accessing
  | reading
  /-- The file has been read, and the body is about to go on. -/
  | read (content : List UInt8)
  /-- The write of the second content has been started, the first having been read. -/
  | writing (content finalContent : List UInt8)
  /-- The write has landed, and the body is about to go on. -/
  | written
  | ended
  deriving DecidableEq

structure FileEditCall where
  edit : FileEdit
  /-- The calls whose release `currentQueue` waits for. -/
  currentQueue : List ℕ
  phase : FileEditPhase := .queued
  promise : FileEditPromise := .pending
  signalAborted : Bool := false
  /-- The listener has fired. -/
  aborted : Bool := false
  released : Bool := false
  /-- The write has landed at some time. -/
  wrote : Bool := false

inductive FileEditAct where
  | start
  | accessed (error : Option String)
  | read
  | readFailed (error : String)
  | resume
  | land
  | abort
  | release

namespace FileEditCall

/-- Only the first settlement of a promise counts. -/
def settle (call : FileEditCall) (promise : FileEditPromise) : FileEditCall :=
  if call.promise = .pending then { call with promise } else call

def finish (call : FileEditCall) (promise : FileEditPromise) : FileEditCall :=
  { call with phase := .ended }.settle promise

/-- The listener is there from the start of the body to its end. -/
def isListening (call : FileEditCall) : Bool := call.phase ≠ .queued && call.phase ≠ .ended

/-- What an act makes of the call: `isFree` says whether the queue has resolved, `content` is that
of the file. -/
def act (isFree : Bool) (content : Option (List UInt8)) (call : FileEditCall) :
    FileEditAct → Option FileEditCall
  | .start =>
    if call.phase = .queued ∧ isFree = true then
      if call.signalAborted = true then some (call.finish (.rejected "Operation aborted"))
      else some { call with phase := .accessing }
    else none
  | .accessed error =>
    if call.phase = .accessing then
      match error with
      | some message =>
        some (call.finish (.rejected s!"Could not edit file: {call.edit.path}. {message}."))
      | none => some { call with phase := if call.aborted = true then .ended else .reading }
    else none
  | .read =>
    match call.phase, content with
    | .reading, some content => some { call with phase := .read content }
    | _, _ => none
  | .readFailed error =>
    if call.phase = .reading then some (call.finish (.rejected error)) else none
  | .resume =>
    match call.phase with
    | .read content =>
      if call.aborted = true then some { call with phase := .ended }
      else
        match call.edit.apply content with
        | .error message => some (call.finish (.rejected message))
        | .ok finalContent => some { call with phase := .writing content finalContent }
    | .written =>
      if call.aborted = true then some { call with phase := .ended }
      else some (call.finish .resolved)
    | _ => none
  | .land =>
    match call.phase with
    | .writing _ _ => some { call with phase := .written, wrote := true }
    | _ => none
  | .abort =>
    let aborted := { call with signalAborted := true }
    if call.isListening = true then
      some ({ aborted with aborted := true }.settle (.rejected "Operation aborted"))
    else some aborted
  | .release =>
    if call.promise ≠ .pending ∧ call.released = false then some { call with released := true }
    else none

end FileEditCall

/-- `fileMutationQueues` holds, for a file, the calls whose release its chained promise awaits. -/
structure FileEditState where
  files : String → Option (List UInt8)
  fileMutationQueues : JsMap String (List ℕ) := .empty
  calls : List FileEditCall := []

inductive FileEditLabel where
  | call (edit : FileEdit)
  | act (id : ℕ) (act : FileEditAct)

namespace FileEditState

def isReleased (s : FileEditState) (id : ℕ) : Bool :=
  (s.calls[id]?.map FileEditCall.released).getD false

/-- The files after an act: a write that lands replaces the content. -/
def filesAfter (s : FileEditState) (call : FileEditCall) :
    FileEditAct → String → Option (List UInt8)
  | .land =>
    match call.phase with
    | .writing _ finalContent => Function.update s.files call.edit.realPath (some finalContent)
    | _ => s.files
  | _ => s.files

/-- The queues after an act: the last to let go of a file takes its queue away. -/
def queuesAfter (s : FileEditState) (id : ℕ) (call : FileEditCall) :
    FileEditAct → JsMap String (List ℕ)
  | .release =>
    if s.fileMutationQueues.get? call.edit.realPath = some (call.currentQueue ++ [id]) then
      s.fileMutationQueues.delete call.edit.realPath
    else s.fileMutationQueues
  | _ => s.fileMutationQueues

def perform (s : FileEditState) : FileEditLabel → Option FileEditState
  | .call edit =>
    let currentQueue := (s.fileMutationQueues.get? edit.realPath).getD []
    some { s with
      fileMutationQueues :=
        s.fileMutationQueues.set edit.realPath (currentQueue ++ [s.calls.length])
      calls := s.calls ++ [{ edit, currentQueue }] }
  | .act id act =>
    s.calls[id]?.bind fun call =>
      (call.act (call.currentQueue.all s.isReleased) (s.files call.edit.realPath) act).map
        fun acted =>
          { files := s.filesAfter call act
            fileMutationQueues := s.queuesAfter id call act
            calls := s.calls.set id acted }

end FileEditState

def fileEditMachine : Machine FileEditState FileEditLabel where
  step s label s' := s.perform label = some s'

end Amide
