import Amide.Construction.Tools.Edit
import Amide.Framework.Positions

/-!
# Edits of a file take turns

The queue lets one edit of a file at a time past its start, and holds the next until the promise
of that one has settled (`FileEditState.Ordered`).  While the promise stands for the work, no two
edits of a file are between their read and their write, and an edit whose promise rejects has not
written.

An abort settles the promise wherever the body is.  Before the write that is harmless: the body
looks at the flag before it goes on.  Once the write has been started it will land, behind a
promise that says the edit did not happen, and beside the next edit
(`not_editsSafe_of_abortedWrite`).  In runs without such aborts edits are safe
(`editsSafe_of_run`).
-/

namespace Amide

open Positions

/-! ## One call -/

namespace FileEditCall

/-- The call has set out to read the file, and may still write it. -/
def isOpen (call : FileEditCall) : Bool :=
  match call.phase with
  | .reading | .read _ => !call.aborted
  | .writing _ _ => true
  | _ => false

/-- The content that an open call has read. -/
def content? (call : FileEditCall) : Option (List UInt8) :=
  match call.phase with
  | .read content => if call.aborted = true then none else some content
  | .writing content _ => some content
  | _ => none

/-- The write has been started, and the body has not yet come back from it. -/
def awaitsWrite (call : FileEditCall) : Bool :=
  match call.phase with
  | .writing _ _ | .written => true
  | _ => false

variable {call acted : FileEditCall} {isFree : Bool} {content : Option (List UInt8)}
  {act : FileEditAct}

/-- What acts do, one case for each way through the body. -/
inductive Acts (isFree : Bool) (content : Option (List UInt8)) (call : FileEditCall) :
    FileEditAct → FileEditCall → Prop
  | startedAborted (hphase : call.phase = .queued) (hfree : isFree = true) :
      Acts isFree content call .start (call.finish (.rejected "Operation aborted"))
  | started (hphase : call.phase = .queued) (hfree : isFree = true) :
      Acts isFree content call .start { call with phase := .accessing }
  | accessFailed (hphase : call.phase = .accessing) (error message : String) :
      Acts isFree content call (.accessed (some error)) (call.finish (.rejected message))
  | accessed (hphase : call.phase = .accessing) (haborted : call.aborted = false) :
      Acts isFree content call (.accessed none) { call with phase := .reading }
  | read {read : List UInt8} (hphase : call.phase = .reading) (hcontent : content = some read) :
      Acts isFree content call .read { call with phase := .read read }
  | readFailed (hphase : call.phase = .reading) (error : String) :
      Acts isFree content call (.readFailed error) (call.finish (.rejected error))
  | stopped {act : FileEditAct} (haborted : call.aborted = true)
      (hphase : call.phase = .accessing ∨ (∃ read, call.phase = .read read) ∨
        call.phase = .written) (hact : act = .resume ∨ act = .accessed none) :
      Acts isFree content call act { call with phase := .ended }
  | refused {read : List UInt8} (hphase : call.phase = .read read) (message : String) :
      Acts isFree content call .resume (call.finish (.rejected message))
  | writing {read finalContent : List UInt8} (hphase : call.phase = .read read)
      (haborted : call.aborted = false) :
      Acts isFree content call .resume { call with phase := .writing read finalContent }
  | done (hphase : call.phase = .written) (haborted : call.aborted = false) :
      Acts isFree content call .resume (call.finish .resolved)
  | landed {read finalContent : List UInt8} (hphase : call.phase = .writing read finalContent) :
      Acts isFree content call .land { call with phase := .written, wrote := true }
  | abortHeard (hlistening : call.isListening = true) :
      Acts isFree content call .abort ({ call with signalAborted := true, aborted := true }.settle
        (.rejected "Operation aborted"))
  | abortUnheard (hlistening : call.isListening = false) :
      Acts isFree content call .abort { call with signalAborted := true }
  | released (hpromise : call.promise ≠ .pending) :
      Acts isFree content call .release { call with released := true }

lemma acts_of_act (hact : call.act isFree content act = some acted) :
    Acts isFree content call act acted := by
  cases act with
  | start =>
    simp only [FileEditCall.act] at hact
    split_ifs at hact with hphase hsignal
    · cases hact
      exact .startedAborted hphase.1 hphase.2
    · cases hact
      exact .started hphase.1 hphase.2
  | accessed error =>
    rw [FileEditCall.act.eq_def] at hact
    by_cases hphase : call.phase = .accessing
    · simp only [if_pos hphase] at hact
      cases error with
      | some error =>
        cases hact
        exact .accessFailed hphase error _
      | none =>
        cases hact
        split_ifs with haborted
        · exact .stopped haborted (.inl hphase) (.inr rfl)
        · exact .accessed hphase (by simpa using haborted)
    · simp only [if_neg hphase] at hact
      cases hact
  | read =>
    simp only [FileEditCall.act] at hact
    split at hact
    next content hphase =>
      cases hact
      exact .read hphase rfl
    next => cases hact
  | readFailed error =>
    rw [FileEditCall.act] at hact
    split_ifs at hact with hphase
    cases hact
    exact .readFailed hphase error
  | resume =>
    rw [FileEditCall.act] at hact
    split at hact
    next content hphase =>
      split_ifs at hact with haborted
      · cases hact
        exact .stopped haborted (.inr (.inl ⟨content, hphase⟩)) (.inl rfl)
      · split at hact
        next message _ =>
          cases hact
          exact .refused hphase message
        next finalContent _ =>
          cases hact
          exact .writing hphase (by simpa using haborted)
    next hphase =>
      split_ifs at hact with haborted
      · cases hact
        exact .stopped haborted (.inr (.inr hphase)) (.inl rfl)
      · cases hact
        exact .done hphase (by simpa using haborted)
    next => cases hact
  | land =>
    rw [FileEditCall.act] at hact
    split at hact
    next content finalContent hphase =>
      cases hact
      exact .landed hphase
    next => cases hact
  | abort =>
    simp only [FileEditCall.act] at hact
    split_ifs at hact with hlistening
    · cases hact
      exact .abortHeard hlistening
    · cases hact
      exact .abortUnheard (by simpa using hlistening)
  | release =>
    rw [FileEditCall.act] at hact
    split_ifs at hact with hpromise
    cases hact
    exact .released hpromise.1

/-! ### Promises that stand for the work -/

/-- What the phase says of the promise and of the file. -/
structure Sound (call : FileEditCall) : Prop where
  released : call.released = true → call.promise ≠ .pending
  aborted : call.aborted = true → call.promise ≠ .pending
  queued : call.phase = .queued → call.promise = .pending
  listening : call.isListening = true → call.promise = .pending ∨ call.aborted = true
  awaitsWrite : call.awaitsWrite = true → call.promise = .pending
  wrote : call.wrote = true → call.phase = .written ∨ call.phase = .ended
  rejected : ∀ message, call.promise = .rejected message → call.wrote = false

lemma settle_promise_ne_pending {promise : FileEditPromise} (hpromise : promise ≠ .pending) :
    (call.settle promise).promise ≠ .pending := by
  rw [settle]
  split_ifs with hpend
  · exact hpromise
  · exact hpend

section
variable (promise : FileEditPromise)
include promise

@[simp] lemma settle_phase : (call.settle promise).phase = call.phase := by
  rw [settle]
  split_ifs <;> rfl

@[simp] lemma settle_wrote : (call.settle promise).wrote = call.wrote := by
  rw [settle]
  split_ifs <;> rfl

@[simp] lemma settle_aborted : (call.settle promise).aborted = call.aborted := by
  rw [settle]
  split_ifs <;> rfl

@[simp] lemma settle_edit : (call.settle promise).edit = call.edit := by
  rw [settle]
  split_ifs <;> rfl

@[simp] lemma settle_currentQueue : (call.settle promise).currentQueue = call.currentQueue := by
  rw [settle]
  split_ifs <;> rfl

@[simp] lemma settle_released : (call.settle promise).released = call.released := by
  rw [settle]
  split_ifs <;> rfl

end

/-- A body may end, as a success where it has written and otherwise as a failure. -/
lemma Sound.finish (h : call.Sound) {promise : FileEditPromise} (hpromise : promise ≠ .pending)
    (hwrote : call.wrote = true → promise = .resolved) : (call.finish promise).Sound where
  released _ := settle_promise_ne_pending hpromise
  aborted _ := settle_promise_ne_pending hpromise
  queued hphase := by simp [FileEditCall.finish] at hphase
  listening hphase := by simp [FileEditCall.finish, isListening] at hphase
  awaitsWrite hphase := by simp [FileEditCall.finish, FileEditCall.awaitsWrite] at hphase
  wrote _ := .inr (by simp [FileEditCall.finish])
  rejected message hmsg := by
    rw [FileEditCall.finish, settle_wrote]
    rw [FileEditCall.finish, settle] at hmsg
    split_ifs at hmsg with hpend
    · by_contra hne
      have hres := hwrote (by simpa using hne)
      exact absurd (hres.symm.trans hmsg) (by simp)
    · exact h.rejected message hmsg

/-- A body may go on to a phase before the write, or start the write if nothing has settled. -/
lemma Sound.goOn (h : call.Sound) (hlistening : call.phase = .queued ∨ call.isListening = true)
    {phase : FileEditPhase} (hwrote : phase ≠ .ended → call.wrote = false)
    (hqueued : phase ≠ .queued)
    (hwriting : { call with phase }.awaitsWrite = true → call.promise = .pending) :
    { call with phase }.Sound where
  released := h.released
  aborted := h.aborted
  queued hphase := absurd hphase hqueued
  listening _ := hlistening.elim (fun hphase => .inl (h.queued hphase)) h.listening
  awaitsWrite := hwriting
  wrote hwrote' := by
    by_cases hended : phase = .ended
    · exact .inr hended
    · exact absurd ((hwrote hended).symm.trans hwrote') (by simp)
  rejected := h.rejected

lemma Sound.wrote_eq_false (h : call.Sound) (hwritten : call.phase ≠ .written)
    (hended : call.phase ≠ .ended) : call.wrote = false := by
  by_contra hne
  exact (h.wrote (by simpa using hne)).elim hwritten hended

/-- **Every act** keeps a call sound, unless it aborts it while a write is under way. -/
lemma Sound.of_acts (h : call.Sound) (hact : Acts isFree content call act acted)
    (habort : act = .abort → call.awaitsWrite = false) : acted.Sound := by
  have hbefore : call.phase ≠ .written → call.phase ≠ .ended → call.wrote = false :=
    h.wrote_eq_false
  cases hact with
  | startedAborted hphase | accessFailed hphase | readFailed hphase | refused hphase =>
    exact h.finish (by simp) (by simp [hbefore, hphase])
  | started hphase =>
    have hwrote := hbefore (by simp [hphase]) (by simp [hphase])
    exact h.goOn (.inl hphase) (fun _ => hwrote) (by simp) (by simp [FileEditCall.awaitsWrite])
  | accessed hphase | read hphase =>
    have hwrote := hbefore (by simp [hphase]) (by simp [hphase])
    exact h.goOn (.inr (by simp [isListening, hphase])) (fun _ => hwrote) (by simp)
      (by simp [FileEditCall.awaitsWrite])
  | stopped haborted hphase =>
    have hlistening : call.isListening = true := by
      rcases hphase with hphase | ⟨read, hphase⟩ | hphase <;> simp [isListening, hphase]
    exact h.goOn (.inr hlistening) (fun hended => absurd rfl hended) (by simp)
      (by simp [FileEditCall.awaitsWrite])
  | writing hphase haborted =>
    have hwrote := hbefore (by simp [hphase]) (by simp [hphase])
    have hlistening : call.isListening = true := by simp [isListening, hphase]
    have hpend := (h.listening hlistening).resolve_right (by simp [haborted])
    exact h.goOn (.inr hlistening) (fun _ => hwrote) (by simp) fun _ => hpend
  | done hphase => exact h.finish (by simp) fun _ => rfl
  | landed hphase =>
    have hpend := h.awaitsWrite (by simp [FileEditCall.awaitsWrite, hphase])
    exact ⟨h.released, h.aborted, by simp, fun _ => .inl hpend, fun _ => hpend,
      fun _ => .inl rfl, by simp [hpend]⟩
  | abortHeard hlistening =>
    have hawaits := habort rfl
    have hwritten : call.phase ≠ .written := by
      intro hphase
      simp [FileEditCall.awaitsWrite, hphase] at hawaits
    simp only [isListening, Bool.and_eq_true, ne_eq, decide_not, Bool.not_eq_true',
      decide_eq_false_iff_not] at hlistening
    have hwrote := hbefore hwritten hlistening.2
    have hsettled := @settle_promise_ne_pending
      { call with signalAborted := true, aborted := true } (.rejected "Operation aborted")
      (by simp)
    refine ⟨fun _ => hsettled, fun _ => hsettled, ?_, fun _ => .inr ?_, ?_, ?_, ?_⟩
    · intro hphase
      exact absurd (by simpa using hphase) hlistening.1
    · rw [settle]
      split_ifs <;> rfl
    · intro hphase
      simp only [FileEditCall.awaitsWrite, settle_phase] at hphase hawaits
      exact absurd (hawaits.symm.trans hphase) (by simp)
    · simp [hwrote]
    · simp [hwrote]
  | abortUnheard =>
    exact ⟨h.released, h.aborted, h.queued, h.listening, h.awaitsWrite, h.wrote, h.rejected⟩
  | released hpromise =>
    exact ⟨fun _ => hpromise, h.aborted, h.queued, h.listening, h.awaitsWrite, h.wrote, h.rejected⟩

/-- While a call is open its promise stands for it. -/
lemma Sound.of_isOpen (h : call.Sound) (hopen : call.isOpen = true) :
    call.phase ≠ .queued ∧ call.promise = .pending := by
  rw [isOpen.eq_def] at hopen
  split at hopen
  next hphase =>
    have hlistening : call.isListening = true := by simp [isListening, hphase]
    exact ⟨by simp [hphase], (h.listening hlistening).resolve_right (by simpa using hopen)⟩
  next hphase =>
    have hlistening : call.isListening = true := by simp [isListening, hphase]
    exact ⟨by simp [hphase], (h.listening hlistening).resolve_right (by simpa using hopen)⟩
  next hphase =>
    exact ⟨by simp [hphase], h.awaitsWrite (by simp [FileEditCall.awaitsWrite, hphase])⟩
  next => cases hopen

/-! ### What an act leaves alone -/

section
variable (hact : Acts isFree content call act acted)
include hact

lemma Acts.edit : acted.edit = call.edit ∧ acted.currentQueue = call.currentQueue := by
  cases hact <;> simp [finish]

lemma Acts.released_eq : act ≠ .release ∧ acted.released = call.released ∨
      act = .release ∧ acted.released = true ∧ call.promise ≠ .pending := by
  cases hact with
  | stopped _ _ hact => rcases hact with rfl | rfl <;> exact .inl ⟨by simp, rfl⟩
  | released hpromise => exact .inr ⟨rfl, rfl, hpromise⟩
  | _ => exact .inl ⟨by simp, by simp [finish]⟩

/-- Only a call whose queue has resolved starts. -/
lemma Acts.started_or (hstarted : acted.phase ≠ .queued) :
    call.phase ≠ .queued ∨ isFree = true := by
  by_cases hphase : call.phase = .queued
  · cases hact <;> simp_all [finish, isListening]
  · exact .inl hphase

/-- What an open call has read it read from the file. -/
lemma Acts.content?_eq {read : List UInt8} (hread : acted.content? = some read) :
    call.content? = some read ∨ content = some read := by
  cases hact with
  | abortHeard =>
    simp only [content?, settle_phase, settle_aborted, if_true] at hread ⊢
    split at hread
    next => cases hread
    next => exact .inl hread
    next => cases hread
  | _ => simp_all [finish, content?]

end

lemma isOpen_of_content? {read : List UInt8} (hread : call.content? = some read) :
    call.isOpen = true := by
  rw [content?] at hread
  rw [isOpen.eq_def]
  split at hread
  next hphase =>
    split_ifs at hread with haborted
    simp [hphase, haborted]
  next hphase => simp [hphase]
  next => cases hread

end FileEditCall

/-! ## The queue -/

namespace FileEditState

variable {s s' : FileEditState}

/-- Each call waits for the earlier ones on its file, and a queue for all of them. -/
structure Ordered (s : FileEditState) : Prop where
  queues : ∀ (id : ℕ) (call : FileEditCall), s.calls[id]? = some call → call.released = false →
    id ∈ (s.fileMutationQueues.get? call.edit.realPath).getD []
  waits : ∀ (id id' : ℕ) (call call' : FileEditCall), s.calls[id]? = some call →
    s.calls[id']? = some call' → id < id' → call.edit.realPath = call'.edit.realPath →
      call.released = false → id ∈ call'.currentQueue
  started : ∀ (id : ℕ) (call : FileEditCall), s.calls[id]? = some call → call.phase ≠ .queued →
    ∀ earlier ∈ call.currentQueue, s.isReleased earlier = true

variable {id id' : ℕ} {call' : FileEditCall}

/-- **One at a time**: of two started calls on a file one has let go. -/
lemma Ordered.released (h : s.Ordered) {call : FileEditCall} (hcall : s.calls[id]? = some call)
    (hcall' : s.calls[id']? = some call') (hlt : id < id')
    (hpath : call.edit.realPath = call'.edit.realPath) (hstarted : call'.phase ≠ .queued) :
    call.released = true := by
  by_contra hne
  have hmem := h.waits id id' call call' hcall hcall' hlt hpath (by simpa using hne)
  have hrel := h.started id' call' hcall' hstarted id hmem
  simp only [isReleased, hcall, Option.map_some, Option.getD_some] at hrel
  exact hne hrel

lemma calls_append {edit : FileEditCall} {call : FileEditCall}
    (h : (s.calls ++ [edit])[id]? = some call) :
    s.calls[id]? = some call ∨ id = s.calls.length ∧ call = edit := by
  rcases Nat.lt_or_ge id s.calls.length with hlt | hge
  · rw [List.getElem?_append_left hlt] at h
    exact .inl h
  · rw [List.getElem?_append_right hge, List.getElem?_singleton] at h
    split_ifs at h with hid
    cases h
    exact .inr ⟨by omega, rfl⟩

variable {acted : FileEditCall}

lemma Ordered.call (h : s.Ordered) {edit : FileEdit}
    (hperform : s.perform (.call edit) = some s') : s'.Ordered := by
  cases hperform
  have hrel : ∀ id, s.isReleased id = true → ∀ queues calls,
      isReleased { s with fileMutationQueues := queues, calls := s.calls ++ calls } id = true := by
    intro id hid queues calls
    rw [isReleased, Option.getD_eq_iff] at hid ⊢
    obtain ⟨call, hcall, hcallReleased⟩ : ∃ call, s.calls[id]? = some call ∧
        call.released = true := by
      rcases hid with hid | ⟨-, hid⟩
      · exact Option.map_eq_some_iff.mp hid
      · cases hid
    obtain ⟨hlt, -⟩ := List.getElem?_eq_some_iff.mp hcall
    rw [List.getElem?_append_left hlt, hcall]
    exact .inl (congrArg some hcallReleased)
  constructor
  · intro id call hcall hpend
    rw [JsMap.get?_set]
    rcases calls_append hcall with hcall | ⟨rfl, rfl⟩
    · have hmem := h.queues id call hcall hpend
      split_ifs with hpath
      · rw [← hpath] at hmem
        exact List.mem_append_left _ hmem
      · exact hmem
    · simp
  · intro id id' call call' hcall hcall' hlt hpath hpend
    rcases calls_append hcall with hcall | ⟨rfl, rfl⟩
    · rcases calls_append hcall' with hcall' | ⟨-, rfl⟩
      · exact h.waits id id' call call' hcall hcall' hlt hpath hpend
      · exact hpath ▸ h.queues id call hcall hpend
    · rcases calls_append hcall' with hcall' | ⟨rfl, rfl⟩
      · obtain ⟨hlt', -⟩ := List.getElem?_eq_some_iff.mp hcall'
        omega
      · omega
  · intro id call hcall hstarted earlier hearlier
    rcases calls_append hcall with hcall | ⟨-, rfl⟩
    · exact hrel earlier (h.started id call hcall hstarted earlier hearlier) _ _
    · exact absurd rfl hstarted

lemma isReleased_iff :
    s.isReleased id = true ↔ ∃ call, s.calls[id]? = some call ∧ call.released = true := by
  rw [isReleased, Option.getD_eq_iff]
  simp

variable {act : FileEditAct}

/-- An act of a call, taken apart. -/
lemma exists_acts (h : s.perform (.act id act) = some s') : ∃ call acted, s.calls[id]? = some call ∧
      call.Acts (call.currentQueue.all s.isReleased) (s.files call.edit.realPath) act acted ∧
      s' = ⟨s.filesAfter call act, s.queuesAfter id call act, s.calls.set id acted⟩ := by
  obtain ⟨call, hcall, hact⟩ := Option.bind_eq_some_iff.mp h
  obtain ⟨acted, hacted, heq⟩ := Option.map_eq_some_iff.mp hact
  exact ⟨call, acted, hcall, FileEditCall.acts_of_act hacted, heq.symm⟩

structure Sound (s : FileEditState) : Prop where
  calls : ∀ (id : ℕ) (call : FileEditCall), s.calls[id]? = some call → call.Sound
  ordered : s.Ordered
  current : ∀ (id : ℕ) (call : FileEditCall) (content : List UInt8), s.calls[id]? = some call →
    call.content? = some content → s.files call.edit.realPath = some content

lemma Sound.ordered_act (h : s.Sound) {call : FileEditCall} (hcall : s.calls[id]? = some call)
    (hacts : call.Acts (call.currentQueue.all s.isReleased) (s.files call.edit.realPath) act
      acted) :
    Ordered ⟨s.filesAfter call act, s.queuesAfter id call act, s.calls.set id acted⟩ := by
  obtain ⟨hedit, hqueue⟩ := hacts.edit
  have hunreleased : acted.released = false → call.released = false ∧ act ≠ .release := by
    intro hpend
    rcases hacts.released_eq with ⟨hne, heq⟩ | ⟨-, heq, -⟩
    · exact ⟨heq.symm.trans hpend, hne⟩
    · exact absurd (heq.symm.trans hpend) (by simp)
  have hkept : ∀ earlier, s.isReleased earlier = true → isReleased
      ⟨s.filesAfter call act, s.queuesAfter id call act, s.calls.set id acted⟩ earlier = true := by
    intro earlier hearlier
    obtain ⟨before, hbefore, hrel⟩ := isReleased_iff.mp hearlier
    rw [isReleased_iff]
    by_cases hid : id = earlier
    · subst hid
      cases hcall.symm.trans hbefore
      obtain ⟨hlt, -⟩ := List.getElem?_eq_some_iff.mp hcall
      refine ⟨acted, List.getElem?_set_self hlt, ?_⟩
      rcases hacts.released_eq with ⟨-, heq⟩ | ⟨-, heq, -⟩
      · exact heq.trans hrel
      · exact heq
    · exact ⟨before, by rwa [List.getElem?_set_ne hid], hrel⟩
  constructor
  · intro id' call' hcall' hpend
    have hbefore : ∃ before, s.calls[id']? = some before ∧
        before.edit.realPath = call'.edit.realPath ∧ before.released = false ∧
          (id = id' → act ≠ .release) := by
      rcases getElem?_set_cases hcall' with ⟨rfl, rfl⟩ | ⟨hne, hcall'⟩
      · exact ⟨call, hcall, by rw [hedit], (hunreleased hpend).1,
          fun _ => (hunreleased hpend).2⟩
      · exact ⟨call', hcall', rfl, hpend, fun heq => absurd heq hne⟩
    obtain ⟨before, hbefore, hpath, hrel, hrelease⟩ := hbefore
    have hmem := h.ordered.queues id' before hbefore hrel
    rw [hpath] at hmem
    rw [queuesAfter.eq_def]
    split
    · split_ifs with hlast
      · rw [JsMap.get?_delete]
        split_ifs with hsame
        · -- the last to let go: those it waited for have let go before
          rw [← hsame, hlast, Option.getD_some] at hmem
          have hpromise : call.promise ≠ .pending := by
            rcases hacts.released_eq with ⟨hne, -⟩ | ⟨-, -, hpromise⟩
            · exact absurd rfl hne
            · exact hpromise
          rcases List.mem_append.mp hmem with hmem | hmem
          · have hall := h.ordered.started id call hcall
              (fun hphase => hpromise ((h.calls id call hcall).queued hphase)) id' hmem
            obtain ⟨other, hother, hotherReleased⟩ := isReleased_iff.mp hall
            cases hbefore.symm.trans hother
            exact absurd (hrel.symm.trans hotherReleased) (by simp)
          · exact absurd rfl (hrelease (List.mem_singleton.mp hmem).symm)
        · exact hmem
      · exact hmem
    · exact hmem
  · intro id₁ id₂ call₁ call₂ hcall₁ hcall₂ hlt hpath hpend
    rcases getElem?_set_cases hcall₁ with ⟨rfl, rfl⟩ | ⟨-, hbefore₁⟩
    · rcases getElem?_set_cases hcall₂ with ⟨rfl, -⟩ | ⟨-, hbefore₂⟩
      · exact absurd hlt (Nat.lt_irrefl _)
      · exact h.ordered.waits _ _ call call₂ hcall hbefore₂ hlt (hedit ▸ hpath)
          (hunreleased hpend).1
    · rcases getElem?_set_cases hcall₂ with ⟨rfl, rfl⟩ | ⟨-, hbefore₂⟩
      · rw [hqueue]
        exact h.ordered.waits _ _ call₁ call hbefore₁ hcall hlt (hedit ▸ hpath) hpend
      · exact h.ordered.waits _ _ call₁ call₂ hbefore₁ hbefore₂ hlt hpath hpend
  · intro id' call' hcall' hstarted earlier hearlier
    apply hkept
    rcases getElem?_set_cases hcall' with ⟨rfl, rfl⟩ | ⟨-, hcall'⟩
    · rw [hqueue] at hearlier
      rcases hacts.started_or hstarted with hstarted | hfree
      · exact h.ordered.started id call hcall hstarted earlier hearlier
      · exact List.all_eq_true.mp hfree earlier hearlier
    · exact h.ordered.started id' call' hcall' hstarted earlier hearlier

/-- Two calls on a file are not open at once. -/
lemma Sound.eq_of_isOpen (h : s.Sound) {call : FileEditCall} (hcall : s.calls[id]? = some call)
    (hcall' : s.calls[id']? = some call') (hpath : call.edit.realPath = call'.edit.realPath)
    (hopen : call.isOpen = true) (hopen' : call'.isOpen = true) : id = id' := by
  have hstarted := (h.calls id call hcall).of_isOpen hopen
  have hstarted' := (h.calls id' call' hcall').of_isOpen hopen'
  rcases Nat.lt_trichotomy id id' with hlt | heq | hlt
  · have hrel := h.ordered.released hcall hcall' hlt hpath hstarted'.1
    exact absurd hstarted.2 ((h.calls id call hcall).released hrel)
  · exact heq
  · have hrel := h.ordered.released hcall' hcall hlt hpath.symm hstarted.1
    exact absurd hstarted'.2 ((h.calls id' call' hcall').released hrel)

/-- The landing of a write is the one act that changes a file. -/
lemma filesAfter_cases (call : FileEditCall) (act : FileEditAct) :
    s.filesAfter call act = s.files ∨ ∃ content finalContent,
      act = .land ∧ call.phase = .writing content finalContent ∧
        s.filesAfter call act = Function.update s.files call.edit.realPath (some finalContent) := by
  rw [filesAfter.eq_def]
  split
  · split
    next content finalContent hphase => exact .inr ⟨content, finalContent, rfl, hphase, rfl⟩
    next => exact .inl rfl
  · exact .inl rfl

lemma Sound.current_act (h : s.Sound) {call : FileEditCall} (hcall : s.calls[id]? = some call)
    (hacts : call.Acts (call.currentQueue.all s.isReleased) (s.files call.edit.realPath) act acted)
    {content : List UInt8} (hcall' : (s.calls.set id acted)[id']? = some call')
    (hcont : call'.content? = some content) :
    s.filesAfter call act call'.edit.realPath = some content := by
  obtain ⟨hedit, -⟩ := hacts.edit
  have hbefore : s.files call'.edit.realPath = some content := by
    rcases getElem?_set_cases hcall' with ⟨-, rfl⟩ | ⟨-, hcall'⟩
    · rw [hedit]
      rcases hacts.content?_eq hcont with hread | hread
      · exact h.current id call content hcall hread
      · exact hread
    · exact h.current id' call' content hcall' hcont
  rcases s.filesAfter_cases call act with heq | ⟨read, finalContent, rfl, hphase, heq⟩
  · rwa [heq]
  · have hopen : call.isOpen = true := by simp [FileEditCall.isOpen, hphase]
    rw [heq, Function.update_of_ne]
    · exact hbefore
    · intro hpath
      rcases getElem?_set_cases hcall' with ⟨-, rfl⟩ | ⟨hne, hcall'⟩
      · cases hacts with
        | stopped _ _ hact => rcases hact with hact | hact <;> cases hact
        | landed => cases hcont
      · exact hne (h.eq_of_isOpen hcall hcall' hpath.symm hopen
          (FileEditCall.isOpen_of_content? hcont))

/-- No signal aborts an edit whose write has been started and has not come back. -/
def AbortsBesideWrites (s : FileEditState) (label : FileEditLabel) : Prop :=
  ∀ id call, label = .act id .abort → s.calls[id]? = some call → call.awaitsWrite = false

lemma Sound.step (h : s.Sound) {label : FileEditLabel} (hlabel : s.AbortsBesideWrites label)
    (hstep : s.perform label = some s') : s'.Sound := by
  cases label with
  | call edit =>
    have hordered := h.ordered.call hstep
    cases hstep
    refine ⟨?_, hordered, ?_⟩
    · intro id call hcall
      rcases calls_append hcall with hcall | ⟨-, rfl⟩
      · exact h.calls id call hcall
      · exact ⟨by simp, by simp, by simp, by simp [FileEditCall.isListening],
          by simp [FileEditCall.awaitsWrite], by simp, by simp⟩
    · intro id call content hcall hcont
      rcases calls_append hcall with hcall | ⟨-, rfl⟩
      · exact h.current id call content hcall hcont
      · cases hcont
  | act id act =>
    obtain ⟨call, acted, hcall, hacts, rfl⟩ := exists_acts hstep
    refine ⟨?_, h.ordered_act hcall hacts, fun id' call' content => h.current_act hcall hacts⟩
    intro id' call' hcall'
    rcases getElem?_set_cases hcall' with ⟨-, rfl⟩ | ⟨-, hcall'⟩
    · apply (h.calls id call hcall).of_acts hacts
      rintro rfl
      exact hlabel id call rfl hcall
    · exact h.calls id' call' hcall'

/-- An edit whose promise rejects has not written and will not, no two edits of a file are open
at once, and a file still holds what an open edit of it has read. -/
structure EditsSafe (s : FileEditState) : Prop where
  rejected : ∀ (id : ℕ) (call : FileEditCall) (message : String), s.calls[id]? = some call →
    call.promise = .rejected message → call.wrote = false ∧ call.isOpen = false
  serialized : ∀ (id id' : ℕ) (call call' : FileEditCall), s.calls[id]? = some call →
    s.calls[id']? = some call' → call.edit.realPath = call'.edit.realPath →
      call.isOpen = true → call'.isOpen = true → id = id'
  current : ∀ (id : ℕ) (call : FileEditCall) (content : List UInt8), s.calls[id]? = some call →
    call.content? = some content → s.files call.edit.realPath = some content

lemma Sound.editsSafe (h : s.Sound) : s.EditsSafe where
  rejected id call message hcall hrej := by
    have hsound := h.calls id call hcall
    refine ⟨hsound.rejected message hrej, ?_⟩
    by_contra hopen
    have hpend := (hsound.of_isOpen (by simpa using hopen)).2
    exact absurd (hpend.symm.trans hrej) (by simp)
  serialized id id' call call' hcall hcall' hpath := h.eq_of_isOpen hcall hcall' hpath
  current := h.current

end FileEditState

open FileEditState

/-- **Edits are atomic and take turns** in runs without aborts in the middle of a write. -/
theorem editsSafe_of_run {files : String → Option (List UInt8)} {s : FileEditState}
    {labels : List FileEditLabel}
    (h : (fileEditMachine.guard AbortsBesideWrites).Run { files } labels s) : s.EditsSafe := by
  have hinitial : Sound { files } := ⟨by simp, ⟨by simp, by simp, by simp⟩, by simp⟩
  have hs : s.Sound := h.invariant hinitial fun s₁ label s₂ hs hstep => hs.step hstep.2 hstep.1
  exact hs.editsSafe

/-- An edit that appends a byte to a file. -/
def appendingEdit (byte : UInt8) : FileEdit :=
  ⟨"notes", "/notes", fun content => .ok (content ++ [byte])⟩

/-- A body that goes on without failures until its write has been started. -/
def upToWrite (id : ℕ) : List FileEditLabel :=
  [.act id .start, .act id (.accessed none), .act id .read, .act id .resume]

/-- Two edits of a file, the second of which begins when the first has written. -/
theorem editsSafe_of_run_inTurn :
    ∃ s : FileEditState, (fileEditMachine.guard AbortsBesideWrites).Run
      { files := fun _ => some [] }
        ([.call (appendingEdit 1), .call (appendingEdit 2)] ++ upToWrite 0 ++
          [.act 0 .land, .act 0 .resume, .act 0 .release] ++ upToWrite 1) s ∧
      s.EditsSafe ∧ s.files "/notes" = some [1] := by
  let labels : List FileEditLabel := [.call (appendingEdit 1), .call (appendingEdit 2)] ++
    upToWrite 0 ++ [.act 0 .land, .act 0 .resume, .act 0 .release] ++ upToWrite 1
  have hperform : (labels.foldlM FileEditState.perform { files := fun _ => some [] }).map
      (fun s => s.files "/notes") = some (some [1]) := by decide
  obtain ⟨s, hs, hfile⟩ := Option.map_eq_some_iff.mp hperform
  have hrun : fileEditMachine.Run { files := fun _ => some [] } labels s :=
    Machine.Run.of_foldlM (fun _ _ _ h => h) hs
  have hguarded := hrun.guard_of_forall (G := AbortsBesideWrites) fun label hlabel
      s id call habort =>
    by simp [labels, upToWrite, habort] at hlabel
  exact ⟨s, hguarded, editsSafe_of_run hguarded, hfile⟩

/-- The signal aborts while the write is on its way: the promise rejects, and the write lands. -/
theorem not_editsSafe_of_abortedWrite :
    ¬∀ (files : String → Option (List UInt8)) (labels : List FileEditLabel) (s : FileEditState),
      fileEditMachine.Run { files } labels s → s.EditsSafe := by
  intro hall
  let labels : List FileEditLabel := .call (appendingEdit 1) :: upToWrite 0 ++
    [.act 0 .abort, .act 0 .land]
  have hperform : (labels.foldlM FileEditState.perform { files := fun _ => some [] }).map
      (fun s => s.calls[0]?.map fun call => (call.promise, call.wrote)) =
        some (some (.rejected "Operation aborted", true)) := by decide
  obtain ⟨s, hs, hcall⟩ := Option.map_eq_some_iff.mp hperform
  obtain ⟨call, hcall, hstate⟩ := Option.map_eq_some_iff.mp hcall
  have hrun : fileEditMachine.Run { files := fun _ => some [] } labels s :=
    Machine.Run.of_foldlM (fun _ _ _ h => h) hs
  obtain ⟨hrejected, hwrote⟩ := Prod.mk.injEq .. ▸ hstate
  have hnot := ((hall _ labels s hrun).rejected 0 call _ hcall hrejected).1
  exact absurd (hnot.symm.trans hwrote) (by simp)

end Amide
