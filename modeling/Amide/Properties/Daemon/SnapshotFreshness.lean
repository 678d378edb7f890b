import Amide.Construction.Daemon.Reattach
import Amide.Properties.Daemon.EventDelivery

/-!
# Fresh snapshots

A connection calls the snapshot it keeps fresh when it has heard of nothing that happened since.
Snapshots are labelled here with the session they were taken from and the cursor of its server at
that time (`Capture`), so that it can be said whether that is true (`fresh_snapshot_is_fresh`).

It is true as long as the connection can see what it missed (`KeepsUp`), which it cannot in four
places: where a reattach fails, and a message of the session it goes back to has been dropped while
the reattach was pending; where a snapshot is taken over that is older than what has been seen
since; where the answer to a request is compared with cursors that a reattach has reset; and where
two reattaches overlap.
-/

namespace Amide

open DaemonAgentConnection Function

/-- Where a snapshot is from, and what its server had sent at the latest when it was taken. -/
structure Capture where
  session : String
  cursor : SentCursor
  deriving DecidableEq

namespace DaemonAgentConnection

variable {State : Type} {c : DaemonAgentConnection State} {message : ConnectionMessage State}

/-- The state of the snapshot that is kept, if it is called fresh. -/
def freshState (c : DaemonAgentConnection State) : Option (Option State) :=
  if c.latestSnapshotIsFresh then some (c.latestSnapshot.map AgentConnectionSnapshot.state)
  else none

/-- The snapshot that an end completes. -/
def completedState (c : DaemonAgentConnection State) (snapshotId : String)
    (chunkCount lastEventSequence : ℕ) (lastEventCursor : Option DaemonEventCursor) :
    Option State :=
  match assembledSnapshot snapshotId (c.getSnapshotAssembly snapshotId) chunkCount
      lastEventSequence lastEventCursor with
  | .ok (_, snapshot) => some snapshot.state
  | .error _ => none

/-- The state of the snapshot that a message brings. -/
def brings (c : DaemonAgentConnection State) : ConnectionMessage State → Option State
  | .snapshotEnd id chunkCount lastEventSequence lastEventCursor =>
    if id ∈ c.ignoredSnapshotIds then none
    else c.completedState id chunkCount lastEventSequence lastEventCursor
  | .sessionResynced snapshot _ => some snapshot.state
  | .sessionReplaced state _ false _ => some state
  | _ => none

/-! ## What a message does to the snapshot -/

lemma freshState_congr {c' : DaemonAgentConnection State}
    (hsnap : c'.latestSnapshot.map AgentConnectionSnapshot.state =
      c.latestSnapshot.map AgentConnectionSnapshot.state)
    (hfresh : c'.latestSnapshotIsFresh = c.latestSnapshotIsFresh) :
    c'.freshState = c.freshState := by
  rw [freshState, freshState, hsnap, hfresh]

lemma freshState_of_not_fresh (h : c.latestSnapshotIsFresh = false) : c.freshState = none := by
  rw [freshState, h, if_neg Bool.false_ne_true]

lemma freshState_observeEventCursor (cursor : DaemonEventCursor) :
    (c.observeEventCursor cursor).freshState = c.freshState := by
  rw [observeEventCursor]
  split
  · rfl
  · rfl

lemma freshState_observeDaemonEventSequence :
    (c.observeDaemonEventSequence message).freshState = c.freshState := by
  rw [observeDaemonEventSequence]
  split
  · exact freshState_observeEventCursor _
  · split
    · rfl
    · rfl

variable (snapshotId : String)

lemma freshState_rejectSnapshotAssembly (assembly : DaemonSnapshotAssembly State) (error : String) :
    (c.rejectSnapshotAssembly snapshotId assembly error).freshState = c.freshState := by
  rw [rejectSnapshotAssembly]
  split_ifs
  · rfl
  · rfl

lemma freshState_completeSnapshotAssembly (chunkCount lastEventSequence : ℕ)
    (lastEventCursor : Option DaemonEventCursor) :
    (c.completeSnapshotAssembly snapshotId chunkCount lastEventSequence
        lastEventCursor).1.freshState =
      match c.completedState snapshotId chunkCount lastEventSequence lastEventCursor with
      | some state => some (some state)
      | none => c.freshState := by
  rw [completeSnapshotAssembly, completedState]
  rcases hsnap : assembledSnapshot snapshotId (c.getSnapshotAssembly snapshotId) chunkCount
    lastEventSequence lastEventCursor with error | ⟨start, snapshot⟩
  · exact freshState_rejectSnapshotAssembly _ _ _
  · dsimp only
    split
    · rfl
    · rfl

lemma freshState_ignoreSnapshotId : (c.ignoreSnapshotId snapshotId).freshState = c.freshState :=
  freshState_congr (by simp [ignoreSnapshotId]) (by simp [ignoreSnapshotId])

lemma freshState_failSnapshot (snapshotId error : String) :
    (c.failSnapshot snapshotId error).1.freshState = none ∨
      (c.failSnapshot snapshotId error).1.freshState = c.freshState := by
  have hfailed := (freshState_ignoreSnapshotId snapshotId).trans
    (freshState_rejectSnapshotAssembly (c := c) snapshotId (c.getSnapshotAssembly snapshotId) error)
  rw [failSnapshot]
  split
  · exact .inr hfailed
  · exact .inl rfl

/-- A message that is not stale. -/
lemma freshState_handleSequenced (c : DaemonAgentConnection State)
    (message : ConnectionMessage State) :
    (c.handleSequenced (fun _ => id) message).1.freshState = none ∨
      (c.handleSequenced (fun _ => id) message).1.freshState = c.freshState ∨
      ∃ state ∈ c.brings message,
        (c.handleSequenced (fun _ => id) message).1.freshState = some (some state) := by
  cases message with
  | sessionEvent event _ => exact .inl rfl
  | sessionStatus recap _ =>
    refine .inr (.inl (freshState_congr ?_ rfl))
    rw [handleSequenced]
    cases c.latestSnapshot <;> rfl
  | sessionResynced snapshot _ => exact .inr (.inr ⟨snapshot.state, rfl, rfl⟩)
  | sessionReplaced state messages snapshotFollows _ =>
    cases snapshotFollows with
    | true => exact .inl rfl
    | false => exact .inr (.inr ⟨state, rfl, rfl⟩)
  | _ => exact .inr (.inl rfl)

lemma brings_observeDaemonEventSequence :
    (c.observeDaemonEventSequence message).brings message = c.brings message := by
  cases message with
  | snapshotEnd => rfl
  | sessionReplaced _ _ snapshotFollows _ => cases snapshotFollows <;> rfl
  | _ => rfl

lemma freshState_handle (c : DaemonAgentConnection State) (message : ConnectionMessage State) :
    (c.handleDaemonMessage (fun _ => id) c.activeSessionId message).1.freshState = none ∨
      (c.handleDaemonMessage (fun _ => id) c.activeSessionId message).1.freshState =
        c.freshState ∨
      ∃ state ∈ c.brings message,
        (c.handleDaemonMessage (fun _ => id) c.activeSessionId message).1.freshState =
          some (some state) := by
  unfold handleDaemonMessage
  rw [if_neg (not_not.2 rfl)]
  split_ifs with hignored
  · split
    · exact .inr (.inl rfl)
    · exact .inr (.inl rfl)
    · exact .inr (.inl rfl)
  split
  · exact .inr (.inl rfl)
  · exact .inr (.inl rfl)
  · rename_i id chunkCount lastEventSequence lastEventCursor
    have hid : id ∉ c.ignoredSnapshotIds := fun hmem => hignored ⟨id, rfl, hmem⟩
    rw [freshState_completeSnapshotAssembly, brings, if_neg hid]
    rcases c.completedState id chunkCount lastEventSequence lastEventCursor with _ | state
    · exact .inr (.inl rfl)
    · exact .inr (.inr ⟨state, rfl, rfl⟩)
  · exact freshState_failSnapshot _ _ |>.imp_right .inl
  · split_ifs
    · exact .inr (.inl rfl)
    · have h := freshState_handleSequenced (c.observeDaemonEventSequence message) message
      rw [freshState_observeDaemonEventSequence] at h
      rwa [brings_observeDaemonEventSequence] at h

lemma freshState_handle_event {event : ConnectionSessionEvent} {eventMeta : DaemonEventMeta}
    {cursor : DaemonEventCursor} (hcursor : eventMeta.cursor = some cursor)
    (hfresh : c.isStaleSequencedMessage (.sessionEvent event eventMeta) = false) :
    (c.handleDaemonMessage (fun _ => id) c.activeSessionId
      (.sessionEvent event eventMeta)).1.freshState = none := by
  have hcursor' : (ConnectionMessage.sessionEvent event eventMeta :
      ConnectionMessage State).eventMeta.cursor = some cursor := hcursor
  rw [handle_of_cursor hcursor', hfresh, if_neg Bool.false_ne_true]
  rfl

/-! ## Messages keep the session -/

lemma activeSessionId_observeEventCursor (cursor : DaemonEventCursor) :
    (c.observeEventCursor cursor).activeSessionId = c.activeSessionId := by
  rw [observeEventCursor]
  split
  · rfl
  · rfl

lemma activeSessionId_observeDaemonEventSequence :
    (c.observeDaemonEventSequence message).activeSessionId = c.activeSessionId := by
  rw [observeDaemonEventSequence]
  split
  · exact activeSessionId_observeEventCursor _
  · split
    · rfl
    · rfl

lemma activeSessionId_observeSnapshot (snapshot : DaemonSessionSnapshot State) :
    (c.observeSnapshot snapshot).activeSessionId = c.activeSessionId := by
  rw [observeSnapshot]
  split
  · exact activeSessionId_observeEventCursor _
  · rfl

lemma activeSessionId_handleSequenced (withRecap : Option String → State → State) :
    (c.handleSequenced withRecap message).1.activeSessionId = c.activeSessionId := by
  cases message with
  | sessionEvent event _ => cases event <;> rfl
  | sessionReplaced _ _ snapshotFollows _ => cases snapshotFollows <;> rfl
  | _ => rfl

lemma activeSessionId_rejectSnapshotAssembly (assembly : DaemonSnapshotAssembly State)
    (error : String) :
    (c.rejectSnapshotAssembly snapshotId assembly error).activeSessionId = c.activeSessionId := by
  rw [rejectSnapshotAssembly]
  split_ifs
  · rfl
  · rfl

lemma activeSessionId_completeSnapshotAssembly (chunkCount lastEventSequence : ℕ)
    (lastEventCursor : Option DaemonEventCursor) :
    (c.completeSnapshotAssembly snapshotId chunkCount lastEventSequence
      lastEventCursor).1.activeSessionId = c.activeSessionId := by
  rw [completeSnapshotAssembly]
  split
  · exact activeSessionId_rejectSnapshotAssembly _ _ _
  · split
    · exact activeSessionId_observeSnapshot _
    · exact activeSessionId_observeSnapshot _

lemma activeSessionId_ignoreSnapshotId :
    (c.ignoreSnapshotId snapshotId).activeSessionId = c.activeSessionId := by
  simp [ignoreSnapshotId]

lemma activeSessionId_failSnapshot (snapshotId error : String) :
    (c.failSnapshot snapshotId error).1.activeSessionId = c.activeSessionId := by
  have hfailed := (activeSessionId_ignoreSnapshotId snapshotId).trans
    (activeSessionId_rejectSnapshotAssembly (c := c) snapshotId (c.getSnapshotAssembly snapshotId)
      error)
  rw [failSnapshot]
  generalize ignoreSnapshotId _ snapshotId = failed at hfailed ⊢
  split
  · exact hfailed
  · exact hfailed

lemma activeSessionId_handle (withRecap : Option String → State → State)
    (activeSessionId : String) :
    (c.handleDaemonMessage withRecap activeSessionId message).1.activeSessionId =
      c.activeSessionId := by
  unfold handleDaemonMessage
  split_ifs
  · rfl
  · split
    · rfl
    · rfl
    · rfl
  split
  · rfl
  · rfl
  · exact activeSessionId_completeSnapshotAssembly _ _ _ _
  · exact activeSessionId_failSnapshot _ _
  · split_ifs
    · rfl
    · exact (activeSessionId_handleSequenced _).trans activeSessionId_observeDaemonEventSequence

end DaemonAgentConnection

/-! ## Servers, a connection and its requests -/

/-- The time during which a connection is attached to a session, and what the server of that session
had sent when it began. -/
structure Attachment where
  number : ℕ
  session : String
  since : Option SentCursor

/-- A message with a cursor that has arrived, with the session it names. -/
abbrev Arrival := String × ConnectionMessage Capture × SentCursor

def Told (arrived : List Arrival) (session : String) (k : SentCursor) : Prop :=
  ∃ event eventMeta, (session, .sessionEvent event eventMeta, k) ∈ arrived

/-- A reattach that the daemon has not answered. -/
structure PendingReattach where
  source : String
  target : String
  previous : ReattachPreviousState Capture
  previousAttachment : Attachment
  attachment : Attachment
  /-- What had arrived before. -/
  arrived : List Arrival

/-- A snapshot that was asked for. -/
structure PendingSnapshot where
  session : String
  request : InitialSnapshotRequest
  attachment : Attachment
  /-- What the server of the session had sent. -/
  asked : Option SentCursor

structure FreshnessSystem where
  connection : DaemonAgentConnection Capture
  attachment : Attachment
  attachments : ℕ := 0
  /-- What the server of each session has sent at the latest. -/
  newest : String → Option SentCursor := fun _ => none
  arrived : List Arrival := []
  reattaches : List PendingReattach := []
  requests : List PendingSnapshot := []

inductive FreshnessInput where
  /-- A server sends something to others. -/
  | elsewhere (session : String)
  | message (session : String) (message : ConnectionMessage Capture)
  | reattach (target : String)
  | reattached (index : ℕ) (result : Option (DaemonSessionSnapshot Capture × Option Json))
  | awaitedSnapshot (target snapshotId : String)
  | reattachFailed (index : ℕ)
  | getInitialSnapshot
  /-- The oldest of the answers was captured then. -/
  | initialSnapshot (index : ℕ) (capture : Capture) (messages : List Json)
  /-- Another request has succeeded. -/
  | invalidate

/-- `k` is at most the cursor, which there is. -/
def AtMost (k : SentCursor) (bound : Option SentCursor) : Prop :=
  ∃ n ∈ bound, k ≤ n

/-- The server counts on. -/
def Newer (newest : Option SentCursor) (k : SentCursor) : Prop :=
  ∀ n ∈ newest, n < k

namespace FreshnessSystem

variable (s : FreshnessSystem)

def handle (session : String) (message : ConnectionMessage Capture) :
    DaemonAgentConnection Capture :=
  (s.connection.handleDaemonMessage (fun _ => id) session message).1

def sent (session : String) (k : SentCursor) : String → Option SentCursor :=
  Function.update s.newest session (some k)

def reattach (target : String) : FreshnessSystem :=
  let attachment : Attachment :=
    { number := s.attachments
      session := target
      since := s.newest target }
  { s with
    connection := s.connection.beginReattach target
    attachment
    attachments := s.attachments + 1
    reattaches := s.reattaches ++
      [{ source := s.connection.activeSessionId
         target
         previous := s.connection.previousState
         previousAttachment := s.attachment
         attachment
         arrived := s.arrived }] }

def getInitialSnapshot : FreshnessSystem :=
  { s with
    requests := s.requests ++
      [{ session := s.connection.activeSessionId
         request := s.connection.initialSnapshotRequest
         attachment := s.attachment
         asked := s.newest s.connection.activeSessionId }] }

end FreshnessSystem

/-- The snapshot has the cursor of its capture, or none. -/
def BearsCursor (generationId : ℕ → String) (capture : Capture) (newest : Option SentCursor)
    (cursor : Option DaemonEventCursor) : Prop :=
  ∀ last ∈ cursor, last = capture.cursor.cursor generationId ∧ AtMost capture.cursor newest

/-- What a connection does, and what the servers of the sessions send it. -/
inductive FreshnessStep (generationId : ℕ → String) :
    FreshnessSystem → FreshnessInput → FreshnessSystem → Prop
  | elsewhere {s : FreshnessSystem} {session : String} {k : SentCursor}
      (hnewer : Newer (s.newest session) k) :
    FreshnessStep generationId s (.elsewhere session) { s with newest := s.sent session k }
  | new {s : FreshnessSystem} {session : String} {message : ConnectionMessage Capture}
      {k : SentCursor}
      (hcursor : message.eventMeta.cursor = some (k.cursor generationId))
      (hnewer : Newer (s.newest session) k)
      (hcapture : ∀ capture ∈ s.connection.brings message, capture.session = session) :
    FreshnessStep generationId s (.message session message)
      { s with
        connection := s.handle session message
        newest := s.sent session k
        arrived := s.arrived ++ [(session, message, k)] }
  | again {s : FreshnessSystem} {session : String} {message : ConnectionMessage Capture}
      {k : SentCursor} (harrived : (session, message, k) ∈ s.arrived) :
    FreshnessStep generationId s (.message session message)
      { s with connection := s.handle session message }
  | plain {s : FreshnessSystem} {session : String} {message : ConnectionMessage Capture}
      (hplain : message.eventMeta = {})
      (hcapture : ∀ capture ∈ s.connection.brings message, capture.session = session ∧
        BearsCursor generationId capture (s.newest session) (s.connection.takenOver message)) :
    FreshnessStep generationId s (.message session message)
      { s with connection := s.handle session message }
  | reattach {s : FreshnessSystem} {target : String} :
    FreshnessStep generationId s (.reattach target) (s.reattach target)
  | reattached {s : FreshnessSystem} {index : ℕ} {r : PendingReattach}
      {result : Option (DaemonSessionSnapshot Capture × Option Json)}
      (hpending : s.reattaches[index]? = some r)
      -- the session is captured after the daemon has got the request
      (hcapture : ∀ p ∈ result, p.1.state.session = r.target ∧
        (∀ m ∈ r.attachment.since, m ≤ p.1.state.cursor) ∧
        BearsCursor generationId p.1.state (s.newest r.target) p.1.lastEventCursor) :
    FreshnessStep generationId s (.reattached index result)
      { s with
        connection := (s.connection.reattached r.target r.target result).1
        reattaches := s.reattaches.eraseIdx index }
  | awaitedSnapshot {s : FreshnessSystem} {target snapshotId : String} :
    FreshnessStep generationId s (.awaitedSnapshot target snapshotId)
      { s with connection := s.connection.awaitedSnapshot target snapshotId }
  | reattachFailed {s : FreshnessSystem} {index : ℕ} {r : PendingReattach}
      (hpending : s.reattaches[index]? = some r) :
    FreshnessStep generationId s (.reattachFailed index)
      { s with
        connection := s.connection.failReattach r.source r.target r.previous
        attachment := r.previousAttachment
        reattaches := s.reattaches.eraseIdx index }
  | getInitialSnapshot {s : FreshnessSystem} (hcache : s.connection.cachedSnapshot = none) :
    FreshnessStep generationId s .getInitialSnapshot s.getInitialSnapshot
  | initialSnapshot {s : FreshnessSystem} {index : ℕ} {p : PendingSnapshot} {capture : Capture}
      {messages : List Json}
      (hpending : s.requests[index]? = some p)
      (hsession : capture.session = p.session)
      -- the daemon answers after it has got the requests
      (hcapture : ∀ m ∈ p.asked, m ≤ capture.cursor) :
    FreshnessStep generationId s (.initialSnapshot index capture messages)
      { s with
        connection := s.connection.answerInitialSnapshot p.request capture messages
        requests := s.requests.eraseIdx index }
  | invalidate {s : FreshnessSystem} :
    FreshnessStep generationId s .invalidate
      { s with connection := s.connection.invalidateCachedSnapshot }

def freshness (generationId : ℕ → String) : Machine FreshnessSystem FreshnessInput where
  step := FreshnessStep generationId

/-! ## What a connection can miss -/

/-- The snapshot is not older than the attachment, nor than what has been seen since. -/
def CapturedSince (generationId : ℕ → String) (s : FreshnessSystem) (capture : Capture) : Prop :=
  (∀ m ∈ s.attachment.since, m ≤ capture.cursor) ∧
    ∀ j : SentCursor, s.connection.lastEventCursor = some (j.cursor generationId) →
      j ≤ capture.cursor

def KeepsUp (generationId : ℕ → String) (s : FreshnessSystem) : FreshnessInput → Prop
  | .message session message => session = s.connection.activeSessionId →
      (∀ capture ∈ s.connection.brings message, CapturedSince generationId s capture) ∧
        ((∃ k, (session, message, k) ∈ s.arrived) →
          s.connection.isStaleSequencedMessage message = true)
  | .reattached index result => ∀ r, s.reattaches[index]? = some r →
      r.attachment = s.attachment ∧ ∀ p ∈ result, CapturedSince generationId s p.1.state
  | .reattachFailed index => ∀ r, s.reattaches[index]? = some r →
      ∀ k, Told s.arrived r.source k → Told r.arrived r.source k
  | .initialSnapshot index _ _ => ∀ p, s.requests[index]? = some p →
      p.request = s.connection.initialSnapshotRequest → p.attachment = s.attachment
  | _ => True

/-! ## Standings -/

/-- Where a connection stands in an attachment. -/
structure Stands (generationId : ℕ → String) (newest : String → Option SentCursor)
    (arrived : List Arrival) (attachment : Attachment)
    (cursors : Option DaemonEventCursor × List String) : Prop where
  tracks : ∃ seen, Tracks generationId seen cursors ∧
    ∀ k ∈ seen, AtMost k (newest attachment.session)
  since : ∀ m ∈ attachment.since, AtMost m (newest attachment.session)
  told : ∀ k, Told arrived attachment.session k → AtMost k attachment.since ∨
    ∃ j : SentCursor, cursors.1 = some (j.cursor generationId) ∧ k ≤ j

/-- What is called fresh is of that session, and not older than what has arrived of it. -/
def IsFresh (arrived : List Arrival) (session : String) (fresh : Option (Option Capture)) : Prop :=
  ∀ state ∈ fresh, ∃ capture, state = some capture ∧ capture.session = session ∧
    ∀ k, Told arrived session k → k ≤ capture.cursor

variable {s : FreshnessSystem} {capture : Capture}

section Standings

variable {generationId : ℕ → String} {newest newest' : String → Option SentCursor}
  {arrived arrived' : List Arrival} {attachment : Attachment} {session session' : String}
  {cursors : Option DaemonEventCursor × List String} {fresh : Option (Option Capture)}
  {c : DaemonAgentConnection Capture} {message : ConnectionMessage Capture} {j k m : SentCursor}

lemma AtMost.lt {bound : Option SentCursor} (h : AtMost j bound) (hnewer : Newer bound k) :
    j < k := by
  obtain ⟨n, hn, hle⟩ := h
  exact hle.trans_lt (hnewer n hn)

/-- What was sent at the latest before is still not newer than what is now. -/
lemma AtMost.sent (hnewer : Newer (s.newest session) k) (h : AtMost j (s.newest session')) :
    AtMost j (s.sent session k session') := by
  rw [FreshnessSystem.sent]
  by_cases hsess : session' = session
  · subst hsess
    rw [update_self]
    exact ⟨k, rfl, (h.lt hnewer).le⟩
  · rwa [update_of_ne hsess]

lemma atMost_sent (s : FreshnessSystem) (session : String) (k : SentCursor) :
    AtMost k (s.sent session k session) := by
  rw [FreshnessSystem.sent, update_self]
  exact ⟨k, rfl, le_rfl⟩

lemma told_append (h : Told (arrived ++ [(session, message, k)]) session' j) :
    Told arrived session' j ∨
      session' = session ∧ j = k ∧ ∃ event eventMeta, message = .sessionEvent event eventMeta := by
  obtain ⟨event, eventMeta, hmem⟩ := h
  rcases List.mem_append.1 hmem with hmem | hmem
  · exact .inl ⟨event, eventMeta, hmem⟩
  · obtain ⟨rfl, hrest⟩ := Prod.ext_iff.1 (List.mem_singleton.1 hmem)
    obtain ⟨rfl, rfl⟩ := Prod.ext_iff.1 hrest
    exact .inr ⟨rfl, rfl, event, eventMeta, rfl⟩

lemma Stands.newer (h : Stands generationId newest arrived attachment cursors)
    (hnewest : ∀ k, AtMost k (newest attachment.session) → AtMost k (newest' attachment.session)) :
    Stands generationId newest' arrived attachment cursors := by
  obtain ⟨seen, htracks, hseen⟩ := h.tracks
  refine ⟨⟨seen, htracks, fun k hk => hnewest k (hseen k hk)⟩, fun m hm => hnewest m (h.since m hm),
    h.told⟩

lemma Stands.of_told (h : Stands generationId newest arrived attachment cursors)
    (htold : ∀ k, Told arrived' attachment.session k → Told arrived attachment.session k) :
    Stands generationId newest arrived' attachment cursors :=
  ⟨h.tracks, h.since, fun k hk => h.told k (htold k hk)⟩

lemma IsFresh.of_told (h : IsFresh arrived session fresh)
    (htold : ∀ k, Told arrived' session k → Told arrived session k) :
    IsFresh arrived' session fresh := by
  intro state hstate
  obtain ⟨capture, hcapture, hsess, hnewest⟩ := h state hstate
  exact ⟨capture, hcapture, hsess, fun k hk => hnewest k (htold k hk)⟩

lemma isFresh_none : IsFresh arrived session none :=
  fun _ h => nomatch h

lemma Stands.last_le (hid : Injective generationId)
    (h : Stands generationId newest arrived attachment cursors)
    (hlast : cursors.1 = some (j.cursor generationId)) : AtMost j (newest attachment.session) := by
  obtain ⟨seen, htracks, hseen⟩ := h.tracks
  obtain ⟨j', hj', hcursor⟩ := htracks.last _ hlast
  obtain rfl := cursor_injective hid hcursor
  exact hseen j hj'

/-- A cursor is taken over that is not older than the last one. -/
lemma Stands.observe (hid : Injective generationId)
    (h : Stands generationId newest arrived attachment c.cursors)
    (hlast : ∀ j : SentCursor, c.lastEventCursor = some (j.cursor generationId) → j ≤ k)
    (hk : AtMost k (newest attachment.session)) :
    Stands generationId newest arrived attachment
        (c.observeEventCursor (k.cursor generationId)).cursors ∧
      ∃ j : SentCursor, (c.observeEventCursor (k.cursor generationId)).cursors.1 =
        some (j.cursor generationId) ∧ k ≤ j := by
  obtain ⟨seen, htracks, hseen⟩ := h.tracks
  obtain ⟨htracks', -, hpassed⟩ := observe_keeps hid htracks fun j hj =>
    SentCursor.generation_le (hlast j hj)
  obtain ⟨j', hj', -⟩ := id hpassed
  have hle : k ≤ j' := hpassed.le hid htracks' hj'
  refine ⟨⟨⟨k :: seen, htracks', ?_⟩, h.since, ?_⟩, j', hj', hle⟩
  · intro i hi
    rcases List.mem_cons.1 hi with rfl | hi
    · exact hk
    · exact hseen i hi
  · intro i hi
    refine (h.told i hi).imp_right ?_
    rintro ⟨j, hj, hij⟩
    exact ⟨j', hj', (hij.trans (hlast j hj)).trans hle⟩

/-- A snapshot that is taken over is not older than what has arrived. -/
lemma Stands.told_le (h : Stands generationId newest arrived attachment cursors)
    (hsince : ∀ m ∈ attachment.since, m ≤ capture.cursor)
    (hlast : ∀ j : SentCursor, cursors.1 = some (j.cursor generationId) → j ≤ capture.cursor) :
    ∀ k, Told arrived attachment.session k → k ≤ capture.cursor := by
  intro k hk
  rcases h.told k hk with ⟨m, hm, hle⟩ | ⟨j, hj, hle⟩
  · exact hle.trans (hsince m hm)
  · exact hle.trans (hlast j hj)

end Standings

/-- What a failed reattach goes back to. -/
def ReattachPreviousState.freshState (previous : ReattachPreviousState Capture) :
    Option (Option Capture) :=
  if previous.latestSnapshotIsFresh then
    some (previous.latestSnapshot.map AgentConnectionSnapshot.state)
  else none

/-- A request that may still be answered. -/
structure Asked (generationId : ℕ → String) (p : PendingSnapshot) : Prop where
  session : p.session = p.attachment.session
  since : ∀ m ∈ p.attachment.since, AtMost m p.asked
  cursor : ∀ last ∈ p.request.snapshotCursor, ∃ j : SentCursor, last = j.cursor generationId ∧
    AtMost j p.asked

/-- A reattach that may still fail. -/
structure CanReturn (generationId : ℕ → String) (newest : String → Option SentCursor)
    (r : PendingReattach) : Prop where
  target : r.attachment.session = r.target
  source : r.previousAttachment.session = r.source
  stands : Stands generationId newest r.arrived r.previousAttachment
    (r.previous.lastEventCursor, r.previous.retiredEventGenerations)
  fresh : IsFresh r.arrived r.source r.previous.freshState

/-- What holds of every run. -/
structure Current (generationId : ℕ → String) (s : FreshnessSystem) : Prop where
  session : s.attachment.session = s.connection.activeSessionId
  stands : Stands generationId s.newest s.arrived s.attachment s.connection.cursors
  fresh : IsFresh s.arrived s.attachment.session s.connection.freshState
  reattaches : ∀ r ∈ s.reattaches, CanReturn generationId s.newest r
  requests : ∀ p ∈ s.requests, Asked generationId p
  arrived : ∀ p ∈ s.arrived, p.2.1.eventMeta.cursor = some (p.2.2.cursor generationId) ∧
    AtMost p.2.2 (s.newest p.1)

section Runs

variable {generationId : ℕ → String} {s t : FreshnessSystem} {session : String}
  {message : ConnectionMessage Capture} {k : SentCursor}
variable {r : PendingReattach}

lemma CanReturn.newer {newest newest' : String → Option SentCursor}
    (h : CanReturn generationId newest r)
    (hnewest : ∀ session k, AtMost k (newest session) → AtMost k (newest' session)) :
    CanReturn generationId newest' r :=
  ⟨h.target, h.source, h.stands.newer (hnewest _), h.fresh⟩

/-- The connection handles a message that does not advance the server. -/
lemma Current.handled (h : Current generationId s) {connection : DaemonAgentConnection Capture}
    (hsess : connection.activeSessionId = s.connection.activeSessionId)
    (hstands : Stands generationId s.newest s.arrived s.attachment connection.cursors)
    (hfresh : IsFresh s.arrived s.attachment.session connection.freshState) :
    Current generationId { s with connection } :=
  ⟨h.session.trans hsess.symm, hstands, hfresh, h.reattaches, h.requests, h.arrived⟩

lemma Current.sent (h : Current generationId s) (hnewer : Newer (s.newest session) k) :
    Current generationId { s with newest := s.sent session k } := by
  refine ⟨h.session, h.stands.newer fun _ hj => hj.sent hnewer, h.fresh, ?_, h.requests, ?_⟩
  · exact fun r hr => (h.reattaches r hr).newer fun _ _ hj => hj.sent hnewer
  · intro p hp
    obtain ⟨hcursor, hp⟩ := h.arrived p hp
    exact ⟨hcursor, hp.sent hnewer⟩

/-- What comes of the freshness when a message is handled that is no session event. -/
lemma Current.isFresh_handle (h : Current generationId s)
    (hcapture : ∀ capture ∈ s.connection.brings message,
      capture.session = s.connection.activeSessionId)
    (hsince : ∀ capture ∈ s.connection.brings message, CapturedSince generationId s capture) :
    IsFresh s.arrived s.attachment.session
      (s.handle s.connection.activeSessionId message).freshState := by
  rw [FreshnessSystem.handle]
  rcases DaemonAgentConnection.freshState_handle s.connection message with
    hnone | hsame | ⟨capture, hbrings, hfresh⟩
  · rw [hnone]
    exact isFresh_none
  · rw [hsame]
    exact h.fresh
  · rw [hfresh]
    rintro _ ⟨⟩
    refine ⟨capture, rfl, (hcapture capture hbrings).trans h.session.symm, ?_⟩
    obtain ⟨hsince, hlast⟩ := hsince capture hbrings
    exact h.stands.told_le hsince hlast

/-- A session event, or another message with a cursor, of the session of the connection. -/
lemma Current.new (hid : Injective generationId) (h : Current generationId s)
    (hcursor : message.eventMeta.cursor = some (k.cursor generationId))
    (hnewer : Newer (s.newest s.connection.activeSessionId) k)
    (hcapture : ∀ capture ∈ s.connection.brings message,
      capture.session = s.connection.activeSessionId)
    (hsince : ∀ capture ∈ s.connection.brings message, CapturedSince generationId s capture) :
    Current generationId
      { s with
        connection := s.handle s.connection.activeSessionId message
        newest := s.sent s.connection.activeSessionId k
        arrived := s.arrived ++ [(s.connection.activeSessionId, message, k)] } := by
  obtain ⟨seen, htracks, hseen⟩ := h.stands.tracks
  rw [h.session] at hseen
  have hfresh := fresh_of_newer hid htracks (fun j hj => (hseen j hj).lt hnewer) hcursor
  have hcursors : (s.handle s.connection.activeSessionId message).cursors =
      (s.connection.observeEventCursor (k.cursor generationId)).cursors :=
    cursors_handle_of_cursor _ hcursor hfresh
  have hsent := h.sent (k := k) hnewer
  obtain ⟨hstands, j, hj, hle⟩ := Stands.observe (k := k) hid hsent.stands
    (fun j hj => ((h.stands.last_le hid hj).lt (h.session ▸ hnewer)).le)
    (h.session ▸ atMost_sent s _ k)
  rw [← hcursors] at hstands hj
  have htold : ∀ i, Told (s.arrived ++ [(s.connection.activeSessionId, message, k)])
      s.attachment.session i → Told s.arrived s.attachment.session i ∨ i = k :=
    fun i hi => (told_append hi).imp_right fun hi => hi.2.1
  refine ⟨?_, ⟨hstands.tracks, hstands.since, ?_⟩, ?_, hsent.reattaches, h.requests, ?_⟩
  · exact h.session.trans (DaemonAgentConnection.activeSessionId_handle _ _).symm
  · intro i hi
    rcases htold i hi with hi | rfl
    · exact hstands.told i hi
    · exact .inr ⟨j, hj, hle⟩
  · by_cases hevent : ∃ event eventMeta, message = .sessionEvent event eventMeta
    · obtain ⟨event, eventMeta, rfl⟩ := hevent
      have hnone : (s.handle s.connection.activeSessionId
          (.sessionEvent event eventMeta)).freshState = none :=
        DaemonAgentConnection.freshState_handle_event hcursor hfresh
      exact hnone.symm ▸ isFresh_none
    · refine (h.isFresh_handle hcapture hsince).of_told fun i hi => ?_
      exact (told_append hi).resolve_right fun hi => hevent hi.2.2
  · intro p hp
    rcases List.mem_append.1 hp with hp | hp
    · exact hsent.arrived p hp
    · obtain rfl := List.mem_singleton.1 hp
      exact ⟨hcursor, atMost_sent s _ k⟩

/-- A message with a cursor, of another session. -/
lemma Current.elsewhere (h : Current generationId s)
    (hcursor : message.eventMeta.cursor = some (k.cursor generationId))
    (hnewer : Newer (s.newest session) k) (hsess : session ≠ s.connection.activeSessionId) :
    Current generationId
      { s with
        connection := s.handle session message
        newest := s.sent session k
        arrived := s.arrived ++ [(session, message, k)] } := by
  have hsent := h.sent hnewer
  have htold : ∀ i, Told (s.arrived ++ [(session, message, k)]) s.attachment.session i →
      Told s.arrived s.attachment.session i := by
    intro i hi
    refine (told_append hi).resolve_right fun hi => hsess ?_
    rw [← hi.1, h.session]
  rw [FreshnessSystem.handle, handle_of_foreign hsess]
  refine ⟨hsent.session, hsent.stands.of_told htold, hsent.fresh.of_told htold, hsent.reattaches,
    h.requests, ?_⟩
  intro p hp
  rcases List.mem_append.1 hp with hp | hp
  · exact hsent.arrived p hp
  · obtain rfl := List.mem_singleton.1 hp
    exact ⟨hcursor, atMost_sent s _ k⟩

/-- A message without metadata of the session of the connection. -/
lemma Current.plain (hid : Injective generationId) (h : Current generationId s)
    (hplain : message.eventMeta = {})
    (hcapture : ∀ capture ∈ s.connection.brings message,
      capture.session = s.connection.activeSessionId ∧
        BearsCursor generationId capture (s.newest s.connection.activeSessionId)
          (s.connection.takenOver message))
    (htaken : s.connection.brings message = none → s.connection.takenOver message = none)
    (hsince : ∀ capture ∈ s.connection.brings message, CapturedSince generationId s capture) :
    Current generationId
      { s with connection := s.handle s.connection.activeSessionId message } := by
  have hcursors : (s.handle s.connection.activeSessionId message).cursors =
      s.connection.cursorsAfter (s.connection.takenOver message) :=
    cursors_handle_of_plain hplain
  refine h.handled (DaemonAgentConnection.activeSessionId_handle _ _) ?_
    (h.isFresh_handle (fun capture hbrings => (hcapture capture hbrings).1) hsince)
  rw [hcursors]
  rcases hcursor : s.connection.takenOver message with _ | last
  · exact h.stands
  · rcases hbrings : s.connection.brings message with _ | capture
    · cases hcursor.symm.trans (htaken hbrings)
    · obtain ⟨rfl, hsent⟩ := (hcapture capture hbrings).2 last hcursor
      exact (h.stands.observe hid (hsince capture hbrings).2 (h.session ▸ hsent)).1

lemma takenOver_of_brings_none {c : DaemonAgentConnection Capture}
    (h : c.brings message = none) : c.takenOver message = none := by
  unfold takenOver
  split
  · split_ifs with hignored
    · rfl
    · rw [DaemonAgentConnection.brings, if_neg hignored, DaemonAgentConnection.completedState] at h
      rw [completedCursor]
      split at h
      · cases h
      · rename_i error herror
        rw [herror]
        rfl
  · rfl

lemma Current.reattach (h : Current generationId s) (target : String) :
    Current generationId (s.reattach target) := by
  refine ⟨rfl, ⟨⟨[], ⟨?_, ?_⟩, ?_⟩, ?_, ?_⟩, isFresh_none, ?_, h.requests, h.arrived⟩
  · exact fun last hlast => nomatch hlast
  · exact fun g hg => nomatch hg
  · exact fun k hk => nomatch hk
  · exact fun m hm => ⟨m, hm, le_rfl⟩
  · -- all that has arrived of the target was sent before the request
    rintro k ⟨event, eventMeta, hmem⟩
    exact .inl (h.arrived _ hmem).2
  · intro r hr
    rcases List.mem_append.1 hr with hr | hr
    · exact h.reattaches r hr
    · obtain rfl := List.mem_singleton.1 hr
      exact ⟨rfl, h.session, h.stands, h.session ▸ h.fresh⟩

variable {index : ℕ}

/-- The daemon reattaches the connection, which has not been attached elsewhere since. -/
lemma Current.reattached (hid : Injective generationId) (h : Current generationId s)
    (hpend : s.reattaches[index]? = some r)
    {result : Option (DaemonSessionSnapshot Capture × Option Json)}
    (hcapture : ∀ p ∈ result, p.1.state.session = r.target ∧
      BearsCursor generationId p.1.state (s.newest r.target) p.1.lastEventCursor)
    (hsame : r.attachment = s.attachment)
    (hsince : ∀ p ∈ result, CapturedSince generationId s p.1.state) :
    Current generationId
      { s with
        connection := (s.connection.reattached r.target r.target result).1
        reattaches := s.reattaches.eraseIdx index } := by
  have htarget : s.attachment.session = r.target :=
    hsame ▸ (h.reattaches r (List.mem_of_getElem? hpend)).target
  have hrest : ∀ r ∈ s.reattaches.eraseIdx index, CanReturn generationId s.newest r :=
    fun r hr => h.reattaches r (List.mem_of_mem_eraseIdx hr)
  rcases result with _ | ⟨snapshot, replay⟩
  · exact ⟨htarget, h.stands, h.fresh, hrest, h.requests, h.arrived⟩
  · obtain ⟨hsess, hlabel⟩ := hcapture _ rfl
    obtain ⟨hsince, hlast⟩ := hsince _ rfl
    refine ⟨?_, ?_, ?_, hrest, h.requests, h.arrived⟩
    · refine htarget.trans (Eq.symm ?_)
      exact DaemonAgentConnection.activeSessionId_observeSnapshot snapshot
    · change Stands generationId s.newest s.arrived s.attachment
        (applyReplacementSnapshot _ snapshot replay).cursors
      rw [cursors_applyReplacementSnapshot]
      rcases hcursor : snapshot.lastEventCursor with _ | last
      · exact h.stands
      · obtain ⟨rfl, hsent⟩ := hlabel last hcursor
        exact (Stands.observe (c := { s.connection with
          activeSessionId := r.target
          activeSideQuestionIds := [] }) hid h.stands hlast (htarget ▸ hsent)).1
    · rintro _ ⟨⟩
      exact ⟨snapshot.state, rfl, hsess.trans htarget.symm, h.stands.told_le hsince hlast⟩

/-- A reattach fails, and nothing of the session it goes back to has been missed. -/
lemma Current.reattachFailed (h : Current generationId s) (hpend : s.reattaches[index]? = some r)
    (hmissed : ∀ k, Told s.arrived r.source k → Told r.arrived r.source k) :
    Current generationId
      { s with
        connection := s.connection.failReattach r.source r.target r.previous
        attachment := r.previousAttachment
        reattaches := s.reattaches.eraseIdx index } := by
  have hreturn := h.reattaches r (List.mem_of_getElem? hpend)
  refine ⟨hreturn.source, ?_, ?_, ?_, h.requests, h.arrived⟩
  · exact hreturn.stands.of_told (hreturn.source ▸ hmissed)
  · exact hreturn.source ▸ hreturn.fresh.of_told hmissed
  · exact fun r hr => h.reattaches r (List.mem_of_mem_eraseIdx hr)

lemma Current.getInitialSnapshot (h : Current generationId s) :
    Current generationId s.getInitialSnapshot := by
  refine ⟨h.session, h.stands, h.fresh, h.reattaches, ?_, h.arrived⟩
  intro p hp
  rcases List.mem_append.1 hp with hp | hp
  · exact h.requests p hp
  · obtain rfl := List.mem_singleton.1 hp
    refine ⟨h.session.symm, h.session ▸ h.stands.since, ?_⟩
    intro last hlast
    obtain ⟨seen, htracks, hseen⟩ := h.stands.tracks
    obtain ⟨j, hj, rfl⟩ := htracks.last last hlast
    exact ⟨j, rfl, h.session ▸ hseen j hj⟩

/-- An answer, which is fresh if nothing has been seen since it was asked for. -/
lemma Current.initialSnapshot (hid : Injective generationId) (h : Current generationId s)
    {p : PendingSnapshot} (hpend : s.requests[index]? = some p)
    {messages : List Json} (hsess : capture.session = p.session)
    (hcapture : ∀ m ∈ p.asked, m ≤ capture.cursor)
    (hsame : p.request = s.connection.initialSnapshotRequest → p.attachment = s.attachment) :
    Current generationId
      { s with
        connection := s.connection.answerInitialSnapshot p.request capture messages
        requests := s.requests.eraseIdx index } := by
  obtain ⟨hsess', hsince, hcursor⟩ := h.requests p (List.mem_of_getElem? hpend)
  refine ⟨h.session, h.stands, ?_, h.reattaches,
    fun p hp => h.requests p (List.mem_of_mem_eraseIdx hp), h.arrived⟩
  by_cases hreq : p.request = s.connection.initialSnapshotRequest
  · have hle : ∀ k, AtMost k p.asked → k ≤ capture.cursor := by
      rintro k ⟨m, hm, hle⟩
      exact hle.trans (hcapture m hm)
    have hattachment := hsame hreq
    rintro state hstate
    obtain rfl : some capture = state := by
      simpa [DaemonAgentConnection.freshState, answerInitialSnapshot,
        hreq] using hstate
    refine ⟨capture, rfl, ?_, h.stands.told_le ?_ ?_⟩
    · rw [hsess, hsess', hattachment]
    · exact fun m hm => hle m (hsince m (hattachment ▸ hm))
    · intro j hj
      have hlast : p.request.snapshotCursor = some (j.cursor generationId) := by
        rw [hreq]
        exact hj
      obtain ⟨j', hj', hasked⟩ := hcursor _ hlast
      obtain rfl := cursor_injective hid hj'
      exact hle j hasked
  · have hnone : (s.connection.answerInitialSnapshot p.request capture messages).freshState =
        none := by
      refine DaemonAgentConnection.freshState_of_not_fresh ?_
      exact decide_eq_false hreq
    exact hnone.symm ▸ isFresh_none

lemma Current.step (hid : Injective generationId) (h : Current generationId s)
    {input : FreshnessInput} (hstep : FreshnessStep generationId s input t)
    (hguard : KeepsUp generationId s input) : Current generationId t := by
  cases hstep with
  | elsewhere hnewer => exact h.sent hnewer
  | @new session message k hcursor hnewer hcapture =>
    by_cases hsess : session = s.connection.activeSessionId
    · subst hsess
      exact h.new hid hcursor hnewer hcapture (hguard rfl).1
    · exact h.elsewhere hcursor hnewer hsess
  | @again session message k harrived =>
    by_cases hsess : session = s.connection.activeSessionId
    · subst hsess
      have hstale := handle_of_stale (fun _ => id) (h.arrived _ harrived).1
        ((hguard rfl).2 ⟨k, harrived⟩)
      rw [FreshnessSystem.handle, hstale]
      exact h
    · rw [FreshnessSystem.handle, handle_of_foreign hsess]
      exact h
  | @plain session message hplain hcapture =>
    by_cases hsess : session = s.connection.activeSessionId
    · subst hsess
      exact h.plain hid hplain hcapture takenOver_of_brings_none (hguard rfl).1
    · rw [FreshnessSystem.handle, handle_of_foreign hsess]
      exact h
  | reattach => exact h.reattach _
  | reattached hpend hcapture =>
    obtain ⟨hsame, hsince⟩ := hguard _ hpend
    refine h.reattached hid hpend (fun p hp => ?_) hsame hsince
    exact ⟨(hcapture p hp).1, (hcapture p hp).2.2⟩
  | awaitedSnapshot => exact h.handled rfl h.stands h.fresh
  | reattachFailed hpend => exact h.reattachFailed hpend (hguard _ hpend)
  | getInitialSnapshot => exact h.getInitialSnapshot
  | initialSnapshot hpend hsess hcapture =>
    exact h.initialSnapshot hid hpend hsess hcapture (hguard _ hpend)
  | invalidate => exact h.handled rfl h.stands isFresh_none

/-- Nothing has arrived yet, at most a snapshot of the session has been taken over. -/
structure FreshlyAttached (generationId : ℕ → String) (s : FreshnessSystem) : Prop where
  session : s.attachment.session = s.connection.activeSessionId
  since : ∀ m ∈ s.attachment.since, AtMost m (s.newest s.connection.activeSessionId)
  retired : s.connection.retiredEventGenerations = []
  last : ∀ last ∈ s.connection.lastEventCursor, ∃ j : SentCursor, last = j.cursor generationId ∧
    AtMost j (s.newest s.connection.activeSessionId)
  fresh : IsFresh [] s.connection.activeSessionId s.connection.freshState
  arrived : s.arrived = []
  reattaches : s.reattaches = []
  requests : s.requests = []

lemma FreshlyAttached.current (h : FreshlyAttached generationId s) : Current generationId s := by
  refine ⟨h.session, ⟨?_, h.session.symm ▸ h.since, ?_⟩, ?_, ?_, ?_, ?_⟩
  · rcases hlast : s.connection.lastEventCursor with _ | last
    · refine ⟨[], ⟨fun last hmem => ?_, fun g hg => ?_⟩, fun k hk => nomatch hk⟩
      · cases hlast.symm.trans hmem
      · change g ∈ s.connection.retiredEventGenerations at hg
        rw [h.retired] at hg
        cases hg
    · obtain ⟨j, rfl, hj⟩ := h.last last hlast
      refine ⟨[j], ⟨fun last hmem => ?_, fun g hg => ?_⟩, fun k hk => ?_⟩
      · exact ⟨j, List.mem_cons_self, Option.mem_unique hmem hlast⟩
      · change g ∈ s.connection.retiredEventGenerations at hg
        rw [h.retired] at hg
        cases hg
      · obtain rfl := List.mem_singleton.1 hk
        exact h.session ▸ hj
  · rintro k ⟨event, eventMeta, hmem⟩
    rw [h.arrived] at hmem
    cases hmem
  · rw [h.session, h.arrived]
    exact h.fresh
  · simp [h.reattaches]
  · simp [h.requests]
  · simp [h.arrived]

/-- What is called fresh was taken from the session that the connection is attached to, and no event
of that session has arrived that its server sent later. -/
def CacheIsFresh (s : FreshnessSystem) : Prop :=
  s.connection.latestSnapshotIsFresh = true → ∃ snapshot,
    s.connection.latestSnapshot = some snapshot ∧
      snapshot.state.session = s.connection.activeSessionId ∧
        ∀ k, Told s.arrived s.connection.activeSessionId k → k ≤ snapshot.state.cursor

lemma Current.cacheIsFresh (h : Current generationId s) : CacheIsFresh s := by
  intro hfresh
  obtain ⟨capture, hcapture, hsess, hle⟩ := h.fresh
    (s.connection.latestSnapshot.map AgentConnectionSnapshot.state)
    (by rw [DaemonAgentConnection.freshState, if_pos hfresh]; rfl)
  obtain ⟨snapshot, hsnap, rfl⟩ := Option.map_eq_some_iff.1 hcapture
  exact ⟨snapshot, hsnap, hsess.trans h.session, h.session ▸ hle⟩

/-- **What is called fresh is fresh**, as long as the connection can see what it missed. -/
theorem fresh_snapshot_is_fresh (hid : Injective generationId)
    (hattached : FreshlyAttached generationId s) {inputs : List FreshnessInput}
    (hrun : ((freshness generationId).guard (KeepsUp generationId)).Run s inputs t) :
    CacheIsFresh t ∧ ∀ snapshot ∈ t.connection.cachedSnapshot,
      snapshot.state.session = t.connection.activeSessionId ∧
        ∀ k, Told t.arrived t.connection.activeSessionId k → k ≤ snapshot.state.cursor := by
  have h : Current generationId t :=
    hrun.invariant hattached.current fun s₁ input s₂ h hstep => h.step hid hstep.1 hstep.2
  refine ⟨h.cacheIsFresh, fun snapshot hsnapshot => ?_⟩
  rw [cachedSnapshot] at hsnapshot
  split_ifs at hsnapshot with hfresh
  · obtain ⟨snapshot', hlatest, hrest⟩ := h.cacheIsFresh hfresh
    obtain rfl := Option.mem_unique hlatest hsnapshot
    exact hrest
  · cases hsnapshot

end Runs

/-! ## What a connection misses -/

/-- A connection that has just been given a snapshot of the session `a`. -/
def attachedToA : FreshnessSystem where
  connection :=
    { activeSessionId := "a"
      lastEventCursor := some ((sentAt 0 0).cursor generationName)
      latestSnapshot := some { state := { session := "a", cursor := sentAt 0 0 } }
      latestSnapshotIsFresh := true }
  attachment :=
    { number := 0
      session := "a"
      since := none }
  attachments := 1
  newest _ := some (sentAt 0 0)

def eventOfA : ConnectionMessage Capture :=
  .sessionEvent (.other .null)
    { sequence := some 1
      cursor := some ((sentAt 0 1).cursor generationName) }

/-- The event arrives. -/
def toldOfA (s : FreshnessSystem) : FreshnessSystem :=
  { s with
    connection := s.handle "a" eventOfA
    newest := s.sent "a" (sentAt 0 1)
    arrived := s.arrived ++ [("a", eventOfA, sentAt 0 1)] }

lemma toldOfA_step (hnewest : s.newest "a" = some (sentAt 0 0)) :
    FreshnessStep generationName s (.message "a" eventOfA) (toldOfA s) := by
  refine .new rfl ?_ fun _ h => nomatch h
  rw [hnewest]
  rintro _ ⟨⟩
  decide

lemma not_cacheIsFresh {snapshot : AgentConnectionSnapshot Capture} {k : SentCursor}
    (hfresh : s.connection.latestSnapshotIsFresh = true)
    (hsnap : s.connection.latestSnapshot = some snapshot)
    (htold : Told s.arrived s.connection.activeSessionId k) (hlt : snapshot.state.cursor < k) :
    ¬ CacheIsFresh s := by
  intro h
  obtain ⟨snapshot', hlatest, -, hle⟩ := h hfresh
  obtain rfl := Option.mem_unique hlatest hsnap
  exact absurd (hle k htold) (not_le.2 hlt)

/-- A reattach to `b` is pending when an event of `a` arrives, and is refused. -/
def missed : FreshnessSystem :=
  toldOfA (attachedToA.reattach "b")

def resyncBeginOfA : ConnectionMessage Capture :=
  .snapshotBegin "snapshot"
    { snapshot := { state := { session := "a", cursor := sentAt 0 0 }, lastEventSequence := 0 }
      messageCount := 0
      purpose := some .resync }

def resyncEndOfA : ConnectionMessage Capture :=
  .snapshotEnd "snapshot" 0 0 (some ((sentAt 0 0).cursor generationName))

/-- A resync has begun when an event arrives, which is newer. -/
def overtaken : FreshnessSystem :=
  toldOfA { attachedToA with connection := attachedToA.handle "a" resyncBeginOfA }

/-- A connection to `b` asks for a snapshot and is reattached to `a` before it gets one. -/
def askedOfB : FreshnessSystem where
  connection := { activeSessionId := "b" }
  attachment :=
    { number := 0
      session := "b"
      since := none }
  attachments := 1

/-- A refused reattach brings back a snapshot although an event has been dropped; an event overtakes
a snapshot, which is taken over nevertheless; and an answer is taken for that of another session. -/
theorem fresh_snapshot_is_fresh_missed :
    (∃ inputs t, (freshness generationName).Run attachedToA inputs t ∧ ¬ CacheIsFresh t ∧
      .reattachFailed 0 ∈ inputs) ∧
    (∃ inputs t, (freshness generationName).Run attachedToA inputs t ∧ ¬ CacheIsFresh t ∧
      .message "a" resyncEndOfA ∈ inputs) ∧
    ∃ inputs t, (freshness generationName).Run askedOfB inputs t ∧ ¬ CacheIsFresh t := by
  refine ⟨?_, ?_, ?_⟩
  · have hreattach : FreshnessStep generationName attachedToA (.reattach "b") _ := .reattach
    have hfailed : FreshnessStep generationName missed (.reattachFailed 0) _ :=
      .reattachFailed rfl
    refine ⟨_, _, ((Machine.Run.single (M := freshness generationName) hreattach).snoc
      (toldOfA_step rfl)).snoc hfailed, ?_, by simp⟩
    exact not_cacheIsFresh rfl rfl ⟨_, _, List.mem_cons_self⟩ (k := sentAt 0 1) (by decide)
  · have hbegin : FreshnessStep generationName attachedToA (.message "a" resyncBeginOfA) _ :=
      .plain rfl fun _ h => nomatch h
    have hend : FreshnessStep generationName overtaken (.message "a" resyncEndOfA)
        { overtaken with connection := overtaken.handle "a" resyncEndOfA } := by
      refine .plain rfl fun capture hcapture => ?_
      have hbrings : overtaken.connection.brings resyncEndOfA = some ⟨"a", sentAt 0 0⟩ := by
        decide +kernel
      have htaken : overtaken.connection.takenOver resyncEndOfA =
          some ((sentAt 0 0).cursor generationName) := by decide +kernel
      obtain rfl := Option.mem_unique hbrings hcapture
      refine ⟨rfl, fun last hlast => ⟨Option.mem_unique hlast htaken, ?_⟩⟩
      exact ⟨sentAt 0 1, rfl, by decide⟩
    refine ⟨_, _, ((Machine.Run.single (M := freshness generationName) hbegin).snoc
      (toldOfA_step rfl)).snoc hend, ?_, by simp⟩
    exact not_cacheIsFresh rfl rfl ⟨_, _, List.mem_cons_self⟩ (k := sentAt 0 1) (by decide)
  · have hask : FreshnessStep generationName askedOfB .getInitialSnapshot _ :=
      .getInitialSnapshot rfl
    have hreattach : FreshnessStep generationName askedOfB.getInitialSnapshot (.reattach "a")
      (askedOfB.getInitialSnapshot.reattach "a") := .reattach
    have hanswer : FreshnessStep generationName (askedOfB.getInitialSnapshot.reattach "a")
      (.initialSnapshot 0 ⟨"b", sentAt 0 0⟩ []) _ :=
        .initialSnapshot rfl rfl fun _ h => nomatch h
    refine ⟨_, _, ((Machine.Run.single (M := freshness generationName) hask).snoc
      hreattach).snoc hanswer, fun h => ?_⟩
    obtain ⟨snapshot, hlatest, hsession, -⟩ := h rfl
    cases hlatest
    exact absurd hsession (by decide)

/-- A reattach to `b` is refused, and nothing has been missed. -/
theorem fresh_snapshot_is_fresh_refused : ∃ inputs t,
    ((freshness generationName).guard (KeepsUp generationName)).Run attachedToA inputs t ∧
      t.connection.latestSnapshotIsFresh = true ∧ CacheIsFresh t := by
  have hattached : FreshlyAttached generationName attachedToA := by
    refine ⟨rfl, (fun _ h => nomatch h), rfl, ?_, ?_, rfl, rfl, rfl⟩
    · rintro last hlast
      exact ⟨sentAt 0 0, (Option.some.inj hlast).symm, sentAt 0 0, rfl, le_rfl⟩
    · rintro _ ⟨⟩
      exact ⟨_, rfl, rfl, fun k ⟨_, _, hmem⟩ => nomatch hmem⟩
  have hreattach : FreshnessStep generationName attachedToA (.reattach "b")
    (attachedToA.reattach "b") := .reattach
  have hfailed : FreshnessStep generationName (attachedToA.reattach "b") (.reattachFailed 0) _ :=
    .reattachFailed rfl
  have hmissed : KeepsUp generationName (attachedToA.reattach "b") (.reattachFailed 0) := by
    rintro r hr k ⟨_, _, hmem⟩
    cases hmem
  have hrun := (Machine.Run.single
    (M := (freshness generationName).guard (KeepsUp generationName)) ⟨hreattach, trivial⟩).snoc
      ⟨hfailed, hmissed⟩
  exact ⟨_, _, hrun, rfl, (fresh_snapshot_is_fresh generationName_injective hattached hrun).1⟩

end Amide
