import Amide.Construction.Daemon.AgentConnection
import Amide.Framework.Machine
import Mathlib.Data.Prod.Lex

/-!
# Events are delivered once and in order

The server of a session counts its events in generations, which it moves through one after
another; what arrives is what it sends, but for messages that go to others, and may arrive again
(`DeliveryStep`).  A connection keeps the newest cursor it has seen and the generations it has left
behind (`Tracks`), and hands on what is beyond them.

That a snapshot is taken over without a look at its generation breaks this: one that was begun under
an older generation retires the current one.  As long as no snapshot does (`UpToDate`), every event
is delivered when it arrives, and never again (`events_delivered`).
-/

namespace Amide

open DaemonAgentConnection Function

variable {State : Type}

/-- The number of the generation and the sequence, in the order of sending. -/
abbrev SentCursor := ℕ ×ₗ ℕ

variable {j k : SentCursor}

namespace SentCursor

def generation (k : SentCursor) : ℕ := (ofLex k).1

def sequence (k : SentCursor) : ℕ := (ofLex k).2

lemma lt_iff : j < k ↔
    j.generation < k.generation ∨ j.generation = k.generation ∧ j.sequence < k.sequence :=
  Prod.Lex.lt_iff

lemma le_iff : j ≤ k ↔
    j.generation < k.generation ∨ j.generation = k.generation ∧ j.sequence ≤ k.sequence :=
  Prod.Lex.le_iff

/-- The cursor as it is sent. -/
def cursor (generationId : ℕ → String) (k : SentCursor) : DaemonEventCursor where
  generation := generationId k.generation
  sequence := k.sequence

lemma generation_le (h : j ≤ k) : j.generation ≤ k.generation := by
  rcases le_iff.1 h with hlt | ⟨heq, -⟩
  · exact hlt.le
  · exact heq.le

end SentCursor

namespace DaemonAgentConnection

variable {c : DaemonAgentConnection State} {withRecap : Option String → State → State}
  {message : ConnectionMessage State}

/-! ## What a message does to the cursors -/

/-- What decides which messages are stale. -/
def cursors (c : DaemonAgentConnection State) : Option DaemonEventCursor × List String :=
  (c.lastEventCursor, c.retiredEventGenerations)

variable {cursor : DaemonEventCursor}

/-- A generation that is left is retired. -/
lemma observeEventCursor_of_ne {current : DaemonEventCursor}
    (hlast : c.lastEventCursor = some current) (hne : current.generation ≠ cursor.generation) :
    ∃ retired, (c.observeEventCursor cursor).cursors = (some cursor, retired) ∧
      ∀ g, g ∈ retired ↔ g ∈ c.retiredEventGenerations ∨ g = current.generation := by
  by_cases hmem : current.generation ∈ c.retiredEventGenerations
  · refine ⟨c.retiredEventGenerations, ?_, ?_⟩
    · simp [observeEventCursor, cursors, hlast, hne, hmem]
    · intro g
      constructor
      · exact .inl
      · rintro (hg | rfl)
        · exact hg
        · exact hmem
  · refine ⟨c.retiredEventGenerations ++ [current.generation], ?_, ?_⟩
    · simp [observeEventCursor, cursors, hlast, hne, hmem]
    · intro g
      rw [List.mem_append, List.mem_singleton]

lemma cursors_handleSequenced (c : DaemonAgentConnection State)
    (withRecap : Option String → State → State) (message : ConnectionMessage State) :
    (c.handleSequenced withRecap message).1.cursors = c.cursors := by
  cases message with
  | sessionEvent event _ => cases event <;> rfl
  | sessionReplaced _ _ snapshotFollows _ => cases snapshotFollows <;> rfl
  | _ => rfl

lemma cursors_rejectSnapshotAssembly (c : DaemonAgentConnection State) (snapshotId : String)
    (assembly : DaemonSnapshotAssembly State) (error : String) :
    (c.rejectSnapshotAssembly snapshotId assembly error).cursors = c.cursors := by
  rw [rejectSnapshotAssembly]
  split_ifs
  · rfl
  · rfl

lemma cursors_ignoreSnapshotId (c : DaemonAgentConnection State) (snapshotId : String) :
    (c.ignoreSnapshotId snapshotId).cursors = c.cursors := by
  simp [ignoreSnapshotId, cursors]

lemma cursors_failSnapshot (c : DaemonAgentConnection State) (snapshotId error : String) :
    (c.failSnapshot snapshotId error).1.cursors = c.cursors := by
  have hfailed := (cursors_ignoreSnapshotId _ snapshotId).trans
    (cursors_rejectSnapshotAssembly c snapshotId (c.getSnapshotAssembly snapshotId) error)
  rw [failSnapshot]
  generalize ignoreSnapshotId _ snapshotId = failed at hfailed ⊢
  split
  · exact hfailed
  · exact hfailed

lemma cursors_observeSnapshot (c : DaemonAgentConnection State)
    (snapshot : DaemonSessionSnapshot State) : (c.observeSnapshot snapshot).cursors =
      match snapshot.lastEventCursor with
      | some cursor => (c.observeEventCursor cursor).cursors
      | none => c.cursors := by
  rw [observeSnapshot]
  rcases snapshot.lastEventCursor with _ | cursor
  · rfl
  · rfl

lemma lastEventCursor_of_assembledSnapshot {snapshotId : String}
    {assembly : DaemonSnapshotAssembly State} {chunkCount lastEventSequence : ℕ}
    {lastEventCursor : Option DaemonEventCursor} {start : DaemonSnapshotBegin State}
    {snapshot : DaemonSessionSnapshot State}
    (h : assembledSnapshot snapshotId assembly chunkCount lastEventSequence lastEventCursor =
      .ok (start, snapshot)) : snapshot.lastEventCursor = lastEventCursor := by
  rw [assembledSnapshot] at h
  split at h
  · cases h
  · split_ifs at h
    split at h
    · cases h
    · split_ifs at h
      obtain ⟨-, rfl⟩ := Prod.ext_iff.1 (Except.ok.inj h)
      rfl

/-- Takes over a cursor, if there is one. -/
def cursorsAfter (c : DaemonAgentConnection State) :
    Option DaemonEventCursor → Option DaemonEventCursor × List String
  | some cursor => (c.observeEventCursor cursor).cursors
  | none => c.cursors

/-- The cursor that a snapshot's end brings along, if the snapshot is complete. -/
def completedCursor (c : DaemonAgentConnection State) (snapshotId : String)
    (chunkCount lastEventSequence : ℕ) (lastEventCursor : Option DaemonEventCursor) :
    Option DaemonEventCursor :=
  if (assembledSnapshot snapshotId (c.getSnapshotAssembly snapshotId) chunkCount lastEventSequence
      lastEventCursor).isOk then lastEventCursor
  else none

lemma cursors_completeSnapshotAssembly (c : DaemonAgentConnection State) (snapshotId : String)
    (chunkCount lastEventSequence : ℕ) (lastEventCursor : Option DaemonEventCursor) :
    (c.completeSnapshotAssembly snapshotId chunkCount lastEventSequence
        lastEventCursor).1.cursors =
      c.cursorsAfter
        (c.completedCursor snapshotId chunkCount lastEventSequence lastEventCursor) := by
  rw [completeSnapshotAssembly, completedCursor]
  rcases hsnap : assembledSnapshot snapshotId (c.getSnapshotAssembly snapshotId) chunkCount
    lastEventSequence lastEventCursor with error | ⟨start, snapshot⟩
  · exact cursors_rejectSnapshotAssembly c snapshotId _ _
  · have hobs : (c.observeSnapshot snapshot).cursors = c.cursorsAfter lastEventCursor := by
      rw [cursors_observeSnapshot, lastEventCursor_of_assembledSnapshot hsnap]
      rfl
    dsimp only
    split
    · exact hobs
    · exact hobs

lemma cursors_applyReplacementSnapshot (c : DaemonAgentConnection State)
    (snapshot : DaemonSessionSnapshot State) (replay : Option Json) :
    (c.applyReplacementSnapshot snapshot replay).cursors =
      c.cursorsAfter snapshot.lastEventCursor :=
  cursors_observeSnapshot c snapshot

/-- Parts of snapshots have no metadata. -/
lemma eventMeta_of_snapshotId? {id : String} (h : message.snapshotId? = some id) :
    message.eventMeta = {} := by
  cases message with
  | snapshotBegin | snapshotChunk | snapshotEnd | snapshotFailed => rfl
  | _ => cases h

lemma handle_of_cursor (hcursor : message.eventMeta.cursor = some cursor) :
    c.handleDaemonMessage withRecap c.activeSessionId message =
      if c.isStaleSequencedMessage message then (c, [])
      else (c.observeDaemonEventSequence message).handleSequenced withRecap message := by
  have hnone : message.snapshotId? = none := by
    rcases h : message.snapshotId? with _ | id
    · rfl
    · rw [eventMeta_of_snapshotId? h] at hcursor
      cases hcursor
  have hpart : ¬ ∃ id ∈ message.snapshotId?, id ∈ c.ignoredSnapshotIds := by
    rintro ⟨id, hid, -⟩
    rw [hnone] at hid
    cases hid
  unfold handleDaemonMessage
  rw [if_neg (not_not.2 rfl), if_neg hpart]
  cases message with
  | snapshotBegin | snapshotChunk | snapshotEnd | snapshotFailed => cases hnone
  | _ => rfl

lemma handle_of_foreign {activeSessionId : String}
    (hforeign : activeSessionId ≠ c.activeSessionId) :
    c.handleDaemonMessage withRecap activeSessionId message = (c, []) := by
  exact if_pos hforeign

lemma handle_of_stale (withRecap : Option String → State → State)
    (hcursor : message.eventMeta.cursor = some cursor)
    (hstale : c.isStaleSequencedMessage message = true) :
    c.handleDaemonMessage withRecap c.activeSessionId message = (c, []) := by
  rw [handle_of_cursor hcursor, if_pos hstale]

/-- The cursor of a message that is not stale is taken over. -/
lemma cursors_handle_of_cursor (withRecap : Option String → State → State)
    (hcursor : message.eventMeta.cursor = some cursor)
    (hfresh : c.isStaleSequencedMessage message = false) :
    (c.handleDaemonMessage withRecap c.activeSessionId message).1.cursors =
      (c.observeEventCursor cursor).cursors := by
  rw [handle_of_cursor hcursor, hfresh, if_neg Bool.false_ne_true, cursors_handleSequenced,
    observeDaemonEventSequence, hcursor]
  rfl

/-- The cursor of the snapshot that a message completes. -/
def takenOver (c : DaemonAgentConnection State) : ConnectionMessage State → Option DaemonEventCursor
  | .snapshotEnd id chunkCount lastEventSequence lastEventCursor =>
    if id ∈ c.ignoredSnapshotIds then none
    else c.completedCursor id chunkCount lastEventSequence lastEventCursor
  | _ => none

/-- A message without metadata changes the cursors by completing a snapshot alone. -/
lemma cursors_handle_of_plain (hplain : message.eventMeta = {}) :
    (c.handleDaemonMessage withRecap c.activeSessionId message).1.cursors =
      c.cursorsAfter (c.takenOver message) := by
  have hobserve : c.observeDaemonEventSequence message = c := by
    rw [observeDaemonEventSequence, hplain]
  unfold handleDaemonMessage
  rw [if_neg (not_not.2 rfl)]
  split_ifs with hignored
  · obtain ⟨id, hid, hmem⟩ := hignored
    cases message with
    | snapshotEnd =>
      cases hid
      rw [takenOver, if_pos hmem]
      rfl
    | _ => rfl
  · split
    · rfl
    · rfl
    · rename_i id _ _ _
      rw [cursors_completeSnapshotAssembly, takenOver, if_neg fun h => hignored ⟨id, rfl, h⟩]
    · exact cursors_failSnapshot c _ _
    · rename_i hend _
      have hnone : c.takenOver message = none := by
        unfold takenOver
        split
        · exact (hend _ _ _ _ rfl).elim
        · rfl
      rw [hobserve, hnone]
      split_ifs
      · rfl
      · exact cursors_handleSequenced c withRecap message

end DaemonAgentConnection

/-! ## Where a connection stands -/

variable {message : ConnectionMessage State} {ks : Option SentCursor}

section Standing

variable {generationId : ℕ → String} {seen : List SentCursor}
  {cs : Option DaemonEventCursor × List String} {c : DaemonAgentConnection State}
  {i j k : SentCursor}

/-- The last cursor is one that was seen, and retired generations are older than its. -/
structure Tracks (generationId : ℕ → String) (seen : List SentCursor)
    (cs : Option DaemonEventCursor × List String) : Prop where
  last : ∀ last ∈ cs.1, ∃ j ∈ seen, last = j.cursor generationId
  retired : ∀ g ∈ cs.2, ∃ (old : ℕ) (j : SentCursor), g = generationId old ∧
    cs.1 = some (j.cursor generationId) ∧ old < j.generation

/-- A message with this cursor is stale. -/
def Passed (generationId : ℕ → String) (cs : Option DaemonEventCursor × List String)
    (k : SentCursor) : Prop :=
  ∃ j : SentCursor, cs.1 = some (j.cursor generationId) ∧
    (k.generation = j.generation ∧ k.sequence ≤ j.sequence ∨ generationId k.generation ∈ cs.2)

lemma cursor_injective (hid : Injective generationId)
    (h : j.cursor generationId = k.cursor generationId) : j = k := by
  have hgen := hid (congrArg DaemonEventCursor.generation h)
  exact ofLex.injective (Prod.ext hgen (congrArg DaemonEventCursor.sequence h))

lemma Passed.le (hid : Injective generationId) (htracks : Tracks generationId seen cs)
    (hpassed : Passed generationId cs k) (hlast : cs.1 = some (j.cursor generationId)) :
    k ≤ j := by
  obtain ⟨j', hj', hcase⟩ := hpassed
  obtain rfl := cursor_injective hid (Option.mem_unique hj' hlast)
  rcases hcase with ⟨hgen, hseq⟩ | hretired
  · exact SentCursor.le_iff.2 (.inr ⟨hgen, hseq⟩)
  · obtain ⟨old, j, hold, hj, hlt⟩ := htracks.retired _ hretired
    obtain rfl := cursor_injective hid (Option.mem_unique hj hlast)
    exact SentCursor.le_iff.2 (.inl (hid hold ▸ hlt))

lemma stale_of_passed (hcursor : message.eventMeta.cursor = some (k.cursor generationId))
    (hpassed : Passed generationId c.cursors k) : c.isStaleSequencedMessage message = true := by
  obtain ⟨j, hj, hcase⟩ := hpassed
  change c.lastEventCursor = some (j.cursor generationId) at hj
  rw [isStaleSequencedMessage, hcursor]
  dsimp only
  split_ifs with hretired
  · rfl
  · rw [hj]
    obtain ⟨hgen, hseq⟩ := hcase.resolve_right hretired
    simp [SentCursor.cursor, hgen, hseq]

/-- What is newer than all that was seen is not stale. -/
lemma fresh_of_newer (hid : Injective generationId)
    (htracks : Tracks generationId seen c.cursors) (hnewer : ∀ j ∈ seen, j < k)
    (hcursor : message.eventMeta.cursor = some (k.cursor generationId)) :
    c.isStaleSequencedMessage message = false := by
  have hlt : ∀ j : SentCursor, c.lastEventCursor = some (j.cursor generationId) → j < k := by
    intro j hj
    obtain ⟨j', hseen, hj'⟩ := htracks.last _ hj
    obtain rfl := cursor_injective hid hj'
    exact hnewer _ hseen
  rw [isStaleSequencedMessage, hcursor]
  dsimp only
  split_ifs with hretired
  · obtain ⟨old, j, hold, hj, hold'⟩ := htracks.retired _ hretired
    have hle := SentCursor.generation_le (hlt j hj).le
    have hsame := hid hold
    omega
  · rcases hlast : c.lastEventCursor with _ | last
    · rfl
    · obtain ⟨j, -, rfl⟩ := htracks.last last hlast
      have hjk := SentCursor.lt_iff.1 (hlt j hlast)
      rw [Bool.eq_false_iff]
      intro h
      rw [Bool.and_eq_true, decide_eq_true_eq, decide_eq_true_eq] at h
      have hsame := hid h.1
      have hseq : k.sequence ≤ j.sequence := h.2
      omega

lemma tracks_last {retired : List String}
    (hold : ∀ g ∈ retired, ∃ old, g = generationId old ∧ old < k.generation) :
    Tracks generationId (k :: seen) (some (k.cursor generationId), retired) := by
  refine ⟨?_, ?_⟩
  · intro last h
    exact ⟨k, List.mem_cons_self, (Option.some.inj h).symm⟩
  · intro g hg
    obtain ⟨old, rfl, hlt⟩ := hold g hg
    exact ⟨old, k, rfl, rfl, hlt⟩

section
variable (hid : Injective generationId) (htracks : Tracks generationId seen c.cursors)
include hid htracks

/-- Taking over a cursor that is not of an older generation keeps what is stale. -/
theorem observe_keeps
    (hgen : ∀ j : SentCursor, c.lastEventCursor = some (j.cursor generationId) →
      j.generation ≤ k.generation) :
    Tracks generationId (k :: seen) (c.observeEventCursor (k.cursor generationId)).cursors ∧
      (∀ i, Passed generationId c.cursors i →
        Passed generationId (c.observeEventCursor (k.cursor generationId)).cursors i) ∧
      Passed generationId (c.observeEventCursor (k.cursor generationId)).cursors k := by
  rcases hcursor : c.lastEventCursor with _ | last
  · -- nothing is retired yet, and nothing was passed
    have hobs : (c.observeEventCursor (k.cursor generationId)).cursors =
        (some (k.cursor generationId), c.retiredEventGenerations) := by
      simp [DaemonAgentConnection.observeEventCursor, DaemonAgentConnection.cursors, hcursor]
    rw [hobs]
    refine ⟨tracks_last ?_, ?_, k, rfl, .inl ⟨rfl, le_rfl⟩⟩
    · intro g hg
      obtain ⟨old, j, -, hj, -⟩ := htracks.retired g hg
      cases hcursor.symm.trans hj
    · rintro i ⟨j, hj, -⟩
      cases hcursor.symm.trans hj
  obtain ⟨j, -, rfl⟩ := htracks.last last hcursor
  have hretired : ∀ g ∈ c.retiredEventGenerations, ∃ old, g = generationId old ∧
      old < j.generation := by
    intro g hg
    obtain ⟨old, j', rfl, hj', hlt⟩ := htracks.retired g hg
    obtain rfl := cursor_injective hid (Option.mem_unique hcursor hj')
    exact ⟨old, rfl, hlt⟩
  have hpassed : ∀ i, Passed generationId c.cursors i →
      i.generation = j.generation ∧ i.sequence ≤ j.sequence ∨
        generationId i.generation ∈ c.retiredEventGenerations := by
    rintro i ⟨j', hj', hcase⟩
    obtain rfl := cursor_injective hid (Option.mem_unique hcursor hj')
    exact hcase
  by_cases hsame : j.generation = k.generation
  · by_cases hseq : j.sequence < k.sequence
    · have hobs : (c.observeEventCursor (k.cursor generationId)).cursors =
          (some (k.cursor generationId), c.retiredEventGenerations) := by
        simp [DaemonAgentConnection.observeEventCursor, DaemonAgentConnection.cursors, hcursor,
          SentCursor.cursor, hsame, hseq]
      rw [hobs]
      refine ⟨tracks_last (hsame ▸ hretired), ?_, k, rfl, .inl ⟨rfl, le_rfl⟩⟩
      intro i hi
      refine ⟨k, rfl, (hpassed i hi).imp_left ?_⟩
      rintro ⟨hi, hle⟩
      exact ⟨hi.trans hsame, hle.trans hseq.le⟩
    · have hobs : (c.observeEventCursor (k.cursor generationId)).cursors = c.cursors := by
        simp [DaemonAgentConnection.observeEventCursor, DaemonAgentConnection.cursors, hcursor,
          SentCursor.cursor, hsame, hseq]
      rw [hobs]
      refine ⟨⟨?_, htracks.retired⟩, fun _ hi => hi,
        j, hcursor, .inl ⟨hsame.symm, Nat.le_of_not_lt hseq⟩⟩
      intro last hlast
      obtain ⟨j', hseen, rfl⟩ := htracks.last last hlast
      exact ⟨j', List.mem_cons_of_mem k hseen, rfl⟩
  · -- the generation of `j` is left behind
    have hlt : j.generation < k.generation := lt_of_le_of_ne (hgen j hcursor) hsame
    obtain ⟨retired, hobs, hmem⟩ :=
      DaemonAgentConnection.observeEventCursor_of_ne hcursor
        (show (j.cursor generationId).generation ≠ (k.cursor generationId).generation from
          fun h => hsame (hid h))
    rw [hobs]
    refine ⟨tracks_last ?_, ?_, k, rfl, .inl ⟨rfl, le_rfl⟩⟩
    · intro g hg
      rcases (hmem g).1 hg with hold | rfl
      · obtain ⟨old, rfl, hearlier⟩ := hretired g hold
        exact ⟨old, rfl, hearlier.trans hlt⟩
      · exact ⟨j.generation, rfl, hlt⟩
    · intro i hi
      refine ⟨k, rfl, .inr ((hmem _).2 ?_)⟩
      rcases hpassed i hi with ⟨hi, -⟩ | hi
      · exact .inr (congrArg generationId hi)
      · exact .inl hi

/-- The same for a cursor that there may be. -/
lemma cursorsAfter_keeps
    (hgen : ∀ j k : SentCursor, c.lastEventCursor = some (j.cursor generationId) → k ∈ ks →
      j.generation ≤ k.generation) :
    Tracks generationId (ks.toList ++ seen)
        (c.cursorsAfter (ks.map (SentCursor.cursor generationId))) ∧
      ∀ i, Passed generationId c.cursors i →
        Passed generationId (c.cursorsAfter (ks.map (SentCursor.cursor generationId))) i := by
  rcases ks with _ | k
  · exact ⟨htracks, fun _ hi => hi⟩
  · obtain ⟨htracks', hpassed, -⟩ := observe_keeps hid htracks fun j hj => hgen j k hj rfl
    exact ⟨htracks', hpassed⟩

end

end Standing

/-! ## A server and a connection -/

/-- A connection, beside what the server has sent at the latest, the cursors that the connection has
taken over, the messages that have arrived, and the cursors of those that were handed on. -/
structure DeliverySystem (State : Type) where
  connection : DaemonAgentConnection State
  newest : Option SentCursor := none
  seen : List SentCursor := []
  arrived : List (ConnectionMessage State × SentCursor) := []
  emitted : List SentCursor := []

inductive ConnectionInput (State : Type) where
  /-- The server sends something to others. -/
  | elsewhere
  | message (activeSessionId : String) (message : ConnectionMessage State)
  /-- The snapshot of a response is applied. -/
  | replacement (snapshot : DaemonSessionSnapshot State) (replay : Option Json)

def handsOn (actions : List (ConnectionAction State)) : Prop :=
  ∃ event, .emit event ∈ actions

instance (actions : List (ConnectionAction State)) : Decidable (handsOn actions) :=
  decidable_of_iff (actions.any fun | .emit _ => true | _ => false) <| by
    rw [List.any_eq_true, handsOn]
    constructor
    · rintro ⟨action, hmem, hact⟩
      cases action with
      | emit event => exact ⟨event, hmem⟩
      | _ => cases hact
    · rintro ⟨event, hmem⟩
      exact ⟨_, hmem, rfl⟩

namespace DeliverySystem

variable (s : DeliverySystem State)

/-- A message with the cursor `k`. -/
def receive (withRecap : Option String → State → State) (message : ConnectionMessage State)
    (k : SentCursor) : DeliverySystem State :=
  let handled := s.connection.handleDaemonMessage withRecap s.connection.activeSessionId message
  { s with
    connection := handled.1
    arrived := s.arrived ++ [(message, k)]
    emitted := if handsOn handled.2 then s.emitted ++ [k] else s.emitted }

end DeliverySystem

/-- What a server sends to a connection. -/
inductive DeliveryStep (withRecap : Option String → State → State) (generationId : ℕ → String) :
    DeliverySystem State → ConnectionInput State → DeliverySystem State → Prop
  | elsewhere {s : DeliverySystem State} {k : SentCursor} (hnewer : ∀ n ∈ s.newest, n < k) :
    DeliveryStep withRecap generationId s .elsewhere { s with newest := some k }
  | new {s : DeliverySystem State} {message : ConnectionMessage State} {k : SentCursor}
      (hcursor : message.eventMeta.cursor = some (k.cursor generationId))
      (hnewer : ∀ n ∈ s.newest, n < k) :
    DeliveryStep withRecap generationId s (.message s.connection.activeSessionId message)
      { s.receive withRecap message k with newest := some k, seen := k :: s.seen }
  | again {s : DeliverySystem State} {message : ConnectionMessage State} {k : SentCursor}
      (harrived : (message, k) ∈ s.arrived) :
    DeliveryStep withRecap generationId s (.message s.connection.activeSessionId message)
      (s.receive withRecap message k)
  | plain {s : DeliverySystem State} {message : ConnectionMessage State} {ks : Option SentCursor}
      (hplain : message.eventMeta = {})
      (htaken : s.connection.takenOver message = ks.map (SentCursor.cursor generationId))
      (hsent : ∀ k ∈ ks, ∃ n ∈ s.newest, k ≤ n) :
    DeliveryStep withRecap generationId s (.message s.connection.activeSessionId message)
      { s with
        connection := (s.connection.handleDaemonMessage withRecap s.connection.activeSessionId
          message).1
        seen := ks.toList ++ s.seen }
  | foreign {s : DeliverySystem State} {activeSessionId : String}
      {message : ConnectionMessage State}
      (hforeign : activeSessionId ≠ s.connection.activeSessionId) :
    DeliveryStep withRecap generationId s (.message activeSessionId message)
      { s with
        connection := (s.connection.handleDaemonMessage withRecap activeSessionId message).1 }
  | replacement {s : DeliverySystem State} {snapshot : DaemonSessionSnapshot State}
      {replay : Option Json} {ks : Option SentCursor}
      (htaken : snapshot.lastEventCursor = ks.map (SentCursor.cursor generationId))
      (hsent : ∀ k ∈ ks, ∃ n ∈ s.newest, k ≤ n) :
    DeliveryStep withRecap generationId s (.replacement snapshot replay)
      { s with
        connection := s.connection.applyReplacementSnapshot snapshot replay
        seen := ks.toList ++ s.seen }

def deliveries (withRecap : Option String → State → State) (generationId : ℕ → String) :
    Machine (DeliverySystem State) (ConnectionInput State) where
  step := DeliveryStep withRecap generationId

/-- The cursor of the snapshot that an input brings. -/
def DaemonAgentConnection.snapshotCursor (c : DaemonAgentConnection State) :
    ConnectionInput State → Option DaemonEventCursor
  | .elsewhere => none
  | .message activeSessionId message =>
    if activeSessionId = c.activeSessionId then c.takenOver message else none
  | .replacement snapshot _ => snapshot.lastEventCursor

/-- No snapshot is taken over that ended in an older generation. -/
def UpToDate (generationId : ℕ → String) (s : DeliverySystem State)
    (input : ConnectionInput State) : Prop :=
  ∀ j k : SentCursor, s.connection.lastEventCursor = some (j.cursor generationId) →
    s.connection.snapshotCursor input = some (k.cursor generationId) → j.generation ≤ k.generation

/-! ## Runs -/

/-- What holds of every run. -/
structure Delivered (generationId : ℕ → String) (s : DeliverySystem State) : Prop where
  tracks : Tracks generationId s.seen s.connection.cursors
  sent : ∀ k ∈ s.seen, ∃ n ∈ s.newest, k ≤ n
  arrived : ∀ p ∈ s.arrived, p.1.eventMeta.cursor = some (p.2.cursor generationId) ∧
    Passed generationId s.connection.cursors p.2
  emitted : ∀ k ∈ s.emitted, k ∈ s.seen
  sorted : s.emitted.Pairwise (· < ·)

variable {withRecap : Option String → State → State} {generationId : ℕ → String}
  {s t : DeliverySystem State} {input : ConnectionInput State}

lemma Delivered.last_le (hid : Injective generationId) (h : Delivered generationId s)
    (hj : s.connection.lastEventCursor = some (j.cursor generationId)) : ∃ n ∈ s.newest, j ≤ n := by
  obtain ⟨j', hseen, hj'⟩ := h.tracks.last _ hj
  obtain rfl := cursor_injective hid hj'
  exact h.sent j hseen

lemma Delivered.lt_of_newer (h : Delivered generationId s) (hnewer : ∀ n ∈ s.newest, n < k)
    (hj : j ∈ s.seen) : j < k := by
  obtain ⟨n, hn, hle⟩ := h.sent j hj
  exact hle.trans_lt (hnewer n hn)

/-- A snapshot that is taken over. -/
lemma Delivered.takeOver (hid : Injective generationId) (h : Delivered generationId s)
    {connection : DaemonAgentConnection State}
    (hcursors : connection.cursors =
      s.connection.cursorsAfter (ks.map (SentCursor.cursor generationId)))
    (hgen : ∀ j k : SentCursor, s.connection.lastEventCursor = some (j.cursor generationId) →
      k ∈ ks → j.generation ≤ k.generation)
    (hsent : ∀ k ∈ ks, ∃ n ∈ s.newest, k ≤ n) :
    Delivered generationId { s with connection, seen := ks.toList ++ s.seen } := by
  obtain ⟨htracks, hpassed⟩ := cursorsAfter_keeps hid h.tracks hgen
  rw [← hcursors] at htracks hpassed
  refine ⟨htracks, ?_, ?_, ?_, h.sorted⟩
  · intro k hk
    rcases List.mem_append.1 hk with hk | hk
    · exact hsent k (Option.mem_toList.1 hk)
    · exact h.sent k hk
  · intro p hp
    obtain ⟨hcursor, hp⟩ := h.arrived p hp
    exact ⟨hcursor, hpassed _ hp⟩
  · exact fun k hk => List.mem_append_right _ (h.emitted k hk)

lemma mem_emitted_receive (hj : j ∈ (s.receive withRecap message k).emitted) :
    j ∈ s.emitted ∨ j = k := by
  rw [DeliverySystem.receive] at hj
  split_ifs at hj
  · exact (List.mem_append.1 hj).imp_right List.mem_singleton.1
  · exact .inl hj

lemma Delivered.step (hid : Injective generationId) (h : Delivered generationId s)
    (hstep : DeliveryStep withRecap generationId s input t)
    (hguard : UpToDate generationId s input) : Delivered generationId t := by
  cases hstep with
  | @elsewhere k hnewer =>
    refine ⟨h.tracks, ?_, h.arrived, h.emitted, h.sorted⟩
    exact fun j hj => ⟨k, rfl, (h.lt_of_newer hnewer hj).le⟩
  | @new message k hcursor hnewer =>
    have hfresh := fresh_of_newer hid h.tracks (fun j hj => h.lt_of_newer hnewer hj) hcursor
    obtain ⟨htracks, hpassed, hk⟩ := observe_keeps (k := k) hid h.tracks fun j hj => by
      obtain ⟨n, hn, hle⟩ := h.last_le hid hj
      exact SentCursor.generation_le (hle.trans (hnewer n hn).le)
    rw [← DaemonAgentConnection.cursors_handle_of_cursor withRecap hcursor hfresh]
      at htracks hpassed hk
    refine ⟨htracks, ?_, ?_, ?_, ?_⟩
    · intro j hj
      rcases List.mem_cons.1 hj with rfl | hj
      · exact ⟨j, rfl, le_rfl⟩
      · exact ⟨k, rfl, (h.lt_of_newer hnewer hj).le⟩
    · intro p hp
      rcases List.mem_append.1 hp with hp | hp
      · obtain ⟨hcursor', hp⟩ := h.arrived p hp
        exact ⟨hcursor', hpassed _ hp⟩
      · obtain rfl := List.mem_singleton.1 hp
        exact ⟨hcursor, hk⟩
    · intro j hj
      rcases mem_emitted_receive hj with hj | rfl
      · exact List.mem_cons_of_mem k (h.emitted j hj)
      · exact List.mem_cons_self
    · rw [DeliverySystem.receive]
      split_ifs
      · refine List.pairwise_append.2 ⟨h.sorted, List.pairwise_singleton _ k, ?_⟩
        intro j hj k' hk'
        obtain rfl := List.mem_singleton.1 hk'
        exact h.lt_of_newer hnewer (h.emitted j hj)
      · exact h.sorted
  | @again message k harrived =>
    obtain ⟨hcursor, hpassed⟩ := h.arrived _ harrived
    have hhandled := DaemonAgentConnection.handle_of_stale withRecap hcursor
      (stale_of_passed hcursor hpassed)
    have hnone : ¬ handsOn ([] : List (ConnectionAction State)) := by
      rintro ⟨event, hmem⟩
      cases hmem
    rw [DeliverySystem.receive, hhandled]
    refine ⟨h.tracks, h.sent, ?_, h.emitted, h.sorted⟩
    intro p hp
    rcases List.mem_append.1 hp with hp | hp
    · exact h.arrived p hp
    · obtain rfl := List.mem_singleton.1 hp
      exact ⟨hcursor, hpassed⟩
  | @plain message ks hplain htaken hsent =>
    refine h.takeOver hid ?_ ?_ hsent
    · rw [DaemonAgentConnection.cursors_handle_of_plain hplain, htaken]
    · intro j k hj hk
      refine hguard j k hj ?_
      rw [snapshotCursor, if_pos rfl, htaken, hk]
      rfl
  | @foreign activeSessionId message hforeign =>
    rw [DaemonAgentConnection.handle_of_foreign hforeign]
    exact h
  | @replacement snapshot replay ks htaken hsent =>
    refine h.takeOver hid ?_ ?_ hsent
    · rw [DaemonAgentConnection.cursors_applyReplacementSnapshot, htaken]
    · intro j k hj hk
      refine hguard j k hj ?_
      rw [snapshotCursor, htaken, hk]
      rfl

/-- Nothing has arrived yet, at most a snapshot has been taken over. -/
structure Attached (generationId : ℕ → String) (s : DeliverySystem State) : Prop where
  retired : s.connection.retiredEventGenerations = []
  last : ∃ ks : Option SentCursor, s.connection.lastEventCursor = ks.map (·.cursor generationId) ∧
    s.seen = ks.toList ∧ ∀ k ∈ ks, ∃ n ∈ s.newest, k ≤ n
  arrived : s.arrived = []
  emitted : s.emitted = []

lemma Attached.delivered (h : Attached generationId s) : Delivered generationId s := by
  obtain ⟨ks, hlast, hseen, hsent⟩ := h.last
  refine ⟨⟨?_, ?_⟩, ?_, ?_, ?_, ?_⟩
  · intro last hmem
    obtain ⟨k, hk, rfl⟩ := Option.map_eq_some_iff.1 (hlast.symm.trans hmem)
    exact ⟨k, hseen ▸ Option.mem_toList.2 hk, rfl⟩
  · intro g hg
    change g ∈ s.connection.retiredEventGenerations at hg
    simp [h.retired] at hg
  · intro k hk
    exact hsent k (Option.mem_toList.1 (hseen ▸ hk))
  · simp [h.arrived]
  · simp [h.emitted]
  · simp [h.emitted]

/-- **Events are delivered once, in order, and none is lost**, as long as no snapshot is taken over
that ended in a generation the connection has left. -/
theorem events_delivered (withRecap : Option String → State → State)
    (hid : Injective generationId) (hattached : Attached generationId s)
    {inputs : List (ConnectionInput State)}
    (hrun : ((deliveries withRecap generationId).guard (UpToDate generationId)).Run s inputs t) :
    t.emitted.Pairwise (· < ·) ∧
      ∀ (event : ConnectionSessionEvent) (eventMeta : DaemonEventMeta) (k : SentCursor),
        eventMeta.cursor = some (k.cursor generationId) → (∀ j ∈ t.seen, j < k) →
        .emit (.sessionEvent event) ∈ (t.connection.handleDaemonMessage withRecap
          t.connection.activeSessionId (.sessionEvent event eventMeta)).2 := by
  have h : Delivered generationId t :=
    hrun.invariant hattached.delivered fun s₁ input s₂ h hstep => h.step hid hstep.1 hstep.2
  refine ⟨h.sorted, ?_⟩
  intro event eventMeta k hmeta hnewer
  have hcursor : (ConnectionMessage.sessionEvent event eventMeta :
      ConnectionMessage State).eventMeta.cursor = some (k.cursor generationId) := hmeta
  have hfresh := fresh_of_newer hid h.tracks hnewer hcursor
  rw [DaemonAgentConnection.handle_of_cursor hcursor, hfresh, if_neg Bool.false_ne_true]
  exact List.mem_singleton_self _

/-! ## A snapshot that is overtaken -/

/-- A name for each generation. -/
def generationName (generation : ℕ) : String :=
  String.ofList (List.replicate generation 'g')

lemma generationName_injective : Injective generationName := by
  intro m n h
  have hlen := congrArg List.length (String.ofList_injective h)
  rwa [List.length_replicate, List.length_replicate] at hlen

def sentAt (generation sequence : ℕ) : SentCursor :=
  toLex (generation, sequence)

/-- A session event of that cursor. -/
def eventAt (generation sequence : ℕ) : ConnectionMessage Unit :=
  .sessionEvent (.other .null)
    { sequence := some sequence
      cursor := some ((sentAt generation sequence).cursor generationName) }

def attachedSystem : DeliverySystem Unit where
  connection := { activeSessionId := "session" }

lemma attachedSystem_attached : Attached generationName attachedSystem :=
  ⟨rfl, ⟨none, rfl, rfl, fun _ h => nomatch h⟩, rfl, rfl⟩

def resyncBegin : ConnectionMessage Unit :=
  .snapshotBegin "snapshot"
    { snapshot := { state := (), lastEventSequence := 0 }
      messageCount := 0
      purpose := some .resync }

def resyncEnd (generation sequence : ℕ) : ConnectionMessage Unit :=
  .snapshotEnd "snapshot" 0 sequence
    (some ((sentAt generation sequence).cursor generationName))

/-- The arrival of an event. -/
def arrival (s : DeliverySystem Unit) (generation sequence : ℕ) : DeliverySystem Unit :=
  { s.receive (fun _ => id) (eventAt generation sequence) (sentAt generation sequence) with
    newest := some (sentAt generation sequence)
    seen := sentAt generation sequence :: s.seen }

lemma arrival_step (s : DeliverySystem Unit) {generation sequence : ℕ}
    (hnewer : ∀ n ∈ s.newest, n < sentAt generation sequence) :
    ((deliveries fun _ => id) generationName |>.guard (UpToDate generationName)).step s
      (.message s.connection.activeSessionId (eventAt generation sequence))
      (arrival s generation sequence) := by
  refine ⟨.new rfl hnewer, ?_⟩
  intro j k _ hk
  rw [snapshotCursor, if_pos rfl] at hk
  cases hk

/-- The arrival of a part of a snapshot. -/
def partArrival (s : DeliverySystem Unit) (message : ConnectionMessage Unit)
    (ks : Option SentCursor) : DeliverySystem Unit :=
  { s with
    connection := (s.connection.handleDaemonMessage (fun _ => id) s.connection.activeSessionId
      message).1
    seen := ks.toList ++ s.seen }

lemma partArrival_step (s : DeliverySystem Unit) (message : ConnectionMessage Unit)
    (ks : Option SentCursor) (hplain : message.eventMeta = {})
    (htaken : s.connection.takenOver message = ks.map (SentCursor.cursor generationName))
    (hsent : ∀ k ∈ ks, ∃ n ∈ s.newest, k ≤ n) :
    (deliveries (fun _ => id) generationName).step s
      (.message s.connection.activeSessionId message) (partArrival s message ks) :=
  .plain hplain htaken hsent

/-- A resync is begun under generation 0, which ends before the resync does. -/
def leftBehind : DeliverySystem Unit :=
  arrival (partArrival (arrival attachedSystem 0 1) resyncBegin none) 1 1

lemma leftBehind_run : ∃ inputs,
    ((deliveries fun _ => id) generationName |>.guard (UpToDate generationName)).Run attachedSystem
      inputs leftBehind := by
  refine ⟨_, ((Machine.Run.nil.snoc (arrival_step _ ?_)).snoc
    ⟨partArrival_step _ resyncBegin none rfl rfl ?_, ?_⟩).snoc (arrival_step _ ?_)⟩
  · exact fun _ h => nomatch h
  · exact fun _ h => nomatch h
  · intro j k _ hk
    cases hk
  · rintro n hn
    rw [← Option.some.inj hn]
    decide

/-- A resync begun under one generation ends after the next one has begun: its cursor retires the
generation the server is in, and the next event is lost. -/
theorem events_delivered_overtaken : ∃ inputs t,
    (deliveries (fun _ => id) generationName).Run attachedSystem inputs t ∧
      (∀ j ∈ t.seen, j < sentAt 1 2) ∧ (t.connection.handleDaemonMessage (fun _ => id)
        t.connection.activeSessionId (eventAt 1 2)).2 = [] := by
  obtain ⟨inputs, hrun⟩ := leftBehind_run
  refine ⟨_, _, hrun.of_guard.snoc (partArrival_step leftBehind (resyncEnd 0 1) (sentAt 0 1) rfl
    (by decide +kernel) ?_), ?_, ?_⟩
  · rintro k hk
    rw [← Option.some.inj hk]
    exact ⟨sentAt 1 1, rfl, by decide⟩
  · decide
  · exact congrArg Prod.snd (DaemonAgentConnection.handle_of_stale _ rfl (by decide +kernel))

/-- A resync that ends in the generation it was begun under. -/
theorem events_delivered_resync : ∃ inputs t,
    ((deliveries fun _ => id) generationName |>.guard (UpToDate generationName)).Run attachedSystem
      inputs t ∧ t.emitted = [sentAt 0 1, sentAt 1 1] ∧ t.emitted.Pairwise (· < ·) ∧
      .emit (.sessionEvent (.other .null)) ∈ (t.connection.handleDaemonMessage (fun _ => id)
        t.connection.activeSessionId (eventAt 1 2)).2 := by
  obtain ⟨inputs, hrun⟩ := leftBehind_run
  obtain ⟨inputs, hresync⟩ : ∃ inputs,
      ((deliveries fun _ => id) generationName |>.guard (UpToDate generationName)).Run
        attachedSystem inputs (partArrival leftBehind (resyncEnd 1 1) (sentAt 1 1)) := by
    refine ⟨_, hrun.snoc ⟨partArrival_step leftBehind (resyncEnd 1 1) (sentAt 1 1) rfl
      (by decide +kernel) ?_, ?_⟩⟩
    · rintro k hk
      rw [← Option.some.inj hk]
      exact ⟨sentAt 1 1, rfl, le_rfl⟩
    · intro j k hj hk
      have hlast : leftBehind.connection.lastEventCursor =
          some ((sentAt 1 1).cursor generationName) := by decide +kernel
      have hend : leftBehind.connection.snapshotCursor (.message
          leftBehind.connection.activeSessionId (resyncEnd 1 1)) =
          some ((sentAt 1 1).cursor generationName) := by decide +kernel
      obtain rfl := cursor_injective generationName_injective
        (Option.mem_unique hj hlast)
      obtain rfl := cursor_injective generationName_injective
        (Option.mem_unique hk hend)
      exact le_rfl
  obtain ⟨hsorted, hnext⟩ := events_delivered (fun _ => id) generationName_injective
    attachedSystem_attached hresync
  exact ⟨_, _, hresync, by decide +kernel, hsorted, hnext (.other .null) _ (sentAt 1 2) rfl
    (by decide)⟩

end Amide
