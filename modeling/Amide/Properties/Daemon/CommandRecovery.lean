import Amide.Framework.Histories
import Amide.Properties.Daemon.JournalLoads

/-!
# Commands are recovered at most once

A command that was reported new must not be new again before it is acknowledged, whatever
processes die in between: its receipt is on disk.  A command with a result must be reported
complete.

An append goes to the end of the file whatever stands there.  Behind the remains of an earlier
record the new one joins their line and is lost with them, which the next load finds out: so a
torn tail costs the next command its receipt (`not_atMostOnce_of_tornTail`).  In runs that append
at line boundaries only, or compact at once, a load gives back what the process held
(`atMostOnce_of_run`).
-/

namespace Amide

open LineCodec (Terminated)
open CommandRecoveryJournal (load Keyed)
open CommandRecoveryJournal (counting load_compact load_eq_loadText lookup)

/-! ## One operation -/

namespace JournalOp

def clientId : JournalOp → String
  | .begin clientId _ _ | .recordResult clientId _ _ | .acknowledge clientId _ => clientId

def commandId : JournalOp → String
  | .begin _ commandId _ | .recordResult _ commandId _ | .acknowledge _ commandId => commandId

def key (op : JournalOp) : String := createCommandIdempotencyKey op.clientId op.commandId

/-- The operation adds a record: a receipt where there is none, anything else where there is. -/
def appends (journal : CommandRecoveryJournal) (op : JournalOp) : Bool :=
  match op with
  | .begin .. => !journal.entries.has op.key
  | .recordResult .. | .acknowledge .. => journal.entries.has op.key

/-- The operation, where it adds a record, goes on to compact. -/
def compacts (journal : CommandRecoveryJournal) (op : JournalOp) : Bool :=
  match op with
  | .begin .. => false
  | .recordResult .. => compactAfterRecords ≤ journal.recordCount + 1
  | .acknowledge .. => (journal.entries.delete op.key).size = 0 ||
      compactAfterRecords ≤ journal.recordCount + 1

def record (now : ℕ → String) (op : JournalOp) : Json :=
  match op with
  | .begin clientId commandId commandType =>
    receivedJson op.key clientId commandId commandType (now 0)
  | .recordResult _ _ response => resultJson op.key response (now 0)
  | .acknowledge .. => acknowledgedJson op.key (now 0)

/-- The entries once the record is added. -/
def entries (now : ℕ → String) (entries : JsMap String JournalEntry) (op : JournalOp) :
    JsMap String JournalEntry :=
  match op with
  | .begin clientId commandId commandType => entries.set op.key
      { received := ⟨receivedJson op.key clientId commandId commandType (now 0),
          isReceived_receivedJson ..⟩ }
  | .recordResult _ _ response =>
    match entries.get? op.key with
    | none => entries
    | some entry => entries.set op.key { entry with response := some response }
  | .acknowledge .. => entries.delete op.key

/-- The outcome of an operation that adds its record. -/
def outcome : JournalOp → JournalOutcome
  | .begin .. => .status .new
  | .recordResult .. | .acknowledge .. => .done

variable (op : JournalOp) {journal : CommandRecoveryJournal} (now : ℕ → String)

lemma field_key_receivedJson (key clientId commandId commandType recordedAt : String) :
    ((receivedJson key clientId commandId commandType recordedAt).field "key" : Option String) =
      some key := by
  simp [receivedJson, Json.field, ofJson_str]

lemma isObj_record : (op.record now).isObj = true := by
  cases op <;> rfl

lemma perform_of_not_appends (h : op.appends journal = false) :
    (op.perform now journal).2 = (journal, []) ∧ (op.perform now journal).1 ≠ .status .new ∧
      ∀ clientId commandId response, op = .recordResult clientId commandId response →
        (op.perform now journal).1 ≠ .done := by
  cases op with
  | «begin» clientId commandId commandType =>
    rw [appends, Bool.not_eq_false', JsMap.has_iff] at h
    obtain ⟨entry, hentry⟩ := h
    have hkey : journal.entries.get? (createCommandIdempotencyKey clientId commandId) =
        some entry := hentry
    obtain ⟨received, response⟩ := entry
    cases response with
    | none | some response => simp [perform, CommandRecoveryJournal.begin, lookup, hkey]
  | recordResult clientId commandId response =>
    rw [appends, JsMap.has_eq_false_iff] at h
    have hkey : journal.entries.get? (createCommandIdempotencyKey clientId commandId) = none := h
    simp [perform, CommandRecoveryJournal.recordResult, hkey]
  | acknowledge clientId commandId =>
    have hkey : journal.entries.has (createCommandIdempotencyKey clientId commandId) = false := h
    simp [perform, CommandRecoveryJournal.acknowledge, hkey]

lemma perform_of_appends (h : op.appends journal = true) : op.perform now journal = (op.outcome,
        ((journal.counting (op.entries now journal.entries)).compactIf now
          (op.compacts journal)).1,
        .append ((op.record now).stringify ++ [10]) ::
          ((journal.counting (op.entries now journal.entries)).compactIf now
            (op.compacts journal)).2) := by
  cases op with
  | «begin» clientId commandId commandType =>
    rw [appends, Bool.not_eq_true', JsMap.has_eq_false_iff] at h
    have hkey : journal.entries.get? (createCommandIdempotencyKey clientId commandId) = none := h
    simp only [perform, CommandRecoveryJournal.begin, lookup, hkey]
    rfl
  | recordResult clientId commandId response =>
    rw [appends, JsMap.has_iff] at h
    obtain ⟨entry, hentry⟩ := h
    have hkey : journal.entries.get? (createCommandIdempotencyKey clientId commandId) =
        some entry := hentry
    simp only [perform, CommandRecoveryJournal.recordResult, hkey, entries, key, JournalOp.clientId,
      JournalOp.commandId]
    rfl
  | acknowledge clientId commandId =>
    have hkey : ¬journal.entries.has (createCommandIdempotencyKey clientId commandId) = false := by
      exact ne_of_eq_of_ne h (by decide)
    simp only [perform, CommandRecoveryJournal.acknowledge, if_neg hkey]
    rfl

/-- A load makes of the record what the operation made of the journal. -/
lemma loadRecord_record (h : op.appends journal = true) :
    journal.loadRecord (op.record now) =
      .ok (journal.counting (op.entries now journal.entries)) := by
  cases op with
  | «begin» clientId commandId commandType =>
    let received : ReceivedRecord :=
      ⟨receivedJson (createCommandIdempotencyKey clientId commandId) clientId commandId commandType
        (now 0), isReceived_receivedJson ..⟩
    have hkey := field_key_receivedJson (createCommandIdempotencyKey clientId commandId) clientId
      commandId commandType (now 0)
    exact @CommandRecoveryJournal.loadRecord_received journal _ received hkey
  | recordResult clientId commandId response =>
    rw [appends, JsMap.has_iff] at h
    obtain ⟨entry, hentry⟩ := h
    rw [record, CommandRecoveryJournal.loadRecord_result hentry]
    simp only [entries, hentry]
  | acknowledge clientId commandId =>
    exact CommandRecoveryJournal.loadRecord_acknowledged _ _

lemma keyed_entries (hkeyed : journal.Keyed) :
    (journal.counting (op.entries now journal.entries)).Keyed := by
  intro key entry hentry
  cases op with
  | «begin» clientId commandId commandType =>
    have hset := (JsMap.get?_set ..).symm.trans hentry
    split_ifs at hset with hkey
    · cases hset
      exact hkey ▸ field_key_receivedJson ..
    · exact hkeyed key entry hset
  | recordResult clientId commandId response =>
    simp only [counting, entries] at hentry
    split at hentry
    next => exact hkeyed key entry hentry
    next old hold =>
      rw [JsMap.get?_set] at hentry
      split_ifs at hentry with hkey
      · cases hentry
        exact hkey ▸ hkeyed _ old hold
      · exact hkeyed key entry hentry
  | acknowledge clientId commandId =>
    have hdelete := (JsMap.get?_delete ..).symm.trans hentry
    split_ifs at hdelete with hkey
    exact hkeyed key entry hdelete

end JournalOp

/-! ## The file after an operation, or some of one -/

section Files

variable {file file' : Option (List UInt8)} {journal after : CommandRecoveryJournal}
  {record : Json} {op : JournalOp} {now : ℕ → String}

lemma load_append_line (hload : load file = .ok journal) (hfile : Terminated (file.getD []))
    (hrec : journal.loadRecord record = .ok after) :
    load (some (file.getD [] ++ (record.stringify ++ [10]))) = .ok after := by
  rw [load_eq_loadText] at hload ⊢
  exact JsonLines.loadText_append_line hload hfile hrec

/-- An interrupted append has done nothing, or all that counts. -/
lemma load_append_part (hload : load file = .ok journal) (hfile : Terminated (file.getD []))
    (hobj : record.isObj = true) (hrec : journal.loadRecord record = .ok after)
    {part : List UInt8} (hpart : part <+: record.stringify ++ [10]) :
    load (some (file.getD [] ++ part)) = .ok journal ∨
      load (some (file.getD [] ++ part)) = .ok after := by
  simp only [load_eq_loadText, Option.getD_some] at hload ⊢
  exact JsonLines.loadText_append_part hload hfile hobj hrec hpart

@[simp] lemma entries_compactIf (condition : Bool) :
    (journal.compactIf now condition).1.entries = journal.entries := by
  cases condition <;> rfl

lemma keyed_compactIf (condition : Bool) (hkeyed : journal.Keyed) :
    (journal.compactIf now condition).1.Keyed := by
  intro key entry hentry
  rw [entries_compactIf] at hentry
  exact hkeyed key entry hentry

/-- The writes of a compaction, if there is one. -/
lemma compactIf_cases (now : ℕ → String) (condition : Bool) (hkeyed : journal.Keyed) :
    (condition = false ∧ journal.compactIf now condition = (journal, [])) ∨
      condition = true ∧ ∃ contents, (journal.compactIf now condition).2 = [.replace contents] ∧
        load (some contents) = .ok (journal.compactIf now condition).1 := by
  cases condition with
  | false => exact .inl ⟨rfl, rfl⟩
  | true => exact .inr ⟨rfl, load_compact hkeyed now⟩

/-- At a line boundary an operation leaves on disk what it leaves in memory; one that compacts
does wherever it starts. -/
lemma load_perform (hload : load file = .ok journal) (hkeyed : journal.Keyed)
    (hfile : Terminated (file.getD []) ∨ op.appends journal = false ∨ op.compacts journal = true) :
    load ((op.perform now journal).2.2.foldl DiskWrite.apply file) =
      .ok (op.perform now journal).2.1 := by
  cases happends : op.appends journal with
  | false =>
    rw [(op.perform_of_not_appends now happends).1]
    exact hload
  | true =>
    rw [op.perform_of_appends now happends]
    have hafter := op.keyed_entries now hkeyed
    rcases compactIf_cases now (op.compacts journal) hafter with
      ⟨hcompacts, heq⟩ | ⟨-, contents, hwrites, hcontents⟩
    · rw [happends, hcompacts] at hfile
      have hfile : Terminated (file.getD []) := by simpa using hfile
      rw [heq]
      exact load_append_line hload hfile (op.loadRecord_record now happends)
    · rw [hwrites]
      exact hcontents

/-- A crash in an operation leaves a journal from before it or from after it. -/
lemma load_leaves (hload : load file = .ok journal) (hkeyed : journal.Keyed)
    (hfile : Terminated (file.getD []) ∨ op.appends journal = false ∨ file' = file)
    (hleaves : Leaves (op.perform now journal).2.2 file file') :
    ∃ journal', load file' = .ok journal' ∧ journal'.Keyed ∧ (journal'.entries = journal.entries ∨
        op.appends journal = true ∧ journal'.entries = op.entries now journal.entries) := by
  cases happends : op.appends journal with
  | false =>
    rw [(op.perform_of_not_appends now happends).1] at hleaves
    cases hleaves
    exact ⟨journal, hload, hkeyed, .inl rfl⟩
  | true =>
    by_cases hsame : file' = file
    · rw [hsame]
      exact ⟨journal, hload, hkeyed, .inl rfl⟩
    have hbound : Terminated (file.getD []) := by simpa [happends, hsame] using hfile
    have hrec := op.loadRecord_record now happends
    have hafter := op.keyed_entries now hkeyed
    have hline := load_append_line hload hbound hrec
    rw [op.perform_of_appends now happends] at hleaves
    cases hleaves with
    | untouched => exact absurd rfl hsame
    | torn hpart =>
      rcases load_append_part hload hbound (op.isObj_record now) hrec hpart with
        hloaded | hloaded
      · exact ⟨_, hloaded, hkeyed, .inl rfl⟩
      · exact ⟨_, hloaded, hafter, .inr ⟨rfl, rfl⟩⟩
    | next hleaves =>
      rcases compactIf_cases now (op.compacts journal) hafter with
        ⟨-, heq⟩ | ⟨-, contents, hwrites, hcontents⟩
      · rw [heq] at hleaves
        cases hleaves
        exact ⟨_, hline, hafter, .inr ⟨rfl, rfl⟩⟩
      · rw [hwrites] at hleaves
        cases hleaves with
        | untouched => exact ⟨_, hline, hafter, .inr ⟨rfl, rfl⟩⟩
        | next hleaves =>
          cases hleaves
          exact ⟨_, hcontents, keyed_compactIf _ hafter, .inr ⟨rfl, entries_compactIf _⟩⟩

end Files

/-! ## What the client is owed -/

/-- What the entries say of a command: nothing, or whether it has a response. -/
def commandStatus (entries : JsMap String JournalEntry) (clientId commandId : String) :
    Option (Option DaemonResponse) :=
  (entries.get? (createCommandIdempotencyKey clientId commandId)).map JournalEntry.response

/-- The command was reported new, and nobody has set out to acknowledge it. -/
def Begun (history : List (JournalOp × JournalOutcome)) (clientId commandId : String) : Prop :=
  ∃ before after commandType,
    history = before ++ (.begin clientId commandId commandType, .status .new) :: after ∧
      ∀ event ∈ after, event.1 ≠ .acknowledge clientId commandId

/-- The last `recordResult` of the command to return had the response, and nobody has set out to
acknowledge the command; `after` is what has happened since. -/
def Answered (history : List (JournalOp × JournalOutcome)) (clientId commandId : String)
    (response : DaemonResponse) (after : List (JournalOp × JournalOutcome)) : Prop :=
  ∃ before, history = before ++ (.recordResult clientId commandId response, .done) :: after ∧
    ∀ event ∈ after, event.1 ≠ .acknowledge clientId commandId ∧
      ∀ response', event ≠ (.recordResult clientId commandId response', .done)

/-- The response of a `recordResult`, or of a later one that was cut short. -/
def IsAnswer (clientId commandId : String) (response : DaemonResponse)
    (after : List (JournalOp × JournalOutcome)) (response' : DaemonResponse) : Prop :=
  response' = response ∨ (.recordResult clientId commandId response', .interrupted) ∈ after

/-- A command that was new is not new again, and one with a result is complete. -/
def AtMostOnce (s : JournalState) : Prop :=
  (∀ clientId commandId, Begun s.history clientId commandId → ∀ now commandType,
    (s.journal.begin now clientId commandId commandType).1 ≠ .new) ∧
  ∀ clientId commandId response after, Answered s.history clientId commandId response after →
    ∃ response', IsAnswer clientId commandId response after response' ∧ ∀ now commandType,
      (s.journal.begin now clientId commandId commandType).1 = .complete response'

/-- A step that appends starts at a line boundary or ends with the file compacted. -/
def JournalState.AtLineBoundary (s : JournalState) : JournalLabel → Prop
  | .call op _ => Terminated (s.file.getD []) ∨ op.appends s.journal = false ∨
      op.compacts s.journal = true
  | .crash op _ file => Terminated (s.file.getD []) ∨ op.appends s.journal = false ∨ file = s.file
  | .restart => True

/-! ### Statuses -/

lemma createCommandIdempotencyKey_inj {clientId commandId clientId' commandId' : String}
    (h : createCommandIdempotencyKey clientId commandId =
      createCommandIdempotencyKey clientId' commandId') :
    clientId = clientId' ∧ commandId = commandId' := by
  have harr := Json.text_injective h
  simpa using harr

variable {journal : CommandRecoveryJournal}

lemma begin_eq_of_status {clientId commandId : String}
    {status : Option DaemonResponse}
    (h : commandStatus journal.entries clientId commandId = some status) (now : ℕ → String)
    (commandType : String) :
    (journal.begin now clientId commandId commandType).1 = status.elim .pending .complete := by
  obtain ⟨entry, hentry, hresp⟩ := Option.map_eq_some_iff.mp h
  simp only [CommandRecoveryJournal.begin, lookup, hentry, ← hresp]
  obtain ⟨received, response⟩ := entry
  cases response <;> rfl

/-- What an operation that adds a record makes of its command's status. -/
def JournalOp.effect : JournalOp → Option (Option DaemonResponse)
  | .begin .. => some none
  | .recordResult _ _ response => some (some response)
  | .acknowledge .. => none

variable {now : ℕ → String}

lemma commandStatus_entries {op : JournalOp}
    (h : op.appends journal = true) (clientId commandId : String) :
    commandStatus (op.entries now journal.entries) clientId commandId =
      if op.clientId = clientId ∧ op.commandId = commandId then op.effect
      else commandStatus journal.entries clientId commandId := by
  have hkey : op.key = createCommandIdempotencyKey clientId commandId ↔
      op.clientId = clientId ∧ op.commandId = commandId := by
    refine ⟨createCommandIdempotencyKey_inj, ?_⟩
    rintro ⟨rfl, rfl⟩
    rfl
  simp only [← hkey]
  cases op with
  | «begin» clientId' commandId' commandType =>
    simp only [commandStatus, JournalOp.entries, JsMap.get?_set]
    split_ifs <;> rfl
  | recordResult clientId' commandId' response =>
    rw [JournalOp.appends, JsMap.has_iff] at h
    obtain ⟨entry, hentry⟩ := h
    simp only [commandStatus, JournalOp.entries, hentry, JsMap.get?_set]
    split_ifs <;> rfl
  | acknowledge clientId' commandId' =>
    simp only [commandStatus, JournalOp.entries, JsMap.get?_delete]
    split_ifs <;> rfl

/-! ## Steps -/

/-- A load gives back what the process holds, which is all that the client is owed. -/
structure JournalState.Sound (s : JournalState) : Prop where
  load : load s.file = .ok s.journal
  keyed : s.journal.Keyed
  begun : ∀ clientId commandId, Begun s.history clientId commandId →
    commandStatus s.journal.entries clientId commandId ≠ none
  answered : ∀ clientId commandId response after,
    Answered s.history clientId commandId response after →
      ∃ response', IsAnswer clientId commandId response after response' ∧
        commandStatus s.journal.entries clientId commandId = some (some response')

/-- An operation that returned, or was cut short, and the entries after it. -/
inductive Performed (op : JournalOp) (now : ℕ → String) (journal : CommandRecoveryJournal) :
    JournalOutcome → JsMap String JournalEntry → Prop
  | added {outcome : JournalOutcome} (happends : op.appends journal = true)
      (houtcome : outcome = op.outcome ∨ outcome = .interrupted) :
      Performed op now journal outcome (op.entries now journal.entries)
  | nothing {outcome : JournalOutcome} (hnew : outcome ≠ .status .new)
      (hdone : ∀ clientId commandId response, op = .recordResult clientId commandId response →
        outcome ≠ .done) :
      Performed op now journal outcome journal.entries

lemma keyed_perform {op : JournalOp}
    (hkeyed : journal.Keyed) : (op.perform now journal).2.1.Keyed := by
  cases happends : op.appends journal with
  | false =>
    rw [(op.perform_of_not_appends now happends).1]
    exact hkeyed
  | true =>
    rw [op.perform_of_appends now happends]
    exact keyed_compactIf _ (op.keyed_entries now hkeyed)

lemma performed_perform (op : JournalOp) (now : ℕ → String) (journal : CommandRecoveryJournal) :
    Performed op now journal (op.perform now journal).1
      (op.perform now journal).2.1.entries := by
  cases happends : op.appends journal with
  | false =>
    obtain ⟨heq, hnew, hdone⟩ := op.perform_of_not_appends now happends
    rw [heq]
    exact .nothing hnew hdone
  | true =>
    rw [op.perform_of_appends now happends, entries_compactIf]
    exact .added happends (.inl rfl)

section Steps

variable {s : JournalState} {op : JournalOp} {now : ℕ → String} {outcome : JournalOutcome}
  {entries : JsMap String JournalEntry}

lemma Performed.begun (h : Performed op now s.journal outcome entries) (hs : s.Sound)
    (clientId commandId : String)
    (hbegun : Begun (s.history ++ [(op, outcome)]) clientId commandId) :
    commandStatus entries clientId commandId ≠ none := by
  obtain ⟨before, after, commandType, heq, hafter⟩ := hbegun
  rcases append_singleton_eq heq with ⟨rfl, hlast, -⟩ | ⟨after', rfl, hhistory⟩
  · cases h with
    | added happends houtcome =>
      cases hlast
      rw [commandStatus_entries happends, if_pos ⟨rfl, rfl⟩]
      exact Option.some_ne_none _
    | nothing hnew hdone =>
      cases hlast
      exact absurd rfl hnew
  · have hbefore : commandStatus s.journal.entries clientId commandId ≠ none := by
      refine hs.begun clientId commandId ⟨before, after', commandType, hhistory, ?_⟩
      intro event hevent
      exact hafter event (List.mem_append_left _ hevent)
    cases h with
    | added happends houtcome =>
      rw [commandStatus_entries happends]
      split_ifs with hcmd
      · have hne := hafter (op, outcome) (by simp)
        obtain ⟨rfl, rfl⟩ := hcmd
        cases op with
        | «begin» | recordResult => exact Option.some_ne_none _
        | acknowledge => exact absurd rfl hne
      · exact hbefore
    | nothing hnew hdone => exact hbefore

lemma Performed.answered (h : Performed op now s.journal outcome entries) (hs : s.Sound)
    (clientId commandId : String) (response : DaemonResponse)
    (after : List (JournalOp × JournalOutcome))
    (hanswered : Answered (s.history ++ [(op, outcome)]) clientId commandId response after) :
    ∃ response', IsAnswer clientId commandId response after response' ∧
      commandStatus entries clientId commandId = some (some response') := by
  obtain ⟨before, heq, hafter⟩ := hanswered
  rcases append_singleton_eq heq with ⟨rfl, hlast, -⟩ | ⟨after, rfl, hhistory⟩
  · refine ⟨response, .inl rfl, ?_⟩
    cases h with
    | added happends houtcome =>
      cases hlast
      rw [commandStatus_entries happends, if_pos ⟨rfl, rfl⟩]
      rfl
    | nothing hnew hdone =>
      cases hlast
      exact absurd rfl (hdone _ _ _ rfl)
  · obtain ⟨response', hanswer, hstatus⟩ := hs.answered clientId commandId response after
      ⟨before, hhistory, fun event hevent => hafter event (List.mem_append_left _ hevent)⟩
    have hkept : IsAnswer clientId commandId response (after ++ [(op, outcome)]) response' :=
      hanswer.imp_right (List.mem_append_left _)
    cases h with
    | added happends houtcome =>
      rw [commandStatus_entries happends]
      split_ifs with hcmd
      · obtain ⟨hne, hdone⟩ := hafter (op, outcome) (by simp)
        obtain ⟨rfl, rfl⟩ := hcmd
        cases op with
        | «begin» clientId commandId commandType =>
          -- a receipt is added only for a command that has no entry
          rw [JournalOp.appends, Bool.not_eq_true', JsMap.has_eq_false_iff] at happends
          obtain ⟨entry, hentry, -⟩ := Option.map_eq_some_iff.mp hstatus
          exact absurd (happends.symm.trans hentry) (by simp)
        | recordResult clientId commandId later =>
          refine ⟨later, .inr ?_, rfl⟩
          rcases houtcome with rfl | rfl
          · exact absurd rfl (hdone later)
          · exact List.mem_append_right _ (List.mem_singleton_self _)
        | acknowledge => exact absurd rfl hne
      · exact ⟨response', hkept, hstatus⟩
    | nothing hnew hdone => exact ⟨response', hkept, hstatus⟩

end Steps

lemma sound_step {s s' : JournalState} {label : JournalLabel} (hs : s.Sound)
    (hlabel : s.AtLineBoundary label) (hstep : s.step label s') : s'.Sound := by
  cases label with
  | call op now =>
    cases hstep
    have hperformed := performed_perform op now s.journal
    refine ⟨load_perform hs.load hs.keyed hlabel, ?_, hperformed.begun hs, hperformed.answered hs⟩
    exact keyed_perform hs.keyed
  | crash op now file =>
    obtain ⟨hleaves, journal, hload, rfl⟩ := hstep
    obtain ⟨journal', hload', hkeyed, hentries⟩ := load_leaves hs.load hs.keyed hlabel hleaves
    cases hload.symm.trans hload'
    have hperformed : Performed op now s.journal .interrupted journal.entries := by
      rcases hentries with hentries | ⟨happends, hentries⟩
      · rw [hentries]
        exact .nothing (by decide) fun _ _ _ _ => by decide
      · rw [hentries]
        exact .added happends (.inr rfl)
    exact ⟨hload, hkeyed, hperformed.begun hs, hperformed.answered hs⟩
  | restart =>
    obtain ⟨journal, hload, rfl⟩ := hstep
    cases hs.load.symm.trans hload
    exact hs

lemma sound_initial : JournalState.Sound {} where
  load := rfl
  keyed key entry hentry := by cases hentry
  begun clientId commandId hbegun := by
    obtain ⟨before, after, commandType, heq, -⟩ := hbegun
    cases before <;> cases heq
  answered clientId commandId response after hanswered := by
    obtain ⟨before, heq, -⟩ := hanswered
    cases before <;> cases heq

lemma JournalState.Sound.atMostOnce {s : JournalState} (hs : s.Sound) : AtMostOnce s := by
  constructor
  · intro clientId commandId hbegun now commandType
    obtain ⟨status, hstatus⟩ := Option.ne_none_iff_exists'.mp (hs.begun _ _ hbegun)
    rw [begin_eq_of_status hstatus]
    cases status <;> simp
  · intro clientId commandId response after hanswered
    obtain ⟨response', hanswer, hstatus⟩ := hs.answered _ _ _ _ hanswered
    exact ⟨response', hanswer, fun now commandType => begin_eq_of_status hstatus now commandType⟩

/-- **At most once**, in runs that append at line boundaries: a restart gives the process back what
it held, and that is what the client is owed. -/
theorem atMostOnce_of_run {s : JournalState} {labels : List JournalLabel}
    (h : (journalMachine.guard JournalState.AtLineBoundary).Run {} labels s) :
    load s.file = .ok s.journal ∧ AtMostOnce s := by
  have hs : s.Sound := h.invariant sound_initial fun s₁ label s₂ hs hstep =>
    sound_step hs hstep.2 hstep.1
  exact ⟨hs.load, hs.atMostOnce⟩

/-- A command is received and answered, and the process dies after one byte of the next. -/
theorem atMostOnce_of_run_crashed :
    ∃ (s : JournalState) (response : DaemonResponse) (torn : List UInt8),
      (journalMachine.guard JournalState.AtLineBoundary).Run {}
        [.call (.begin "client" "first" "prompt") fun _ => "",
          .call (.recordResult "client" "first" response) fun _ => "",
          .crash (.begin "client" "second" "prompt") (fun _ => "") (some (torn ++ [123])),
          .restart] s ∧
        Begun s.history "client" "first" ∧
        Answered s.history "client" "first" response
          [(.begin "client" "second" "prompt", .interrupted)] ∧
        load s.file = .ok s.journal ∧ AtMostOnce s := by
  let now : ℕ → String := fun _ => ""
  let first : JournalOp := .begin "client" "first" "prompt"
  let response : DaemonResponse := ⟨.obj [("type", .str "response")], rfl⟩
  let result : JournalOp := .recordResult "client" "first" response
  let second : JournalOp := .begin "client" "second" "prompt"
  let receipt := (first.record now).stringify ++ [10]
  let received : JournalState :=
    ⟨some receipt, (first.perform now {}).2.1, [(first, .status .new)]⟩
  let answered : JournalState :=
    ⟨some (receipt ++ ((result.record now).stringify ++ [10])),
      (result.perform now received.journal).2.1, [(first, .status .new), (result, .done)]⟩
  have hreceived : (journalMachine.guard JournalState.AtLineBoundary).Run {}
      [.call first now] received := Machine.Run.single ⟨rfl, .inl (.inl rfl)⟩
  have hanswered := hreceived.snoc (show (journalMachine.guard _).step received
    (.call result now) answered from ⟨rfl, .inl (LineCodec.terminated_append_lf _)⟩)
  have hsound : answered.Sound := hanswered.invariant sound_initial fun _ _ _ hs hstep =>
    sound_step hs hstep.2 hstep.1
  have hended : Terminated (receipt ++ ((result.record now).stringify ++ [10])) := by
    rw [← List.append_assoc]
    exact LineCodec.terminated_append_lf _
  obtain ⟨text, htext⟩ := Json.stringify_of_isObj (second.isObj_record now)
  have hleaves : Leaves (second.perform now answered.journal).2.2 answered.file
      (some (answered.file.getD [] ++ [123])) :=
    .torn (htext ▸ ⟨text ++ [10], rfl⟩) [] answered.file
  obtain ⟨journal, hload, -⟩ := load_leaves hsound.load hsound.keyed (.inl hended) hleaves
  have hcrash := hanswered.snoc (show (journalMachine.guard _).step answered
    (.crash second now (some (answered.file.getD [] ++ [123])))
    ⟨_, journal, answered.history ++ [(second, .interrupted)]⟩ from
      ⟨⟨hleaves, journal, hload, rfl⟩, .inl hended⟩)
  have hrestart := hcrash.snoc (show (journalMachine.guard _).step _ .restart
    ⟨_, journal, answered.history ++ [(second, .interrupted)]⟩ from
      ⟨⟨journal, hload, rfl⟩, trivial⟩)
  refine ⟨_, response, _, hrestart, ⟨[], _, "prompt", rfl, ?_⟩, ⟨[_], rfl, ?_⟩,
    atMostOnce_of_run hrestart⟩
  · simp [result]
  · simp

/-! ### Behind a torn tail -/

/-- The first command dies after one byte of its receipt; the second is new, and new again after
a restart. -/
theorem not_atMostOnce_of_tornTail : ¬∀ (labels : List JournalLabel) (s : JournalState),
      journalMachine.Run {} labels s → AtMostOnce s := by
  intro hall
  let now : ℕ → String := fun _ => ""
  let first : JournalOp := .begin "client" "first" "prompt"
  let second : JournalOp := .begin "client" "second" "prompt"
  let torn : JournalState := ⟨some [123], {}, [(first, .interrupted)]⟩
  let line := (second.record now).stringify ++ [10]
  let received : JournalState := ⟨some (123 :: line), (second.perform now {}).2.1,
    [(first, .interrupted), (second, .status .new)]⟩
  have htorn : journalMachine.Run {} [.crash first now (some [123])] torn := by
    obtain ⟨text, htext⟩ := Json.stringify_of_isObj (first.isObj_record now)
    have hpart : [123] <+: (first.record now).stringify ++ [10] := by
      rw [htext]
      exact ⟨text ++ [10], rfl⟩
    apply Machine.Run.single
    exact ⟨.torn hpart [] none, {}, rfl, rfl⟩
  have hreceived := htorn.snoc (show journalMachine.step torn (.call second now) received from rfl)
  have hload : load received.file = .ok {} := by
    exact JsonLines.loadText_brace_line (second.isObj_record now)
  have hrun := hreceived.snoc (show journalMachine.step received .restart
    { received with journal := {} } from ⟨{}, hload, rfl⟩)
  refine (hall _ _ hrun).1 "client" "second" ?_ now "prompt" rfl
  refine ⟨[(first, .interrupted)], [], "prompt", rfl, ?_⟩
  intro event hevent
  cases hevent

end Amide
