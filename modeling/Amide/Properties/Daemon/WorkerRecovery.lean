import Amide.Construction.Daemon.WorkerRecoveryJournal

/-!
# The latest report of each session

What a reader finds should be the last report of each active session.  Two things stand between:
an append behind a torn record is lost with it (`not_returnsLatest_of_tornTail`), and a report that
differs from the last in nothing but the session id is dropped.  In runs without either the file
holds what the worker does (`returnsLatest_of_run`).
-/

namespace Amide

open LineCodec (Terminated)
open WorkerRecoveryJournal

/-! ## Records -/

namespace WorkerRecoveryInput

variable {input input' : WorkerRecoveryInput} {recordedAt recordedAt' : String}

lemma isObj_json : (input.json recordedAt).isObj = true := rfl

lemma field_activeSessionId : ((input.json recordedAt).field "activeSessionId" : Option String) =
      some input.activeSessionId := by
  simp [json, Json.field, ofJson_str]

lemma field_sessionId :
    ((input.json recordedAt).field "sessionId" : Option String) = some input.sessionId := by
  simp [json, Json.field, ofJson_str]

lemma field_busy : ((input.json recordedAt).field "busy" : Option Bool) = some input.busy := by
  simp [json, Json.field, ofJson_bool]

lemma field_operation :
    ((input.json recordedAt).field "operation" : Option String) = some input.operation := by
  simp [json, Json.field, ofJson_str]

lemma get?_sessionFile :
    (input.json recordedAt).get? "sessionFile" = input.sessionFile.map Json.str := by
  cases hfile : input.sessionFile with
  | none => simp [json, Json.opt, hfile]
  | some file =>
    simp [json, Json.opt, hfile]
    rfl

/-- What the comparison compares. -/
lemma isRepeatedBy_record : (input.record recordedAt).isRepeatedBy input' = true ↔
    input.busy = input'.busy ∧ input.operation = input'.operation ∧
      input.sessionFile = input'.sessionFile := by
  have hinj : Function.Injective (Option.map Json.str) :=
    Option.map_injective fun _ _ h => by simpa using h
  simp only [WorkerRecoveryRecord.isRepeatedBy, record, field_busy, field_operation,
    get?_sessionFile, Bool.and_eq_true, decide_eq_true_eq, Option.some.injEq, hinj.eq_iff,
    and_assoc]

end WorkerRecoveryInput

/-- The record of a report, made at some time. -/
def WorkerRecoveryRecord.Reports (record : WorkerRecoveryRecord) (input : WorkerRecoveryInput) :
    Prop :=
  ∃ recordedAt, record = input.record recordedAt

/-! ## Loads -/

namespace WorkerRecoveryJournal

variable {latest : Latest}

lemma parseRecords_eq (file : Option (List UInt8)) :
    parseRecords file = JsonLines.loadText parseRecord .empty (file.getD []) := by
  cases file with
  | none => rfl
  | some contents => rfl

lemma parseRecord_record {record : WorkerRecoveryRecord} {activeSessionId : String}
    (hkey : (record.json.field "activeSessionId" : Option String) = some activeSessionId) :
    parseRecord latest record.json = .ok (latest.set activeSessionId record) := by
  have hnull : record.json ≠ .null := by
    intro hnull
    rw [hnull] at hkey
    cases hkey
  simp only [parseRecord, if_neg hnull, hkey, dif_pos record.isRecord]

lemma parseRecord_input (input : WorkerRecoveryInput) (recordedAt : String) :
    parseRecord latest (input.json recordedAt) =
      .ok (latest.set input.activeSessionId (input.record recordedAt)) :=
  @parseRecord_record latest (input.record recordedAt) _ input.field_activeSessionId

/-- Every record is under its own active session. -/
def Keyed (latest : Latest) : Prop :=
  ∀ activeSessionId record, latest.get? activeSessionId = some record →
    (record.json.field "activeSessionId" : Option String) = some activeSessionId

lemma keyed_set (hkeyed : Keyed latest) (input : WorkerRecoveryInput) (recordedAt : String) :
    Keyed (latest.set input.activeSessionId (input.record recordedAt)) := by
  intro activeSessionId record hrec
  rw [JsMap.get?_set] at hrec
  split_ifs at hrec with hkey
  · cases hrec
    exact hkey ▸ input.field_activeSessionId
  · exact hkeyed activeSessionId record hrec

/-- **A compacted file** holds the latest records. -/
lemma parseRecords_compact (hkeyed : Keyed latest) (file : Option (List UInt8)) :
    parseRecords ((compact latest).apply file) = .ok latest := by
  have hfold : ∀ (entries : List (String × WorkerRecoveryRecord)) (initial : Latest),
      (∀ entry ∈ entries, (entry.2.json.field "activeSessionId" : Option String) = some entry.1) →
      (entries.map fun entry => entry.2.json).foldlM parseRecord initial =
        .ok (entries.foldl (fun map entry => map.set entry.1 entry.2) initial) := by
    intro entries
    induction entries with
    | nil => exact fun _ _ => rfl
    | cons entry entries ih =>
      intro initial hkeys
      rw [List.map_cons, List.foldlM_cons, parseRecord_record (hkeys entry (by simp))]
      exact ih _ fun other hother => hkeys other (by simp [hother])
  have hkeys : ∀ entry ∈ latest.entries,
      (entry.2.json.field "activeSessionId" : Option String) = some entry.1 := by
    intro entry hentry
    exact hkeyed entry.1 entry.2 (JsMap.mem_entries_iff.mp hentry)
  rw [compact, DiskWrite.apply, parseRecords_eq, Option.getD_some, JsonLines.loadText_joinRecords,
    JsMap.values, List.map_map]
  exact (hfold latest.entries .empty hkeys).trans (by rw [JsMap.foldl_set_empty])

/-- **Compaction forgets no session**, whatever was reported before. -/
theorem parseRecords_compact_recorded (inputs : List (WorkerRecoveryInput × String))
    (file : Option (List UInt8)) :
    let latest := inputs.foldl (fun latest input => (record latest input.1 input.2).1) .empty
    parseRecords ((compact latest).apply file) = .ok latest := by
  refine parseRecords_compact ?_ file
  induction inputs using List.reverseRecOn with
  | nil =>
    intro _ _ hrec
    cases hrec
  | append_singleton inputs input ih =>
    rw [List.foldl_append, List.foldl_cons, record]
    split_ifs
    · exact ih
    · exact keyed_set ih input.1 input.2

end WorkerRecoveryJournal

/-! ## What the reader should find -/

/-- The last report of an active session. -/
def lastReport (history : List WorkerRecoveryInput) (activeSessionId : String) :
    Option WorkerRecoveryInput :=
  history.reverse.find? fun input => input.activeSessionId = activeSessionId

lemma lastReport_concat (history : List WorkerRecoveryInput) (input : WorkerRecoveryInput)
    (activeSessionId : String) :
    lastReport (history ++ [input]) activeSessionId =
      if input.activeSessionId = activeSessionId then some input
      else lastReport history activeSessionId := by
  split_ifs with hkey <;> simp [hkey, lastReport]

/-- The reader finds the last report of every active session, and nothing else. -/
def ReturnsLatest (s : WorkerJournalState) : Prop :=
  ∃ records, readLatest s.file = .ok records ∧
    (∀ activeSessionId input, lastReport s.history activeSessionId = some input →
      ∃ record ∈ records, record.Reports input) ∧
    ∀ record ∈ records, ∃ input,
      lastReport s.history input.activeSessionId = some input ∧ record.Reports input

/-- A report that is dropped is of the same session as the record it repeats. -/
def SameSession (latest : Latest) (input : WorkerRecoveryInput) : Prop :=
  ∀ previous, latest.get? input.activeSessionId = some previous →
    previous.isRepeatedBy input = true →
      (previous.json.field "sessionId" : Option String) = some input.sessionId

/-- The report leaves every session idle, so that the file is replaced at once. -/
def leavesIdle (latest : Latest) (input : WorkerRecoveryInput) (recordedAt : String) : Bool :=
  isIdle (latest.set input.activeSessionId (input.record recordedAt))

/-- A step that appends starts at a line boundary or ends with the file compacted, and a report
that is dropped is of the same session. -/
def WorkerJournalState.Regular (s : WorkerJournalState) : WorkerJournalLabel → Prop
  | .record input recordedAt => SameSession s.latest input ∧
      (Terminated (s.file.getD []) ∨ repeats s.latest input = true ∨
        leavesIdle s.latest input recordedAt = true)
  | .cut _ _ _ | .late _ _ _ => Terminated (s.file.getD [])
  | .restart => True

/-- A load gives back what the worker holds, which is the last report of each session. -/
structure WorkerJournalState.Sound (s : WorkerJournalState) : Prop where
  load : parseRecords s.file = .ok s.latest
  keyed : Keyed s.latest
  latest : ∀ activeSessionId, Option.Rel WorkerRecoveryRecord.Reports
    (s.latest.get? activeSessionId) (lastReport s.history activeSessionId)

lemma reports_set {latest : Latest} {history : List WorkerRecoveryInput}
    (h : ∀ activeSessionId, Option.Rel WorkerRecoveryRecord.Reports
      (latest.get? activeSessionId) (lastReport history activeSessionId))
    (input : WorkerRecoveryInput) (recordedAt : String) (activeSessionId : String) :
    Option.Rel WorkerRecoveryRecord.Reports
      ((latest.set input.activeSessionId (input.record recordedAt)).get? activeSessionId)
      (lastReport (history ++ [input]) activeSessionId) := by
  rw [JsMap.get?_set, lastReport_concat]
  split_ifs
  · exact .some ⟨recordedAt, rfl⟩
  · exact h activeSessionId

variable {s : WorkerJournalState}

/-- A report that repeats the record of its own session changes nothing. -/
lemma reports_repeated (hs : s.Sound) {input : WorkerRecoveryInput}
    (hsess : SameSession s.latest input) (hrepeats : repeats s.latest input = true)
    (activeSessionId : String) :
    Option.Rel WorkerRecoveryRecord.Reports (s.latest.get? activeSessionId)
      (lastReport (s.history ++ [input]) activeSessionId) := by
  rw [lastReport_concat]
  split_ifs with hkey
  · subst hkey
    obtain ⟨previous, hprev, hrepeated⟩ := (Option.any_eq_true _ _).mp hrepeats
    have hrel := hs.latest input.activeSessionId
    rw [hprev] at hrel ⊢
    generalize hlast : lastReport s.history input.activeSessionId = last at hrel
    cases hrel with
    | some hreports =>
      rename_i last
      obtain ⟨recordedAt, rfl⟩ := hreports
      obtain ⟨hbusy, hop, hfile⟩ := WorkerRecoveryInput.isRepeatedBy_record.mp hrepeated
      have hid := hsess _ hprev hrepeated
      have hactive : last.activeSessionId = input.activeSessionId := by
        simpa using List.find?_some hlast
      rw [WorkerRecoveryInput.record, WorkerRecoveryInput.field_sessionId] at hid
      have hinput : last = input := by
        cases last
        simp_all
      rw [← hinput]
      exact .some ⟨recordedAt, rfl⟩
  · exact hs.latest activeSessionId

section Steps

variable {s : WorkerJournalState} {input : WorkerRecoveryInput} {recordedAt : String}

section
variable (hs : s.Sound) (hfile : Terminated (s.file.getD []))
include hs hfile

lemma parseRecords_line :
    parseRecords (some (s.file.getD [] ++ ((input.json recordedAt).stringify ++ [10]))) =
      .ok (s.latest.set input.activeSessionId (input.record recordedAt)) := by
  have hload := hs.load
  rw [parseRecords_eq] at hload ⊢
  exact JsonLines.loadText_append_line hload hfile (parseRecord_input input recordedAt)

lemma parseRecords_whole :
    parseRecords (some (s.file.getD [] ++ (input.json recordedAt).stringify)) =
      .ok (s.latest.set input.activeSessionId (input.record recordedAt)) := by
  have hload := hs.load
  rw [parseRecords_eq] at hload ⊢
  exact JsonLines.loadText_append_whole hload hfile (parseRecord_input input recordedAt)

lemma parseRecords_cut {part : List UInt8} (hpart : part <+: (input.json recordedAt).stringify)
    (hne : part ≠ (input.json recordedAt).stringify) :
    parseRecords (some (s.file.getD [] ++ part)) = .ok s.latest := by
  have hload := hs.load
  rw [parseRecords_eq] at hload ⊢
  exact JsonLines.loadText_append_cut hload hfile input.isObj_json hpart hne

end

/-- Where the report is written the file holds it, whether or not it is replaced. -/
lemma parseRecords_record (hs : s.Sound) (hrepeats : repeats s.latest input = false)
    (hfile : Terminated (s.file.getD []) ∨ leavesIdle s.latest input recordedAt = true) :
    parseRecords ((WorkerRecoveryJournal.record s.latest input recordedAt).2.foldl
        DiskWrite.apply s.file) =
      .ok (s.latest.set input.activeSessionId (input.record recordedAt)) := by
  have hkeyed := keyed_set hs.keyed input recordedAt
  rw [WorkerRecoveryJournal.record, if_neg (by simp [hrepeats])]
  by_cases hidle : isIdle (s.latest.set input.activeSessionId (input.record recordedAt)) = true
  · simp only [if_pos hidle, List.foldl_cons, List.foldl_nil]
    exact parseRecords_compact hkeyed _
  · simp only [if_neg hidle, List.foldl_cons, List.foldl_nil]
    exact parseRecords_line hs (hfile.resolve_right hidle)

/-- A crash after the record leaves it on disk, whether or not it is replaced. -/
lemma parseRecords_late (hs : s.Sound) (hrepeats : repeats s.latest input = false)
    (hfile : Terminated (s.file.getD [])) {file : Option (List UInt8)}
    (hlate : file = some (s.file.getD [] ++ (input.json recordedAt).stringify) ∨
      Leaves (WorkerRecoveryJournal.record s.latest input recordedAt).2.tail
        (some (s.file.getD [] ++ ((input.json recordedAt).stringify ++ [10]))) file) :
    parseRecords file = .ok (s.latest.set input.activeSessionId (input.record recordedAt)) := by
  rcases hlate with rfl | hleaves
  · exact parseRecords_whole hs hfile
  · rw [WorkerRecoveryJournal.record, if_neg (by simp [hrepeats])] at hleaves
    by_cases hidle : isIdle (s.latest.set input.activeSessionId (input.record recordedAt)) = true
    · simp only [if_pos hidle, List.tail_cons] at hleaves
      cases hleaves with
      | untouched => exact parseRecords_line hs hfile
      | next hleaves =>
        cases hleaves
        exact parseRecords_compact (keyed_set hs.keyed input recordedAt) _
    · simp only [if_neg hidle, List.tail_cons] at hleaves
      cases hleaves
      exact parseRecords_line hs hfile

end Steps

lemma WorkerJournalState.Sound.step {s' : WorkerJournalState} {label : WorkerJournalLabel}
    (hs : s.Sound) (hlabel : s.Regular label) (hstep : s.step label s') : s'.Sound := by
  cases label with
  | record input recordedAt =>
    obtain ⟨hsess, hfile⟩ := hlabel
    have heq : s' = ⟨(WorkerRecoveryJournal.record s.latest input recordedAt).2.foldl
        DiskWrite.apply s.file, (WorkerRecoveryJournal.record s.latest input recordedAt).1,
        s.history ++ [input]⟩ := hstep
    by_cases hrepeats : repeats s.latest input = true
    · rw [heq, WorkerRecoveryJournal.record, if_pos hrepeats]
      exact ⟨hs.load, hs.keyed, reports_repeated hs hsess hrepeats⟩
    · have hload := parseRecords_record hs (by simpa using hrepeats)
        (hfile.imp_right fun h => h.resolve_left hrepeats)
      have hlatest : (WorkerRecoveryJournal.record s.latest input recordedAt).1 =
          s.latest.set input.activeSessionId (input.record recordedAt) := by
        rw [WorkerRecoveryJournal.record, if_neg hrepeats]
      rw [heq, hlatest]
      exact ⟨hload, keyed_set hs.keyed input recordedAt, reports_set hs.latest input recordedAt⟩
  | cut input recordedAt part =>
    obtain ⟨-, hpart, hne, latest, hload, rfl⟩ := hstep
    cases (parseRecords_cut hs hlabel hpart hne).symm.trans hload
    exact ⟨hload, hs.keyed, hs.latest⟩
  | late input recordedAt file =>
    obtain ⟨hrepeats, hlate, latest, hload, rfl⟩ := hstep
    cases (parseRecords_late hs hrepeats hlabel hlate).symm.trans hload
    exact ⟨hload, keyed_set hs.keyed input recordedAt, reports_set hs.latest input recordedAt⟩
  | restart =>
    obtain ⟨latest, hload, rfl⟩ := hstep
    cases hs.load.symm.trans hload
    exact hs

lemma WorkerJournalState.Sound.returnsLatest (hs : s.Sound) : ReturnsLatest s := by
  refine ⟨s.latest.values, by rw [readLatest, hs.load]; rfl, ?_, ?_⟩
  · intro activeSessionId input hlast
    have hrel := hs.latest activeSessionId
    rw [hlast] at hrel
    cases hget : s.latest.get? activeSessionId with
    | none =>
      rw [hget] at hrel
      cases hrel
    | some record =>
      rw [hget] at hrel
      cases hrel with
      | some hreports => exact ⟨record, JsMap.mem_values_iff.mpr ⟨_, hget⟩, hreports⟩
  · intro record hrec
    obtain ⟨activeSessionId, hget⟩ := JsMap.mem_values_iff.mp hrec
    have hrel := hs.latest activeSessionId
    rw [hget] at hrel
    generalize hlast : lastReport s.history activeSessionId = last at hrel
    cases hrel with
    | some hreports =>
      rename_i input
      have hactive : input.activeSessionId = activeSessionId := by
        simpa using List.find?_some hlast
      exact ⟨input, hactive.symm ▸ hlast, hreports⟩

lemma sound_initial_worker : WorkerJournalState.Sound {} where
  load := rfl
  keyed _ _ hrec := by cases hrec
  latest _ := .none

/-- **The reader finds the last reports** in runs that append at line boundaries and in which a
session keeps its id while it says nothing else that is new. -/
theorem returnsLatest_of_run {s : WorkerJournalState} {labels : List WorkerJournalLabel}
    (h : (workerJournalMachine.guard WorkerJournalState.Regular).Run {} labels s) :
    ReturnsLatest s := by
  have hs : s.Sound :=
    h.invariant sound_initial_worker fun s₁ label s₂ hs hstep => hs.step hstep.2 hstep.1
  exact hs.returnsLatest

/-! ### Two sessions -/

/-- A busy worker, in one session or another. -/
def busyReport (activeSessionId sessionId : String) : WorkerRecoveryInput :=
  ⟨activeSessionId, sessionId, none, true, "prompt"⟩

/-- The worker after its first report. -/
def firstReport : WorkerJournalState :=
  let input := busyReport "main" "one"
  ⟨some ((input.json "").stringify ++ [10]), JsMap.empty.set "main" (input.record ""), [input]⟩

/-- The worker has died behind its second report, of another session, and is back. -/
def restarted : WorkerJournalState :=
  let input := busyReport "side" "two"
  ⟨some (firstReport.file.getD [] ++ ((input.json "").stringify ++ [10])),
    firstReport.latest.set "side" (input.record ""), firstReport.history ++ [input]⟩

theorem returnsLatest_of_run_restarted :
    (workerJournalMachine.guard WorkerJournalState.Regular).Run {}
      [.record (busyReport "main" "one") "",
        .late (busyReport "side" "two") "" restarted.file, .restart] restarted ∧
      ReturnsLatest restarted := by
  have hregular : WorkerJournalState.Regular {} (.record (busyReport "main" "one") "") :=
    ⟨nofun, .inl (.inl rfl)⟩
  have hsound : firstReport.Sound := sound_initial_worker.step hregular rfl
  have hended : Terminated (firstReport.file.getD []) := LineCodec.terminated_append_lf _
  have hload : parseRecords restarted.file = .ok restarted.latest :=
    parseRecords_late hsound rfl hended (.inr (.untouched _ _))
  have hcrash : workerJournalMachine.step firstReport
      (.late (busyReport "side" "two") "" restarted.file) restarted :=
    ⟨rfl, .inr (.untouched _ _), _, hload, rfl⟩
  have hrestart : workerJournalMachine.step restarted .restart restarted := ⟨_, hload, rfl⟩
  have hfirst : (workerJournalMachine.guard WorkerJournalState.Regular).Run {}
      [.record (busyReport "main" "one") ""] firstReport := Machine.Run.single ⟨rfl, hregular⟩
  have hrun := (hfirst.snoc ⟨hcrash, hended⟩).snoc ⟨hrestart, trivial⟩
  exact ⟨hrun, returnsLatest_of_run hrun⟩

/-- A report behind one byte of an earlier one is not found. -/
theorem not_returnsLatest_of_tornTail :
    ¬∀ (labels : List WorkerJournalLabel) (s : WorkerJournalState),
      workerJournalMachine.Run {} labels s → ReturnsLatest s := by
  intro hall
  let first := busyReport "first" "one"
  let second := busyReport "second" "two"
  let torn : WorkerJournalState := ⟨some [123], .empty, []⟩
  let line := (second.json "").stringify ++ [10]
  let recorded : WorkerJournalState :=
    ⟨some (123 :: line), JsMap.empty.set "second" (second.record ""), [second]⟩
  have htorn : workerJournalMachine.Run {} [.cut first "" [123]] torn := by
    obtain ⟨text, htext⟩ := Json.stringify_of_isObj (@WorkerRecoveryInput.isObj_json first "")
    apply Machine.Run.single
    refine ⟨rfl, htext ▸ ⟨text, rfl⟩, ?_, .empty, rfl, rfl⟩
    intro heq
    have hparse := Json.parse_stringify (first.json "")
    rw [← heq] at hparse
    cases hparse
  have hrecord : workerJournalMachine.step torn (.record second "") recorded := by
    rfl
  obtain ⟨records, hread, hfound, -⟩ := hall _ _ (htorn.snoc hrecord)
  have hload : parseRecords recorded.file = .ok .empty := by
    exact JsonLines.loadText_brace_line WorkerRecoveryInput.isObj_json
  rw [readLatest, hload] at hread
  cases hread
  obtain ⟨record, hrecord, -⟩ := hfound "second" second rfl
  cases hrecord

end Amide
