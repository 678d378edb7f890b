import Amide.Construction.Daemon.CommandRecoveryJournal

/-!
# What a load makes of the journal's file

A record does to the journal what the operation that wrote it did.  A compacted file loads as the
journal it was written from (`load_compact`), provided every entry is under its own record's key
(`Keyed`).
-/

namespace Amide

namespace CommandRecoveryJournal

variable {journal journal' : CommandRecoveryJournal}

lemma load_eq_loadText (file : Option (List UInt8)) :
    load file = JsonLines.loadText loadRecord {} (file.getD []) := by
  cases file with
  | none => rfl
  | some contents => rfl

/-! ## Records -/

/-- Every entry is under the key of its own record. -/
def Keyed (journal : CommandRecoveryJournal) : Prop :=
  ∀ key entry, journal.entries.get? key = some entry →
    (entry.received.json.field "key" : Option String) = some key

/-- Counting one more record. -/
def counting (journal : CommandRecoveryJournal) (entries : JsMap String JournalEntry) :
    CommandRecoveryJournal :=
  { entries, recordCount := journal.recordCount + 1 }

variable {key : String}

lemma loadRecord_received {received : ReceivedRecord}
    (hkey : (received.json.field "key" : Option String) = some key) :
    journal.loadRecord received.json =
      .ok (journal.counting (journal.entries.set key { received })) := by
  have hrecv := received.isReceived
  have hnull : received.json ≠ .null := by
    intro hnull
    rw [hnull] at hkey
    cases hkey
  simp only [isReceivedRecord, Bool.and_eq_true, decide_eq_true_eq] at hrecv
  obtain ⟨⟨⟨⟨⟨hversion, -⟩, htype⟩, -⟩, -⟩, -⟩ := hrecv
  simp only [loadRecord, if_neg hnull, hversion, hkey, htype, if_true, received.isReceived,
    dif_pos, counting]

variable {entry : JournalEntry}

lemma loadRecord_result {response : DaemonResponse}
    (hentry : journal.entries.get? key = some entry) (recordedAt : String) :
    journal.loadRecord (resultJson key response recordedAt) = .ok (journal.counting
      (journal.entries.set key { entry with response := some response })) := by
  have hresp : daemonResponse? (some response.json) = some response := dif_pos response.type
  simp [loadRecord, resultJson, Json.field, ofJson_str, hentry, hresp, counting]

lemma loadRecord_acknowledged (key recordedAt : String) :
    journal.loadRecord (acknowledgedJson key recordedAt) =
      .ok (journal.counting (journal.entries.delete key)) := by
  simp [loadRecord, acknowledgedJson, Json.field, ofJson_str, counting]

/-! ## Compaction -/

lemma loadRecord_entryRecords
    (hkey : (entry.received.json.field "key" : Option String) = some key) (now : ℕ → String)
    (n : ℕ) :
    (entryRecords now n key entry).foldlM loadRecord journal =
      .ok { entries := journal.entries.set key entry
            recordCount := journal.recordCount + (entryRecords now n key entry).length } := by
  obtain ⟨received, response⟩ := entry
  rw [entryRecords, List.foldlM_cons, loadRecord_received hkey]
  cases response with
  | none => rfl
  | some response =>
    have hentry : (journal.counting (journal.entries.set key { received })).entries.get? key =
        some { received } := JsMap.get?_set_self ..
    have hres := @loadRecord_result _ _ _ response hentry (now n)
    simp only [counting, JsMap.set_set] at hres
    show ((journal.counting (journal.entries.set key { received })).loadRecord
      (resultJson key response (now n))).bind pure = _
    simp only [counting, hres]
    rfl

lemma loadRecord_compactedRecords {entries : List (String × JournalEntry)}
    (hkeys : ∀ binding ∈ entries,
      (binding.2.received.json.field "key" : Option String) = some binding.1)
    (now : ℕ → String) (n : ℕ) :
    (compactedRecords now n entries).foldlM loadRecord journal =
      .ok { entries := entries.foldl (fun map binding => map.set binding.1 binding.2)
              journal.entries
            recordCount := journal.recordCount + (compactedRecords now n entries).length } := by
  induction entries generalizing journal n with
  | nil => rfl
  | cons binding entries ih =>
    obtain ⟨key, entry⟩ := binding
    have hentry := @loadRecord_entryRecords journal key entry (hkeys (key, entry) (by simp)) now n
    rw [compactedRecords, List.foldlM_append, hentry]
    refine (ih (fun binding hbinding => hkeys binding (by simp [hbinding])) _).trans ?_
    rw [List.length_append, Nat.add_assoc, List.foldl_cons]

/-- **A compacted file** holds the journal. -/
theorem load_compact (hkeyed : journal.Keyed) (now : ℕ → String) :
    ∃ contents, (journal.compact now).2 = [.replace contents] ∧
      load (some contents) = .ok (journal.compact now).1 := by
  refine ⟨_, rfl, ?_⟩
  have hkeys : ∀ binding ∈ journal.entries.entries,
      (binding.2.received.json.field "key" : Option String) = some binding.1 := by
    intro binding hbinding
    exact hkeyed binding.1 binding.2 (JsMap.mem_entries_iff.mp hbinding)
  rw [load_eq_loadText, Option.getD_some, JsonLines.loadText_joinRecords,
    loadRecord_compactedRecords hkeys, JsMap.foldl_set_empty, Nat.zero_add]
  rfl

end CommandRecoveryJournal

end Amide
