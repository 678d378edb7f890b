import Amide.Construction.Session.Manager

/-!
# What a session file loads as

Loading reads the lines of a file and folds the attributions among them into the assistant
messages.  `applyChildUsageAttributions_eq_assign` writes that as one assignment, from which the
two facts the operations need follow: loading twice changes nothing more, and a line appended to
a file of whole lines loads as `extendEntries` says, which is what the manager does in memory.
-/

namespace Amide

open LineCodec
open FileEntry (assistantId? attribution? withUsage)

/-! ## Attributions -/

/-- The attributions among the entries, in order. -/
def attributions (entries : List FileEntry) : List (String × Usage) :=
  entries.filterMap attribution?

lemma assistantId?_withUsage (u : Usage) (f : FileEntry) :
    (f.withUsage u).assistantId? = f.assistantId? := by
  unfold withUsage
  split <;> rfl

lemma attribution?_withUsage (u : Usage) (f : FileEntry) :
    (f.withUsage u).attribution? = f.attribution? := by
  unfold withUsage
  split <;> rfl

lemma withUsage_withUsage (u v : Usage) (f : FileEntry) :
    (f.withUsage v).withUsage u = f.withUsage u := by
  cases f with
  | session h => rfl
  | entry e =>
    obtain ⟨_, _, _, body⟩ := e
    cases body with
    | message m => cases m <;> rfl
    | _ => rfl

/-- An entry with its usage set. -/
def SessionEntry.setUsage (usage : Usage) (e : SessionEntry) : SessionEntry :=
  ((FileEntry.entry e).withUsage usage).asEntry.getD e

section
variable (usage : Usage) (e : SessionEntry)
include usage e

lemma withUsage_entry : (FileEntry.entry e).withUsage usage = .entry (e.setUsage usage) := by
  obtain ⟨_, _, _, body⟩ := e
  cases body with
  | message m => cases m <;> rfl
  | _ => rfl

@[simp] lemma id_setUsage : (e.setUsage usage).id = e.id := by
  obtain ⟨_, _, _, body⟩ := e
  cases body with
  | message m => cases m <;> rfl
  | _ => rfl

@[simp] lemma parentId_setUsage : (e.setUsage usage).parentId = e.parentId := by
  obtain ⟨_, _, _, body⟩ := e
  cases body with
  | message m => cases m <;> rfl
  | _ => rfl

end

/-- The usage each assistant entry ends up with, written as one assignment. -/
def assignUsages (kvs : List (String × Usage)) : List FileEntry → List FileEntry :=
  AssignLast.assign assistantId? withUsage (AssignLast.latest kvs)

lemma foldl_setUsage_eq_assign (kvs : List (String × Usage)) (entries : List FileEntry) :
    kvs.foldl (fun es a => setUsage a.1 a.2 es) entries = assignUsages kvs entries :=
  AssignLast.foldl_assignOne assistantId?_withUsage withUsage_withUsage kvs entries

lemma applyChildUsageAttributions_eq_assign (entries : List FileEntry) :
    applyChildUsageAttributions entries = assignUsages (attributions entries) entries :=
  foldl_setUsage_eq_assign _ _

@[simp] lemma attributions_assign (f : String → Option Usage) (entries : List FileEntry) :
    attributions (AssignLast.assign assistantId? withUsage f entries) = attributions entries :=
  AssignLast.filterMap_assign _ attribution?_withUsage f entries

lemma attributions_applyChildUsageAttributions (entries : List FileEntry) :
    attributions (applyChildUsageAttributions entries) = attributions entries := by
  rw [applyChildUsageAttributions_eq_assign, assignUsages, attributions_assign]

lemma applyChildUsageAttributions_idem (entries : List FileEntry) :
    applyChildUsageAttributions (applyChildUsageAttributions entries) =
      applyChildUsageAttributions entries := by
  rw [applyChildUsageAttributions_eq_assign, attributions_applyChildUsageAttributions,
    applyChildUsageAttributions_eq_assign]
  exact AssignLast.assign_self assistantId?_withUsage withUsage_withUsage _ _

/-! ## One more entry -/

/-- The entries after an append: an attribution is folded into its target, and the entry comes to
the end. -/
def extendEntries (entries : List FileEntry) (e : SessionEntry) : List FileEntry :=
  (match attribution? (.entry e) with
    | none => entries
    | some (targetId, usage) => setUsage targetId usage entries) ++ [.entry e]

/-- What the usage has no part in is extended by the entry. -/
theorem map_extendEntries {β : Type} {g : SessionEntry → β}
    (hg : ∀ usage e, g (SessionEntry.setUsage usage e) = g e) (entries : List FileEntry)
    (e : SessionEntry) :
    (sessionEntries (extendEntries entries e)).map g = (sessionEntries entries).map g ++ [g e] := by
  have hmap : ∀ es : List FileEntry, (sessionEntries es).map g =
      es.filterMap fun f => f.asEntry.map g := by
    intro es
    rw [sessionEntries, List.map_filterMap]
  have hset : ∀ t u, (sessionEntries (setUsage t u entries)).map g =
      (sessionEntries entries).map g := by
    intro t u
    rw [hmap, hmap]
    refine AssignLast.filterMap_assign _ (fun u f => ?_) _ _
    cases f with
    | session h => rfl
    | entry e => simp [withUsage_entry, hg]
  unfold extendEntries
  split
  · simp
  · simp [hset]

/-- No attribution among the entries names the entry, were it an assistant message. -/
def Untargeted (entries : List FileEntry) (e : SessionEntry) : Prop :=
  e.isAssistant = true → e.id ∉ (attributions entries).map Prod.fst

variable {e : SessionEntry}

lemma isAssistant_of_attribution? {p : String × Usage}
    (h : attribution? (.entry e) = some p) : e.isAssistant = false := by
  obtain ⟨_, _, _, body⟩ := e
  cases body <;> first | rfl | cases h

lemma assistantId?_entry_of_false (h : e.isAssistant = false) :
    assistantId? (.entry e) = none := by
  simp [assistantId?, h]

/-- Assigning usages to a list with one more entry. -/
theorem assignUsages_concat {kvs : List (String × Usage)}
    (he : e.isAssistant = true → e.id ∉ kvs.map Prod.fst) (entries : List FileEntry) :
    assignUsages kvs (entries ++ [.entry e]) = assignUsages kvs entries ++ [.entry e] := by
  cases hassist : e.isAssistant with
  | false =>
    exact AssignLast.assign_concat_of_key_none entries (assistantId?_entry_of_false hassist)
  | true =>
    exact AssignLast.assign_concat_of_none entries (k := e.id)
      (by simp [assistantId?, hassist])
      (AssignLast.latest_eq_none_iff.mpr (he hassist))

variable {entries : List FileEntry}

/-- Folding the attributions of a list with one more entry. -/
theorem applyChildUsageAttributions_concat (he : Untargeted entries e) :
    applyChildUsageAttributions (entries ++ [.entry e]) =
      extendEntries (applyChildUsageAttributions entries) e := by
  rw [applyChildUsageAttributions_eq_assign, applyChildUsageAttributions_eq_assign, extendEntries]
  cases hattr : attribution? (.entry e) with
  | none =>
    have hsame : attributions (entries ++ [.entry e]) = attributions entries := by
      simp [attributions, hattr]
    rw [hsame, assignUsages_concat he]
  | some p =>
    have hsame : attributions (entries ++ [.entry e]) = attributions entries ++ [p] := by
      simp [attributions, hattr]
    have hassist := isAssistant_of_attribution? hattr
    rw [hsame, assignUsages_concat (fun h => by simp [hassist] at h)]
    rw [← foldl_setUsage_eq_assign, List.foldl_append, List.foldl_cons, List.foldl_nil,
      foldl_setUsage_eq_assign]

/-- Entries in memory whose attributions are folded stay so. -/
theorem applyChildUsageAttributions_extendEntries
    (h : applyChildUsageAttributions entries = entries) (he : Untargeted entries e) :
    applyChildUsageAttributions (extendEntries entries e) = extendEntries entries e := by
  have hconcat := applyChildUsageAttributions_concat he
  rw [h] at hconcat
  rw [← hconcat, applyChildUsageAttributions_idem]

/-! ## Files -/

lemma fileContent_eq_write (h : entries ≠ []) :
    fileContent entries = sessionCodec.write entries := by
  unfold fileContent
  induction entries with
  | nil => exact absurd rfl h
  | cons f fs ih =>
    cases fs with
    | nil => simp [LineCodec.line]
    | cons g gs =>
      have ih := ih (by simp)
      rw [List.map_cons] at ih
      rw [List.map_cons, List.map_cons, List.intercalate_cons_cons, List.append_assoc,
        List.append_assoc, ih, write_cons, write_cons, write_cons, LineCodec.line, LineCodec.line]
      simp

/-- The entries have a header in front and their attributions folded. -/
structure Loaded (entries : List FileEntry) : Prop where
  header : ∃ h rest, entries = .session h :: rest
  folded : applyChildUsageAttributions entries = entries

lemma Loaded.ne_nil (h : Loaded entries) : entries ≠ [] := by
  obtain ⟨h, rest, rfl⟩ := h.header
  simp

/-- The session file, if it is there, loads as the given entries. -/
def LoadsAs (content : List UInt8) (entries : List FileEntry) : Prop :=
  finalizeLoadedEntries (parseEntriesFromBuffer content) = entries

variable {content : List UInt8}

lemma LoadsAs.load {files : Files} {path : String}
    (h : LoadsAs content entries) (hfile : files path = some content) :
    loadEntriesFromFile files path = entries := by
  rw [loadEntriesFromFile, hfile]
  exact h

lemma finalizeLoadedEntries_eq (h : Loaded entries) :
    finalizeLoadedEntries entries = entries := by
  obtain ⟨⟨h, rest, rfl⟩, hfold⟩ := h
  exact hfold

/-- **What is written is what is loaded.** -/
theorem loadsAs_fileContent (h : Loaded entries) : LoadsAs (fileContent entries) entries := by
  rw [LoadsAs, fileContent_eq_write h.ne_nil, parseEntriesFromBuffer, read_write,
    finalizeLoadedEntries_eq h]

lemma loadsAs_write (h : Loaded entries) : LoadsAs (sessionCodec.write entries) entries :=
  fileContent_eq_write h.ne_nil ▸ loadsAs_fileContent h

/-- **Rewriting a file loses nothing** that was loaded from it, whatever bytes it held. -/
theorem loadsAs_rewritten (content : List UInt8) :
    let entries := finalizeLoadedEntries (parseEntriesFromBuffer content)
    LoadsAs (fileContent entries) entries := by
  unfold finalizeLoadedEntries
  split
  · rename_i h rest heq
    refine loadsAs_fileContent ⟨?_, applyChildUsageAttributions_idem _⟩
    rw [heq, applyChildUsageAttributions_eq_assign]
    exact ⟨h, _, rfl⟩
  · rfl

lemma terminated_fileContent (entries : List FileEntry) : Terminated (fileContent entries) :=
  terminated_append_lf _

/-- An entry appended to a file of whole lines. -/
theorem loadsAs_append_line (hterm : Terminated content)
    (hload : LoadsAs content entries) (hne : entries ≠ []) (he : Untargeted entries e) :
    LoadsAs (content ++ sessionCodec.line (.entry e)) (extendEntries entries e) := by
  unfold LoadsAs parseEntriesFromBuffer at hload ⊢
  rw [sessionCodec.read_append hterm, read_line]
  cases hread : sessionCodec.read content with
  | nil => exact absurd (by rw [← hload, hread]; rfl) hne
  | cons f fs =>
    cases f with
    | entry e' => exact absurd (by rw [← hload, hread]; rfl) hne
    | session h =>
      rw [hread] at hload
      change applyChildUsageAttributions (.session h :: fs) = entries at hload
      change applyChildUsageAttributions (.session h :: fs ++ [.entry e]) = _
      have he' : Untargeted (.session h :: fs) e := by
        have hattr := attributions_applyChildUsageAttributions (.session h :: fs)
        rw [hload] at hattr
        unfold Untargeted at he ⊢
        rwa [← hattr]
      rw [applyChildUsageAttributions_concat he', hload]

/-- The whole of a line that was cut short of nothing. -/
theorem take_line_of_length_le {written : ℕ} (h : (sessionCodec.line (.entry e)).length ≤ written) :
    (sessionCodec.line (.entry e)).take written = sessionCodec.line (.entry e) :=
  List.take_of_length_le h

end Amide
