import Amide.Framework.ListOrder
import Amide.Properties.Refinement.Edits

/-!
# Changes in the meantime

A proposal is planned with the harness as it stands, its baseline.  While it is applied, an entry
that differs from the baseline is not written (`Keeping.changed`), and any other stands as it stood
until the proposal itself has written it (`Keeping.unmodified`), so that an edit of it is never in
conflict.  Applying fails as a whole at a name that every object inherits and that is no entry of
both states (`Answerable`).
-/

namespace Amide

/-! ## What is claimed -/

/-- The text that an entry is compared by. -/
def serialized (records : JsMap String HarnessEntry) (id : String) :
    Except String (Option (List UInt8)) :=
  (lookupRecord records id).map entryText

/-- The entry is not the one that the proposal was planned with. -/
def ChangedEntry (entries baseline : HarnessEntries) (kind : RefinementKind) (id : String) : Prop :=
  serialized (entries kind) id ≠ serialized (baseline kind) id

/-- The edit is about the entry. -/
def NamesEntry (edit : RefinementEdit) (kind : RefinementKind) (id : String) : Prop :=
  editId edit = .ok id ∧ edit.kind = .known kind

def NamesUnchanged (entries baseline : HarnessEntries) (edit : RefinementEdit) : Prop :=
  ∀ kind id, NamesEntry edit kind id → ¬ ChangedEntry entries baseline kind id

/-- With the baseline and without. -/
def ApplyOptions.planned (options : ApplyOptions) (baseline : HarnessState) : ApplyOptions :=
  { options with baselineState := some baseline }

def ApplyOptions.unplanned (options : ApplyOptions) : ApplyOptions :=
  { options with baselineState := none }

section Claim

variable (host : RefineHost) (options : ApplyOptions) (state baseline : HarnessState)
  (proposal : RefinementProposal)

/-- What the proposal does to entries that were changed in the meantime, and to the others. -/
structure KeepsChanges (state' : HarnessState) (result : RefinementResult) : Prop where
  kept : ∀ kind id, ChangedEntry state.entries baseline.entries kind id →
    (state'.entries kind).get? id = (state.entries kind).get? id
  reported : result.appliedEdits.map AppliedRefinementEdit.edit = proposal.edits
  refused : ∀ appliedEdit ∈ result.appliedEdits, ∀ kind id, NamesEntry appliedEdit.edit kind id →
    ChangedEntry state.entries baseline.entries kind id → appliedEdit.applied = false
  alike : ∀ before edit after s as, proposal.edits = before ++ edit :: after →
    applyEdits host (options.planned baseline) ⟨state.entries, []⟩ before = .ok (s, as) →
      NamesUnchanged state.entries baseline.entries edit →
        applyEdit host (options.planned baseline) s edit = applyEdit host options.unplanned s edit
  asUnplanned : ∀ state'' result',
    applyRefinementProposal host options.unplanned state proposal = .ok (state'', result') →
      List.Forall₂ (fun a a' => NamesUnchanged state.entries baseline.entries a.edit → a = a')
          result.appliedEdits result'.appliedEdits ∧
        ∀ kind id, ¬ ChangedEntry state.entries baseline.entries kind id →
          (state'.entries kind).get? id = (state''.entries kind).get? id

/-- The proposal is applied, and no change is lost. -/
def NeverOverwrites : Prop :=
  ∃ state' result,
    applyRefinementProposal host (options.planned baseline) state proposal = .ok (state', result) ∧
      KeepsChanges host options state baseline proposal state' result

end Claim

/-- Every edit has an id, and one that passes its check names an inherited member only where both
states have an entry of that name, which no edit before it deletes. -/
def Answerable (entries baseline : HarnessEntries) (edits : List RefinementEdit) : Prop :=
  ∀ before edit after, edits = before ++ edit :: after → ∃ id, editId edit = .ok id ∧
    ∀ action kind, ValidEdit edit action kind id → id ∈ objectPrototype →
      (entries kind).has id = true ∧ (baseline kind).has id = true ∧
        (ChangedEntry entries baseline kind id ∨
          ∀ earlier ∈ before, ¬ ValidEdit earlier .delete kind id)

section Steps

variable {host : RefineHost} {options : ApplyOptions} {entries : HarnessEntries}
  {baseline : HarnessState} {s s' r r' : EditState} {edit : RefinementEdit}
  {edits before : List RefinementEdit} {a b : AppliedRefinementEdit}
  {as bs : List AppliedRefinementEdit} {kind : RefinementKind} {id : String}
  {action : RefinementAction}

lemma ValidEdit.names (h : ValidEdit edit action kind id) : NamesEntry edit kind id :=
  ⟨h.named, h.kind⟩

lemma lookupRecord_congr {records records' : JsMap String HarnessEntry}
    (h : records.get? id = records'.get? id) :
    lookupRecord records id = lookupRecord records' id := by
  rw [lookupRecord, h, ← lookupRecord]

/-! ## In the course of a proposal -/

/-- Changed entries are not written, and the others stand as they stood until the proposal has
written them.  What every object inherits is never made an entry. -/
structure Keeping (entries baseline : HarnessEntries) (s : EditState) : Prop where
  changed : ∀ {kind id}, ChangedEntry entries baseline kind id → (kind, id) ∉ s.proposalModifiedKeys
  unmodified : ∀ {kind id}, (kind, id) ∉ s.proposalModifiedKeys →
    (s.entries kind).get? id = (entries kind).get? id
  inherited : ∀ {kind id}, id ∈ objectPrototype → (entries kind).get? id = none →
    (s.entries kind).get? id = none

lemma keeping_start (entries baseline : HarnessEntries) : Keeping entries baseline ⟨entries, []⟩ :=
  ⟨fun _ => List.not_mem_nil, fun _ => rfl, fun _ h => h⟩

variable {entry : Option HarnessEntry}

/-- An edit is in conflict just when its entry was changed. -/
lemma Keeping.isConflict_iff (hs : Keeping entries baseline.entries s)
    {planned : Option HarnessEntry} (hentry : lookupRecord (s.entries kind) id = .ok entry)
    (hplanned : lookupRecord (baseline.entries kind) id = .ok planned) :
    isConflict (options.planned baseline) s kind id entry planned = true ↔
      ChangedEntry entries baseline.entries kind id := by
  by_cases hkey : (kind, id) ∈ s.proposalModifiedKeys
  · have hnot : ¬ ChangedEntry entries baseline.entries kind id := fun h => hs.changed h hkey
    simp [isConflict, hkey, hnot]
  · rw [lookupRecord_congr (hs.unmodified hkey)] at hentry
    rw [ChangedEntry, serialized, serialized, hentry, hplanned]
    simp [isConflict, hkey, ApplyOptions.planned, Except.map]

/-- Only entries that were not changed are found. -/
lemma Keeping.not_changed_of_found (hs : Keeping entries baseline.entries s)
    (h : Found (options.planned baseline) s kind id entry) :
    ¬ ChangedEntry entries baseline.entries kind id := by
  obtain ⟨planned, hplanned, hconf⟩ := h.unchanged
  rw [← hs.isConflict_iff h.lookup hplanned, hconf]
  exact Bool.false_ne_true

lemma get?_eq_none_of_inherited (hid : id ∈ objectPrototype)
    (h : EditEffect host options s edit s' a) (hnone : (s.entries kind).get? id = none) :
    (s'.entries kind).get? id = none := by
  refine h.preserves (Q := fun entry => entry = none) (fun action before _ _ _ hbefore => ?_)
    (fun _ => rfl) hnone
  rw [lookupRecord, hnone] at hbefore
  simp only [if_pos hid] at hbefore
  cases hbefore

/-- An entry that the edit does not name stays. -/
lemma EditEffect.get?_of_not_names (h : EditEffect host options s edit s' a)
    (hnames : ¬ NamesEntry edit kind id) :
    (s'.entries kind).get? id = (s.entries kind).get? id :=
  h.preserves (Q := fun entry => entry = (s.entries kind).get? id)
    (fun _ _ hvalid => absurd hvalid.names hnames) (fun hvalid => absurd hvalid.names hnames) rfl

lemma Keeping.step (hs : Keeping entries baseline.entries s)
    (h : EditEffect host (options.planned baseline) s edit s' a) :
    Keeping entries baseline.entries s' := by
  refine ⟨fun {kind' id'} hchanged => ?_, fun {kind' id'} hkey => ?_, fun hid hnone =>
    get?_eq_none_of_inherited hid h (hs.inherited hid hnone)⟩
  · cases h with
    | refused => exact hs.changed hchanged
    | written _ _ hfound _ | deleted _ hfound =>
      rw [mem_modify, not_or]
      refine ⟨?_, hs.changed hchanged⟩
      rintro ⟨rfl, rfl⟩
      exact hs.not_changed_of_found hfound hchanged
  · cases h with
    | refused => exact hs.unmodified hkey
    | written _ _ _ _ =>
      rw [mem_modify, not_or] at hkey
      rw [← hs.unmodified hkey.2, get?_modify, get?_setRecord]
      grind
    | deleted _ _ =>
      rw [mem_modify, not_or] at hkey
      rw [← hs.unmodified hkey.2, get?_deleted, if_neg hkey.1]

lemma Keeping.run (hs : Keeping entries baseline.entries s)
    (h : applyEdits host (options.planned baseline) s edits = .ok (s', as)) :
    Keeping entries baseline.entries s' := by
  induction edits generalizing s as with
  | nil =>
    cases h
    exact hs
  | cons edit edits ih =>
    obtain ⟨⟨s₁, a⟩, hedit, h⟩ := Except.of_bind h
    obtain ⟨⟨s₂, as'⟩, hedits, h⟩ := Except.of_bind h
    cases h
    exact ih (hs.step (applyEdit_effect hedit)) hedits

/-! ## One edit, with the baseline and without -/

lemma EditEffect.edit_eq (h : EditEffect host options s edit s' a) : a.edit = edit := by
  cases h with
  | refused => rfl
  | written _ _ _ _ => rfl
  | deleted _ _ => rfl

/-- An edit of a changed entry comes to nothing. -/
lemma Keeping.refused (hs : Keeping entries baseline.entries s)
    (h : EditEffect host (options.planned baseline) s edit s' a) (hnames : NamesEntry edit kind id)
    (hchanged : ChangedEntry entries baseline.entries kind id) : a.applied = false ∧ s' = s := by
  have hsame {kind' id'} {action : RefinementAction} (hvalid : ValidEdit edit action kind' id') :
      ChangedEntry entries baseline.entries kind' id' := by
    have hid := hnames.1.symm.trans hvalid.named
    have hkind := hnames.2.symm.trans hvalid.kind
    cases hid
    cases hkind
    exact hchanged
  cases h with
  | refused => exact ⟨rfl, rfl⟩
  | written hvalid _ hfound _ | deleted hvalid hfound =>
    exact absurd (hsame hvalid) (hs.not_changed_of_found hfound)

lemma exists_lookupRecord_iff {records : JsMap String HarnessEntry} :
    (∃ entry, lookupRecord records id = .ok entry) ↔
      (id ∈ objectPrototype → records.has id = true) := by
  rw [JsMap.has_iff]
  constructor
  · rintro ⟨entry, hentry⟩ hid
    by_contra hnone
    rw [lookupRecord, Option.eq_none_iff_forall_not_mem.mpr fun entry h => hnone ⟨entry, h⟩]
      at hentry
    simp only [if_pos hid] at hentry
    cases hentry
  · intro hid
    cases hlookup : lookupRecord records id with
    | ok entry => exact ⟨entry, rfl⟩
    | error message =>
      obtain ⟨hnone, hmem⟩ := lookupRecord_eq_error hlookup
      obtain ⟨entry, hentry⟩ := hid hmem
      rw [hnone] at hentry
      cases hentry

/-- Where an entry that was not changed is found, the baseline's is. -/
lemma Keeping.exists_planned (hs : Keeping entries baseline.entries s)
    (hunchanged : ¬ ChangedEntry entries baseline.entries kind id)
    (hentry : lookupRecord (s.entries kind) id = .ok entry) :
    ∃ planned, lookupRecord (baseline.entries kind) id = .ok planned := by
  have hfirst : ∃ first, lookupRecord (entries kind) id = .ok first := by
    rw [exists_lookupRecord_iff]
    intro hid
    have hhas := exists_lookupRecord_iff.mp ⟨entry, hentry⟩ hid
    cases hnone : (entries kind).get? id with
    | some first => exact JsMap.has_iff.mpr ⟨first, hnone⟩
    | none =>
      rw [JsMap.has, hs.inherited hid hnone] at hhas
      cases hhas
  obtain ⟨first, hfirst⟩ := hfirst
  have hsame := not_not.mp hunchanged
  rw [serialized, serialized, hfirst] at hsame
  obtain ⟨planned, hplanned, -⟩ := Except.map_eq_ok_iff.mp hsame.symm
  exact ⟨planned, hplanned⟩

/-- An edit of entries that were not changed is applied as without a baseline. -/
lemma Keeping.applyEdit_eq (hs : Keeping entries baseline.entries s)
    (hsame : NamesUnchanged entries baseline.entries edit) :
    applyEdit host (options.planned baseline) s edit = applyEdit host options.unplanned s edit := by
  cases hid : editId edit with
  | error message =>
    rw [applyEdit, applyEdit, hid]
    rfl
  | ok id =>
    cases herror : validateEdit edit id with
    | some error => rw [applyEdit_of_refused hid herror, applyEdit_of_refused hid herror]
    | none =>
      obtain ⟨action, kind, hvalid⟩ := exists_validEdit hid herror
      rw [applyEdit_of_valid hvalid, applyEdit_of_valid hvalid]
      cases hentry : lookupRecord (s.entries kind) id with
      | error message =>
        rw [applyValidEdit, applyValidEdit, hentry]
        rfl
      | ok entry =>
        have hnot := hsame kind id hvalid.names
        obtain ⟨planned, hplanned⟩ := hs.exists_planned hnot hentry
        have hconf : isConflict (options.planned baseline) s kind id entry planned = false := by
          rw [← Bool.not_eq_true, hs.isConflict_iff hentry hplanned]
          exact hnot
        have hbase : baselineEntry (options.planned baseline) kind id = .ok planned := hplanned
        have hnone : baselineEntry options.unplanned kind id = .ok none := rfl
        rw [applyValidEdit_eq hentry hbase hconf, applyValidEdit_eq hentry hnone rfl]
        rfl

/-! ## The same edits without the baseline -/

/-- The entries that were not changed are the same. -/
def SameUnchanged (entries baseline entries₁ entries₂ : HarnessEntries) : Prop :=
  ∀ kind id, ¬ ChangedEntry entries baseline kind id →
    (entries₁ kind).get? id = (entries₂ kind).get? id

/-- What an edit without a baseline does is a matter of the entry that it names. -/
lemma applyEdit_congr
    (hsame : ∀ kind id, NamesEntry edit kind id →
      (r.entries kind).get? id = (s.entries kind).get? id)
    (hr : applyEdit host options.unplanned r edit = .ok (r', b))
    (hs : applyEdit host options.unplanned s edit = .ok (s', a)) :
    a = b ∧ ∀ kind id, (r.entries kind).get? id = (s.entries kind).get? id →
      (r'.entries kind).get? id = (s'.entries kind).get? id := by
  obtain ⟨id, hid, -⟩ := Except.of_bind hr
  cases herror : validateEdit edit id with
  | some error =>
    rw [applyEdit_of_refused hid herror] at hr hs
    cases hr
    cases hs
    exact ⟨rfl, fun _ _ h => h⟩
  | none =>
    obtain ⟨action, kind, hvalid⟩ := exists_validEdit hid herror
    have hentry := hsame kind id hvalid.names
    have hnone : baselineEntry options.unplanned kind id = .ok none := rfl
    rw [applyEdit_of_valid hvalid] at hr hs
    obtain ⟨before, hbefore, -⟩ := Except.of_bind hr
    have hbefore' := hbefore
    rw [lookupRecord_congr hentry] at hbefore'
    rw [applyValidEdit_eq hbefore hnone rfl] at hr
    rw [applyValidEdit_eq hbefore' hnone rfl] at hs
    have hset (after : HarnessEntry) (kind' : RefinementKind) (id' : String)
        (h : (r.entries kind').get? id' = (s.entries kind').get? id') :
        ((r.modify kind id (setRecord (r.entries kind) id after)).entries kind').get? id' =
          ((s.modify kind id (setRecord (s.entries kind) id after)).entries kind').get? id' := by
      rw [get?_modify, get?_modify, get?_setRecord, get?_setRecord]
      grind
    have hdelete (kind' : RefinementKind) (id' : String)
        (h : (r.entries kind').get? id' = (s.entries kind').get? id') :
        ((r.modify kind id ((r.entries kind).delete id)).entries kind').get? id' =
          ((s.modify kind id ((s.entries kind).delete id)).entries kind').get? id' := by
      rw [get?_deleted, get?_deleted, h]
    cases action with
    | delete =>
      cases before with
      | none =>
        cases hr
        cases hs
        exact ⟨rfl, fun _ _ h => h⟩
      | some entry =>
        cases hr
        cases hs
        exact ⟨rfl, hdelete⟩
    | create =>
      cases before with
      | none =>
        cases hr
        cases hs
        exact ⟨rfl, hset _⟩
      | some entry =>
        cases hr
        cases hs
        exact ⟨rfl, fun _ _ h => h⟩
    | update =>
      cases before with
      | none =>
        cases hr
        cases hs
        exact ⟨rfl, fun _ _ h => h⟩
      | some entry =>
        cases hr
        cases hs
        exact ⟨rfl, hset _⟩

section
variable (hs : Keeping entries baseline.entries s)
  (hsame : SameUnchanged entries baseline.entries s.entries r.entries)
include hs hsame

/-- One edit with the baseline and without: on entries that were not changed it does the same. -/
lemma Keeping.sameUnchanged_step
    (hplanned : applyEdit host (options.planned baseline) s edit = .ok (s', a))
    (hunplanned : applyEdit host options.unplanned r edit = .ok (r', b)) :
    SameUnchanged entries baseline.entries s'.entries r'.entries ∧
      (NamesUnchanged entries baseline.entries edit → a = b) := by
  by_cases hnames : NamesUnchanged entries baseline.entries edit
  · rw [hs.applyEdit_eq hnames] at hplanned
    obtain ⟨heq, hentries⟩ := applyEdit_congr
      (fun kind id hnamed => hsame kind id (hnames kind id hnamed)) hplanned hunplanned
    exact ⟨fun kind id hnot => hentries kind id (hsame kind id hnot), fun _ => heq.symm⟩
  · refine ⟨fun kind id hnot => ?_, fun h => absurd h hnames⟩
    rw [NamesUnchanged] at hnames
    push Not at hnames
    obtain ⟨kind', id', hnamed, hchanged⟩ := hnames
    have hother : ¬ NamesEntry edit kind id := by
      intro hnamed'
      have hid := hnamed.1.symm.trans hnamed'.1
      have hkind := hnamed.2.symm.trans hnamed'.2
      cases hid
      cases hkind
      exact hnot hchanged
    rw [(hs.refused (applyEdit_effect hplanned) hnamed hchanged).2,
      (applyEdit_effect hunplanned).get?_of_not_names hother]
    exact hsame kind id hnot

lemma Keeping.sameUnchanged_run
    (hplanned : applyEdits host (options.planned baseline) s edits = .ok (s', as))
    (hunplanned : applyEdits host options.unplanned r edits = .ok (r', bs)) :
    SameUnchanged entries baseline.entries s'.entries r'.entries ∧
      List.Forall₂ (fun a b => NamesUnchanged entries baseline.entries a.edit → a = b) as bs := by
  induction edits generalizing s r as bs with
  | nil =>
    cases hplanned
    cases hunplanned
    exact ⟨hsame, .nil⟩
  | cons edit edits ih =>
    obtain ⟨⟨s₁, a⟩, hedit, h⟩ := Except.of_bind hplanned
    obtain ⟨⟨s₂, as'⟩, hedits, h⟩ := Except.of_bind h
    cases h
    obtain ⟨⟨r₁, b⟩, hedit', h⟩ := Except.of_bind hunplanned
    obtain ⟨⟨r₂, bs'⟩, hedits', h⟩ := Except.of_bind h
    cases h
    obtain ⟨hsame₁, heq⟩ := hs.sameUnchanged_step hsame hedit hedit'
    obtain ⟨hsame₂, hrest⟩ := ih (hs.step (applyEdit_effect hedit)) hsame₁ hedits hedits'
    refine ⟨hsame₂, .cons ?_ hrest⟩
    rw [(applyEdit_effect hedit).edit_eq]
    exact heq

end

/-! ## When a proposal is applied at all -/

lemma exists_applyEdit_iff :
    (∃ s' a, applyEdit host (options.planned baseline) s edit = .ok (s', a)) ↔
      ∃ id, editId edit = .ok id ∧ ∀ action kind, ValidEdit edit action kind id →
        id ∈ objectPrototype →
          (s.entries kind).has id = true ∧ (baseline.entries kind).has id = true := by
  constructor
  · rintro ⟨s', a, h⟩
    obtain ⟨id, hid, -⟩ := Except.of_bind h
    refine ⟨id, hid, fun action kind hvalid hmem => ?_⟩
    rw [applyEdit_of_valid hvalid] at h
    obtain ⟨entry, hentry, h⟩ := Except.of_bind h
    obtain ⟨planned, hplanned, -⟩ := Except.of_bind h
    exact ⟨exists_lookupRecord_iff.mp ⟨entry, hentry⟩ hmem,
      exists_lookupRecord_iff.mp ⟨planned, hplanned⟩ hmem⟩
  · rintro ⟨id, hid, hfound⟩
    cases herror : validateEdit edit id with
    | some error => exact ⟨_, _, applyEdit_of_refused hid herror⟩
    | none =>
      obtain ⟨action, kind, hvalid⟩ := exists_validEdit hid herror
      obtain ⟨entry, hentry⟩ :=
        exists_lookupRecord_iff.mpr fun hmem => (hfound action kind hvalid hmem).1
      obtain ⟨planned, hplanned⟩ :=
        exists_lookupRecord_iff.mpr fun hmem => (hfound action kind hvalid hmem).2
      have hbase : baselineEntry (options.planned baseline) kind id = .ok planned := hplanned
      rw [applyEdit_of_valid hvalid, applyValidEdit, hentry]
      simp only [hbase, bind, Except.bind]
      split_ifs
      · exact ⟨_, _, rfl⟩
      · exact ⟨_, _, rfl⟩

/-- What is left of the entries under inherited names: those that were changed, and those that no
edit deletes. -/
def InheritedLeft (entries baseline : HarnessEntries) (before : List RefinementEdit)
    (s : EditState) : Prop :=
  ∀ kind id, id ∈ objectPrototype → ((s.entries kind).has id = true ↔
    (entries kind).has id = true ∧ (ChangedEntry entries baseline kind id ∨
      ∀ earlier ∈ before, ¬ ValidEdit earlier .delete kind id))

lemma inheritedLeft_start : InheritedLeft entries baseline.entries [] ⟨entries, []⟩ := by
  intro kind id _
  exact ⟨fun h => ⟨h, .inr fun _ hmem => absurd hmem List.not_mem_nil⟩, fun h => h.1⟩

lemma EditEffect.has_of_inherited (h : EditEffect host options s edit s' a)
    (hid : id ∈ objectPrototype) (hdelete : ¬ ValidEdit edit .delete kind id) :
    (s'.entries kind).has id = (s.entries kind).has id := by
  have hwrite : ∀ action before, ValidEdit edit action kind id → action ≠ .delete →
      id ≠ "__proto__" → lookupRecord (s.entries kind) id = .ok before →
        (some (writtenEntry host options edit kind id before)).isSome =
          (s.entries kind).has id := by
    intro action before _ _ _ hbefore
    rw [exists_lookupRecord_iff.mp ⟨before, hbefore⟩ hid, Option.isSome_some]
  exact h.preserves (Q := fun entry => entry.isSome = (s.entries kind).has id) hwrite
    (fun hvalid => absurd hvalid hdelete) rfl

lemma InheritedLeft.step (hleft : InheritedLeft entries baseline.entries before s)
    (hs : Keeping entries baseline.entries s)
    (h : applyEdit host (options.planned baseline) s edit = .ok (s', a)) :
    InheritedLeft entries baseline.entries (before ++ [edit]) s' := by
  intro kind id hid
  have heffect := applyEdit_effect h
  have hafter := hs.step heffect
  by_cases hchanged : ChangedEntry entries baseline.entries kind id
  · rw [JsMap.has, hafter.unmodified (hafter.changed hchanged)]
    exact ⟨fun h => ⟨h, .inl hchanged⟩, fun h => h.1⟩
  · by_cases hdelete : ValidEdit edit .delete kind id
    · -- the entry is there, or looking it up would have failed, and is deleted
      have hgone : (s'.entries kind).has id = false := by
        rw [applyEdit_of_valid hdelete] at h
        obtain ⟨entry, hentry, h'⟩ := Except.of_bind h
        obtain ⟨planned, hplanned, -⟩ := Except.of_bind h'
        have hconf : isConflict (options.planned baseline) s kind id entry planned = false := by
          rw [← Bool.not_eq_true, hs.isConflict_iff hentry hplanned]
          exact hchanged
        rw [applyValidEdit_eq hentry hplanned hconf] at h
        cases entry with
        | none => exact absurd hid (lookupRecord_eq_ok_none_iff.mp hentry).2.1
        | some entry =>
          cases h
          rw [JsMap.has_eq_false_iff, get?_deleted, if_pos ⟨rfl, rfl⟩]
      rw [hgone]
      refine ⟨fun h => absurd h Bool.false_ne_true, fun h => ?_⟩
      exact absurd hdelete (h.2.resolve_left hchanged edit (by simp))
    · rw [heffect.has_of_inherited hid hdelete, hleft kind id hid, List.forall_mem_append,
        List.forall_mem_singleton]
      simp [hdelete]

lemma inheritedLeft_run
    (h : applyEdits host (options.planned baseline) ⟨entries, []⟩ edits = .ok (s, as)) :
    InheritedLeft entries baseline.entries edits s := by
  induction edits using List.reverseRecOn generalizing s as with
  | nil =>
    cases h
    exact inheritedLeft_start
  | append_singleton edits edit ih =>
    obtain ⟨s₁, as₁, as₂, hedits, hlast, -⟩ := applyEdits_append.mp h
    obtain ⟨⟨s₂, a⟩, hedit, h'⟩ := Except.of_bind hlast
    cases h'
    exact (ih hedits).step ((keeping_start _ _).run hedits) hedit

/-- A proposal is applied just when every name in it can be looked up. -/
lemma exists_applyEdits_iff :
    (∃ s as, applyEdits host (options.planned baseline) ⟨entries, []⟩ edits = .ok (s, as)) ↔
      Answerable entries baseline.entries edits := by
  induction edits using List.reverseRecOn with
  | nil =>
    refine ⟨fun _ before edit after h => ?_, fun _ => ⟨_, _, rfl⟩⟩
    simp at h
  | append_singleton edits edit ih =>
    have hstep {s : EditState} {as : List AppliedRefinementEdit}
        (h : applyEdits host (options.planned baseline) ⟨entries, []⟩ edits = .ok (s, as)) :
        (∃ s' a, applyEdit host (options.planned baseline) s edit = .ok (s', a)) ↔
          ∃ id, editId edit = .ok id ∧ ∀ action kind, ValidEdit edit action kind id →
            id ∈ objectPrototype →
              (entries kind).has id = true ∧ (baseline.entries kind).has id = true ∧
                (ChangedEntry entries baseline.entries kind id ∨
                  ∀ earlier ∈ edits, ¬ ValidEdit earlier .delete kind id) := by
      have hleft := inheritedLeft_run h
      rw [exists_applyEdit_iff]
      refine exists_congr fun id => and_congr_right fun _ => ?_
      refine forall₂_congr fun action kind => forall₂_congr fun _ hid => ?_
      rw [hleft kind id hid]
      tauto
    refine Iff.trans ?_ ((and_congr_left' ih).trans ListOrder.forall_split_concat_iff.symm)
    constructor
    · rintro ⟨s, as, h⟩
      obtain ⟨s₁, as₁, as₂, hedits, hlast, -⟩ := applyEdits_append.mp h
      obtain ⟨⟨s₂, a⟩, hedit, -⟩ := Except.of_bind hlast
      exact ⟨⟨s₁, as₁, hedits⟩, (hstep hedits).mp ⟨s₂, a, hedit⟩⟩
    · rintro ⟨⟨s₁, as₁, hedits⟩, hedit⟩
      obtain ⟨s₂, a, hedit⟩ := (hstep hedits).mpr hedit
      exact ⟨s₂, as₁ ++ [a], applyEdits_append.mpr ⟨s₁, as₁, [a], hedits,
        Except.bind_eq_ok_iff.mpr ⟨(s₂, a), hedit, rfl⟩, rfl⟩⟩

lemma Keeping.reported (hs : Keeping entries baseline.entries s)
    (h : applyEdits host (options.planned baseline) s edits = .ok (s', as)) :
    as.map AppliedRefinementEdit.edit = edits ∧ ∀ a ∈ as, ∀ kind id, NamesEntry a.edit kind id →
        ChangedEntry entries baseline.entries kind id → a.applied = false := by
  induction edits generalizing s as with
  | nil =>
    cases h
    exact ⟨rfl, fun _ hmem => absurd hmem List.not_mem_nil⟩
  | cons edit edits ih =>
    obtain ⟨⟨s₁, a⟩, hedit, h⟩ := Except.of_bind h
    obtain ⟨⟨s₂, as'⟩, hedits, h⟩ := Except.of_bind h
    cases h
    have heffect := applyEdit_effect hedit
    obtain ⟨hmap, hrest⟩ := ih (hs.step heffect) hedits
    rw [List.map_cons, hmap, List.forall_mem_cons, heffect.edit_eq]
    exact ⟨rfl, fun kind id hnames hchanged => (hs.refused heffect hnames hchanged).1, hrest⟩

end Steps

section Theorem

variable {host : RefineHost} {options : ApplyOptions} {state baseline : HarnessState}
  {proposal : RefinementProposal}

lemma NeverOverwrites.answerable (h : NeverOverwrites host options state baseline proposal) :
    Answerable state.entries baseline.entries proposal.edits := by
  obtain ⟨state', result, happly, -⟩ := h
  obtain ⟨⟨s, as⟩, hedits, -⟩ := Except.of_bind happly
  exact exists_applyEdits_iff.mp ⟨s, as, hedits⟩

lemma neverOverwrites_of_answerable
    (h : Answerable state.entries baseline.entries proposal.edits) :
    NeverOverwrites host options state baseline proposal := by
  have happlied : ∃ s as,
      applyEdits host (options.planned baseline) ⟨state.entries, []⟩ proposal.edits =
        .ok (s, as) := exists_applyEdits_iff.mpr h
  obtain ⟨s, as, hedits⟩ := happlied
  have hstart := keeping_start state.entries baseline.entries
  have hend := hstart.run hedits
  obtain ⟨hmap, hrefused⟩ := hstart.reported hedits
  refine ⟨_, _, Except.bind_eq_ok_iff.mpr ⟨(s, as), hedits, rfl⟩, ?_, hmap, hrefused, ?_, ?_⟩
  · exact fun kind id hchanged => hend.unmodified (hend.changed hchanged)
  · exact fun before edit after r bs _ hbefore => (hstart.run hbefore).applyEdit_eq
  · intro state'' result' happly
    obtain ⟨⟨r, bs⟩, hedits', happly⟩ := Except.of_bind happly
    cases happly
    obtain ⟨hsame, hrecords⟩ := hstart.sameUnchanged_run (fun _ _ _ => rfl) hedits hedits'
    exact ⟨hrecords, hsame⟩

end Theorem

/-- **When changes are safe**: a proposal overwrites no entry that was changed since it was
planned, and does to the others what it would have done without the comparison, if its names can
be looked up; else applying it throws. -/
theorem neverOverwrites_iff (host : RefineHost) (options : ApplyOptions)
    (state baseline : HarnessState) (proposal : RefinementProposal) :
    NeverOverwrites host options state baseline proposal ↔
      Answerable state.entries baseline.entries proposal.edits :=
  ⟨NeverOverwrites.answerable, neverOverwrites_of_answerable⟩

/-- A harness of one note. -/
def noteHarness (content : String) : HarnessState where
  entries kind := match kind with
    | .memory => JsMap.empty.set "a" { title := some (.str "A"), content := some (.str content) }
    | _ => .empty

/-- The note is to be updated, and another one made, titled "Constructor". -/
def constructorProposal : RefinementProposal where
  summary := "notes"
  rationale := "two findings"
  edits := [{ action := .known .update, kind := .known .memory, id := some "a",
              title := some (.str "A"), content := some (.str "from the plan") },
    { action := .known .create, kind := .known .memory, title := some (.str "Constructor"),
      content := some (.str "builds the state") }]
  expectedOutcome := "two notes"

/-- The note was changed in the meantime, but that is not reported: the second edit throws. -/
theorem not_neverOverwrites_constructor :
    ChangedEntry (noteHarness "by hand").entries (noteHarness "at first").entries .memory "a" ∧
      ¬ NeverOverwrites { now := "2024-01-01T12:00:00.000Z", increment := fun _ => .null }
        { id := "r1" } (noteHarness "by hand") (noteHarness "at first") constructorProposal := by
  constructor
  · unfold ChangedEntry
    decide +kernel
  · intro h
    obtain ⟨id, hid, hfound⟩ := h.answerable [_] _ [] rfl
    have hslug : id = "constructor" := by
      refine (Except.ok.inj (hid.symm.trans ?_))
      decide +kernel
    subst hslug
    have hvalid : ValidEdit constructorProposal.edits[1] .create .memory "constructor" :=
      ⟨hid, rfl, rfl, by decide +kernel⟩
    have hhas := (hfound .create .memory hvalid (by decide)).1
    exact absurd hhas (by decide +kernel)

end Amide
