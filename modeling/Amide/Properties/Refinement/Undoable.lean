import Amide.Properties.Refinement.Edits

/-!
# Undoing one edit after the other

An edit can be undone if the entry it finds can be put back by an edit that passes the same
checks (`Undoable`).  What the first edits of a proposal write can always be put back, so it is
enough to look at the entries as they were before the proposal (`UndoableEdit`), and the edits that
undo each of its edits make, last one first, the way back (`exists_undoes`).
-/

namespace Amide

open Option

/-- Every kind has the same ids, and the entries look the same. -/
def SameHarness (entries entries' : HarnessEntries) : Prop :=
  ∀ kind id, ((entries kind).get? id).map HarnessEntry.visible =
    ((entries' kind).get? id).map HarnessEntry.visible

/-- What an edit without a conflict needs of the entry it finds: a new one must have a name, one
that is changed or deleted must be restorable, and one that is deleted must have the scope that a
new one is given, and no name that every object has. -/
def Undoable (options : ApplyOptions) (kind : RefinementKind) (id : String)
    (action : RefinementAction) : Option HarnessEntry → Prop
  | none => action = .create → id ≠ ""
  | some entry =>
    (action ≠ .create → Restorable kind entry) ∧ (action = .delete →
        entry.scope = some (options.scope.getD .local) ∧ id ∉ objectPrototype)

/-- An edit that is refused for itself, or in conflict with the state the proposal was planned
with, needs nothing. -/
def UndoableEdit (options : ApplyOptions) (entries : HarnessEntries) (edit : RefinementEdit) :
    Prop :=
  ∃ id, editId edit = .ok id ∧ ∀ action kind, ValidEdit edit action kind id →
    ∃ before baseline, lookupRecord (entries kind) id = .ok before ∧
      baselineEntry options kind id = .ok baseline ∧
        (isConflict options ⟨entries, []⟩ kind id before baseline = false →
          Undoable options kind id action before)

/-! ## Entries under their names -/

variable {records : JsMap String HarnessEntry}

section Entries

variable {entries entries' : HarnessEntries} {kind : RefinementKind} {id : String}

lemma SameHarness.exists_visible (h : SameHarness entries entries') {entry : HarnessEntry}
    (hentry : (entries kind).get? id = some entry) :
    ∃ entry', (entries' kind).get? id = some entry' ∧ entry.visible = entry'.visible := by
  have hsame := h kind id
  rw [hentry, map_some] at hsame
  obtain ⟨entry', hentry', hvis⟩ := map_eq_some_iff.mp hsame.symm
  exact ⟨entry', hentry', hvis.symm⟩

lemma lookupRecord_proto (h : WellFormed entries) :
    lookupRecord (entries kind) "__proto__" = .ok (some {}) := by
  have hnone : (entries kind).get? "__proto__" = none :=
    eq_none_iff_forall_ne_some.mpr fun entry hentry => (h kind _ entry hentry).1 rfl
  rw [lookupRecord, hnone]
  rw [if_neg (by decide), if_pos rfl]

lemma get?_eq_none_of_lookup
    (h : lookupRecord records id = .ok none) : records.get? id = none :=
  (lookupRecord_eq_ok_none_iff.mp h).1

end Entries

/-! ## In the course of a proposal -/

section Progress

variable {host : RefineHost} {options : ApplyOptions} {entries₀ : HarnessEntries}
  {s s' : EditState} {edit : RefinementEdit} {edits : List RefinementEdit}
  {a : AppliedRefinementEdit} {as : List AppliedRefinementEdit} {kind : RefinementKind}
  {id : String}

/-- Entries the proposal has not modified stand as they stood, and those it has written can be
restored. -/
structure Progress (entries₀ : HarnessEntries) (s : EditState) : Prop where
  wellFormed : WellFormed s.entries
  untouched : ∀ kind id, (kind, id) ∉ s.proposalModifiedKeys →
    (s.entries kind).get? id = (entries₀ kind).get? id
  touched : ∀ kind id, (kind, id) ∈ s.proposalModifiedKeys →
    ∀ entry, (s.entries kind).get? id = some entry → Restorable kind entry

namespace Progress

lemma initial (h : WellFormed entries₀) : Progress entries₀ ⟨entries₀, []⟩ :=
  ⟨h, fun _ _ _ => rfl, fun _ _ h => by cases h⟩

section
variable (hs : Progress entries₀ s)
include hs

lemma step (h : EditEffect host options s edit s' a) : Progress entries₀ s' := by
  refine ⟨h.wellFormed hs.wellFormed, fun kind' id' hkey => ?_,
    fun kind' id' hkey entry hentry => ?_⟩
  · cases h with
    | refused => exact hs.untouched kind' id' hkey
    | written hvalid hact hbefore hexists =>
      rw [mem_modify, not_or, not_and] at hkey
      rw [← hs.untouched kind' id' hkey.2, get?_modify, get?_setRecord]
      split_ifs with hkind hid
      · exact absurd hid.1.symm (hkey.1 hkind)
      · rw [hkind]
      · rfl
    | deleted hvalid hbefore =>
      rw [mem_modify, not_or] at hkey
      rw [← hs.untouched kind' id' hkey.2, get?_deleted, if_neg hkey.1]
  · cases h with
    | refused => exact hs.touched kind' id' hkey entry hentry
    | @written action kind id before hvalid hact hbefore hexists =>
      rw [mem_modify] at hkey
      by_cases hproto : id = "__proto__"
      · rw [setRecord, if_pos hproto, get?_modify] at hentry
        have hentry' : (s.entries kind').get? id' = some entry := by
          split_ifs at hentry with hkind
          · rwa [hkind]
          · exact hentry
        rcases hkey with ⟨-, rfl⟩ | hkey
        · exact absurd hproto (hs.wellFormed kind' id' entry hentry').1
        · exact hs.touched kind' id' hkey entry hentry'
      · rw [get?_written _ _ _ _ _ hproto] at hentry
        split_ifs at hentry with hthis
        · cases hentry
          rw [hthis.1]
          exact writtenEntry_restorable hvalid hact
        · exact hs.touched kind' id' (hkey.resolve_left hthis) entry hentry
    | deleted hvalid hbefore =>
      rw [mem_modify] at hkey
      rw [get?_deleted] at hentry
      split_ifs at hentry with hthis
      exact hs.touched kind' id' (hkey.resolve_left hthis) entry hentry

lemma run (h : applyEdits host options s edits = .ok (s', as)) : Progress entries₀ s' := by
  induction edits generalizing s as with
  | nil =>
    cases h
    exact hs
  | cons edit edits ih =>
    obtain ⟨⟨s₁, a⟩, hedit, h⟩ := Except.of_bind h
    obtain ⟨⟨s₂, as'⟩, hedits, h⟩ := Except.of_bind h
    cases h
    exact ih (hs.step (applyEdit_effect hedit)) hedits

lemma lookupRecord_eq (hkey : (kind, id) ∉ s.proposalModifiedKeys) :
    lookupRecord (s.entries kind) id = lookupRecord (entries₀ kind) id := by
  rw [lookupRecord, hs.untouched kind id hkey, ← lookupRecord]

/-- No conflict at first is no conflict later. -/
lemma isConflict_eq_false {before before₀ baseline : Option HarnessEntry}
    (hbefore₀ : lookupRecord (entries₀ kind) id = .ok before₀)
    (hbefore : lookupRecord (s.entries kind) id = .ok before)
    (h : isConflict options ⟨entries₀, []⟩ kind id before₀ baseline = false) :
    isConflict options s kind id before baseline = false := by
  by_cases hkey : (kind, id) ∈ s.proposalModifiedKeys
  · simp [isConflict, hkey]
  · rw [hs.lookupRecord_eq hkey, hbefore₀] at hbefore
    cases hbefore
    simpa [isConflict, hkey] using h

end

end Progress

end Progress

/-! ## Modified entries -/

section Tracked

variable {host : RefineHost} {options : ApplyOptions} {entries₀ : HarnessEntries}
  {s s' : EditState} {edit : RefinementEdit} {a : AppliedRefinementEdit}
  {action : RefinementAction} {kind : RefinementKind} {id : String}
  {before : Option HarnessEntry} {entry : HarnessEntry}

/-- What an id that the proposal has modified keeps, whatever entry stands there now. -/
structure ModifiedId (options : ApplyOptions) (entries₀ : HarnessEntries) (kind : RefinementKind)
    (id : String) (current : Option HarnessEntry) : Prop where
  id_ne_empty : id ≠ ""
  id_ne_proto : id ≠ "__proto__"
  found : ∃ before₀, Found options ⟨entries₀, []⟩ kind id before₀
  absent : current = none → id ∉ objectPrototype
  scope : ∀ entry, current = some entry → entry.scope = some (options.scope.getD .local) ∨
    ∃ entry₀, (entries₀ kind).get? id = some entry₀ ∧ entry.scope = entry₀.scope

/-- The state in the course of a proposal whose edits so far could all be undone. -/
structure Tracked (options : ApplyOptions) (entries₀ : HarnessEntries) (s : EditState) : Prop where
  initial : WellFormed entries₀
  progress : Progress entries₀ s
  modified : ∀ kind id, (kind, id) ∈ s.proposalModifiedKeys →
    ModifiedId options entries₀ kind id ((s.entries kind).get? id)

namespace Tracked

lemma start (h : WellFormed entries₀) : Tracked options entries₀ ⟨entries₀, []⟩ :=
  ⟨h, .initial h, fun _ _ hkey => by cases hkey⟩

section
variable (hs : Tracked options entries₀ s)
include hs

lemma exists_found (hfound : Found options s kind id before) :
    ∃ before₀, Found options ⟨entries₀, []⟩ kind id before₀ := by
  by_cases hkey : (kind, id) ∈ s.proposalModifiedKeys
  · exact (hs.modified kind id hkey).found
  · obtain ⟨baseline, hbase, hconf⟩ := hfound.unchanged
    refine ⟨before, (hs.progress.lookupRecord_eq hkey).symm.trans hfound.lookup, baseline,
      hbase, ?_⟩
    simpa [isConflict, hkey] using hconf

section
variable (hedit : UndoableEdit options entries₀ edit) (hvalid : ValidEdit edit action kind id)
  (hfound : Found options s kind id before)
include hedit hvalid hfound

/-- An undoable edit that is carried out could have been undone at first. -/
lemma undoable : ∃ before₀, Found options ⟨entries₀, []⟩ kind id before₀ ∧
      Undoable options kind id action before₀ := by
  obtain ⟨before₀, hfound₀⟩ := hs.exists_found hfound
  obtain ⟨id', hid', hundo⟩ := hedit
  cases hid'.symm.trans hvalid.named
  obtain ⟨before₁, baseline, hbefore, hbase, hundo⟩ := hundo action kind hvalid
  cases hbefore.symm.trans hfound₀.lookup
  obtain ⟨baseline', hbase', hconf⟩ := hfound₀.unchanged
  cases hbase.symm.trans hbase'
  exact ⟨_, hfound₀, hundo hconf⟩

lemma id_ne_proto (hexists : action = .create → before = none) : id ≠ "__proto__" := by
  rintro rfl
  obtain ⟨before₀, hfound₀, hundo⟩ := hs.undoable hedit hvalid hfound
  obtain rfl := Except.ok.inj (hfound₀.lookup.symm.trans (lookupRecord_proto hs.initial))
  obtain rfl := Except.ok.inj
    (hfound.lookup.symm.trans (lookupRecord_proto hs.progress.wellFormed))
  have hact : action ≠ .create := fun h => by cases hexists h
  exact absurd (hundo.1 hact).title Bool.false_ne_true

lemma id_ne_empty (hexists : action = .create → before = none) : id ≠ "" := by
  by_cases hact : action = .create
  · by_cases hkey : (kind, id) ∈ s.proposalModifiedKeys
    · exact (hs.modified kind id hkey).id_ne_empty
    · obtain ⟨before₀, hfound₀, hundo⟩ := hs.undoable hedit hvalid hfound
      have hlookup := hfound.lookup
      rw [hexists hact, hs.progress.lookupRecord_eq hkey] at hlookup
      cases hfound₀.lookup.symm.trans hlookup
      exact hundo hact
  · exact hvalid.id_ne_empty hact

/-- The entry that is changed or deleted can be put back. -/
lemma restorable (hact : action ≠ .create) (hentry : (s.entries kind).get? id = some entry) :
    Restorable kind entry := by
  by_cases hkey : (kind, id) ∈ s.proposalModifiedKeys
  · exact hs.progress.touched kind id hkey entry hentry
  · obtain ⟨before₀, hfound₀, hundo⟩ := hs.undoable hedit hvalid hfound
    rw [hs.progress.untouched kind id hkey] at hentry
    cases hfound₀.lookup.symm.trans (lookupRecord_of_some hentry)
    exact hundo.1 hact

end

section
variable (hedit : UndoableEdit options entries₀ edit) (hvalid : ValidEdit edit .delete kind id)
  (hfound : Found options s kind id before)
include hedit hvalid hfound

/-- The entry that is deleted has the scope it will be given when it is put back. -/
lemma target_scope (hentry : (s.entries kind).get? id = some entry) :
    entry.scope = some (options.scope.getD .local) := by
  obtain ⟨before₀, hfound₀, hundo⟩ := hs.undoable hedit hvalid hfound
  have htarget (entry₀ : HarnessEntry) (hentry₀ : (entries₀ kind).get? id = some entry₀) :
      entry₀.scope = some (options.scope.getD .local) := by
    cases hfound₀.lookup.symm.trans (lookupRecord_of_some hentry₀)
    exact (hundo.2 rfl).1
  by_cases hkey : (kind, id) ∈ s.proposalModifiedKeys
  · rcases (hs.modified kind id hkey).scope entry hentry with hscope | ⟨entry₀, hentry₀, hscope⟩
    · exact hscope
    · exact hscope.trans (htarget entry₀ hentry₀)
  · rw [hs.progress.untouched kind id hkey] at hentry
    exact htarget entry hentry

lemma not_inherited : id ∉ objectPrototype := by
  obtain ⟨before₀, hfound₀, hundo⟩ := hs.undoable hedit hvalid hfound
  cases before₀ with
  | none => exact (lookupRecord_eq_ok_none_iff.mp hfound₀.lookup).2.1
  | some entry₀ => exact (hundo.2 rfl).2

end

/-- An id keeps what it has to keep where an edit leaves its entry alone. -/
lemma modified_of_ne {kind' : RefinementKind} {id' : String}
    (hkey : (kind', id') ∈ (s.modify kind id records).proposalModifiedKeys)
    (hne : ¬(kind' = kind ∧ id' = id))
    (hsame : ((s.modify kind id records).entries kind').get? id' = (s.entries kind').get? id') :
    ModifiedId options entries₀ kind' id'
      (((s.modify kind id records).entries kind').get? id') := by
  rw [hsame]
  exact hs.modified kind' id' ((mem_modify.mp hkey).resolve_left hne)

/-- The scope of an entry is the scope of the one before it, or the one the proposal gives. -/
lemma written_scope (hproto : id ≠ "__proto__")
    (hbefore : lookupRecord (s.entries kind) id = .ok before) :
    (writtenEntry host options edit kind id before).scope = some (options.scope.getD .local) ∨
      ∃ entry₀, (entries₀ kind).get? id = some entry₀ ∧
        (writtenEntry host options edit kind id before).scope = entry₀.scope := by
  cases before with
  | none => exact .inl rfl
  | some entry =>
    have hentry : (s.entries kind).get? id = some entry :=
      (lookupRecord_eq_ok_some_iff.mp hbefore).resolve_right fun h => hproto h.2.1
    have hscope : (writtenEntry host options edit kind id (some entry)).scope = entry.scope := by
      obtain ⟨scope, hscope⟩ :=
        isSome_iff_exists.mp (hs.progress.wellFormed kind id entry hentry).2.scope
      change some ((entry.scope.or options.scope).getD .local) = entry.scope
      rw [hscope]
      rfl
    rw [hscope]
    by_cases hkey : (kind, id) ∈ s.proposalModifiedKeys
    · exact (hs.modified kind id hkey).scope entry hentry
    · rw [hs.progress.untouched kind id hkey] at hentry
      exact .inr ⟨entry, hentry, rfl⟩

/-- An undoable edit leads to a state in which the next ones can be undone. -/
lemma step (hedit : UndoableEdit options entries₀ edit) (h : EditEffect host options s edit s' a) :
    Tracked options entries₀ s' := by
  refine ⟨hs.initial, hs.progress.step h, fun kind' id' hkey => ?_⟩
  cases h with
  | refused => exact hs.modified kind' id' hkey
  | @written action kind id before hvalid hact hfound hexists =>
    have hproto := hs.id_ne_proto hedit hvalid hfound hexists.mpr
    by_cases hthis : kind' = kind ∧ id' = id
    · obtain ⟨rfl, rfl⟩ := hthis
      rw [get?_written _ _ _ _ _ hproto, if_pos ⟨rfl, rfl⟩]
      refine ⟨hs.id_ne_empty hedit hvalid hfound hexists.mpr, hproto, hs.exists_found hfound,
        fun h => (by cases h), ?_⟩
      rintro entry ⟨⟩
      exact hs.written_scope hproto hfound.lookup
    · refine hs.modified_of_ne hkey hthis ?_
      rw [get?_written _ _ _ _ _ hproto, if_neg hthis]
  | @deleted kind id entry hvalid hfound =>
    by_cases hthis : kind' = kind ∧ id' = id
    · obtain ⟨rfl, rfl⟩ := hthis
      rw [get?_deleted, if_pos ⟨rfl, rfl⟩]
      exact ⟨hvalid.id_ne_empty nofun, hs.id_ne_proto hedit hvalid hfound nofun,
        hs.exists_found hfound, fun _ => hs.not_inherited hedit hvalid hfound,
        fun _ h => by cases h⟩
    · refine hs.modified_of_ne hkey hthis ?_
      rw [get?_deleted, if_neg hthis]

end

end Tracked

end Tracked

/-! ## The way back -/

section Undoes

variable {host host' : RefineHost} {options options' : ApplyOptions}
  {entries entries₀ entries₁ entries₂ : HarnessEntries} {s s' r : EditState}
  {edit : RefinementEdit} {edits back back' : List RefinementEdit} {a : AppliedRefinementEdit}
  {action : RefinementAction} {kind : RefinementKind} {id t : String}
  {before : Option HarnessEntry} {entry : HarnessEntry}

/-- From a harness that looks like the second one, each of the edits is applied, and they lead to
one that looks like the first. -/
def Undoes (host : RefineHost) (options : ApplyOptions) (back : List RefinementEdit)
    (entries entries' : HarnessEntries) : Prop :=
  ∀ r : EditState, WellFormed r.entries → SameHarness entries' r.entries →
    ∃ r' bs, applyEdits host options r back = .ok (r', bs) ∧ (∀ b ∈ bs, b.applied = true) ∧
      WellFormed r'.entries ∧ SameHarness entries r'.entries

lemma Undoes.refl (entries : HarnessEntries) : Undoes host options [] entries entries :=
  fun r hr hsame => ⟨r, [], rfl, by simp, hr, hsame⟩

lemma Undoes.append (h : Undoes host options back entries₀ entries₁)
    (h' : Undoes host options back' entries₁ entries₂) :
    Undoes host options (back' ++ back) entries₀ entries₂ := by
  intro r hr hsame
  obtain ⟨r₁, bs₁, happly₁, hall₁, hr₁, hsame₁⟩ := h' r hr hsame
  obtain ⟨r₂, bs₂, happly₂, hall₂, hr₂, hsame₂⟩ := h r₁ hr₁ hsame₁
  refine ⟨r₂, bs₁ ++ bs₂, applyEdits_append.mpr ⟨r₁, bs₁, bs₂, happly₁, happly₂, rfl⟩, ?_, hr₂,
    hsame₂⟩
  intro b hb
  rcases List.mem_append.mp hb with hb | hb
  · exact hall₁ b hb
  · exact hall₂ b hb

/-- One edit that is applied. -/
lemma Undoes.single (h : ∀ r : EditState, WellFormed r.entries → SameHarness entries₁ r.entries →
    ∃ r' b, applyEdit host options r edit = .ok (r', b) ∧ b.applied = true ∧
      SameHarness entries₀ r'.entries) : Undoes host options [edit] entries₀ entries₁ := by
  intro r hr hsame
  obtain ⟨r', b, happly, happlied, hsame'⟩ := h r hr hsame
  refine ⟨r', [b], Except.bind_eq_ok_iff.mpr ⟨(r', b), happly, rfl⟩, ?_,
    (applyEdit_effect happly).wellFormed hr, hsame'⟩
  rintro b' hb'
  rw [List.mem_singleton.mp hb', happlied]

/-- Without a plan to compare it with, the entry that is there is the one an edit finds. -/
lemma Found.of_lookup (hbase : options.baselineState = none)
    (hlookup : lookupRecord (s.entries kind) id = .ok before) :
    Found options s kind id before := by
  refine ⟨hlookup, none, ?_, ?_⟩
  · rw [baselineEntry, hbase]
  · simp [isConflict, hbase]

lemma applyEdit_of_found (hvalid : ValidEdit edit action kind id)
    (hfound : Found options s kind id before) :
    applyEdit host options s edit =
      .ok (performEdit host options s edit action kind id before) := by
  obtain ⟨baseline, hbase, hconf⟩ := hfound.unchanged
  rw [applyEdit_of_valid hvalid, applyValidEdit_eq hfound.lookup hbase hconf]

/-- The entry that is written to put another back looks like it, if it has its scope. -/
lemma visible_writtenEntry_restoringEdit {stated : Stated RefinementKind}
    (hcompl : entry.Complete) (hrest : Restorable kind entry)
    (hscope : some (((before.bind HarnessEntry.scope).or options.scope).getD .local) =
      entry.scope) :
    (writtenEntry host options (restoringEdit t action stated id entry) kind id before).visible =
      entry.visible := by
  obtain ⟨reference, href⟩ := isSome_iff_exists.mp hcompl.reference
  obtain ⟨arguments, hargs⟩ := isSome_iff_exists.mp hcompl.arguments
  obtain ⟨metadata, hmetadata⟩ := isSome_iff_exists.mp hcompl.metadata
  refine HarnessEntry.visible_eq_iff.mpr ⟨nullish_of_truthy hrest.title _,
    nullish_of_truthy hrest.content _, nullish_of_ne hrest.path _, hscope, ?_, ?_, ?_⟩
  · change some ((entry.reference.or _).getD []) = entry.reference
    rw [href]
    rfl
  · change some ((entry.arguments.or _).getD []) = entry.arguments
    rw [hargs]
    rfl
  · change some ((entry.metadata.or _).getD []) = entry.metadata
    rw [hmetadata]
    rfl

section
variable (hbase : options.baselineState = none)
  (hprompt : ¬(kind = .prompt ∧ id = "base_system_prompt")) (hid : id ≠ "")
  (hproto : id ≠ "__proto__")
include hbase hprompt hid hproto

/-- Putting an entry back where all other entries look as they should. -/
lemma exists_applyEdit_restoring (hcompl : entry.Complete) (hrest : Restorable kind entry)
    (hact : action ≠ .delete) (hlookup : lookupRecord (r.entries kind) id = .ok before)
    (hexists : before = none ↔ action = .create)
    (hscope : some (((before.bind HarnessEntry.scope).or options.scope).getD .local) = entry.scope)
    (hentry : (entries kind).get? id = some entry)
    (hothers : ∀ kind' id', ¬(kind' = kind ∧ id' = id) →
      ((entries kind').get? id').map HarnessEntry.visible =
        ((r.entries kind').get? id').map HarnessEntry.visible) :
    ∃ r' b, applyEdit host options r (restoringEdit t action (.known kind) id entry) =
      .ok (r', b) ∧ b.applied = true ∧ SameHarness entries r'.entries := by
  have hvalid : ValidEdit (restoringEdit t action (.known kind) id entry) action kind id :=
    validEdit_restoringEdit hprompt hid hcompl.arguments hrest
  have happly : applyEdit host options r (restoringEdit t action (.known kind) id entry) = _ :=
    applyEdit_of_found hvalid (.of_lookup hbase hlookup)
  have hsame : SameHarness entries (r.modify kind id (setRecord (r.entries kind) id
      (writtenEntry host options (restoringEdit t action (.known kind) id entry) kind id
        before))).entries := by
    intro kind' id'
    rw [get?_written _ _ _ _ _ hproto]
    split_ifs with hthis
    · obtain ⟨rfl, rfl⟩ := hthis
      rw [hentry, map_some, map_some, visible_writtenEntry_restoringEdit hcompl hrest hscope]
    · exact hothers kind' id' hthis
  cases action with
  | delete => exact absurd rfl hact
  | create =>
    obtain rfl := hexists.mpr rfl
    exact ⟨_, _, happly, rfl, hsame⟩
  | update =>
    cases before with
    | none => cases hexists.mp rfl
    | some found => exact ⟨_, _, happly, rfl, hsame⟩

/-- A new entry is taken away again. -/
lemma undoes_created (hnone : (s.entries kind).get? id = none) :
    Undoes host options [removingEdit t (.known kind) id] s.entries
      (s.modify kind id (setRecord (s.entries kind) id entry)).entries := by
  refine Undoes.single fun r _ hsame => ?_
  have hwritten : ((s.modify kind id (setRecord (s.entries kind) id entry)).entries kind).get? id =
      some entry := by
    rw [get?_written _ _ _ _ _ hproto, if_pos ⟨rfl, rfl⟩]
  obtain ⟨entry', hentry', -⟩ := hsame.exists_visible hwritten
  refine ⟨_, _, applyEdit_of_found (validEdit_removingEdit hprompt hid)
    (.of_lookup hbase (lookupRecord_of_some hentry')), rfl, fun kind' id' => ?_⟩
  rw [get?_deleted]
  split_ifs with hthis
  · obtain ⟨rfl, rfl⟩ := hthis
    rw [hnone]
  · rw [← hsame kind' id', get?_written _ _ _ _ _ hproto, if_neg hthis]

end

/-- An entry that was changed is put back in the place of the new one. -/
lemma undoes_updated (hbase : options'.baselineState = none)
    (hprompt : ¬(kind = .prompt ∧ id = "base_system_prompt")) (hid : id ≠ "")
    (hproto : id ≠ "__proto__") (hcompl : entry.Complete) (hrest : Restorable kind entry)
    (hentry : (s.entries kind).get? id = some entry) :
    Undoes host' options' [restoringEdit t .update (.known kind) id entry] s.entries
      (s.modify kind id (setRecord (s.entries kind) id
        (writtenEntry host options edit kind id (some entry)))).entries := by
  refine Undoes.single fun r _ hsame => ?_
  have hwritten := get?_written s kind kind id (writtenEntry host options edit kind id (some entry))
    hproto
  rw [if_pos ⟨rfl, rfl⟩] at hwritten
  obtain ⟨entry', hentry', hvis⟩ := hsame.exists_visible hwritten
  obtain ⟨scope, hscope⟩ := isSome_iff_exists.mp hcompl.scope
  have hscope' : entry'.scope = some scope := by
    rw [← (HarnessEntry.visible_eq_iff.mp hvis).2.2.2.1]
    change some ((entry.scope.or options.scope).getD .local) = some scope
    rw [hscope]
    rfl
  refine exists_applyEdit_restoring hbase hprompt hid hproto hcompl hrest nofun
    (lookupRecord_of_some hentry') (by simp) ?_ hentry fun kind' id' hne => ?_
  · change some ((entry'.scope.or options'.scope).getD .local) = entry.scope
    rw [hscope', hscope]
    rfl
  · rw [← hsame kind' id', get?_written _ _ _ _ _ hproto, if_neg hne]

/-- An entry that was deleted is made anew. -/
lemma undoes_deleted (hbase : options.baselineState = none)
    (hprompt : ¬(kind = .prompt ∧ id = "base_system_prompt")) (hid : id ≠ "")
    (hproto : id ≠ "__proto__") (hinh : id ∉ objectPrototype) (hcompl : entry.Complete)
    (hrest : Restorable kind entry)
    (hscope : entry.scope = some (options.scope.getD .local))
    (hentry : (s.entries kind).get? id = some entry) :
    Undoes host options [restoringEdit t .create (.known kind) id entry] s.entries
      (s.modify kind id ((s.entries kind).delete id)).entries := by
  refine Undoes.single fun r _ hsame => ?_
  have hnone : (r.entries kind).get? id = none := by
    have hdel := hsame kind id
    rw [get?_deleted, if_pos ⟨rfl, rfl⟩, map_none] at hdel
    exact map_eq_none_iff.mp hdel.symm
  refine exists_applyEdit_restoring hbase hprompt hid hproto hcompl hrest nofun
    (lookupRecord_eq_ok_none_iff.mpr ⟨hnone, hinh, hproto⟩) (by simp) hscope.symm hentry
    fun kind' id' hne => ?_
  rw [← hsame kind' id', get?_deleted, if_neg hne]

section
variable (hs : Tracked options entries₀ s)
include hs

/-- **What undoes an undoable edit.** -/
lemma Tracked.undoes (hedit : UndoableEdit options entries₀ edit)
    (h : EditEffect host options s edit s' a) (hbase : options'.baselineState = none)
    (hscope : options'.scope = options.scope) :
    Undoes host' options' (rollbackEdit t a).toList s.entries s'.entries := by
  cases h with
  | refused => exact .refl s.entries
  | @written action kind id before hvalid hact hfound hexists =>
    have hproto := hs.id_ne_proto hedit hvalid hfound hexists.mpr
    have hid := hs.id_ne_empty hedit hvalid hfound hexists.mpr
    cases before with
    | none =>
      change Undoes host' options' [removingEdit t edit.kind id] _ _
      rw [hvalid.kind]
      exact undoes_created hbase hvalid.not_basePrompt hid hproto
        (get?_eq_none_of_lookup hfound.lookup)
    | some entry =>
      have hentry : (s.entries kind).get? id = some entry :=
        (lookupRecord_eq_ok_some_iff.mp hfound.lookup).resolve_right fun h => hproto h.2.1
      have hact : action ≠ .create := fun h => by cases hexists.mpr h
      change Undoes host' options' [restoringEdit t .update edit.kind id entry] _ _
      rw [hvalid.kind]
      exact undoes_updated hbase hvalid.not_basePrompt hid hproto
        (hs.progress.wellFormed kind id entry hentry).2
        (hs.restorable hedit hvalid hfound hact hentry) hentry
  | @deleted kind id entry hvalid hfound =>
    have hproto := hs.id_ne_proto hedit hvalid hfound nofun
    have hentry : (s.entries kind).get? id = some entry :=
      (lookupRecord_eq_ok_some_iff.mp hfound.lookup).resolve_right fun h => hproto h.2.1
    change Undoes host' options' [restoringEdit t .create edit.kind id entry] _ _
    rw [hvalid.kind]
    refine undoes_deleted hbase hvalid.not_basePrompt (hvalid.id_ne_empty nofun) hproto
      (hs.not_inherited hedit hvalid hfound) (hs.progress.wellFormed kind id entry hentry).2
      (hs.restorable hedit hvalid hfound nofun hentry) ?_ hentry
    rw [hscope]
    exact hs.target_scope hedit hvalid hfound hentry

/-- An undoable edit does not throw. -/
lemma Tracked.exists_applyEdit (hedit : UndoableEdit options entries₀ edit) :
    ∃ s' a, applyEdit host options s edit = .ok (s', a) := by
  obtain ⟨id, hid, hundo⟩ := hedit
  cases herror : validateEdit edit id with
  | some error => exact ⟨_, _, applyEdit_of_refused hid herror⟩
  | none =>
    obtain ⟨action, kind, hvalid⟩ := exists_validEdit hid herror
    obtain ⟨before₀, baseline, hbefore₀, hbase, -⟩ := hundo action kind hvalid
    have hlookup : ∃ before, lookupRecord (s.entries kind) id = .ok before := by
      by_cases hkey : (kind, id) ∈ s.proposalModifiedKeys
      · have hmod := hs.modified kind id hkey
        cases hcur : (s.entries kind).get? id with
        | some entry => exact ⟨some entry, lookupRecord_of_some hcur⟩
        | none =>
          exact ⟨none, lookupRecord_eq_ok_none_iff.mpr
            ⟨hcur, hmod.absent hcur, hmod.id_ne_proto⟩⟩
      · exact ⟨before₀, (hs.progress.lookupRecord_eq hkey).trans hbefore₀⟩
    obtain ⟨before, hbefore⟩ := hlookup
    rw [applyEdit_of_valid hvalid, applyValidEdit, hbefore, hbase]
    exact ⟨_, _, (apply_ite Except.ok _ _ _).symm⟩

/-- **A proposal of undoable edits is applied, and undone by the edits that undo each of its
edits, the last one first.** -/
lemma Tracked.exists_undoes (hedits : ∀ edit ∈ edits, UndoableEdit options entries₀ edit)
    (hbase : options'.baselineState = none) (hscope : options'.scope = options.scope) :
    ∃ s' as, applyEdits host options s edits = .ok (s', as) ∧
      Undoes host' options' (as.reverse.filterMap (rollbackEdit t)) s.entries s'.entries := by
  induction edits generalizing s with
  | nil => exact ⟨s, [], rfl, .refl s.entries⟩
  | cons edit edits ih =>
    have hedit := hedits edit List.mem_cons_self
    obtain ⟨s₁, a, happly⟩ := hs.exists_applyEdit hedit
    have heffect := applyEdit_effect happly
    obtain ⟨s', as, happly', hundoes⟩ := ih (hs.step hedit heffect)
      fun edit' hmem => hedits edit' (List.mem_cons_of_mem _ hmem)
    refine ⟨s', a :: as, Except.bind_eq_ok_iff.mpr ⟨(s₁, a), happly,
      Except.bind_eq_ok_iff.mpr ⟨(s', as), happly', rfl⟩⟩, ?_⟩
    have hundoes' : Undoes host' options' (rollbackEdit t a).toList s.entries s₁.entries :=
      hs.undoes hedit heffect hbase hscope
    rw [List.reverse_cons, List.filterMap_append]
    exact hundoes'.append hundoes

end

end Undoes

end Amide
