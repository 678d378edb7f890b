import Amide.Framework.Fallible
import Amide.Construction.Refinement.Edits

/-!
# What an edit does to the harness

An edit is refused, or it writes one entry, or it deletes one (`EditEffect`).  What is written has
a title, a content and a path, and a skill names its Python function (`Restorable`); an entry that
was only loaded need not.
-/

namespace Amide

/-- Nothing a rolled back edit would be refused for is missing, and the path is there. -/
structure Restorable (kind : RefinementKind) (entry : HarnessEntry) : Prop where
  title : truthy entry.title = true
  content : truthy entry.content = true
  path : nullish entry.path none ≠ none
  reference : kind = .skill → validateReference .create entry.reference = none

/-- The members of an entry that rolling back is about. -/
def HarnessEntry.visible (entry : HarnessEntry) : HarnessEntry :=
  { entry with id := none, kind := none, source := none, createdAt := none, updatedAt := none,
               version := none }

variable {entry : HarnessEntry} {entry' : HarnessEntry}

lemma HarnessEntry.visible_eq_iff :
    entry.visible = entry'.visible ↔ entry.title = entry'.title ∧ entry.content = entry'.content ∧
      entry.path = entry'.path ∧ entry.scope = entry'.scope ∧
      entry.reference = entry'.reference ∧ entry.arguments = entry'.arguments ∧
      entry.metadata = entry'.metadata := by
  simp [visible]

variable {kind : RefinementKind}

lemma Restorable.of_visible (h : Restorable kind entry)
    (hvis : entry.visible = entry'.visible) : Restorable kind entry' := by
  obtain ⟨htitle, hcont, hpath, -, href, -, -⟩ := HarnessEntry.visible_eq_iff.mp hvis
  exact ⟨htitle ▸ h.title, hcont ▸ h.content, hpath ▸ h.path, href ▸ h.reference⟩

/-! ## Values -/

variable {a : Option Json}

lemma nullish_of_truthy (h : truthy a = true) (b : Option Json) : nullish a b = a := by
  cases a with
  | none => cases h
  | some a => cases a <;> first | rfl | cases h

lemma nullish_of_ne (h : nullish a none ≠ none) (b : Option Json) : nullish a b = a := by
  cases a with
  | none => exact absurd rfl h
  | some a => cases a <;> first | rfl | exact absurd rfl h

lemma nullish_ne_none {b : Option Json} (hb : nullish b none ≠ none) :
    nullish (nullish a b) none ≠ none := by
  cases a with
  | none => exact hb
  | some a => cases a <;> first | exact hb | exact nofun

variable {action : RefinementAction}

lemma validateReference_eq_none {reference : Option JsonObject} :
    validateReference action reference = none ↔ validateReference .create reference = none := by
  cases reference with
  | none => simp [validateReference]
  | some members =>
    simp only [validateReference]
    split
    · split_ifs <;> simp
    · simp

/-! ## Edits that pass their check -/

variable {id : String}

/-- **What an edit is checked for.** -/
lemma validateEdit_eq_none_iff {edit : RefinementEdit} (hact : edit.action = .known action)
    (hkind : edit.kind = .known kind) :
    validateEdit edit id = none ↔
      ¬(kind = .prompt ∧ (edit.id = some "base_system_prompt" ∨ id = "base_system_prompt")) ∧
      (action ≠ .create → edit.id.getD "" ≠ "") ∧
      (action ≠ .delete → truthy edit.title = true ∧ truthy edit.content = true) ∧
      (action ≠ .delete → kind = .skill →
        edit.arguments.isSome = true ∧ validateReference .create edit.reference = none) := by
  simp only [validateEdit, hact, hkind]
  split_ifs with hprompt hid htext hargs hskill
  · exact ⟨nofun, fun h => absurd hprompt h.1⟩
  · exact ⟨nofun, fun h => absurd hid.2 (h.2.1 hid.1)⟩
  · exact ⟨nofun, fun h => absurd (h.2.2.1 htext.1) htext.2⟩
  · refine ⟨nofun, fun h => ?_⟩
    have hsome := (h.2.2.2 hargs.1 hargs.2.1).1
    rw [Option.isNone_iff_eq_none.mp hargs.2.2] at hsome
    cases hsome
  · rw [validateReference_eq_none]
    refine ⟨fun h => ⟨hprompt, fun ha he => hid ⟨ha, he⟩, fun ha => ?_, fun ha hk => ⟨?_, h⟩⟩,
      fun h => (h.2.2.2 hskill.1 hskill.2).2⟩
    · exact not_not.mp fun hn => htext ⟨ha, hn⟩
    · exact Option.isSome_iff_ne_none.mpr fun hn => hargs ⟨ha, hk, Option.isNone_iff_eq_none.mpr hn⟩
  · refine ⟨fun _ => ⟨hprompt, fun ha he => hid ⟨ha, he⟩, fun ha => ?_, fun ha hk => ?_⟩,
      fun _ => rfl⟩
    · exact not_not.mp fun hn => htext ⟨ha, hn⟩
    · exact absurd ⟨ha, hk⟩ hskill

/-- An edit that passes its check, with its action, kind and id. -/
structure ValidEdit (edit : RefinementEdit) (action : RefinementAction) (kind : RefinementKind)
    (id : String) : Prop where
  named : editId edit = .ok id
  action : edit.action = .known action
  kind : edit.kind = .known kind
  valid : validateEdit edit id = none

namespace ValidEdit

variable {edit : RefinementEdit} {action : RefinementAction} {kind : RefinementKind} {id : String}

section
variable (h : ValidEdit edit action kind id)
include h

lemma not_basePrompt : ¬(kind = .prompt ∧ id = "base_system_prompt") :=
  fun hbase => ((validateEdit_eq_none_iff h.action h.kind).mp h.valid).1 ⟨hbase.1, .inr hbase.2⟩

/-- Only a new entry may go without a name. -/
lemma id_ne_empty (hact : action ≠ .create) : id ≠ "" := by
  have hne := ((validateEdit_eq_none_iff h.action h.kind).mp h.valid).2.1 hact
  have hid := h.named
  rw [editId] at hid
  split at hid
  next hsome =>
    cases hid
    rwa [hsome] at hne
  next hnone =>
    rw [hnone] at hne
    exact absurd rfl hne

end

end ValidEdit

/-- The edit that puts an entry back passes its check just when the entry has what it needs. -/
lemma validEdit_restoringEdit {t : String} (hprompt : ¬(kind = .prompt ∧ id = "base_system_prompt"))
    (hid : id ≠ "") (hargs : entry.arguments.isSome = true) (h : Restorable kind entry) :
    ValidEdit (restoringEdit t action (.known kind) id entry) action kind id := by
  refine ⟨rfl, rfl, rfl, (validateEdit_eq_none_iff rfl rfl).mpr ⟨?_, fun _ => hid,
    fun _ => ⟨h.title, h.content⟩, fun _ hskill => ⟨hargs, h.reference hskill⟩⟩⟩
  rintro ⟨hkind, hbase | hbase⟩
  · exact hprompt ⟨hkind, Option.some.inj hbase⟩
  · exact hprompt ⟨hkind, hbase⟩

/-- The edit that takes a new entry away again passes its check. -/
lemma validEdit_removingEdit {t : String} (hprompt : ¬(kind = .prompt ∧ id = "base_system_prompt"))
    (hid : id ≠ "") : ValidEdit (removingEdit t (.known kind) id) .delete kind id := by
  refine ⟨rfl, rfl, rfl, (validateEdit_eq_none_iff rfl rfl).mpr ⟨?_, fun _ => hid,
    fun h => absurd rfl h, fun h => absurd rfl h⟩⟩
  rintro ⟨hkind, hbase | hbase⟩
  · exact hprompt ⟨hkind, Option.some.inj hbase⟩
  · exact hprompt ⟨hkind, hbase⟩

/-! ## What becomes of the entries -/

section Effects

variable {host : RefineHost} {options : ApplyOptions} {s s' s'' : EditState}
  {edit : RefinementEdit} {edits : List RefinementEdit} {a : AppliedRefinementEdit}
  {as : List AppliedRefinementEdit}

/-- The entry an edit finds, where no one else has changed it since the proposal was planned. -/
structure Found (options : ApplyOptions) (s : EditState) (kind : RefinementKind) (id : String)
    (before : Option HarnessEntry) : Prop where
  lookup : lookupRecord (s.entries kind) id = .ok before
  unchanged : ∃ baseline, baselineEntry options kind id = .ok baseline ∧
    isConflict options s kind id before baseline = false

/-- The state and the record an edit leads to. -/
inductive EditEffect (host : RefineHost) (options : ApplyOptions) (s : EditState)
    (edit : RefinementEdit) : EditState → AppliedRefinementEdit → Prop
  | refused {id : String} {before : Option HarnessEntry} {error : Option String} :
      EditEffect host options s edit s { edit, id, before, applied := false, error }
  | written {action : RefinementAction} {kind : RefinementKind} {id : String}
      {before : Option HarnessEntry} (h : ValidEdit edit action kind id)
      (haction : action ≠ .delete) (hfound : Found options s kind id before)
      (hexists : before = none ↔ action = .create) :
      EditEffect host options s edit
        (s.modify kind id
          (setRecord (s.entries kind) id (writtenEntry host options edit kind id before)))
        { edit, id, before, after := some (writtenEntry host options edit kind id before),
          applied := true }
  | deleted {kind : RefinementKind} {id : String} {entry : HarnessEntry}
      (h : ValidEdit edit .delete kind id) (hfound : Found options s kind id (some entry)) :
      EditEffect host options s edit (s.modify kind id ((s.entries kind).delete id))
        { edit, id, before := some entry, applied := true }

lemma exists_validEdit (hid : editId edit = .ok id) (hvalid : validateEdit edit id = none) :
    ∃ action kind, ValidEdit edit action kind id := by
  cases hact : edit.action with
  | other text | noText text => simp [validateEdit, hact] at hvalid
  | known action =>
    cases hkind : edit.kind with
    | other text | noText text => simp [validateEdit, hact, hkind] at hvalid
    | known kind => exact ⟨action, kind, hid, hact, hkind, hvalid⟩

lemma applyEdit_of_valid (h : ValidEdit edit action kind id) :
    applyEdit host options s edit = applyValidEdit host options s edit action kind id := by
  rw [applyEdit, h.named]
  dsimp only [bind, Except.bind]
  rw [h.valid, h.action, h.kind]

lemma applyEdit_of_refused {error : String} (hid : editId edit = .ok id)
    (herror : validateEdit edit id = some error) :
    applyEdit host options s edit =
      .ok (s, { edit, id, applied := false, error := some error }) := by
  rw [applyEdit, hid]
  dsimp only [bind, Except.bind]
  rw [herror]

/-- A valid edit, once the entry and what it is compared with have been looked up. -/
lemma applyValidEdit_eq {before baseline : Option HarnessEntry}
    (hbefore : lookupRecord (s.entries kind) id = .ok before)
    (hbase : baselineEntry options kind id = .ok baseline)
    (hconf : isConflict options s kind id before baseline = false) :
    applyValidEdit host options s edit action kind id =
      .ok (performEdit host options s edit action kind id before) := by
  rw [applyValidEdit, hbefore, hbase]
  change (if isConflict options s kind id before baseline = true then _ else _) = _
  rw [hconf, if_neg Bool.false_ne_true]

/-- **What an edit does.** -/
lemma applyEdit_effect (h : applyEdit host options s edit = .ok (s', a)) :
    EditEffect host options s edit s' a := by
  obtain ⟨id, hid, -⟩ := Except.of_bind h
  cases herror : validateEdit edit id with
  | some error =>
    rw [applyEdit_of_refused hid herror] at h
    cases h
    exact .refused
  | none =>
    obtain ⟨action, kind, hvalid⟩ := exists_validEdit hid herror
    rw [applyEdit_of_valid hvalid] at h
    obtain ⟨before, hbefore, h'⟩ := Except.of_bind h
    obtain ⟨baseline, hbase, h'⟩ := Except.of_bind h'
    cases hconf : isConflict options s kind id before baseline with
    | true =>
      rw [hconf, if_pos rfl] at h'
      cases h'
      exact .refused
    | false =>
      rw [applyValidEdit_eq hbefore hbase hconf] at h
      have hfound : Found options s kind id before := ⟨hbefore, baseline, hbase, hconf⟩
      cases action with
      | delete =>
        cases before with
        | none =>
          cases h
          exact .refused
        | some entry =>
          cases h
          exact .deleted hvalid hfound
      | create =>
        cases before with
        | none =>
          cases h
          exact .written hvalid nofun hfound (by simp)
        | some entry =>
          cases h
          exact .refused
      | update =>
        cases before with
        | none =>
          cases h
          exact .refused
        | some entry =>
          cases h
          exact .written hvalid nofun hfound (by simp)

lemma get?_modify (s : EditState) (kind kind' : RefinementKind) (id id' : String)
    (records : JsMap String HarnessEntry) :
    ((s.modify kind id records).entries kind').get? id' =
      if kind' = kind then records.get? id' else (s.entries kind').get? id' := by
  change (Function.update s.entries kind records kind').get? id' = _
  rw [Function.update_apply]
  split_ifs
  · rfl
  · rfl

variable {records : JsMap String HarnessEntry}

lemma mem_modify {s : EditState} {kind' : RefinementKind} {id' : String} :
    (kind', id') ∈ (s.modify kind id records).proposalModifiedKeys ↔
      (kind' = kind ∧ id' = id) ∨ (kind', id') ∈ s.proposalModifiedKeys := by
  simp [EditState.modify]

lemma get?_setRecord (records : JsMap String HarnessEntry) (id id' : String)
    (entry : HarnessEntry) :
    (setRecord records id entry).get? id' =
      if id = id' ∧ id ≠ "__proto__" then some entry else records.get? id' := by
  rw [setRecord]
  by_cases hproto : id = "__proto__"
  · rw [if_pos hproto, if_neg fun h => h.2 hproto]
  · rw [if_neg hproto, JsMap.get?_set]
    by_cases hid : id = id'
    · rw [if_pos hid, if_pos ⟨hid, hproto⟩]
    · rw [if_neg hid, if_neg fun h => hid h.1]

lemma get?_written (s : EditState) (kind kind' : RefinementKind) (id' : String)
    (entry : HarnessEntry) (hproto : id ≠ "__proto__") :
    ((s.modify kind id (setRecord (s.entries kind) id entry)).entries kind').get? id' =
      if kind' = kind ∧ id' = id then some entry else (s.entries kind').get? id' := by
  rw [get?_modify, get?_setRecord]
  grind

lemma get?_deleted (s : EditState) (kind kind' : RefinementKind) (id id' : String) :
    ((s.modify kind id ((s.entries kind).delete id)).entries kind').get? id' =
      if kind' = kind ∧ id' = id then none else (s.entries kind').get? id' := by
  rw [get?_modify, JsMap.get?_delete]
  grind

/-! ### Lookups -/

lemma lookupRecord_of_some (h : records.get? id = some entry) :
    lookupRecord records id = .ok (some entry) := by
  rw [lookupRecord, h]

lemma lookupRecord_eq_ok_none_iff : lookupRecord records id = .ok none ↔
      records.get? id = none ∧ id ∉ objectPrototype ∧ id ≠ "__proto__" := by
  cases h : records.get? id with
  | some entry => simp [lookupRecord_of_some h]
  | none =>
    rw [lookupRecord, h]
    split_ifs with hfunction hproto
    · simp [hfunction]
    · simp [hproto]
    · simp [hfunction, hproto]

lemma lookupRecord_eq_ok_some_iff :
    lookupRecord records id = .ok (some entry) ↔ records.get? id = some entry ∨
      (records.get? id = none ∧ id = "__proto__" ∧ entry = {}) := by
  cases h : records.get? id with
  | some entry' =>
    rw [lookupRecord_of_some h]
    simp
  | none =>
    rw [lookupRecord, h]
    split_ifs with hfunction hproto
    · have hne : id ≠ "__proto__" := by
        rintro rfl
        exact absurd hfunction (by decide)
      simp [hne]
    · simp [hproto, eq_comm]
    · simp [hproto]

lemma lookupRecord_eq_error {error : String} : lookupRecord records id = .error error →
      records.get? id = none ∧ id ∈ objectPrototype := by
  cases h : records.get? id with
  | some entry =>
    rw [lookupRecord_of_some h]
    exact nofun
  | none =>
    rw [lookupRecord, h]
    simp only
    split_ifs with hfunction hproto
    · exact fun _ => ⟨trivial, hfunction⟩
    · exact nofun
    · exact nofun

variable {Q : Option HarnessEntry → Prop}

/-- An entry after an edit: the one before it, or the one that was written, or none. -/
lemma EditEffect.preserves
    (h : EditEffect host options s edit s' a)
    (hwrite : ∀ action before, ValidEdit edit action kind id → action ≠ .delete → id ≠ "__proto__" →
      lookupRecord (s.entries kind) id = .ok before →
      Q (some (writtenEntry host options edit kind id before)))
    (hdelete : ValidEdit edit .delete kind id → Q none) (hQ : Q ((s.entries kind).get? id)) :
    Q ((s'.entries kind).get? id) := by
  cases h with
  | refused => exact hQ
  | @written action kind' id' before hvalid hact hfound hexists =>
    rw [get?_modify]
    split_ifs with hkind
    · subst hkind
      rw [get?_setRecord]
      split_ifs with hid
      · obtain ⟨rfl, hproto⟩ := hid
        exact hwrite action before hvalid hact hproto hfound.lookup
      · exact hQ
    · exact hQ
  | @deleted kind' id' entry hvalid hfound =>
    rw [get?_modify]
    split_ifs with hkind
    · subst hkind
      rw [JsMap.get?_delete]
      split_ifs with hid
      · subst hid
        exact hdelete hvalid
      · exact hQ
    · exact hQ

/-- What every write and every deletion of an entry establishes holds at the end, if it held at
the beginning. -/
lemma applyEdits_preserves
    (hwrite : ∀ (records : JsMap String HarnessEntry) edit action before,
      ValidEdit edit action kind id → action ≠ .delete → id ≠ "__proto__" →
      lookupRecord records id = .ok before → Q (records.get? id) →
      Q (some (writtenEntry host options edit kind id before)))
    (hdelete : ∀ edit, ValidEdit edit .delete kind id → Q none)
    (h : applyEdits host options s edits = .ok (s', as)) (hQ : Q ((s.entries kind).get? id)) :
    Q ((s'.entries kind).get? id) := by
  induction edits generalizing s as with
  | nil =>
    cases h
    exact hQ
  | cons edit edits ih =>
    obtain ⟨⟨s₁, a⟩, hedit, h⟩ := Except.of_bind h
    obtain ⟨⟨s₂, as'⟩, hedits, h⟩ := Except.of_bind h
    cases h
    exact ih hedits ((applyEdit_effect hedit).preserves
      (fun action before hvalid hact hproto hbefore => hwrite _ edit action before hvalid
        hact hproto hbefore hQ) (hdelete edit) hQ)

lemma applyEdits_append {edits' : List RefinementEdit} {as' : List AppliedRefinementEdit} :
    applyEdits host options s (edits ++ edits') = .ok (s'', as') ↔
      ∃ s' as₁ as₂, applyEdits host options s edits = .ok (s', as₁) ∧
        applyEdits host options s' edits' = .ok (s'', as₂) ∧ as' = as₁ ++ as₂ := by
  induction edits generalizing s as' with
  | nil =>
    refine ⟨fun h => ⟨s, [], as', rfl, h, rfl⟩, ?_⟩
    rintro ⟨s', as₁, as₂, hnil, h, rfl⟩
    cases hnil
    exact h
  | cons edit edits ih =>
    refine ⟨fun h => ?_, ?_⟩
    · obtain ⟨⟨s₁, a⟩, hedit, h⟩ := Except.of_bind h
      obtain ⟨⟨s₂, as₀⟩, hedits, h⟩ := Except.of_bind h
      cases h
      obtain ⟨s', as₁, as₂, h₁, h₂, rfl⟩ := ih.mp hedits
      exact ⟨s', a :: as₁, as₂, Except.bind_eq_ok_iff.mpr ⟨(s₁, a), hedit,
        Except.bind_eq_ok_iff.mpr ⟨(s', as₁), h₁, rfl⟩⟩, h₂, rfl⟩
    · rintro ⟨s', as₁, as₂, h₁, h₂, rfl⟩
      obtain ⟨⟨s₁, a⟩, hedit, h₁⟩ := Except.of_bind h₁
      obtain ⟨⟨s₂, as₀⟩, hedits, h₁⟩ := Except.of_bind h₁
      cases h₁
      exact Except.bind_eq_ok_iff.mpr ⟨(s₁, a), hedit,
        Except.bind_eq_ok_iff.mpr ⟨(s'', as₀ ++ as₂), ih.mpr ⟨s', as₀, as₂, hedits, h₂, rfl⟩, rfl⟩⟩

/-- The step an edit of a proposal takes. -/
lemma exists_applyEdit_of_mem (h : applyEdits host options s edits = .ok (s'', as))
    (hedit : edit ∈ edits) :
    ∃ pre post s₁ s₂ a as₁ as₂, edits = pre ++ edit :: post ∧ as = as₁ ++ a :: as₂ ∧
      applyEdits host options s pre = .ok (s₁, as₁) ∧
      applyEdit host options s₁ edit = .ok (s₂, a) ∧
      applyEdits host options s₂ post = .ok (s'', as₂) := by
  obtain ⟨pre, post, rfl⟩ := List.append_of_mem hedit
  obtain ⟨s₁, as₁, as', hpre, hrest, rfl⟩ := applyEdits_append.mp h
  obtain ⟨⟨s₂, a⟩, hstep, hrest⟩ := Except.of_bind hrest
  obtain ⟨⟨s₃, as₂⟩, hpost, hrest⟩ := Except.of_bind hrest
  cases hrest
  exact ⟨pre, post, s₁, s₂, a, as₁, as₂, rfl, rfl, hpre, hstep, hpost⟩

/-! ## Written entries -/

lemma writtenEntry_restorable {before : Option HarnessEntry} (h : ValidEdit edit action kind id)
    (hact : action ≠ .delete) :
    Restorable kind (writtenEntry host options edit kind id before) := by
  obtain ⟨-, -, htext, hskill⟩ := (validateEdit_eq_none_iff h.action h.kind).mp h.valid
  obtain ⟨htitle, hcont⟩ := htext hact
  refine ⟨?_, ?_, nullish_ne_none (nullish_ne_none nofun), fun hkind => ?_⟩
  · change truthy (nullish edit.title _) = true
    rwa [nullish_of_truthy htitle]
  · change truthy (nullish edit.content _) = true
    rwa [nullish_of_truthy hcont]
  · have href := (hskill hact hkind).2
    change validateReference .create (some ((edit.reference.or _).getD [])) = none
    cases hedit : edit.reference with
    | none =>
      rw [hedit] at href
      cases href
    | some members =>
      rw [hedit] at href
      exact href

/-- An entry that stands in the harness has its scope and its records. -/
structure HarnessEntry.Complete (entry : HarnessEntry) : Prop where
  scope : entry.scope.isSome = true
  reference : entry.reference.isSome = true
  arguments : entry.arguments.isSome = true
  metadata : entry.metadata.isSome = true

/-- Every entry is complete, and none is named `__proto__`. -/
def WellFormed (entries : HarnessEntries) : Prop :=
  ∀ kind id entry, (entries kind).get? id = some entry → id ≠ "__proto__" ∧ entry.Complete

lemma EditEffect.wellFormed (h : EditEffect host options s edit s' a)
    (hs : WellFormed s.entries) : WellFormed s'.entries := by
  intro kind id
  refine h.preserves (Q := fun e => ∀ entry, e = some entry → id ≠ "__proto__" ∧ entry.Complete)
    (fun action before _ _ hproto _ => ?_) (fun _ => ?_) (hs kind id)
  · rintro entry ⟨⟩
    exact ⟨hproto, rfl, rfl, rfl, rfl⟩
  · rintro entry ⟨⟩

lemma foldl_loadRecord_complete {scope : HarnessScope} {records : List (String × Json)}
    {loaded : JsMap String HarnessEntry}
    (h : ∀ id entry, loaded.get? id = some entry → id ≠ "__proto__" ∧ entry.Complete) :
    ∀ id entry, (records.foldl (loadRecord scope) loaded).get? id = some entry →
      id ≠ "__proto__" ∧ entry.Complete := by
  induction records generalizing loaded with
  | nil => exact h
  | cons record records ih =>
    refine ih ?_
    rw [loadRecord]
    split
    · exact h
    · intro id entry hentry
      rw [get?_setRecord] at hentry
      split_ifs at hentry with hid
      · cases hentry
        obtain ⟨rfl, hproto⟩ := hid
        exact ⟨hproto, rfl, rfl, rfl, rfl⟩
      · exact h id entry hentry

/-- **What is loaded is well formed**, whatever the file holds. -/
lemma loadHarnessState_wellFormed (content : Option (List UInt8)) (scope : HarnessScope) :
    WellFormed (loadHarnessState content scope).entries := by
  have hempty : ∀ id entry, (JsMap.empty : JsMap String HarnessEntry).get? id = some entry →
      id ≠ "__proto__" ∧ entry.Complete := fun _ _ h => by cases h
  have hload (kinds : Option Json) : WellFormed (loadEntries scope kinds) := by
    intro kind
    rw [loadEntries]
    split
    · exact foldl_loadRecord_complete hempty
    · exact hempty
  rw [loadHarnessState]
  split
  · exact hload _
  · exact fun _ => hempty

end Effects

end Amide
