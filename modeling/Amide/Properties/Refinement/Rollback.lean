import Amide.Properties.Refinement.Undoable

/-!
# Rolling a refinement back

A proposal that was applied is rolled back by edits that restore what stood there before.  These
go through the checks meant for edits that the model writes, which entries loaded from a file need
not pass; an entry's scope is not among what they carry, and a path that is absent is filled in.
`rollsBack_iff` says exactly which proposals can be undone: those whose edits are, one by one,
undoable from where the harness stood at first (`UndoableEdit`).
-/

namespace Amide

/-! ## What rolling back is to do -/

/-- A refinement is rolled back in the scope it was applied in. -/
def rollbackOptions (options : ApplyOptions) (rollbackId targetId : String) : ApplyOptions where
  id := rollbackId
  rollbackOf := some targetId
  scope := options.scope

/-- The proposal is applied, its rollback applies every edit, and the entries are the same as
before. -/
def RollsBack (host host' : RefineHost) (options : ApplyOptions) (rollbackId : String)
    (state : HarnessState) (proposal : RefinementProposal) : Prop :=
  ∃ state' result, applyRefinementProposal host options state proposal = .ok (state', result) ∧
    ∃ state'' result', applyRefinementProposal host' (rollbackOptions options rollbackId result.id)
        state' (rollbackProposal result) = .ok (state'', result') ∧
      (∀ appliedEdit ∈ result'.appliedEdits, appliedEdit.applied = true) ∧
        SameHarness state.entries state''.entries

/-! ## What cannot be undone -/

section Necessity

variable {host host' : RefineHost} {options options' : ApplyOptions} {entries₀ : HarnessEntries}
  {s s' s'' : EditState} {edit : RefinementEdit} {edits edits' : List RefinementEdit}
  {a : AppliedRefinementEdit} {as bs : List AppliedRefinementEdit} {kind : RefinementKind}
  {id : String}

lemma applyEdits_restorable (h : applyEdits host options s edits = .ok (s', as))
    (hs : ∀ entry, (s.entries kind).get? id = some entry → Restorable kind entry) :
    ∀ entry, (s'.entries kind).get? id = some entry → Restorable kind entry := by
  refine applyEdits_preserves (Q := fun e => ∀ entry, e = some entry → Restorable kind entry)
    (fun _ edit action before hvalid hact _ _ _ => ?_) (fun _ _ => ?_) h hs
  · rintro entry ⟨⟩
    exact writtenEntry_restorable hvalid hact
  · rintro entry ⟨⟩

/-- An entry made anew keeps the scope it was given. -/
lemma applyEdits_scope (h : applyEdits host options s edits = .ok (s', as))
    (hs : ∀ entry, (s.entries kind).get? id = some entry →
      entry.scope = some (options.scope.getD .local)) :
    ∀ entry, (s'.entries kind).get? id = some entry →
      entry.scope = some (options.scope.getD .local) := by
  refine applyEdits_preserves (Q := fun e => ∀ entry, e = some entry →
      entry.scope = some (options.scope.getD .local))
    (fun records edit action before hvalid hact hproto hbefore hQ => ?_) (fun _ _ => ?_) h hs
  · rintro entry ⟨⟩
    cases before with
    | none => rfl
    | some entry =>
      rcases lookupRecord_eq_ok_some_iff.mp hbefore with hentry | ⟨-, hid, -⟩
      · have hscope := hQ entry hentry
        change some ((entry.scope.or options.scope).getD .local) = _
        rw [hscope]
        rfl
      · exact absurd hid hproto
  · rintro entry ⟨⟩

/-- What every object has is never made an entry. -/
lemma applyEdits_inherited (hid : id ∈ objectPrototype)
    (h : applyEdits host options s edits = .ok (s', as)) (hs : (s.entries kind).get? id = none) :
    (s'.entries kind).get? id = none := by
  refine applyEdits_preserves (Q := fun e => e = none)
    (fun records edit action before _ _ _ hbefore hQ => ?_) (fun _ _ => rfl) h hs
  rw [lookupRecord, hQ] at hbefore
  simp only [if_pos hid] at hbefore
  cases hbefore

/-- An entry without a name stays. -/
lemma applyEdits_unnamed (h : applyEdits host options s edits = .ok (s', as))
    (hs : (s.entries kind).get? "" ≠ none) : (s'.entries kind).get? "" ≠ none := by
  refine applyEdits_preserves (Q := fun e => e ≠ none) (fun _ _ _ _ _ _ _ _ _ => ?_)
    (fun _ hvalid => ?_) h hs
  · exact Option.some_ne_none _
  · exact absurd rfl (hvalid.id_ne_empty nofun)

variable {action : RefinementAction} {entry : HarnessEntry}

/-- An edit that restores what has no title is refused. -/
lemma not_applied_of_untitled {t : String}
    {stated : Stated RefinementKind} (hact : action ≠ .delete)
    (htitle : truthy entry.title = false)
    (hback : applyEdits host options s edits = .ok (s', bs))
    (hmem : restoringEdit t action stated id entry ∈ edits) : ∃ b ∈ bs, b.applied = false := by
  obtain ⟨pre, post, s₁, s₂, b, bs₁, bs₂, -, rfl, -, hstep, -⟩ := exists_applyEdit_of_mem hback hmem
  refine ⟨b, by simp, ?_⟩
  cases applyEdit_effect hstep with
  | refused => rfl
  | written hvalid hact' hbefore hexists =>
    obtain ⟨-, -, htext, -⟩ := (validateEdit_eq_none_iff hvalid.action hvalid.kind).mp hvalid.valid
    have htitle' := (htext hact').1
    exact absurd (htitle.symm.trans htitle') Bool.false_ne_true
  | deleted hvalid hbefore => exact absurd (Stated.known.inj hvalid.action) hact

variable {before : Option HarnessEntry}

/-- A deletion that is not in conflict leaves no entry. -/
lemma get?_of_performEdit_delete
    (hperform : performEdit host options s edit .delete kind id before = (s', a))
    (hbefore : lookupRecord (s.entries kind) id = .ok before) :
    (s'.entries kind).get? id = none := by
  cases before with
  | none =>
    cases hperform
    exact get?_eq_none_of_lookup hbefore
  | some entry =>
    cases hperform
    rw [get?_deleted, if_pos ⟨rfl, rfl⟩]

/-- An entry that is there after an update was written by it. -/
lemma restorable_of_performEdit_update
    (hperform : performEdit host options s edit .update kind id before = (s', a))
    (hvalid : ValidEdit edit .update kind id) (hproto : id ≠ "__proto__")
    (hbefore : lookupRecord (s.entries kind) id = .ok before) :
    ∀ entry, (s'.entries kind).get? id = some entry → Restorable kind entry := by
  intro entry hentry
  cases before with
  | none =>
    cases hperform
    rw [get?_eq_none_of_lookup hbefore] at hentry
    cases hentry
  | some entry₀ =>
    cases hperform
    rw [get?_written _ _ _ _ _ hproto, if_pos ⟨rfl, rfl⟩] at hentry
    cases hentry
    exact writtenEntry_restorable hvalid nofun

lemma get?_of_performEdit_create
    (hperform : performEdit host options s edit .create kind id before = (s', a))
    (hproto : id ≠ "__proto__") (hbefore : lookupRecord (s.entries kind) id = .ok before) :
    (s'.entries kind).get? id ≠ none := by
  cases before with
  | none =>
    cases hperform
    rw [get?_written _ _ _ _ _ hproto, if_pos ⟨rfl, rfl⟩]
    exact Option.some_ne_none _
  | some entry =>
    cases hperform
    rcases lookupRecord_eq_ok_some_iff.mp hbefore with hentry | ⟨-, hid, -⟩
    · rw [hentry]
      exact Option.some_ne_none _
    · exact absurd hid hproto

/-- The record of an update or a deletion of an entry is undone by restoring it. -/
lemma exists_restoringEdit (t : String)
    (hperform : performEdit host options s edit action kind id (some entry) = (s', a))
    (hact : action ≠ .create) :
    ∃ action', action' ≠ .delete ∧
      rollbackEdit t a = some (restoringEdit t action' edit.kind id entry) := by
  cases action with
  | create => exact absurd rfl hact
  | update =>
    cases hperform
    exact ⟨.update, nofun, rfl⟩
  | delete =>
    cases hperform
    exact ⟨.create, nofun, rfl⟩

/-- **Only undoable edits are undone.** -/
lemma undoableEdit_of_sameHarness {t : String} (h₀ : WellFormed entries₀)
    (happly : applyEdits host options ⟨entries₀, []⟩ edits = .ok (s', as))
    (hback : applyEdits host' options' ⟨s'.entries, []⟩ (as.reverse.filterMap (rollbackEdit t)) =
      .ok (s'', bs))
    (hscope : options'.scope = options.scope) (hall : ∀ b ∈ bs, b.applied = true)
    (hsame : SameHarness entries₀ s''.entries) (hedit : edit ∈ edits) :
    UndoableEdit options entries₀ edit := by
  obtain ⟨pre, post, s₁, s₂, a, as₁, as₂, -, rfl, hpre, hstep, hpost⟩ :=
    exists_applyEdit_of_mem happly hedit
  have hprogress : Progress entries₀ s₁ := (Progress.initial h₀).run hpre
  obtain ⟨id, hid, -⟩ := Except.of_bind hstep
  refine ⟨id, hid, fun action kind hvalid => ?_⟩
  rw [applyEdit_of_valid hvalid] at hstep
  obtain ⟨before, hbefore, hrest⟩ := Except.of_bind hstep
  obtain ⟨baseline, hbase, -⟩ := Except.of_bind hrest
  cases hbefore₀ : lookupRecord (entries₀ kind) id with
  | error message =>
    obtain ⟨hnone, hinh⟩ := lookupRecord_eq_error hbefore₀
    have hnone' := applyEdits_inherited hinh hpre hnone
    rw [lookupRecord, hnone'] at hbefore
    simp only [if_pos hinh] at hbefore
    cases hbefore
  | ok before₀ =>
    refine ⟨before₀, baseline, rfl, hbase, fun hconf₀ => ?_⟩
    have hconf := hprogress.isConflict_eq_false hbefore₀ hbefore hconf₀
    rw [applyValidEdit_eq hbefore hbase hconf] at hstep
    have hperform : performEdit host options s₁ edit action kind id before = (s₂, a) :=
      Except.ok.inj hstep
    cases before₀ with
    | none =>
      -- an entry without a name cannot be taken away again
      rintro rfl rfl
      have hkept := applyEdits_unnamed hpost
        (get?_of_performEdit_create hperform (by decide) hbefore)
      have hend := applyEdits_unnamed hback hkept
      have hsame' := hsame kind ""
      rw [get?_eq_none_of_lookup hbefore₀, Option.map_none] at hsame'
      exact hend (Option.map_eq_none_iff.mp hsame'.symm)
    | some entry =>
      have hrestorable : action ≠ .create → Restorable kind entry := by
        intro hact
        rcases lookupRecord_eq_ok_some_iff.mp hbefore₀ with hentry | ⟨-, hproto, rfl⟩
        · have hproto := (h₀ kind id entry hentry).1
          have hwritten : ∀ entry, (s₂.entries kind).get? id = some entry →
              Restorable kind entry := by
            cases action with
            | create => exact absurd rfl hact
            | update => exact restorable_of_performEdit_update hperform hvalid hproto hbefore
            | delete =>
              intro entry hentry
              cases (get?_of_performEdit_delete hperform hbefore).symm.trans hentry
          have hkept := applyEdits_restorable hpost hwritten
          obtain ⟨entry', hentry', hvis⟩ := hsame.exists_visible hentry
          exact (applyEdits_restorable hback hkept entry' hentry').of_visible hvis.symm
        · -- what every object has under `__proto__` has no title to be restored with
          subst hproto
          obtain rfl : some {} = before :=
            Except.ok.inj ((lookupRecord_proto hprogress.wellFormed).symm.trans hbefore)
          obtain ⟨action', hact', hrestoring⟩ := exists_restoringEdit t hperform hact
          obtain ⟨b, hb, hunapplied⟩ := not_applied_of_untitled hact' rfl hback
            (List.mem_filterMap.mpr ⟨a, by simp, hrestoring⟩)
          exact absurd (hall b hb) (hunapplied ▸ Bool.false_ne_true)
      refine ⟨hrestorable, ?_⟩
      rintro rfl
      have hentry : (entries₀ kind).get? id = some entry := by
        rcases lookupRecord_eq_ok_some_iff.mp hbefore₀ with hentry | ⟨-, -, rfl⟩
        · exact hentry
        · exact absurd (hrestorable (by simp)).title Bool.false_ne_true
      have hdel := get?_of_performEdit_delete hperform hbefore
      obtain ⟨entry', hentry', hvis⟩ := hsame.exists_visible hentry
      refine ⟨?_, fun hinh => ?_⟩
      · have hkept := applyEdits_scope hpost fun entry hentry => by
          cases hdel.symm.trans hentry
        have hend := applyEdits_scope hback fun entry hentry => hscope ▸ hkept entry hentry
        rw [(HarnessEntry.visible_eq_iff.mp hvis).2.2.2.1, hend entry' hentry', hscope]
      · have hkept := applyEdits_inherited hinh hpost hdel
        have hend := applyEdits_inherited hinh hback hkept
        cases hend.symm.trans hentry'

end Necessity

/-! ## Which proposals are undone -/

section Theorem

variable {host host' : RefineHost} {options : ApplyOptions} {rollbackId : String}
  {state : HarnessState} {proposal : RefinementProposal}

/-- Rolling back, told by the entries alone. -/
lemma rollsBack_iff_applyEdits : RollsBack host host' options rollbackId state proposal ↔
      ∃ s as, applyEdits host options ⟨state.entries, []⟩ proposal.edits = .ok (s, as) ∧
        ∃ r bs, applyEdits host' (rollbackOptions options rollbackId options.id)
            ⟨s.entries, []⟩ (as.reverse.filterMap (rollbackEdit options.id)) = .ok (r, bs) ∧
          (∀ b ∈ bs, b.applied = true) ∧ SameHarness state.entries r.entries := by
  constructor
  · rintro ⟨state', result, happly, state'', result', hback, hall, hsame⟩
    obtain ⟨⟨s, as⟩, hedits, happly⟩ := Except.of_bind happly
    cases happly
    obtain ⟨⟨r, bs⟩, hedits', hback⟩ := Except.of_bind hback
    cases hback
    exact ⟨s, as, hedits, r, bs, hedits', hall, hsame⟩
  · rintro ⟨s, as, hedits, r, bs, hedits', hall, hsame⟩
    exact ⟨_, _, Except.bind_eq_ok_iff.mpr ⟨(s, as), hedits, rfl⟩, _, _,
      Except.bind_eq_ok_iff.mpr ⟨(r, bs), hedits', rfl⟩, hall, hsame⟩

/-- What is rolled back was undoable. -/
lemma RollsBack.undoableEdit (h : RollsBack host host' options rollbackId state proposal)
    (hstate : WellFormed state.entries) :
    ∀ edit ∈ proposal.edits, UndoableEdit options state.entries edit := by
  intro edit hedit
  obtain ⟨s, as, happly, r, bs, hback, hall, hsame⟩ := rollsBack_iff_applyEdits.mp h
  exact undoableEdit_of_sameHarness hstate happly hback rfl hall hsame hedit

/-- What can be undone is rolled back. -/
lemma rollsBack_of_undoableEdit (hstate : WellFormed state.entries)
    (hedits : ∀ edit ∈ proposal.edits, UndoableEdit options state.entries edit) :
    RollsBack host host' options rollbackId state proposal := by
  have hrun : ∃ s as, applyEdits host options ⟨state.entries, []⟩ proposal.edits = .ok (s, as) ∧
      Undoes host' (rollbackOptions options rollbackId options.id)
        (as.reverse.filterMap (rollbackEdit options.id)) state.entries s.entries :=
    (Tracked.start hstate).exists_undoes hedits rfl rfl
  obtain ⟨s, as, happly, hundoes⟩ := hrun
  have hwellFormed : WellFormed s.entries := ((Progress.initial hstate).run happly).wellFormed
  obtain ⟨r, bs, hback, hall, -, hsame⟩ := hundoes ⟨s.entries, []⟩ hwellFormed fun _ _ => rfl
  exact rollsBack_iff_applyEdits.mpr ⟨s, as, happly, r, bs, hback, hall, hsame⟩

end Theorem

/-- **Which proposals are undone by rolling back**: for whatever was loaded, those whose edits can
all be undone from there. -/
theorem rollsBack_iff (host host' : RefineHost) (options : ApplyOptions) (rollbackId : String)
    (content : Option (List UInt8)) (scope : HarnessScope) (proposal : RefinementProposal) :
    RollsBack host host' options rollbackId (loadHarnessState content scope) proposal ↔
      ∀ edit ∈ proposal.edits, UndoableEdit options (loadHarnessState content scope).entries edit :=
  ⟨fun h => h.undoableEdit (loadHarnessState_wellFormed content scope),
    rollsBack_of_undoableEdit (loadHarnessState_wellFormed content scope)⟩

/-- A file with a skill that has no reference. -/
def bareSkillFile : List UInt8 :=
  (Json.obj [("entries", .obj [("skill", .obj [("s", .obj [("title", .str "T"),
    ("content", .str "C")])])])]).stringify

def deletedSkill : RefinementProposal where
  summary := "tidy up"
  rationale := "unused"
  edits := [{ action := .known .delete, kind := .known .skill, id := some "s" }]
  expectedOutcome := "one skill less"

def noonHost : RefineHost where
  now := "2024-01-01T12:00:00.000Z"
  increment := fun _ => .num (.ofNat 2)

/-- The skill is deleted, and rolling back is refused the edit that would create it again. -/
theorem not_rollsBack_bareSkill :
    ¬ RollsBack noonHost noonHost { id := "r1" } "r2" (loadHarnessState (some bareSkillFile) .local)
      deletedSkill := by
  intro h
  have hloaded := loadHarnessState_wellFormed (some bareSkillFile) .local
  obtain ⟨id, hid, hundo⟩ := h.undoableEdit hloaded _ List.mem_cons_self
  cases hid
  obtain ⟨before, baseline, hbefore, hbaseline, hundo⟩ :=
    hundo .delete .skill ⟨rfl, rfl, rfl, by decide +kernel⟩
  have hreference : (((loadHarnessState (some bareSkillFile) .local).entries .skill).get? "s").map
      (fun entry => validateReference .create entry.reference) =
        some (some "create skill reference.type must be python") := by decide +kernel
  obtain ⟨entry, hentry, hrefused⟩ := Option.map_eq_some_iff.mp hreference
  cases hbefore.symm.trans (lookupRecord_of_some hentry)
  cases hrefused.symm.trans (((hundo rfl).1 nofun).reference rfl)

end Amide
