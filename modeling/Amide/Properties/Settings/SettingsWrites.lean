import Amide.Construction.Settings.SettingsManager
import Amide.Framework.Machine

/-!
# No settings change is lost

Managers over one settings file, in any interleaving that the lock allows.  A write carries the
keys that its manager had set, and not written yet, when it saved (`Marked`), so it puts these in
the file and keeps the others, as long as what it has read is what it replaces
(`settings_written`).

A manager does not restore a key that another one has changed after it was written; it forgets keys
whose write is still queued when another write of it succeeds; and a write that found no file
replaces one that is created meanwhile (`settings_written_not_restored`).
-/

namespace Amide

/-! ## Keys -/

namespace SettingKey

def value (settings : Settings) : SettingKey → Option Json
  | field f => settings.get? f
  | nested f k => (settings.get? f).bind fun value => value.spread.get? k

/-- Setting one of the keys changes the other. -/
def Overlaps : SettingKey → SettingKey → Prop
  | field f, field g | field f, nested g _ | nested f _, field g => f = g
  | nested f k, nested g l => f = g ∧ k = l

instance : DecidableRel Overlaps
  | field f, field g | field f, nested g _ | nested f _, field g =>
    inferInstanceAs (Decidable (f = g))
  | nested f k, nested g l => inferInstanceAs (Decidable (f = g ∧ k = l))

end SettingKey

lemma spread_obj (m : JsMap String Json) : (Json.obj m.entries).spread = m :=
  JsMap.foldl_set_empty m

/-! ## What a write does -/

/-- The marks are those of the keys in `unsaved`. -/
structure Marked (settings : Settings) (fields : List String)
    (nested : JsMap String (List String)) (unsaved : List SettingKey) : Prop where
  mem_fields : ∀ f, f ∈ fields ↔ .field f ∈ unsaved ∨ ∃ k, .nested f k ∈ unsaved
  mem_nested : ∀ f k, .nested f k ∈ unsaved ↔ ∃ ks, nested.get? f = some ks ∧ k ∈ ks
  settable : ∀ f, .field f ∈ unsaved → f ∈ SettingsManager.settableFields
  object : ∀ f ks, nested.get? f = some ks → f ∉ SettingsManager.settableFields ∧
    ∃ value, settings.get? f = some value ∧ value.isObject = true

variable {key : SettingKey}

namespace SettingsWrite

variable {w : SettingsWrite} {unsaved : List SettingKey} {current : Settings} {f k : String}

def Marked (w : SettingsWrite) : List SettingKey → Prop :=
  Amide.Marked w.snapshotSettings w.modifiedFields w.modifiedNestedFields

lemma get?_mergedSettings (w : SettingsWrite) (current : Settings) (f : String) :
    (w.mergedSettings current).get? f =
      if f ∈ w.modifiedFields then w.fieldValue current f else current.get? f :=
  JsMap.get?_foldl_assign (w.fieldValue current) w.modifiedFields current f

lemma fieldValue_of_none (h : w.modifiedNestedFields.get? f = none) :
    w.fieldValue current f = w.snapshotSettings.get? f := by
  rw [fieldValue]
  rw [h]

/-- A field with nested marks is given those of the snapshot on top of what the file has. -/
lemma value_nested_of_marked (h : w.Marked unsaved) {ks : List String}
    (hks : w.modifiedNestedFields.get? f = some ks) :
    (w.fieldValue current f).bind (fun value => value.spread.get? k) =
      if k ∈ ks then SettingKey.value w.snapshotSettings (.nested f k)
      else SettingKey.value current (.nested f k) := by
  obtain ⟨-, value, hvalue, hobject⟩ := h.object f ks hks
  rw [fieldValue]
  rw [hks, hvalue]
  dsimp only
  rw [if_pos hobject, Option.bind_some, spread_obj, JsMap.get?_foldl_assign]
  by_cases hk : k ∈ ks
  · rw [if_pos hk, if_pos hk, SettingKey.value, hvalue, Option.bind_some]
  · rw [if_neg hk, if_neg hk, SettingKey.value]
    rcases current.get? f with _ | base
    · rfl
    · rfl

/-- The keys that are marked have their value of the snapshot. -/
theorem value_mergedSettings_of_mem (h : w.Marked unsaved) (hkey : key ∈ unsaved) :
    key.value (w.mergedSettings current) = key.value w.snapshotSettings := by
  cases key with
  | field f =>
    have hnested : w.modifiedNestedFields.get? f = none := by
      rcases hks : w.modifiedNestedFields.get? f with _ | ks
      · rfl
      · exact absurd (h.settable f hkey) (h.object f ks hks).1
    rw [SettingKey.value, get?_mergedSettings, if_pos ((h.mem_fields f).2 (.inl hkey)),
      fieldValue_of_none hnested]
    rfl
  | nested f k =>
    obtain ⟨ks, hks, hk⟩ := (h.mem_nested f k).1 hkey
    rw [SettingKey.value, get?_mergedSettings, if_pos ((h.mem_fields f).2 (.inr ⟨k, hkey⟩)),
      value_nested_of_marked h hks, if_pos hk]

/-- The keys that overlap with no mark are kept. -/
theorem value_mergedSettings_of_not_overlaps (h : w.Marked unsaved)
    (hkey : ∀ key' ∈ unsaved, ¬ key.Overlaps key') :
    key.value (w.mergedSettings current) = key.value current := by
  cases key with
  | field f =>
    have hf : f ∉ w.modifiedFields := by
      intro hf
      rcases (h.mem_fields f).1 hf with hmem | ⟨k, hmem⟩
      · exact hkey _ hmem rfl
      · exact hkey _ hmem rfl
    rw [SettingKey.value, get?_mergedSettings, if_neg hf]
    rfl
  | nested f k =>
    rw [SettingKey.value, get?_mergedSettings]
    split_ifs with hf
    · rcases (h.mem_fields f).1 hf with hmem | ⟨l, hmem⟩
      · exact absurd rfl (hkey _ hmem)
      · obtain ⟨ks, hks, -⟩ := (h.mem_nested f l).1 hmem
        have hk : k ∉ ks := by
          intro hk
          exact hkey _ ((h.mem_nested f k).2 ⟨ks, hks, hk⟩) ⟨rfl, rfl⟩
        rw [value_nested_of_marked h hks, if_neg hk]
    · rfl

end SettingsWrite

/-! ## What a setter does -/

section Setters

variable {settings : Settings} {fields : List String} {nested : JsMap String (List String)}
  {unsaved : List SettingKey} {f : String}

lemma mem_addMark {marks : List String} {mark mark' : String} :
    mark' ∈ SettingsManager.addMark marks mark ↔ mark' ∈ marks ∨ mark' = mark := by
  rw [SettingsManager.addMark]
  split_ifs with h
  · constructor
    · exact .inl
    · rintro (hmem | rfl)
      · exact hmem
      · exact h
  · rw [List.mem_append, List.mem_singleton]

lemma marked_nil (settings : Settings) : Marked settings [] .empty [] := by
  constructor
  · simp
  · simp
  · simp
  · intro f ks hks
    cases hks

lemma Marked.setField (h : Marked settings fields nested unsaved)
    (hf : f ∈ SettingsManager.settableFields) (value : Option Json) :
    Marked (settings.assign f value) (SettingsManager.addMark fields f) nested
      (unsaved ++ [.field f]) := by
  refine ⟨?_, ?_, ?_, ?_⟩
  · intro g
    rw [mem_addMark, h.mem_fields]
    simp only [List.mem_append, List.mem_singleton, SettingKey.field.injEq, reduceCtorEq, or_false]
    tauto
  · intro g k
    rw [← h.mem_nested]
    simp
  · intro g hg
    rcases List.mem_append.1 hg with hg | hg
    · exact h.settable g hg
    · obtain rfl := SettingKey.field.inj (List.mem_singleton.1 hg)
      exact hf
  · intro g ks hks
    obtain ⟨hg, value', hvalue, hobject⟩ := h.object g ks hks
    refine ⟨hg, value', ?_, hobject⟩
    have hne : f ≠ g := by
      rintro rfl
      exact hg hf
    rw [JsMap.get?_assign, if_neg hne, hvalue]

lemma Marked.setNested (h : Marked settings fields nested unsaved)
    (hf : f ∉ SettingsManager.settableFields) (key : String) (m : JsMap String Json) :
    Marked (settings.set f (.obj m.entries)) (SettingsManager.addMark fields f)
      (nested.set f (SettingsManager.addMark ((nested.get? f).getD []) key))
      (unsaved ++ [.nested f key]) := by
  refine ⟨?_, ?_, ?_, ?_⟩
  · intro g
    rw [mem_addMark, h.mem_fields]
    simp only [List.mem_append, List.mem_singleton, SettingKey.nested.injEq, reduceCtorEq, or_false,
      exists_or, exists_and_left, exists_eq, and_true]
    tauto
  · intro g k
    rw [JsMap.get?_set, List.mem_append, List.mem_singleton, h.mem_nested]
    by_cases hg : f = g
    · subst hg
      rw [if_pos rfl]
      simp only [SettingKey.nested.injEq, true_and, Option.some.injEq, exists_eq_left', mem_addMark]
      rcases nested.get? f with _ | ks
      · simp
      · simp
    · rw [if_neg hg]
      simp [Ne.symm hg]
  · intro g hg
    rcases List.mem_append.1 hg with hg | hg
    · exact h.settable g hg
    · cases List.mem_singleton.1 hg
  · intro g ks hks
    rw [JsMap.get?_set] at hks ⊢
    by_cases hg : f = g
    · subst hg
      exact ⟨hf, _, if_pos rfl, rfl⟩
    · rw [if_neg hg] at hks ⊢
      exact h.object g ks hks

end Setters

variable {changes : List (String × Option Json)}

namespace SettingsManager

variable {m : SettingsManager} {unsaved : List SettingKey}

def Marked (m : SettingsManager) : List SettingKey → Prop :=
  Amide.Marked m.globalSettings m.modifiedFields m.modifiedNestedFields

lemma settableKeys_apart : ∀ p ∈ settableKeys, p.1 ∉ settableFields ∧ p.2 ≠ "" := by
  decide

lemma Marked.save (h : m.Marked unsaved) : m.save.Marked unsaved := by
  rw [SettingsManager.save]
  split
  · exact h
  · exact h

lemma writeQueue_save (m : SettingsManager) : m.save.writeQueue =
    if m.globalSettingsLoadError.isSome then m.writeQueue
    else m.writeQueue ++ [⟨m.globalSettings, m.modifiedFields, m.modifiedNestedFields⟩] := by
  rw [SettingsManager.save]
  rcases h : m.globalSettingsLoadError with _ | error
  · rfl
  · rfl

/-- The changes of `setFields`, before it saves. -/
def changeFields (m : SettingsManager) (changes : List (String × Option Json)) : SettingsManager :=
  changes.foldl
    (fun (m : SettingsManager) change =>
      { m with globalSettings := m.globalSettings.assign change.1 change.2 }.markModified
        change.1 none) m

lemma Marked.changeFields (h : m.Marked unsaved)
    (hsettable : ∀ change ∈ changes, change.1 ∈ settableFields) :
    (m.changeFields changes).Marked (unsaved ++ changes.map fun change => .field change.1) := by
  induction changes generalizing m unsaved with
  | nil =>
    rw [List.map_nil, List.append_nil]
    exact h
  | cons change changes ih =>
    have hfirst : SettingsManager.Marked
        ({ m with globalSettings := m.globalSettings.assign change.1 change.2 }.markModified
          change.1 none) (unsaved ++ [.field change.1]) :=
      h.setField (hsettable change List.mem_cons_self) change.2
    have hrest := ih hfirst fun change' hmem => hsettable change' (List.mem_cons_of_mem _ hmem)
    rwa [List.append_assoc] at hrest

lemma changeFields_writeQueue (m : SettingsManager) (changes : List (String × Option Json)) :
    (m.changeFields changes).writeQueue = m.writeQueue ∧
      (m.changeFields changes).globalSettingsLoadError = m.globalSettingsLoadError := by
  induction changes generalizing m with
  | nil => exact ⟨rfl, rfl⟩
  | cons change changes ih => exact ih _

end SettingsManager

/-! ## Runs -/

variable {value : Option Json}

namespace SettingsParty

variable {p : SettingsParty}

/-- The marks of a manager, of its queued writes and of the running one are those of the keys that
the record has. -/
structure Consistent (p : SettingsParty) : Prop where
  marked : p.manager.Marked p.record.unsaved
  queued : List.Forall₂ (fun w record => w.Marked record.unsaved) p.manager.writeQueue p.queued
  running : ∀ w, p.phase.task = some (.write w) → w.Marked p.running.unsaved

lemma Consistent.afterSetter (h : p.Consistent) {m : SettingsManager} {keys : List SettingKey}
    (hmarked : m.Marked (p.record.unsaved ++ keys))
    (hqueue : m.writeQueue = p.manager.writeQueue ∧
      m.globalSettingsLoadError = p.manager.globalSettingsLoadError) :
    (p.afterSetter m.save keys).Consistent := by
  refine ⟨hmarked.save, ?_, h.running⟩
  rw [SettingsParty.afterSetter]
  rw [SettingsManager.writeQueue_save, hqueue.1, hqueue.2]
  split_ifs
  · exact h.queued
  · exact List.rel_append h.queued (List.Forall₂.cons hmarked .nil)

lemma Consistent.setFields (h : p.Consistent)
    (hsettable : ∀ change ∈ changes, change.1 ∈ SettingsManager.settableFields) :
    (p.afterSetter (p.manager.setFields changes)
      (changes.map fun change => .field change.1)).Consistent :=
  h.afterSetter (h.marked.changeFields hsettable) (p.manager.changeFields_writeQueue changes)

lemma Consistent.setNested (h : p.Consistent) {field key : String}
    (hsettable : (field, key) ∈ SettingsManager.settableKeys ∨ field = "mcpServers" ∧ key ≠ "")
    (hbase : (SettingsManager.nestedBase field (p.manager.globalSettings.get? field)).isSome) :
    (p.afterSetter (p.manager.setNested field key value) [.nested field key]).Consistent := by
  obtain ⟨base, hbase⟩ := Option.isSome_iff_exists.1 hbase
  obtain ⟨hfield, hkey⟩ : field ∉ SettingsManager.settableFields ∧ key ≠ "" := by
    rcases hsettable with hmem | ⟨rfl, hkey⟩
    · exact SettingsManager.settableKeys_apart _ hmem
    · exact ⟨by decide, hkey⟩
  rw [SettingsManager.setNested, hbase]
  refine h.afterSetter ?_ ⟨rfl, rfl⟩
  rw [SettingsManager.markModified]
  · exact h.marked.setNested hfield key (base.assign key value)
  · exact hkey

lemma Consistent.afterLoad (h : p.Consistent) (loaded : Except String Settings) :
    (p.afterLoad loaded).Consistent := by
  refine ⟨?_, ?_, ?_⟩
  · cases loaded with
    | ok settings | error error => exact marked_nil _
  · cases loaded with
    | ok settings | error error => exact h.queued
  · rintro w hw
    cases hw

end SettingsParty

/-- What the lock guarantees to the manager `i`. -/
def LockPhase.Holds {ι : Type} (file : Option SettingsText) (holder : Option ι) (i : ι) :
    LockPhase → Prop
  | .idle | .checked _ _ => True
  | .locked _ => holder = some i
  | .read _ fileExists current =>
    if fileExists then holder = some i ∧ current = file else current = none
  | .ready w fileExists next => holder = some i ∧ ∃ settings,
    parseSettings (if fileExists then file else none) = .ok settings ∧
      next = w.mergedSettings settings
  | .renamed w fileExists before => holder = some i ∧ ∃ settings,
    parseSettings (if fileExists then before else none) = .ok settings ∧
      file = some (.holds (.obj (w.mergedSettings settings).entries))

variable {file : Option SettingsText}

namespace SettingsSystem

variable {ι : Type} [DecidableEq ι] {s s' : SettingsSystem ι} {i : ι} {move : SettingsMove}

structure Consistent (s : SettingsSystem ι) : Prop where
  party : ∀ i, (s.parties i).Consistent
  phase : ∀ i, (s.parties i).phase.Holds s.file s.holder i

omit [DecidableEq ι] in
/-- What a manager knows of the file stands as long as it holds the lock. -/
lemma holds_of_holder {phase : LockPhase} {file' : Option SettingsText} {holder holder' : Option ι}
    (h : phase.Holds file holder i) (hkeep : holder = some i → holder' = some i ∧ file' = file) :
    phase.Holds file' holder' i := by
  cases phase with
  | idle | checked => trivial
  | locked => exact (hkeep h).1
  | read task fileExists current =>
    cases fileExists with
    | false => exact h
    | true =>
      obtain ⟨hholder, rfl⟩ := h
      exact ⟨(hkeep hholder).1, (hkeep hholder).2.symm⟩
  | ready | renamed =>
    obtain ⟨hholder', rfl⟩ := hkeep h.1
    exact ⟨hholder', h.2⟩

variable {p : SettingsParty}

/-- A step of `i` that leaves to the others the lock and what it covers. -/
lemma Consistent.setParty (h : s.Consistent) {holder : Option ι} (hp : p.Consistent)
    (hphase : p.phase.Holds file holder i)
    (hothers : ∀ j, j ≠ i → s.holder = some j → holder = some j ∧ file = s.file) :
    Consistent { s.setParty i p with file, holder } := by
  refine ⟨?_, ?_⟩
  · intro j
    rw [SettingsSystem.setParty]
    dsimp only
    by_cases hj : j = i
    · subst hj
      rwa [Function.update_self]
    · rw [Function.update_of_ne hj]
      exact h.party j
  · intro j
    rw [SettingsSystem.setParty]
    dsimp only
    by_cases hj : j = i
    · subst hj
      rwa [Function.update_self]
    · rw [Function.update_of_ne hj]
      exact holds_of_holder (h.phase j) (hothers j hj)

/-- A step of `i` that leaves the file and the lock as they are. -/
lemma Consistent.setParty_same (h : s.Consistent) (hp : p.Consistent)
    (hphase : p.phase.Holds s.file s.holder i) : (s.setParty i p).Consistent :=
  h.setParty hp hphase fun _ _ hj => ⟨hj, rfl⟩

/-- A step of `i` that ends a call. -/
lemma Consistent.setParty_release (h : s.Consistent) (hp : p.Consistent)
    (hphase : p.phase = .idle) : Consistent { s.setParty i p with holder := s.release i } := by
  refine h.setParty hp ?_ ?_
  · rw [hphase]
    trivial
  · intro j hj hholder
    refine ⟨?_, rfl⟩
    rw [release, if_neg, hholder]
    rw [hholder]
    exact fun heq => hj (Option.some.inj heq)

lemma Consistent.perform (h : s.Consistent) (hmove : s.perform i move = some s') :
    s'.Consistent := by
  have hp := h.party i
  have hphase := h.phase i
  unfold SettingsSystem.perform at hmove
  dsimp only at hmove
  split at hmove
  · -- `setFields`
    split_ifs at hmove with hsettable
    cases hmove
    refine h.setParty_same (hp.setFields hsettable) ?_
    exact hphase
  · -- `setNested`
    split_ifs at hmove with hsettable
    cases hmove
    refine h.setParty_same (hp.setNested hsettable.1 hsettable.2) ?_
    exact hphase
  · -- `write`
    split at hmove
    · rename_i w writeQueue record queued hqueue hqueued
      cases hmove
      refine h.setParty_same ?_ trivial
      obtain ⟨hw, hrest⟩ : w.Marked record.unsaved ∧ List.Forall₂
          (fun w (record : SaveRecord) => w.Marked record.unsaved) writeQueue queued := by
        have hforall := hp.queued
        rw [hqueue, hqueued] at hforall
        exact List.forall₂_cons.1 hforall
      refine ⟨hp.marked, hrest, ?_⟩
      rintro w' hw'
      obtain rfl := SettingsTask.write.inj (Option.some.inj hw')
      exact hw
    · cases hmove
  · -- `load`
    cases hmove
    refine h.setParty_same ⟨hp.marked, hp.queued, ?_⟩ trivial
    rintro w hw
    cases hw
  · -- `lock`
    rename_i task hchecked
    split_ifs at hmove with hholder
    cases hmove
    refine h.setParty ⟨hp.marked, hp.queued, ?_⟩ rfl ?_
    · intro w hw
      exact hp.running w (hchecked ▸ hw)
    · intro j _ hj
      cases hholder.symm.trans hj
  · -- `read`
    rename_i task hlocked
    cases hmove
    refine h.setParty_same ⟨hp.marked, hp.queued, ?_⟩ ?_
    · intro w hw
      exact hp.running w (hlocked ▸ hw)
    · rw [hlocked] at hphase
      exact ⟨hphase, rfl⟩
  · -- `read`, where there is no file
    rename_i task hchecked
    cases hmove
    refine h.setParty_same ⟨hp.marked, hp.queued, ?_⟩ rfl
    intro w hw
    exact hp.running w (hchecked ▸ hw)
  · -- `merge`
    rename_i w fileExists current hread
    split at hmove
    · cases hmove
    · rename_i settings hparse
      split_ifs at hmove with hlock
      cases hmove
      rw [hread] at hphase
      refine h.setParty ⟨hp.marked, hp.queued, ?_⟩ ?_ ?_
      · intro w' hw'
        exact hp.running w' (hread ▸ hw')
      · refine ⟨rfl, settings, ?_, rfl⟩
        cases fileExists with
        | true =>
          have hcur : current = s.file := hphase.2
          rwa [hcur] at hparse
        | false =>
          have hcur : current = none := hphase
          rwa [hcur] at hparse
      · intro j hj hholder
        exfalso
        cases fileExists with
        | true => exact hj (Option.mem_unique hholder hphase.1)
        | false => cases hholder.symm.trans (hlock.resolve_left Bool.false_ne_true)
  · -- `rename`
    rename_i w fileExists next hready
    cases hmove
    rw [hready] at hphase
    obtain ⟨hholder, settings, hparse, rfl⟩ := hphase
    refine h.setParty ⟨hp.marked, hp.queued, ?_⟩ ⟨hholder, settings, hparse, rfl⟩ ?_
    · intro w' hw'
      exact hp.running w' (hready ▸ hw')
    · intro j hj hholder'
      exact absurd (Option.mem_unique hholder' hholder) hj
  · -- `finish` of a write
    cases hmove
    refine h.setParty_release ⟨marked_nil _, hp.queued, ?_⟩ rfl
    rintro w' hw'
    cases hw'
  · -- `finish` of a load
    cases hmove
    exact h.setParty_release (hp.afterLoad _) rfl
  · -- `fail`
    split at hmove
    · cases hmove
      refine h.setParty_release ⟨hp.marked, hp.queued, ?_⟩ rfl
      rintro w' hw'
      cases hw'
    · cases hmove
      exact h.setParty_release (hp.afterLoad _) rfl
    · cases hmove
  · cases hmove

/-- The moves of the managers. -/
def moves (ι : Type) [DecidableEq ι] : Machine (SettingsSystem ι) (ι × SettingsMove) where
  step s l s' := s.perform l.1 l.2 = some s'

/-- The managers have just been created. -/
def Fresh (s : SettingsSystem ι) : Prop :=
  (∀ i, s.parties i = {}) ∧ s.holder = none

omit [DecidableEq ι] in
lemma Fresh.consistent (h : s.Fresh) : s.Consistent := by
  refine ⟨?_, ?_⟩
  · intro i
    rw [h.1 i]
    exact ⟨marked_nil _, .nil, fun _ hw => nomatch hw⟩
  · intro i
    rw [h.1 i]
    trivial

end SettingsSystem

/-- The settings that a file has, as they are written there. -/
def fileSettings : Option SettingsText → Settings
  | some (.holds value) => value.spread
  | _ => .empty

/-- The fields that `migrateSettings` changes. -/
def migratedFields : List String :=
  ["queueMode", "steeringMode", "websockets", "transport", "skills", "enableSkillCommands", "retry",
    "telemetry", "markdown"]

section Migration

variable {settings : Settings} {f : String}

lemma get?_migrateQueueMode (hqueue : "queueMode" ≠ f) (hsteering : "steeringMode" ≠ f) :
    (migrateQueueMode settings).get? f = settings.get? f := by
  rw [migrateQueueMode]
  split
  · split_ifs
    · rfl
    · rw [JsMap.get?_delete, if_neg hqueue, JsMap.get?_set, if_neg hsteering]
  · rfl

lemma get?_migrateWebsockets (hwebsockets : "websockets" ≠ f) (htransport : "transport" ≠ f) :
    (migrateWebsockets settings).get? f = settings.get? f := by
  rw [migrateWebsockets]
  split
  · rename_i websockets _
    generalize (if websockets = true then "websocket" else "sse") = transport
    split_ifs
    · rfl
    · rw [JsMap.get?_delete, if_neg hwebsockets, JsMap.get?_set, if_neg htransport]
  · rfl

lemma get?_migrateSkills (hskills : "skills" ≠ f) (hcommands : "enableSkillCommands" ≠ f) :
    (migrateSkills settings).get? f = settings.get? f := by
  rw [migrateSkills]
  split
  · rename_i fields _
    have hassigned : (if settings.has "enableSkillCommands" then settings
        else settings.assign "enableSkillCommands"
          ((Json.obj fields).spread.get? "enableSkillCommands")).get? f = settings.get? f := by
      split_ifs
      · rfl
      · rw [JsMap.get?_assign, if_neg hcommands]
    dsimp only
    split
    · rw [JsMap.get?_set, if_neg hskills, hassigned]
    · rw [JsMap.get?_delete, if_neg hskills, hassigned]
  · rfl

lemma get?_migrateRetry (hretry : "retry" ≠ f) :
    (migrateRetry settings).get? f = settings.get? f := by
  rw [migrateRetry]
  split
  · exact (JsMap.get?_set _ _ _ _).trans (if_neg hretry)
  · rfl

lemma get?_migrateTelemetry (htelemetry : "telemetry" ≠ f) :
    (migrateTelemetry settings).get? f = settings.get? f := by
  rw [migrateTelemetry]
  split
  · rw [JsMap.get?_set, if_neg htelemetry]
  · split_ifs
    · rfl
    · rw [JsMap.get?_delete, if_neg htelemetry]
  · rfl

lemma get?_migrateMarkdown (hmarkdown : "markdown" ≠ f) :
    (migrateMarkdown settings).get? f = settings.get? f := by
  rw [migrateMarkdown]
  split
  · split_ifs
    · rfl
    · rw [JsMap.get?_delete, if_neg hmarkdown]
  · rfl

lemma get?_migrateSettings (hf : f ∉ migratedFields) (settings : Settings) :
    (migrateSettings settings).get? f = settings.get? f := by
  have hne : ∀ g ∈ migratedFields, g ≠ f := by
    rintro g hg rfl
    exact hf hg
  rw [migrateSettings, get?_migrateMarkdown (hne _ (by decide)),
    get?_migrateTelemetry (hne _ (by decide)), get?_migrateRetry (hne _ (by decide)),
    get?_migrateSkills (hne _ (by decide)) (hne _ (by decide)),
    get?_migrateWebsockets (hne _ (by decide)) (hne _ (by decide)),
    get?_migrateQueueMode (hne _ (by decide)) (hne _ (by decide))]

end Migration

/-- What `parseSettings` makes of the settings in a file. -/
lemma value_parseSettings {settings : Settings}
    (hstable : ∀ settings, key.value settings = value →
      key.value (migrateSettings settings) = value)
    (hvalue : key.value (fileSettings file) = value) (hparse : parseSettings file = .ok settings) :
    key.value settings = value := by
  rcases file with _ | text
  · exact Except.ok.inj hparse ▸ hvalue
  · cases text with
    | empty => exact Except.ok.inj hparse ▸ hvalue
    | malformed error => cases hparse
    | holds json =>
      rw [parseSettings] at hparse
      split_ifs at hparse
      exact Except.ok.inj hparse ▸ hstable _ hvalue

namespace SettingsSystem

variable {ι : Type} [DecidableEq ι] {s s' t u : SettingsSystem ι} {i : ι} {move : SettingsMove}
  {key : SettingKey}

/-- The file is changed by `rename` alone. -/
lemma file_perform (hmove : s.perform i move = some s') :
    s'.file = s.file ∨ ∃ w fileExists next, move = .rename ∧
      (s.parties i).phase = .ready w fileExists next ∧
      s'.file = some (.holds (.obj next.entries)) := by
  unfold perform at hmove
  dsimp only at hmove
  split at hmove
  · -- `setFields`
    split_ifs at hmove
    cases hmove
    exact .inl rfl
  · -- `setNested`
    split_ifs at hmove
    cases hmove
    exact .inl rfl
  · -- `write`
    split at hmove
    · cases hmove
      exact .inl rfl
    · cases hmove
  · -- `load`
    cases hmove
    exact .inl rfl
  · -- `lock`
    split_ifs at hmove
    cases hmove
    exact .inl rfl
  · -- `read`
    cases hmove
    exact .inl rfl
  · -- `read`, where there is no file
    cases hmove
    exact .inl rfl
  · -- `merge`
    split at hmove
    · cases hmove
    · split_ifs at hmove
      cases hmove
      exact .inl rfl
  · rename_i w fileExists next hready
    cases hmove
    exact .inr ⟨w, fileExists, next, rfl, hready, rfl⟩
  · -- `finish` of a write
    cases hmove
    exact .inl rfl
  · -- `finish` of a load
    cases hmove
    exact .inl rfl
  · -- `fail`
    split at hmove
    · cases hmove
      exact .inl rfl
    · cases hmove
      exact .inl rfl
    · cases hmove
  · cases hmove

/-- A write that replaces the file has found one, or there still is none, and its manager has not
set the key, nor one that overlaps with it. -/
def Spares (key : SettingKey) (s : SettingsSystem ι) (l : ι × SettingsMove) : Prop :=
  l.2 = .rename → ∀ w fileExists next, (s.parties l.1).phase = .ready w fileExists next →
    (fileExists = true ∨ s.file = none) ∧
      ∀ key' ∈ (s.parties l.1).running.unsaved, ¬ key.Overlaps key'

/-- What a key has in the file stays there while the writes of others spare it, if it is none that
`migrateSettings` changes. -/
theorem Consistent.value_of_spares (h : t.Consistent) {ls : List (ι × SettingsMove)}
    (hrun : ((moves ι).guard (Spares key)).Run t ls u)
    (hstable : ∀ settings, key.value settings = value →
      key.value (migrateSettings settings) = value)
    (hvalue : key.value (fileSettings t.file) = value) :
    key.value (fileSettings u.file) = value := by
  have hall : u.Consistent ∧ key.value (fileSettings u.file) = value := by
    refine hrun.invariant
      (I := fun s => s.Consistent ∧ key.value (fileSettings s.file) = value) ⟨h, hvalue⟩ ?_
    rintro s₁ ⟨i, move⟩ s₂ ⟨h₁, hvalue₁⟩ ⟨hmove, hspares⟩
    refine ⟨h₁.perform hmove, ?_⟩
    rcases file_perform hmove with hfile | ⟨w, fileExists, next, rfl, hready, hfile⟩
    · rwa [hfile]
    · obtain ⟨hexists, hapart⟩ := hspares rfl w fileExists next hready
      have hholds := h₁.phase i
      rw [hready] at hholds
      obtain ⟨-, settings, hparse, rfl⟩ := hholds
      have hmarked := (h₁.party i).running w (by rw [hready]; rfl)
      rw [hfile, fileSettings, spread_obj,
        SettingsWrite.value_mergedSettings_of_not_overlaps hmarked hapart]
      have hread : (if fileExists then s₁.file else none) = s₁.file := by
        rcases hexists with rfl | hnone
        · rfl
        · rw [hnone]
          exact ite_self _
      rw [hread] at hparse
      exact value_parseSettings hstable hvalue₁ hparse
  exact hall.2

end SettingsSystem

/-- **A write puts into the file what its manager has set and not written yet, and keeps the rest.**
When a write of `i` has replaced the file and is about to succeed, every key that `i` had set, as of
the save, since its last reload and since a write of it last succeeded, has in the file its value at
that save.  If the write found a file, or there was none until it replaced it, every other key has
the value it had there before, up to `migrateSettings`.  So what is in the file stays there as long
as the writes that follow are of managers that have not set it. -/
theorem settings_written {ι : Type} [DecidableEq ι] {s t : SettingsSystem ι}
    {ls : List (ι × SettingsMove)} (hfresh : s.Fresh) (hrun : (SettingsSystem.moves ι).Run s ls t)
    {i : ι} {w : SettingsWrite} {fileExists : Bool} {before : Option SettingsText}
    (hphase : (t.parties i).phase = .renamed w fileExists before) :
    (∀ key ∈ (t.parties i).running.unsaved,
      key.value (fileSettings t.file) = key.value w.snapshotSettings) ∧
    (fileExists = true ∨ before = none → ∃ current, parseSettings before = .ok current ∧
        ∀ key : SettingKey, (∀ key' ∈ (t.parties i).running.unsaved, ¬ key.Overlaps key') →
          key.value (fileSettings t.file) = key.value current) ∧
    ∀ (key : SettingKey) (value : Option Json),
      (∀ settings, key.value settings = value → key.value (migrateSettings settings) = value) →
      ∀ (ls' : List (ι × SettingsMove)) (u : SettingsSystem ι),
        ((SettingsSystem.moves ι).guard (SettingsSystem.Spares key)).Run t ls' u →
        key.value (fileSettings t.file) = value → key.value (fileSettings u.file) = value := by
  have h : t.Consistent := hrun.invariant hfresh.consistent fun s₁ l s₂ h hstep => h.perform hstep
  have hmarked : w.Marked (t.parties i).running.unsaved :=
    (h.party i).running w (by rw [hphase]; rfl)
  have hholds := h.phase i
  rw [hphase] at hholds
  obtain ⟨-, settings, hparse, hfile⟩ := hholds
  have hwritten : fileSettings t.file = w.mergedSettings settings := by
    rw [hfile, fileSettings, spread_obj]
  refine ⟨?_, ?_, fun key value hstable ls' u hrun' hvalue =>
    h.value_of_spares hrun' hstable hvalue⟩
  · intro key hkey
    rw [hwritten]
    exact SettingsWrite.value_mergedSettings_of_mem hmarked hkey
  intro hbefore
  rw [hwritten]
  have hread : (if fileExists then before else none) = before := by
    rcases hbefore with rfl | rfl
    · rfl
    · exact ite_self _
  rw [hread] at hparse
  exact ⟨settings, hparse, fun key hkey =>
    SettingsWrite.value_mergedSettings_of_not_overlaps hmarked hkey⟩

/-! ## What a write does not restore -/

/-- As far as a write of `i` has replaced the file: what the manager has set since its last reload
has its value there, and the rest is kept. -/
def SettingsSystem.Restored {ι : Type} (s : SettingsSystem ι) (i : ι) : Prop :=
  ∀ w fileExists before, (s.parties i).phase = .renamed w fileExists before →
    (∀ key ∈ (s.parties i).running.touched,
      key.value (fileSettings s.file) = key.value w.snapshotSettings) ∧
    ∀ current, parseSettings before = .ok current → ∀ key : SettingKey,
      (∀ key' ∈ (s.parties i).running.touched, ¬ key.Overlaps key') →
      key.value (fileSettings s.file) = key.value current

/-- A key that was set is missing in the file. -/
def SettingsParty.loses (p : SettingsParty) (file : Option SettingsText) (key : SettingKey) :
    Bool :=
  match p.phase with
  | .renamed w _ _ => key ∈ p.running.touched && (key.value w.snapshotSettings).isSome &&
      (key.value (fileSettings file)).isNone
  | _ => false

/-- A key that was not set has gone from the file. -/
def SettingsParty.undoes (p : SettingsParty) (file : Option SettingsText) (key : SettingKey) :
    Bool :=
  match p.phase with
  | .renamed _ _ before =>
    match parseSettings before with
    | .ok current => (∀ key' ∈ p.running.touched, ¬ key.Overlaps key') &&
        (key.value current).isSome && (key.value (fileSettings file)).isNone
    | .error _ => false
  | _ => false

section NotRestored

variable {ι : Type} {s : SettingsSystem ι} {i : ι} {key : SettingKey}

lemma not_restored_of_loses (h : (s.parties i).loses s.file key = true) : ¬ s.Restored i := by
  intro hrestored
  rw [SettingsParty.loses] at h
  split at h
  · rename_i w fileExists before hphase
    simp only [Bool.and_eq_true, decide_eq_true_eq] at h
    obtain ⟨⟨hmem, hset⟩, hgone⟩ := h
    rw [(hrestored w fileExists before hphase).1 key hmem, Option.isNone_iff_eq_none] at hgone
    rw [hgone] at hset
    cases hset
  · cases h

lemma not_restored_of_undoes (h : (s.parties i).undoes s.file key = true) : ¬ s.Restored i := by
  intro hrestored
  rw [SettingsParty.undoes] at h
  split at h
  · rename_i w fileExists before hphase
    split at h
    · rename_i current hparse
      simp only [Bool.and_eq_true, decide_eq_true_eq] at h
      obtain ⟨⟨hapart, hset⟩, hgone⟩ := h
      rw [(hrestored w fileExists before hphase).2 current hparse key hapart,
        Option.isNone_iff_eq_none] at hgone
      rw [hgone] at hset
      cases hset
    · cases h
  · cases h

end NotRestored

def createdOver (file : Option SettingsText) : SettingsSystem Bool where
  parties _ := {}
  file := file

lemma createdOver_fresh (file : Option SettingsText) : (createdOver file).Fresh :=
  ⟨fun _ => rfl, rfl⟩

def performAll (s : SettingsSystem Bool) (ls : List (Bool × SettingsMove)) :
    Option (SettingsSystem Bool) :=
  ls.foldlM (fun s l => s.perform l.1 l.2) s

lemma exists_of_performAll (s : SettingsSystem Bool) (ls : List (Bool × SettingsMove))
    (check : SettingsSystem Bool → Bool) (h : (performAll s ls).any check = true) :
    ∃ t, (SettingsSystem.moves Bool).Run s ls t ∧ check t = true := by
  rcases hrun : performAll s ls with _ | t
  · rw [hrun] at h
    cases h
  · rw [hrun] at h
    exact ⟨t, Machine.Run.of_foldlM (fun _ _ _ hmove => hmove) hrun, h⟩

/-- The moves of a load and of a write, where there is a file. -/
def loadMoves (i : Bool) : List (Bool × SettingsMove) :=
  [(i, .load), (i, .lock), (i, .read), (i, .finish)]

def writeMoves (i : Bool) : List (Bool × SettingsMove) :=
  [(i, .write), (i, .lock), (i, .read), (i, .merge), (i, .rename)]

def setMove (i : Bool) (field : String) (value : Option Json) : Bool × SettingsMove :=
  (i, .setFields [(field, value)])

/-- Another manager has changed the key since. -/
def changedByAnother : List (Bool × SettingsMove) :=
  loadMoves true ++ loadMoves false ++ [setMove true "shellPath" (some (.str "/bin/sh"))] ++
    writeMoves true ++ [(true, .finish), setMove false "shellPath" none] ++ writeMoves false ++
    [(false, .finish), setMove true "theme" (some (.str "dark"))] ++ writeMoves true

/-- A write succeeds while that of the key is queued, which fails then. -/
def forgotten : List (Bool × SettingsMove) :=
  loadMoves true ++ [setMove true "theme" (some (.str "dark")),
    setMove true "shellPath" (some (.str "/bin/sh"))] ++ writeMoves true ++
    [(true, .finish), (true, .write), (true, .fail "ENOSPC"),
      setMove true "quietStartup" (some (.bool true))] ++ writeMoves true

/-- The file is created after a write has looked for it. -/
def created : List (Bool × SettingsMove) :=
  [(true, .load), (true, .read), (true, .finish), (false, .load), (false, .read), (false, .finish),
    setMove true "theme" (some (.str "dark")), setMove false "quietStartup" (some (.bool true)),
    (true, .write), (true, .read), (false, .write), (false, .read), (false, .merge),
    (false, .rename), (false, .finish), (true, .merge), (true, .rename)]

def emptyFile : Option SettingsText :=
  some (.holds (.obj []))

/-- A write does not restore what another manager has changed, what the manager has forgotten, or
what was written after it looked for the file. -/
theorem settings_written_not_restored :
    (∃ t, (SettingsSystem.moves Bool).Run (createdOver emptyFile) changedByAnother t ∧
      ¬ t.Restored true) ∧
    (∃ t, (SettingsSystem.moves Bool).Run (createdOver emptyFile) forgotten t ∧ ¬ t.Restored true) ∧
    ∃ t, (SettingsSystem.moves Bool).Run (createdOver none) created t ∧ ¬ t.Restored true := by
  refine ⟨?_, ?_, ?_⟩
  · obtain ⟨t, hrun, hloses⟩ := exists_of_performAll (createdOver emptyFile) changedByAnother
      (fun t => (t.parties true).loses t.file (.field "shellPath")) (by decide +kernel)
    exact ⟨t, hrun, not_restored_of_loses hloses⟩
  · obtain ⟨t, hrun, hloses⟩ := exists_of_performAll (createdOver emptyFile) forgotten
      (fun t => (t.parties true).loses t.file (.field "shellPath")) (by decide +kernel)
    exact ⟨t, hrun, not_restored_of_loses hloses⟩
  · obtain ⟨t, hrun, hundoes⟩ := exists_of_performAll (createdOver none) created
      (fun t => (t.parties true).undoes t.file (.field "quietStartup")) (by decide +kernel)
    exact ⟨t, hrun, not_restored_of_undoes hundoes⟩

def LockPhase.overwrote : LockPhase → Bool
  | .renamed _ true _ => true
  | _ => false

/-- A write over a file with another field; the lock is released after it. -/
theorem settings_written_theme : ∃ t u w before, (SettingsSystem.moves Bool).Run
      (createdOver (some (.holds (.obj [("quietStartup", .bool true)]))))
      (loadMoves true ++ [setMove true "theme" (some (.str "dark"))] ++ writeMoves true) t ∧
    (t.parties true).phase = .renamed w true before ∧
    (SettingKey.field "theme").value (fileSettings t.file) =
      (SettingKey.field "theme").value w.snapshotSettings ∧
    (∃ current, parseSettings before = .ok current ∧
      (SettingKey.field "quietStartup").value (fileSettings t.file) =
        (SettingKey.field "quietStartup").value current) ∧
    (SettingsSystem.moves Bool).Run t [(true, .finish)] u ∧
    (SettingKey.field "theme").value (fileSettings u.file) =
      (SettingKey.field "theme").value (fileSettings t.file) := by
  obtain ⟨t, hrun, hcheck⟩ := exists_of_performAll
    (createdOver (some (.holds (.obj [("quietStartup", .bool true)]))))
    (loadMoves true ++ [setMove true "theme" (some (.str "dark"))] ++ writeMoves true)
    (fun t => (t.parties true).phase.overwrote &&
      (t.parties true).running.unsaved = [.field "theme"] &&
      (t.perform true .finish).isSome) (by decide +kernel)
  rw [Bool.and_eq_true, Bool.and_eq_true, decide_eq_true_eq] at hcheck
  obtain ⟨⟨hmatches, hunsaved⟩, hfinish⟩ := hcheck
  obtain ⟨u, hfinish⟩ := Option.isSome_iff_exists.1 hfinish
  unfold LockPhase.overwrote at hmatches
  split at hmatches
  · rename_i w before hphase
    obtain ⟨hset, hkept, hstays⟩ := settings_written (createdOver_fresh _) hrun hphase
    rw [hunsaved] at hset hkept
    obtain ⟨current, hparse, hkept⟩ := hkept (.inl rfl)
    refine ⟨t, u, w, before, hrun, hphase, hset _ (List.mem_singleton_self _),
      ⟨current, hparse, hkept _ (by decide)⟩, .single hfinish, ?_⟩
    refine hstays (.field "theme") _ ?_ [(true, .finish)] u (.single ⟨hfinish, by rintro ⟨⟩⟩) rfl
    intro settings hvalue
    exact (get?_migrateSettings (by decide) settings).trans hvalue
  · cases hmatches

end Amide
