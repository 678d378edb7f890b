import Amide.Construction.Refinement.Merge
import Amide.Framework.ListOrder

/-!
# What merging two harnesses loses

An entry is lost where another one is written under its id, and then the result has too few
(`size_writes_eq_iff`).  A global entry has its own id; a local one may be moved to its scope and
its id, where an entry can stand already (`KeepsApart`).
-/

namespace Amide

open List

open HarnessScope (text)

/-! ## What is claimed -/

/-- The local entries of a kind, where there is a local harness. -/
def localEntries (localState : Option HarnessState) (kind : RefinementKind) :
    JsMap String HarnessEntry :=
  (localState.map fun localState => localState.entries kind).getD .empty

/-- Every entry of both is there once, with its scope. -/
def MergesAll (max : Json → Json → Json) (globalState : HarnessState)
    (localState : Option HarnessState) : Prop :=
  ∀ kind, ((mergeHarnessStates max globalState localState).entries kind).values.Perm
    ((globalState.entries kind).values.map (scopedEntry .global) ++
      (localEntries localState kind).values.map (scopedEntry .local))

/-- A local entry with this id, coming after others, is moved: the id is one of a global entry or
a name that objects inherit, or an earlier entry has been moved there. -/
inductive TakenId (globals : JsMap String HarnessEntry) :
    List (String × HarnessEntry) → String → Prop
  | global {before : List (String × HarnessEntry)} {id : String} (h : globals.has id = true) :
      TakenId globals before id
  | inherited {before : List (String × HarnessEntry)} {id : String}
      (h : id ∈ objectPrototype ∨ id = "__proto__") : TakenId globals before id
  | moved {earlier between : List (String × HarnessEntry)} {id : String} {entry : HarnessEntry}
      (h : TakenId globals earlier id) :
      TakenId globals (earlier ++ (id, entry) :: between) (scopedId entry id)

/-- If the local entry is moved, there is no global entry where it goes, and no local one before it
that has kept that id. -/
def HasRoom (globals : JsMap String HarnessEntry) (before : List (String × HarnessEntry))
    (record : String × HarnessEntry) : Prop :=
  TakenId globals before record.1 → globals.has (scopedId record.2 record.1) = false ∧
      ∀ earlier other between, before = earlier ++ other :: between →
        other.1 = scopedId record.2 record.1 → TakenId globals earlier other.1

/-- No entry is written over. -/
def KeepsApart (globals : JsMap String HarnessEntry) (locals : List (String × HarnessEntry)) :
    Prop :=
  ∀ before record after, locals = before ++ record :: after → HasRoom globals before record

/-! ## Writing one entry after another -/

section Writes

variable {records : JsMap String HarnessEntry} {id : String} {entry : HarnessEntry}

/-- Nothing is written over. -/
def NewId (records : JsMap String HarnessEntry) (id : String) : Prop :=
  records.has id = false ∧ id ≠ "__proto__"

lemma values_setRecord (h : NewId records id) (entry : HarnessEntry) :
    (setRecord records id entry).values = records.values ++ [entry] := by
  rw [setRecord, if_neg h.2, JsMap.values,
    JsMap.entries_set_of_get?_none (JsMap.has_eq_false_iff.mp h.1), map_append]
  rfl

lemma size_setRecord_le (records : JsMap String HarnessEntry) (id : String)
    (entry : HarnessEntry) : (setRecord records id entry).size ≤ records.size + 1 ∧
      ((setRecord records id entry).size = records.size + 1 ↔ NewId records id) := by
  rw [setRecord]
  split_ifs with hproto
  · refine ⟨Nat.le_succ _, fun h => ?_, fun h => absurd hproto h.2⟩
    omega
  · cases hid : records.get? id with
    | none =>
      have hfresh : NewId records id := ⟨JsMap.has_eq_false_iff.mpr hid, hproto⟩
      have hsize : (records.set id entry).size = records.size + 1 := by
        rw [JsMap.size, JsMap.entries_set_of_get?_none hid, length_append]
        rfl
      exact ⟨hsize.le, fun _ => hfresh, fun _ => hsize⟩
    | some old =>
      obtain ⟨l₁, l₂, hold, hnew⟩ := JsMap.exists_entries_set hid
      have hsize : (records.set id entry).size = records.size := by
        rw [JsMap.size, JsMap.size, hnew, hold, length_append, length_append]
        rfl
      rw [hsize]
      refine ⟨Nat.le_succ _, fun h => ?_, fun h => ?_⟩
      · omega
      · rw [JsMap.has_eq_false_iff.mp h.1] at hid
        cases hid

variable {ρ : Type} (key : JsMap String HarnessEntry → ρ → String) (value : ρ → HarnessEntry)

def writes (records : JsMap String HarnessEntry) (rs : List ρ) : JsMap String HarnessEntry :=
  rs.foldl (fun records r => setRecord records (key records r) (value r)) records

def AllNew : JsMap String HarnessEntry → List ρ → Prop
  | _, [] => True
  | records, r :: rs =>
    NewId records (key records r) ∧ AllNew (setRecord records (key records r) (value r)) rs

variable {key value} {rs rs' : List ρ} {r : ρ}

lemma values_writes (h : AllNew key value records rs) :
    (writes key value records rs).values = records.values ++ rs.map value := by
  induction rs generalizing records with
  | nil => simp [writes]
  | cons r rs ih =>
    refine (ih h.2).trans ?_
    rw [values_setRecord h.1]
    simp

/-- As many entries as were written are there just when none was written over. -/
lemma size_writes_eq_iff : (writes key value records rs).size ≤ records.size + rs.length ∧
    ((writes key value records rs).size = records.size + rs.length ↔
      AllNew key value records rs) := by
  induction rs generalizing records with
  | nil => exact ⟨le_rfl, fun _ => trivial, fun _ => rfl⟩
  | cons r rs ih =>
    obtain ⟨hle, hiff⟩ := size_setRecord_le records (key records r) (value r)
    obtain ⟨hle', hiff'⟩ := @ih (setRecord records (key records r) (value r))
    rw [AllNew, ← hiff, ← hiff', length_cons]
    have hsame : writes key value records (r :: rs) =
      writes key value (setRecord records (key records r) (value r)) rs := rfl
    rw [hsame]
    omega

lemma allNew_append : AllNew key value records (rs ++ rs') ↔
    AllNew key value records rs ∧ AllNew key value (writes key value records rs) rs' := by
  induction rs generalizing records with
  | nil => exact ⟨fun h => ⟨trivial, h⟩, fun h => h.2⟩
  | cons r rs ih =>
    rw [cons_append, AllNew, AllNew, ih, and_assoc]
    rfl

end Writes

section Merge

variable {globals locals : JsMap String HarnessEntry} {id : String} {entry : HarnessEntry}

/-! ## KeysOf -/

lemma ownEntries_perm (records : JsMap String HarnessEntry) :
    (ownEntries records).Perm records.entries := by
  refine ((mergeSort_perm _ _).append_right _).trans ?_
  exact filter_append_perm _ _

lemma nodup_ownEntries (records : JsMap String HarnessEntry) :
    ((ownEntries records).map Prod.fst).Nodup :=
  ((ownEntries_perm records).map Prod.fst).nodup_iff.mpr records.nodup

lemma exists_toList_scopedId (entry : HarnessEntry) (id : String) :
    ∃ scope : HarnessScope, (scopedId entry id).toList = scope.text.toList ++ ':' :: id.toList := by
  refine ⟨normalizeHarnessScope (entry.scope.map fun scope => .str scope.text) .local, ?_⟩
  rw [scopedId, String.toList_append, String.toList_append, append_assoc]
  rfl

lemma scopedId_ne_proto (entry : HarnessEntry) (id : String) : scopedId entry id ≠ "__proto__" := by
  intro h
  obtain ⟨scope, hlist⟩ := exists_toList_scopedId entry id
  rw [h] at hlist
  cases scope with
  | «local» | global => simp [text] at hlist

/-- A moved id tells the one it was made of. -/
lemma scopedId_inj {entry' : HarnessEntry} {id' : String}
    (h : scopedId entry id = scopedId entry' id') : id = id' := by
  obtain ⟨scope, hlist⟩ := exists_toList_scopedId entry id
  obtain ⟨scope', hlist'⟩ := exists_toList_scopedId entry' id'
  rw [h, hlist'] at hlist
  apply String.toList_inj.mp
  cases scope with
  | «local» =>
    cases scope' with
    | «local» => simpa [text] using hlist.symm
    | global => simp [text] at hlist
  | global =>
    cases scope' with
    | «local» => simp [text] at hlist
    | global => simpa [text] using hlist.symm

/-! ## Global entries -/

variable {records : JsMap String HarnessEntry}

lemma has_setRecord {id' : String} : (setRecord records id entry).has id' = true ↔
      records.has id' = true ∨ id = id' ∧ id ≠ "__proto__" := by
  rw [setRecord]
  split_ifs with hproto
  · exact ⟨.inl, fun h => h.resolve_right fun h => h.2 hproto⟩
  · rw [JsMap.has_set_iff]
    exact ⟨fun h => h.symm.imp_right fun h => ⟨h, hproto⟩, fun h => h.symm.imp_left And.left⟩

variable {rs : List (String × HarnessEntry)}

/-- Every global entry gets its own id. -/
lemma allNew_global_iff (hrs : (rs.map Prod.fst).Nodup)
    (hnew : ∀ record ∈ rs, records.has record.1 = false) :
    AllNew (fun _ record => record.1) (fun record => scopedEntry .global record.2) records rs ↔
      ∀ record ∈ rs, record.1 ≠ "__proto__" := by
  induction rs generalizing records with
  | nil => exact ⟨fun _ _ hmem => absurd hmem not_mem_nil, fun _ => trivial⟩
  | cons record rs ih =>
    rw [map_cons, nodup_cons] at hrs
    rw [forall_mem_cons] at hnew ⊢
    rw [AllNew, NewId, ih hrs.2]
    · exact ⟨fun h => ⟨h.1.2, h.2⟩, fun h => ⟨⟨hnew.1, h.1⟩, h.2⟩⟩
    · intro record' hrec'
      rw [← Bool.not_eq_true, has_setRecord, hnew.2 record' hrec']
      rintro (h | ⟨h, -⟩)
      · cases h
      · exact hrs.1 (h ▸ mem_map_of_mem hrec')

/-! ## Local entries -/

/-- The id that a local entry gets. -/
def localKey (merged : JsMap String HarnessEntry) (record : String × HarnessEntry) : String :=
  if isTaken merged record.1 then scopedId record.2 record.1 else record.1

/-- The id is the one that one of the local entries gets. -/
def PlacedId (globals : JsMap String HarnessEntry) (locals : List (String × HarnessEntry))
    (id : String) : Prop :=
  ∃ before record after, locals = before ++ record :: after ∧
    ((¬ TakenId globals before record.1 ∧ id = record.1) ∨
      (TakenId globals before record.1 ∧ id = scopedId record.2 record.1))

section Local

variable {before : List (String × HarnessEntry)} {merged : JsMap String HarnessEntry}

lemma takenId_iff : TakenId globals before id ↔ globals.has id = true ∨
    (id ∈ objectPrototype ∨ id = "__proto__") ∨ ∃ earlier record between,
      before = earlier ++ record :: between ∧
        TakenId globals earlier record.1 ∧ id = scopedId record.2 record.1 := by
  constructor
  · intro h
    cases h with
    | global h => exact .inl h
    | inherited h => exact .inr (.inl h)
    | moved h => exact .inr (.inr ⟨_, (_, _), _, rfl, h, rfl⟩)
  · rintro (h | h | ⟨earlier, ⟨id', entry⟩, between, rfl, h, rfl⟩)
    · exact .global h
    · exact .inherited h
    · exact .moved h

/-- The keys so far are those of global entries and the ones that local entries have got. -/
def KeysOf (globals : JsMap String HarnessEntry) (before : List (String × HarnessEntry))
    (merged : JsMap String HarnessEntry) : Prop :=
  ∀ id, merged.has id = true ↔ globals.has id = true ∨ PlacedId globals before id

/-- A local entry's id is taken by what was written before it. -/
lemma KeysOf.isTaken_iff (h : KeysOf globals before merged) (hid : id ∉ before.map Prod.fst) :
    isTaken merged id = true ↔ TakenId globals before id := by
  have hplaced : PlacedId globals before id ↔ ∃ earlier record between,
      before = earlier ++ record :: between ∧
        TakenId globals earlier record.1 ∧ id = scopedId record.2 record.1 := by
    constructor
    · rintro ⟨earlier, record, between, rfl, ⟨-, rfl⟩ | hmoved⟩
      · exact absurd (by simp) hid
      · exact ⟨earlier, record, between, rfl, hmoved⟩
    · rintro ⟨earlier, record, between, rfl, hmoved⟩
      exact ⟨earlier, record, between, rfl, .inr hmoved⟩
  rw [takenId_iff, ← hplaced, isTaken, Bool.or_eq_true, Bool.or_eq_true, h id, decide_eq_true_eq,
    decide_eq_true_eq]
  tauto

lemma localKey_ne_proto (merged : JsMap String HarnessEntry) (record : String × HarnessEntry) :
    localKey merged record ≠ "__proto__" := by
  rw [localKey]
  split_ifs with htaken
  · exact scopedId_ne_proto record.2 record.1
  · intro hproto
    exact htaken (by simp [isTaken, hproto])

variable {record : String × HarnessEntry}

lemma KeysOf.localKey_eq (h : KeysOf globals before merged) (hid : record.1 ∉ before.map Prod.fst)
    (id : String) :
    id = localKey merged record ↔ (¬ TakenId globals before record.1 ∧ id = record.1) ∨
      (TakenId globals before record.1 ∧ id = scopedId record.2 record.1) := by
  rw [localKey, ← h.isTaken_iff hid]
  split_ifs with htaken
  · simp [htaken]
  · simp [htaken]

lemma KeysOf.step (h : KeysOf globals before merged) (hid : record.1 ∉ before.map Prod.fst) :
    KeysOf globals (before ++ [record]) (mergeLocal merged record) := by
  intro id
  have hkey : (mergeLocal merged record).has id = true ↔
      merged.has id = true ∨ id = localKey merged record := by
    show (setRecord merged (localKey merged record) _).has id = true ↔ _
    rw [has_setRecord, and_iff_left (localKey_ne_proto merged record), @eq_comm _ id]
  rw [hkey, h id, h.localKey_eq hid, or_assoc]
  exact or_congr_right ListOrder.exists_split_concat_iff.symm

lemma keys_foldl (h : KeysOf globals [] merged) (hbefore : (before.map Prod.fst).Nodup) :
    KeysOf globals before (before.foldl mergeLocal merged) := by
  induction before using reverseRecOn with
  | nil => exact h
  | append_singleton before record ih =>
    rw [map_append, nodup_append] at hbefore
    rw [foldl_append]
    refine (ih hbefore.1).step fun hmem => ?_
    exact hbefore.2.2 _ hmem _ (mem_singleton_self _) rfl

/-- A local entry gets an id that is not there just when it is not moved to one. -/
lemma KeysOf.not_placed_iff (h : KeysOf globals before merged)
    (hid : record.1 ∉ before.map Prod.fst) :
    ¬ (globals.has (localKey merged record) = true ∨
        PlacedId globals before (localKey merged record)) ↔ HasRoom globals before record := by
  by_cases htaken : TakenId globals before record.1
  · rw [((h.localKey_eq hid _).mpr (.inr ⟨htaken, rfl⟩)).symm, not_or, Bool.not_eq_true]
    rw [HasRoom, forall_prop_of_true htaken]
    refine and_congr_right fun _ => ?_
    constructor
    · rintro hnot earlier other between rfl hother
      by_contra hkept
      exact hnot ⟨earlier, other, between, rfl, .inl ⟨hkept, hother.symm⟩⟩
    · rintro hall ⟨earlier, other, between, rfl, ⟨hkept, hother⟩ | ⟨-, hother⟩⟩
      · exact hkept (hall earlier other between rfl hother.symm)
      · -- only its own id is moved there
        have hsame := scopedId_inj hother
        exact hid (by simp [hsame])
  · refine ⟨fun _ h => absurd h htaken, fun _ => ?_⟩
    rw [((h.localKey_eq hid _).mpr (.inl ⟨htaken, rfl⟩)).symm, ← h record.1]
    intro hhas
    refine htaken ((h.isTaken_iff hid).mp ?_)
    simp [isTaken, hhas]

lemma allNew_local_iff (h : KeysOf globals [] merged) (hbefore : (before.map Prod.fst).Nodup) :
    AllNew localKey (fun record => scopedEntry .local record.2) merged before ↔
      KeepsApart globals before := by
  induction before using reverseRecOn with
  | nil =>
    refine ⟨fun _ before record after hsplit => ?_, fun _ => trivial⟩
    simp at hsplit
  | append_singleton before record ih =>
    rw [map_append, nodup_append] at hbefore
    have hid : record.1 ∉ before.map Prod.fst := fun hmem =>
      hbefore.2.2 _ hmem _ (mem_singleton_self _) rfl
    have hkeys := keys_foldl h hbefore.1
    have hlast : AllNew localKey (fun record => scopedEntry .local record.2)
        (before.foldl mergeLocal merged) [record] ↔
          (before.foldl mergeLocal merged).has (localKey (before.foldl mergeLocal merged) record) =
            false :=
      ⟨fun h => h.1.1, fun h => ⟨⟨h, localKey_ne_proto _ _⟩, trivial⟩⟩
    have happend : KeepsApart globals (before ++ [record]) ↔
      KeepsApart globals before ∧ HasRoom globals before record := ListOrder.forall_split_concat_iff
    rw [allNew_append, ih hbefore.1, happend]
    refine and_congr_right fun _ => hlast.trans ?_
    rw [← Bool.not_eq_true, hkeys]
    exact hkeys.not_placed_iff hid

end Local

/-! ## Both together -/

lemma has_foldl_mergeGlobal :
    (rs.foldl mergeGlobal records).has id = true ↔
      records.has id = true ∨ id ∈ rs.map Prod.fst ∧ id ≠ "__proto__" := by
  induction rs generalizing records with
  | nil => simp
  | cons record rs ih =>
    rw [foldl_cons, ih, mergeGlobal, has_setRecord, map_cons, mem_cons]
    grind

lemma has_iff_mem_ownEntries : globals.has id = true ↔ id ∈ (ownEntries globals).map Prod.fst := by
  rw [JsMap.has_iff_mem_keys, ((ownEntries_perm globals).map Prod.fst).mem_iff]
  rfl

lemma keys_global (hproto : globals.has "__proto__" = false) :
    KeysOf globals [] ((ownEntries globals).foldl mergeGlobal .empty) := by
  intro id
  have hnone : ¬ PlacedId globals [] id := by
    rintro ⟨before, record, after, hsplit, -⟩
    simp at hsplit
  rw [has_foldl_mergeGlobal, ← has_iff_mem_ownEntries, or_iff_left hnone]
  constructor
  · rintro (h | h)
    · cases h
    · exact h.1
  · intro h
    refine .inr ⟨h, ?_⟩
    rintro rfl
    exact absurd (hproto.symm.trans h) Bool.false_ne_true

lemma allNew_ownEntries_iff :
    AllNew (fun _ record => record.1) (fun record => scopedEntry .global record.2) .empty
      (ownEntries globals) ↔ globals.has "__proto__" = false := by
  rw [allNew_global_iff (nodup_ownEntries globals) fun _ _ => rfl, ← Bool.not_eq_true,
    has_iff_mem_ownEntries, mem_map]
  constructor
  · rintro h ⟨record, hrec, hproto⟩
    exact h record hrec hproto
  · exact fun h record hrec hproto => h ⟨record, hrec, hproto⟩

lemma values_map_perm (f : HarnessEntry → HarnessEntry) (records : JsMap String HarnessEntry) :
    (records.values.map f).Perm ((ownEntries records).map fun record => f record.2) := by
  rw [JsMap.values, map_map]
  exact ((ownEntries_perm records).map _).symm

lemma size_foldl_mergeGlobal (globals : JsMap String HarnessEntry) :
    ((ownEntries globals).foldl mergeGlobal .empty).size ≤ (ownEntries globals).length ∧
      (((ownEntries globals).foldl mergeGlobal .empty).size = (ownEntries globals).length ↔
        globals.has "__proto__" = false) := by
  have hsize := @size_writes_eq_iff .empty _ (fun _ record => record.1)
    (fun record => scopedEntry .global record.2) (ownEntries globals)
  rw [allNew_ownEntries_iff, show (JsMap.empty : JsMap String HarnessEntry).size = 0 from rfl,
    Nat.zero_add] at hsize
  exact hsize

lemma size_foldl_mergeLocal (merged : JsMap String HarnessEntry)
    (rs : List (String × HarnessEntry)) :
    (rs.foldl mergeLocal merged).size ≤ merged.size + rs.length ∧
      ((rs.foldl mergeLocal merged).size = merged.size + rs.length ↔
        AllNew localKey (fun record => scopedEntry .local record.2) merged rs) :=
  size_writes_eq_iff

/-- Of one kind, nothing is lost just when no entry is written over. -/
lemma merged_perm_iff : ((ownEntries locals).foldl mergeLocal
        ((ownEntries globals).foldl mergeGlobal .empty)).values.Perm
      (globals.values.map (scopedEntry .global) ++ locals.values.map (scopedEntry .local)) ↔
    globals.has "__proto__" = false ∧ KeepsApart globals (ownEntries locals) := by
  have hglobal := size_foldl_mergeGlobal globals
  set merged := (ownEntries globals).foldl mergeGlobal .empty
  have htarget := (values_map_perm (scopedEntry .global) globals).append
    (values_map_perm (scopedEntry .local) locals)
  have hlocal := size_foldl_mergeLocal merged (ownEntries locals)
  have hfresh (hproto : globals.has "__proto__" = false) :
      AllNew localKey (fun record => scopedEntry .local record.2) merged (ownEntries locals) ↔
        KeepsApart globals (ownEntries locals) :=
    allNew_local_iff (keys_global hproto) (nodup_ownEntries locals)
  constructor
  · intro hperm
    have hsize := (hperm.trans htarget).length_eq
    rw [JsMap.values, length_map, length_append, length_map, length_map] at hsize
    change ((ownEntries locals).foldl mergeLocal merged).size = _ at hsize
    have hproto : globals.has "__proto__" = false := hglobal.2.mp (by omega)
    exact ⟨hproto, (hfresh hproto).mp (hlocal.2.mp (by omega))⟩
  · rintro ⟨hproto, hapart⟩
    have hvalues : ((ownEntries locals).foldl mergeLocal merged).values = _ :=
      values_writes ((hfresh hproto).mpr hapart)
    have hvalues' : merged.values = _ := values_writes (allNew_ownEntries_iff.mpr hproto)
    rw [hvalues, hvalues']
    exact htarget.symm

lemma ownEntries_of_names (h : ∀ record ∈ records.entries, arrayIndex record.1 = none) :
    ownEntries records = records.entries := by
  have hnone : records.entries.filter (fun record => (arrayIndex record.1).isSome) = [] := by
    rw [filter_eq_nil_iff]
    intro record hrec
    rw [h record hrec]
    exact Bool.false_ne_true
  have hall : records.entries.filter (fun record => !(arrayIndex record.1).isSome) =
      records.entries := by
    rw [filter_eq_self]
    intro record hrec
    rw [h record hrec]
    rfl
  rw [ownEntries, hnone, hall, mergeSort_nil, nil_append]

lemma ownEntries_empty : ownEntries .empty = [] :=
  ownEntries_of_names fun _ hmem => absurd hmem not_mem_nil

end Merge

/-- **When merging loses nothing.** -/
theorem mergesAll_iff (max : Json → Json → Json) (globalState : HarnessState)
    (localState : Option HarnessState) :
    MergesAll max globalState localState ↔ ∀ kind,
      (globalState.entries kind).has "__proto__" = false ∧
        KeepsApart (globalState.entries kind) (ownEntries (localEntries localState kind)) := by
  refine forall_congr' fun kind => Iff.trans ?_ merged_perm_iff
  cases localState with
  | none =>
    rw [show localEntries none kind = .empty from rfl, ownEntries_empty]
    exact Iff.rfl
  | some localState => exact Iff.rfl

/-- A harness of notes with these ids. -/
def notesHarness (scope : HarnessScope) (ids : List String) : HarnessState where
  entries kind := match kind with
    | .memory => ids.foldl (fun records id => records.set id
        { id := some (.str id), title := some (.str id), scope := some scope }) .empty
    | _ => .empty

/-- The local note "shared" is moved to where the second global one is. -/
theorem not_mergesAll_shared :
    ¬ MergesAll (fun schema _ => schema) (notesHarness .global ["shared", "local:shared"])
      (some (notesHarness .local ["shared"])) := by
  intro h
  have hindex : arrayIndex "shared" = none := by decide +kernel
  obtain ⟨-, hapart⟩ := merged_perm_iff.mp (h .memory)
  have hown : ownEntries ((notesHarness .local ["shared"]).entries .memory) =
      ((notesHarness .local ["shared"]).entries .memory).entries :=
    ownEntries_of_names (by simpa [notesHarness, JsMap.empty, JsMap.set, JsMap.insert] using hindex)
  rw [hown] at hapart
  have hroom := (hapart [] _ [] rfl (.global (by decide +kernel))).1
  exact absurd hroom (by decide +kernel)

end Amide
