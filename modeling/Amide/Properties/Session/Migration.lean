import Amide.Properties.Session.Trees

/-!
# Migrating a version 1 file

The migration chains the entries of a version 1 file one behind the other, with ids it draws.  The
set it is meant to check the ids against stays empty, so what it makes is a chain exactly when the
ids drawn are different; and a compaction's index becomes an id as long as the entry it names has
its own by then (`migrate_chained_iff`).
-/

namespace Amide

open ParentTree SessionEntry Option

/-! ## What the migration makes of each entry -/

/-- The entry at a position of a file. -/
def entryAt (fs : List FileEntry) (i : ℕ) : Option SessionEntry := fs[i]?.bind FileEntry.asEntry

/-- The id the migration draws for the entry at a position. -/
def drawnId (draws : ℕ → Draws) (i : ℕ) : String := shortId (draws i 0)

/-- The id a compaction at position `i` gets for the index it holds. -/
def migratedKept (draws : ℕ → Draws) (all : List FileEntry) (i : ℕ) (c : CompactionFields) :
    CompactionFields :=
  match c.firstKeptEntryIndex with
  | none => c
  | some k =>
    { c with
      firstKeptEntryId := ((entryAt all k).map fun target =>
        if k ≤ i then drawnId draws k else target.id).getD c.firstKeptEntryId
      firstKeptEntryIndex := none }

def migratedBody (draws : ℕ → Draws) (all : List FileEntry) (i : ℕ) : EntryBody → EntryBody
  | .compaction c => .compaction (migratedKept draws all i c)
  | body => body

/-- The first entries of the file, as the loop has them done. -/
structure MigratedTo (draws : ℕ → Draws) (all done : List FileEntry) : Prop where
  ids : ∀ i < done.length, (entryAt done i).map SessionEntry.id =
    (entryAt all i).map fun _ => drawnId draws i
  bodies : ∀ i < done.length, (entryAt done i).map SessionEntry.body =
    (entryAt all i).map fun e => migratedBody draws all i e.body
  chained : RootPath SessionEntry.id parentId (sessionEntries done)

lemma entryAt_append_left {fs gs : List FileEntry} {i : ℕ} (h : i < fs.length) :
    entryAt (fs ++ gs) i = entryAt fs i := by
  rw [entryAt, entryAt, List.getElem?_append_left h]

variable (fs : List FileEntry)

@[simp] lemma entryAt_append_length (f : FileEntry) (gs : List FileEntry) :
    entryAt (fs ++ f :: gs) fs.length = f.asEntry := by
  simp [entryAt]

/-- What a compaction's index becomes, by the ids of the entries as they are. -/
lemma body_migrateFirstKept (e : SessionEntry) : (migrateFirstKept fs e).body = match e.body with
      | .compaction c =>
        match c.firstKeptEntryIndex with
        | none => .compaction c
        | some k => .compaction { c with
            firstKeptEntryId := ((entryAt fs k).map SessionEntry.id).getD c.firstKeptEntryId
            firstKeptEntryIndex := none }
      | body => body := by
  obtain ⟨_, _, _, body⟩ := e
  cases body with
  | compaction c =>
    simp only [migrateFirstKept]
    cases c.firstKeptEntryIndex with
    | none => rfl
    | some k =>
      simp only [entryAt]
      rcases fs[k]? with _ | _ | _ <;> rfl
  | _ => rfl

variable {draws : ℕ → Draws}

/-- An entry is looked up among entries with their new ids up to the position the loop is at, and
their old ones behind it. -/
lemma migrateFirstKept_eq_migratedBody {pre done rest : List FileEntry} {e e' : SessionEntry}
    (hlen : pre.length = done.length)
    (hids : ∀ i < done.length, (entryAt done i).map SessionEntry.id =
      (entryAt (pre ++ .entry e :: rest) i).map fun _ => drawnId draws i)
    (hid : e'.id = drawnId draws done.length) (hbody : e'.body = e.body) :
    (migrateFirstKept (done ++ .entry e' :: rest) e').body =
      migratedBody draws (pre ++ .entry e :: rest) done.length e.body := by
  have hlookup (k : ℕ) : (entryAt (done ++ .entry e' :: rest) k).map SessionEntry.id =
      (entryAt (pre ++ .entry e :: rest) k).map fun target =>
        if k ≤ done.length then drawnId draws k else target.id := by
    rcases Nat.lt_trichotomy k done.length with hk | rfl | hk
    · rw [entryAt_append_left hk, hids k hk]
      simp [Nat.le_of_lt hk]
    · rw [entryAt_append_length, ← hlen, entryAt_append_length]
      simp [hid, hlen]
    · have hsame : entryAt (done ++ .entry e' :: rest) k = entryAt (pre ++ .entry e :: rest) k := by
        obtain ⟨n, rfl⟩ : ∃ n, k = done.length + (n + 1) := ⟨k - done.length - 1, by omega⟩
        rw [entryAt, entryAt, List.getElem?_append_right (by omega),
          List.getElem?_append_right (by omega), hlen]
        simp
      rw [hsame]
      simp [Nat.not_le.mpr hk]
  rw [body_migrateFirstKept, hbody]
  cases e.body with
  | compaction c =>
    simp only [migratedBody, migratedKept, hlookup]
    cases c.firstKeptEntryIndex <;> rfl
  | _ => rfl

lemma migrateFirstKept_parentId (e : SessionEntry) :
    (migrateFirstKept fs e).parentId = e.parentId := by
  unfold migrateFirstKept
  split
  · split <;> rfl
  · rfl

lemma MigratedTo.snoc {all done : List FileEntry} {f : FileEntry} (h : MigratedTo draws all done)
    (hid : f.asEntry.map SessionEntry.id =
      (entryAt all done.length).map fun _ => drawnId draws done.length)
    (hbody : f.asEntry.map SessionEntry.body =
      (entryAt all done.length).map fun e => migratedBody draws all done.length e.body)
    (hpar : ∀ e ∈ f.asEntry, e.parentId = (sessionEntries done).getLast?.map SessionEntry.id) :
    MigratedTo draws all (done ++ [f]) where
  ids i hi := by
    rcases Nat.lt_succ_iff_lt_or_eq.mp (by simpa using hi) with hi | rfl
    · rw [entryAt_append_left hi, h.ids i hi]
    · rw [entryAt_append_length, hid]
  bodies i hi := by
    rcases Nat.lt_succ_iff_lt_or_eq.mp (by simpa using hi) with hi | rfl
    · rw [entryAt_append_left hi, h.bodies i hi]
    · rw [entryAt_append_length, hbody]
  chained := by
    cases f with
    | session hd => simpa using h.chained
    | entry e =>
      rw [sessionEntries_append]
      exact h.chained.snoc (hpar e rfl)

/-- **The loop of the migration.** -/
lemma migratedTo_migrateV1ToV2From {pre done todo : List FileEntry} {prevId : Option String}
    (h : MigratedTo draws (pre ++ todo) done) (hlen : pre.length = done.length)
    (hprev : prevId = (sessionEntries done).getLast?.map SessionEntry.id) :
    MigratedTo draws (pre ++ todo) (migrateV1ToV2From draws done prevId todo) ∧
      (migrateV1ToV2From draws done prevId todo).length = (pre ++ todo).length := by
  induction todo generalizing pre done prevId with
  | nil => exact ⟨h, by simp [migrateV1ToV2From, hlen]⟩
  | cons f todo ih =>
    have hat : entryAt (pre ++ f :: todo) done.length = f.asEntry := by
      rw [← hlen, entryAt_append_length]
    have hsplit : pre ++ f :: todo = (pre ++ [f]) ++ todo := by simp
    cases f with
    | session hd =>
      have hsnoc := h.snoc (f := .session { hd with version := some 2 }) (by rw [hat]; rfl)
        (by rw [hat]; rfl) (by simp)
      rw [hsplit] at hsnoc ⊢
      exact ih hsnoc (by simp [hlen]) (by simpa using hprev)
    | entry e =>
      simp only [migrateV1ToV2From, generateId_free]
      generalize hmig : migrateFirstKept _ _ = e'
      have hid : e'.id = drawnId draws done.length := by rw [← hmig, migrateFirstKept_id]; rfl
      have hbody : e'.body = migratedBody draws (pre ++ .entry e :: todo) done.length e.body := by
        rw [← hmig]
        exact migrateFirstKept_eq_migratedBody hlen h.ids rfl rfl
      have hpar : e'.parentId = prevId := by rw [← hmig, migrateFirstKept_parentId]
      have hsnoc := h.snoc (f := .entry e') (by rw [hat]; simp [hid]) (by rw [hat]; simp [hbody])
        (by rintro _ ⟨⟩; rw [hpar, hprev])
      rw [hsplit] at hsnoc ⊢
      exact ih hsnoc (by simp [hlen]) (by simp [hid, drawnId])

lemma migratedTo_migrateV1ToV2 (draws : ℕ → Draws) (entries : List FileEntry) :
    MigratedTo draws entries (migrateV1ToV2 draws entries) ∧
      (migrateV1ToV2 draws entries).length = entries.length :=
  @migratedTo_migrateV1ToV2From draws [] [] entries none
    ⟨by simp, by simp, .nil⟩ rfl rfl

/-! ## Version 3 -/

def SessionEntry.toV3 (e : SessionEntry) : SessionEntry :=
  match e.body with
  | .message (.hookMessage m) => { e with body := .message (.custom m) }
  | _ => e

variable (e : SessionEntry)

lemma migrateEntryToV3_entry : migrateEntryToV3 (.entry e) = .entry e.toV3 := by
  obtain ⟨_, _, _, body⟩ := e
  cases body with
  | message m => cases m <;> rfl
  | _ => rfl

@[simp] lemma id_toV3 : e.toV3.id = e.id := by
  unfold toV3
  split <;> rfl

@[simp] lemma parentId_toV3 : e.toV3.parentId = e.parentId := by
  unfold toV3
  split <;> rfl

variable {c : CompactionFields}

lemma body_toV3_of_compaction {e : SessionEntry}
    (h : e.body = .compaction c) : e.toV3.body = .compaction c := by
  simp [toV3, h]

lemma asEntry_migrateEntryToV3 (f : FileEntry) :
    (migrateEntryToV3 f).asEntry = f.asEntry.map toV3 := by
  cases f with
  | session h => rfl
  | entry e => rw [migrateEntryToV3_entry]; rfl

lemma entryAt_migrateV2ToV3 (i : ℕ) :
    entryAt (migrateV2ToV3 fs) i = (entryAt fs i).map toV3 := by
  rw [entryAt, entryAt, migrateV2ToV3, List.getElem?_map]
  cases fs[i]? with
  | none => rfl
  | some f => exact asEntry_migrateEntryToV3 f

lemma sessionEntries_migrateV2ToV3 :
    sessionEntries (migrateV2ToV3 fs) = (sessionEntries fs).map toV3 := by
  rw [sessionEntries, sessionEntries, migrateV2ToV3, List.filterMap_map, List.map_filterMap]
  exact List.filterMap_congr fun f _ => asEntry_migrateEntryToV3 f

/-! ## When the chain is kept -/

/-- What the migration of a version 1 file is for: ids that are different, each entry behind the
one before it, a walk from the last entry that visits them all, and compactions that name the
entry they held the index of. -/
structure MigratedChain (entries new : List FileEntry) : Prop where
  distinct : ((sessionEntries new).map SessionEntry.id).Nodup
  chained : RootPath SessionEntry.id parentId (sessionEntries new)
  walk : rootPath (JsMap.index SessionEntry.id (sessionEntries new))
    (sessionEntries new).getLast? = some (sessionEntries new)
  kept : ∀ i c k, (entryAt entries i).map SessionEntry.body = some (.compaction c) →
    c.firstKeptEntryIndex = some k → (entryAt entries k).isSome = true →
    ∃ c', (entryAt new i).map SessionEntry.body = some (.compaction c') ∧
      (entryAt new k).map SessionEntry.id = some c'.firstKeptEntryId

/-- The ids drawn for two entries are different. -/
def DrawnApart (draws : ℕ → Draws) (entries : List FileEntry) : Prop :=
  ∀ i j, i < j → (entryAt entries i).isSome = true → (entryAt entries j).isSome = true →
    drawnId draws i ≠ drawnId draws j

/-- No compaction holds the index of an entry behind it. -/
def IndexedBackward (entries : List FileEntry) : Prop :=
  ∀ i c k, (entryAt entries i).map SessionEntry.body = some (.compaction c) →
    c.firstKeptEntryIndex = some k → (entryAt entries k).isSome = true → k ≤ i

/-- A path without repeated ids is what the walk from its end visits. -/
lemma rootPath_index {es : List SessionEntry}
    (h : RootPath SessionEntry.id parentId es)
    (hnd : (es.map SessionEntry.id).Nodup) (hne : ∀ e ∈ es, e.id ≠ "") :
    rootPath (JsMap.index SessionEntry.id es) es.getLast? = some es := by
  have chained {path : List SessionEntry} (hpath : RootPath SessionEntry.id parentId
      path) (hsub : path ⊆ es) : Chained (JsMap.index SessionEntry.id es) path := by
    induction hpath with
    | nil => exact .nil
    | @snoc path e hpath hpar ih =>
      refine (ih fun x hx => hsub (by simp [hx])).snoc ?_
      rw [hpar]
      cases hlast : path.getLast? with
      | none => rfl
      | some a =>
        have ha : a ∈ es := hsub (by simp [List.mem_of_getLast? hlast])
        exact lookupId_index hnd ha (hne a ha)
  refine (chained h (List.Subset.refl es)).rootPath ?_
  rw [JsMap.size_index _ hnd]

/-- The migrated entries of a version 1 file. -/
structure MigratedV1 (draws : ℕ → Draws) (entries new : List FileEntry) : Prop where
  length : new.length = entries.length
  ids : ∀ i, (entryAt new i).map SessionEntry.id = (entryAt entries i).map fun _ => drawnId draws i
  compactions : ∀ i c, (entryAt entries i).map SessionEntry.body = some (.compaction c) →
    (entryAt new i).map SessionEntry.body = some (.compaction (migratedKept draws entries i c))
  chained : RootPath SessionEntry.id parentId (sessionEntries new)

variable {entries : List FileEntry}

lemma migratedV1_migrateToCurrentVersion (draws : ℕ → Draws) (hv1 : sessionVersion entries < 2) :
    MigratedV1 draws entries (migrateToCurrentVersion draws entries).1 := by
  have hnew : (migrateToCurrentVersion draws entries).1 =
      migrateV2ToV3 (migrateV1ToV2 draws entries) := by
    have hold : ¬ currentSessionVersion ≤ sessionVersion entries := by
      unfold currentSessionVersion
      omega
    have hv2 : sessionVersion entries < 3 := by omega
    simp only [migrateToCurrentVersion, if_neg hold, if_pos hv1, if_pos hv2]
  obtain ⟨hmig, hlen⟩ := migratedTo_migrateV1ToV2 draws entries
  have hout {i : ℕ} (hi : entries.length ≤ i) :
      entryAt (migrateV1ToV2 draws entries) i = none ∧ entryAt entries i = none := by
    simp [entryAt, hi, hlen]
  rw [hnew]
  constructor
  · rw [migrateV2ToV3, List.length_map, hlen]
  · intro i
    rw [entryAt_migrateV2ToV3, map_map, show SessionEntry.id ∘ toV3 =
      SessionEntry.id from funext id_toV3]
    by_cases hi : i < entries.length
    · exact hmig.ids i (by omega)
    · simp [hout (Nat.le_of_not_lt hi)]
  · intro i c hc
    have hi : i < entries.length := by
      by_contra hi
      simp [hout (Nat.le_of_not_lt hi)] at hc
    have hbody := hmig.bodies i (by omega)
    obtain ⟨e, he, hce⟩ := map_eq_some_iff.mp hc
    rw [he, map_some, hce] at hbody
    obtain ⟨e', he', hce'⟩ := map_eq_some_iff.mp hbody
    rw [entryAt_migrateV2ToV3, he']
    exact congrArg some (body_toV3_of_compaction hce')
  · rw [sessionEntries_migrateV2ToV3]
    exact hmig.chained.map id_toV3 parentId_toV3

variable {new : List FileEntry}

lemma MigratedV1.nodup_iff (h : MigratedV1 draws entries new) :
    ((sessionEntries new).map SessionEntry.id).Nodup ↔ DrawnApart draws entries := by
  have hat {i : ℕ} (hi : i < new.length) : (new[i].asEntry).map SessionEntry.id =
      (entryAt entries i).map fun _ => drawnId draws i := by
    rw [← h.ids i, entryAt, List.getElem?_eq_getElem hi]
    rfl
  rw [sessionEntries, List.map_filterMap, List.Nodup, List.pairwise_filterMap,
    List.pairwise_iff_getElem]
  constructor
  · intro hall i j hij hi hj
    obtain ⟨e, he⟩ := isSome_iff_exists.mp hi
    obtain ⟨e', he'⟩ := isSome_iff_exists.mp hj
    have hj' : j < new.length := by
      by_contra hlt
      simp [entryAt, List.getElem?_eq_none (h.length ▸ Nat.le_of_not_lt hlt)] at he'
    exact hall i j (by omega) hj' hij _ (by rw [hat, he]; rfl) _ (by rw [hat, he']; rfl)
  · intro hall i j hi hj hij a ha b hb
    rw [hat hi] at ha
    rw [hat hj] at hb
    obtain ⟨e, he, rfl⟩ := map_eq_some_iff.mp ha
    obtain ⟨e', he', rfl⟩ := map_eq_some_iff.mp hb
    exact hall i j hij (by simp [he]) (by simp [he'])

/-- A compaction names its entry if the entry has its new id by then, and, for entries that had
none, only then. -/
lemma MigratedV1.kept_iff (h : MigratedV1 draws entries new) {i k : ℕ}
    (hc : (entryAt entries i).map SessionEntry.body = some (.compaction c))
    (hk : c.firstKeptEntryIndex = some k) {target : SessionEntry}
    (ht : entryAt entries k = some target) (hid : target.id = "") (hne : drawnId draws k ≠ "") :
    (∃ c', (entryAt new i).map SessionEntry.body = some (.compaction c') ∧
      (entryAt new k).map SessionEntry.id = some c'.firstKeptEntryId) ↔ k ≤ i := by
  have hkept : (migratedKept draws entries i c).firstKeptEntryId =
      if k ≤ i then drawnId draws k else "" := by
    simp [migratedKept, hk, ht, hid]
  rw [h.compactions i c hc, h.ids k, ht]
  constructor
  · rintro ⟨c', hc', hid'⟩
    obtain rfl : migratedKept draws entries i c = c' := by simpa using hc'
    by_contra hlt
    rw [hkept, if_neg hlt] at hid'
    exact hne (Option.some.inj hid')
  · intro hle
    exact ⟨_, rfl, by rw [hkept, if_pos hle]; rfl⟩

/-- **When a migration keeps the chain.**  For a version 1 file, whose entries have no ids, and
draws that are not empty: exactly when the ids drawn are different and no compaction holds the
index of an entry behind it. -/
theorem migrate_chained_iff (draws : ℕ → Draws) (entries : List FileEntry)
    (hv1 : sessionVersion entries < 2) (hids : ∀ i, ∀ e ∈ entryAt entries i, e.id = "")
    (hdraws : ∀ i, draws i 0 ≠ "") :
    MigratedChain entries (migrateToCurrentVersion draws entries).1 ↔
      DrawnApart draws entries ∧ IndexedBackward entries := by
  have h := migratedV1_migrateToCurrentVersion draws hv1
  have hne (i : ℕ) : drawnId draws i ≠ "" := shortId_ne_empty (hdraws i)
  constructor
  · intro hchain
    refine ⟨h.nodup_iff.mp hchain.distinct, fun i c k hc hk hsome => ?_⟩
    obtain ⟨target, ht⟩ := isSome_iff_exists.mp hsome
    exact (h.kept_iff hc hk ht (hids k target ht) (hne k)).mp (hchain.kept i c k hc hk hsome)
  · rintro ⟨hapart, hback⟩
    have hnd := h.nodup_iff.mpr hapart
    refine ⟨hnd, h.chained, rootPath_index h.chained hnd fun e he => ?_,
      fun i c k hc hk hsome => ?_⟩
    · obtain ⟨f, hf, hfe⟩ := List.mem_filterMap.mp he
      obtain ⟨i, hi, rfl⟩ := List.getElem_of_mem hf
      have hid := h.ids i
      rw [entryAt, List.getElem?_eq_getElem hi, bind_some, hfe] at hid
      obtain ⟨_, -, hdrawn⟩ := map_eq_some_iff.mp hid.symm
      exact hdrawn ▸ hne i
    · obtain ⟨target, ht⟩ := isSome_iff_exists.mp hsome
      exact (h.kept_iff hc hk ht (hids k target ht) (hne k)).mpr (hback i c k hc hk hsome)

/-- A version 1 file of two messages and a compaction that keeps the second. -/
def v1File : List FileEntry :=
  [.session { plainHeader with version := none }, .entry (plainEntry "" none (userBody "one")),
    .entry (plainEntry "" none (userBody "two")),
    .entry (plainEntry "" none (.compaction
      { summary := "so far", firstKeptEntryId := "", firstKeptEntryIndex := some 2
        tokensBefore := 0 }))]

/-- Draws whose first eight characters are those of the position. -/
def apartDraws (i : ℕ) (_ : ℕ) : String := String.ofList (List.replicate (i + 1) 'a')

theorem migrate_chained_iff_v1File :
    MigratedChain v1File (migrateToCurrentVersion apartDraws v1File).1 := by
  refine (migrate_chained_iff apartDraws v1File (by decide) ?_ ?_).mpr ⟨?_, ?_⟩
  · intro i e he
    rcases i with _ | _ | _ | _ | i <;> cases he <;> rfl
  · intro i h
    simpa [apartDraws] using congrArg String.length h
  · intro i j hij hi hj
    have hlt : j < 4 := by
      by_contra hlt
      obtain ⟨n, rfl⟩ := Nat.exists_eq_add_of_le (Nat.le_of_not_lt hlt)
      simp [entryAt, v1File, Nat.add_comm 4] at hj
    have : ∀ j < 4, ∀ i < j, drawnId apartDraws i ≠ drawnId apartDraws j := by decide
    exact this j hlt i hij
  · intro i c k hc hk _
    rcases i with _ | _ | _ | _ | i
    · cases hc
    · cases hc
    · cases hc
    · cases hc
      cases hk
      decide
    · cases hc

/-- **Two draws that begin alike.**  Two entries get one id, and the walk from the last entry never
ends. -/
theorem migrate_not_chained :
    ¬ MigratedChain v1File (migrateToCurrentVersion (fun _ _ => "0af3c1d2-0000") v1File).1 ∧
      rootPath (JsMap.index SessionEntry.id
          (sessionEntries (migrateToCurrentVersion (fun _ _ => "0af3c1d2-0000") v1File).1))
        (sessionEntries (migrateToCurrentVersion (fun _ _ => "0af3c1d2-0000") v1File).1).getLast? =
      none :=
  ⟨fun h => absurd h.distinct (by decide), by decide⟩

end Amide
