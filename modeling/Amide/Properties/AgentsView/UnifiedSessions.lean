import Amide.Construction.AgentsView.AgentsViewState
import Amide.Framework.Positions

/-!
# Records of the agents view

Every daemon session gets a record of its own.  A saved session is attached to the record of the
last daemon session with its file, or else with its session id, and takes the place of what was
attached there; and a saved session whose file no daemon session has is taken for an earlier one
with its session id.  So a saved session is lost when another one comes to the same record
(`Apart`), and otherwise none is (`foldl_addSaved`).
-/

namespace Amide

open Positions List Option

/-! ## Keys -/

lemma append_ne_append {a b : String} (ha : a.toList ≠ []) (hb : b.toList ≠ [])
    (h : a.toList.head? ≠ b.toList.head?) (x y : String) : a ++ x ≠ b ++ y := by
  intro heq
  have hhead := congrArg (fun s : String => s.toList.head?) heq
  simp only [String.toList_append, head?_append_of_ne_nil _ ha,
    head?_append_of_ne_nil _ hb] at hhead
  exact h hhead

lemma append_inj_right {a x y : String} (h : a ++ x = a ++ y) : x = y := by
  have hlist := congrArg String.toList h
  rw [String.toList_append, String.toList_append, append_cancel_left_eq] at hlist
  exact String.toList_inj.mp hlist

section Keys

variable {canonicalSessionPath leasePath : String → String} {daemon : SessionSummary}
  {path path' sessionId sessionId' : String}

lemma fileIdentity_ne_sessionIdentity :
    fileIdentity canonicalSessionPath path ≠ sessionIdentity sessionId :=
  append_ne_append (by decide) (by decide) (by decide) _ _

lemma get?_setKeys (byKey : JsMap String ℕ) (keys : List String) (position : ℕ) (key : String) :
    (setKeys byKey keys position).get? key =
      if key ∈ keys then some position else byKey.get? key := by
  induction keys generalizing byKey with
  | nil => rfl
  | cons k keys ih =>
    rw [setKeys, foldl_cons, ← setKeys, ih, JsMap.get?_set]
    by_cases hmem : key ∈ keys
    · rw [if_pos hmem, if_pos (mem_cons_of_mem k hmem)]
    · rw [if_neg hmem]
      by_cases hk : k = key
      · rw [if_pos hk, if_pos (hk ▸ mem_cons_self)]
      · rw [if_neg hk, if_neg]
        rw [mem_cons, not_or]
        exact ⟨Ne.symm hk, hmem⟩

end Keys

/-! ## The record a saved session belongs to -/

section Owners

variable (canonicalSessionPath leasePath : String → String) (daemonSummaries : List SessionSummary)

/-- The last daemon session that has the key. -/
def aliasOwner (key : String) : Option ℕ :=
  (daemonSummaries.zipIdx.reverse.find? fun daemon =>
    key ∈ summaryIdentityAliases canonicalSessionPath leasePath daemon.1).map Prod.snd

def fileOwner (saved : AgentConnectionSavedSessionInfo) : Option ℕ :=
  aliasOwner canonicalSessionPath leasePath daemonSummaries
    (fileIdentity canonicalSessionPath saved.path)

def sessionOwner (saved : AgentConnectionSavedSessionInfo) : Option ℕ :=
  aliasOwner canonicalSessionPath leasePath daemonSummaries (sessionIdentity saved.id)

/-- The daemon session a saved session belongs to. -/
def ownerOf (saved : AgentConnectionSavedSessionInfo) : Option ℕ :=
  (fileOwner canonicalSessionPath leasePath daemonSummaries saved).or
    (sessionOwner canonicalSessionPath leasePath daemonSummaries saved)

/-- Two saved sessions do not belong to one daemon session; and the later one is not known to the
daemon by its session id only, or not at all, with the session id of the earlier one. -/
structure Apart (earlier later : AgentConnectionSavedSessionInfo) : Prop where
  owner : ownerOf canonicalSessionPath leasePath daemonSummaries earlier =
      ownerOf canonicalSessionPath leasePath daemonSummaries later →
    ownerOf canonicalSessionPath leasePath daemonSummaries later = none
  id : earlier.id = later.id → fileOwner canonicalSessionPath leasePath daemonSummaries later ≠ none

variable {canonicalSessionPath leasePath daemonSummaries}

lemma aliasOwner_append_singleton (daemon : SessionSummary) (key : String) :
    aliasOwner canonicalSessionPath leasePath (daemonSummaries ++ [daemon]) key =
      if key ∈ summaryIdentityAliases canonicalSessionPath leasePath daemon then
        some daemonSummaries.length
      else aliasOwner canonicalSessionPath leasePath daemonSummaries key := by
  rw [aliasOwner, zipIdx_append, reverse_append]
  by_cases h : key ∈ summaryIdentityAliases canonicalSessionPath leasePath daemon
  · simp [h]
  · simp [h, aliasOwner]

lemma exists_of_aliasOwner {key : String} {i : ℕ}
    (h : aliasOwner canonicalSessionPath leasePath daemonSummaries key = some i) :
    ∃ daemon, daemonSummaries[i]? = some daemon ∧
      key ∈ summaryIdentityAliases canonicalSessionPath leasePath daemon := by
  rw [aliasOwner, map_eq_some_iff] at h
  obtain ⟨⟨daemon, j⟩, hfind, rfl⟩ := h
  have hmem := mem_of_find?_eq_some hfind
  rw [mem_reverse, mem_zipIdx_iff_getElem?] at hmem
  exact ⟨daemon, hmem, by simpa using find?_some hfind⟩

variable {t s : AgentConnectionSavedSessionInfo} {i : ℕ}

lemma lt_of_ownerOf (h : ownerOf canonicalSessionPath leasePath daemonSummaries s = some i) :
    i < daemonSummaries.length := by
  rw [ownerOf, or_eq_some_iff] at h
  rcases h with h | ⟨-, h⟩
  all_goals
    obtain ⟨daemon, hdaemon, -⟩ := exists_of_aliasOwner h
    exact (List.getElem?_eq_some_iff.mp hdaemon).1

end Owners

/-! ## Reconciling -/

section Reconcile

variable {canonicalSessionPath leasePath : String → String}
  {heartbeatByActiveId : String → Option UnifiedSessionHeartbeat}
  {daemonSummaries : List SessionSummary} {sessions : UnifiedSessions}
  {done : List AgentConnectionSavedSessionInfo} {saved : AgentConnectionSavedSessionInfo} {i : ℕ}

def UnifiedSessionRecord.sources (record : UnifiedSessionRecord) :
    Option SessionSummary × Option AgentConnectionSavedSessionInfo :=
  (record.daemon, record.saved)

variable (canonicalSessionPath leasePath heartbeatByActiveId) in
/-- What the first loop leaves. -/
lemma foldl_addDaemon (daemonSummaries : List SessionSummary) : ∃ sessions, daemonSummaries.foldl
        (addDaemon canonicalSessionPath leasePath heartbeatByActiveId) {} = sessions ∧
      sessions.records.map UnifiedSessionRecord.sources = daemonSummaries.map (fun daemon =>
          (some (markHeartbeat heartbeatByActiveId daemon), none)) ∧
      ∀ key, sessions.recordByAlias.get? key =
        aliasOwner canonicalSessionPath leasePath daemonSummaries key := by
  induction daemonSummaries using reverseRecOn with
  | nil => exact ⟨_, rfl, rfl, fun _ => rfl⟩
  | append_singleton daemonSummaries daemon ih =>
    obtain ⟨sessions, heq, hsources, hkeys⟩ := ih
    have hlen : sessions.records.length = daemonSummaries.length := by
      simpa using congrArg List.length hsources
    rw [foldl_append, heq, foldl_cons, foldl_nil]
    refine ⟨_, rfl, ?_, fun key => ?_⟩
    · rw [addDaemon, map_append, hsources, map_append]
      rfl
    · rw [addDaemon, get?_setKeys, aliasOwner_append_singleton, hkeys, hlen]

/-- The record has a saved session. -/
def Occupied (sessions : UnifiedSessions) (i : ℕ) : Prop :=
  ∃ record, sessions.records[i]? = some record ∧ record.saved.isSome = true

lemma Occupied.lt (h : Occupied sessions i) : i < sessions.records.length :=
  (List.getElem?_eq_some_iff.mp h.choose_spec.1).1

/-- Every saved session so far has a record of its own: that of its daemon session, or one behind
those. -/
structure Reconciled (canonicalSessionPath leasePath : String → String)
    (heartbeatByActiveId : String → Option UnifiedSessionHeartbeat)
    (daemonSummaries : List SessionSummary) (done : List AgentConnectionSavedSessionInfo)
    (sessions : UnifiedSessions) : Prop where
  length : daemonSummaries.length ≤ sessions.records.length
  bounded : ∀ key i, sessions.recordByAlias.get? key = some i → i < sessions.records.length
  untouched : ∀ key, (∀ t ∈ done, key ∉ savedIdentityAliases canonicalSessionPath t) →
    sessions.recordByAlias.get? key = aliasOwner canonicalSessionPath leasePath daemonSummaries key
  known : ∀ t ∈ done, ∀ key ∈ savedIdentityAliases canonicalSessionPath t,
    ∃ i, sessions.recordByAlias.get? key = some i ∧ Occupied sessions i
  daemons : ∀ i daemon, daemonSummaries[i]? = some daemon →
    sessions.records[i]?.map UnifiedSessionRecord.sources =
      some (some (markHeartbeat heartbeatByActiveId daemon), done.find? fun t =>
        ownerOf canonicalSessionPath leasePath daemonSummaries t = some i)
  rest : (sessions.records.drop daemonSummaries.length).map UnifiedSessionRecord.sources =
    (done.filter fun t => ownerOf canonicalSessionPath leasePath daemonSummaries t = none).map
      fun t => (none, some t)
  saved : (sessions.records.filterMap (·.saved)).Perm done

lemma attached_eq (sessions : UnifiedSessions) (saved : AgentConnectionSavedSessionInfo) :
    (savedIdentityAliases canonicalSessionPath saved).findSome? sessions.recordByAlias.get? =
      (sessions.recordByAlias.get? (fileIdentity canonicalSessionPath saved.path)).or
        (sessions.recordByAlias.get? (sessionIdentity saved.id)) := by
  rw [savedIdentityAliases, findSome?_cons, findSome?_cons, findSome?_nil]
  cases sessions.recordByAlias.get? (fileIdentity canonicalSessionPath saved.path) <;>
    cases sessions.recordByAlias.get? (sessionIdentity saved.id) <;> rfl

namespace Reconciled

variable (h : Reconciled canonicalSessionPath leasePath heartbeatByActiveId daemonSummaries done
    sessions)
  (hpath : ∀ t ∈ done, canonicalSessionPath t.path ≠ canonicalSessionPath saved.path)

include h

/-- The record of a daemon session is taken by the saved session that belongs to it. -/
lemma occupied_iff (hi : i < daemonSummaries.length) : Occupied sessions i ↔
    ∃ t ∈ done, ownerOf canonicalSessionPath leasePath daemonSummaries t = some i := by
  have hdaemon := h.daemons i _ (getElem?_eq_getElem hi)
  obtain ⟨record, hrec, hsources⟩ := map_eq_some_iff.mp hdaemon
  have hsaved : record.saved = done.find? fun t =>
    ownerOf canonicalSessionPath leasePath daemonSummaries t = some i := congrArg Prod.snd hsources
  rw [Occupied, hrec]
  simp [hsaved]

include hpath in
/-- The file of a saved session leads to its daemon session. -/
lemma get?_file : sessions.recordByAlias.get? (fileIdentity canonicalSessionPath saved.path) =
    fileOwner canonicalSessionPath leasePath daemonSummaries saved := by
  refine h.untouched _ fun t ht hmem => ?_
  rcases mem_cons.mp hmem with heq | hmem
  · exact hpath t ht (append_inj_right heq).symm
  · exact fileIdentity_ne_sessionIdentity (mem_singleton.mp hmem)

/-- Its session id leads to its daemon session, unless an earlier saved session has it too. -/
lemma get?_session (hid : ∀ t ∈ done, t.id ≠ saved.id) :
    sessions.recordByAlias.get? (sessionIdentity saved.id) =
      sessionOwner canonicalSessionPath leasePath daemonSummaries saved := by
  refine h.untouched _ fun t ht hmem => ?_
  rcases mem_cons.mp hmem with heq | hmem
  · exact fileIdentity_ne_sessionIdentity heq.symm
  · exact hid t ht (append_inj_right (mem_singleton.mp hmem)).symm

include hpath in
/-- A saved session that is apart from those before it comes to its own record. -/
lemma attached_of_apart
    (hapart : ∀ t ∈ done, Apart canonicalSessionPath leasePath daemonSummaries t saved) :
    (savedIdentityAliases canonicalSessionPath saved).findSome? sessions.recordByAlias.get? =
        ownerOf canonicalSessionPath leasePath daemonSummaries saved ∧
      ∀ i, ownerOf canonicalSessionPath leasePath daemonSummaries saved = some i →
        ¬ Occupied sessions i := by
  constructor
  · rw [attached_eq, h.get?_file hpath, ownerOf]
    cases howner : fileOwner canonicalSessionPath leasePath daemonSummaries saved with
    | some i => rw [some_or, some_or]
    | none =>
      rw [h.get?_session fun t ht heq => (hapart t ht).id heq howner]
  · intro i howner hocc
    obtain ⟨t, ht, howner'⟩ := (h.occupied_iff (lt_of_ownerOf howner)).mp hocc
    have := (hapart t ht).owner (howner'.trans howner.symm)
    rw [howner] at this
    cases this

include hpath in
/-- One that is not comes to a record that is taken. -/
lemma attached_of_not_apart {t : AgentConnectionSavedSessionInfo} (ht : t ∈ done)
    (hapart : ¬ Apart canonicalSessionPath leasePath daemonSummaries t saved) :
    ∃ i, (savedIdentityAliases canonicalSessionPath saved).findSome? sessions.recordByAlias.get? =
      some i ∧ Occupied sessions i := by
  rw [attached_eq, h.get?_file hpath]
  -- its session id is known already, and leads to a record that is taken
  have hknown : ∀ t' ∈ done, t'.id = saved.id →
      ∃ i, sessions.recordByAlias.get? (sessionIdentity saved.id) = some i ∧
        Occupied sessions i := by
    intro t' ht' hid
    rw [← hid]
    exact h.known t' ht' _ (by simp [savedIdentityAliases])
  by_cases howner : ownerOf canonicalSessionPath leasePath daemonSummaries t =
      ownerOf canonicalSessionPath leasePath daemonSummaries saved ∧
    ownerOf canonicalSessionPath leasePath daemonSummaries saved ≠ none
  · obtain ⟨i, hi⟩ := ne_none_iff_exists'.mp howner.2
    have hocc : Occupied sessions i :=
      (h.occupied_iff (lt_of_ownerOf hi)).mpr ⟨t, ht, howner.1.trans hi⟩
    rw [ownerOf] at hi
    cases hfile : fileOwner canonicalSessionPath leasePath daemonSummaries saved with
    | some j =>
      rw [hfile, some_or] at hi
      exact ⟨j, rfl, Option.some.inj hi ▸ hocc⟩
    | none =>
      rw [hfile, none_or] at hi
      by_cases hid : ∃ t' ∈ done, t'.id = saved.id
      · obtain ⟨t', ht', hid⟩ := hid
        exact hknown t' ht' hid
      · rw [h.get?_session fun t' ht' heq => hid ⟨t', ht', heq⟩, none_or]
        exact ⟨i, hi, hocc⟩
  · have hclash : t.id = saved.id ∧
        fileOwner canonicalSessionPath leasePath daemonSummaries saved = none := by
      by_contra hclash
      refine hapart ⟨fun heq => ?_, fun heq hfile => hclash ⟨heq, hfile⟩⟩
      by_contra hne
      exact howner ⟨heq, hne⟩
    rw [hclash.2, none_or]
    exact hknown t ht hclash.1

end Reconciled

variable (canonicalSessionPath saved) in
/-- Where a saved session is put: to the record it is attached to, or behind all. -/
lemma addSaved_spec (hbounded : ∀ key i, sessions.recordByAlias.get? key = some i →
      i < sessions.records.length) :
    ∃ p, ((savedIdentityAliases canonicalSessionPath saved).findSome?
        sessions.recordByAlias.get?).getD sessions.records.length = p ∧
      (∀ key, (addSaved canonicalSessionPath sessions saved).recordByAlias.get? key =
        if key ∈ savedIdentityAliases canonicalSessionPath saved then some p
        else sessions.recordByAlias.get? key) ∧
      sessions.records.length ≤ (addSaved canonicalSessionPath sessions saved).records.length ∧
      Occupied (addSaved canonicalSessionPath sessions saved) p ∧
      ∀ j, Occupied sessions j → Occupied (addSaved canonicalSessionPath sessions saved) j := by
  rw [addSaved]
  cases hatt : (savedIdentityAliases canonicalSessionPath saved).findSome?
      sessions.recordByAlias.get? with
  | some i =>
    obtain ⟨key, -, hkey⟩ := exists_of_findSome?_eq_some hatt
    have hi := hbounded key i hkey
    refine ⟨i, rfl, get?_setKeys _ _ _, (length_modify _ _ _).ge, ?_, fun j hj => ?_⟩
    · refine ⟨_, by rw [getElem?_modify_eq, getElem?_eq_getElem hi]; rfl, rfl⟩
    · obtain ⟨record, hrec, hsome⟩ := hj
      rw [Occupied, getElem?_modify, hrec]
      refine ⟨_, rfl, ?_⟩
      split_ifs
      · rfl
      · exact hsome
  | none =>
    refine ⟨_, rfl, get?_setKeys _ _ _, by simp, ?_, fun j hj => ?_⟩
    · exact ⟨_, getElem?_concat_length, rfl⟩
    · obtain ⟨record, hrec, hsome⟩ := hj
      obtain ⟨hj, rfl⟩ := List.getElem?_eq_some_iff.mp hrec
      exact ⟨_, by rw [getElem?_append_left hj, hrec], hsome⟩

/-- What a saved session of its own record leaves. -/
lemma Reconciled.addSaved
    (h : Reconciled canonicalSessionPath leasePath heartbeatByActiveId daemonSummaries done
      sessions)
    (hatt : (savedIdentityAliases canonicalSessionPath saved).findSome?
      sessions.recordByAlias.get? = ownerOf canonicalSessionPath leasePath daemonSummaries saved)
    (hfree : ∀ i, ownerOf canonicalSessionPath leasePath daemonSummaries saved = some i →
      ¬ Occupied sessions i) :
    Reconciled canonicalSessionPath leasePath heartbeatByActiveId daemonSummaries (done ++ [saved])
      (addSaved canonicalSessionPath sessions saved) := by
  obtain ⟨p, hp, hkeys, hlen, hnew, hkept⟩ := addSaved_spec canonicalSessionPath saved h.bounded
  refine ⟨h.length.trans hlen, fun key i hkey => ?_, fun key hkey => ?_, fun t ht key hkey => ?_,
    fun j daemon hj => ?_, ?_, ?_⟩
  · rw [hkeys] at hkey
    split_ifs at hkey
    · exact Option.some.inj hkey ▸ hnew.lt
    · exact lt_of_lt_of_le (h.bounded key i hkey) hlen
  · rw [List.forall_mem_append, forall_mem_singleton] at hkey
    rw [hkeys, if_neg hkey.2]
    exact h.untouched key hkey.1
  · rw [hkeys]
    split_ifs with hmem
    · exact ⟨p, rfl, hnew⟩
    · rcases mem_append.mp ht with ht | ht
      · obtain ⟨i, hi, hocc⟩ := h.known t ht key hkey
        exact ⟨i, hi, hkept i hocc⟩
      · exact absurd (mem_singleton.mp ht ▸ hkey) hmem
  · obtain ⟨record, hrec, hsources⟩ := map_eq_some_iff.mp (h.daemons j daemon hj)
    have hjn : j < daemonSummaries.length := (List.getElem?_eq_some_iff.mp hj).1
    rw [find?_append, find?_singleton, Amide.addSaved, hatt]
    cases howner : ownerOf canonicalSessionPath leasePath daemonSummaries saved with
    | some i =>
      rw [getElem?_modify, hrec, Option.map_eq_map, Option.map_some]
      by_cases hij : i = j
      · -- nothing was attached to the record before
        have hnone : done.find? (fun t =>
            ownerOf canonicalSessionPath leasePath daemonSummaries t = some j) = none := by
          rw [find?_eq_none]
          intro t ht heq
          exact hfree i howner ((h.occupied_iff (hij ▸ hjn)).mpr ⟨t, ht, by simpa [hij] using heq⟩)
        have hdaemon : record.daemon = some (markHeartbeat heartbeatByActiveId daemon) :=
          congrArg Prod.fst hsources
        rw [hnone, if_pos hij, none_or, if_pos (by simpa using hij), ← hdaemon]
        rfl
      · rw [if_neg hij, if_neg (by simpa using hij), or_none, Option.map_some, hsources]
    | none =>
      have hlt : j < sessions.records.length := hjn.trans_le h.length
      rw [getElem?_append_left hlt, hrec, if_neg (by simp), or_none, Option.map_some, hsources]
  · rw [filter_append, map_append, ← h.rest, Amide.addSaved, hatt]
    cases howner : ownerOf canonicalSessionPath leasePath daemonSummaries saved with
    | some i =>
      have hin := lt_of_ownerOf howner
      have hnone : [saved].filter (fun t =>
          ownerOf canonicalSessionPath leasePath daemonSummaries t = none) = [] := by
        simp [howner]
      rw [hnone, map_nil, append_nil]
      refine congrArg _ (ext_getElem? fun j => ?_)
      rw [getElem?_drop, getElem?_drop,
        getElem?_modify_ne _ _ (by omega : i ≠ daemonSummaries.length + j)]
    | none =>
      have hsome : [saved].filter (fun t =>
          ownerOf canonicalSessionPath leasePath daemonSummaries t = none) = [saved] := by
        simp [howner]
      rw [drop_append_of_le_length h.length, map_append, hsome]
      rfl
  · rw [Amide.addSaved, hatt]
    cases howner : ownerOf canonicalSessionPath leasePath daemonSummaries saved with
    | some i =>
      have hin := (lt_of_ownerOf howner).trans_le h.length
      have hempty : sessions.records[i].saved = none := by
        by_contra hsome
        exact hfree i howner ⟨_, getElem?_eq_getElem hin, isSome_iff_ne_none.mpr hsome⟩
      exact (filterMap_modify_perm (getElem?_eq_getElem hin) hempty rfl).trans
        (h.saved.append_right _)
    | none =>
      rw [filterMap_append]
      exact h.saved.append_right _

/-- One that comes to a record that is taken is counted no more than what it replaces. -/
lemma length_saved_addSaved_of_occupied
    (h : (savedIdentityAliases canonicalSessionPath saved).findSome?
      sessions.recordByAlias.get? = some i) (hocc : Occupied sessions i) :
    ((addSaved canonicalSessionPath sessions saved).records.filterMap (·.saved)).length =
      (sessions.records.filterMap (·.saved)).length := by
  obtain ⟨record, hrec, hsome⟩ := hocc
  obtain ⟨earlier, hearlier⟩ := isSome_iff_exists.mp hsome
  rw [addSaved, h]
  exact length_filterMap_modify hrec hearlier rfl

variable (canonicalSessionPath saved) in
lemma length_saved_addSaved_le (hbounded : ∀ key i, sessions.recordByAlias.get? key = some i →
      i < sessions.records.length) :
    ((addSaved canonicalSessionPath sessions saved).records.filterMap (·.saved)).length ≤
      (sessions.records.filterMap (·.saved)).length + 1 := by
  cases hatt : (savedIdentityAliases canonicalSessionPath saved).findSome?
      sessions.recordByAlias.get? with
  | some i =>
    obtain ⟨key, -, hkey⟩ := exists_of_findSome?_eq_some hatt
    have hi := hbounded key i hkey
    by_cases hocc : Occupied sessions i
    · rw [length_saved_addSaved_of_occupied hatt hocc]
      exact Nat.le_succ _
    · have hempty : sessions.records[i].saved = none := by
        by_contra hsome
        exact hocc ⟨_, getElem?_eq_getElem hi, isSome_iff_ne_none.mpr hsome⟩
      rw [addSaved, hatt]
      have hperm := filterMap_modify_perm (f := fun record : UnifiedSessionRecord => { record with
          saved := some saved
          identityAliases := (record.identityAliases ++
            savedIdentityAliases canonicalSessionPath saved).eraseDups
          sourced := Bool.or_true _ }) (getElem?_eq_getElem hi) hempty rfl
      rw [hperm.length_eq, length_append]
      rfl
  | none =>
    rw [addSaved, hatt]
    simp

/-- The daemon sessions stay where they are. -/
lemma filterMap_daemon_addSaved (sessions : UnifiedSessions)
    (saved : AgentConnectionSavedSessionInfo) :
    (addSaved canonicalSessionPath sessions saved).records.filterMap (·.daemon) =
      sessions.records.filterMap (·.daemon) := by
  rw [addSaved]
  split
  · exact filterMap_modify fun _ => rfl
  · rw [filterMap_append, filterMap_cons_none rfl]
    exact append_nil _

variable (canonicalSessionPath leasePath heartbeatByActiveId) in
/-- Either all saved sessions so far are apart and have records of their own, or there are fewer
records with one than saved sessions. -/
lemma foldl_addSaved (daemonSummaries : List SessionSummary)
    (savedSessions : List AgentConnectionSavedSessionInfo)
    (hpaths : savedSessions.Pairwise fun s t =>
      canonicalSessionPath s.path ≠ canonicalSessionPath t.path) :
    ∃ sessions, savedSessions.foldl (addSaved canonicalSessionPath)
        (daemonSummaries.foldl (addDaemon canonicalSessionPath leasePath heartbeatByActiveId) {}) =
          sessions ∧
      sessions.records.filterMap (·.daemon) =
        daemonSummaries.map (markHeartbeat heartbeatByActiveId) ∧
      (∀ key i, sessions.recordByAlias.get? key = some i → i < sessions.records.length) ∧
      (savedSessions.Pairwise (Apart canonicalSessionPath leasePath daemonSummaries) ∧
          Reconciled canonicalSessionPath leasePath heartbeatByActiveId daemonSummaries
            savedSessions sessions ∨
        ¬ savedSessions.Pairwise (Apart canonicalSessionPath leasePath daemonSummaries) ∧
          (sessions.records.filterMap (·.saved)).length < savedSessions.length) := by
  induction savedSessions using reverseRecOn with
  | nil =>
    obtain ⟨sessions, heq, hsources, hkeys⟩ :=
      foldl_addDaemon canonicalSessionPath leasePath heartbeatByActiveId daemonSummaries
    have hlen : sessions.records.length = daemonSummaries.length := by
      simpa using congrArg List.length hsources
    have hbounded : ∀ key i, sessions.recordByAlias.get? key = some i →
        i < sessions.records.length := by
      intro key i hkey
      rw [hkeys] at hkey
      obtain ⟨daemon, hdaemon, -⟩ := exists_of_aliasOwner hkey
      rw [hlen]
      exact (List.getElem?_eq_some_iff.mp hdaemon).1
    have hdaemons : sessions.records.filterMap (·.daemon) =
        daemonSummaries.map (markHeartbeat heartbeatByActiveId) := by
      have := congrArg (List.filterMap Prod.fst) hsources
      rw [filterMap_map, filterMap_map] at this
      exact this.trans (congrFun filterMap_eq_map _)
    have hsaved : sessions.records.filterMap (·.saved) = [] := by
      have := congrArg (List.filterMap Prod.snd) hsources
      rw [filterMap_map, filterMap_map] at this
      exact this.trans (filterMap_eq_nil_iff.mpr fun _ _ => rfl)
    refine ⟨sessions, heq, hdaemons, hbounded, .inl ⟨.nil, ⟨hlen.ge, hbounded, fun key _ =>
      hkeys key, fun t ht => absurd ht not_mem_nil, fun i daemon hi => ?_, ?_, ?_⟩⟩⟩
    · rw [← getElem?_map, hsources, getElem?_map, hi]
      rfl
    · rw [← hlen, drop_length]
      rfl
    · rw [hsaved]
  | append_singleton savedSessions saved ih =>
    rw [pairwise_append] at hpaths
    obtain ⟨hpaths, -, hlater⟩ := hpaths
    obtain ⟨sessions, heq, hdaemon, hbounded, hcases⟩ := ih hpaths
    rw [foldl_append, heq, foldl_cons, foldl_nil]
    have hpairwise : (savedSessions ++ [saved]).Pairwise
        (Apart canonicalSessionPath leasePath daemonSummaries) ↔
          savedSessions.Pairwise (Apart canonicalSessionPath leasePath daemonSummaries) ∧
            ∀ t ∈ savedSessions, Apart canonicalSessionPath leasePath daemonSummaries t saved := by
      rw [pairwise_append]
      simp
    refine ⟨_, rfl, ?_, ?_, ?_⟩
    · rw [← hdaemon]
      exact filterMap_daemon_addSaved sessions saved
    · obtain ⟨p, -, hkeys, hlen, hnew, -⟩ := addSaved_spec canonicalSessionPath saved hbounded
      intro key i hkey
      rw [hkeys] at hkey
      split_ifs at hkey
      · exact Option.some.inj hkey ▸ hnew.lt
      · exact lt_of_lt_of_le (hbounded key i hkey) hlen
    · rw [hpairwise, length_append, length_singleton]
      have hle := length_saved_addSaved_le canonicalSessionPath saved hbounded
      rcases hcases with ⟨hapart, h⟩ | ⟨hapart, hlt⟩
      · have hpath : ∀ t ∈ savedSessions,
            canonicalSessionPath t.path ≠ canonicalSessionPath saved.path :=
          fun t ht => hlater t ht saved mem_cons_self
        by_cases hall : ∀ t ∈ savedSessions,
            Apart canonicalSessionPath leasePath daemonSummaries t saved
        · obtain ⟨hatt, hfree⟩ := h.attached_of_apart hpath hall
          exact .inl ⟨⟨hapart, hall⟩, h.addSaved hatt hfree⟩
        · obtain ⟨t, ht, hclash⟩ : ∃ t ∈ savedSessions,
              ¬ Apart canonicalSessionPath leasePath daemonSummaries t saved := by
            simpa using hall
          obtain ⟨i, hatt, hocc⟩ := h.attached_of_not_apart hpath ht hclash
          refine .inr ⟨fun hall => hclash (hall.2 t ht), ?_⟩
          rw [length_saved_addSaved_of_occupied hatt hocc, h.saved.length_eq]
          exact Nat.lt_succ_self _
      · exact .inr ⟨fun hall => hapart hall.1, by omega⟩

/-! ## What is shown of the records -/

/-- A daemon session with what a saved one adds. -/
def enrichedSummary (canonicalSessionPath : String → String) (daemon : SessionSummary)
    (saved : Option AgentConnectionSavedSessionInfo) : SessionSummary :=
  summaryForUnifiedRecord canonicalSessionPath
    { daemon := some daemon, saved, identity := "", identityAliases := [], sourced := rfl }

lemma sourced_saved {α β : Type} (saved : β) :
    ((none : Option α).isSome || (some saved).isSome) = true :=
  rfl

def savedSummary (canonicalSessionPath : String → String)
    (saved : AgentConnectionSavedSessionInfo) : SessionSummary :=
  summaryForUnifiedRecord canonicalSessionPath
    { saved := some saved, identity := "", identityAliases := [], sourced := sourced_saved saved }

/-- The daemon sessions, each with the saved session that belongs to it, and the saved sessions that
belong to none. -/
def unifiedSummaries (canonicalSessionPath leasePath : String → String)
    (heartbeatByActiveId : String → Option UnifiedSessionHeartbeat)
    (daemonSummaries : List SessionSummary)
    (savedSessions : List AgentConnectionSavedSessionInfo) : List SessionSummary :=
  daemonSummaries.zipIdx.map (fun daemon =>
    enrichedSummary canonicalSessionPath (markHeartbeat heartbeatByActiveId daemon.1)
      (savedSessions.find? fun t =>
        ownerOf canonicalSessionPath leasePath daemonSummaries t = some daemon.2)) ++
  (savedSessions.filter fun t =>
    ownerOf canonicalSessionPath leasePath daemonSummaries t = none).map
      (savedSummary canonicalSessionPath)

lemma summary_eq_of_sources {record record' : UnifiedSessionRecord}
    (h : record.sources = record'.sources) :
    summaryForUnifiedRecord canonicalSessionPath record =
      summaryForUnifiedRecord canonicalSessionPath record' := by
  obtain ⟨daemon, saved, _, _, _, hsourced⟩ := record
  obtain ⟨daemon', saved', _, _, _, hsourced'⟩ := record'
  obtain ⟨rfl, rfl⟩ := Prod.ext_iff.mp h
  cases daemon <;> cases saved <;> rfl

/-- Only the sources of records are shown. -/
lemma map_summary_of_sources {β : Type*} {records : List UnifiedSessionRecord} {l : List β}
    {sources : β → Option SessionSummary × Option AgentConnectionSavedSessionInfo}
    {summary : β → SessionSummary}
    (h : records.map UnifiedSessionRecord.sources = l.map sources)
    (hsum : ∀ record, ∀ b ∈ l, record.sources = sources b →
      summaryForUnifiedRecord canonicalSessionPath record = summary b) :
    records.map (summaryForUnifiedRecord canonicalSessionPath) = l.map summary := by
  induction records generalizing l with
  | nil =>
    rw [map_nil, eq_comm, map_eq_nil_iff] at h
    rw [h]
    rfl
  | cons record records ih =>
    cases l with
    | nil => cases h
    | cons b l =>
      rw [map_cons, map_cons, List.cons.injEq] at h
      rw [map_cons, map_cons, hsum record b mem_cons_self h.1,
        ih h.2 fun record b hb => hsum record b (mem_cons_of_mem _ hb)]

lemma Reconciled.summaries
    (h : Reconciled canonicalSessionPath leasePath heartbeatByActiveId daemonSummaries done
      sessions) :
    sessions.records.map (summaryForUnifiedRecord canonicalSessionPath) =
      unifiedSummaries canonicalSessionPath leasePath heartbeatByActiveId daemonSummaries done := by
  have hdaemons : (sessions.records.take daemonSummaries.length).map UnifiedSessionRecord.sources =
      daemonSummaries.zipIdx.map fun daemon =>
        (some (markHeartbeat heartbeatByActiveId daemon.1), done.find? fun t =>
          ownerOf canonicalSessionPath leasePath daemonSummaries t = some daemon.2) := by
    refine ext_getElem? fun i => ?_
    rw [getElem?_map, getElem?_map, getElem?_zipIdx, getElem?_take]
    cases hi : daemonSummaries[i]? with
    | some daemon =>
      rw [if_pos (List.getElem?_eq_some_iff.mp hi).1, h.daemons i daemon hi, Option.map_some,
        Option.map_some, Nat.zero_add]
    | none =>
      rw [if_neg (Nat.not_lt.mpr (List.getElem?_eq_none_iff.mp hi))]
      rfl
  rw [← take_append_drop daemonSummaries.length sessions.records, map_append,
    map_summary_of_sources hdaemons fun record daemon _ hrec => ?_,
    map_summary_of_sources h.rest fun record t _ hrec => ?_]
  · rfl
  · exact summary_eq_of_sources hrec
  · exact summary_eq_of_sources hrec

end Reconcile

end Amide
