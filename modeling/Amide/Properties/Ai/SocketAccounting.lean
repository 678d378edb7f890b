import Amide.Properties.Ai.SocketOwnership

/-!
# Which sockets are lost

A socket that is open should be held by a request, or be the one that is cached for its session.
Two things go wrong.  Of two requests that connect for one session, the later one's entry takes the
place of the earlier one's, which is then given back to nobody; and a request that has taken its
entry from the cache, like the timer of an entry, deletes whatever is cached for the session by
then.  A run loses no socket exactly when its steps keep clear of this (`sockets_kept_iff`).
-/

namespace Amide

open Positions Option

namespace CodexSockets

variable {s s' : CodexSockets} {r k i : ℕ} {sessionId : String}

/-! ## Open sockets -/

lemma isOpen_closeWebSocketSilently (s : CodexSockets) (k k' : ℕ) :
    (s.closeWebSocketSilently k).IsOpen k' ↔ k' ≠ k ∧ s.IsOpen k' := by
  rw [IsOpen, IsOpen, readyState, closeWebSocketSilently, setReadyState, List.getElem?_modify,
    map_eq_map, map_map]
  by_cases hk : k = k'
  · subst hk
    cases s.sockets[k]? <;> simp
  · rw [and_iff_right (Ne.symm hk)]
    simp [hk, readyState, Function.comp_def]

lemma Accounted.closeWebSocketSilently (hacc : s.Accounted) (k : ℕ) :
    (s.closeWebSocketSilently k).Accounted := fun k' hopen =>
  hacc k' ((isOpen_closeWebSocketSilently s k k').mp hopen).2

section
variable {f : CachedWebSocketConnection → CachedWebSocketConnection}
  (hf : ∀ e, (f e).socket = e.socket ∧ (f e).sessionId = e.sessionId)
include hf

lemma cached_modifyEntry (i k : ℕ) : (s.modifyEntry i f).Cached k ↔ s.Cached k := by
  constructor
  · rintro ⟨j, e', he', hsocket, hcache⟩
    rw [modifyEntry, List.getElem?_modify, map_eq_map, map_eq_some_iff] at he'
    obtain ⟨e, he, rfl⟩ := he'
    refine ⟨j, e, he, ?_, ?_⟩
    · split_ifs at hsocket
      · rw [← (hf e).1, hsocket]
      · exact hsocket
    · split_ifs at hcache
      · rw [← (hf e).2, ← hcache]
        rfl
      · exact hcache
  · rintro ⟨j, e, he, hsocket, hcache⟩
    refine ⟨j, if i = j then f e else e, ?_, ?_, ?_⟩
    · rw [modifyEntry, List.getElem?_modify, he]
      rfl
    · split_ifs
      · rw [(hf e).1, hsocket]
      · exact hsocket
    · split_ifs
      · rw [(hf e).2, ← hcache]
        rfl
      · exact hcache

lemma accounted_modifyEntry (i : ℕ) : (s.modifyEntry i f).Accounted ↔ s.Accounted :=
  forall_congr' fun k => imp_congr_right fun _ => or_congr_right (cached_modifyEntry hf i k)

end

lemma accounted_clearIdleTimer (i : ℕ) : (s.clearIdleTimer i).Accounted ↔ s.Accounted :=
  accounted_modifyEntry (f := fun entry => { entry with idleTimer := false })
    (fun _ => ⟨rfl, rfl⟩) i

variable {e : CachedWebSocketConnection}

/-- An open socket of an idle entry that is not cached is lost. -/
lemma Sound.not_accounted (h : Sound s) (he : s.entries[i]? = some e) (hbusy : e.busy = false)
    (hopen : s.IsOpen e.socket) (hcache : s.websocketSessionCache.get? e.sessionId ≠ some i) :
    ¬ s.Accounted := by
  intro hacc
  rcases hacc e.socket hopen with ⟨r, hold, hr⟩ | ⟨j, e', he', hsocket, hcache'⟩
  · exact h.not_request he hbusy hr rfl
  · have hij := h.entries j i e' e he' he hsocket
    subst hij
    rw [he] at he'
    cases he'
    exact hcache hcache'

/-- What is cached for the session, but for the entry `own`, is in use if its socket is open. -/
def SparesIdle (s : CodexSockets) (sessionId : String) (own : Option ℕ) : Prop :=
  ∀ j e, s.cached? sessionId = some (j, e) → own ≠ some j → s.IsOpen e.socket → e.busy = true

lemma cached?_eq_some_iff : s.cached? sessionId = some (i, e) ↔
    s.websocketSessionCache.get? sessionId = some i ∧ s.entries[i]? = some e := by
  rw [cached?, bind_eq_some_iff]
  constructor
  · rintro ⟨j, hj, hmap⟩
    obtain ⟨e', he', heq⟩ := map_eq_some_iff.mp hmap
    cases heq
    exact ⟨hj, he'⟩
  · rintro ⟨hi, he⟩
    exact ⟨i, hi, by rw [he]; rfl⟩

lemma accounted_uncache_iff (h : Sound s) (hacc : s.Accounted) (sessionId : String) :
    (s.uncache sessionId).Accounted ↔ s.SparesIdle sessionId none := by
  constructor
  · intro hafter j e hcached _ hopen
    obtain ⟨hj, he⟩ := cached?_eq_some_iff.mp hcached
    by_contra hbusy
    refine (h.uncache sessionId).not_accounted he (Bool.not_eq_true _ ▸ hbusy) hopen ?_ hafter
    obtain ⟨e', he', hid⟩ := h.cached sessionId j hj
    rw [he] at he'
    cases he'
    rw [hid, get?_uncache_self]
    exact (some_ne_none j).symm
  · intro hspares k hopen
    rcases hacc k hopen with hheld | ⟨j, e, he, rfl, hcache⟩
    · exact .inl hheld
    · by_cases hid : e.sessionId = sessionId
      · rw [hid] at hcache
        exact .inl (h.busy sessionId j e hcache he
          (hspares j e (cached?_eq_some_iff.mpr ⟨hcache, he⟩) (some_ne_none j).symm hopen))
      · refine .inr ⟨j, e, he, rfl, ?_⟩
        rw [uncache, JsMap.get?_delete, if_neg (Ne.symm hid), hcache]

/-- A request whose socket is not open may end. -/
lemma accounted_end_iff {p : SocketRequest} (hr : s.requests[r]? = some p)
    (hk : p.socket? = some k) (hclosed : ¬ s.IsOpen k) :
    (s.setRequest r .ended).Accounted ↔ s.Accounted := by
  refine forall_congr' fun k' => imp_congr_right fun hopen => or_congr_left ?_
  constructor
  · rintro ⟨r', hold', hr'⟩
    change (s.requests.set r .ended)[r']? = _ at hr'
    rw [List.getElem?_set] at hr'
    split_ifs at hr' with hne
    · cases hr'
    · exact ⟨r', hold', hr'⟩
  · rintro ⟨r', hold', hr'⟩
    refine ⟨r', hold', (List.getElem?_set_ne ?_).trans hr'⟩
    rintro rfl
    cases hr.symm.trans hr'
    cases hk
    exact hclosed hopen

lemma held_or_eq_of_setRequest {p p₀ : SocketRequest} (hr : s.requests[r]? = some p₀) {k' : ℕ}
    (hheld : s.Held k') : (s.setRequest r p).Held k' ∨ p₀.socket? = some k' := by
  obtain ⟨r', hold, hr'⟩ := hheld
  by_cases hne : r = r'
  · subst hne
    rw [hr] at hr'
    cases hr'
    exact .inr rfl
  · exact .inl ⟨r', hold, (List.getElem?_set_ne hne).trans hr'⟩

/-- An entry that is given back must be the one that is cached. -/
lemma accounted_keepEntry_iff (h : Sound s) (hacc : s.Accounted) {hold : SocketHold}
    (hr : s.requests[r]? = some (.holding k hold)) (hi : hold.entry? = some i)
    (he : s.entries[i]? = some e) (hsocket : e.socket = k) :
    ((s.keepEntry i).setRequest r .ended).Accounted ↔
      (s.IsOpen k → s.websocketSessionCache.get? e.sessionId = some i) := by
  have hsound := h.keepEntry hr hi
  have hentry : ((s.keepEntry i).setRequest r .ended).entries[i]? =
      some { e with busy := false, idleTimer := true } := by
    change ((s.entries.modify i _).modify i _)[i]? = _
    rw [List.getElem?_modify_eq, List.getElem?_modify_eq, he]
    rfl
  constructor
  · intro hafter hopen
    by_contra hcache
    exact hsound.not_accounted hentry rfl (hsocket ▸ hopen) hcache hafter
  · intro hown k' hopen
    by_cases hk : k' = k
    · exact .inr ⟨i, _, hentry, hsocket.trans hk.symm, hown (hk ▸ hopen)⟩
    · rcases hacc k' hopen with hheld | hcached
      · rcases held_or_eq_of_setRequest (p := .ended) hr hheld with hheld | heq
        · exact .inl hheld
        · exact absurd (Option.some.inj heq).symm hk
      · refine .inr ?_
        rw [← cached_modifyEntry (f := fun entry => { entry with busy := false })
          (fun _ => ⟨rfl, rfl⟩) i, ← cached_modifyEntry
            (f := fun entry => { entry with idleTimer := true }) (fun _ => ⟨rfl, rfl⟩) i] at hcached
        exact hcached

lemma isOpen_setReadyState_of_ne (s : CodexSockets) {k' : ℕ} (state : WebSocketReadyState)
    (hne : k' ≠ k) : (s.setReadyState k state).IsOpen k' ↔ s.IsOpen k' := by
  rw [IsOpen, IsOpen, readyState, readyState, setReadyState,
    List.getElem?_modify_ne _ _ (Ne.symm hne)]

/-- A fresh entry is cached in place of one that is in use or closed. -/
lemma accounted_connected_iff (h : Sound s) (hacc : s.Accounted) {cachedFor : Option String}
    (hr : s.requests[r]? = some (.connecting k cachedFor)) :
    (s.connected r k cachedFor).Accounted ↔
      ∀ sessionId, cachedFor = some sessionId → s.SparesIdle sessionId none := by
  have hlt := (List.getElem?_eq_some_iff.mp hr).1
  have hfree := (h.requests r _ hr).1
  -- the request holds its socket, and the others still hold theirs
  have hheld {hold : SocketHold} {k' : ℕ} (hk : k' = k ∨ s.Held k') :
      (s.setRequest r (.holding k hold)).Held k' := by
    rcases hk with rfl | hk
    · exact ⟨r, hold, List.getElem?_set_self hlt⟩
    · rcases held_or_eq_of_setRequest hr hk with hk | heq
      · exact hk
      · cases heq
        exact ⟨r, hold, List.getElem?_set_self hlt⟩
  have hbefore {k' : ℕ} (hopen : (s.setReadyState k .open).IsOpen k') : k' = k ∨ s.IsOpen k' := by
    by_cases hk : k' = k
    · exact .inl hk
    · exact .inr ((isOpen_setReadyState_of_ne s .open hk).mp hopen)
  cases cachedFor with
  | none =>
    refine iff_of_true (fun k' hopen => ?_) fun _ hid => by cases hid
    rcases hbefore hopen with hk | hopen
    · exact .inl (hheld (.inl hk))
    · exact (hacc k' hopen).imp (fun hk => hheld (.inr hk)) id
  | some sessionId =>
    have hcache (sessionId' : String) :
        (s.connected r k (some sessionId)).websocketSessionCache.get? sessionId' =
          if sessionId = sessionId' then some s.entries.length
          else s.websocketSessionCache.get? sessionId' := JsMap.get?_set _ _ _ _
    have hkept {i : ℕ} {e : CachedWebSocketConnection} (he : s.entries[i]? = some e) :
        (s.connected r k (some sessionId)).entries[i]? = some e :=
      (List.getElem?_append_left (List.getElem?_eq_some_iff.mp he).1).trans he
    constructor
    · rintro hafter _ ⟨⟩ j e hcached _ hopen
      obtain ⟨hj, he⟩ := cached?_eq_some_iff.mp hcached
      by_contra hbusy
      refine (h.connected hr).not_accounted (hkept he) (Bool.not_eq_true _ ▸ hbusy)
        ((isOpen_setReadyState_of_ne s .open (hfree j e he)).mpr hopen) ?_ hafter
      obtain ⟨e', he', hid⟩ := h.cached sessionId j hj
      rw [he] at he'
      cases he'
      rw [hcache, if_pos hid.symm]
      intro heq
      exact Nat.lt_irrefl _ (Option.some.inj heq ▸ (List.getElem?_eq_some_iff.mp he).1)
    · intro hspares k' hopen
      rcases hbefore hopen with hk | hopen
      · exact .inl (hheld (.inl hk))
      · rcases hacc k' hopen with hk | ⟨j, e, he, rfl, hj⟩
        · exact .inl (hheld (.inr hk))
        · by_cases hid : sessionId = e.sessionId
          · rw [← hid] at hj
            have hbusy := hspares sessionId rfl j e (cached?_eq_some_iff.mpr ⟨hj, he⟩)
              (some_ne_none j).symm hopen
            exact .inl (hheld (.inr (h.busy sessionId j e hj he hbusy)))
          · exact .inr ⟨j, e, hkept he, rfl, by rw [hcache, if_neg hid, hj]⟩

/-! ### Sessions are closed -/

lemma isOpen_closeEntry (he : s.entries[i]? = some e) (k : ℕ) :
    (s.closeEntry i).IsOpen k ↔ k ≠ e.socket ∧ s.IsOpen k := by
  rw [closeEntry, he]
  exact isOpen_closeWebSocketSilently _ _ _

lemma isOpen_of_closeEntry (hopen : (s.closeEntry i).IsOpen k) : s.IsOpen k := by
  cases he : s.entries[i]? with
  | some e => exact ((isOpen_closeEntry he k).mp hopen).2
  | none =>
    rw [closeEntry, he] at hopen
    exact hopen

/-- The socket of an entry is that of the entry, whatever timers are cleared. -/
lemma socket_closeEntry (i j : ℕ) :
    (s.closeEntry i).entries[j]?.map CachedWebSocketConnection.socket =
      s.entries[j]?.map CachedWebSocketConnection.socket := by
  rw [closeEntry]
  split
  · change ((s.entries.modify i _)[j]?).map _ = _
    rw [List.getElem?_modify, map_eq_map, map_map]
    refine congrArg (Option.map · _) (funext fun e => ?_)
    split_ifs <;> rfl
  · rfl

/-- All entries of a list are closed. -/
lemma not_isOpen_foldl_closeEntry {is : List ℕ}
    (hopen : (is.foldl closeEntry s).IsOpen k) : s.IsOpen k ∧
      ∀ i ∈ is, s.entries[i]?.map CachedWebSocketConnection.socket ≠ some k := by
  induction is generalizing s with
  | nil => exact ⟨hopen, fun i hi => absurd hi List.not_mem_nil⟩
  | cons i is ih =>
    obtain ⟨hopen, hrest⟩ := ih hopen
    refine ⟨isOpen_of_closeEntry hopen, fun j hj => ?_⟩
    rcases List.mem_cons.mp hj with rfl | hj
    · intro hsocket
      obtain ⟨e, he, hk⟩ := map_eq_some_iff.mp hsocket
      exact ((isOpen_closeEntry he k).mp hopen).1 hk.symm
    · rw [← socket_closeEntry i j]
      exact hrest j hj

/-- A socket that is left open is cached for another session, if at all. -/
lemma isOpen_closeSessions {sessionId : Option String}
    (hopen : (s.closeOpenAICodexWebSocketSessions sessionId).IsOpen k) : s.IsOpen k ∧
      ∀ i e, s.entries[i]? = some e → e.socket = k →
        s.websocketSessionCache.get? e.sessionId = some i →
          ∃ id, nonempty? sessionId = some id ∧ e.sessionId ≠ id := by
  rw [closeOpenAICodexWebSocketSessions] at hopen
  cases hid : nonempty? sessionId with
  | some id =>
    rw [hid] at hopen
    have hpart : ∀ i e, s.websocketSessionCache.get? id = some i → s.entries[i]? = some e →
        e.socket ≠ k := by
      rintro i e hi he rfl
      dsimp only at hopen
      rw [hi] at hopen
      exact ((isOpen_closeEntry he _).mp hopen).1 rfl
    refine ⟨?_, fun i e he hsocket hcache => ⟨id, rfl, ?_⟩⟩
    · cases hi : s.websocketSessionCache.get? id with
      | some i =>
        dsimp only at hopen
        rw [hi] at hopen
        exact isOpen_of_closeEntry (i := i) hopen
      | none =>
        dsimp only at hopen
        rw [hi] at hopen
        exact hopen
    · rintro rfl
      exact hpart i e hcache he hsocket
  | none =>
    rw [hid] at hopen
    obtain ⟨hopen, hall⟩ := not_isOpen_foldl_closeEntry (s := s) hopen
    refine ⟨hopen, fun i e he hsocket hcache => ?_⟩
    have hmem : i ∈ s.websocketSessionCache.values := JsMap.mem_values_iff.mpr ⟨_, hcache⟩
    exact absurd (by rw [he, map_some, hsocket]) (hall i hmem)

lemma requests_foldl_closeEntry (is : List ℕ) : (is.foldl closeEntry s).requests = s.requests := by
  induction is generalizing s with
  | nil => rfl
  | cons i is ih =>
    refine ih.trans ?_
    rw [closeEntry]
    split <;> rfl

lemma cached_closeEntry (i k : ℕ) : (s.closeEntry i).Cached k ↔ s.Cached k := by
  rw [closeEntry]
  split
  · exact cached_modifyEntry (f := fun entry => { entry with idleTimer := false })
      (fun _ => ⟨rfl, rfl⟩) i k
  · rfl

lemma closeEntry_uncache (i : ℕ) (sessionId : String) :
    (s.uncache sessionId).closeEntry i = (s.closeEntry i).uncache sessionId := by
  rw [closeEntry, closeEntry]
  have hentry : (s.uncache sessionId).entries[i]? = s.entries[i]? := rfl
  rw [hentry]
  cases s.entries[i]? <;> rfl

lemma accounted_closeSessions (hacc : s.Accounted) (sessionId : Option String) :
    (s.closeOpenAICodexWebSocketSessions sessionId).Accounted := by
  intro k hopen
  obtain ⟨hopen', hleft⟩ := isOpen_closeSessions hopen
  rcases hacc k hopen' with hheld | ⟨i, e, he, hsocket, hcache⟩
  · have hreqs : (s.closeOpenAICodexWebSocketSessions sessionId).requests = s.requests := by
      rw [closeOpenAICodexWebSocketSessions]
      split
      · split
        · exact requests_foldl_closeEntry [_]
        · rfl
      · exact requests_foldl_closeEntry _
    refine .inl ?_
    rw [Held, hreqs]
    exact hheld
  · obtain ⟨id, hid, hne⟩ := hleft i e he hsocket hcache
    have hkept : (s.uncache id).Cached k := by
      refine ⟨i, e, he, hsocket, ?_⟩
      rw [uncache, JsMap.get?_delete, if_neg (Ne.symm hne), hcache]
    refine .inr ?_
    rw [closeOpenAICodexWebSocketSessions, hid]
    dsimp only
    split
    · rwa [← closeEntry_uncache, cached_closeEntry]
    · exact hkept

/-! ## Steps that lose no socket -/

/-- An open socket is given back only to an entry that is cached; and what leaves the cache for
another entry of its session, or with it, is in use or closed. -/
def KeepsSockets (s : CodexSockets) : CodexSocketLabel → Prop
  | .connected request => ∀ socket sessionId,
      s.requests[request]? = some (.connecting socket (some sessionId)) →
        s.SparesIdle sessionId none
  | .release request keep => ∀ socket hold i e,
      s.requests[request]? = some (.holding socket hold) → hold.entry? = some i →
        s.entries[i]? = some e →
          (keep = true ∧ s.IsOpen socket → s.websocketSessionCache.get? e.sessionId = some i) ∧
          (hold = .reused i → keep = false ∨ s.isWebSocketReusable socket = false →
            s.SparesIdle e.sessionId (some i))
  | .idleTimeout i => ∀ e, s.entries[i]? = some e → e.busy = false →
      s.SparesIdle e.sessionId (some i)
  | _ => True

variable (sessionId) in
/-- An entry of the session whose socket is closed need not be looked at. -/
lemma sparesIdle_own_iff (h : Sound s) (he : s.entries[i]? = some e) :
    (s.closeWebSocketSilently e.socket).SparesIdle sessionId none ↔
      s.SparesIdle sessionId (some i) := by
  constructor
  · intro hspares j e' hcached hij hopen
    have hne : e'.socket ≠ e.socket := fun heq =>
      hij (congrArg some (h.entries i j e e' he (cached?_eq_some_iff.mp hcached).2 heq.symm))
    exact hspares j e' hcached (some_ne_none j).symm
      ((isOpen_closeWebSocketSilently s _ _).mpr ⟨hne, hopen⟩)
  · intro hspares j e' hcached _ hopen
    obtain ⟨hne, hopen⟩ := (isOpen_closeWebSocketSilently s _ _).mp hopen
    refine hspares j e' hcached (fun heq => ?_) hopen
    cases heq
    cases he.symm.trans (cached?_eq_some_iff.mp hcached).2
    exact hne rfl

lemma not_isOpen_closed : ¬ (s.closeWebSocketSilently k).IsOpen k := fun hopen =>
  ((isOpen_closeWebSocketSilently s k k).mp hopen).1 rfl

lemma not_closes {keep : Bool} (h : keep = true ∧ s.IsOpen k) :
    ¬ (keep = false ∨ s.isWebSocketReusable k = false) := by
  rw [isWebSocketReusable, h.1, h.2]
  simp

lemma sparesIdle_clearIdleTimer (i : ℕ) (own : Option ℕ) :
    (s.clearIdleTimer i).SparesIdle sessionId own ↔ s.SparesIdle sessionId own := by
  constructor
  · intro hspares j e hcached hown hopen
    obtain ⟨hj, he⟩ := cached?_eq_some_iff.mp hcached
    have he' : (s.clearIdleTimer i).entries[j]? =
        some (if i = j then { e with idleTimer := false } else e) := by
      rw [clearIdleTimer, modifyEntry, List.getElem?_modify, he]
      rfl
    have hbusy := hspares j _ (cached?_eq_some_iff.mpr ⟨hj, he'⟩) hown
    split_ifs at hbusy
    · exact hbusy hopen
    · exact hbusy hopen
  · intro hspares j e' hcached hown hopen
    obtain ⟨hj, he'⟩ := cached?_eq_some_iff.mp hcached
    rw [clearIdleTimer, modifyEntry, List.getElem?_modify, map_eq_map, map_eq_some_iff] at he'
    obtain ⟨e, he, rfl⟩ := he'
    have hbusy := hspares j e (cached?_eq_some_iff.mpr ⟨hj, he⟩) hown
    split_ifs at hopen ⊢
    · exact hbusy hopen
    · exact hbusy hopen

lemma accounted_connectWebSocket (hacc : s.Accounted) (sessionId cachedFor : Option String)
    (constructs : Bool) : (s.connectWebSocket sessionId cachedFor constructs).Accounted := by
  have hheld {p : SocketRequest} {k : ℕ} (hk : s.Held k) :
      ∃ (r : ℕ) (hold : SocketHold), (s.requests ++ [p])[r]? = some (.holding k hold) := by
    obtain ⟨r, hold, hr⟩ := hk
    exact ⟨r, hold, (List.getElem?_append_left (List.getElem?_eq_some_iff.mp hr).1).trans hr⟩
  rw [CodexSockets.connectWebSocket]
  split_ifs
  · intro k hopen
    have hopen' : s.IsOpen k := by
      obtain ⟨socket, hsocket, hstate⟩ := map_eq_some_iff.mp hopen
      rcases getElem?_concat_iff.mp hsocket with hprev | ⟨-, rfl⟩
      · exact map_eq_some_iff.mpr ⟨socket, hprev, hstate⟩
      · cases hstate
    exact (hacc k hopen').imp hheld id
  · exact fun k hopen => (hacc k hopen).imp hheld id

section
variable (h : Sound s) (hacc : s.Accounted)
include h hacc

lemma accounted_acquireWebSocket (sessionId : Option String) (constructs : Bool) :
    (s.acquireWebSocket sessionId constructs).Accounted := by
  rw [CodexSockets.acquireWebSocket]
  cases nonempty? sessionId with
  | none => exact accounted_connectWebSocket hacc _ _ _
  | some sessionId =>
    dsimp only
    cases hcached : s.cached? sessionId with
    | none => exact accounted_connectWebSocket hacc _ _ _
    | some cached =>
      obtain ⟨i, e⟩ := cached
      have hcleared : (s.clearIdleTimer i).Accounted := (accounted_clearIdleTimer i).mpr hacc
      dsimp only
      split_ifs with hreuse hbusy
      · intro k hopen
        refine (hcleared k hopen).imp (fun hk => ?_) fun hk => ?_
        · obtain ⟨r, hold, hr⟩ := hk
          exact ⟨r, hold, (List.getElem?_append_left (List.getElem?_eq_some_iff.mp hr).1).trans hr⟩
        · exact (cached_modifyEntry (f := fun entry => { entry with busy := true })
            (fun _ => ⟨rfl, rfl⟩) i k).mpr hk
      · exact accounted_connectWebSocket hcleared _ _ _
      · refine accounted_connectWebSocket ?_ _ _ _
        have hsound := (h.clearIdleTimer i).setReadyState e.socket .closed
        refine (accounted_uncache_iff hsound (hcleared.closeWebSocketSilently e.socket)
          sessionId).mpr fun j e' hcached' _ hopen => ?_
        -- the entry that goes is the one whose socket has been closed
        obtain ⟨hi, he⟩ := cached?_eq_some_iff.mp hcached
        obtain ⟨hj, he'⟩ := cached?_eq_some_iff.mp hcached'
        cases hi.symm.trans hj
        have hentry : ((s.clearIdleTimer i).closeWebSocketSilently e.socket).entries[i]? =
            some { e with idleTimer := false } := by
          change (s.entries.modify i _)[i]? = _
          rw [List.getElem?_modify_eq, he]
          rfl
        cases hentry.symm.trans he'
        exact absurd rfl ((isOpen_closeWebSocketSilently _ _ _).mp hopen).1

lemma accounted_releaseFresh_iff {keep : Bool} (hr : s.requests[r]? = some (.holding k (.fresh i)))
    (he : s.entries[i]? = some e) (hsocket : e.socket = k) :
    ((s.releaseFresh k i keep).setRequest r .ended).Accounted ↔
      (keep = true ∧ s.IsOpen k → s.websocketSessionCache.get? e.sessionId = some i) := by
  rw [releaseFresh, he]
  split_ifs with hclose
  · have hclosed : ¬ ((s.closeWebSocketSilently k).clearIdleTimer i).IsOpen k := not_isOpen_closed
    have hcleared : ((s.closeWebSocketSilently k).clearIdleTimer i).Accounted :=
      (accounted_clearIdleTimer i).mpr (hacc.closeWebSocketSilently k)
    have hvacuous : keep = true ∧ s.IsOpen k →
        s.websocketSessionCache.get? e.sessionId = some i :=
      fun hkept => absurd hclose (not_closes hkept)
    refine iff_of_true ?_ hvacuous
    dsimp only
    split_ifs with hcached
    · refine (accounted_end_iff (s := ((s.closeWebSocketSilently k).clearIdleTimer i).uncache
        e.sessionId) hr rfl hclosed).mpr ?_
      refine (accounted_uncache_iff ((h.setReadyState k .closed).clearIdleTimer i) hcleared
        e.sessionId).mpr fun j e' hcached' _ hopen => ?_
      obtain ⟨hj, he'⟩ := cached?_eq_some_iff.mp hcached'
      cases hcached.symm.trans hj
      have hentry : ((s.closeWebSocketSilently k).clearIdleTimer i).entries[i]? =
          some { e with idleTimer := false } := by
        change (s.entries.modify i _)[i]? = _
        rw [List.getElem?_modify_eq, he]
        rfl
      cases hentry.symm.trans he'
      exact absurd (hsocket ▸ hopen) hclosed
    · exact (accounted_end_iff (s := (s.closeWebSocketSilently k).clearIdleTimer i) hr rfl
        hclosed).mpr hcleared
  · rw [accounted_keepEntry_iff h hacc hr rfl he hsocket]
    rw [not_or, Bool.not_eq_false] at hclose
    rw [hclose.1]
    simp

lemma accounted_releaseReused_iff {keep : Bool}
    (hr : s.requests[r]? = some (.holding k (.reused i))) (he : s.entries[i]? = some e)
    (hsocket : e.socket = k) :
    ((s.releaseReused k i keep).setRequest r .ended).Accounted ↔
      (keep = true ∧ s.IsOpen k → s.websocketSessionCache.get? e.sessionId = some i) ∧
      (keep = false ∨ s.isWebSocketReusable k = false → s.SparesIdle e.sessionId (some i)) := by
  rw [releaseReused, he]
  split_ifs with hclose
  · have hclosed : ¬ (s.closeWebSocketSilently k).IsOpen k := not_isOpen_closed
    have hvacuous : keep = true ∧ s.IsOpen k →
        s.websocketSessionCache.get? e.sessionId = some i :=
      fun hkept => absurd hclose (not_closes hkept)
    have hspares := sparesIdle_own_iff e.sessionId h he
    rw [hsocket] at hspares
    have huncached := accounted_uncache_iff (h.setReadyState k .closed)
      (hacc.closeWebSocketSilently k) e.sessionId
    rw [and_iff_right hvacuous, imp_iff_right hclose, ← hspares]
    refine Iff.trans ?_ huncached
    exact accounted_end_iff (s := (s.closeWebSocketSilently k).uncache e.sessionId) hr rfl hclosed
  · rw [accounted_keepEntry_iff h hacc hr rfl he hsocket]
    have hvacuous : keep = false ∨ s.isWebSocketReusable k = false →
        s.SparesIdle e.sessionId (some i) := fun h => absurd h hclose
    rw [and_iff_left hvacuous]
    rw [not_or, Bool.not_eq_false] at hclose
    rw [hclose.1]
    simp

/-- The condition decides whether a step loses a socket. -/
lemma keepsSockets_iff {label : CodexSocketLabel} (hstep : s.step label = some s') :
    s.KeepsSockets label ↔ s'.Accounted := by
  cases label with
  | acquire sessionId constructs =>
    cases hstep
    exact iff_of_true trivial (accounted_acquireWebSocket h hacc sessionId constructs)
  | connected request =>
    rw [CodexSockets.step] at hstep
    split at hstep
    · next socket cachedFor hr =>
      cases hstep
      rw [accounted_connected_iff h hacc hr]
      constructor
      · rintro hkeeps sessionId rfl
        exact hkeeps socket sessionId hr
      · intro hspares socket' sessionId hr'
        cases hr.symm.trans hr'
        exact hspares sessionId rfl
    · cases hstep
  | failed request =>
    rw [CodexSockets.step] at hstep
    split at hstep
    · next socket cachedFor hr =>
      cases hstep
      refine iff_of_true trivial ((accounted_end_iff (s := s.closeWebSocketSilently socket) hr rfl
        fun hopen => ?_).mpr (hacc.closeWebSocketSilently socket))
      exact ((isOpen_closeWebSocketSilently s _ _).mp hopen).1 rfl
    · cases hstep
  | release request keep =>
    rw [CodexSockets.step] at hstep
    split at hstep
    · next socket hold hr =>
      cases hstep
      have hentry := (h.requests request _ hr).2
      cases hold with
      | single =>
        refine iff_of_true (fun _ _ _ _ hr' hi => ?_) ((accounted_end_iff
          (s := s.closeWebSocketSilently socket) hr rfl fun hopen =>
            ((isOpen_closeWebSocketSilently s _ _).mp hopen).1 rfl).mpr
              (hacc.closeWebSocketSilently socket))
        cases hr.symm.trans hr'
        cases hi
      | fresh i =>
        obtain ⟨e, he, hsocket⟩ := hentry i rfl
        refine Iff.trans ?_ (accounted_releaseFresh_iff h hacc hr he hsocket).symm
        constructor
        · exact fun hkeeps => (hkeeps socket (.fresh i) i e hr rfl he).1
        · intro hown socket' hold j e' hr' hj he'
          cases hr.symm.trans hr'
          cases hj
          cases he.symm.trans he'
          exact ⟨hown, fun hreused => by cases hreused⟩
      | reused i =>
        obtain ⟨e, he, hsocket⟩ := hentry i rfl
        refine Iff.trans ?_ (accounted_releaseReused_iff h hacc hr he hsocket).symm
        constructor
        · intro hkeeps
          obtain ⟨hown, hspares⟩ := hkeeps socket (.reused i) i e hr rfl he
          exact ⟨hown, hspares rfl⟩
        · intro hown socket' hold j e' hr' hj he'
          cases hr.symm.trans hr'
          cases hj
          cases he.symm.trans he'
          exact ⟨hown.1, fun _ => hown.2⟩
    · cases hstep
  | idleTimeout i =>
    rw [CodexSockets.step] at hstep
    split at hstep
    · next e he =>
      split_ifs at hstep
      cases hstep
      have hcleared : (s.clearIdleTimer i).Accounted := (accounted_clearIdleTimer i).mpr hacc
      rw [idleTimeout]
      split_ifs with hbusy
      · refine iff_of_true (fun e' he' hidle => ?_) hcleared
        cases he.symm.trans he'
        rw [hbusy] at hidle
        cases hidle
      · have hsound := h.clearIdleTimer i
        have hentry : (s.clearIdleTimer i).entries[i]? = some { e with idleTimer := false } := by
          change (s.entries.modify i _)[i]? = _
          rw [List.getElem?_modify_eq, he]
          rfl
        have hspares := sparesIdle_own_iff e.sessionId hsound hentry
        rw [sparesIdle_clearIdleTimer] at hspares
        refine Iff.trans ?_ (hspares.symm.trans (accounted_uncache_iff
          (hsound.setReadyState e.socket .closed) (hcleared.closeWebSocketSilently e.socket)
            e.sessionId).symm)
        constructor
        · exact fun hkeeps => hkeeps e he (Bool.not_eq_true _ ▸ hbusy)
        · intro hspares e' he' _
          cases he.symm.trans he'
          exact hspares
    · cases hstep
  | socketClosed socket =>
    rw [CodexSockets.step] at hstep
    split_ifs at hstep
    cases hstep
    exact iff_of_true trivial (hacc.closeWebSocketSilently socket)
  | closeSessions sessionId =>
    cases hstep
    exact iff_of_true trivial (accounted_closeSessions hacc sessionId)

end

/-- Once the requests of a session have ended, closing it leaves none of its sockets open. -/
def ClosesSessions (s : CodexSockets) : Prop :=
  ∀ sessionId : String, (∀ (r : ℕ) p k, s.requests[r]? = some p → p.socket? = some k →
      s.sockets[k]?.bind CodexSocket.sessionId ≠ some sessionId) →
    ∀ k, (s.closeOpenAICodexWebSocketSessions (some sessionId)).IsOpen k →
      s.sockets[k]?.bind CodexSocket.sessionId ≠ some sessionId

lemma Sound.closesSessions (h : Sound s) (hacc : s.Accounted) : s.ClosesSessions := by
  intro sessionId hended k hopen hsess
  obtain ⟨hopen, hleft⟩ := isOpen_closeSessions hopen
  rcases hacc k hopen with ⟨r, hold, hr⟩ | ⟨i, e, he, rfl, hcache⟩
  · exact hended r _ k hr rfl hsess
  · obtain ⟨id, hid, hne⟩ := hleft i e he rfl hcache
    have hentry := h.entry i e he
    rw [hsess] at hentry
    have hsame : sessionId = id := Option.some.inj (filter_eq_some_iff.mp hid).1
    exact hne ((Option.some.inj hentry).symm.trans hsame)

/-- Sockets are held once, and none is lost. -/
structure SocketsKept (s : CodexSockets) : Prop where
  exclusive : s.Exclusive
  accounted : s.Accounted
  closes : s.ClosesSessions

/-- **Sockets are held once and none is lost**, after every step of a run, exactly when all its
steps keep them. -/
theorem sockets_kept_iff (reportsReadyState : Bool) {labels : List CodexSocketLabel}
    {s : CodexSockets} :
    (codexSocketMachine.guard KeepsSockets).Run { reportsReadyState } labels s ↔
      (codexSocketMachine.staying SocketsKept).Run { reportsReadyState } labels s := by
  have hkept {s : CodexSockets} (h : Sound s) : s.SocketsKept ↔ s.Accounted :=
    ⟨SocketsKept.accounted, fun hacc => ⟨h.exclusive, hacc, h.closesSessions hacc⟩⟩
  have hstart := sound_start reportsReadyState
  refine Machine.guard_run_iff_staying_run Sound hstart ((hkept hstart).mpr fun k hopen => ?_)
    (fun _ _ _ h hstep => h.step hstep) fun s₁ label s₂ h hkeeps hstep => ?_
  · cases hopen
  · rw [hkept (h.step hstep)]
    exact keepsSockets_iff h hkeeps.accounted hstep

/-- Two requests of one session connect, and the first one ends. -/
def connectedTwice : List CodexSocketLabel :=
  [.acquire (some "s") true, .acquire (some "s") true, .connected 0, .connected 1, .release 0 true]

/-- Its socket stays open, and neither a request nor the cache has it. -/
theorem socket_lost_connectedTwice :
    ∃ s, codexSocketMachine.Run {} connectedTwice s ∧ s.IsOpen 0 ∧ ¬ s.SocketsKept := by
  obtain ⟨s, hs⟩ : ∃ s, connectedTwice.foldlM step {} = some s := ⟨_, rfl⟩
  have hrun : codexSocketMachine.Run {} connectedTwice s :=
    Machine.Run.of_foldlM (fun _ _ _ h => h) hs
  cases hs
  exact ⟨_, hrun, rfl, fun hkept => (Sound.of_run hrun).not_accounted (i := 0) rfl rfl rfl
    (by decide) hkept.accounted⟩

end CodexSockets

end Amide
