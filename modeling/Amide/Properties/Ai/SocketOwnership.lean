import Amide.Construction.Ai.CodexWebSockets
import Amide.Framework.Positions

/-!
# Who has a socket

Every request has a socket of its own while it lasts, unless it has taken the entry of another that
had ended; an entry that is held is busy, and only an entry that is not busy is taken.  So no socket
is ever held twice.
-/

namespace Amide

open Positions Option

namespace CodexSockets

def IsOpen (s : CodexSockets) (socket : ℕ) : Prop := s.readyState socket = some .open

def Held (s : CodexSockets) (socket : ℕ) : Prop :=
  ∃ (r : ℕ) (hold : SocketHold), s.requests[r]? = some (.holding socket hold)

/-- The socket is that of the entry cached for its session. -/
def Cached (s : CodexSockets) (socket : ℕ) : Prop :=
  ∃ (i : ℕ) (e : CachedWebSocketConnection), s.entries[i]? = some e ∧ e.socket = socket ∧
    s.websocketSessionCache.get? e.sessionId = some i

/-- No open socket is lost. -/
def Accounted (s : CodexSockets) : Prop := ∀ k, s.IsOpen k → s.Held k ∨ s.Cached k

/-- No socket is held twice. -/
def Exclusive (s : CodexSockets) : Prop :=
  ∀ (r r' k : ℕ) (hold hold' : SocketHold), s.requests[r]? = some (.holding k hold) →
    s.requests[r']? = some (.holding k hold') → r = r'

end CodexSockets

def SocketRequest.socket? : SocketRequest → Option ℕ
  | connecting socket _ | holding socket _ => some socket
  | ended => none

namespace CodexSockets

/-- What the invariant says of a request. -/
def RequestSound (s : CodexSockets) : SocketRequest → Prop
  | .connecting k cachedFor => (∀ (i : ℕ) e, s.entries[i]? = some e → e.socket ≠ k) ∧
      ∀ sessionId, cachedFor = some sessionId →
        s.sockets[k]?.bind CodexSocket.sessionId = some sessionId
  | .holding k hold => (∀ (i : ℕ) e, s.entries[i]? = some e → e.socket = k →
      hold.entry? = some i ∧ e.busy = true) ∧
    ∀ i, hold.entry? = some i → ∃ e, s.entries[i]? = some e ∧ e.socket = k
  | .ended => True

/-- Requests and entries have sockets of their own, but for those that hold an entry, which is then
busy; and a cached entry that is busy is held. -/
structure Sound (s : CodexSockets) : Prop where
  bounded : ∀ (r : ℕ) p k, s.requests[r]? = some p → p.socket? = some k → k < s.sockets.length
  distinct : ∀ (r r' : ℕ) p p' k, s.requests[r]? = some p → s.requests[r']? = some p' →
    p.socket? = some k → p'.socket? = some k → r = r'
  requests : ∀ (r : ℕ) p, s.requests[r]? = some p → s.RequestSound p
  entry : ∀ (i : ℕ) e, s.entries[i]? = some e →
    s.sockets[e.socket]?.bind CodexSocket.sessionId = some e.sessionId
  entries : ∀ (i j : ℕ) e e', s.entries[i]? = some e → s.entries[j]? = some e' →
    e.socket = e'.socket → i = j
  cached : ∀ sessionId i, s.websocketSessionCache.get? sessionId = some i →
    ∃ e, s.entries[i]? = some e ∧ e.sessionId = sessionId
  busy : ∀ sessionId (i : ℕ) e, s.websocketSessionCache.get? sessionId = some i →
    s.entries[i]? = some e → e.busy = true → s.Held e.socket

variable {s s' : CodexSockets} {r k i : ℕ} {sessionId : String}

lemma Sound.exclusive (h : Sound s) : s.Exclusive := fun r r' k _ _ hr hr' =>
  h.distinct r r' _ _ k hr hr' rfl rfl

/-- What the invariant looks at in an entry. -/
def entryKey (e : CachedWebSocketConnection) : ℕ × String × Bool := (e.socket, e.sessionId, e.busy)

/-- The state of sockets and the timers do not matter, and less may be cached. -/
lemma Sound.of_less (h : Sound s) (hreqs : s'.requests = s.requests)
    (hsockets : ∀ k : ℕ, s'.sockets[k]?.map CodexSocket.sessionId =
      s.sockets[k]?.map CodexSocket.sessionId)
    (hentries : ∀ i : ℕ, s'.entries[i]?.map entryKey = s.entries[i]?.map entryKey)
    (hcache : ∀ sessionId i, s'.websocketSessionCache.get? sessionId = some i →
      s.websocketSessionCache.get? sessionId = some i) : Sound s' := by
  have hback : ∀ (i : ℕ) e', s'.entries[i]? = some e' → ∃ e, s.entries[i]? = some e ∧
      entryKey e = entryKey e' := by
    intro i e' he'
    have hmap := hentries i
    rw [he', map_some, eq_comm, map_eq_some_iff] at hmap
    exact hmap
  have hforth : ∀ (i : ℕ) e, s.entries[i]? = some e → ∃ e', s'.entries[i]? = some e' ∧
      entryKey e' = entryKey e := by
    intro i e he
    have hmap := hentries i
    rw [he, map_some, map_eq_some_iff] at hmap
    exact hmap
  have hsess : ∀ k : ℕ, s'.sockets[k]?.bind CodexSocket.sessionId =
      s.sockets[k]?.bind CodexSocket.sessionId := by
    intro k
    have hmap := hsockets k
    cases hk : s'.sockets[k]? <;> cases hk' : s.sockets[k]? <;> rw [hk, hk'] at hmap <;>
      simp_all
  have hkeys {e e' : CachedWebSocketConnection} (hkey : entryKey e = entryKey e') :
      e.socket = e'.socket ∧ e.sessionId = e'.sessionId ∧ e.busy = e'.busy := by
    simpa [entryKey] using hkey
  have hlen : s.sockets.length ≤ s'.sockets.length := by
    by_contra hlt
    have hmap := hsockets s'.sockets.length
    rw [List.getElem?_eq_none (Nat.le_refl _), List.getElem?_eq_getElem (Nat.not_le.mp hlt)] at hmap
    cases hmap
  refine ⟨fun r p k hr hk => ?_, fun r r' p p' k hr hr' => ?_, fun r p hr => ?_, fun i e he => ?_,
    fun i j e e' he he' hsocket => ?_, fun sessionId i hi => ?_,
    fun sessionId i e hi he hbusy => ?_⟩
  · exact Nat.lt_of_lt_of_le (h.bounded r p k (hreqs ▸ hr) hk) hlen
  · exact h.distinct r r' p p' k (hreqs ▸ hr) (hreqs ▸ hr')
  · have hp := h.requests r p (hreqs ▸ hr)
    cases p with
    | connecting k cachedFor =>
      refine ⟨fun i e he hsocket => ?_,
        fun sessionId hfor => (hsess k).trans (hp.2 sessionId hfor)⟩
      obtain ⟨e₀, he₀, hkey⟩ := hback i e he
      exact hp.1 i e₀ he₀ ((hkeys hkey).1.trans hsocket)
    | holding k hold =>
      refine ⟨fun i e he hsocket => ?_, fun i hi => ?_⟩
      · obtain ⟨e₀, he₀, hkey⟩ := hback i e he
        have hbusy := hp.1 i e₀ he₀ ((hkeys hkey).1.trans hsocket)
        exact ⟨hbusy.1, (hkeys hkey).2.2 ▸ hbusy.2⟩
      · obtain ⟨e₀, he₀, hsocket⟩ := hp.2 i hi
        obtain ⟨e, he, hkey⟩ := hforth i e₀ he₀
        exact ⟨e, he, (hkeys hkey).1.trans hsocket⟩
    | ended => trivial
  · obtain ⟨e₀, he₀, hkey⟩ := hback i e he
    rw [hsess, ← (hkeys hkey).1, ← (hkeys hkey).2.1]
    exact h.entry i e₀ he₀
  · obtain ⟨e₀, he₀, hkey⟩ := hback i e he
    obtain ⟨e₁, he₁, hkey'⟩ := hback j e' he'
    exact h.entries i j e₀ e₁ he₀ he₁
      ((hkeys hkey).1.trans (hsocket.trans (hkeys hkey').1.symm))
  · obtain ⟨e₀, he₀, hid⟩ := h.cached sessionId i (hcache sessionId i hi)
    obtain ⟨e, he, hkey⟩ := hforth i e₀ he₀
    exact ⟨e, he, (hkeys hkey).2.1.trans hid⟩
  · obtain ⟨e₀, he₀, hkey⟩ := hback i e he
    rw [Held, hreqs, ← (hkeys hkey).1]
    exact h.busy sessionId i e₀ (hcache sessionId i hi) he₀ ((hkeys hkey).2.2.trans hbusy)

/-! ### Updates that lose nothing -/

lemma sessionId_setReadyState (k : ℕ) (state : WebSocketReadyState) (j : ℕ) :
    (s.setReadyState k state).sockets[j]?.map CodexSocket.sessionId =
      s.sockets[j]?.map CodexSocket.sessionId := by
  rw [setReadyState, List.getElem?_modify, map_eq_map, map_map]
  refine congrArg (Option.map · _) (funext fun socket => ?_)
  split_ifs <;> rfl

variable {f : CachedWebSocketConnection → CachedWebSocketConnection}

lemma entryKey_modifyEntry
    (hf : ∀ e, entryKey (f e) = entryKey e) (i j : ℕ) :
    (s.modifyEntry i f).entries[j]?.map entryKey = s.entries[j]?.map entryKey := by
  rw [modifyEntry, List.getElem?_modify, map_eq_map, map_map]
  refine congrArg (Option.map · _) (funext fun e => ?_)
  split_ifs
  · exact hf e
  · rfl

section
variable (h : Sound s)
include h

lemma Sound.setReadyState (k : ℕ) (state : WebSocketReadyState) : Sound (s.setReadyState k state) :=
  h.of_less rfl (sessionId_setReadyState k state) (fun _ => rfl) fun _ _ => id

lemma Sound.modifyEntry (i : ℕ)
    (hf : ∀ e, entryKey (f e) = entryKey e) : Sound (s.modifyEntry i f) :=
  h.of_less rfl (fun _ => rfl) (entryKey_modifyEntry hf i) fun _ _ => id

lemma Sound.clearIdleTimer (i : ℕ) : Sound (s.clearIdleTimer i) :=
  h.modifyEntry i fun _ => rfl

lemma Sound.uncache (sessionId : String) : Sound (s.uncache sessionId) := by
  refine h.of_less rfl (fun _ => rfl) (fun _ => rfl) fun sessionId' i hi => ?_
  rw [CodexSockets.uncache] at hi
  exact JsMap.of_get?_delete hi

lemma Sound.closeEntry (i : ℕ) : Sound (s.closeEntry i) := by
  rw [CodexSockets.closeEntry]
  split
  · exact (h.clearIdleTimer i).setReadyState _ _
  · exact h

lemma Sound.foldl_closeEntry (is : List ℕ) : Sound (is.foldl CodexSockets.closeEntry s) := by
  induction is generalizing s with
  | nil => exact h
  | cons i is ih => exact ih (h.closeEntry i)

lemma Sound.closeSessions (sessionId : Option String) :
    Sound (s.closeOpenAICodexWebSocketSessions sessionId) := by
  rw [closeOpenAICodexWebSocketSessions]
  split
  · refine Sound.uncache ?_ _
    split
    · exact h.closeEntry _
    · exact h
  · exact (h.foldl_closeEntry _).of_less rfl (fun _ => rfl) (fun _ => rfl)
      fun _ _ hi => by cases hi

end

/-! ### Requests -/

section
variable (h : Sound s)
include h

/-- A request ends that holds no cached entry. -/
lemma Sound.end
    (hfree : ∀ k hold, s.requests[r]? = some (.holding k hold) → ∀ i, hold.entry? = some i →
      ∀ sessionId, s.websocketSessionCache.get? sessionId ≠ some i) :
    Sound (s.setRequest r .ended) := by
  have hback : ∀ (r' : ℕ) p k, (s.setRequest r .ended).requests[r']? = some p →
      p.socket? = some k → s.requests[r']? = some p := by
    intro r' p k hr' hk
    rcases getElem?_set_cases hr' with ⟨-, rfl⟩ | ⟨-, hr'⟩
    · cases hk
    · exact hr'
  refine ⟨fun r' p k hr' hk => h.bounded r' p k (hback r' p k hr' hk) hk,
    fun r' r'' p p' k hr' hr'' hk hk' => h.distinct r' r'' p p' k (hback r' p k hr' hk)
      (hback r'' p' k hr'' hk') hk hk', fun r' p hr' => ?_, h.entry, h.entries, h.cached,
    fun sessionId i e hi he hbusy => ?_⟩
  · cases p with
    | connecting k cachedFor | holding k hold => exact h.requests r' _ (hback r' _ k hr' rfl)
    | ended => trivial
  · obtain ⟨r', hold, hr'⟩ := h.busy sessionId i e hi he hbusy
    have hentry := ((h.requests r' _ hr').1 i e he rfl).1
    refine ⟨r', hold, ?_⟩
    rw [setRequest, List.getElem?_set_ne]
    · exact hr'
    · rintro rfl
      exact hfree e.socket hold hr' i hentry sessionId hi

lemma socket_lt {e : CachedWebSocketConnection} (he : s.entries[i]? = some e) :
    e.socket < s.sockets.length := by
  obtain ⟨socket, hsocket, -⟩ := bind_eq_some_iff.mp (h.entry i e he)
  exact (List.getElem?_eq_some_iff.mp hsocket).1

/-- An idle entry belongs to no request. -/
lemma Sound.not_request {e : CachedWebSocketConnection} (he : s.entries[i]? = some e)
    (hbusy : e.busy = false) {p : SocketRequest} (hr : s.requests[r]? = some p) :
    p.socket? ≠ some e.socket := by
  intro hsocket
  have hp := h.requests r p hr
  cases p with
  | connecting k cachedFor => exact hp.1 i e he (Option.some.inj hsocket).symm
  | holding k hold =>
    have := (hp.1 i e he (Option.some.inj hsocket).symm).2
    rw [hbusy] at this
    cases this
  | ended => cases hsocket

/-- A request that holds nothing of the others. -/
lemma Sound.addRequest {p : SocketRequest} (hbound : ∀ k, p.socket? = some k → k < s.sockets.length)
    (hnew : ∀ (r : ℕ) p' k, s.requests[r]? = some p' → p'.socket? = some k → p.socket? ≠ some k)
    (hp : s.RequestSound p) : Sound { s with requests := s.requests ++ [p] } := by
  refine ⟨fun r p' k hr hk => ?_, fun r r' p' p'' k hr hr' hk hk' => ?_, fun r p' hr => ?_, h.entry,
    h.entries, h.cached, fun sessionId i e hi he hbusy => ?_⟩
  · rcases getElem?_concat_iff.mp hr with hr | ⟨-, rfl⟩
    · exact h.bounded r p' k hr hk
    · exact hbound k hk
  · rcases getElem?_concat_iff.mp hr with hold | ⟨hlast, rfl⟩ <;>
      rcases getElem?_concat_iff.mp hr' with hold' | ⟨hlast', rfl⟩
    · exact h.distinct r r' p' p'' k hold hold' hk hk'
    · exact absurd hk' (hnew r p' k hold hk)
    · exact absurd hk (hnew r' p'' k hold' hk')
    · exact hlast.trans hlast'.symm
  · rcases getElem?_concat_iff.mp hr with hr | ⟨-, rfl⟩
    · cases p' with
      | connecting k cachedFor | holding k hold => exact h.requests r _ hr
      | ended => trivial
    · cases p' with
      | connecting k cachedFor => exact hp
      | holding k hold => exact hp
      | ended => trivial
  · obtain ⟨r, hold, hr⟩ := h.busy sessionId i e hi he hbusy
    exact ⟨r, hold, (List.getElem?_append_left (List.getElem?_eq_some_iff.mp hr).1).trans hr⟩

lemma Sound.addSocket (socket : CodexSocket) :
    Sound { s with sockets := s.sockets ++ [socket] } := by
  have hsocket {k : ℕ} {sessionId : String}
      (hk : s.sockets[k]?.bind CodexSocket.sessionId = some sessionId) :
      (s.sockets ++ [socket])[k]?.bind CodexSocket.sessionId = some sessionId := by
    obtain ⟨socket', hsocket', hid⟩ := bind_eq_some_iff.mp hk
    rw [List.getElem?_append_left (List.getElem?_eq_some_iff.mp hsocket').1, hsocket']
    exact hid
  refine ⟨fun r p k hr hk => ?_, h.distinct, fun r p hr => ?_,
    fun i e he => hsocket (h.entry i e he), h.entries, h.cached, h.busy⟩
  · rw [List.length_append]
    exact Nat.lt_add_right _ (h.bounded r p k hr hk)
  · have hp := h.requests r p hr
    cases p with
    | connecting k cachedFor => exact ⟨hp.1, fun id hid => hsocket (hp.2 id hid)⟩
    | holding k hold => exact hp
    | ended => trivial

/-- A socket is connected for a request. -/
lemma Sound.connectWebSocket {sessionId cachedFor : Option String}
    (hfor : ∀ id, cachedFor = some id → sessionId = some id) (constructs : Bool) :
    Sound (s.connectWebSocket sessionId cachedFor constructs) := by
  rw [CodexSockets.connectWebSocket]
  split_ifs
  · refine (h.addSocket ⟨sessionId, .connecting⟩).addRequest (fun k hk => ?_)
      (fun r p k hr hk hk' => ?_) ⟨fun i e he hsocket => ?_, fun id hid => ?_⟩
    · rw [← Option.some.inj hk, List.length_append]
      exact Nat.lt_succ_self _
    · have hlt := h.bounded r p k hr hk
      rw [← Option.some.inj hk'] at hlt
      exact Nat.lt_irrefl _ hlt
    · exact Nat.lt_irrefl _ (hsocket ▸ socket_lt h he)
    · rw [List.getElem?_concat_length]
      exact hfor id hid
  · exact h.addRequest (fun _ hk => by cases hk) (fun _ _ _ _ _ hk => by cases hk) trivial

/-- An entry that is idle is taken for a request. -/
lemma Sound.reuse {e : CachedWebSocketConnection} (he : s.entries[i]? = some e)
    (hbusy : e.busy = false) : Sound { s.modifyEntry i fun entry => { entry with busy := true } with
      requests := s.requests ++ [.holding e.socket (.reused i)] } := by
  have hcases {j : ℕ} {e' : CachedWebSocketConnection}
      (he' : (s.entries.modify i fun entry => { entry with busy := true })[j]? = some e') :=
    getElem?_modify_cases he he'
  have hself : (s.entries.modify i fun entry => { entry with busy := true })[i]? =
      some { e with busy := true } := by
    rw [List.getElem?_modify_eq, he]
    rfl
  have hother {j : ℕ} (hij : i ≠ j) :
      (s.entries.modify i fun entry => { entry with busy := true })[j]? = s.entries[j]? :=
    List.getElem?_modify_ne _ _ hij
  have hidle : ∀ (r : ℕ) p, s.requests[r]? = some p → p.socket? ≠ some e.socket :=
    fun r p hr => h.not_request he hbusy hr
  refine ⟨fun r p k hr hk => ?_, fun r r' p p' k hr hr' hk hk' => ?_, fun r p hr => ?_,
    fun j e' he' => ?_, fun j j' e' e'' he' he'' hsocket => ?_, fun sessionId j hj => ?_,
    fun sessionId j e' hj he' hbusy' => ?_⟩
  · rcases getElem?_concat_iff.mp hr with hr | ⟨-, rfl⟩
    · exact h.bounded r p k hr hk
    · exact Option.some.inj hk ▸ socket_lt h he
  · rcases getElem?_concat_iff.mp hr with hold | ⟨hlast, rfl⟩ <;>
      rcases getElem?_concat_iff.mp hr' with hold' | ⟨hlast', rfl⟩
    · exact h.distinct r r' p p' k hold hold' hk hk'
    · exact absurd (hk.trans hk'.symm) (hidle r p hold)
    · exact absurd (hk'.trans hk.symm) (hidle r' p' hold')
    · exact hlast.trans hlast'.symm
  · rcases getElem?_concat_iff.mp hr with hold | ⟨-, rfl⟩
    · have hp := h.requests r p hold
      cases p with
      | connecting k cachedFor =>
        refine ⟨fun j e' he' => ?_, hp.2⟩
        rcases hcases he' with ⟨rfl, rfl⟩ | ⟨-, he'⟩
        · exact hp.1 i e he
        · exact hp.1 j e' he'
      | holding k hold' =>
        refine ⟨fun j e' he' hsocket => ?_, fun j hj => ?_⟩
        · rcases hcases he' with ⟨rfl, rfl⟩ | ⟨-, he'⟩
          · exact absurd (congrArg some hsocket.symm) (hidle r _ hold)
          · exact hp.1 j e' he' hsocket
        · obtain ⟨e', he', hsocket⟩ := hp.2 j hj
          have hij : i ≠ j := by
            rintro rfl
            rw [he] at he'
            cases he'
            exact hidle r _ hold (congrArg some hsocket.symm)
          exact ⟨e', (hother hij).trans he', hsocket⟩
      | ended => trivial
    · refine ⟨fun j e' he' hsocket => ?_, fun j hj => ?_⟩
      · rcases hcases he' with ⟨rfl, rfl⟩ | ⟨hij, he'⟩
        · exact ⟨rfl, rfl⟩
        · exact absurd (h.entries j i e' e he' he hsocket) hij.symm
      · cases hj
        exact ⟨_, hself, rfl⟩
  · rcases hcases he' with ⟨rfl, rfl⟩ | ⟨-, he'⟩
    · exact h.entry i e he
    · exact h.entry j e' he'
  · rcases hcases he' with ⟨rfl, rfl⟩ | ⟨-, hprev⟩ <;>
      rcases hcases he'' with ⟨rfl, rfl⟩ | ⟨-, hprev'⟩
    · rfl
    · exact h.entries i j' e e'' he hprev' hsocket
    · exact h.entries j i e' e hprev he hsocket
    · exact h.entries j j' e' e'' hprev hprev' hsocket
  · obtain ⟨e', he', hid⟩ := h.cached sessionId j hj
    by_cases hij : i = j
    · subst hij
      rw [he] at he'
      cases he'
      exact ⟨_, hself, hid⟩
    · exact ⟨e', (hother hij).trans he', hid⟩
  · rcases hcases he' with ⟨rfl, rfl⟩ | ⟨-, he'⟩
    · exact ⟨_, _, List.getElem?_concat_length⟩
    · obtain ⟨r, hold, hr⟩ := h.busy sessionId j e' hj he' hbusy'
      exact ⟨r, hold, (List.getElem?_append_left (List.getElem?_eq_some_iff.mp hr).1).trans hr⟩

/-- The socket of a request has opened. -/
lemma Sound.connected {cachedFor : Option String}
    (hr : s.requests[r]? = some (.connecting k cachedFor)) : Sound (s.connected r k cachedFor) := by
  have hlt := (List.getElem?_eq_some_iff.mp hr).1
  obtain ⟨hfree, hfor⟩ := h.requests r _ hr
  have hcases {hold : SocketHold} {r' : ℕ} {p : SocketRequest}
      (hr' : (s.requests.set r (.holding k hold))[r']? = some p) :=
    getElem?_set_cases hr'
  -- the request keeps its socket
  have hsame {hold : SocketHold} (r' : ℕ) (p : SocketRequest) (k' : ℕ)
      (hr' : (s.requests.set r (.holding k hold))[r']? = some p) (hk : p.socket? = some k') :
      ∃ p', s.requests[r']? = some p' ∧ p'.socket? = some k' := by
    rcases hcases hr' with ⟨rfl, rfl⟩ | ⟨-, hprev⟩
    · exact ⟨_, hr, hk⟩
    · exact ⟨p, hprev, hk⟩
  have hheld {hold : SocketHold} {k' : ℕ} (hbusy : s.Held k') : ∃ (r' : ℕ) (hold' : SocketHold),
        (s.requests.set r (.holding k hold))[r']? = some (.holding k' hold') := by
    obtain ⟨r', hold', hr'⟩ := hbusy
    refine ⟨r', hold', (List.getElem?_set_ne ?_).trans hr'⟩
    rintro rfl
    rw [hr] at hr'
    cases hr'
  have hopened := h.setReadyState k .open
  have hdist {hold : SocketHold} (r₁ r₂ : ℕ) (p₁ p₂ : SocketRequest) (k' : ℕ)
      (h₁ : (s.requests.set r (.holding k hold))[r₁]? = some p₁)
      (h₂ : (s.requests.set r (.holding k hold))[r₂]? = some p₂)
      (hk₁ : p₁.socket? = some k') (hk₂ : p₂.socket? = some k') : r₁ = r₂ := by
    obtain ⟨p₁', h₁', hk₁'⟩ := hsame r₁ p₁ k' h₁ hk₁
    obtain ⟨p₂', h₂', hk₂'⟩ := hsame r₂ p₂ k' h₂ hk₂
    exact h.distinct r₁ r₂ p₁' p₂' k' h₁' h₂' hk₁' hk₂'
  cases cachedFor with
  | none =>
    refine ⟨fun r' p k' hr' hk => ?_, hdist, fun r' p hr' => ?_, hopened.entry, h.entries,
      h.cached, fun sessionId i e hi he hbusy => hheld (h.busy sessionId i e hi he hbusy)⟩
    · obtain ⟨p', hp', hk'⟩ := hsame r' p k' hr' hk
      exact hopened.bounded r' p' k' hp' hk'
    · rcases hcases hr' with ⟨rfl, rfl⟩ | ⟨-, hprev⟩
      · exact ⟨fun i e he hsocket => absurd hsocket (hfree i e he), fun i hi => by cases hi⟩
      · have hp := hopened.requests r' p hprev
        cases p with
        | connecting k' cachedFor => exact hp
        | holding k' hold => exact hp
        | ended => trivial
  | some sessionId =>
    have hnew : (s.entries ++ [{ socket := k, sessionId, busy := true }])[s.entries.length]? =
        some { socket := k, sessionId, busy := true } := List.getElem?_concat_length
    have hkept {i : ℕ} {e : CachedWebSocketConnection} (he : s.entries[i]? = some e) :
        (s.entries ++ [{ socket := k, sessionId, busy := true }])[i]? = some e :=
      (List.getElem?_append_left (List.getElem?_eq_some_iff.mp he).1).trans he
    refine ⟨fun r' p k' hr' hk => ?_, hdist, fun r' p hr' => ?_, fun i e he => ?_,
      fun i j e e' he he' hsocket => ?_, fun sessionId' i hi => ?_,
      fun sessionId' i e hi he hbusy => ?_⟩
    · obtain ⟨p', hp', hk'⟩ := hsame r' p k' hr' hk
      exact hopened.bounded r' p' k' hp' hk'
    · rcases hcases hr' with ⟨rfl, rfl⟩ | ⟨hne, hprev⟩
      · refine ⟨fun i e he hsocket => ?_, fun i hi => ?_⟩
        · rcases getElem?_concat_iff.mp he with he | ⟨rfl, rfl⟩
          · exact absurd hsocket (hfree i e he)
          · exact ⟨rfl, rfl⟩
        · cases hi
          exact ⟨_, hnew, rfl⟩
      · have hp := hopened.requests r' p hprev
        cases p with
        | connecting k' cachedFor' =>
          refine ⟨fun i e he hsocket => ?_, hp.2⟩
          rcases getElem?_concat_iff.mp he with he | ⟨rfl, rfl⟩
          · exact hp.1 i e he hsocket
          · exact hne (h.distinct r' r _ _ k' hprev hr rfl (congrArg some hsocket)).symm
        | holding k' hold =>
          refine ⟨fun i e he hsocket => ?_, fun i hi => ?_⟩
          · rcases getElem?_concat_iff.mp he with he | ⟨rfl, rfl⟩
            · exact hp.1 i e he hsocket
            · exact absurd (h.distinct r' r _ _ k' hprev hr rfl (congrArg some hsocket)) hne.symm
          · obtain ⟨e, he, hsocket⟩ := hp.2 i hi
            exact ⟨e, hkept he, hsocket⟩
        | ended => trivial
    · rcases getElem?_concat_iff.mp he with he | ⟨rfl, rfl⟩
      · exact hopened.entry i e he
      · exact (hopened.requests r _ hr).2 sessionId rfl
    · rcases getElem?_concat_iff.mp he with hprev | ⟨rfl, rfl⟩ <;>
        rcases getElem?_concat_iff.mp he' with hprev' | ⟨rfl, rfl⟩
      · exact h.entries i j e e' hprev hprev' hsocket
      · exact absurd hsocket (hfree i e hprev)
      · exact absurd hsocket.symm (hfree j e' hprev')
      · rfl
    · change (s.websocketSessionCache.set sessionId s.entries.length).get? sessionId' = some i at hi
      rw [JsMap.get?_set] at hi
      split_ifs at hi with hid
      · cases hi
        exact ⟨_, hnew, hid⟩
      · obtain ⟨e, he, hid⟩ := h.cached sessionId' i hi
        exact ⟨e, hkept he, hid⟩
    · rcases getElem?_concat_iff.mp he with he | ⟨rfl, rfl⟩
      · change (s.websocketSessionCache.set sessionId s.entries.length).get? sessionId' = some i
          at hi
        rw [JsMap.get?_set] at hi
        split_ifs at hi with hid
        · cases hi
          exact absurd (List.getElem?_eq_some_iff.mp he).1 (Nat.lt_irrefl _)
        · exact hheld (h.busy sessionId' i e hi he hbusy)
      · exact ⟨r, _, List.getElem?_set_self hlt⟩

end

variable {hold : SocketHold}

/-- A request gives its entry back. -/
lemma Sound.keepEntry (h : Sound s) (hr : s.requests[r]? = some (.holding k hold))
    (hi : hold.entry? = some i) : Sound ((s.keepEntry i).setRequest r .ended) := by
  suffices hidle : Sound ((s.modifyEntry i fun entry => { entry with busy := false }).setRequest r
      .ended) from hidle.modifyEntry i fun _ => rfl
  obtain ⟨hentries, hheld⟩ := h.requests r _ hr
  obtain ⟨e, he, hsocket⟩ := hheld i hi
  have hother {j : ℕ} (hij : i ≠ j) :
      (s.entries.modify i fun entry => { entry with busy := false })[j]? = s.entries[j]? :=
    List.getElem?_modify_ne _ _ hij
  have hself : (s.entries.modify i fun entry => { entry with busy := false })[i]? =
      some { e with busy := false } := by
    rw [List.getElem?_modify_eq, he]
    rfl
  have hcases {j : ℕ} {e' : CachedWebSocketConnection}
      (he' : (s.entries.modify i fun entry => { entry with busy := false })[j]? = some e') :=
    getElem?_modify_cases he he'
  have hback (r' : ℕ) (p : SocketRequest) (k' : ℕ)
      (hr' : (s.requests.set r .ended)[r']? = some p) (hk : p.socket? = some k') :
      s.requests[r']? = some p ∧ k ≠ k' := by
    rcases getElem?_set_cases hr' with ⟨rfl, rfl⟩ | ⟨hne, hr'⟩
    · cases hk
    · exact ⟨hr', fun hkk => hne (h.distinct r r' _ p k hr hr' rfl (hkk ▸ hk))⟩
  refine ⟨fun r' p k' hr' hk => h.bounded r' p k' (hback r' p k' hr' hk).1 hk,
    fun r' r'' p p' k' hr' hr'' hk hk' => h.distinct r' r'' p p' k' (hback r' p k' hr' hk).1
      (hback r'' p' k' hr'' hk').1 hk hk', fun r' p hr' => ?_, fun j e' he' => ?_,
    fun j j' e' e'' he' he'' hsame => ?_, fun sessionId j hj => ?_,
    fun sessionId j e' hj he' hbusy => ?_⟩
  · cases p with
    | connecting k' cachedFor =>
      have hp := h.requests r' _ (hback r' _ k' hr' rfl).1
      refine ⟨fun j e' he' => ?_, hp.2⟩
      rcases hcases he' with ⟨rfl, rfl⟩ | ⟨-, hprev⟩
      · exact hp.1 i e he
      · exact hp.1 j e' hprev
    | holding k' hold' =>
      obtain ⟨hprev, hne⟩ := hback r' _ k' hr' rfl
      have hp := h.requests r' _ hprev
      refine ⟨fun j e' he' hsocket' => ?_, fun j hj => ?_⟩
      · rcases hcases he' with ⟨rfl, rfl⟩ | ⟨-, hprev⟩
        · exact absurd (hsocket.symm.trans hsocket') hne
        · exact hp.1 j e' hprev hsocket'
      · obtain ⟨e', he', hsocket'⟩ := hp.2 j hj
        have hij : i ≠ j := by
          rintro rfl
          rw [he] at he'
          cases he'
          exact hne (hsocket.symm.trans hsocket')
        exact ⟨e', (hother hij).trans he', hsocket'⟩
    | ended => trivial
  · rcases hcases he' with ⟨rfl, rfl⟩ | ⟨-, hprev⟩
    · exact h.entry i e he
    · exact h.entry j e' hprev
  · rcases hcases he' with ⟨rfl, rfl⟩ | ⟨-, hprev⟩ <;>
      rcases hcases he'' with ⟨rfl, rfl⟩ | ⟨-, hprev'⟩
    · rfl
    · exact h.entries i j' e e'' he hprev' hsame
    · exact h.entries j i e' e hprev he hsame
    · exact h.entries j j' e' e'' hprev hprev' hsame
  · obtain ⟨e', he', hid⟩ := h.cached sessionId j hj
    by_cases hij : i = j
    · subst hij
      rw [he] at he'
      cases he'
      exact ⟨_, hself, hid⟩
    · exact ⟨e', (hother hij).trans he', hid⟩
  · rcases hcases he' with ⟨rfl, rfl⟩ | ⟨hji, hprev⟩
    · cases hbusy
    · obtain ⟨r', hold', hr'⟩ := h.busy sessionId j e' hj hprev hbusy
      refine ⟨r', hold', (List.getElem?_set_ne ?_).trans hr'⟩
      rintro rfl
      rw [hr] at hr'
      cases hr'
      exact hji (Option.some.inj (hi.symm.trans (hentries j e' hprev rfl).1))

/-- A request ends whose entry is no longer cached. -/
lemma Sound.end_of_uncached (h : Sound s) {e : CachedWebSocketConnection}
    (hr : s.requests[r]? = some (.holding k hold)) (hi : hold.entry? = some i)
    (he : s.entries[i]? = some e) (huncached : s.websocketSessionCache.get? e.sessionId ≠ some i) :
    Sound (s.setRequest r .ended) := by
  refine h.end fun k' hold' hr' j hj sessionId hget => ?_
  rw [hr] at hr'
  cases hr'
  rw [hi] at hj
  cases hj
  obtain ⟨e', he', hid⟩ := h.cached sessionId i hget
  rw [he] at he'
  cases he'
  exact huncached (hid ▸ hget)

lemma get?_uncache_self (s : CodexSockets) (sessionId : String) :
    (s.uncache sessionId).websocketSessionCache.get? sessionId = none := by
  rw [uncache, JsMap.get?_delete, if_pos rfl]

lemma Sound.release (h : Sound s) (keep : Bool) (hr : s.requests[r]? = some (.holding k hold)) :
    Sound (s.release r k hold keep) := by
  have hentry := (h.requests r _ hr).2
  have hclosed := h.setReadyState k .closed
  cases hold with
  | single =>
    refine hclosed.end fun k' hold' hr' i hi => ?_
    cases hr.symm.trans hr'
    cases hi
  | fresh i =>
    obtain ⟨e, he, -⟩ := hentry i rfl
    have hcleared : ((s.closeWebSocketSilently k).clearIdleTimer i).entries[i]? =
        some { e with idleTimer := false } := by
      rw [CodexSockets.clearIdleTimer, CodexSockets.modifyEntry, List.getElem?_modify_eq]
      exact congrArg _ he
    change Sound ((s.releaseFresh k i keep).setRequest r .ended)
    rw [releaseFresh, he]
    dsimp only
    split_ifs with hclose hcached
    · exact ((hclosed.clearIdleTimer i).uncache e.sessionId).end_of_uncached hr rfl hcleared
        (by rw [get?_uncache_self]; exact some_ne_none i |>.symm)
    · exact (hclosed.clearIdleTimer i).end_of_uncached hr rfl hcleared hcached
    · exact h.keepEntry hr rfl
  | reused i =>
    obtain ⟨e, he, -⟩ := hentry i rfl
    change Sound ((s.releaseReused k i keep).setRequest r .ended)
    rw [releaseReused, he]
    split_ifs with hclose
    · exact (hclosed.uncache e.sessionId).end_of_uncached hr rfl he
        (by rw [get?_uncache_self]; exact some_ne_none i |>.symm)
    · exact h.keepEntry hr rfl

lemma Sound.acquireWebSocket (h : Sound s) (sessionId : Option String) (constructs : Bool) :
    Sound (s.acquireWebSocket sessionId constructs) := by
  rw [CodexSockets.acquireWebSocket]
  cases nonempty? sessionId with
  | none => exact h.connectWebSocket (fun _ hid => by cases hid) constructs
  | some sessionId =>
    dsimp only
    cases hcached : s.cached? sessionId with
    | none => exact h.connectWebSocket (fun _ hid => hid) constructs
    | some cached =>
      obtain ⟨i, e⟩ := cached
      have he : s.entries[i]? = some e := by
        obtain ⟨j, -, hj⟩ := bind_eq_some_iff.mp hcached
        obtain ⟨e', he', heq⟩ := map_eq_some_iff.mp hj
        cases heq
        exact he'
      have hcleared := h.clearIdleTimer i
      have hentry : (s.clearIdleTimer i).entries[i]? = some { e with idleTimer := false } := by
        rw [CodexSockets.clearIdleTimer, CodexSockets.modifyEntry, List.getElem?_modify_eq, he]
        rfl
      dsimp only
      split_ifs with hreuse hbusy
      · exact hcleared.reuse (e := { e with idleTimer := false }) hentry hreuse.1
      · exact hcleared.connectWebSocket (fun _ hid => by cases hid) constructs
      · exact ((hcleared.setReadyState e.socket .closed).uncache sessionId).connectWebSocket
          (fun _ hid => hid) constructs

lemma Sound.step (h : Sound s) {label : CodexSocketLabel} (hstep : s.step label = some s') :
    Sound s' := by
  cases label with
  | acquire sessionId constructs =>
    cases hstep
    exact h.acquireWebSocket sessionId constructs
  | connected request =>
    rw [CodexSockets.step] at hstep
    split at hstep
    · next socket cachedFor hr =>
      cases hstep
      exact h.connected hr
    · cases hstep
  | failed request =>
    rw [CodexSockets.step] at hstep
    split at hstep
    · next socket cachedFor hr =>
      cases hstep
      refine (h.setReadyState socket .closed).end fun k' hold' hr' => ?_
      cases hr.symm.trans hr'
    · cases hstep
  | release request keep =>
    rw [CodexSockets.step] at hstep
    split at hstep
    · next socket hold hr =>
      cases hstep
      exact h.release keep hr
    · cases hstep
  | idleTimeout i =>
    rw [CodexSockets.step] at hstep
    split at hstep
    · next e he =>
      split_ifs at hstep
      cases hstep
      rw [idleTimeout]
      split_ifs
      · exact h.clearIdleTimer i
      · exact ((h.clearIdleTimer i).setReadyState e.socket .closed).uncache e.sessionId
    · cases hstep
  | socketClosed socket =>
    rw [CodexSockets.step] at hstep
    split_ifs at hstep
    cases hstep
    exact h.setReadyState socket .closed
  | closeSessions sessionId =>
    cases hstep
    exact h.closeSessions sessionId

lemma sound_start (reportsReadyState : Bool) : Sound { reportsReadyState } := by
  refine ⟨fun r p k hr => ?_, fun r r' p p' k hr => ?_, fun r p hr => ?_, fun i e he => ?_,
    fun i j e e' he => ?_, fun sessionId i hi => ?_, fun sessionId i e hi => ?_⟩
  · cases hr
  · cases hr
  · cases hr
  · cases he
  · cases he
  · cases hi
  · cases hi

lemma Sound.of_run {reportsReadyState : Bool} {labels : List CodexSocketLabel}
    (hrun : codexSocketMachine.Run { reportsReadyState } labels s) : Sound s :=
  hrun.invariant (sound_start reportsReadyState) fun _ _ _ h hstep => h.step hstep

end CodexSockets

end Amide
