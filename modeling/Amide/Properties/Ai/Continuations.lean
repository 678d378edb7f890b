import Amide.Construction.Ai.CodexRequests
import Amide.Framework.JsonRoundTrip
import Amide.Properties.Ai.SocketOwnership

/-!
# Requests that continue the last one

What an entry remembers is the last request on its socket and the answer, whenever a request may
get the entry or has it and has not sent yet (`Remembers`).  Only a holder sends on a socket, so
what others do on theirs changes nothing for it.

The holder of an entry may fail to replace what the entry remembered before: when it used no
cached context, or the answer had no id.  `KeepsContinuations` is the condition that this does not
happen on an entry that stays cached.
-/

namespace Amide

open Positions Option

/-! ## What is sent -/

/-- `next` is sent as what it adds to `last` and the answer. -/
structure Continues (last next : CodexExchange) (responseId : String) : Prop where
  fields : last.requestBody.fields = next.requestBody.fields
  fullFields : next.requestBody.fields = next.fullBody.fields
  input : ∃ items, last.response = some ⟨some responseId, items⟩ ∧
    last.fullBody.input.getD [] ++ items ++ next.requestBody.input.getD [] =
      next.fullBody.input.getD []

/-- Every request with a `previous_response_id` continues the one before. -/
def Incremental : List CodexExchange → Prop
  | [] => True
  | next :: earlier =>
    (∀ responseId, next.requestBody.previous_response_id = some responseId →
      ∃ last, earlier.head? = some last ∧ Continues last next responseId) ∧ Incremental earlier

variable {exchanges : List CodexExchange}

lemma Incremental.answerLast (h : Incremental exchanges) (response : CodexResponse) :
    Incremental (answerLast response exchanges) := by
  cases exchanges with
  | nil => exact h
  | cons next earlier =>
    refine ⟨fun responseId hid => ?_, h.2⟩
    obtain ⟨last, hlast, hcont⟩ := h.1 responseId hid
    exact ⟨last, hlast, hcont.fields, hcont.fullFields, hcont.input⟩

lemma responseInputsEqual_iff {a b : List Json} : responseInputsEqual a b = true ↔ a = b := by
  rw [responseInputsEqual, decide_eq_true_iff, Json.stringify_injective.eq_iff, Json.arr.injEq]

lemma requestBodiesMatchExceptInput_iff {a b : RequestBody} :
    requestBodiesMatchExceptInput a b = true ↔ a.fields = b.fields := by
  rw [requestBodiesMatchExceptInput, decide_eq_true_iff, Json.stringify_injective.eq_iff,
    requestBodyWithoutInput, requestBodyWithoutInput, Json.obj.injEq]

variable {body : RequestBody} {continuation : CachedWebSocketContinuationState} {delta : List Json}

/-- The delta is what the input adds. -/
lemma getCachedWebSocketInputDelta_eq_some
    (h : getCachedWebSocketInputDelta body continuation = some delta) :
    body.fields = continuation.lastRequestBody.fields ∧
      continuation.lastRequestBody.input.getD [] ++ continuation.lastResponseItems ++ delta =
        body.input.getD [] := by
  rw [getCachedWebSocketInputDelta] at h
  dsimp only at h
  split_ifs at h with hfields hlen hprefix
  rw [Bool.not_eq_false, requestBodiesMatchExceptInput_iff] at hfields
  rw [Bool.not_eq_false, responseInputsEqual_iff] at hprefix
  refine ⟨hfields, ?_⟩
  rw [← Option.some.inj h]
  nth_rewrite 1 [← hprefix]
  exact List.take_append_drop _ _

/-- The body is sent in full, or as the delta where there is one. -/
lemma buildCachedWebSocketRequestBody_cases
    (continuation : Option CachedWebSocketContinuationState) (body : RequestBody) :
    ((buildCachedWebSocketRequestBody continuation body).2 = body ∧
      ∀ c, continuation = some c → (getCachedWebSocketInputDelta body c).isSome = true →
        c.lastResponseId = "") ∨
      ∃ c delta, continuation = some c ∧ getCachedWebSocketInputDelta body c = some delta ∧
        (buildCachedWebSocketRequestBody continuation body).2 =
          { body with previous_response_id := some c.lastResponseId, input := some delta } := by
  cases continuation with
  | none => exact .inl ⟨rfl, fun c hc => by cases hc⟩
  | some c =>
    rw [buildCachedWebSocketRequestBody]
    split
    · next hdelta =>
      refine .inl ⟨rfl, fun c' hc' hsome => ?_⟩
      cases hc'
      rw [hdelta] at hsome
      cases hsome
    · next delta hdelta =>
      split_ifs with hid
      · refine .inl ⟨rfl, fun c' hc' _ => ?_⟩
        cases hc'
        exact hid
      · exact .inr ⟨c, delta, rfl, hdelta, rfl⟩

/-- The last request of `exchanges` stands for `body`. -/
structure IsLast (exchanges : List CodexExchange) (body : RequestBody) (last : CodexExchange) :
    Prop where
  head : exchanges.head? = some last
  fullBody : last.fullBody = body
  fields : last.requestBody.fields = body.fields

/-- The last request and its answer are those remembered. -/
def LastAnswered (exchanges : List CodexExchange)
    (continuation : CachedWebSocketContinuationState) :
    Prop :=
  ∃ last, IsLast exchanges continuation.lastRequestBody last ∧
    last.response = some ⟨some continuation.lastResponseId, continuation.lastResponseItems⟩

/-- A request that sends only the delta continues what was remembered. -/
lemma LastAnswered.continues
    (h : LastAnswered exchanges continuation)
    (hdelta : getCachedWebSocketInputDelta body continuation = some delta) {next : CodexExchange}
    (hbody : next.fullBody = body) (hfields : next.requestBody.fields = body.fields)
    (hinput : next.requestBody.input = some delta) :
    ∃ last, exchanges.head? = some last ∧ Continues last next continuation.lastResponseId := by
  obtain ⟨last, hlast, hresp⟩ := h
  obtain ⟨hmatch, hadds⟩ := getCachedWebSocketInputDelta_eq_some hdelta
  refine ⟨last, hlast.head, ?_, ?_, continuation.lastResponseItems, hresp, ?_⟩
  · rw [hlast.fields, hfields, hmatch]
  · rw [hfields, hbody]
  · rw [hlast.fullBody, hinput, hbody]
    exact hadds

lemma IsLast.answerLast {last : CodexExchange} (h : IsLast exchanges body last)
    (response : CodexResponse) :
    IsLast (answerLast response exchanges) body { last with response := some response } := by
  cases exchanges with
  | nil => cases h.head
  | cons next earlier =>
    cases h.head
    exact ⟨rfl, h.fullBody, h.fields⟩

/-! ## Sockets and entries -/

variable {e : CachedWebSocketConnection}

namespace CodexSockets

variable {s t u : CodexSockets} {r k i : ℕ}

/-- Entries are compared up to their timers. -/
def untimed (e : CachedWebSocketConnection) : CachedWebSocketConnection :=
  { e with idleTimer := false }

/-- From `s` to `t`, sockets close, timers change and entries are uncached. -/
structure Shrinks (s t : CodexSockets) : Prop where
  requests : t.requests = s.requests
  sockets : ∀ k : ℕ, t.sockets[k]?.map CodexSocket.sessionId =
    s.sockets[k]?.map CodexSocket.sessionId
  entries : ∀ i : ℕ, t.entries[i]?.map untimed = s.entries[i]?.map untimed
  cache : ∀ sessionId i, t.websocketSessionCache.get? sessionId = some i →
    s.websocketSessionCache.get? sessionId = some i

lemma Shrinks.refl (s : CodexSockets) : Shrinks s s :=
  ⟨rfl, fun _ => rfl, fun _ => rfl, fun _ _ => id⟩

lemma Shrinks.trans (h : Shrinks s t) (h' : Shrinks t u) : Shrinks s u :=
  ⟨h'.requests.trans h.requests, fun k => (h'.sockets k).trans (h.sockets k),
    fun i => (h'.entries i).trans (h.entries i),
    fun sessionId i hi => h.cache sessionId i (h'.cache sessionId i hi)⟩

lemma Shrinks.sound (h : Shrinks s t) (hs : Sound s) : Sound t := by
  refine hs.of_less h.requests h.sockets (fun i => ?_) h.cache
  have hkey : entryKey = entryKey ∘ untimed := rfl
  rw [hkey, ← map_map, h.entries i, map_map]

lemma Shrinks.entry (h : Shrinks s t) (he : t.entries[i]? = some e) :
    ∃ e', s.entries[i]? = some e' ∧ untimed e' = untimed e := by
  have hmap := h.entries i
  rw [he, map_some, eq_comm, map_eq_some_iff] at hmap
  exact hmap

lemma shrinks_setReadyState (s : CodexSockets) (k : ℕ) (state : WebSocketReadyState) :
    Shrinks s (s.setReadyState k state) :=
  ⟨rfl, sessionId_setReadyState k state, fun _ => rfl, fun _ _ => id⟩

lemma shrinks_clearIdleTimer (s : CodexSockets) (i : ℕ) : Shrinks s (s.clearIdleTimer i) := by
  refine ⟨rfl, fun _ => rfl, fun j => ?_, fun _ _ => id⟩
  rw [clearIdleTimer, modifyEntry, List.getElem?_modify, map_eq_map, map_map]
  refine congrArg (Option.map · _) (funext fun e => ?_)
  split_ifs <;> rfl

lemma shrinks_uncache (s : CodexSockets) (sessionId : String) :
    Shrinks s (s.uncache sessionId) := by
  refine ⟨rfl, fun _ => rfl, fun _ => rfl, fun sessionId' i hi => ?_⟩
  rw [uncache] at hi
  exact JsMap.of_get?_delete hi

lemma shrinks_closeEntry (s : CodexSockets) (i : ℕ) : Shrinks s (s.closeEntry i) := by
  rw [closeEntry]
  split
  · exact (shrinks_clearIdleTimer s i).trans (shrinks_setReadyState _ _ _)
  · exact .refl s

lemma shrinks_foldl_closeEntry (s : CodexSockets) (is : List ℕ) :
    Shrinks s (is.foldl closeEntry s) := by
  induction is generalizing s with
  | nil => exact .refl s
  | cons i is ih => exact (shrinks_closeEntry s i).trans (ih _)

lemma shrinks_closeSessions (s : CodexSockets) (sessionId : Option String) :
    Shrinks s (s.closeOpenAICodexWebSocketSessions sessionId) := by
  rw [closeOpenAICodexWebSocketSessions]
  split
  · refine Shrinks.trans ?_ (shrinks_uncache _ _)
    split
    · exact shrinks_closeEntry s _
    · exact .refl s
  · have hclosed := shrinks_foldl_closeEntry s s.websocketSessionCache.values
    exact ⟨hclosed.requests, hclosed.sockets, hclosed.entries, fun _ _ hi => by cases hi⟩

lemma shrinks_idleTimeout (s : CodexSockets) (i : ℕ) (e : CachedWebSocketConnection) :
    Shrinks s (s.idleTimeout i e) := by
  rw [idleTimeout]
  split_ifs
  · exact shrinks_clearIdleTimer s i
  · exact ((shrinks_clearIdleTimer s i).trans (shrinks_setReadyState _ _ _)).trans
      (shrinks_uncache _ _)

/-- A holder keeps its entry, or lets go of it. -/
lemma release_cases (hs : Sound s) {hold : SocketHold} (keep : Bool)
    (hr : s.requests[r]? = some (.holding k hold)) :
    (∃ i, hold.entry? = some i ∧ keep = true ∧ s.isWebSocketReusable k = true ∧
      s.release r k hold keep = (s.keepEntry i).setRequest r .ended) ∨
    ∃ t, Shrinks s t ∧ s.release r k hold keep = t.setRequest r .ended := by
  have hentry := (hs.requests r _ hr).2
  have hclosed := shrinks_setReadyState s k .closed
  cases hold with
  | single => exact .inr ⟨_, hclosed, rfl⟩
  | fresh i =>
    obtain ⟨e, he, -⟩ := hentry i rfl
    have hcleared := hclosed.trans (shrinks_clearIdleTimer _ i)
    rw [release, releaseFresh, he]
    dsimp only
    split_ifs with hclose hcached
    · exact .inr ⟨_, hcleared.trans (shrinks_uncache _ _), rfl⟩
    · exact .inr ⟨_, hcleared, rfl⟩
    · rw [not_or, Bool.not_eq_false, Bool.not_eq_false] at hclose
      exact .inl ⟨i, rfl, hclose.1, hclose.2, rfl⟩
  | reused i =>
    obtain ⟨e, he, -⟩ := hentry i rfl
    rw [release, releaseReused, he]
    split_ifs with hclose
    · exact .inr ⟨_, hclosed.trans (shrinks_uncache _ _), rfl⟩
    · rw [not_or, Bool.not_eq_false, Bool.not_eq_false] at hclose
      exact .inl ⟨i, rfl, hclose.1, hclose.2, rfl⟩

end CodexSockets

/-! ## What entries remember -/

namespace CodexRequests

variable {s : CodexRequests} {t : CodexSockets} {r k i : ℕ} {k₀ : Option ℕ} {hold : SocketHold}

/-- A request has the entry and has not sent yet. -/
def Unsent (s : CodexRequests) (i : ℕ) : Prop :=
  ∃ (r k : ℕ) (hold : SocketHold) (call : CodexCall),
    s.sockets.requests[r]? = some (.holding k hold) ∧ hold.entry? = some i ∧
      s.calls[r]? = some call ∧ call.sent = false

/-- The next request of the session may get the entry. -/
def Idle (s : CodexRequests) (i : ℕ) (e : CachedWebSocketConnection) : Prop :=
  e.busy = false ∧ s.sockets.websocketSessionCache.get? e.sessionId = some i

/-- A request is to come that uses what the entry remembers. -/
def Ready (s : CodexRequests) (i : ℕ) (e : CachedWebSocketConnection) : Prop :=
  s.Idle i e ∨ s.Unsent i

/-- Entries remember the last request on their sockets and its answer, but for what happens on the
socket `k₀`. -/
structure Remembers (s : CodexRequests) (k₀ : Option ℕ) : Prop where
  sound : s.sockets.Sound
  length : s.calls.length = s.sockets.requests.length
  incremental : ∀ k, Incremental (s.exchanges k)
  connecting : ∀ (r : ℕ) k cachedFor call, s.sockets.requests[r]? = some (.connecting k cachedFor) →
    s.calls[r]? = some call → call.sent = false
  sent : ∀ (r : ℕ) k hold call, s.sockets.requests[r]? = some (.holding k hold) →
    s.calls[r]? = some call → call.sent = true → k₀ ≠ some k →
    ∃ last, IsLast (s.exchanges k) call.body last
  ready : ∀ (i : ℕ) e c, s.sockets.entries[i]? = some e → e.continuation = some c → s.Ready i e →
    k₀ ≠ some e.socket → LastAnswered (s.exchanges e.socket) c

/-- What happens to sockets and entries, but for requests that come. -/
lemma Remembers.frame (h : Remembers s k₀) (hsound : t.Sound)
    (hlen : t.requests.length = s.sockets.requests.length)
    (hconnecting : ∀ (r : ℕ) k cachedFor, t.requests[r]? = some (.connecting k cachedFor) →
      s.sockets.requests[r]? = some (.connecting k cachedFor))
    (hholding : ∀ (r : ℕ) k hold, t.requests[r]? = some (.holding k hold) →
      s.sockets.requests[r]? = some (.holding k hold) ∨
        ∀ call, s.calls[r]? = some call → call.sent = false)
    (hready : ∀ (i : ℕ) e' c, t.entries[i]? = some e' → e'.continuation = some c →
      Ready { s with sockets := t } i e' → k₀ ≠ some e'.socket →
      ∃ e, s.sockets.entries[i]? = some e ∧ e.socket = e'.socket ∧ e.continuation = some c ∧
        s.Ready i e) :
    Remembers { s with sockets := t } k₀ := by
  refine ⟨hsound, h.length.trans hlen.symm, h.incremental,
    fun r k cachedFor call hr => h.connecting r k cachedFor call (hconnecting r k cachedFor hr),
    fun r k hold call hr hcall hsent hk => ?_, fun i e' c he' hc hready' hk => ?_⟩
  · rcases hholding r k hold hr with hprev | hunsent
    · exact h.sent r k hold call hprev hcall hsent hk
    · rw [hunsent call hcall] at hsent
      cases hsent
  · obtain ⟨e, he, hsocket, hcont, hready⟩ := hready i e' c he' hc hready' hk
    have hanswered := h.ready i e c he hcont hready (hsocket ▸ hk)
    rw [hsocket] at hanswered
    exact hanswered

lemma Remembers.shrink (h : Remembers s k₀) (hshrinks : CodexSockets.Shrinks s.sockets t) :
    Remembers { s with sockets := t } k₀ := by
  refine h.frame (hshrinks.sound h.sound) (congrArg List.length hshrinks.requests)
    (fun r k cachedFor hr => hshrinks.requests ▸ hr)
    (fun r k hold hr => .inl (hshrinks.requests ▸ hr)) fun i e' c he' hc hready _ => ?_
  obtain ⟨e, he, hkey⟩ := hshrinks.entry he'
  have hfields : e.socket = e'.socket ∧ e.sessionId = e'.sessionId ∧ e.busy = e'.busy ∧
      e.continuation = e'.continuation := by
    simpa [CodexSockets.untimed] using hkey
  refine ⟨e, he, hfields.1, hfields.2.2.2.trans hc, hready.imp (fun hidle => ?_) fun hunsent => ?_⟩
  · refine ⟨hfields.2.2.1.trans hidle.1, ?_⟩
    rw [hfields.2.1]
    exact hshrinks.cache _ _ hidle.2
  · obtain ⟨r, k, hold, call, hr, hrest⟩ := hunsent
    exact ⟨r, k, hold, call, hshrinks.requests ▸ hr, hrest⟩

/-! ### Calls -/

section
variable (h : Remembers s k₀)
include h

/-- A call comes. -/
lemma Remembers.addCall (hsound : t.Sound) {p : SocketRequest}
    (hreqs : t.requests = s.sockets.requests ++ [p]) {call : CodexCall}
    (hcall : call.sent = false)
    (hentries : ∀ (i : ℕ) e', t.entries[i]? = some e' →
      ∃ e, s.sockets.entries[i]? = some e ∧ e.socket = e'.socket ∧
        e.continuation = e'.continuation ∧
        (e'.busy = false → t.websocketSessionCache.get? e'.sessionId = some i → s.Idle i e) ∧
        ∀ k hold, p = .holding k hold → hold.entry? = some i → s.Idle i e) :
    Remembers { s with sockets := t, calls := s.calls ++ [call] } k₀ := by
  -- a request and its call are both new or both old
  have hold {r : ℕ} {p' : SocketRequest} {call' : CodexCall} (hr : t.requests[r]? = some p')
      (hcall' : (s.calls ++ [call])[r]? = some call') :
      (s.sockets.requests[r]? = some p' ∧ s.calls[r]? = some call') ∨ (p' = p ∧ call' = call) := by
    rw [hreqs] at hr
    rcases getElem?_concat_iff.mp hr with hprev | ⟨hlast, rfl⟩ <;>
      rcases getElem?_concat_iff.mp hcall' with hprev' | ⟨hlast', rfl⟩
    · exact .inl ⟨hprev, hprev'⟩
    · have hlt := (List.getElem?_eq_some_iff.mp hprev).1
      rw [hlast', h.length] at hlt
      exact absurd hlt (Nat.lt_irrefl _)
    · have hlt := (List.getElem?_eq_some_iff.mp hprev').1
      rw [hlast, h.length] at hlt
      exact absurd hlt (Nat.lt_irrefl _)
    · exact .inr ⟨rfl, rfl⟩
  refine ⟨hsound, ?_, h.incremental, fun r k cachedFor call' hr hcall' => ?_,
    fun r k hold' call' hr hcall' hsent hk => ?_, fun i e' c he' hc hready hk => ?_⟩
  · rw [hreqs, List.length_append, List.length_append, h.length, List.length_singleton,
      List.length_singleton]
  · rcases hold hr hcall' with ⟨hprev, hprev'⟩ | ⟨-, rfl⟩
    · exact h.connecting r k cachedFor call' hprev hprev'
    · exact hcall
  · rcases hold hr hcall' with ⟨hprev, hprev'⟩ | ⟨-, rfl⟩
    · exact h.sent r k hold' call' hprev hprev' hsent hk
    · rw [hcall] at hsent
      cases hsent
  · obtain ⟨e, he, hsocket, hcont, hidle, hholding⟩ := hentries i e' he'
    have hready₀ : s.Ready i e := by
      rcases hready with hidle' | ⟨r, k, hold', call', hr, hi, hcall', hunsent⟩
      · exact .inl (hidle hidle'.1 hidle'.2)
      · rcases hold hr hcall' with ⟨hprev, hprev'⟩ | ⟨hp, -⟩
        · exact .inr ⟨r, k, hold', call', hprev, hi, hprev', hunsent⟩
        · exact .inl (hholding k hold' hp.symm hi)
    have hanswered := h.ready i e c he (hcont.trans hc) hready₀ (hsocket ▸ hk)
    rw [hsocket] at hanswered
    exact hanswered

lemma Remembers.connectWebSocket {sessionId cachedFor : Option String}
    (hfor : ∀ id, cachedFor = some id → sessionId = some id) (constructs : Bool) {call : CodexCall}
    (hcall : call.sent = false) :
    Remembers { s with sockets := s.sockets.connectWebSocket sessionId cachedFor constructs
                       calls := s.calls ++ [call] } k₀ := by
  have hsound := h.sound.connectWebSocket hfor constructs
  rw [CodexSockets.connectWebSocket] at hsound ⊢
  split_ifs at hsound ⊢
  · exact h.addCall hsound rfl hcall fun i e he =>
      ⟨e, he, rfl, rfl, fun hbusy hcache => ⟨hbusy, hcache⟩, fun _ _ hp => by cases hp⟩
  · exact h.addCall hsound rfl hcall fun i e he =>
      ⟨e, he, rfl, rfl, fun hbusy hcache => ⟨hbusy, hcache⟩, fun _ _ hp => by cases hp⟩

/-- A call gets an entry that is idle. -/
lemma Remembers.reuse (he : s.sockets.entries[i]? = some e) (hidle : s.Idle i e) {call : CodexCall}
    (hcall : call.sent = false) :
    Remembers
      { s with
        sockets :=
          { s.sockets.modifyEntry i fun entry => { entry with busy := true } with
            requests := s.sockets.requests ++ [.holding e.socket (.reused i)] }
        calls := s.calls ++ [call] } k₀ := by
  refine h.addCall (h.sound.reuse he hidle.1) rfl hcall fun j e' he' => ?_
  by_cases hij : i = j
  · subst hij
    change (s.sockets.entries.modify i _)[i]? = some e' at he'
    rw [List.getElem?_modify_eq, he] at he'
    cases he'
    exact ⟨e, he, rfl, rfl, fun hbusy => (by cases hbusy), fun _ _ _ _ => hidle⟩
  · change (s.sockets.entries.modify i _)[j]? = some e' at he'
    rw [List.getElem?_modify_ne _ _ hij] at he'
    refine ⟨e', he', rfl, rfl, fun hbusy hcache => ⟨hbusy, hcache⟩, fun k hold hp hj => ?_⟩
    cases hp
    exact absurd (Option.some.inj hj) hij

lemma Remembers.call (sessionId : Option String) (constructs : Bool) (body : RequestBody)
    (transport : Option CodexTransport) :
    Remembers (s.call sessionId constructs body transport) k₀ := by
  rw [CodexRequests.call, CodexSockets.acquireWebSocket]
  cases nonempty? sessionId with
  | none => exact h.connectWebSocket (fun _ hid => by cases hid) constructs rfl
  | some sessionId =>
    dsimp only
    cases hcached : s.sockets.cached? sessionId with
    | none => exact h.connectWebSocket (fun _ hid => hid) constructs rfl
    | some cached =>
      obtain ⟨i, e⟩ := cached
      obtain ⟨hget, he⟩ : s.sockets.websocketSessionCache.get? sessionId = some i ∧
          s.sockets.entries[i]? = some e := by
        obtain ⟨j, hget, hj⟩ := bind_eq_some_iff.mp hcached
        obtain ⟨e', he', heq⟩ := map_eq_some_iff.mp hj
        cases heq
        exact ⟨hget, he'⟩
      have hcleared := h.shrink (CodexSockets.shrinks_clearIdleTimer s.sockets i)
      dsimp only
      split_ifs with hreuse hbusy
      · have hentry : (s.sockets.clearIdleTimer i).entries[i]? =
            some { e with idleTimer := false } := by
          rw [CodexSockets.clearIdleTimer, CodexSockets.modifyEntry, List.getElem?_modify_eq, he]
          rfl
        refine hcleared.reuse (e := { e with idleTimer := false }) hentry ⟨hreuse.1, ?_⟩ rfl
        obtain ⟨e', he', hid⟩ := h.sound.cached sessionId i hget
        cases he.symm.trans he'
        exact (congrArg _ hid).trans hget
      · exact hcleared.connectWebSocket (fun _ hid => by cases hid) constructs rfl
      · exact (hcleared.shrink ((CodexSockets.shrinks_setReadyState _ e.socket .closed).trans
          (CodexSockets.shrinks_uncache _ sessionId))).connectWebSocket (fun _ hid => hid)
            constructs rfl

end

/-! ### Connections -/

lemma Remembers.connected (h : Remembers s k₀) {cachedFor : Option String}
    (hr : s.sockets.requests[r]? = some (.connecting k cachedFor)) :
    Remembers { s with sockets := s.sockets.connected r k cachedFor } k₀ := by
  have hset {p p' : SocketRequest} {r' : ℕ} (hr' : (s.sockets.requests.set r p)[r']? = some p') :
      (r = r' ∧ p = p') ∨ s.sockets.requests[r']? = some p' :=
    (getElem?_set_cases hr').imp (And.imp_right Eq.symm) And.right
  have hsound := h.sound.connected hr
  cases cachedFor with
  | none =>
    refine h.frame hsound (List.length_set ..) (fun r' k' cachedFor hr' => ?_)
      (fun r' k' hold hr' => ?_) fun i e c he hc hready _ => ⟨e, he, rfl, hc, ?_⟩
    · rcases hset hr' with ⟨-, hp⟩ | hprev
      · cases hp
      · exact hprev
    · rcases hset hr' with ⟨rfl, -⟩ | hprev
      · exact .inr fun call hcall => h.connecting r k _ call hr hcall
      · exact .inl hprev
    · refine hready.imp id fun ⟨r', k', hold, call, hr', hi, hcall⟩ => ?_
      rcases hset hr' with ⟨-, hp⟩ | hprev
      · cases hp
        cases hi
      · exact ⟨r', k', hold, call, hprev, hi, hcall⟩
  | some sessionId =>
    refine h.frame hsound (List.length_set ..) (fun r' k' cachedFor hr' => ?_)
      (fun r' k' hold hr' => ?_) fun i e c he hc hready _ => ?_
    · rcases hset hr' with ⟨-, hp⟩ | hprev
      · cases hp
      · exact hprev
    · rcases hset hr' with ⟨rfl, -⟩ | hprev
      · exact .inr fun call hcall => h.connecting r k _ call hr hcall
      · exact .inl hprev
    · rcases getElem?_concat_iff.mp he with hprev | ⟨-, rfl⟩
      · have hi := (List.getElem?_eq_some_iff.mp hprev).1
        refine ⟨e, hprev, rfl, hc, hready.imp (fun hidle => ⟨hidle.1, ?_⟩)
          fun ⟨r', k', hold, call, hr', hentry, hcall⟩ => ?_⟩
        · have hget : (s.sockets.websocketSessionCache.set sessionId
              s.sockets.entries.length).get? e.sessionId = some i := hidle.2
          rw [JsMap.get?_set] at hget
          split_ifs at hget
          · cases hget
            exact absurd hi (Nat.lt_irrefl _)
          · exact hget
        · rcases hset hr' with ⟨-, hp⟩ | hprev'
          · cases hp
            cases hentry
            exact absurd hi (Nat.lt_irrefl _)
          · exact ⟨r', k', hold, call, hprev', hentry, hcall⟩
      -- the new entry remembers nothing
      · cases hc

lemma getElem?_set_ended {requests : List SocketRequest} {p : SocketRequest} {r' : ℕ}
    (hr' : (requests.set r .ended)[r']? = some p) (hp : p ≠ .ended) :
    r ≠ r' ∧ requests[r']? = some p :=
  (getElem?_set_cases hr').resolve_left fun hended => hp hended.2

/-- A request ends. -/
lemma Remembers.endRequest (h : Remembers s k₀) (hsound : (s.sockets.setRequest r .ended).Sound) :
    Remembers { s with sockets := s.sockets.setRequest r .ended } k₀ := by
  refine h.frame hsound (List.length_set ..)
    (fun r' k' cachedFor hr' => (getElem?_set_ended hr' (by simp)).2)
    (fun r' k' hold hr' => .inl (getElem?_set_ended hr' (by simp)).2)
    fun i e c he hc hready _ => ⟨e, he, rfl, hc, hready.imp id ?_⟩
  rintro ⟨r', k', hold, call, hr', hrest⟩
  exact ⟨r', k', hold, call, (getElem?_set_ended hr' (by simp)).2, hrest⟩

/-! ### What a holder does with its socket -/

lemma Remembers.allBut (h : Remembers s none) (k : ℕ) : Remembers s (some k) :=
  ⟨h.sound, h.length, h.incremental, h.connecting,
    fun r k' hold call hr hcall hsent _ => h.sent r k' hold call hr hcall hsent (by simp),
    fun i e c he hc hready _ => h.ready i e c he hc hready (by simp)⟩

/-- What holds on the socket again. -/
lemma Remembers.settle (h : Remembers s (some k))
    (hsent : ∀ (r : ℕ) hold call, s.sockets.requests[r]? = some (.holding k hold) →
      s.calls[r]? = some call → call.sent = true → ∃ last, IsLast (s.exchanges k) call.body last)
    (hready : ∀ (i : ℕ) e c, s.sockets.entries[i]? = some e → e.socket = k →
      e.continuation = some c → s.Ready i e → LastAnswered (s.exchanges k) c) :
    Remembers s none := by
  refine ⟨h.sound, h.length, h.incremental, h.connecting, fun r k' hold call hr hcall hs _ => ?_,
    fun i e c he hc hr _ => ?_⟩
  · by_cases hk : k = k'
    · subst hk
      exact hsent r hold call hr hcall hs
    · exact h.sent r k' hold call hr hcall hs fun heq => hk (Option.some.inj heq)
  · by_cases hk : k = e.socket
    · rw [← hk]
      exact hready i e c he hk.symm hc hr
    · exact h.ready i e c he hc hr fun heq => hk (Option.some.inj heq)

lemma Remembers.exchange (h : Remembers s (some k)) (hincremental : Incremental exchanges) :
    Remembers (s.exchange k exchanges) (some k) := by
  have hother {k' : ℕ} (hk : some k ≠ some k') :
      (s.exchange k exchanges).exchanges k' = s.exchanges k' :=
    Function.update_of_ne (fun heq => hk (congrArg some heq.symm)) _ _
  refine ⟨h.sound, h.length, fun k' => ?_, h.connecting,
    fun r k' hold call hr hcall hsent hk => ?_, fun i e c he hc hready hk => ?_⟩
  · by_cases hk : k' = k
    · subst hk
      change Incremental (Function.update s.exchanges k' exchanges k')
      rw [Function.update_self]
      exact hincremental
    · change Incremental (Function.update s.exchanges k exchanges k')
      rw [Function.update_of_ne hk]
      exact h.incremental k'
  · rw [hother hk]
    exact h.sent r k' hold call hr hcall hsent hk
  · rw [hother hk]
    exact h.ready i e c he hc hready hk

lemma requests_setContinuation (s : CodexSockets) (hold : SocketHold)
    (continuation : Option CachedWebSocketContinuationState) :
    (s.setContinuation hold continuation).requests = s.requests := by
  rw [CodexSockets.setContinuation]
  split <;> rfl

/-- A holder changes what its entry remembers. -/
lemma Remembers.setContinuation (h : Remembers s (some k))
    (hr : s.sockets.requests[r]? = some (.holding k hold))
    (continuation : Option CachedWebSocketContinuationState) :
    Remembers { s with sockets := s.sockets.setContinuation hold continuation } (some k) := by
  rw [CodexSockets.setContinuation]
  cases hi : hold.entry? with
  | none => exact h
  | some i =>
    obtain ⟨e, he, hsocket⟩ := (h.sound.requests r _ hr).2 i hi
    refine h.frame (h.sound.modifyEntry i fun _ => rfl) rfl (fun _ _ _ => id) (fun _ _ _ => .inl)
      fun j e' c he' hc hready hk => ?_
    have hij : i ≠ j := by
      rintro rfl
      change (s.sockets.entries.modify i _)[i]? = some e' at he'
      rw [List.getElem?_modify_eq, he] at he'
      cases he'
      exact hk (congrArg some hsocket.symm)
    change (s.sockets.entries.modify i _)[j]? = some e' at he'
    rw [List.getElem?_modify_ne _ _ hij] at he'
    exact ⟨e', he', rfl, hc, hready⟩

/-- A holder sends. -/
lemma Remembers.setSent (h : Remembers s (some k))
    (hr : s.sockets.requests[r]? = some (.holding k hold)) (call : CodexCall) :
    Remembers { s with calls := s.calls.set r { call with sent := true } } (some k) := by
  have hset {r' : ℕ} {call' : CodexCall}
      (hcall' : (s.calls.set r { call with sent := true })[r']? = some call') :
      (r = r' ∧ call'.sent = true) ∨ s.calls[r']? = some call' :=
    (getElem?_set_cases hcall').imp (And.imp_right (congrArg CodexCall.sent)) And.right
  refine ⟨h.sound, (List.length_set ..).trans h.length, h.incremental,
    fun r' k' cachedFor call' hr' hcall' => ?_, fun r' k' hold' call' hr' hcall' hsent hk => ?_,
    fun i e c he hc hready hk => h.ready i e c he hc (hready.imp id ?_) hk⟩
  · rcases hset hcall' with ⟨rfl, -⟩ | hprev
    · cases hr.symm.trans hr'
    · exact h.connecting r' k' cachedFor call' hr' hprev
  · rcases hset hcall' with ⟨rfl, -⟩ | hprev
    · cases hr.symm.trans hr'
      exact absurd rfl hk
    · exact h.sent r' k' hold' call' hr' hprev hsent hk
  · rintro ⟨r', k', hold', call', hr', hi, hcall', hunsent⟩
    rcases hset hcall' with ⟨-, hsent⟩ | hprev
    · rw [hunsent] at hsent
      cases hsent
    · exact ⟨r', k', hold', call', hr', hi, hprev, hunsent⟩

section
variable (hs : s.sockets.Sound) (hr : s.sockets.requests[r]? = some (.holding k hold))
  (he : s.sockets.entries[i]? = some e) (hsocket : e.socket = k)
include hs hr he hsocket

/-- An entry of the socket is that of its holder. -/
lemma entry_of_socket : hold.entry? = some i ∧ e.busy = true :=
  (hs.requests r _ hr).1 i e he hsocket

/-- Who holds the entry holds its socket. -/
lemma holder_unique {r' k' : ℕ} {hold' : SocketHold}
    (hr' : s.sockets.requests[r']? = some (.holding k' hold')) (hi : hold'.entry? = some i) :
    r = r' := by
  obtain ⟨e', he', hsocket'⟩ := (hs.requests r' _ hr').2 i hi
  cases he.symm.trans he'
  exact hs.distinct r r' _ _ k hr hr' rfl (congrArg some (hsocket'.symm.trans hsocket))

end

/-- A holder ends, and its entry is kept or not. -/
lemma Remembers.release (h : Remembers s (some k))
    (hr : s.sockets.requests[r]? = some (.holding k hold)) {keep : Bool}
    (hown : keep = true → s.sockets.isWebSocketReusable k = true → ∀ (i : ℕ) e c,
      hold.entry? = some i → s.sockets.entries[i]? = some e → e.continuation = some c →
      s.sockets.websocketSessionCache.get? e.sessionId = some i → LastAnswered (s.exchanges k) c) :
    Remembers (s.release r k hold keep) none := by
  have hsound := h.sound.release keep hr
  rw [CodexRequests.release]
  -- nobody holds the socket any more
  have hnone {r' : ℕ} {hold' : SocketHold} {t : CodexSockets}
      (hreqs : t.requests = s.sockets.requests)
      (hr' : (t.setRequest r .ended).requests[r']? = some (.holding k hold')) : False := by
    obtain ⟨hne, hprev⟩ := getElem?_set_ended hr' (by simp)
    exact hne (h.sound.distinct r r' _ _ k hr (hreqs ▸ hprev) rfl rfl)
  rcases CodexSockets.release_cases h.sound keep hr with
    ⟨i, hi, hkeep, hreusable, heq⟩ | ⟨t, hshrinks, heq⟩
  · rw [heq] at hsound ⊢
    obtain ⟨e, he, hsocket⟩ := (h.sound.requests r _ hr).2 i hi
    have hself : (s.sockets.keepEntry i).entries[i]? =
        some { e with busy := false, idleTimer := true } := by
      rw [CodexSockets.keepEntry, CodexSockets.scheduleSessionWebSocketExpiry,
        CodexSockets.modifyEntry, List.getElem?_modify_eq, CodexSockets.modifyEntry,
        List.getElem?_modify_eq, he]
      rfl
    have hother {j : ℕ} (hij : i ≠ j) :
        (s.sockets.keepEntry i).entries[j]? = s.sockets.entries[j]? := by
      rw [CodexSockets.keepEntry, CodexSockets.scheduleSessionWebSocketExpiry,
        CodexSockets.modifyEntry, List.getElem?_modify_ne _ _ hij, CodexSockets.modifyEntry,
        List.getElem?_modify_ne _ _ hij]
    have hkept : Remembers
        { s with sockets := (s.sockets.keepEntry i).setRequest r .ended } (some k) := by
      refine h.frame hsound (List.length_set ..)
        (fun r' k' cachedFor hr' => (getElem?_set_ended hr' (by simp)).2)
        (fun r' k' hold hr' => .inl (getElem?_set_ended hr' (by simp)).2)
        fun j e' c he' hc hready hk => ?_
      have hij : i ≠ j := by
        rintro rfl
        cases hself.symm.trans he'
        exact hk (congrArg some hsocket.symm)
      refine ⟨e', (hother hij).symm.trans he', rfl, hc, hready.imp id ?_⟩
      rintro ⟨r', k', hold', call, hr', hrest⟩
      exact ⟨r', k', hold', call, (getElem?_set_ended hr' (by simp)).2, hrest⟩
    refine hkept.settle (fun r' hold' call hr' => (hnone rfl hr').elim)
      fun j e' c he' hsocket' hc hready => ?_
    have hij : i = j := by
      by_contra hij
      exact hij (h.sound.entries i j e e' he ((hother hij).symm.trans he')
        (hsocket.trans hsocket'.symm))
    subst hij
    cases hself.symm.trans he'
    rcases hready with hidle | ⟨r', k', hold', call, hr', hi', -⟩
    · exact hown hkeep hreusable i e c hi he hc hidle.2
    · obtain ⟨hne, hprev⟩ := getElem?_set_ended hr' (by simp)
      exact absurd (holder_unique h.sound hr he hsocket hprev hi') hne
  · rw [heq] at hsound ⊢
    refine ((h.shrink hshrinks).endRequest hsound).settle
      (fun r' hold' call hr' => (hnone hshrinks.requests hr').elim)
      fun j e' c he' hsocket' hc hready => ?_
    obtain ⟨e, he, hkey⟩ := hshrinks.entry he'
    have hsocket : e.socket = k := (congrArg CachedWebSocketConnection.socket hkey).trans hsocket'
    rcases hready with hidle | ⟨r', k', hold', call, hr', hi', -⟩
    -- an entry that is let go stays busy
    · have hbusy := congrArg CachedWebSocketConnection.busy hkey
      have hheld := (entry_of_socket h.sound hr he hsocket).2
      cases (hheld.symm.trans hbusy).trans hidle.1
    · obtain ⟨hne, hprev⟩ := getElem?_set_ended hr' (by simp)
      exact absurd (holder_unique h.sound hr he hsocket (hshrinks.requests ▸ hprev) hi') hne

/-! ### Steps -/

lemma holding?_eq_some {call : CodexCall} (h : s.holding? r = some (k, hold, call)) :
    s.sockets.requests[r]? = some (.holding k hold) ∧ s.calls[r]? = some call := by
  rw [holding?] at h
  split at h
  · next hr hcall =>
    cases h
    exact ⟨hr, hcall⟩
  · cases h

/-- The request is sent as what its input adds. -/
def SendsDelta (s : CodexRequests) (hold : SocketHold) (call : CodexCall) : Prop :=
  useCachedContext call.transport = true ∧ ∃ c, s.sockets.continuation hold = some c ∧
    (getCachedWebSocketInputDelta call.body c).isSome = true ∧ c.lastResponseId ≠ ""

/-- A request that is sent in full has no `previous_response_id`, and no answer leaves a cached
entry with what it remembered before. -/
def KeepsContinuations (s : CodexRequests) : CodexRequestLabel → Prop
  | .send request => ∀ socket hold call, s.holding? request = some (socket, hold, call) →
      call.body.previous_response_id = none ∨ s.SendsDelta hold call
  | .completed request aborted response => aborted = false →
      ∀ socket hold call, s.holding? request = some (socket, hold, call) →
      ∀ (i : ℕ) entry, hold.entry? = some i → s.sockets.entries[i]? = some entry →
      s.sockets.websocketSessionCache.get? entry.sessionId = some i →
      s.sockets.isWebSocketReusable socket = true →
      entry.continuation = none ∨
        useCachedContext call.transport = true ∧ (nonempty? response.responseId).isSome = true
  | _ => True

section
variable (h : Remembers s none) (hr : s.sockets.requests[r]? = some (.holding k hold))
include h hr

section
variable {call : CodexCall} (hcall : s.calls[r]? = some call) (hunsent : call.sent = false)
  (hown : call.body.previous_response_id = none ∨ s.SendsDelta hold call)
include hcall hunsent hown

/-- What is sent is the full request, or continues what the entry remembers. -/
lemma Remembers.incremental_send {requestBody : RequestBody}
    (hbody : requestBody = if useCachedContext call.transport then
      (buildCachedWebSocketRequestBody (s.sockets.continuation hold) call.body).2 else call.body) :
    requestBody.fields = call.body.fields ∧
      Incremental ({ fullBody := call.body, requestBody } :: s.exchanges k) := by
  have hfull (hnone : call.body.previous_response_id = none) :
      Incremental ({ fullBody := call.body, requestBody := call.body } :: s.exchanges k) := by
    refine ⟨fun responseId hid => ?_, h.incremental k⟩
    cases hnone.symm.trans hid
  split_ifs at hbody with hcached
  · rcases buildCachedWebSocketRequestBody_cases (s.sockets.continuation hold) call.body with
      ⟨heq, hno⟩ | ⟨c, delta, hc, hdelta, heq⟩
    · rw [hbody, heq]
      refine ⟨rfl, hfull (hown.resolve_right ?_)⟩
      rintro ⟨-, c, hc, hdelta, hid⟩
      exact hid (hno c hc hdelta)
    · rw [hbody, heq]
      refine ⟨rfl, fun responseId hid => ?_, h.incremental k⟩
      cases hid
      obtain ⟨i, hi, hentry⟩ := bind_eq_some_iff.mp hc
      obtain ⟨e, he, hcont⟩ := bind_eq_some_iff.mp hentry
      have hready : s.Ready i e := .inr ⟨r, k, hold, call, hr, hi, hcall, hunsent⟩
      obtain ⟨e', he', hsocket⟩ := (h.sound.requests r _ hr).2 i hi
      cases he.symm.trans he'
      have hanswered := h.ready i e c he hcont hready (by simp)
      rw [hsocket] at hanswered
      exact hanswered.continues hdelta rfl rfl rfl
  · rw [hbody]
    exact ⟨rfl, hfull (hown.resolve_right fun hdelta => hcached hdelta.1)⟩

lemma Remembers.send : Remembers (s.send r k hold call) none := by
  -- what is sent, and what the entry remembers from then on
  obtain ⟨continuation, requestBody, hbody, heq⟩ : ∃ continuation requestBody,
      requestBody = (if useCachedContext call.transport then
        (buildCachedWebSocketRequestBody (s.sockets.continuation hold) call.body).2
      else call.body) ∧ s.send r k hold call =
        { s.exchange k ({ fullBody := call.body, requestBody } :: s.exchanges k) with
          sockets := s.sockets.setContinuation hold continuation
          calls := s.calls.set r { call with sent := true } } := by
    rw [CodexRequests.send]
    split_ifs
    · exact ⟨_, _, rfl, rfl⟩
    · exact ⟨_, _, rfl, rfl⟩
  obtain ⟨hfields, hincremental⟩ := h.incremental_send hr hcall hunsent hown hbody
  have hr' := (requests_setContinuation s.sockets hold continuation).symm ▸ hr
  have hsent := (((h.allBut k).exchange hincremental).setContinuation hr continuation).setSent hr'
    call
  have hcalls : (s.calls.set r { call with sent := true })[r]? = some { call with sent := true } :=
    List.getElem?_set_self (List.getElem?_eq_some_iff.mp hcall).1
  rw [heq]
  refine hsent.settle (fun r' hold' call' hholding hcall' _ => ?_)
    fun i e c he hsocket hc hready => ?_
  · have hsame : r = r' := hsent.sound.distinct r r' _ _ k hr' hholding rfl rfl
    subst hsame
    cases hcalls.symm.trans hcall'
    refine ⟨{ fullBody := call.body, requestBody }, ?_, rfl, hfields⟩
    change (Function.update s.exchanges k _ k).head? = _
    rw [Function.update_self]
    rfl
  · rcases hready with hidle | ⟨r', k', hold', call', hholding, hi, hcall', hnot⟩
    · cases (entry_of_socket hsent.sound hr' he hsocket).2.symm.trans hidle.1
    · have hsame : r = r' := holder_unique hsent.sound hr' he hsocket hholding hi
      subst hsame
      cases hcalls.symm.trans hcall'
      cases hnot

end

/-- A holder ends whose entry remembers nothing, or what it was just answered. -/
lemma Remembers.failed : Remembers (s.failed r k hold) none :=
  ((h.allBut k).setContinuation hr none).release
    ((requests_setContinuation ..).symm ▸ hr) fun hkeep => by cases hkeep

end

lemma continuation_setContinuation {sockets : CodexSockets}
    {continuation : Option CachedWebSocketContinuationState} (hi : hold.entry? = some i)
    (he : (sockets.setContinuation hold continuation).entries[i]? = some e) :
    e.continuation = continuation := by
  rw [CodexSockets.setContinuation, hi] at he
  change (sockets.entries.modify i _)[i]? = some e at he
  rw [List.getElem?_modify_eq, map_eq_map, map_eq_some_iff] at he
  obtain ⟨e₀, -, rfl⟩ := he
  rfl

lemma Remembers.completed (h : Remembers s none) {call : CodexCall}
    (hr : s.sockets.requests[r]? = some (.holding k hold)) (hcall : s.calls[r]? = some call)
    (hsent : call.sent = true) {aborted : Bool} {response : CodexResponse}
    (hown : s.KeepsContinuations (.completed r aborted response)) :
    Remembers (s.completed r k hold call aborted response) none := by
  obtain ⟨last, hlast⟩ := h.sent r k hold call hr hcall hsent (by simp)
  have hholding : s.holding? r = some (k, hold, call) := by
    rw [holding?, hr, hcall]
  have hanswered := (h.allBut k).exchange ((h.incremental k).answerLast response)
  have hexchanges : (s.exchange k (Amide.answerLast response (s.exchanges k))).exchanges k =
      Amide.answerLast response (s.exchanges k) := Function.update_self ..
  rw [CodexRequests.completed]
  cases aborted with
  | true => exact hanswered.release hr fun hkeep => by cases hkeep
  | false =>
    rw [if_neg Bool.false_ne_true]
    split
    · next lastResponseId hcached hid =>
      refine (hanswered.setContinuation hr _).release ((requests_setContinuation ..).symm ▸ hr)
        fun _ _ i e c hi he hc _ => ?_
      cases hc.symm.trans (continuation_setContinuation hi he)
      rw [hexchanges]
      obtain ⟨hid, -⟩ := filter_eq_some_iff.mp hid
      refine ⟨_, hlast.answerLast response, ?_⟩
      rw [← hid]
    · next hno =>
      -- what the entry remembered before would be stale
      refine hanswered.release hr fun _ hreusable i e c hi he hc hcache => ?_
      rcases hown rfl k hold call hholding i e hi he hcache hreusable with hnone | ⟨hcached, hid⟩
      · cases hc.symm.trans hnone
      · obtain ⟨id, hid⟩ := isSome_iff_exists.mp hid
        exact absurd hid (hno id hcached)

/-- Connections come and go. -/
lemma Remembers.connection (h : Remembers s none) {label : CodexSocketLabel} {s' : CodexRequests}
    (hstep : s.step (.connection label) = some s') : Remembers s' none := by
  cases label with
  | acquire sessionId constructs => cases hstep
  | release request keep => cases hstep
  | connected request =>
    obtain ⟨sockets, hsockets, rfl⟩ := map_eq_some_iff.mp hstep
    rw [CodexSockets.step] at hsockets
    split at hsockets
    · next socket cachedFor hr =>
      cases hsockets
      exact h.connected hr
    · cases hsockets
  | failed request =>
    obtain ⟨sockets, hsockets, rfl⟩ := map_eq_some_iff.mp hstep
    have hsound := h.sound.step hsockets
    rw [CodexSockets.step] at hsockets
    split at hsockets
    · next socket cachedFor hr =>
      cases hsockets
      exact (h.shrink (CodexSockets.shrinks_setReadyState _ socket .closed)).endRequest hsound
    · cases hsockets
  | idleTimeout i =>
    obtain ⟨sockets, hsockets, rfl⟩ := map_eq_some_iff.mp hstep
    rw [CodexSockets.step] at hsockets
    split at hsockets
    · split_ifs at hsockets
      cases hsockets
      exact h.shrink (CodexSockets.shrinks_idleTimeout ..)
    · cases hsockets
  | socketClosed socket =>
    obtain ⟨sockets, hsockets, rfl⟩ := map_eq_some_iff.mp hstep
    rw [CodexSockets.step] at hsockets
    split_ifs at hsockets
    cases hsockets
    exact h.shrink (CodexSockets.shrinks_setReadyState _ socket .closed)
  | closeSessions sessionId =>
    cases hstep
    exact h.shrink (CodexSockets.shrinks_closeSessions _ sessionId)

lemma Remembers.step (h : Remembers s none) {label : CodexRequestLabel} {s' : CodexRequests}
    (hstep : s.step label = some s') (hkeeps : s.KeepsContinuations label) :
    Remembers s' none := by
  cases label with
  | call sessionId constructs body transport =>
    cases hstep
    exact h.call sessionId constructs body transport
  | send request =>
    rw [CodexRequests.step] at hstep
    split at hstep
    · next socket hold call hholding =>
      split_ifs at hstep with hsent
      cases hstep
      obtain ⟨hr, hcall⟩ := holding?_eq_some hholding
      exact h.send hr hcall (Bool.not_eq_true _ ▸ hsent) (hkeeps socket hold call hholding)
    · cases hstep
  | failed request =>
    rw [CodexRequests.step] at hstep
    split at hstep
    · next socket hold call hholding =>
      cases hstep
      exact h.failed (holding?_eq_some hholding).1
    · cases hstep
  | completed request aborted response =>
    rw [CodexRequests.step] at hstep
    split at hstep
    · next socket hold call hholding =>
      split_ifs at hstep with hsent
      cases hstep
      obtain ⟨hr, hcall⟩ := holding?_eq_some hholding
      exact h.completed hr hcall hsent hkeeps
    · cases hstep
  | connection label => exact h.connection hstep

lemma remembers_start (reportsReadyState : Bool) :
    Remembers { sockets := { reportsReadyState } } none := by
  refine ⟨CodexSockets.sound_start reportsReadyState, rfl, fun _ => trivial,
    fun r k cachedFor call hr => ?_, fun r k hold call hr => ?_, fun i e c he => ?_⟩
  · cases hr
  · cases hr
  · cases he

/-- **Incremental requests mean the full request**, in every run whose steps keep what entries
remember true. -/
theorem incremental_requests {reportsReadyState : Bool} {labels : List CodexRequestLabel}
    {s : CodexRequests} (hrun : (codexRequestMachine.guard KeepsContinuations).Run
      { sockets := { reportsReadyState } } labels s) (k : ℕ) : Incremental (s.exchanges k) :=
  (hrun.invariant (I := fun s : CodexRequests => s.Remembers none)
    (remembers_start reportsReadyState) fun _ _ _ h hstep => h.step hstep.1 hstep.2).incremental k

/-- A request and the next one, which continues it. -/
def continued : List CodexRequestLabel :=
  [.call (some "s") true { fields := [], input := some [.null] } (some .auto),
    .connection (.connected 0), .send 0, .completed 0 false ⟨some "r", [.bool true]⟩,
    .call (some "s") true { fields := [], input := some [.null, .bool true, .null] } (some .auto),
    .send 1]

/-- It sends only what it adds. -/
theorem incremental_requests_continued :
    ∃ s, (codexRequestMachine.guard KeepsContinuations).Run { sockets := {} } continued s ∧
      ((s.exchanges 0).head?.bind fun next => next.requestBody.input) = some [.null] ∧
      Incremental (s.exchanges 0) := by
  have hsnoc {labels : List CodexRequestLabel} {s₁ s₂ : CodexRequests} (l : CodexRequestLabel)
      (h : (codexRequestMachine.guard KeepsContinuations).Run { sockets := {} } labels s₁)
      (hstep : s₁.step l = some s₂) (hkeeps : s₁.KeepsContinuations l) :
      (codexRequestMachine.guard KeepsContinuations).Run { sockets := {} } (labels ++ [l]) s₂ :=
    h.snoc ⟨hstep, hkeeps⟩
  have hsent := hsnoc (.send 0) (hsnoc (.connection (.connected 0))
    (hsnoc (.call (some "s") true { fields := [], input := some [.null] } (some .auto)) .nil rfl
      trivial) rfl trivial) rfl (fun _ _ _ hholding => by cases hholding; exact .inl rfl)
  have hcompleted := hsnoc (.completed 0 false ⟨some "r", [.bool true]⟩) hsent rfl
    (fun _ _ _ _ hholding _ _ _ _ _ _ => by cases hholding; exact .inr ⟨rfl, rfl⟩)
  have hrun := hsnoc (.send 1) (hsnoc (.call (some "s") true
    { fields := [], input := some [.null, .bool true, .null] } (some .auto)) hcompleted rfl
      trivial) rfl (fun _ _ _ hholding => by cases hholding; exact .inl rfl)
  exact ⟨_, hrun, rfl, incremental_requests hrun 0⟩

/-- A cached request, a plain one, and a cached one again. -/
def plainBetween : List CodexRequestLabel :=
  [.call (some "s") true { fields := [] } (some .websocketCached), .connection (.connected 0),
    .send 0, .completed 0 false ⟨some "r1", []⟩,
    .call (some "s") true { fields := [] } (some .websocket), .send 1,
    .completed 1 false ⟨some "r2", []⟩,
    .call (some "s") true { fields := [] } (some .websocketCached), .send 2]

/-- The last one names the response to the first. -/
theorem not_incremental_plainBetween :
    ∃ s, codexRequestMachine.Run { sockets := {} } plainBetween s ∧
      ¬ Incremental (s.exchanges 0) := by
  obtain ⟨s, hs⟩ : ∃ s, plainBetween.foldlM step { sockets := {} } = some s := ⟨_, rfl⟩
  have hrun : codexRequestMachine.Run { sockets := {} } plainBetween s :=
    Machine.Run.of_foldlM (fun _ _ _ h => h) hs
  cases hs
  refine ⟨_, hrun, fun hincremental => ?_⟩
  obtain ⟨last, hlast, hcontinues⟩ := hincremental.1 "r1" rfl
  cases hlast
  obtain ⟨items, hresponse, -⟩ := hcontinues.input
  exact absurd hresponse (by simp)

end CodexRequests

end Amide
