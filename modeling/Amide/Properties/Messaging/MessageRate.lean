import Amide.Construction.Messaging.RateLimiter
import Mathlib.Data.Set.Finite.Lattice
import Mathlib.Tactic.Positivity

/-!
# The rate limit is a token bucket

A bucket has at most the tokens that it had and those whose time has come since (`refill_spec`),
so the calls that are accepted up to a time are no more than both (`accepted_le`).  A window of
time begins with a full bucket at most, and with less than the time of one token on its clock
(`accepted_window_le`).
-/

namespace Amide

namespace AgentSessionMessageRateLimiter

variable {options : AgentSessionMessageRateLimiterOptions}

/-- The tokens are within the capacity, and were counted by now. -/
structure Valid (options : AgentSessionMessageRateLimiterOptions) (now : ℚ)
    (bucket : RateBucket) : Prop where
  nonneg : 0 ≤ bucket.tokens
  le_capacity : bucket.tokens ≤ options.capacity
  updatedAt_le : bucket.updatedAt ≤ now

variable {now : ℚ} {bucket : RateBucket}

/-- Whole tokens come in, and less than the time of one is left. -/
lemma refill_spec (hrefill : 1 ≤ options.refillMs) (hbucket : Valid options now bucket) :
    ∃ k : ℤ, 0 ≤ k ∧ refill options now bucket =
        ⟨min options.capacity (bucket.tokens + k), bucket.updatedAt + k * options.refillMs⟩ ∧
      bucket.updatedAt + k * options.refillMs ≤ now ∧
      now < bucket.updatedAt + k * options.refillMs + options.refillMs := by
  have hpos : (0 : ℚ) < options.refillMs := by exact_mod_cast hrefill
  have helapsed : max 0 (now - bucket.updatedAt) = now - bucket.updatedAt :=
    max_eq_right (sub_nonneg.mpr hbucket.updatedAt_le)
  have hnonneg : 0 ≤ ⌊(now - bucket.updatedAt) / options.refillMs⌋ := by
    refine Int.floor_nonneg.mpr (div_nonneg ?_ hpos.le)
    exact sub_nonneg.mpr hbucket.updatedAt_le
  have hle := Int.floor_le ((now - bucket.updatedAt) / options.refillMs)
  have hlt := Int.lt_floor_add_one ((now - bucket.updatedAt) / options.refillMs)
  rw [le_div_iff₀ hpos] at hle
  rw [div_lt_iff₀ hpos, add_mul, one_mul] at hlt
  refine ⟨⌊(now - bucket.updatedAt) / options.refillMs⌋, hnonneg, ?_, by linarith, by linarith⟩
  rw [refill, helapsed]
  split_ifs with hrefilled
  · rfl
  · have hzero : ⌊(now - bucket.updatedAt) / options.refillMs⌋ = 0 :=
      le_antisymm (not_lt.mp hrefilled) hnonneg
    rw [hzero, add_zero, min_eq_right hbucket.le_capacity, Int.cast_zero, zero_mul, add_zero]

lemma Valid.later {later : ℚ} (hbucket : Valid options now bucket) (hle : now ≤ later) :
    Valid options later bucket :=
  ⟨hbucket.nonneg, hbucket.le_capacity, hbucket.updatedAt_le.trans hle⟩

lemma valid_full (hcap : 1 ≤ options.capacity) (now : ℚ) :
    Valid options now { tokens := options.capacity, updatedAt := now } :=
  ⟨by dsimp only; omega, le_rfl, le_rfl⟩

lemma Valid.refill (hrefill : 1 ≤ options.refillMs) (hcap : 1 ≤ options.capacity)
    (hbucket : Valid options now bucket) : Valid options now (refill options now bucket) := by
  obtain ⟨k, hk, heq, hle, -⟩ := refill_spec hrefill hbucket
  have hnonneg := hbucket.nonneg
  rw [heq]
  exact ⟨by dsimp only; omega, min_le_left _ _, hle⟩

/-! ## One call -/

/-- The bucket that a call finds. -/
def bucketOf (options : AgentSessionMessageRateLimiterOptions) (key : String) (now : ℚ)
    (limiter : AgentSessionMessageRateLimiter) : RateBucket :=
  (limiter.buckets.get? key).getD { tokens := options.capacity, updatedAt := now }

/-- All buckets are valid. -/
def Sound (options : AgentSessionMessageRateLimiterOptions) (now : ℚ)
    (limiter : AgentSessionMessageRateLimiter) : Prop :=
  ∀ key bucket, limiter.buckets.get? key = some bucket → Valid options now bucket

section Call

variable {limiter : AgentSessionMessageRateLimiter} {key : String} {now : ℚ}

lemma Sound.bucketOf (h : Sound options now limiter) (hcap : 1 ≤ options.capacity)
    (key : String) : Valid options now (bucketOf options key now limiter) := by
  rw [AgentSessionMessageRateLimiter.bucketOf]
  cases hbucket : limiter.buckets.get? key with
  | none => exact valid_full hcap now
  | some bucket => exact h key bucket hbucket

/-- A call takes a token from the bucket of its key, if there is one after the refill. -/
lemma tryConsume_cases (options : AgentSessionMessageRateLimiterOptions) (key : String) (now : ℚ)
    (limiter : AgentSessionMessageRateLimiter) :
    let bucket := refill options now (bucketOf options key now limiter)
    (bucket.tokens ≤ 0 ∧ tryConsume options key now limiter =
        (.retry (max 1 (bucket.updatedAt + options.refillMs - now)),
          { buckets := limiter.buckets.set key bucket })) ∨
      (0 < bucket.tokens ∧ tryConsume options key now limiter =
        (.ok, { buckets := limiter.buckets.set key ⟨bucket.tokens - 1, bucket.updatedAt⟩ })) := by
  rw [tryConsume, ← bucketOf]
  split_ifs with hempty
  · exact .inl ⟨hempty, rfl⟩
  · exact .inr ⟨not_le.mp hempty, rfl⟩

lemma Sound.tryConsume (h : Sound options now limiter) (hcap : 1 ≤ options.capacity)
    (hrefill : 1 ≤ options.refillMs) (key : String) :
    Sound options now (tryConsume options key now limiter).2 := by
  have hvalid := (h.bucketOf hcap key).refill hrefill hcap
  intro key' bucket' hbucket'
  rcases tryConsume_cases options key now limiter with ⟨-, heq⟩ | ⟨hpos, heq⟩
  · rw [heq, JsMap.get?_set] at hbucket'
    split_ifs at hbucket'
    · exact Option.some.inj hbucket' ▸ hvalid
    · exact h key' bucket' hbucket'
  · rw [heq, JsMap.get?_set] at hbucket'
    split_ifs at hbucket'
    · rw [← Option.some.inj hbucket']
      refine ⟨by dsimp only; omega, ?_, hvalid.updatedAt_le⟩
      have hle := hvalid.le_capacity
      dsimp only
      omega
    · exact h key' bucket' hbucket'

lemma get?_tryConsume_of_ne {key' : String} (hne : key ≠ key') :
    (AgentSessionMessageRateLimiter.tryConsume options key now limiter).2.buckets.get? key' =
      limiter.buckets.get? key' := by
  rcases tryConsume_cases options key now limiter with ⟨-, heq⟩ | ⟨-, heq⟩
  · rw [heq, JsMap.get?_set, if_neg hne]
  · rw [heq, JsMap.get?_set, if_neg hne]

/-- The tokens that come in and the one that an accepted call takes are counted. -/
lemma exists_tryConsume (h : Sound options now limiter) (hcap : 1 ≤ options.capacity)
    (hrefill : 1 ≤ options.refillMs) (key : String) :
    ∃ (k : ℤ) (bucket : RateBucket),
      (AgentSessionMessageRateLimiter.tryConsume options key now limiter).2.buckets.get? key =
        some bucket ∧
      bucket.tokens +
          (if (AgentSessionMessageRateLimiter.tryConsume options key now limiter).1 = .ok then 1
            else 0) =
        min options.capacity ((bucketOf options key now limiter).tokens + k) ∧
      bucket.updatedAt = (bucketOf options key now limiter).updatedAt + k * options.refillMs ∧
      bucket.updatedAt ≤ now ∧ now < bucket.updatedAt + options.refillMs := by
  obtain ⟨k, -, hrefilled, hle, hlt⟩ := refill_spec hrefill (h.bucketOf hcap key)
  have hcases := tryConsume_cases options key now limiter
  rw [hrefilled] at hcases
  rcases hcases with ⟨-, heq⟩ | ⟨-, heq⟩
  · rw [heq]
    exact ⟨k, _, JsMap.get?_set_self _ _ _, by simp, rfl, hle, hlt⟩
  · rw [heq]
    exact ⟨k, _, JsMap.get?_set_self _ _ _, by simp, rfl, hle, hlt⟩

end Call

/-! ## Calls in a window of time -/

/-- The call was accepted, for the key and from one time to the other. -/
def AcceptedIn (key : String) (first last : ℚ) (outcome : ConsumeCall × Consumption) : Prop :=
  outcome.1.key = key ∧ first ≤ outcome.1.now ∧ outcome.1.now ≤ last ∧ outcome.2 = .ok

instance (key : String) (first last : ℚ) : DecidablePred (AcceptedIn key first last) :=
  fun _ => inferInstanceAs (Decidable (_ ∧ _))

/-- The calls of a key that are accepted from one time to the other. -/
def accepted (options : AgentSessionMessageRateLimiterOptions) (key : String) (first last : ℚ)
    (limiter : AgentSessionMessageRateLimiter) (calls : List ConsumeCall) : ℕ :=
  (outcomes options limiter calls).countP (AcceptedIn key first last)

section Window

variable {key : String} {first last : ℚ} {limiter : AgentSessionMessageRateLimiter}
  {call : ConsumeCall} {calls : List ConsumeCall}

lemma accepted_cons : accepted options key first last limiter (call :: calls) =
    accepted options key first last (tryConsume options call.key call.now limiter).2 calls +
      if AcceptedIn key first last (call, (tryConsume options call.key call.now limiter).1)
        then 1 else 0 := by
  rw [accepted, outcomes, List.countP_cons]
  simp only [decide_eq_true_eq]
  rfl

lemma accepted_eq_zero (hlate : ∀ call ∈ calls, last < call.now) :
    accepted options key first last limiter calls = 0 := by
  induction calls generalizing limiter with
  | nil => rfl
  | cons call calls ih =>
    obtain ⟨hcall, hrest⟩ := List.forall_mem_cons.mp hlate
    rw [accepted_cons, ih hrest, if_neg fun h => absurd h.2.2.1 (not_le.mpr hcall)]

lemma floor_sub_refilled (hrefill : 1 ≤ options.refillMs) (elapsed : ℚ) (k : ℤ) :
    ⌊(elapsed - k * options.refillMs) / options.refillMs⌋ = ⌊elapsed / options.refillMs⌋ - k := by
  have hne : (options.refillMs : ℚ) ≠ 0 := by
    have hpos : (0 : ℚ) < options.refillMs := by exact_mod_cast hrefill
    exact hpos.ne'
  rw [sub_div, mul_div_cancel_right₀ _ hne, Int.floor_sub_intCast]

variable (options key first last limiter call calls) in
lemma accepted_cons_le : (accepted options key first last limiter (call :: calls) : ℤ) ≤
    accepted options key first last (tryConsume options call.key call.now limiter).2 calls +
      if (tryConsume options call.key call.now limiter).1 = .ok then 1 else 0 := by
  rw [accepted_cons]
  split_ifs with haccepted hok
  · simp
  · exact absurd haccepted.2.2.2 hok
  · simp
  · simp

lemma accepted_cons_of_ne (hne : call.key ≠ key) :
    accepted options key first last limiter (call :: calls) =
      accepted options key first last (tryConsume options call.key call.now limiter).2 calls := by
  rw [accepted_cons, if_neg fun h => hne h.1, add_zero]

lemma accepted_cons_of_late (hlate : last < call.now)
    (hfirst : ∀ next ∈ calls, call.now ≤ next.now) :
    accepted options key first last limiter (call :: calls) = 0 :=
  accepted_eq_zero (List.forall_mem_cons.mpr
    ⟨hlate, fun next hmem => hlate.trans_le (hfirst next hmem)⟩)

/-- The calls that are accepted take the tokens of the bucket and those that come in. -/
lemma accepted_le (hcap : 1 ≤ options.capacity) (hrefill : 1 ≤ options.refillMs)
    (hbucket : limiter.buckets.get? key = some bucket) (hsound : Sound options now limiter)
    (hlast : bucket.updatedAt ≤ last)
    (hsorted : calls.Pairwise fun call next => call.now ≤ next.now)
    (hlater : ∀ call ∈ calls, now ≤ call.now) :
    (accepted options key first last limiter calls : ℤ) ≤
      bucket.tokens + ⌊(last - bucket.updatedAt) / options.refillMs⌋ := by
  have hpos : (0 : ℚ) < options.refillMs := by exact_mod_cast hrefill
  have hnonneg {bucket : RateBucket} {now : ℚ} (hbucket : Valid options now bucket)
      (hlast : bucket.updatedAt ≤ last) :
      0 ≤ bucket.tokens + ⌊(last - bucket.updatedAt) / options.refillMs⌋ :=
    add_nonneg hbucket.nonneg
      (Int.floor_nonneg.mpr (div_nonneg (sub_nonneg.mpr hlast) hpos.le))
  induction calls generalizing limiter bucket now with
  | nil => exact hnonneg (hsound key bucket hbucket) hlast
  | cons call calls ih =>
    obtain ⟨hfirst, hsorted⟩ := List.pairwise_cons.mp hsorted
    obtain ⟨hcall, -⟩ := List.forall_mem_cons.mp hlater
    have hsound' : Sound options call.now limiter := fun key' bucket' h =>
      (hsound key' bucket' h).later hcall
    have hnext := hsound'.tryConsume hcap hrefill call.key
    rcases eq_or_ne call.key key with rfl | hne
    · rcases lt_or_ge last call.now with hlate | hin
      · rw [accepted_cons_of_late hlate hfirst]
        exact hnonneg (hsound call.key bucket hbucket) hlast
      · have hfound : bucketOf options call.key call.now limiter = bucket := by
          rw [bucketOf, hbucket, Option.getD_some]
        obtain ⟨k, bucket', hbucket', htokens, hupdated, hle, -⟩ :=
          exists_tryConsume hsound' hcap hrefill call.key
        rw [hfound] at htokens hupdated
        have hrest := ih hbucket' hnext (hle.trans hin) hsorted hfirst
        have hfloor := floor_sub_refilled hrefill (last - bucket.updatedAt) k
        rw [sub_sub, ← hupdated] at hfloor
        have hcons := accepted_cons_le options call.key first last limiter call calls
        omega
    · rw [accepted_cons_of_ne hne]
      exact ih ((get?_tryConsume_of_ne hne).trans hbucket) hnext hlast hsorted hfirst

/-- In a window of time no more calls are accepted than a full bucket, the tokens of that time and
one more allow. -/
lemma accepted_window_le (hcap : 1 ≤ options.capacity) (hrefill : 1 ≤ options.refillMs)
    {width : ℚ} (hwidth : 0 ≤ width) (hsound : Sound options now limiter)
    (hsorted : calls.Pairwise fun call next => call.now ≤ next.now)
    (hlater : ∀ call ∈ calls, now ≤ call.now) :
    (accepted options key first (first + width) limiter calls : ℤ) ≤
      options.capacity + ⌊width / options.refillMs⌋ + 1 := by
  have hpos : (0 : ℚ) < options.refillMs := by exact_mod_cast hrefill
  have hnonneg : 0 ≤ ⌊width / options.refillMs⌋ := Int.floor_nonneg.mpr (div_nonneg hwidth hpos.le)
  induction calls generalizing limiter now with
  | nil =>
    show (0 : ℤ) ≤ _
    omega
  | cons call calls ih =>
    obtain ⟨hfirst, hsorted⟩ := List.pairwise_cons.mp hsorted
    obtain ⟨hcall, -⟩ := List.forall_mem_cons.mp hlater
    have hsound' : Sound options call.now limiter := fun key' bucket' h =>
      (hsound key' bucket' h).later hcall
    have hnext := hsound'.tryConsume hcap hrefill call.key
    rcases eq_or_ne call.key key with rfl | hne
    · rcases lt_or_ge call.now first with hearly | hin
      · have hnot : ¬ AcceptedIn call.key first (first + width)
            (call, (tryConsume options call.key call.now limiter).1) := fun h =>
          absurd h.2.1 (not_le.mpr hearly)
        rw [accepted_cons, if_neg hnot, add_zero]
        exact ih hnext hsorted hfirst
      · rcases lt_or_ge (first + width) call.now with hlate | hin'
        · rw [accepted_cons_of_late hlate hfirst]
          omega
        · -- the first call of the window: its bucket is not more than full
          obtain ⟨k, bucket', hbucket', htokens, -, hle, hlt⟩ :=
            exists_tryConsume hsound' hcap hrefill call.key
          have hrest : (accepted options call.key first (first + width) _ calls : ℤ) ≤ _ :=
            accepted_le hcap hrefill hbucket' hnext (hle.trans hin') hsorted hfirst
          have hfloor : ⌊(first + width - bucket'.updatedAt) / options.refillMs⌋ ≤
              ⌊width / options.refillMs⌋ + 1 := by
            rw [← Int.floor_add_one]
            apply Int.floor_mono
            rw [div_le_iff₀ hpos, add_mul, div_mul_cancel₀ _ hpos.ne']
            linarith
          have hcons := accepted_cons_le options call.key first (first + width) limiter call calls
          omega
    · rw [accepted_cons_of_ne hne]
      exact ih hnext hsorted hfirst

end Window

/-! ## Calls that are rejected -/

section Retry

variable {limiter : AgentSessionMessageRateLimiter} {key : String} {now retryAfterMs : ℚ}
  {call : ConsumeCall} {calls : List ConsumeCall}

lemma get?_after_of_ne (hne : ∀ call ∈ calls, call.key ≠ key) :
    (after options limiter calls).buckets.get? key = limiter.buckets.get? key := by
  induction calls generalizing limiter with
  | nil => rfl
  | cons call calls ih =>
    obtain ⟨hcall, hrest⟩ := List.forall_mem_cons.mp hne
    exact (ih hrest).trans (get?_tryConsume_of_ne hcall)

section
variable (h : Sound options now limiter) (hcap : 1 ≤ options.capacity)
  (hrefill : 1 ≤ options.refillMs)
include h hcap hrefill

lemma Sound.after (hsorted : calls.Pairwise fun call next => call.now ≤ next.now)
    (hlater : ∀ call ∈ calls, now ≤ call.now) {last : ℚ} (hnow : now ≤ last)
    (hlast : ∀ call ∈ calls, call.now ≤ last) :
    Sound options last (after options limiter calls) := by
  induction calls generalizing limiter now with
  | nil => exact fun key bucket hbucket => (h key bucket hbucket).later hnow
  | cons call calls ih =>
    obtain ⟨hfirst, hsorted⟩ := List.pairwise_cons.mp hsorted
    obtain ⟨hcall, -⟩ := List.forall_mem_cons.mp hlater
    obtain ⟨hcall', hlast⟩ := List.forall_mem_cons.mp hlast
    have h' : Sound options call.now limiter := fun key bucket hbucket =>
      (h key bucket hbucket).later hcall
    exact ih (h'.tryConsume hcap hrefill call.key) hsorted hfirst hcall' hlast

/-- A call that is made when it was told to is accepted. -/
lemma accepted_of_retry (hretry : (tryConsume options key now limiter).1 = .retry retryAfterMs)
    (hne : ∀ call ∈ calls, call.key ≠ key) {next : ℚ} (hnext : now + retryAfterMs ≤ next) :
    (tryConsume options key next
      (after options (tryConsume options key now limiter).2 calls)).1 = .ok := by
  have hpos : (0 : ℚ) < options.refillMs := by exact_mod_cast hrefill
  have hvalid := (h.bucketOf hcap key).refill hrefill hcap
  rcases tryConsume_cases options key now limiter with ⟨-, heq⟩ | ⟨-, heq⟩
  · rw [heq] at hretry
    obtain rfl := Consumption.retry.inj hretry
    set bucket := refill options now (bucketOf options key now limiter)
    have hbucket : (after options (tryConsume options key now limiter).2 calls).buckets.get? key =
        some bucket := by
      rw [get?_after_of_ne hne, heq, JsMap.get?_set_self]
    have hwait := le_max_left 1 (bucket.updatedAt + options.refillMs - now)
    have hdue := le_max_right 1 (bucket.updatedAt + options.refillMs - now)
    obtain ⟨k, -, hrefilled, -, hlt⟩ :=
      refill_spec hrefill (hvalid.later (by linarith : now ≤ next))
    -- a token's time has passed
    have hk : 0 < k := by
      have hmul : 0 < (k : ℚ) * options.refillMs := by linarith
      exact_mod_cast pos_of_mul_pos_left hmul hpos.le
    have hcases := tryConsume_cases options key next
      (after options (tryConsume options key now limiter).2 calls)
    rw [bucketOf, hbucket, Option.getD_some, hrefilled] at hcases
    rcases hcases with ⟨hempty, -⟩ | ⟨-, hok⟩
    · have hnonneg := hvalid.nonneg
      dsimp only at hempty hnonneg
      omega
    · rw [hok]
  · rw [heq] at hretry
    cases hretry

end

end Retry

end AgentSessionMessageRateLimiter

open AgentSessionMessageRateLimiter in
/-- After any calls in the order of time, a bucket has no fewer than no tokens and no more than
its capacity; the calls of a key that are accepted in a window of time are no more than the
capacity, the tokens of that time and one; and of a call that is rejected and the next one for its
key the second is accepted if it is not made before it was told to. -/
theorem message_rate_limited {options : AgentSessionMessageRateLimiterOptions}
    (hcapacity : 1 ≤ options.capacity) (hrefill : 1 ≤ options.refillMs) {calls : List ConsumeCall}
    (hsorted : calls.Pairwise fun call next => call.now ≤ next.now) :
    (∀ key bucket, (after options {} calls).buckets.get? key = some bucket →
        0 ≤ bucket.tokens ∧ bucket.tokens ≤ options.capacity) ∧
      (∀ key first width, 0 ≤ width → (((outcomes options {} calls).countP
            (AcceptedIn key first (first + width)) : ℕ) : ℤ) ≤
          options.capacity + ⌊width / options.refillMs⌋ + 1) ∧
      ∀ before call between next later retryAfterMs,
        calls = before ++ call :: between ++ next :: later →
        (tryConsume options call.key call.now (after options {} before)).1 = .retry retryAfterMs →
        next.key = call.key → (∀ other ∈ between, other.key ≠ call.key) →
        call.now + retryAfterMs ≤ next.now →
        (tryConsume options next.key next.now
          (after options {} (before ++ call :: between))).1 = .ok := by
  have hempty (now : ℚ) : Sound options now {} := fun key bucket hbucket => nomatch hbucket
  obtain ⟨first, hfirst⟩ := (calls.map ConsumeCall.now).toFinset.bddBelow
  obtain ⟨last, hlast⟩ := (calls.map ConsumeCall.now).toFinset.bddAbove
  have hmem {call : ConsumeCall} (hcall : call ∈ calls) :
      call.now ∈ (calls.map ConsumeCall.now).toFinset :=
    List.mem_toFinset.mpr (List.mem_map_of_mem hcall)
  have hlater : ∀ call ∈ calls, first ≤ call.now := fun call hcall => hfirst (hmem hcall)
  refine ⟨fun key bucket hbucket => ?_, fun key start width hwidth => ?_, ?_⟩
  · have hsound := (hempty first).after hcapacity hrefill hsorted hlater (le_max_left first last)
      fun call hcall => (hlast (hmem hcall)).trans (le_max_right first last)
    exact ⟨(hsound key bucket hbucket).nonneg, (hsound key bucket hbucket).le_capacity⟩
  · exact accepted_window_le hcapacity hrefill hwidth (hempty first) hsorted hlater
  · rintro before call between next later retryAfterMs rfl hretry hkey hne hnext
    rw [List.append_assoc, List.pairwise_append] at hsorted
    have hsound : Sound options call.now (after options {} before) := by
      refine (hempty first).after hcapacity hrefill hsorted.1 ?_ ?_ ?_
      · exact fun other hother => hlater other (by simp [hother])
      · exact hlater call (by simp)
      · exact fun other hother => hsorted.2.2 other hother call List.mem_cons_self
    have hok := accepted_of_retry hsound hcapacity hrefill hretry hne hnext
    rwa [hkey, after, List.foldl_append]

/-- A bucket of one token, which the second of three calls finds empty. -/
theorem message_rate_limited_three :
    let options : AgentSessionMessageRateLimiterOptions := { capacity := 1, refillMs := 10 }
    let calls : List ConsumeCall := [⟨"a->b", 0⟩, ⟨"a->b", 7⟩, ⟨"a->b", 10⟩]
    (AgentSessionMessageRateLimiter.outcomes options {} calls).map Prod.snd = [.ok, .retry 3, .ok] ∧
      (((AgentSessionMessageRateLimiter.outcomes options {} calls).countP
        (AgentSessionMessageRateLimiter.AcceptedIn "a->b" 0 (0 + 9)) : ℕ) : ℤ) ≤
          1 + ⌊(9 : ℚ) / (10 : ℤ)⌋ + 1 := by
  intro options calls
  refine ⟨by decide +kernel, ?_⟩
  have hsorted : calls.Pairwise fun call next => call.now ≤ next.now := by decide +kernel
  exact (message_rate_limited (by decide) (by decide) hsorted).2.1 "a->b" 0 9 (by norm_num)

end Amide
