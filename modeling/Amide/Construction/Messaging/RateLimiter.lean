import Amide.Framework.JsMap
import Mathlib.Data.Rat.Floor

/-!
# Rate limit of agent messages (`core/agent-messages.ts`)

An `AgentSessionMessageRateLimiter` keeps a bucket of tokens for each pair of sessions.  A bucket
is refilled when it is used, by whole tokens: what is left of the time since `updatedAt` counts
for the next refill.

A call is given the time that `now()` returns.  The program's clock is `Date.now`: whole
milliseconds, on which rationals and doubles agree; of the fractions that another clock might give,
a double would round some.
-/

namespace Amide

structure AgentSessionMessageRateLimiterOptions where
  capacity : ℤ := 3
  refillMs : ℤ := 1000

structure RateBucket where
  tokens : ℤ
  updatedAt : ℚ

/-- What `tryConsume` returns. -/
inductive Consumption
  | ok
  | retry (retryAfterMs : ℚ)
  deriving DecidableEq

structure AgentSessionMessageRateLimiter where
  buckets : JsMap String RateBucket := .empty

namespace AgentSessionMessageRateLimiter

variable (options : AgentSessionMessageRateLimiterOptions)

/-- The bucket with the tokens that have come in. -/
def refill (now : ℚ) (bucket : RateBucket) : RateBucket :=
  let elapsed := max 0 (now - bucket.updatedAt)
  let refilledTokens := ⌊elapsed / options.refillMs⌋
  if refilledTokens > 0 then
    { tokens := min options.capacity (bucket.tokens + refilledTokens)
      updatedAt := bucket.updatedAt + refilledTokens * options.refillMs }
  else bucket

def tryConsume (key : String) (now : ℚ) (limiter : AgentSessionMessageRateLimiter) :
    Consumption × AgentSessionMessageRateLimiter :=
  let bucket := (limiter.buckets.get? key).getD { tokens := options.capacity, updatedAt := now }
  let bucket := refill options now bucket
  if bucket.tokens ≤ 0 then
    (.retry (max 1 (bucket.updatedAt + options.refillMs - now)),
      { buckets := limiter.buckets.set key bucket })
  else (.ok, { buckets := limiter.buckets.set key { bucket with tokens := bucket.tokens - 1 } })

end AgentSessionMessageRateLimiter

/-! ## One call after another -/

/-- A call of `tryConsume`, and the time it is made. -/
structure ConsumeCall where
  key : String
  now : ℚ

namespace AgentSessionMessageRateLimiter

variable (options : AgentSessionMessageRateLimiterOptions)

/-- What each call returns. -/
def outcomes (limiter : AgentSessionMessageRateLimiter) :
    List ConsumeCall → List (ConsumeCall × Consumption)
  | [] => []
  | call :: calls =>
    let (consumption, limiter) := tryConsume options call.key call.now limiter
    (call, consumption) :: outcomes limiter calls

/-- The limiter that the calls leave. -/
def after (limiter : AgentSessionMessageRateLimiter) (calls : List ConsumeCall) :
    AgentSessionMessageRateLimiter :=
  calls.foldl (fun limiter call => (tryConsume options call.key call.now limiter).2) limiter

end AgentSessionMessageRateLimiter

end Amide
