import KnowledgeDesk.Lib.Dict
import Mathlib.Data.Rat.Defs
import Mathlib.Algebra.Order.Ring.Rat

/-!
# The rate limiter

`ratelimit.TokenBucketLimiter`, with the clock's reading as an argument. Seconds and tokens are exact.
-/

namespace KnowledgeDesk

/-- The settings the limiter reads. -/
structure RateSettings where
  rateBurst : Int := 5
  ratePerMin : Int := 30

/-- `TokenBucketLimiter._buckets`: the tokens of a key and the time they were counted at. -/
abbrev Buckets := Dict String (ℚ × ℚ)

/-- `_EVICT_AFTER_SECONDS`. -/
def EVICT_AFTER_SECONDS : ℚ := 3600

/-- `_evict_idle`. -/
def evictIdle (now : ℚ) (buckets : Buckets) : Buckets :=
  let cutoff := now - EVICT_AFTER_SECONDS
  buckets.keep fun b => !decide (b.2 < cutoff)

/-- `check` up to its lookup: evict where there are many buckets. -/
def evictIfMany (now : ℚ) (buckets : Buckets) : Buckets :=
  if 1000 < buckets.size then evictIdle now buckets else buckets

/-- `check` from its lookup on: consume one token for the key. The outcome is whether the call is
allowed, and after how many seconds to retry. -/
def consume (burst : Int) (refillPerSec : ℚ) (key : String) (now : ℚ) (buckets : Buckets) :
    (Bool × ℚ) × Buckets :=
  let (tokens, last) := (buckets.get? key).getD (burst, now)
  let tokens := min (burst : ℚ) (tokens + (now - last) * refillPerSec)
  if 1 ≤ tokens then ((true, 0), buckets.set key (tokens - 1, now))
  else
    let retry := if 0 < refillPerSec then (1 - tokens) / refillPerSec else 60
    ((false, retry), buckets.set key (tokens, now))

/-- `TokenBucketLimiter.check`. -/
def check (settings : RateSettings) (key : String) (burst perMin : Option Int) (now : ℚ)
    (buckets : Buckets) : (Bool × ℚ) × Buckets :=
  let burst := burst.getD settings.rateBurst
  let refillPerSec : ℚ := (perMin.getD settings.ratePerMin : Int) / 60
  consume burst refillPerSec key now (evictIfMany now buckets)

end KnowledgeDesk
