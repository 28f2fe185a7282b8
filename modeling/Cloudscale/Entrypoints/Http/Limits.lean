import Cloudscale.Lib.Tables
import Cloudscale.Lib.TokenBucket
import Mathlib.Data.List.Sort

/-!
# The in-process rate limiter

`tryAcquire` with the reading of the clock that it takes, on the buckets of its keys in
the order in which they were inserted.  Readings and tokens are elements of an ordered
field: the rounding of floating point numbers is left out.
-/

namespace Cloudscale

open Tables TokenBucket

/-- What both limiters check of their argument. -/
structure RateLimit where
  perMinute : ℤ
  nonneg : 0 ≤ perMinute

abbrev Buckets (K : Type) : Type := Table String (Bucket K)

variable {K : Type} [Field K] [LinearOrder K]

namespace RateLimit

variable (config : RateLimit)

def capacity : K := config.perMinute

def refillPerSecond : K := config.perMinute / 60

variable (K) in
def Enabled : Prop := 0 < (config.capacity : K)

instance : Decidable (config.Enabled K) := inferInstanceAs (Decidable (_ < _))

end RateLimit

namespace RateLimiter

/-- The keys that were updated first, a tenth of all. -/
def stalest (buckets : Buckets K) : List String :=
  ((buckets.entries.insertionSort (fun e e' => e.2.updated ≤ e'.2.updated)).take
    (buckets.entries.length / 10)).map Prod.fst

def evictIfNeeded (maxKeys : ℤ) (buckets : Buckets K) : Buckets K :=
  if (buckets.entries.length : ℤ) ≤ maxKeys then buckets
  else (stalest buckets).foldl Table.erase buckets

/-- Whether a request is allowed, after how many seconds to retry, and the buckets
afterwards. -/
def tryAcquire (config : RateLimit) (maxKeys : ℤ) (buckets : Buckets K) (key : String) (now : K) :
    (Bool × K) × Buckets K :=
  if ¬ config.Enabled K then ((true, 0), buckets)
  else
    let bucket := (buckets.find key).getD ⟨config.capacity, now⟩
    let tokens := min config.capacity
      (bucket.tokens + (now - bucket.updated) * config.refillPerSecond)
    if 1 ≤ tokens then ((true, 0), evictIfNeeded maxKeys (buckets.put key ⟨tokens - 1, now⟩))
    else ((false, (1 - tokens) / config.refillPerSecond), buckets.put key ⟨tokens, now⟩)

end RateLimiter

end Cloudscale
