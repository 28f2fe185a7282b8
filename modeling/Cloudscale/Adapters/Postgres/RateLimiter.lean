import Cloudscale.Entrypoints.Http.Limits

/-!
# The shared rate limiter

The limiter of all replicas keeps its buckets in the table `rate_limit_buckets`.
`acquire` is its one statement, an upsert that takes a token if there is one after the
refill; a denied request leaves the row as it is and reads its tokens with `peek`.
A call reads the clock of the database once.
-/

namespace Cloudscale

open Tables TokenBucket

variable {K : Type} [Field K] [LinearOrder K]

namespace PostgresRateLimiter

variable (config : RateLimit) (rows : Buckets K) (key : String) (now : K)

/-- `_ACQUIRE_SQL`, and what it returns if it wrote a row. -/
def acquire : Option K × Buckets K :=
  match rows.find key with
  | none => (some (config.capacity - 1), rows.put key ⟨config.capacity - 1, now⟩)
  | some row =>
    let refilled := min config.capacity
      (row.tokens + (now - row.updated) * config.refillPerSecond)
    if 1 ≤ refilled then (some (refilled - 1), rows.put key ⟨refilled - 1, now⟩)
    else (none, rows)

/-- `_PEEK_SQL`. -/
def peek : Option K :=
  (rows.find key).map fun row =>
    min config.capacity (row.tokens + (now - row.updated) * config.refillPerSecond)

/-- Whether a request is allowed, after how many seconds to retry, and the rows afterwards. -/
def tryAcquire : (Bool × K) × Buckets K :=
  if ¬ config.Enabled K then ((true, 0), rows)
  else
    match acquire config rows key now with
    | (some _, rows) => ((true, 0), rows)
    | (none, rows) =>
      let tokens := (peek config rows key now).getD 0
      ((false, max 0 ((1 - tokens) / config.refillPerSecond)), rows)

end PostgresRateLimiter

end Cloudscale
