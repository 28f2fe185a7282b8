import Cloudscale.Adapters.Postgres.RateLimiter
import Mathlib.Algebra.Order.Ring.Rat

/-!
# The two rate limiters

Both limiters answer a request from the level of the bucket of its key, and both draw
from that bucket (`RateLimiter.tryAcquire_eq`, `PostgresRateLimiter.reply_eq`).  What
they store differs after a denied request, which the in-process limiter writes down and
the shared one does not; what they store is the same from then on (`Drawn`).

As long as nothing is evicted the limiters give the same answers (`limiters_agree`).
-/

namespace Cloudscale

open Tables TokenBucket

/-- A request of a key, with the reading of the clock. -/
structure RateRequest (K : Type) where
  key : String
  now : K
  deriving DecidableEq

variable {K : Type} [Field K] [LinearOrder K]

namespace RateLimiter

variable (config : RateLimit) (maxKeys : ℤ) (buckets : Buckets K) (r : RateRequest K)

def reply : Bool × K := (tryAcquire config maxKeys buckets r.key r.now).1

def next : Buckets K := (tryAcquire config maxKeys buckets r.key r.now).2

end RateLimiter

namespace PostgresRateLimiter

variable (config : RateLimit) (rows : Buckets K) (r : RateRequest K)

def reply : Bool × K := (tryAcquire config rows r.key r.now).1

def next : Buckets K := (tryAcquire config rows r.key r.now).2

end PostgresRateLimiter

/-! ### Buckets that are the same -/

/-- The buckets are the same from a time on. -/
def SameBuckets (limit : Limit K) (now : K) (rows rows' : Buckets K) : Prop :=
  ∀ k, limit.SameFrom now (rows.find k) (rows'.find k)

/-- The buckets after a request: the one of its key was drawn from, and the others are the
same. -/
def Drawn (limit : Limit K) (key : String) (now : K) (rows rows' : Buckets K) : Prop :=
  ∀ k, limit.SameFrom now (rows'.find k)
    (if k = key then some (limit.draw (rows.find key) now) else rows.find k)

/-- **Requests keep buckets the same.** -/
theorem Drawn.sameBuckets {limit : Limit K} {key : String} {now : K}
    {rows rows' drawn drawn' : Buckets K} (h : Drawn limit key now rows drawn)
    (h' : Drawn limit key now rows' drawn') (hsame : SameBuckets limit now rows rows') :
    SameBuckets limit now drawn drawn' := by
  intro k
  refine (h k).trans (Limit.SameFrom.trans ?_ (h' k).symm)
  rw [(hsame key).draw]
  split
  next => exact .refl _ _
  next => exact hsame k

theorem drawn_put (limit : Limit K) (key : String) (now : K) (rows : Buckets K) :
    Drawn limit key now rows (rows.put key (limit.draw (rows.find key) now)) := by
  intro k
  rw [Table.find_put]
  exact .refl _ _

variable [IsStrictOrderedRing K]

/-! ### Levels -/

namespace RateLimit

variable (config : RateLimit)

def limit : Limit K where
  capacity := config.capacity
  refill := config.refillPerSecond
  capacity_nonneg := Int.cast_nonneg config.nonneg
  refill_nonneg := div_nonneg (Int.cast_nonneg config.nonneg) (by norm_num)

def replyAt (level : K) : Bool × K :=
  if 1 ≤ level then (true, 0) else (false, (1 - level) / config.refillPerSecond)

theorem one_le_capacity {config : RateLimit} (h : config.Enabled K) : 1 ≤ (config.capacity : K) := by
  have hpos : 0 < config.perMinute := Int.cast_pos.mp h
  exact Int.cast_one_le_of_pos (R := K) hpos

theorem level_getD (bucket : Option (Bucket K)) (now : K) :
    min config.capacity ((bucket.getD ⟨config.capacity, now⟩).tokens +
      (now - (bucket.getD ⟨config.capacity, now⟩).updated) * config.refillPerSecond) =
      config.limit.level bucket now := by
  cases bucket with
  | none =>
    show min (config.capacity : K) (config.capacity + (now - now) * config.refillPerSecond) = _
    rw [sub_self, zero_mul, add_zero, min_self]
    rfl
  | some b => rfl

end RateLimit

/-! ### One request -/

namespace RateLimiter

variable {config : RateLimit} {maxKeys : ℤ} {buckets : Buckets K}

/-- **The in-process limiter** writes the bucket down, and evicts when it grants. -/
theorem tryAcquire_eq (h : config.Enabled K) (key : String) (now : K) :
    tryAcquire config maxKeys buckets key now =
      (config.replyAt (config.limit.level (buckets.find key) now),
        if 1 ≤ config.limit.level (buckets.find key) now then
          evictIfNeeded maxKeys (buckets.put key (config.limit.draw (buckets.find key) now))
        else buckets.put key (config.limit.draw (buckets.find key) now)) := by
  rw [tryAcquire, if_neg (not_not.mpr h)]
  dsimp only
  rw [config.level_getD, RateLimit.replyAt, Limit.draw]
  split <;> rfl

end RateLimiter

namespace PostgresRateLimiter

variable {config : RateLimit} {rows : Buckets K} {r : RateRequest K}

/-- **The shared limiter** leaves the row of a denied request as it is. -/
theorem tryAcquire_eq (h : config.Enabled K) (key : String) (now : K) :
    tryAcquire config rows key now =
      (config.replyAt (config.limit.level (rows.find key) now),
        if 1 ≤ config.limit.level (rows.find key) now then
          rows.put key (config.limit.draw (rows.find key) now)
        else rows) := by
  rw [tryAcquire, if_neg (not_not.mpr h), acquire, RateLimit.replyAt, Limit.draw]
  cases hrow : rows.find key with
  | none =>
    have hfull : 1 ≤ config.limit.level (none : Option (Bucket K)) now :=
      RateLimit.one_le_capacity h
    rw [if_pos hfull, if_pos hfull, if_pos hfull]
    rfl
  | some row =>
    by_cases hlevel : 1 ≤ config.limit.level (some row) now
    · have htokens : 1 ≤ min config.capacity
        (row.tokens + (now - row.updated) * config.refillPerSecond) := hlevel
      dsimp only
      rw [if_pos hlevel, if_pos hlevel, if_pos hlevel, if_pos htokens]
      rfl
    · have htokens : ¬ 1 ≤ min config.capacity
        (row.tokens + (now - row.updated) * config.refillPerSecond) := hlevel
      have hretry : 0 ≤ (1 - config.limit.level (some row) now) / config.refillPerSecond :=
        div_nonneg (sub_nonneg.mpr (not_le.mp hlevel).le) config.limit.refill_nonneg
      dsimp only
      rw [if_neg hlevel, if_neg hlevel, if_neg htokens]
      dsimp only
      rw [peek, hrow]
      exact congrArg (fun retry => ((false, retry), rows)) (max_eq_right hretry)

theorem reply_eq (h : config.Enabled K) :
    reply config rows r = config.replyAt (config.limit.level (rows.find r.key) r.now) :=
  congrArg Prod.fst (tryAcquire_eq h r.key r.now)

/-- What is stored after a request is the same as if it had been written down. -/
theorem drawn_next (h : config.Enabled K) :
    Drawn config.limit r.key r.now rows (next config rows r) := by
  rw [next, tryAcquire_eq h]
  dsimp only
  split
  next => exact drawn_put _ _ _ _
  next hlevel =>
    intro k
    split
    next hk =>
      rw [hk]
      exact (Limit.sameFrom_draw hlevel).symm
    next => exact .refl _ _

end PostgresRateLimiter

/-! ### Runs -/

/-- What is stored for a key of a few is not evicted. -/
theorem RateLimiter.drawn_next {config : RateLimit} {maxKeys : ℤ} {buckets : Buckets K}
    {r : RateRequest K} (h : config.Enabled K) {keys : List String}
    (hkeys : (keys.dedup.length : ℤ) ≤ maxKeys) (hsub : buckets.entries.map Prod.fst ⊆ keys)
    (hr : r.key ∈ keys) : Drawn config.limit r.key r.now buckets (next config maxKeys buckets r) ∧
      (next config maxKeys buckets r).entries.map Prod.fst ⊆ keys := by
  have hput : (buckets.put r.key (config.limit.draw (buckets.find r.key) r.now)).entries.map
      Prod.fst ⊆ keys := by
    intro k hk
    rcases Table.mem_keys_put.mp hk with rfl | hk
    · exact hr
    · exact hsub hk
  have hkept : next config maxKeys buckets r =
      buckets.put r.key (config.limit.draw (buckets.find r.key) r.now) := by
    have hfew := Table.length_le_of_keys hput
    have hall : evictIfNeeded maxKeys
        (buckets.put r.key (config.limit.draw (buckets.find r.key) r.now)) =
        buckets.put r.key (config.limit.draw (buckets.find r.key) r.now) := if_pos (by omega)
    rw [next, tryAcquire_eq h, hall, ite_self]
  rw [hkept]
  exact ⟨drawn_put _ _ _ _, hput⟩

/-- **The limiters agree.** With fewer keys than the in-process limiter keeps, both give every
request the same answer. -/
theorem limiters_agree (config : RateLimit) (maxKeys : ℤ) (requests : List (RateRequest K))
    (hsorted : requests.Pairwise (fun r r' => r.now ≤ r'.now))
    (hkeys : ((requests.map RateRequest.key).dedup.length : ℤ) < maxKeys) :
    Runs.outputs (RateLimiter.next config maxKeys) (RateLimiter.reply config maxKeys) .empty
        requests =
      Runs.outputs (PostgresRateLimiter.next config) (PostgresRateLimiter.reply config) .empty
        requests := by
  set keys := requests.map RateRequest.key with hdef
  refine Runs.outputs_eq_of_clock (R := fun now buckets rows =>
    SameBuckets config.limit now buckets rows ∧ buckets.entries.map Prod.fst ⊆ keys)
    (G := fun r => r.key ∈ keys) (fun now buckets rows r hrelated hnow hr => ?_)
    (fun now => ⟨fun k => .refl _ _, List.nil_subset _⟩) hsorted
    (fun r hr => List.mem_map_of_mem hr)
  obtain ⟨hsame, hsub⟩ := hrelated
  by_cases henabled : config.Enabled K
  · obtain ⟨hdrawn, hnext⟩ := RateLimiter.drawn_next henabled hkeys.le hsub hr
    refine ⟨?_, hdrawn.sameBuckets (PostgresRateLimiter.drawn_next henabled) fun k =>
      (hsame k).mono hnow, hnext⟩
    rw [RateLimiter.reply, RateLimiter.tryAcquire_eq henabled, PostgresRateLimiter.reply_eq henabled,
      hsame r.key r.now hnow]
  · -- Without a limit nothing is stored.
    have hnext : RateLimiter.next config maxKeys buckets r = buckets := by
      rw [RateLimiter.next, RateLimiter.tryAcquire, if_pos henabled]
    have hnext' : PostgresRateLimiter.next config rows r = rows := by
      rw [PostgresRateLimiter.next, PostgresRateLimiter.tryAcquire, if_pos henabled]
    refine ⟨?_, ?_, ?_⟩
    · rw [RateLimiter.reply, RateLimiter.tryAcquire, if_pos henabled, PostgresRateLimiter.reply,
        PostgresRateLimiter.tryAcquire, if_pos henabled]
    · rw [hnext, hnext']
      exact fun k => (hsame k).mono hnow
    · rw [hnext]
      exact hsub

def twoKeys : List (RateRequest ℚ) := [⟨"a", 0⟩, ⟨"a", 0⟩, ⟨"a", 0⟩, ⟨"b", 10⟩, ⟨"a", 30⟩]

/-- A limit of two a minute: the third request is denied, and may retry when the clock
shows 30. -/
theorem limiters_agree_two :
    Runs.outputs (RateLimiter.next ⟨2, by decide⟩ 3) (RateLimiter.reply ⟨2, by decide⟩ 3) .empty
        twoKeys =
      Runs.outputs (PostgresRateLimiter.next ⟨2, by decide⟩)
        (PostgresRateLimiter.reply ⟨2, by decide⟩) .empty twoKeys ∧
    Runs.outputs (PostgresRateLimiter.next ⟨2, by decide⟩) (PostgresRateLimiter.reply ⟨2, by decide⟩)
        .empty twoKeys = [(true, 0), (true, 0), (false, 30), (true, 0), (true, 0)] :=
  ⟨limiters_agree _ 3 _ (by decide +kernel) (by decide +kernel), by decide +kernel⟩

end Cloudscale
