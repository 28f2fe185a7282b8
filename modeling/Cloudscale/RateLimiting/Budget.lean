import Cloudscale.RateLimiting.Agreement

/-!
# The budget of a key

What a limiter grants a key is taken from the level of its bucket, which no request of
another key changes, so both limiters keep the budget of a window as long as the bucket
is kept (`granted_le_budget`, `PostgresRateLimiter.granted_le`).

The in-process limiter evicts the buckets that were updated first, also those that are
not full again, and a key whose bucket is gone starts with a full one.  So the traffic of
other keys resets what a key has spent (`budget_reset`); the budget is kept in the runs
that evict the bucket of the key only when it is full (`SparesSpent`).
-/

namespace Cloudscale

open Tables TokenBucket

variable {K : Type} [Field K] [LinearOrder K]

/-- The request is one of the key, and in the window of `T` seconds from `start`. -/
def RateRequest.InWindow (key : String) (start T : K) (r : RateRequest K) : Prop :=
  r.key = key ∧ start ≤ r.now ∧ r.now ≤ start + T

instance (key : String) (start T : K) (r : RateRequest K) : Decidable (r.InWindow key start T) :=
  inferInstanceAs (Decidable (_ ∧ _ ∧ _))

/-- How many requests of the key the in-process limiter grants in the window. -/
def RateLimiter.grantsIn (config : RateLimit) (maxKeys : ℤ) (key : String) (start T : K)
    (requests : List (RateRequest K)) : ℕ :=
  granted (next config maxKeys) (fun buckets r => (reply config maxKeys buckets r).1)
    (fun r => r.InWindow key start T) .empty requests

/-- How many requests of the key the shared limiter grants in the window. -/
def PostgresRateLimiter.grantsIn (config : RateLimit) (key : String) (start T : K)
    (requests : List (RateRequest K)) : ℕ :=
  granted (next config) (fun rows r => (reply config rows r).1)
    (fun r => r.InWindow key start T) .empty requests

/-! ### Levels of a key -/

/-- The tokens of the bucket of a key. -/
def levelOf (limit : Limit K) (key : String) (buckets : Buckets K) (now : K) : K :=
  max 0 (limit.level (buckets.find key) now)

theorem levelOf_nonneg (limit : Limit K) (key : String) (buckets : Buckets K) (now : K) :
    0 ≤ levelOf limit key buckets now := le_max_left _ _

theorem levelOf_le_capacity (limit : Limit K) (key : String) (buckets : Buckets K) (now : K) :
    levelOf limit key buckets now ≤ limit.capacity :=
  max_le limit.capacity_nonneg (limit.level_le_capacity _ _)

variable [IsStrictOrderedRing K]

theorem levelOf_drawn {limit : Limit K} {key : String} {buckets buckets' : Buckets K}
    {r : RateRequest K} (h : limit.level (buckets'.find key) r.now ≤ limit.level
      (if key = r.key then some (limit.draw (buckets.find r.key) r.now) else buckets.find key) r.now)
    {granted : Prop} [Decidable granted]
    (hgranted : granted → key = r.key ∧ 1 ≤ limit.level (buckets.find r.key) r.now) :
    ((if granted then 1 else 0 : ℕ) : K) + levelOf limit key buckets' r.now ≤
      levelOf limit key buckets r.now := by
  rw [levelOf, levelOf]
  by_cases hkey : key = r.key
  · subst hkey
    rw [if_pos rfl] at h
    have hdraw := limit.level_draw (buckets.find r.key) r.now
    by_cases hg : granted
    · rw [if_pos (hgranted hg).2, Nat.cast_one] at hdraw
      rw [if_pos hg, Nat.cast_one, max_eq_right (zero_le_one.trans (hgranted hg).2), add_comm,
        ← le_sub_iff_add_le]
      refine max_le ?_ (by linarith)
      linarith [(hgranted hg).2]
    · rw [if_neg hg, Nat.cast_zero, zero_add]
      have hpos : (0 : K) ≤ ((if 1 ≤ limit.level (buckets.find r.key) r.now then 1 else 0 : ℕ) : K) :=
        Nat.cast_nonneg _
      exact max_le_max_left 0 (by linarith)
  · rw [if_neg hkey] at h
    rw [if_neg fun hg => hkey (hgranted hg).1, Nat.cast_zero, zero_add]
    exact max_le_max_left 0 h

theorem levelOf_le_add (limit : Limit K) (key : String) (buckets : Buckets K) {now later : K}
    (h : now ≤ later) : levelOf limit key buckets later ≤
      levelOf limit key buckets now + (later - now) * limit.refill := by
  have hgain := mul_nonneg (sub_nonneg.mpr h) limit.refill_nonneg
  have hrise := limit.level_le_add (buckets.find key) h
  rw [levelOf, levelOf]
  refine max_le ?_ ?_
  · exact add_nonneg (le_max_left _ _) hgain
  · linarith [le_max_right 0 (limit.level (buckets.find key) now)]

section Window

variable {config : RateLimit} {key : String} {start T : K}

theorem budget_eq (config : RateLimit) (start T : K) : config.limit.capacity +
    (start + T - start) * config.limit.refill = config.perMinute * (1 + T / 60) := by
  show (config.perMinute : K) + (start + T - start) * (config.perMinute / 60) = _
  ring

/-! ### The shared limiter -/

theorem PostgresRateLimiter.levels (henabled : config.Enabled K) :
    Levels (PostgresRateLimiter.next config) (fun rows r => (reply config rows r).1)
      (fun _ _ => True) config.limit RateRequest.now (fun r => r.InWindow key start T)
      (levelOf config.limit key) where
  nonneg := levelOf_nonneg _ _
  le_capacity := levelOf_le_capacity _ _
  le_add rows _ _ := levelOf_le_add _ _ rows
  taken rows r _ := by
    refine levelOf_drawn (drawn_next henabled key r.now le_rfl).le fun ⟨hcounts, hgranted⟩ => ?_
    obtain ⟨hkey, -⟩ := of_decide_eq_true hcounts
    refine ⟨hkey.symm, ?_⟩
    rw [reply_eq henabled, RateLimit.replyAt] at hgranted
    by_contra hlevel
    rw [if_neg hlevel] at hgranted
    cases hgranted

/-- **The shared limiter keeps the budget of every window.** -/
theorem PostgresRateLimiter.granted_le (hlimit : 1 ≤ config.perMinute) (key : String)
    {requests : List (RateRequest K)} (hsorted : requests.Pairwise (fun r r' => r.now ≤ r'.now))
    (start : K) {T : K} (hT : 0 ≤ T) :
    (grantsIn config key start T requests : K) ≤ config.perMinute * (1 + T / 60) := by
  have henabled : config.Enabled K := Int.cast_pos.mpr (zero_lt_one.trans_le hlimit)
  rw [← budget_eq config start T]
  exact (levels henabled).granted_le (le_add_of_nonneg_right hT)
    (fun r hr => (of_decide_eq_true hr).2.1) (fun r hr => (of_decide_eq_true hr).2.2) hsorted
    (Runs.along_of_forall (fun _ _ => trivial) _ _)

/-! ### The in-process limiter -/

/-- **The request does not evict the bucket of the key before it is full again.** -/
def RateLimiter.SparesSpent (config : RateLimit) (maxKeys : ℤ) (key : String) (buckets : Buckets K)
    (r : RateRequest K) : Prop :=
  let drawn := buckets.put r.key (config.limit.draw (buckets.find r.key) r.now)
  1 ≤ config.limit.level (buckets.find r.key) r.now → maxKeys < drawn.entries.length →
    key ∈ stalest drawn → config.capacity ≤ config.limit.level (drawn.find key) r.now

instance (config : RateLimit) (maxKeys : ℤ) (key : String) (buckets : Buckets K)
    (r : RateRequest K) : Decidable (RateLimiter.SparesSpent config maxKeys key buckets r) :=
  inferInstanceAs (Decidable (_ → _ → _ → _))

/-- A bucket that is kept, or was full when it was evicted, has no more than it had. -/
theorem RateLimiter.level_next_le {maxKeys : ℤ} {buckets : Buckets K} {r : RateRequest K}
    (henabled : config.Enabled K) (h : SparesSpent config maxKeys key buckets r) :
    config.limit.level ((next config maxKeys buckets r).find key) r.now ≤ config.limit.level
      (if key = r.key then some (config.limit.draw (buckets.find r.key) r.now)
        else buckets.find key) r.now := by
  have hput := Table.find_put buckets r.key key (config.limit.draw (buckets.find r.key) r.now)
  rw [next, tryAcquire_eq henabled, ← hput]
  dsimp only
  split
  next hlevel =>
    rw [evictIfNeeded]
    split
    next => exact le_rfl
    next hmany =>
      rw [Table.find_eraseAll]
      split
      next hstale => exact h hlevel (not_le.mp hmany) hstale
      next => exact le_rfl
  next => exact le_rfl

theorem RateLimiter.levels {maxKeys : ℤ} (henabled : config.Enabled K) :
    Levels (RateLimiter.next config maxKeys) (fun buckets r => (reply config maxKeys buckets r).1)
      (SparesSpent config maxKeys key) config.limit RateRequest.now
      (fun r => r.InWindow key start T) (levelOf config.limit key) where
  nonneg := levelOf_nonneg _ _
  le_capacity := levelOf_le_capacity _ _
  le_add buckets _ _ := levelOf_le_add _ _ buckets
  taken buckets r hspares := by
    refine levelOf_drawn (level_next_le henabled hspares) fun ⟨hcounts, hgranted⟩ => ?_
    obtain ⟨hkey, -⟩ := of_decide_eq_true hcounts
    refine ⟨hkey.symm, ?_⟩
    rw [reply, tryAcquire_eq henabled, RateLimit.replyAt] at hgranted
    by_contra hlevel
    rw [if_neg hlevel] at hgranted
    cases hgranted

/-- **The in-process limiter keeps the budget of a key** in every run that evicts the bucket
of the key only when it is full again. -/
theorem RateLimiter.granted_le_budget (hlimit : 1 ≤ config.perMinute) (maxKeys : ℤ) (key : String)
    {requests : List (RateRequest K)} (hsorted : requests.Pairwise (fun r r' => r.now ≤ r'.now))
    (hspares : Runs.Along (next config maxKeys) (SparesSpent config maxKeys key) .empty requests)
    (start : K) {T : K} (hT : 0 ≤ T) :
    (grantsIn config maxKeys key start T requests : K) ≤ config.perMinute * (1 + T / 60) := by
  have henabled : config.Enabled K := Int.cast_pos.mpr (zero_lt_one.trans_le hlimit)
  rw [← budget_eq config start T]
  exact (levels henabled).granted_le (le_add_of_nonneg_right hT)
    (fun r hr => (of_decide_eq_true hr).2.1) (fun r hr => (of_decide_eq_true hr).2.2) hsorted hspares

end Window

/-! ### Eviction -/

/-- A key that spends its limit of one, nine others later, and the key again. -/
def churn (now : ℚ) : List (RateRequest ℚ) :=
  ⟨"a", 0⟩ :: (["b", "c", "d", "e", "f", "g", "h", "i", "j"].map fun key => ⟨key, now⟩) ++
    [⟨"a", now⟩]

/-- A minute later the bucket of the key is full, and is evicted. -/
theorem RateLimiter.granted_le_budget_churn :
    (grantsIn ⟨1, by decide⟩ 9 "a" (0 : ℚ) 60 (churn 60) : ℚ) ≤ (1 : ℤ) * (1 + 60 / 60) :=
  granted_le_budget le_rfl 9 "a" (by decide +kernel) (by decide +kernel) 0
    (by norm_num)

/-- **The traffic of other keys resets a budget**: with a limit of one and a bound of nine
keys, a key is granted two requests at one time. -/
theorem budget_reset : (churn 0).Pairwise (fun r r' => r.now ≤ r'.now) ∧
    RateLimiter.grantsIn ⟨1, by decide⟩ 9 "a" (0 : ℚ) 0 (churn 0) = 2 ∧
    ¬ (RateLimiter.grantsIn ⟨1, by decide⟩ 9 "a" (0 : ℚ) 0 (churn 0) : ℚ) ≤
      (1 : ℤ) * (1 + 0 / 60) := by
  refine ⟨by decide +kernel, by decide +kernel, by decide +kernel⟩

end Cloudscale
