import Cloudscale.Lib.Runs
import Mathlib.Algebra.Order.Field.Basic
import Mathlib.Tactic.Linarith
import Mathlib.Tactic.Ring

/-!
# Token buckets

A bucket holds tokens up to a capacity and is refilled at a steady rate; who draws
from it takes one token, if there is one.  A bucket keeps its tokens as of its last
update, and a bucket that was never drawn from, or was thrown away, counts as full.

What matters of a bucket is its `level` at the times to come: two buckets are the
same from a time on (`SameFrom`) when their levels agree.  It does not matter then
whether a refill was written down (`sameFrom_refilled`), nor whether a full bucket is
kept (`sameFrom_full`).

The level of a bucket bounds what can be drawn from it: a draw lowers it by one, and
it rises no faster than the refill.  `granted_le` is the budget of a window for any
system whose state has such a level.
-/

namespace TokenBucket

/-- The tokens of a bucket at its last update. -/
structure Bucket (K : Type) where
  tokens : K
  updated : K
  deriving DecidableEq

variable {K : Type} [Field K] [LinearOrder K]

/-- What a bucket holds at most, and what it gets per unit of time. -/
structure Limit (K : Type) [Field K] [LinearOrder K] where
  capacity : K
  refill : K
  capacity_nonneg : 0 ≤ capacity
  refill_nonneg : 0 ≤ refill

namespace Limit

variable (limit : Limit K)

/-- The tokens of a bucket at a time; without a bucket there are as many as can be. -/
def level (bucket : Option (Bucket K)) (now : K) : K :=
  match bucket with
  | none => limit.capacity
  | some b => min limit.capacity (b.tokens + (now - b.updated) * limit.refill)

@[simp] theorem level_none (now : K) : limit.level none now = limit.capacity := rfl

theorem level_some (b : Bucket K) (now : K) : limit.level (some b) now =
    min limit.capacity (b.tokens + (now - b.updated) * limit.refill) := rfl

theorem level_le_capacity (bucket : Option (Bucket K)) (now : K) :
    limit.level bucket now ≤ limit.capacity := by
  cases bucket with
  | none => exact le_rfl
  | some b => exact min_le_left _ _

theorem level_updated {tokens : K} (h : tokens ≤ limit.capacity) (now : K) :
    limit.level (some ⟨tokens, now⟩) now = tokens := by
  rw [level_some, sub_self, zero_mul, add_zero, min_eq_right h]

/-- The buckets hold the same tokens from a time on. -/
def SameFrom (now : K) (bucket bucket' : Option (Bucket K)) : Prop :=
  ∀ t, now ≤ t → limit.level bucket t = limit.level bucket' t

variable {limit} {now later : K} {bucket bucket' bucket'' : Option (Bucket K)}

theorem SameFrom.refl (now : K) (bucket : Option (Bucket K)) : limit.SameFrom now bucket bucket :=
  fun _ _ => rfl

theorem SameFrom.symm (h : limit.SameFrom now bucket bucket') :
    limit.SameFrom now bucket' bucket := fun t ht => (h t ht).symm

theorem SameFrom.trans (h : limit.SameFrom now bucket bucket')
    (h' : limit.SameFrom now bucket' bucket'') : limit.SameFrom now bucket bucket'' :=
  fun t ht => (h t ht).trans (h' t ht)

theorem SameFrom.mono (h : limit.SameFrom now bucket bucket') (hlater : now ≤ later) :
    limit.SameFrom later bucket bucket' := fun t ht => h t (hlater.trans ht)

/-- The bucket after one more request, which takes a token if there is one. -/
def draw (limit : Limit K) (bucket : Option (Bucket K)) (now : K) : Bucket K :=
  ⟨if 1 ≤ limit.level bucket now then limit.level bucket now - 1 else limit.level bucket now, now⟩

/-- Buckets that are the same are the same after a request. -/
theorem SameFrom.draw (h : limit.SameFrom now bucket bucket') :
    limit.draw bucket now = limit.draw bucket' now := by
  rw [Limit.draw, Limit.draw, h now le_rfl]

section Ordered

variable [IsStrictOrderedRing K]

theorem level_mono (h : now ≤ later) : limit.level bucket now ≤ limit.level bucket later := by
  cases bucket with
  | none => exact le_rfl
  | some b =>
    have hgain := mul_le_mul_of_nonneg_right (sub_le_sub_right h b.updated) limit.refill_nonneg
    exact min_le_min_left _ (by linarith)

/-- **A level rises no faster than the refill.** -/
theorem level_le_add (bucket : Option (Bucket K)) (h : now ≤ later) : limit.level bucket later ≤
    limit.level bucket now + (later - now) * limit.refill := by
  have hgain : 0 ≤ (later - now) * limit.refill :=
    mul_nonneg (sub_nonneg.mpr h) limit.refill_nonneg
  cases bucket with
  | none =>
    rw [level_none, level_none]
    linarith
  | some b =>
    rw [level_some, level_some, ← min_add_add_right]
    have hsplit : b.tokens + (later - b.updated) * limit.refill =
        b.tokens + (now - b.updated) * limit.refill + (later - now) * limit.refill := by ring
    rw [hsplit]
    exact min_le_min_right _ (by linarith)

/-- **A refill that is written down changes nothing.** -/
theorem sameFrom_refilled (now : K) (bucket : Option (Bucket K)) :
    limit.SameFrom now (some ⟨limit.level bucket now, now⟩) bucket := by
  intro t ht
  have hgain : 0 ≤ (t - now) * limit.refill :=
    mul_nonneg (sub_nonneg.mpr ht) limit.refill_nonneg
  cases bucket with
  | none =>
    rw [level_some, level_none]
    exact min_eq_left (by linarith)
  | some b =>
    have hsplit : b.tokens + (t - b.updated) * limit.refill =
        b.tokens + (now - b.updated) * limit.refill + (t - now) * limit.refill := by ring
    rw [level_some, level_some, level_some, hsplit, ← min_add_add_right, ← min_assoc,
      min_eq_left (by linarith : limit.capacity ≤ limit.capacity + (t - now) * limit.refill)]

/-- **A full bucket need not be kept.** -/
theorem sameFrom_full (h : limit.capacity ≤ limit.level bucket now) :
    limit.SameFrom now none bucket := fun _ ht =>
  le_antisymm (h.trans (level_mono ht)) (limit.level_le_capacity _ _)

/-- A bucket is full again once it had the time for a whole refill. -/
theorem full_of_idle {b : Bucket K} (hb : 0 ≤ b.tokens)
    (h : limit.capacity ≤ (now - b.updated) * limit.refill) :
    limit.capacity ≤ limit.level (some b) now :=
  le_min le_rfl (by linarith)

/-- **What is granted is taken from the level.** -/
theorem level_draw (bucket : Option (Bucket K)) (now : K) : ((if 1 ≤ limit.level bucket now then 1 else 0 : ℕ) : K) +
    limit.level (some (limit.draw bucket now)) now = limit.level bucket now := by
  have hcapacity := limit.level_le_capacity bucket now
  rw [draw]
  split
  · rw [level_updated _ (by linarith), Nat.cast_one, add_sub_cancel]
  · rw [level_updated _ hcapacity, Nat.cast_zero, zero_add]

theorem sameFrom_draw (h : ¬ 1 ≤ limit.level bucket now) :
    limit.SameFrom now (some (limit.draw bucket now)) bucket := by
  rw [draw, if_neg h]
  exact sameFrom_refilled now bucket

end Ordered

end Limit

/-! ### Budgets -/

section Budget

variable {σ ι : Type} (next : σ → ι → σ) (grants : σ → ι → Bool)

/-- How many inputs of a kind a run grants. -/
def granted (counts : ι → Bool) : σ → List ι → ℕ
  | _, [] => 0
  | s, i :: is => (if counts i ∧ grants s i then 1 else 0) + granted counts (next s i) is

variable {next grants} {counts : ι → Bool}

theorem granted_cons (s : σ) (i : ι) (is : List ι) : granted next grants counts s (i :: is) =
    (if counts i ∧ grants s i then 1 else 0) + granted next grants counts (next s i) is := rfl

theorem granted_eq_zero : ∀ {is : List ι} {s : σ}, (∀ i ∈ is, ¬ counts i) →
    granted next grants counts s is = 0 := by
  intro is
  induction is with
  | nil => exact fun _ => rfl
  | cons i is ih =>
    intro s h
    rw [granted_cons, if_neg fun hi => h i List.mem_cons_self hi.1,
      ih fun j hj => h j (List.mem_cons_of_mem i hj)]

/-- Where everything counts, what is granted is what is answered with a grant. -/
theorem granted_eq_count : ∀ {is : List ι} {s : σ}, (∀ i ∈ is, counts i) →
    granted next grants counts s is = (Runs.outputs next grants s is).count true := by
  intro is
  induction is with
  | nil => exact fun _ => rfl
  | cons i is ih =>
    intro s h
    have hrest := ih (s := next s i) fun j hj => h j (List.mem_cons_of_mem i hj)
    rw [granted_cons, Runs.outputs, List.count_cons, hrest, Nat.add_comm]
    simp only [h i List.mem_cons_self, true_and, beq_iff_eq]

/-- **A level of the states**: it stays within the limit, and what is granted is taken
from it. -/
structure Levels (next : σ → ι → σ) (grants : σ → ι → Bool) (Good : σ → ι → Prop) (limit : Limit K)
    (time : ι → K) (counts : ι → Bool) (level : σ → K → K) : Prop where
  nonneg : ∀ s now, 0 ≤ level s now
  le_capacity : ∀ s now, level s now ≤ limit.capacity
  le_add : ∀ s now later, now ≤ later →
    level s later ≤ level s now + (later - now) * limit.refill
  taken : ∀ s i, Good s i → ((if counts i ∧ grants s i then 1 else 0 : ℕ) : K) +
    level (next s i) (time i) ≤ level s (time i)

variable [IsStrictOrderedRing K] {Good : σ → ι → Prop} {limit : Limit K} {time : ι → K}
  {level : σ → K → K} {start stop : K}

/-- From a time on, no more is granted than there is and is refilled until the end. -/
theorem Levels.granted_le_level (h : Levels next grants Good limit time counts level)
    (hstop : ∀ i, counts i → time i ≤ stop) : ∀ {is : List ι} {s : σ} {now : K},
    now ≤ stop → (∀ i ∈ is, now ≤ time i) → is.Pairwise (fun i j => time i ≤ time j) →
    Runs.Along next Good s is →
    (granted next grants counts s is : K) ≤ level s now + (stop - now) * limit.refill := by
  intro is
  induction is with
  | nil =>
    intro s now hnow _ _ _
    have hgain := mul_nonneg (sub_nonneg.mpr hnow) limit.refill_nonneg
    have hlevel := h.nonneg s now
    rw [granted, Nat.cast_zero]
    linarith
  | cons i is ih =>
    intro s now hnow htimes hsorted halong
    rw [List.pairwise_cons] at hsorted
    by_cases hi : time i ≤ stop
    · have hrest := ih hi hsorted.1 hsorted.2 halong.2
      have htaken := h.taken s i halong.1
      have hrise := h.le_add s now (time i) (htimes i List.mem_cons_self)
      have hsplit : (stop - now) * limit.refill =
          (time i - now) * limit.refill + (stop - time i) * limit.refill := by ring
      rw [granted_cons, Nat.cast_add, hsplit]
      linarith
    · -- Nothing counts once the window is over.
      have hover : ∀ j ∈ i :: is, ¬ counts j := by
        intro j hj hcounts
        rcases List.mem_cons.mp hj with rfl | hj
        · exact hi (hstop j hcounts)
        · exact hi ((hsorted.1 j hj).trans (hstop j hcounts))
      have hgain := mul_nonneg (sub_nonneg.mpr hnow) limit.refill_nonneg
      have hlevel := h.nonneg s now
      rw [granted_eq_zero hover, Nat.cast_zero]
      linarith

/-- **A run grants no more in a window than the capacity and what is refilled meanwhile.** -/
theorem Levels.granted_le (h : Levels next grants Good limit time counts level)
    (hle : start ≤ stop) (hstart : ∀ i, counts i → start ≤ time i)
    (hstop : ∀ i, counts i → time i ≤ stop) : ∀ {is : List ι} {s : σ},
    is.Pairwise (fun i j => time i ≤ time j) → Runs.Along next Good s is →
    (granted next grants counts s is : K) ≤ limit.capacity + (stop - start) * limit.refill := by
  intro is
  induction is with
  | nil =>
    intro s _ _
    have hgain := mul_nonneg (sub_nonneg.mpr hle) limit.refill_nonneg
    have hcapacity := limit.capacity_nonneg
    rw [granted, Nat.cast_zero]
    linarith
  | cons i is ih =>
    intro s hsorted halong
    by_cases hi : time i < start
    · rw [granted_cons, if_neg fun hcounts => absurd (hstart i hcounts.1) (not_le.mpr hi),
        Nat.zero_add]
      exact ih (List.pairwise_cons.mp hsorted).2 halong.2
    · have htimes : ∀ j ∈ i :: is, start ≤ time j := by
        intro j hj
        rcases List.mem_cons.mp hj with rfl | hj
        · exact not_lt.mp hi
        · exact (not_lt.mp hi).trans ((List.pairwise_cons.mp hsorted).1 j hj)
      have hinside := h.granted_le_level hstop hle htimes hsorted halong
      have hcapacity := h.le_capacity s start
      linarith

end Budget

end TokenBucket
