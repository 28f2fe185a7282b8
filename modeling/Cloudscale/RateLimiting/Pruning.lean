import Cloudscale.Entrypoints.Retention
import Cloudscale.RateLimiting.Budget
import Mathlib.Data.List.ReduceOption

/-!
# Pruning the buckets

The retention job deletes the buckets that were not touched for a number of idle seconds,
in batches, until one deletes nothing (`prunePass_ends`).  A batch is a statement of its own,
so requests may come between two of them, and which of the rows it takes is up to the
database.

A bucket that was idle for a whole refill is full, and it does not matter whether it is
kept.  A whole refill takes a minute, whatever the limit is, so pruning changes no
decision exactly when the policy waits for at least 60 seconds (`pruning_unseen_iff`).
-/

namespace Cloudscale

open Tables TokenBucket

/-! ### The batches -/

/-- The policy for `rate_limit_buckets`. -/
structure BucketRetention (K : Type) [Zero K] [LT K] extends RetentionPolicy where
  rateLimitIdleSeconds : K
  idle_pos : 0 < rateLimitIdleSeconds

variable {K : Type} [Field K] [LinearOrder K]

/-- `updated_at < idle_before`. -/
def idleRows (rows : Buckets K) (idleBefore : K) (key : String) : Bool :=
  (rows.find key).any fun row => row.updated < idleBefore

/-- `buckets_batch`: the rows that are left.  The database meets the keys in some order. -/
def bucketsBatch (policy : BucketRetention K) (moment : K) (keys : List String)
    (rows : Buckets K) : Buckets K :=
  ((keys.filter (idleRows rows (moment - policy.rateLimitIdleSeconds))).take
    policy.batchSize).foldl Table.erase rows

/-- A request, or a batch of a pass that began at a moment. -/
inductive RateMove (K : Type)
  | request (r : RateRequest K)
  | batch (now moment : K) (keys : List String)

namespace RateMove

def time : RateMove K → K
  | request r => r.now
  | batch now _ _ => now

def isRequest : RateMove K → Bool
  | request _ => true
  | batch _ _ _ => false

def Begun : RateMove K → Prop
  | request _ => True
  | batch now moment _ => moment ≤ now

instance : (move : RateMove K) → Decidable move.Begun
  | request _ => isTrue trivial
  | batch now moment _ => inferInstanceAs (Decidable (moment ≤ now))

variable (config : RateLimit)

def next (policy : BucketRetention K) (rows : Buckets K) : RateMove K → Buckets K
  | request r => PostgresRateLimiter.next config rows r
  | batch _ moment keys => bucketsBatch policy moment keys rows

def decision (rows : Buckets K) : RateMove K → Option Bool
  | request r => some (PostgresRateLimiter.reply config rows r).1
  | batch _ _ _ => none

/-- What the requests of a run are answered. -/
def decisions (policy : BucketRetention K) (moves : List (RateMove K)) : List Bool :=
  (Runs.outputs (next config policy) (decision config) .empty moves).reduceOption

structure OnClock (moves : List (RateMove K)) : Prop where
  sorted : moves.Pairwise (fun move move' => move.time ≤ move'.time)
  begun : ∀ move ∈ moves, move.Begun

/-- The rows after a move that is a request, and as they are after a batch. -/
def nextRequest (rows : Buckets K) : RateMove K → Buckets K
  | request r => PostgresRateLimiter.next config rows r
  | batch _ _ _ => rows

theorem outputs_filter (policy : BucketRetention K) : ∀ (moves : List (RateMove K))
    (rows : Buckets K), (Runs.outputs (nextRequest config) (decision config) rows moves).reduceOption =
      (Runs.outputs (next config policy) (decision config) rows
        (moves.filter isRequest)).reduceOption := by
  intro moves
  induction moves with
  | nil => exact fun _ => rfl
  | cons move moves ih =>
    intro rows
    cases move with
    | request r =>
      rw [List.filter_cons_of_pos rfl, Runs.outputs, Runs.outputs, decision,
        List.reduceOption_cons_of_some, List.reduceOption_cons_of_some, ih]
      rfl
    | batch now moment keys =>
      rw [List.filter_cons_of_neg Bool.false_ne_true, Runs.outputs, decision,
        List.reduceOption_cons_of_none, ← ih]
      rfl

variable {config}

theorem outputs_requests (policy : BucketRetention K) : ∀ (requests : List (RateRequest K))
    (rows : Buckets K), Runs.outputs (next config policy) (decision config) rows
        (requests.map request) =
      (Runs.outputs (PostgresRateLimiter.next config)
        (fun rows r => (PostgresRateLimiter.reply config rows r).1) rows requests).map some := by
  intro requests
  induction requests with
  | nil => exact fun _ => rfl
  | cons r requests ih =>
    intro rows
    rw [List.map_cons, Runs.outputs, Runs.outputs, List.map_cons, ih]
    rfl

theorem run_requests (policy : BucketRetention K) (requests : List (RateRequest K))
    (rows : Buckets K) : Runs.run (next config policy) rows (requests.map request) =
      Runs.run (PostgresRateLimiter.next config) rows requests := by
  rw [Runs.run, Runs.run, List.foldl_map]
  rfl

end RateMove

theorem find_bucketsBatch (policy : BucketRetention K) (moment : K) (keys : List String)
    (rows : Buckets K) (key : String) :
    (bucketsBatch policy moment keys rows).find key = rows.find key ∨
      (bucketsBatch policy moment keys rows).find key = none ∧ ∃ row, rows.find key = some row ∧
        row.updated < moment - policy.rateLimitIdleSeconds := by
  rw [bucketsBatch, Table.find_eraseAll]
  split
  next hmem =>
    have hidle := (List.mem_filter.mp (List.mem_of_mem_take hmem)).2
    rw [idleRows] at hidle
    cases hrow : rows.find key with
    | none =>
      rw [hrow] at hidle
      cases hidle
    | some row =>
      rw [hrow] at hidle
      exact Or.inr ⟨rfl, row, rfl, of_decide_eq_true hidle⟩
  next => exact Or.inl rfl

/-- A batch deletes the row of a key that it meets, if it is idle. -/
theorem find_bucketsBatch_self {policy : BucketRetention K} {moment : K} {rows : Buckets K}
    {key : String} (h : ∀ row, rows.find key = some row →
      row.updated < moment - policy.rateLimitIdleSeconds) :
    (bucketsBatch policy moment [key] rows).find key = none := by
  rw [bucketsBatch, Table.find_eraseAll]
  cases hrow : rows.find key with
  | none => exact ite_self _
  | some row =>
    have hidle : idleRows rows (moment - policy.rateLimitIdleSeconds) key = true := by
      rw [idleRows, hrow]
      exact decide_eq_true (h row hrow)
    rw [List.filter_cons_of_pos hidle, List.filter_nil, List.take_of_length_le policy.batch_ok]
    exact if_pos (List.mem_singleton.mpr rfl)

/-! ### A whole pass -/

/-- `_batched`: batches until one deletes nothing. -/
def prunePass (policy : BucketRetention K) (moment : K) (keys : List String) :
    ℕ → Buckets K → Option (Buckets K)
  | 0, _ => none
  | fuel + 1, rows =>
    let left := bucketsBatch policy moment keys rows
    if rows.entries.length - left.entries.length = 0 then some left
    else prunePass policy moment keys fuel left

section Passes

variable {policy : BucketRetention K} {moment : K} {keys : List String}

theorem prunePass_run (config : RateLimit) (now : K) : ∀ (fuel : ℕ) {rows left : Buckets K},
    prunePass policy moment keys fuel rows = some left → ∃ batches, left =
      Runs.run (RateMove.next config policy) rows
        (List.replicate batches (.batch now moment keys)) := by
  intro fuel
  induction fuel with
  | zero => exact fun h => nomatch h
  | succ fuel ih =>
    intro rows left h
    rw [prunePass] at h
    split at h
    next =>
      cases h
      exact ⟨1, rfl⟩
    next =>
      obtain ⟨batches, hbatches⟩ := ih h
      exact ⟨batches + 1, hbatches⟩

theorem not_idle_of_batch {rows : Buckets K}
    (h : rows.entries.length ≤ (bucketsBatch policy moment keys rows).entries.length)
    {key : String} (hkey : key ∈ keys) :
    idleRows rows (moment - policy.rateLimitIdleSeconds) key = false := by
  by_contra hidle
  rw [Bool.not_eq_false] at hidle
  have hsame : bucketsBatch policy moment keys rows = rows :=
    Table.eq_of_length_le (Table.sublist_eraseAll _ _) h
  have hmem : key ∈ keys.filter (idleRows rows (moment - policy.rateLimitIdleSeconds)) :=
    List.mem_filter.mpr ⟨hkey, hidle⟩
  obtain ⟨victim, rest, hvictims⟩ := List.exists_cons_of_ne_nil (List.ne_nil_of_mem hmem)
  have hbatch : victim ∈ (keys.filter
      (idleRows rows (moment - policy.rateLimitIdleSeconds))).take policy.batchSize := by
    obtain ⟨size, hsize⟩ := Nat.exists_eq_succ_of_ne_zero policy.batch_ok.ne'
    rw [hvictims, hsize, List.take_succ_cons]
    exact List.mem_cons_self
  have hgone : (bucketsBatch policy moment keys rows).find victim = none := by
    rw [bucketsBatch, Table.find_eraseAll, if_pos hbatch]
  have hvictim := (List.mem_filter.mp (List.mem_of_mem_take hbatch)).2
  rw [hsame] at hgone
  rw [idleRows, hgone] at hvictim
  cases hvictim

/-- **A pass ends**, and no key that it meets has an idle row left. -/
theorem prunePass_ends : ∀ (fuel : ℕ) {rows : Buckets K}, rows.entries.length < fuel →
    ∃ left, prunePass policy moment keys fuel rows = some left ∧
      ∀ key ∈ keys, idleRows left (moment - policy.rateLimitIdleSeconds) key = false := by
  intro fuel
  induction fuel with
  | zero => exact fun h => absurd h (Nat.not_lt_zero _)
  | succ fuel ih =>
    intro rows hfuel
    rw [prunePass]
    split
    next hnothing =>
      have hle := Nat.sub_eq_zero_iff_le.mp hnothing
      have hsame : bucketsBatch policy moment keys rows = rows :=
        Table.eq_of_length_le (Table.sublist_eraseAll _ _) hle
      refine ⟨_, rfl, fun key hkey => ?_⟩
      rw [hsame]
      exact not_idle_of_batch hle hkey
    next hdeleted =>
      exact ih (by omega)

end Passes

/-! ### A pass between two bursts -/

/-- The requests of a key at one time. -/
def burst (key : String) (now : K) (n : ℕ) : List (RateRequest K) := List.replicate n ⟨key, now⟩

/-- A key spends its limit, a pass follows after some seconds, and the key comes again. -/
def aroundPass (n : ℕ) (wait : K) : List (RateMove K) :=
  (burst "a" 0 n).map .request ++ [.batch wait wait ["a"], .batch wait wait ["a"]] ++
    (burst "a" wait n).map .request

theorem onClock_aroundPass (n : ℕ) {wait : K} (h : 0 ≤ wait) :
    RateMove.OnClock (aroundPass n wait) := by
  have htime : ∀ {now : K} {move : RateMove K}, move ∈ (burst "a" now n).map RateMove.request →
      move.time = now ∧ move.Begun := by
    intro now move hmove
    obtain ⟨r, hr, rfl⟩ := List.mem_map.mp hmove
    rw [List.eq_of_mem_replicate hr]
    exact ⟨rfl, trivial⟩
  have hbatches : ∀ move ∈ ([.batch wait wait ["a"], .batch wait wait ["a"]] : List (RateMove K)),
      move.time = wait ∧ move.Begun := by
    intro move hmove
    simp only [List.mem_cons, List.not_mem_nil, or_false, or_self] at hmove
    rw [hmove]
    exact ⟨rfl, le_rfl⟩
  have hsame : ∀ {l : List (RateMove K)} {now : K}, (∀ move ∈ l, move.time = now ∧ move.Begun) →
      l.Pairwise (fun move move' => move.time ≤ move'.time) := fun hl =>
    List.pairwise_iff_forall_sublist.mpr fun hsub =>
      ((hl _ (hsub.subset List.mem_cons_self)).1.trans
        (hl _ (hsub.subset (List.mem_cons_of_mem _ List.mem_cons_self))).1.symm).le
  constructor
  · refine List.pairwise_append.mpr ⟨List.pairwise_append.mpr ⟨hsame fun _ => htime,
      hsame hbatches, fun move hmove move' hmove' => ?_⟩, hsame fun _ => htime,
      fun move hmove move' hmove' => ?_⟩
    · rw [(htime hmove).1, (hbatches move' hmove').1]
      exact h
    · rw [(htime hmove').1]
      rcases List.mem_append.mp hmove with hmove | hmove
      · rw [(htime hmove).1]
        exact h
      · exact (hbatches move hmove).1.le
  · intro move hmove
    rcases List.mem_append.mp hmove with hmove | hmove
    · rcases List.mem_append.mp hmove with hmove | hmove
      · exact (htime hmove).2
      · exact (hbatches move hmove).2
    · exact (htime hmove).2

theorem reduceOption_map_some {α : Type} (l : List α) : (l.map some).reduceOption = l := by
  rw [List.reduceOption, List.filterMap_map]
  exact List.filterMap_some

variable [IsStrictOrderedRing K] {config : RateLimit}

/-! ### Waiting for a whole refill -/

def Funded (rows : Buckets K) : Prop := ∀ k row, rows.find k = some row → 0 ≤ row.tokens

theorem Funded.next (henabled : config.Enabled K) {rows : Buckets K} (h : Funded rows)
    (r : RateRequest K) : Funded (PostgresRateLimiter.next config rows r) := by
  rw [PostgresRateLimiter.next, PostgresRateLimiter.tryAcquire_eq henabled]
  dsimp only
  split
  next hlevel =>
    intro k row hrow
    rw [Table.find_put] at hrow
    split at hrow
    next =>
      cases hrow
      rw [Limit.draw, if_pos hlevel]
      exact sub_nonneg.mpr hlevel
    next => exact h k row hrow
  next => exact h

/-- **What a batch deletes is full again**, when the policy waits for a whole refill. -/
theorem sameBuckets_bucketsBatch {policy : BucketRetention K}
    (hidle : 60 ≤ policy.rateLimitIdleSeconds) {now moment : K} (hbegun : moment ≤ now)
    {rows : Buckets K} (hrows : Funded rows) (keys : List String) :
    SameBuckets config.limit now (bucketsBatch policy moment keys rows) rows := by
  intro key
  rcases find_bucketsBatch policy moment keys rows key with hkept | ⟨hdeleted, row, hrow, hupdated⟩
  · rw [hkept]
    exact .refl _ _
  · rw [hdeleted, hrow]
    have hwaited : 60 ≤ now - row.updated := by linarith
    have hrefill : config.limit.capacity = 60 * (config.limit (K := K)).refill := by
      show (config.perMinute : K) = 60 * (config.perMinute / 60)
      ring
    refine Limit.sameFrom_full (Limit.full_of_idle (hrows key row hrow) ?_)
    rw [hrefill]
    exact mul_le_mul_of_nonneg_right hwaited config.limit.refill_nonneg

/-- **Passes that wait for a whole refill change no decision.** -/
theorem decisions_eq (henabled : config.Enabled K) {policy : BucketRetention K}
    (hidle : 60 ≤ policy.rateLimitIdleSeconds) {moves : List (RateMove K)}
    (h : RateMove.OnClock moves) : RateMove.decisions config policy moves =
      RateMove.decisions config policy (moves.filter RateMove.isRequest) := by
  rw [RateMove.decisions, RateMove.decisions, ← RateMove.outputs_filter]
  refine congrArg _ (Runs.outputs_eq_of_clock (R := fun now rows rows' =>
    SameBuckets config.limit now rows rows' ∧ Funded rows) (G := RateMove.Begun)
    (fun now rows rows' move hrelated hnow hbegun => ?_)
    (fun now => ⟨fun k => .refl _ _, fun k row hrow => nomatch hrow⟩) h.sorted h.begun)
  obtain ⟨hsame, hfunded⟩ := hrelated
  cases move with
  | request r =>
    refine ⟨?_, (PostgresRateLimiter.drawn_next henabled).sameBuckets
      (PostgresRateLimiter.drawn_next henabled) fun k => (hsame k).mono hnow,
      hfunded.next henabled r⟩
    rw [RateMove.decision, RateMove.decision, PostgresRateLimiter.reply_eq henabled,
      PostgresRateLimiter.reply_eq henabled, hsame r.key r.now hnow]
  | batch time moment keys =>
    refine ⟨rfl, fun k => ?_, fun k row hrow => ?_⟩
    · exact (sameBuckets_bucketsBatch hidle hbegun hfunded keys k).trans ((hsame k).mono hnow)
    · rcases find_bucketsBatch policy moment keys rows k with hkept | ⟨hdeleted, -⟩
      · exact hfunded k row (hkept ▸ hrow)
      · have hgone := hdeleted.symm.trans hrow
        cases hgone

/-! ### Waiting for less -/

/-- A burst of no more requests than there are tokens is granted. -/
theorem outputs_burst (henabled : config.Enabled K) (key : String) (now : K) : ∀ (n : ℕ)
    (rows : Buckets K), (n : K) ≤ config.limit.level (rows.find key) now →
    Runs.outputs (PostgresRateLimiter.next config)
        (fun rows r => (PostgresRateLimiter.reply config rows r).1) rows (burst key now n) =
      List.replicate n true := by
  intro n
  induction n with
  | zero => exact fun _ _ => rfl
  | succ n ih =>
    intro rows h
    rw [Nat.cast_succ] at h
    have hlevel : 1 ≤ config.limit.level (rows.find key) now :=
      le_trans (le_add_of_nonneg_left n.cast_nonneg) h
    have hnext : (PostgresRateLimiter.next config rows ⟨key, now⟩).find key =
        some (config.limit.draw (rows.find key) now) := by
      rw [PostgresRateLimiter.next, PostgresRateLimiter.tryAcquire_eq henabled, if_pos hlevel,
        Table.find_put, if_pos rfl]
    have hdraw := config.limit.level_draw (rows.find key) now
    rw [if_pos hlevel, Nat.cast_one] at hdraw
    rw [burst, List.replicate_succ, List.replicate_succ, Runs.outputs,
      PostgresRateLimiter.reply_eq henabled, RateLimit.replyAt, if_pos hlevel]
    refine congrArg _ (ih _ ?_)
    rw [hnext]
    linarith

/-- After a burst the row of the key was updated at its time. -/
theorem updated_burst (henabled : config.Enabled K) (key : String) (now : K) : ∀ (n : ℕ)
    (rows : Buckets K), (∀ row, rows.find key = some row → row.updated = now) →
    ∀ row, (Runs.run (PostgresRateLimiter.next config) rows (burst key now n)).find key =
      some row → row.updated = now := by
  intro n
  induction n with
  | zero => exact fun _ h => h
  | succ n ih =>
    intro rows h
    refine ih _ fun row hrow => ?_
    rw [PostgresRateLimiter.next, PostgresRateLimiter.tryAcquire_eq henabled] at hrow
    dsimp only at hrow
    split at hrow
    next =>
      rw [Table.find_put, if_pos rfl] at hrow
      cases hrow
      rfl
    next => exact h row hrow

theorem decisions_aroundPass (henabled : config.Enabled K) {policy : BucketRetention K} {n : ℕ}
    (hn : (n : K) ≤ config.capacity) {wait : K} (hwait : policy.rateLimitIdleSeconds < wait) :
    RateMove.decisions config policy (aroundPass n wait) = List.replicate (n + n) true := by
  have hfull : ∀ rows : Buckets K, rows.find "a" = none → ∀ now : K,
      (n : K) ≤ config.limit.level (rows.find "a") now := by
    intro rows hnone now
    rw [hnone]
    exact hn
  have hpruned : ∀ rows : Buckets K, (∀ row, rows.find "a" = some row → row.updated = 0) →
      (bucketsBatch policy wait ["a"] (bucketsBatch policy wait ["a"] rows)).find "a" = none := by
    intro rows hrows
    have hfirst : (bucketsBatch policy wait ["a"] rows).find "a" = none := by
      refine find_bucketsBatch_self fun row hrow => ?_
      rw [hrows row hrow]
      exact sub_pos.mpr hwait
    refine find_bucketsBatch_self fun row hrow => ?_
    have hgone := hfirst.symm.trans hrow
    cases hgone
  rw [RateMove.decisions, aroundPass, Runs.outputs_append, Runs.outputs_append,
    RateMove.outputs_requests, RateMove.outputs_requests, Runs.run_append, RateMove.run_requests,
    List.reduceOption_append, List.reduceOption_append,
    outputs_burst henabled _ _ _ _ (hfull _ rfl 0), outputs_burst henabled _ _ _ _ (hfull _ ?_ wait)]
  · rw [reduceOption_map_some, List.replicate_add]
    exact congrArg (· ++ List.replicate n true) (List.append_nil _)
  · exact hpruned _ (updated_burst henabled "a" 0 n .empty fun row hrow => nomatch hrow)

theorem count_filter_aroundPass (hlimit : 1 ≤ config.perMinute) (policy : BucketRetention K) (n : ℕ)
    {wait : K} (hwait : 0 ≤ wait) :
    (((RateMove.decisions config policy
      ((aroundPass n wait).filter RateMove.isRequest)).count true : ℕ) : K) ≤
      config.perMinute * (1 + wait / 60) := by
  have hfilter : (aroundPass n wait).filter RateMove.isRequest =
      (burst "a" 0 n ++ burst "a" wait n).map RateMove.request := by
    have hall : ∀ l : List (RateRequest K),
        (l.map RateMove.request).filter RateMove.isRequest = l.map RateMove.request := fun l =>
      List.filter_eq_self.mpr fun move hmove => by
        obtain ⟨r, -, rfl⟩ := List.mem_map.mp hmove
        rfl
    rw [aroundPass, List.filter_append, List.filter_append, hall, hall, List.map_append]
    exact congrArg (· ++ _) (List.append_nil _)
  have hmem : ∀ r ∈ burst "a" 0 n ++ burst "a" wait n, r.key = "a" ∧ 0 ≤ r.now ∧ r.now ≤ wait := by
    intro r hr
    rcases List.mem_append.mp hr with hr | hr
    · rw [List.eq_of_mem_replicate hr]
      exact ⟨rfl, le_rfl, hwait⟩
    · rw [List.eq_of_mem_replicate hr]
      exact ⟨rfl, hwait, le_rfl⟩
  have hsorted : (burst "a" (0 : K) n ++ burst "a" wait n).Pairwise (fun r r' => r.now ≤ r'.now) := by
    have hmoves := (onClock_aroundPass n hwait).sorted.filter RateMove.isRequest
    rw [hfilter, List.pairwise_map] at hmoves
    exact hmoves
  have hbudget := PostgresRateLimiter.granted_le hlimit "a" hsorted 0 hwait
  rw [PostgresRateLimiter.grantsIn, granted_eq_count] at hbudget
  · rw [RateMove.decisions, hfilter, RateMove.outputs_requests, reduceOption_map_some]
    exact hbudget
  · intro r hr
    obtain ⟨hkey, hstart, hstop⟩ := hmem r hr
    exact decide_eq_true ⟨hkey, hstart, by rwa [zero_add]⟩

/-- **Pruning changes no decision exactly when the policy waits for a whole refill**, which
takes a minute. -/
theorem pruning_unseen_iff (hlimit : 1 ≤ config.perMinute) (policy : BucketRetention K) :
    (∀ moves : List (RateMove K), RateMove.OnClock moves →
      RateMove.decisions config policy moves =
        RateMove.decisions config policy (moves.filter RateMove.isRequest)) ↔
      60 ≤ policy.rateLimitIdleSeconds := by
  have henabled : config.Enabled K := Int.cast_pos.mpr (zero_lt_one.trans_le hlimit)
  refine ⟨fun h => ?_, fun hidle moves hmoves => decisions_eq henabled hidle hmoves⟩
  by_contra hshort
  rw [not_le] at hshort
  -- A pass between the idle limit and a whole refill.
  obtain ⟨wait, hwait, hrefill⟩ := exists_between hshort
  have hpos : 0 ≤ wait := (policy.idle_pos.trans hwait).le
  obtain ⟨n, hn⟩ := Int.eq_ofNat_of_zero_le config.nonneg
  have hcapacity : (n : K) = config.perMinute := by rw [hn, Int.cast_natCast]
  have hbudget := count_filter_aroundPass hlimit policy n hpos
  rw [← h _ (onClock_aroundPass n hpos), decisions_aroundPass henabled hcapacity.le hwait,
    List.count_replicate_self, Nat.cast_add, hcapacity] at hbudget
  have hlimit' : (0 : K) < config.perMinute := henabled
  have hless : (config.perMinute : K) * (wait / 60) < config.perMinute :=
    mul_lt_of_lt_one_right hlimit' ((div_lt_one (by norm_num)).mpr hrefill)
  linarith

def idleHour : BucketRetention ℚ := ⟨⟨5000, by decide⟩, 3600, by norm_num⟩

theorem pruning_unseen_hour : (60 : ℚ) ≤ idleHour.rateLimitIdleSeconds ∧
    ∀ moves : List (RateMove ℚ), RateMove.OnClock moves →
      RateMove.decisions ⟨2, by decide⟩ idleHour moves =
        RateMove.decisions ⟨2, by decide⟩ idleHour (moves.filter RateMove.isRequest) :=
  ⟨by decide +kernel, (pruning_unseen_iff (by decide) idleHour).mpr (by decide +kernel)⟩

def idleSecond : BucketRetention ℚ := ⟨⟨5000, by decide⟩, 1, by norm_num⟩

/-- **A pass resets a bucket that is not full again**: with a limit of one, a second request
is allowed two seconds after the first. -/
theorem pruning_seen_second : RateMove.OnClock (aroundPass 1 (2 : ℚ)) ∧
    RateMove.decisions ⟨1, by decide⟩ idleSecond (aroundPass 1 2) = [true, true] ∧
    RateMove.decisions ⟨1, by decide⟩ idleSecond ((aroundPass 1 2).filter RateMove.isRequest) =
      [true, false] :=
  ⟨onClock_aroundPass 1 (by decide +kernel), by decide +kernel, by decide +kernel⟩

end Cloudscale
