import Cloudscale.Adapters.CommandUnitOfWork
import Mathlib.Data.List.Sort

/-!
# Retention

The part of the retention job that deletes rows of `command_results`: batches of
at most `batchSize` rows, oldest first, until one deletes nothing.  Every batch
is a transaction of its own, so calls may come between two of them.

`pruneResults_eq` says what is left: the rows that are not older than the
cutoff.  The log is not touched.
-/

namespace Cloudscale

open Checked Python

/-- The policy for `command_results`; the cutoff is an input of the job. -/
structure RetentionPolicy where
  batchSize : Nat
  batch_ok : 0 < batchSize

structure RetentionReport where
  commandResults : Nat
  batches : Nat
  deriving DecidableEq

namespace Store

/-- The oldest rows before the cutoff, at most `batchSize` of them. -/
def oldestResults (s : Store) (cutoff : Datetime) (batchSize : Nat) : List ResultRow :=
  ((s.results.filter (fun row => row.createdAt < cutoff)).insertionSort
    (fun row row' => row.createdAt ≤ row'.createdAt)).take batchSize

/-- `results_batch`: delete one batch; how many rows it deleted. -/
def resultsBatch (s : Store) (cutoff : Datetime) (policy : RetentionPolicy) : Nat × Store :=
  let victims := (s.oldestResults cutoff policy.batchSize).map ResultRow.commandId
  let kept := s.results.filter (fun row => row.commandId ∉ victims)
  (s.results.length - kept.length, { s with results := kept })

end Store

/-- `_batched`: run batches until one deletes nothing. -/
def batched (executeBatch : Store → Nat × Store) :
    Nat → RetentionReport → Store → Option (RetentionReport × Store)
  | 0, _, _ => none
  | fuel + 1, report, s =>
    let (deleted, s') := executeBatch s
    let report' : RetentionReport := ⟨report.commandResults + deleted, report.batches + 1⟩
    if deleted = 0 then some (report', s') else batched executeBatch fuel report' s'

/-- The pruning of `command_results`. -/
def pruneResults (cutoff : Datetime) (policy : RetentionPolicy) (s : Store) :
    Option (RetentionReport × Store) :=
  batched (·.resultsBatch cutoff policy) (s.results.length + 1) ⟨0, 0⟩ s

namespace Store

variable {s : Store} {cutoff : Datetime} {policy : RetentionPolicy}

theorem mem_oldestResults {batchSize : Nat} {row : ResultRow}
    (h : row ∈ s.oldestResults cutoff batchSize) : row ∈ s.results ∧ row.createdAt < cutoff := by
  have hmem := (List.perm_insertionSort _ _).mem_iff.mp (List.mem_of_mem_take h)
  exact ⟨List.mem_of_mem_filter hmem, by simpa using List.of_mem_filter hmem⟩

theorem resultsBatch_keeps (hdistinct : (s.results.map ResultRow.commandId).Nodup)
    {row : ResultRow} (hrow : row ∈ s.results) (hnew : ¬ row.createdAt < cutoff) :
    row ∈ (s.resultsBatch cutoff policy).2.results := by
  refine List.mem_filter.mpr ⟨hrow, ?_⟩
  rw [decide_eq_true_eq, List.mem_map]
  rintro ⟨row', hrow', hid⟩
  obtain ⟨hmem, hold⟩ := mem_oldestResults hrow'
  rw [List.inj_on_of_nodup_map hdistinct hmem hrow hid] at hold
  exact hnew hold

theorem resultsBatch_zero (h : (s.resultsBatch cutoff policy).1 = 0) :
    (s.resultsBatch cutoff policy).2 = s ∧ ∀ row ∈ s.results, ¬ row.createdAt < cutoff := by
  set victims := (s.oldestResults cutoff policy.batchSize).map ResultRow.commandId with hvictims
  have hkept : s.results.filter (fun row => row.commandId ∉ victims) = s.results := by
    refine List.Sublist.eq_of_length_le List.filter_sublist ?_
    exact Nat.sub_eq_zero_iff_le.mp h
  refine ⟨by rw [resultsBatch, ← hvictims, hkept], fun row hrow hold => ?_⟩
  obtain ⟨oldest, holdest⟩ : ∃ row, row ∈ s.oldestResults cutoff policy.batchSize := by
    refine List.exists_mem_of_ne_nil _ fun hnil => ?_
    have hlength := congrArg List.length hnil
    have hmem : row ∈ s.results.filter (fun row => row.createdAt < cutoff) :=
      List.mem_filter.mpr ⟨hrow, decide_eq_true hold⟩
    have hpos := List.length_pos_of_mem hmem
    have hbatch := policy.batch_ok
    rw [oldestResults, List.length_take, List.length_insertionSort, List.length_nil] at hlength
    omega
  have hself := List.filter_eq_self.mp hkept oldest (mem_oldestResults holdest).1
  rw [decide_eq_true_eq] at hself
  exact hself (List.mem_map_of_mem holdest)

theorem resultsBatch_filter (hdistinct : (s.results.map ResultRow.commandId).Nodup) :
    (s.resultsBatch cutoff policy).2.results.filter (fun row => ¬ row.createdAt < cutoff) =
      s.results.filter (fun row => ¬ row.createdAt < cutoff) := by
  show (s.results.filter _).filter _ = _
  rw [List.filter_comm]
  refine List.filter_eq_self.mpr fun row hrow => ?_
  obtain ⟨hrow, hnew⟩ := List.mem_filter.mp hrow
  have hkept : row ∈ (s.resultsBatch cutoff policy).2.results :=
    resultsBatch_keeps hdistinct hrow (of_decide_eq_true hnew)
  exact (List.mem_filter.mp hkept).2

end Store

theorem batched_resultsBatch {cutoff : Datetime} {policy : RetentionPolicy} :
    ∀ (fuel : Nat) (report : RetentionReport) {s : Store},
    (s.results.map ResultRow.commandId).Nodup → s.results.length < fuel →
    ∃ report', batched (·.resultsBatch cutoff policy) fuel report s =
      some (report', { s with results := s.results.filter (fun row => ¬ row.createdAt < cutoff) }) := by
  intro fuel
  induction fuel with
  | zero => intro _ _ _ h; exact absurd h (Nat.not_lt_zero _)
  | succ fuel ih =>
    intro report s hdistinct hfuel
    rw [batched]
    dsimp only
    split
    next hzero =>
      obtain ⟨hsame, hnew⟩ := Store.resultsBatch_zero hzero
      rw [hsame, List.filter_eq_self.mpr (fun row hrow => by simpa using hnew row hrow)]
      exact ⟨_, rfl⟩
    next hdeleted =>
      have hshorter : (s.resultsBatch cutoff policy).2.results.length < fuel := by
        have hle : (s.resultsBatch cutoff policy).2.results.length ≤ s.results.length :=
          List.length_filter_le _ _
        have hcount : (s.resultsBatch cutoff policy).1 =
          s.results.length - (s.resultsBatch cutoff policy).2.results.length := rfl
        omega
      obtain ⟨report', hrest⟩ := ih ⟨_, _⟩ (hdistinct.sublist (List.filter_sublist.map _)) hshorter
      rw [hrest, Store.resultsBatch_filter hdistinct]
      exact ⟨report', rfl⟩

/-- **Pruning ends and leaves the rows that are not older than the cutoff.** -/
theorem pruneResults_eq (cutoff : Datetime) (policy : RetentionPolicy) {s : Store}
    (hdistinct : (s.results.map ResultRow.commandId).Nodup) :
    ∃ report, pruneResults cutoff policy s =
      some (report, { s with results := s.results.filter (fun row => ¬ row.createdAt < cutoff) }) :=
  batched_resultsBatch _ _ hdistinct (Nat.lt_succ_self _)

end Cloudscale
