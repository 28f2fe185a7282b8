import Cloudscale.Ledger.Reachable

/-!
# Conservation

Only deposits and withdrawals change what all accounts have together.  The log is
regrouped by id: every set and every hold moves zero in total
(`SetShape.balanced`), and the events without an id are the cash.  What the log
posts to its accounts sums to what it moves, and each account's balance is what
the log posts to it.
-/

namespace Cloudscale

open Checked Python DoubleEntry

theorem SetShape.balanced {rows : List EventRow} (h : SetShape rows) :
    moved (fun r => r.event.balanceDelta) rows = 0 := by
  cases h with
  | movement legs accounts balanced => exact balanced
  | placed event => simp [event]
  | released event releases => simp [event, releases.event]
  | @captured r posted credited p rows rest q c event settles =>
    have hrest : moved (fun r => r.event.balanceDelta) rest = 0 := by
      cases settles.closes with
      | whole => rfl
      | part event => simp [event]
    rw [moved_cons, moved_perm settles.perm, moved_cons, moved_cons, hrest, event, settles.posts,
      settles.credits, AccountEvent.balanceDelta_holdPlaced, AccountEvent.balanceDelta_holdPosted,
      AccountEvent.balanceDelta_transferCredited, settles.amount]
    omega

/-- The amount of a `Deposited`. -/
def AccountEvent.depositedAmount : AccountEvent → Int
  | .deposited e => e.amount
  | _ => 0

/-- The amount of a `Withdrawn`. -/
def AccountEvent.withdrawnAmount : AccountEvent → Int
  | .withdrawn e => e.amount
  | _ => 0

theorem AccountEvent.cash_delta (e : AccountEvent) :
    (if e.setId = none then e.balanceDelta else 0) = e.depositedAmount - e.withdrawnAmount := by
  cases e <;> simp [setId, depositedAmount, withdrawnAmount]

namespace Store

/-- The sum of the `Deposited` amounts of the log. -/
def deposited (s : Store) : Int := (s.events.map (fun r => r.event.depositedAmount)).sum

/-- The sum of the `Withdrawn` amounts of the log. -/
def withdrawn (s : Store) : Int := (s.events.map (fun r => r.event.withdrawnAmount)).sum

def accounts (s : Store) : Finset String := (s.events.map (fun r => r.event.accountId)).toFinset

theorem moved_cash (s : Store) :
    moved (fun r => r.event.balanceDelta) (s.events.filter (fun r => r.event.setId = none)) =
      s.deposited - s.withdrawn := by
  rw [deposited, withdrawn]
  induction s.events with
  | nil => rfl
  | cons r events ih =>
    have hcash := r.event.cash_delta
    rw [List.map_cons, List.map_cons, List.sum_cons, List.sum_cons]
    by_cases hid : r.event.setId = none
    · rw [if_pos hid] at hcash
      rw [List.filter_cons_of_pos (by simpa using hid), moved_cons, ih, hcash]
      omega
    · rw [if_neg hid] at hcash
      rw [List.filter_cons_of_neg (by simpa using hid), ih]
      omega

/-- **What the log moves is the cash.** -/
theorem Coherent.moved_events {s : Store} (h : s.Coherent) :
    moved (fun r => r.event.balanceDelta) s.events = s.deposited - s.withdrawn := by
  have hkeys : ∀ r ∈ s.events, ∀ t, r.event.setId = some t →
      t ∈ (s.events.filterMap (fun r => r.event.setId)).toFinset := by
    intro r hr t ht
    exact List.mem_toFinset.mpr (List.mem_filterMap.mpr ⟨r, hr, ht⟩)
  rw [moved_eq_sum_keys (fun r : EventRow => r.event.setId) _ hkeys, moved_cash]
  exact (congrArg _ (Finset.sum_eq_zero fun t _ => (h.shapes t).balanced)).trans (add_zero _)

/-- **The balances sum to the deposits less the withdrawals.** -/
theorem Coherent.sum_balance {s : Store} (h : s.Coherent) :
    ∑ a ∈ s.accounts, (s.account a).balance = s.deposited - s.withdrawn := by
  have hposted : ∑ a ∈ s.accounts, posted (fun r => r.event.accountId)
      (fun r => r.event.balanceDelta) s.events a = moved (fun r => r.event.balanceDelta) s.events :=
    sum_posted s.accounts fun r hr => List.mem_toFinset.mpr (List.mem_map_of_mem hr)
  rw [← h.moved_events, ← hposted]
  exact Finset.sum_congr rfl fun a _ => account_balance h.readable a

end Store

/-- **Conservation and bounds.** In every reachable store every stream folds,
within the bounds of an account, and the balances of the accounts of the log sum
to the deposits less the withdrawals; an account that is not in the log has none. -/
theorem ledger_conserves (calls : List Call) :
    (∀ a, (storeAfter calls).foldStream a = .ok ((storeAfter calls).account a) ∧
      0 ≤ ((storeAfter calls).account a).held ∧
      ((storeAfter calls).account a).held ≤ ((storeAfter calls).account a).balance ∧
      ((storeAfter calls).account a).balance ≤ maxSignedBigint ∧
      (a ∉ (storeAfter calls).accounts → ((storeAfter calls).account a).balance = 0)) ∧
    ∑ a ∈ (storeAfter calls).accounts, ((storeAfter calls).account a).balance =
      (storeAfter calls).deposited - (storeAfter calls).withdrawn := by
  have h := (ledger_storeAfter calls).coherent
  refine ⟨fun a => ⟨Store.foldStream_eq h.readable a, ?_, ?_, ?_, fun ha => ?_⟩, h.sum_balance⟩
  · exact ((storeAfter calls).account a).valid.held_nonneg
  · exact ((storeAfter calls).account a).valid.held_le
  · exact ((storeAfter calls).account a).valid.balance_le
  · rw [Store.account_balance h.readable]
    refine posted_of_forall_ne fun r hr hra => ha ?_
    rw [← hra]
    exact List.mem_toFinset.mpr (List.mem_map_of_mem (f := fun r => r.event.accountId) hr)

end Cloudscale
