import Cloudscale.Adapters.ProjectionStore
import Cloudscale.Domain.Results

/-!
# Reading the projections

`getBalance` makes a `BalanceView` of the row that a projection store answers, or
nothing of a row without a version.  The view checks its numbers, so a row can be
refused: `getBalance_isOk_iff` says which rows are answered.
-/

namespace Cloudscale

open Checked

variable {V : Type}

def getBalance (tier : Tier V) (p : ProjectionStore V) (accountId : String) :
    Except PyError (Option BalanceView) := do
  let row := p.balance tier accountId
  if row.version = 0 then pure none
  else
    let view ← BalanceView.new accountId row.balance row.version row.held
    pure (some view)

theorem getBalance_isOk_iff {tier : Tier V} {p : ProjectionStore V} {a : String} :
    (∃ view, getBalance tier p a = .ok view) ↔ (p.balance tier a).version = 0 ∨
      ∃ view, BalanceView.new a (p.balance tier a).balance (p.balance tier a).version
        (p.balance tier a).held = .ok view := by
  rw [getBalance]
  by_cases hversion : (p.balance tier a).version = 0
  · simp only [if_pos hversion]
    exact ⟨fun _ => Or.inl hversion, fun _ => ⟨none, rfl⟩⟩
  · simp only [if_neg hversion]
    constructor
    · rintro ⟨view, h⟩
      obtain ⟨view', h', -⟩ := bind_eq_ok.mp h
      exact Or.inr ⟨view', h'⟩
    · rintro (h | ⟨view, h⟩)
      · exact absurd h hversion
      · exact ⟨some view, bind_eq_ok.mpr ⟨view, h, rfl⟩⟩

end Cloudscale
