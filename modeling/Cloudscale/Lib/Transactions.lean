import Cloudscale.Lib.Checked

/-!
# Transactions

A transaction is a computation over a state that can fail: `StateT σ (Except ε)`.
The lemmas read a success apart, one step at a time, as those of `Checked` do for
`Except`.  `attempt` is a `try` that handles some of the errors; what it runs
keeps no change of the state when it fails, which is no loss for a computation
that only reads.

A query is a function of the state that leaves it as it is; queries in sequence
are a query (`query_bind_query`), so a computation that only reads can be run on
the state once and for all.
-/

namespace Transactions

open Checked

/-- Run `x`; an error that is handled becomes a value. -/
def attempt {m : Type → Type} {ε α δ : Type} [Monad m] [MonadExcept ε m] (handled : ε → Option δ)
    (x : m α) : m (α ⊕ δ) :=
  tryCatch (Sum.inl <$> x) fun e =>
    match handled e with
    | some d => pure (.inr d)
    | none => throw e

variable {σ ε α β δ : Type}

/-- A function of the state, as a transaction that does not change it. -/
def query (f : σ → Except ε α) : StateT σ (Except ε) α := fun s => (f s).map (·, s)

theorem run_bind_eq_ok {x : StateT σ (Except ε) α} {f : α → StateT σ (Except ε) β} {s : σ}
    {r : β × σ} :
    (x >>= f).run s = .ok r ↔ ∃ a s', x.run s = .ok (a, s') ∧ (f a).run s' = .ok r := by
  rw [StateT.run_bind, bind_eq_ok]
  constructor
  · rintro ⟨⟨a, s'⟩, hx, hf⟩
    exact ⟨a, s', hx, hf⟩
  · rintro ⟨a, s', hx, hf⟩
    exact ⟨(a, s'), hx, hf⟩

theorem run_bind_of {x : StateT σ (Except ε) α} {f : α → StateT σ (Except ε) β} {s s' : σ} {a : α}
    (hx : x.run s = .ok (a, s')) : (x >>= f).run s = (f a).run s' := by
  rw [StateT.run_bind, hx, ok_bind]

theorem run_pure_eq_ok {a b : α} {s s' : σ} :
    (pure a : StateT σ (Except ε) α).run s = .ok (b, s') ↔ b = a ∧ s' = s := by
  rw [StateT.run_pure, pure_eq_ok, Except.ok.injEq, Prod.mk.injEq]
  exact and_congr eq_comm eq_comm

theorem run_ofExcept_eq_ok {x : Except ε α} {a : α} {s s' : σ} :
    (MonadExcept.ofExcept x : StateT σ (Except ε) α).run s = .ok (a, s') ↔
      x = .ok a ∧ s' = s := by
  cases x with
  | error e => exact ⟨(fun h => nomatch h), (fun h => nomatch h.1)⟩
  | ok b =>
    rw [Except.ok.injEq]
    exact run_pure_eq_ok.trans (and_congr_left fun _ => eq_comm)

theorem run_ofExcept_of {a : α} {x : Except ε α} (h : x = .ok a) (s : σ) :
    (MonadExcept.ofExcept x : StateT σ (Except ε) α).run s = .ok (a, s) :=
  run_ofExcept_eq_ok.mpr ⟨h, rfl⟩

theorem run_query_eq_ok {f : σ → Except ε α} {a : α} {s s' : σ} :
    (query f).run s = .ok (a, s') ↔ f s = .ok a ∧ s' = s := by
  show (f s).map (·, s) = _ ↔ _
  cases f s with
  | error e => exact ⟨(fun h => nomatch h), (fun h => nomatch h.1)⟩
  | ok b =>
    simp only [Except.map, Except.ok.injEq, Prod.mk.injEq]
    exact and_congr_right fun _ => eq_comm

theorem run_query_of {f : σ → Except ε α} {a : α} {s : σ} (h : f s = .ok a) :
    (query f).run s = .ok (a, s) := run_query_eq_ok.mpr ⟨h, rfl⟩

/-! ### Attempts -/

theorem run_attempt_ok {handled : ε → Option δ} {x : StateT σ (Except ε) α} {s s' : σ} {a : α}
    (h : x.run s = .ok (a, s')) : (attempt handled x).run s = .ok (.inl a, s') := by
  show tryCatchThe ε ((Sum.inl <$> x).run s) _ = _
  rw [StateT.run_map, h]
  rfl

theorem run_attempt_error {handled : ε → Option δ} {x : StateT σ (Except ε) α} {s : σ} {e : ε}
    (h : x.run s = .error e) : (attempt handled x).run s =
      match handled e with
      | some d => .ok (.inr d, s)
      | none => .error e := by
  show tryCatchThe ε ((Sum.inl <$> x).run s) _ = _
  rw [StateT.run_map, h]
  show (match handled e with
    | some d => (pure (Sum.inr d) : StateT σ (Except ε) (α ⊕ δ))
    | none => throw e).run s = _
  cases handled e <;> rfl

theorem run_attempt_inl {handled : ε → Option δ} {x : StateT σ (Except ε) α} {s s' : σ} {a : α} :
    (attempt handled x).run s = .ok (.inl a, s') ↔ x.run s = .ok (a, s') := by
  refine ⟨fun h => ?_, run_attempt_ok⟩
  cases hx : x.run s with
  | ok p =>
    rw [run_attempt_ok hx] at h
    cases h
    rfl
  | error e =>
    rw [run_attempt_error hx] at h
    cases hd : handled e <;> rw [hd] at h <;> cases h

theorem run_attempt_inr {handled : ε → Option δ} {x : StateT σ (Except ε) α} {s s' : σ} {d : δ} :
    (attempt handled x).run s = .ok (.inr d, s') ↔
      ∃ e, x.run s = .error e ∧ handled e = some d ∧ s' = s := by
  constructor
  · intro h
    cases hx : x.run s with
    | ok p =>
      rw [run_attempt_ok hx] at h
      cases h
    | error e =>
      rw [run_attempt_error hx] at h
      cases hd : handled e with
      | none => rw [hd] at h; cases h
      | some d' => rw [hd] at h; cases h; exact ⟨e, rfl, hd, rfl⟩
  · rintro ⟨e, hx, hd, rfl⟩
    rw [run_attempt_error hx, hd]

/-! ### Computations that only read -/

theorem query_bind_query (f : σ → Except ε α) (g : α → σ → Except ε β) :
    (query f >>= fun a => query (g a)) = query (fun s => f s >>= fun a => g a s) := by
  funext s
  show ((f s).map (·, s) >>= fun p => (g p.1 p.2).map (·, p.2)) = _
  cases hf : f s with
  | error e =>
    show Except.error e = (f s >>= fun a => g a s).map (·, s)
    rw [hf]
    rfl
  | ok a =>
    show (g a s).map (·, s) = (f s >>= fun a => g a s).map (·, s)
    rw [hf]
    rfl

theorem ofExcept_eq_query (x : Except ε α) :
    (MonadExcept.ofExcept x : StateT σ (Except ε) α) = query (fun _ => x) := by
  cases x <;> rfl

theorem ofExcept_eq_self (x : Except ε α) : (MonadExcept.ofExcept x : Except ε α) = x := by
  cases x <;> rfl

end Transactions
