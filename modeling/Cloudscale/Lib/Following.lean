import Cloudscale.Lib.Relational

/-!
# A transaction that follows another

A transaction over a larger state follows one over a part of it, its `view`, when from a
state the two answer alike, error for error, and a success leaves the one state as the view
of the other (`Follows`).  Besides, the larger state then meets a postcondition, of which
the smaller knows nothing: a cache and its bookkeeping, say.

`zoom` runs a transaction on the view.  What is built from `pure`, `>>=`, `throw` and
`attempt` follows when its parts do (`Follows.bind`, `Follows.attempt`), and what keeps a
condition of the larger state is kept by a generic program (`respects_follows`).
-/

namespace Transactions

open Checked Relational

variable {σ τ ε α β δ : Type} {view : τ → σ}

/-- A transaction on the part of a state that is viewed. -/
def zoom (view : τ → σ) (set : τ → σ → τ) (x : StateT σ (Except ε) α) : StateT τ (Except ε) α :=
  fun t => (x.run (view t)).map fun p => (p.1, set t p.2)

/-- From a state, `y` answers as `x` does on its view. -/
structure Follows (view : τ → σ) (x : StateT σ (Except ε) α) (y : StateT τ (Except ε) α) (t : τ)
    (Q : α → τ → Prop) : Prop where
  ok : ∀ a s, x.run (view t) = .ok (a, s) → ∃ t', y.run t = .ok (a, t') ∧ view t' = s ∧ Q a t'
  error : ∀ e, x.run (view t) = .error e → y.run t = .error e

variable {x : StateT σ (Except ε) α} {y : StateT τ (Except ε) α} {t : τ} {Q : α → τ → Prop}

theorem Follows.mono {Q' : α → τ → Prop} (h : Follows view x y t Q)
    (hpost : ∀ a t', Q a t' → Q' a t') : Follows view x y t Q' := by
  refine ⟨fun a s hx => ?_, h.error⟩
  obtain ⟨t', hy, hview, hq⟩ := h.ok a s hx
  exact ⟨t', hy, hview, hpost a t' hq⟩

theorem Follows.returned (h : Follows view x y t Q) : Follows view x y t fun a t' =>
    Q a t' ∧ x.run (view t) = .ok (a, view t') ∧ y.run t = .ok (a, t') := by
  refine ⟨fun a s hx => ?_, h.error⟩
  obtain ⟨t', hy, rfl, hq⟩ := h.ok a s hx
  exact ⟨t', hy, rfl, hq, hx, hy⟩

theorem Follows.of_ok (h : Follows view x y t Q) {a : α} {t' : τ} (hy : y.run t = .ok (a, t')) :
    x.run (view t) = .ok (a, view t') ∧ Q a t' := by
  cases hx : x.run (view t) with
  | error e =>
    rw [h.error e hx] at hy
    cases hy
  | ok p =>
    obtain ⟨b, s⟩ := p
    obtain ⟨t₁, hrun, rfl, hq⟩ := h.ok b s hx
    rw [hrun] at hy
    cases hy
    exact ⟨rfl, hq⟩

theorem follows_pure {a : α} (h : Q a t) :
    Follows view (pure a : StateT σ (Except ε) α) (pure a) t Q := by
  refine ⟨fun b s hx => ?_, fun e hx => ?_⟩
  · obtain ⟨rfl, rfl⟩ := run_pure_eq_ok.mp hx
    exact ⟨t, rfl, rfl, h⟩
  · cases hx

theorem follows_throw (e : ε) :
    Follows view (throw e : StateT σ (Except ε) α) (throw e) t Q := by
  refine ⟨fun b s hx => ?_, fun e' hx => ?_⟩
  · cases hx
  · cases hx
    rfl

theorem follows_ofExcept {z : Except ε α} (h : ∀ a, z = .ok a → Q a t) :
    Follows view (MonadExcept.ofExcept z : StateT σ (Except ε) α) (MonadExcept.ofExcept z) t Q := by
  cases z with
  | ok a => exact follows_pure (h a rfl)
  | error e => exact follows_throw e

theorem Follows.bind {f : α → StateT σ (Except ε) β} {g : α → StateT τ (Except ε) β}
    {Q' : β → τ → Prop} (h : Follows view x y t Q)
    (hrest : ∀ a t', Q a t' → Follows view (f a) (g a) t' Q') :
    Follows view (x >>= f) (y >>= g) t Q' := by
  have hbind : ∀ {υ γ : Type} {z : StateT υ (Except ε) α} {k : α → StateT υ (Except ε) γ} {u : υ}
      {e : ε}, z.run u = .error e → (z >>= k).run u = .error e := by
    intro υ γ z k u e hz
    rw [StateT.run_bind, hz, error_bind]
  cases hx : x.run (view t) with
  | error e =>
    refine ⟨fun b s hrun => ?_, fun e' hrun => ?_⟩
    · rw [hbind hx] at hrun
      cases hrun
    · rw [hbind hx] at hrun
      cases hrun
      exact hbind (h.error e hx)
  | ok p =>
    obtain ⟨a, s'⟩ := p
    obtain ⟨t', hy, rfl, hq⟩ := h.ok a s' hx
    have hnext := hrest a t' hq
    refine ⟨fun b s hrun => ?_, fun e hrun => ?_⟩
    · rw [run_bind_of hx] at hrun
      rw [run_bind_of hy]
      exact hnext.ok b s hrun
    · rw [run_bind_of hx] at hrun
      rw [run_bind_of hy]
      exact hnext.error e hrun

theorem Follows.attempt {handled : ε → Option δ} (h : Follows view x y t Q) :
    Follows view (attempt handled x) (Transactions.attempt handled y) t fun r t' =>
      match r with
      | .inl a => Q a t'
      | .inr _ => t' = t := by
  cases hx : x.run (view t) with
  | ok p =>
    obtain ⟨t', hy, hview, hq⟩ := h.ok p.1 p.2 hx
    have hrun : (Transactions.attempt handled x).run (view t) = _ := run_attempt_ok hx
    have hrun' : (Transactions.attempt handled y).run t = _ := run_attempt_ok hy
    refine ⟨fun r s hr => ?_, fun e hr => ?_⟩
    · rw [hrun] at hr
      cases hr
      exact ⟨t', hrun', hview, hq⟩
    · rw [hrun] at hr
      cases hr
  | error e =>
    have hrun : (Transactions.attempt handled x).run (view t) = _ := run_attempt_error hx
    have hrun' : (Transactions.attempt handled y).run t = _ := run_attempt_error (h.error e hx)
    cases hd : handled e with
    | none =>
      rw [hd] at hrun hrun'
      refine ⟨fun r s hr => ?_, fun e' hr => ?_⟩
      · rw [hrun] at hr
        cases hr
      · rw [hrun] at hr
        cases hr
        exact hrun'
    | some d =>
      rw [hd] at hrun hrun'
      refine ⟨fun r s hr => ?_, fun e' hr => ?_⟩
      · rw [hrun] at hr
        cases hr
        exact ⟨t, hrun', rfl, rfl⟩
      · rw [hrun] at hr
        cases hr

theorem follows_zoom {set : τ → σ → τ} (hset : ∀ s, view (set t s) = s)
    (h : ∀ a s, x.run (view t) = .ok (a, s) → Q a (set t s)) :
    Follows view x (zoom view set x) t Q := by
  refine ⟨fun a s hx => ⟨set t s, ?_, hset s, h a s hx⟩, fun e hx => ?_⟩
  · show (x.run (view t)).map _ = _
    rw [hx]
    rfl
  · show (x.run (view t)).map _ = _
    rw [hx]
    rfl

theorem run_zoom_eq_ok {set : τ → σ → τ} {a : α} {t' : τ} :
    (zoom view set x).run t = .ok (a, t') ↔ ∃ s, x.run (view t) = .ok (a, s) ∧ t' = set t s := by
  show (x.run (view t)).map _ = _ ↔ _
  cases x.run (view t) with
  | error e => exact ⟨(fun h => nomatch h), fun ⟨_, h, _⟩ => nomatch h⟩
  | ok p =>
    constructor
    · intro h
      cases h
      exact ⟨p.2, rfl, rfl⟩
    · rintro ⟨s, h, rfl⟩
      cases h
      rfl

theorem run_zoom_of {set : τ → σ → τ} {a : α} {s : σ} (h : x.run (view t) = .ok (a, s)) :
    (zoom view set x).run t = .ok (a, set t s) :=
  run_zoom_eq_ok.mpr ⟨s, h, rfl⟩

/-- **A generic program keeps what its parts keep.** -/
theorem respects_follows (handled : ε → Option δ) (P : τ → Prop) :
    Respects handled (fun {α : Type} (x : StateT σ (Except ε) α) (y : StateT τ (Except ε) α) =>
      ∀ t, P t → Follows view x y t fun _ t' => P t') where
  pure a t ht := follows_pure ht
  bind hx hf t ht := (hx t ht).bind fun a t' ht' => hf a t' ht'
  throw e t _ := follows_throw e
  attempt hx t ht := (hx t ht).attempt.mono fun r t' h => by
    cases r with
    | inl a => exact h
    | inr d => exact h ▸ ht

end Transactions
