import Mathlib.Data.Nat.Notation

/-!
# Bounded retry

`callWithRetry` runs an operation until it returns, raises an error that is not
retryable, or has used up its attempts; the last error is raised unchanged.  The
operation is given the number of its attempt, from zero on, and a state that the
attempts hand on.  The delays between the attempts take time and do nothing, so they
are left out, with their bounds.

`callWithRetry_rule` is the rule of the loop: what every attempt keeps, and what an
attempt that ends the loop gives.
-/

namespace Cloudscale

/-- The attempts that a call is allowed. -/
structure RetryPolicy where
  maxAttempts : ℕ
  one_le : 1 ≤ maxAttempts

section

variable {σ ε α : Type} (retryable : ε → Bool) (operation : ℕ → σ → Except ε α × σ)

/-- The attempts from one on, with a number of retries left. -/
def attemptsFrom : ℕ → ℕ → σ → Except ε α × σ
  | 0, attempt, s => operation attempt s
  | retries + 1, attempt, s =>
    match operation attempt s with
    | (.ok a, s') => (.ok a, s')
    | (.error e, s') =>
      if retryable e then attemptsFrom retries (attempt + 1) s' else (.error e, s')

def callWithRetry (policy : RetryPolicy) (s : σ) : Except ε α × σ :=
  attemptsFrom retryable operation (policy.maxAttempts - 1) 0 s

/-- **The rule of the retry loop**: an invariant of the attempts, and a statement about
the last of them. -/
theorem attemptsFrom_rule {I : ℕ → σ → Prop} {Q : ℕ → Except ε α → σ → Prop}
    (hretry : ∀ k s e s', I k s → operation k s = (.error e, s') → I (k + 1) s')
    (hlast : ∀ k s r s', I k s → operation k s = (r, s') → Q (k + 1) r s') :
    ∀ (retries k : ℕ) {s : σ}, I k s → ∃ n, n ≤ k + retries + 1 ∧
      Q n (attemptsFrom retryable operation retries k s).1
        (attemptsFrom retryable operation retries k s).2 := by
  intro retries
  induction retries with
  | zero =>
    intro k s hs
    exact ⟨k + 1, Nat.le_refl _, hlast k s _ _ hs rfl⟩
  | succ retries ih =>
    intro k s hs
    rw [attemptsFrom]
    split
    next a s' hresult => exact ⟨k + 1, by omega, hlast k s _ _ hs hresult⟩
    next e s' hresult =>
      split
      next =>
        obtain ⟨n, hn, hQ⟩ := ih (k + 1) (hretry k s e s' hs hresult)
        exact ⟨n, by omega, hQ⟩
      next => exact ⟨k + 1, by omega, hlast k s _ _ hs hresult⟩

theorem callWithRetry_rule (policy : RetryPolicy) {I : ℕ → σ → Prop}
    {Q : ℕ → Except ε α → σ → Prop}
    (hretry : ∀ k s e s', I k s → operation k s = (.error e, s') → I (k + 1) s')
    (hlast : ∀ k s r s', I k s → operation k s = (r, s') → Q (k + 1) r s') {s : σ} (hs : I 0 s) :
    ∃ n ≤ policy.maxAttempts, Q n (callWithRetry retryable operation policy s).1
      (callWithRetry retryable operation policy s).2 := by
  obtain ⟨n, hn, hQ⟩ := attemptsFrom_rule retryable operation hretry hlast
    (policy.maxAttempts - 1) 0 hs
  have hone := policy.one_le
  exact ⟨n, by omega, hQ⟩

end

end Cloudscale
