import Cloudscale.Lib.Transactions

/-!
# Computations in two monads

A program that is generic in its monad can be run in two of them.  `Composes` says
that a relation between the computations of one and of the other is kept by what
such a program is built from: `pure`, `>>=` and `throw`; and `Respects` that it is kept
by an `attempt` that handles some errors, too.  A relation that is kept relates the two
runs of the whole program, once the operations that the program is given are related; no
law of a monad is needed.
-/

namespace Relational

open Transactions

variable {m m' : Type → Type} {δ : Type} (ε : Type) [Monad m] [MonadExcept ε m] [Monad m']
  [MonadExcept ε m']

/-- The relation is kept by what a generic program is built from. -/
structure Composes (R : ∀ {α : Type}, m α → m' α → Prop) : Prop where
  pure : ∀ {α : Type} (a : α), R (pure a : m α) (pure a)
  bind : ∀ {α β : Type} {x : m α} {y : m' α} {f : α → m β} {g : α → m' β},
    R x y → (∀ a, R (f a) (g a)) → R (x >>= f) (y >>= g)
  throw : ∀ {α : Type} (e : ε), R (throw e : m α) (throw e : m' α)

variable {ε}

/-- The relation is kept by errors that are handled, too. -/
structure Respects (handled : ε → Option δ) (R : ∀ {α : Type}, m α → m' α → Prop) : Prop
    extends Composes ε @R where
  attempt : ∀ {α : Type} {x : m α} {y : m' α}, R x y → R (attempt handled x) (attempt handled y)

variable {R : ∀ {α : Type}, m α → m' α → Prop}

theorem Composes.ofExcept (h : Composes ε @R) {α : Type} (x : Except ε α) :
    R (MonadExcept.ofExcept x : m α) (MonadExcept.ofExcept x) := by
  cases x with
  | ok a => exact h.pure a
  | error e => exact h.throw e

omit [Monad m] [Monad m'] in
theorem related_ite {p : Prop} [Decidable p] {α : Type} {x x' : m α} {y y' : m' α}
    (hpos : p → R x y) (hneg : ¬ p → R x' y') :
    R (if p then x else x') (if p then y else y') := by
  by_cases hp : p
  · rw [if_pos hp, if_pos hp]
    exact hpos hp
  · rw [if_neg hp, if_neg hp]
    exact hneg hp

end Relational
