import Cloudscale.Adapters.DeadLetterStore
import Cloudscale.Lib.Polling
import Cloudscale.Resilience.CircuitBreaker
import Cloudscale.Resilience.Retry

/-!
# The resilient consumer

An attempt on an event translates it to the current schema and applies it, which is
`applyUpcast` on a store of this repository.  The consumer guards each attempt with the
breaker (`applyUnderBreaker`), retries (`deliver`), and settles the event or stops
(`handle`); `run` polls the feed by the offset of the projection store.

The store is one with the contract of `DeadLetteringProjection`: it advances its offset
to the event when `apply` or `dead_letter` returns, and not when one of them raises.
The stores of this repository are instances when none of their statements fails in
transit (`DeadLetterStore.projection`).  The clock of the breaker is given by its readings,
and so is what other threads do to the breaker before each of its sections.
-/

namespace Cloudscale

open Checked Python

/-- One attempt on a stored event: `upcast`, then `apply`. -/
def applyUpcast {V : Type} (tier : Tier V) (versions : List (String × Int))
    (registry : UpcasterRegistry) (event : Dict) (p : ProjectionStore V) :
    Except PyError Bool × ProjectionStore V :=
  match upcast versions registry event with
  | .error e => (.error e, p)
  | .ok event => p.apply tier event

/-- `event["id"]`: the place of an event in the log. -/
def positionOf (event : Dict) : Int := intOf (event.lookup "id")

/-- A log that the consumer polls, in the order of its positions. -/
structure EventFeed where
  events : List Dict
  ordered : Polling.Ordered positionOf events

structure DeadLetteringProjection (σ ε : Type) where
  lastId : σ → Int
  apply : Dict → σ → Except ε Bool × σ
  deadLetter : Dict → ε → ℕ → σ → Except ε Bool × σ
  apply_advances : ∀ event p mutated p', lastId p < positionOf event →
    apply event p = (.ok mutated, p') → lastId p' = positionOf event
  apply_keeps : ∀ event p e p', apply event p = (.error e, p') → lastId p' = lastId p
  deadLetter_advances : ∀ event error attempts p new p', lastId p < positionOf event →
    deadLetter event error attempts p = (.ok new, p') → lastId p' = positionOf event
  deadLetter_keeps : ∀ event error attempts p e p',
    deadLetter event error attempts p = (.error e, p') → lastId p' = lastId p

namespace DeadLetterStore

variable {V : Type}

/-- `apply` of a store with dead letters. -/
def apply (tier : Tier V) (event : Dict) (p : DeadLetterStore V) :
    Except PyError Bool × DeadLetterStore V :=
  let (result, store) := p.toProjectionStore.apply tier event
  (result, { p with toProjectionStore := store })

theorem lastId_claim {store claimed : ProjectionStore V} {eventId : String}
    (h : store.claim eventId = .ok claimed) : claimed.lastId = store.lastId := by
  rw [ProjectionStore.claim] at h
  split at h
  next => cases h
  next =>
    cases h
    rfl

theorem apply_raised {tier : Tier V} {event : Dict} {p p' : DeadLetterStore V} {e : PyError}
    (h : p.apply tier event = (.error e, p')) : p' = p := by
  rw [apply, ProjectionStore.apply] at h
  cases hadapted : adaptLegacyEvent event with
  | error e' =>
    rw [hadapted] at h
    cases h
    rfl
  | ok adapted =>
    rw [hadapted] at h
    dsimp only at h
    rw [ProjectionStore.applyAdapted] at h
    split at h
    next =>
      cases h
      rfl
    next =>
      cases htransaction : ProjectionStore.applyTransaction tier adapted p.toProjectionStore with
      | ok store =>
        rw [htransaction] at h
        cases h
      | error e' =>
        rw [htransaction] at h
        cases e' <;> cases h <;> rfl

theorem lastId_apply {tier : Tier V} {event : Dict} {p p' : DeadLetterStore V} {mutated : Bool}
    (h : p.apply tier event = (.ok mutated, p')) :
    p'.lastId = max p.lastId (positionOf event) := by
  rw [apply, ProjectionStore.apply] at h
  cases hadapted : adaptLegacyEvent event with
  | error e =>
    rw [hadapted] at h
    cases h
  | ok adapted =>
    have hid : positionOf event = intOf (adapted.lookup "id") := by
      rw [positionOf, lookup_of_adaptLegacyEvent (by decide) hadapted]
    rw [hadapted] at h
    dsimp only at h
    rw [ProjectionStore.applyAdapted] at h
    rw [hid]
    split at h
    next => cases h
    next =>
      cases htransaction : ProjectionStore.applyTransaction tier adapted p.toProjectionStore with
      | ok store =>
        rw [htransaction] at h
        cases h
        rw [ProjectionStore.applyTransaction] at htransaction
        obtain ⟨claimed, hclaim, htransaction⟩ := bind_eq_ok.mp htransaction
        obtain ⟨models, -, htransaction⟩ := bind_eq_ok.mp htransaction
        cases htransaction
        rw [lastId_claim hclaim]
        rfl
      | error e =>
        rw [htransaction] at h
        cases e <;> cases h
        rfl

theorem deadLetter_raised {event : Dict} {error : PyError} {attempts : Int} {now : Datetime}
    {p p' : DeadLetterStore V} {e : PyError}
    (h : p.deadLetter event error attempts now = (.error e, p')) : p' = p := by
  rw [deadLetter] at h
  split at h
  next =>
    cases h
    rfl
  next =>
    cases htransaction : deadLetterTransaction event error attempts now p with
    | ok store =>
      rw [htransaction] at h
      cases h
    | error e' =>
      rw [htransaction] at h
      cases e' <;> cases h <;> rfl

theorem lastId_deadLetter {event : Dict} {error : PyError} {attempts : Int} {now : Datetime}
    {p p' : DeadLetterStore V} {new : Bool}
    (h : p.deadLetter event error attempts now = (.ok new, p')) :
    p'.lastId = max p.lastId (positionOf event) := by
  rw [deadLetter] at h
  split at h
  next => cases h
  next =>
    cases htransaction : deadLetterTransaction event error attempts now p with
    | ok store =>
      rw [htransaction] at h
      cases h
      rw [deadLetterTransaction] at htransaction
      obtain ⟨claimed, hclaim, htransaction⟩ := bind_eq_ok.mp htransaction
      obtain ⟨-, -, htransaction⟩ := bind_eq_ok.mp htransaction
      cases htransaction
      rw [ProjectionStore.advanceOffset, lastId_claim hclaim]
      rfl
    | error e =>
      rw [htransaction] at h
      cases e <;> cases h
      rfl

/-- **A projection store of this repository advances its offset as the consumer needs it.** -/
def projection (tier : Tier V) (now : Datetime) :
    DeadLetteringProjection (DeadLetterStore V) PyError where
  lastId p := p.lastId
  apply event p := p.apply tier event
  deadLetter event error attempts p := p.deadLetter event error attempts now
  apply_advances event p mutated p' hbehind h := by
    rw [lastId_apply h, max_eq_right hbehind.le]
  apply_keeps event p e p' h := by rw [apply_raised h]
  deadLetter_advances event error attempts p new p' hbehind h := by
    rw [lastId_deadLetter h, max_eq_right hbehind.le]
  deadLetter_keeps event error attempts p e p' h := by rw [deadLetter_raised h]

end DeadLetterStore

/-- What an attempt raises: the refusal of the breaker, or another error. -/
inductive Raised (T ε : Type)
  | circuitOpen (refusal : CircuitOpenError T)
  | error (e : ε)

/-- How an event was settled, as the report counts it. -/
inductive Settlement
  | applied
  | duplicate
  | deadLettered
  deriving DecidableEq

/-- The counters of `run`. -/
structure Counts where
  applied : ℕ
  duplicates : ℕ
  deadLettered : ℕ
  deriving DecidableEq

def Counts.zero : Counts := ⟨0, 0, 0⟩

def Counts.add (counts : Counts) : Settlement → Counts
  | .applied => { counts with applied := counts.applied + 1 }
  | .duplicate => { counts with duplicates := counts.duplicates + 1 }
  | .deadLettered => { counts with deadLettered := counts.deadLettered + 1 }

/-- The outcome of `run`; the reason to halt is the refusal, not its text. -/
structure ConsumerReport (T : Type) where
  applied : ℕ
  duplicates : ℕ
  deadLettered : ℕ
  halted : Bool
  haltReason : Option (CircuitOpenError T)
  deriving DecidableEq

structure ResilientConsumer (σ T ε : Type) [Zero T] [LT T] where
  projection : DeadLetteringProjection σ ε
  retryPolicy : RetryPolicy
  breaker : BreakerConfig T ε
  /-- `isinstance(error, retryable_errors)`. -/
  retryable : Raised T ε → Bool
  /-- `isinstance(error, Exception)`. -/
  isException : ε → Bool
  /-- The exception of `upcast` as one of those that the store raises. -/
  raises : PyError → ε
  batch : ℕ
  one_le_batch : 1 ≤ batch

/-- What happens around the consumer: the readings of the breaker's clock, and what other
threads do to the breaker before each of its sections. -/
structure Surroundings (T : Type) where
  clock : ℕ → T
  others : ℕ → CircuitBreaker T → CircuitBreaker T

/-- The projection store and the breaker, with the number of readings of the clock. -/
structure Consumption (σ T : Type) where
  projection : σ
  breaker : CircuitBreaker T
  readings : ℕ

/-- Why the loop over the events is left: the circuit is open, or an error is raised. -/
inductive Stop (T ε : Type)
  | halted (refusal : CircuitOpenError T)
  | raised (e : ε)

namespace ResilientConsumer

variable {σ T ε : Type} [AddCommGroup T] [LinearOrder T] (c : ResilientConsumer σ T ε)
  (around : Surroundings T)

/-- `breaker.call(operation)`. -/
def call (operation : σ → Except ε Bool × σ) (s : Consumption σ T) :
    Except (Raised T ε) Bool × Consumption σ T :=
  let n := s.readings
  match (around.others n s.breaker).admission c.breaker (around.clock n) (around.clock (n + 1)) with
  | (.error refusal, b) =>
    (.error (.circuitOpen refusal), { s with breaker := b, readings := n + 2 })
  | (.ok (), b) =>
    let recorded (ending : Ending ε) :=
      (around.others (n + 2) b).record c.breaker ending (around.clock (n + 2))
    match operation s.projection with
    | (.ok mutated, p) => (.ok mutated, ⟨p, recorded .returned, n + 3⟩)
    | (.error e, p) => (.error (.error e), ⟨p, recorded (.raised e), n + 3⟩)

def applyUnderBreaker (event : Dict) (s : Consumption σ T) :
    Except (Raised T ε) Bool × Consumption σ T :=
  match upcast currentSchemaVersions registeredSteps event with
  | .error e => (.error (.error (c.raises e)), s)
  | .ok event => c.call around (c.projection.apply event) s

def deliver (event : Dict) (s : Consumption σ T) : Except (Raised T ε) Bool × Consumption σ T :=
  callWithRetry c.retryable (fun _ => c.applyUnderBreaker around event) c.retryPolicy s

/-- `dead_letter`, and what the event counts as then. -/
def park (event : Dict) (error : ε) (attempts : ℕ) (s : Consumption σ T) :
    Except (Stop T ε) Settlement × Consumption σ T :=
  match c.projection.deadLetter event error attempts s.projection with
  | (.ok new, p) => (.ok (if new then .deadLettered else .duplicate), { s with projection := p })
  | (.error e, p) => (.error (.raised e), { s with projection := p })

/-- The body of the loop over the events. -/
def settle (event : Dict) (s : Consumption σ T) :
    Except (Stop T ε) Settlement × Consumption σ T :=
  match c.deliver around event s with
  | (.ok mutated, s) => (.ok (if mutated then .applied else .duplicate), s)
  | (.error (.circuitOpen refusal), s) => (.error (.halted refusal), s)
  | (.error (.error e), s) =>
    if c.retryable (.error e) then c.park event e c.retryPolicy.maxAttempts s
    else if c.isException e then c.park event e 1 s
    else (.error (.raised e), s)

/-- The body of the loop, with the counters. -/
def handle (event : Dict) (s : Counts × Consumption σ T) :
    Except (Stop T ε) Unit × Counts × Consumption σ T :=
  match c.settle around event s.2 with
  | (.ok settlement, s') => (.ok (), s.1.add settlement, s')
  | (.error stop, s') => (.error stop, s.1, s')

def lastId (s : Counts × Consumption σ T) : Int := c.projection.lastId s.2.projection

def report (counts : Counts) (haltReason : Option (CircuitOpenError T)) : ConsumerReport T :=
  ⟨counts.applied, counts.duplicates, counts.deadLettered, haltReason.isSome, haltReason⟩

/-- What `run` returns or raises when its loop is left. -/
def conclude : Except (Stop T ε) Unit × Counts × Consumption σ T →
    Except ε (ConsumerReport T) × Consumption σ T
  | (.ok (), counts, s) => (.ok (report counts none), s)
  | (.error (.halted refusal), counts, s) => (.ok (report counts (some refusal)), s)
  | (.error (.raised e), _, s) => (.error e, s)

/-- `run`, with a bound on the rounds of its loop. -/
def run (feed : EventFeed) (rounds : ℕ) (s : Consumption σ T) :
    Option (Except ε (ConsumerReport T) × Consumption σ T) :=
  (Polling.poll positionOf c.lastId (c.handle around) feed.events c.batch rounds
    (Counts.zero, s)).map conclude

end ResilientConsumer

end Cloudscale
