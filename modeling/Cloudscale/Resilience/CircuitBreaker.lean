import Cloudscale.Lib.Runs
import Mathlib.Algebra.Order.Group.Defs
import Mathlib.Logic.Function.Basic

/-!
# The circuit breaker

Each method of the breaker is a function of the breaker before it and of the
clock readings that it takes.  Readings are elements of an ordered group: the
rounding of floating point numbers is left out, and so is the text of
`CircuitOpenError`.

`call` holds the lock while it admits and while it records, and not while the
operation runs.  So a system of callers moves in such sections (`Callers.next`):
one caller is admitted or refused, one records how its operation ended, or the
state is read; between the sections the clock goes on.  A caller is one thread
in one call, and there are as many as one likes.
-/

namespace Cloudscale

inductive CircuitState
  | closed
  | opened
  | halfOpen
  deriving DecidableEq

/-- What `__init__` checks of its arguments. -/
structure BreakerConfig (T ε : Type) [Zero T] [LT T] where
  failureThreshold : ℕ
  resetTimeoutSeconds : T
  /-- `isinstance(error, counted_errors)`. -/
  counted : ε → Bool
  one_le_threshold : 1 ≤ failureThreshold
  reset_pos : 0 < resetTimeoutSeconds

structure CircuitBreaker (T : Type) where
  state : CircuitState
  consecutiveFailures : ℕ
  openedAt : T
  probeInFlight : Bool
  deriving DecidableEq

structure CircuitOpenError (T : Type) where
  retryAfterSeconds : T
  deriving DecidableEq

inductive Ending (ε : Type)
  | returned
  | raised (error : ε)

namespace CircuitBreaker

variable {T ε : Type} [AddCommGroup T] [LinearOrder T] (config : BreakerConfig T ε)
  (b : CircuitBreaker T)

/-- The breaker that `__init__` builds. -/
def initial : CircuitBreaker T := ⟨.closed, 0, 0, false⟩

def promoteIfResetElapsed (now : T) : CircuitBreaker T :=
  if b.state = .opened ∧ config.resetTimeoutSeconds ≤ now - b.openedAt then
    { b with state := .halfOpen, probeInFlight := false }
  else b

/-- `_admit`, with its two readings of the clock. -/
def admission (now later : T) : Except (CircuitOpenError T) Unit × CircuitBreaker T :=
  let b := b.promoteIfResetElapsed config now
  if b.state = .closed then (.ok (), b)
  else if b.state = .halfOpen ∧ b.probeInFlight = false then
    (.ok (), { b with probeInFlight := true })
  else (.error ⟨max 0 (config.resetTimeoutSeconds - (later - b.openedAt))⟩, b)

def recordSuccess : CircuitBreaker T :=
  { b with state := .closed, consecutiveFailures := 0, probeInFlight := false }

def trip (now : T) : CircuitBreaker T := ⟨.opened, 0, now, false⟩

/-- The failure that is recorded now calls `_trip`. -/
def failureTrips : Bool :=
  decide (b.state = .halfOpen ∨ config.failureThreshold ≤ b.consecutiveFailures + 1)

def recordFailure (now : T) : CircuitBreaker T :=
  if b.failureTrips config then trip now
  else { b with consecutiveFailures := b.consecutiveFailures + 1 }

def isFailure : Ending ε → Bool
  | .returned => false
  | .raised error => config.counted error

/-- The last part of `call`. -/
def record (ending : Ending ε) (now : T) : CircuitBreaker T :=
  if isFailure config ending then b.recordFailure config now else b.recordSuccess

end CircuitBreaker

/-! ### Concurrent callers -/

/-- What a caller is doing: nothing, or it runs the operation, admitted as a probe of
the half-open breaker or not. -/
inductive Calling
  | idle
  | operating (probe : Bool)
  deriving DecidableEq

structure Callers (T ι : Type) where
  breaker : CircuitBreaker T
  clock : T
  calls : ι → Calling

/-- A section under the lock, or time that passes. -/
inductive Section (T ε ι : Type) [Zero T] [LE T]
  | elapse (d : { d : T // 0 ≤ d })
  /-- `_admit`; `d` passes between its two readings. -/
  | enter (i : ι) (d : { d : T // 0 ≤ d })
  | record (i : ι) (ending : Ending ε)
  /-- The property `state`. -/
  | observe

namespace Callers

variable {T ε ι : Type} [AddCommGroup T] [LinearOrder T] [DecidableEq ι]
  (config : BreakerConfig T ε) (s : Callers T ι)

/-- Nobody has called, at the given time. -/
def start (now : T) : Callers T ι := ⟨.initial, now, fun _ => .idle⟩

/-- The caller enters `call`. -/
def enter (i : ι) (d : T) : Callers T ι :=
  match s.calls i with
  | .operating _ => s
  | .idle =>
    let admission := s.breaker.admission config s.clock (s.clock + d)
    { breaker := admission.2
      clock := s.clock + d
      calls := match admission.1 with
        | .ok _ =>
          Function.update s.calls i (.operating (decide (admission.2.state = .halfOpen)))
        | .error _ => s.calls }

def record (i : ι) (ending : Ending ε) : Callers T ι :=
  match s.calls i with
  | .idle => s
  | .operating _ =>
    { s with
      breaker := s.breaker.record config ending s.clock
      calls := Function.update s.calls i .idle }

def next : Section T ε ι → Callers T ι
  | .elapse d => { s with clock := s.clock + d }
  | .enter i d => s.enter config i d
  | .record i ending => s.record config i ending
  | .observe => { s with breaker := s.breaker.promoteIfResetElapsed config s.clock }

def admits (i : ι) : Bool :=
  match s.calls i with
  | .operating _ => false
  | .idle => (s.breaker.admission config s.clock s.clock).1.isOk

/-- The section calls `_trip`. -/
def trips : Section T ε ι → Bool
  | .record i ending =>
    match s.calls i with
    | .idle => false
    | .operating _ => CircuitBreaker.isFailure config ending && s.breaker.failureTrips config
  | _ => false

/-- A caller runs the operation as a probe. -/
def Probing (i : ι) : Prop := s.calls i = .operating true

instance (i : ι) : Decidable (s.Probing i) := inferInstanceAs (Decidable (_ = _))

end Callers

end Cloudscale
