import Cloudscale.Adapters.Faults
import Cloudscale.Entrypoints.Http.Commands
import Cloudscale.Resilience.CircuitBreaker
import Cloudscale.Resilience.Retry

/-!
# The command executor

`CommandExecutor.execute` runs one command through the breaker and the retry loop.
Each attempt is one call of the command service, which normalizes the command anew, so
an attempt has a correlation id, a clock and event ids of its own.

What else an attempt meets is an input: the calls of others that commit before it,
what the other callers have made of the breaker before it and while it runs, the
breaker's clock, and its faults.  The header with the seconds to wait, the audit log
and the metrics are left out.
-/

namespace Cloudscale

open Python

def transientErrors : PyError → Bool
  | .operationalError => true
  | _ => false

structure Meeting (T : Type) where
  others : List Call
  meanwhile : CircuitBreaker T → CircuitBreaker T
  now : T
  later : T
  attempt : Attempt
  faults : Faults
  during : CircuitBreaker T → CircuitBreaker T
  ended : T

structure Serving (T : Type) where
  store : Store
  breaker : CircuitBreaker T

inductive AttemptError (T : Type)
  | circuitOpen (error : CircuitOpenError T)
  | raised (error : PyError)

/-- `except retryable_errors`; an open circuit is none of them. -/
def AttemptError.retryable {T : Type} : AttemptError T → Bool
  | .circuitOpen _ => false
  | .raised e => transientErrors e

/-- What the executor makes of an error that is left. -/
def unavailable {T : Type} : AttemptError T → RouteError
  | .circuitOpen _ => .http 503 "command path unavailable (circuit open)"
  | .raised e =>
    if transientErrors e then .http 503 "command path unavailable (transient storage failure)"
    else executionError e

/-- `CommandService.execute`, with the faults of the attempt. -/
def serviceUnderFaults (command : AccountCommand) (commandId : UUID) (issuer subject : String)
    (attempt : Attempt) (faults : Faults) (s : Store) : Except PyError CommandResult × Store :=
  match normalizeCommand command commandId attempt.correlationId issuer subject with
  | .error e => (.error e, s)
  | .ok request => executeUnderFaults faults s (attempt.call request)

/-- How an operation that came to this result has ended. -/
def Ending.of {α : Type} : Except PyError α → Ending PyError
  | .ok _ => .returned
  | .error e => .raised e

section Executor

variable {T : Type} [AddCommGroup T] [LinearOrder T] (config : BreakerConfig T PyError)
  (command : AccountCommand) (commandId : UUID) (principal : Principal)

/-- One attempt: `breaker.call` of the service. -/
def attemptOnce (meeting : Meeting T) (w : Serving T) :
    Except (AttemptError T) CommandResult × Serving T :=
  let store := Runs.run next w.store meeting.others
  match (meeting.meanwhile w.breaker).admission config meeting.now meeting.later with
  | (.error e, breaker) => (.error (.circuitOpen e), ⟨store, breaker⟩)
  | (.ok _, breaker) =>
    let (result, store) := serviceUnderFaults command commandId principal.issuer principal.subject
      meeting.attempt meeting.faults store
    (result.mapError .raised,
      ⟨store, (meeting.during breaker).record config (.of result) meeting.ended⟩)

/-- `CommandExecutor.execute`; the `k`-th attempt meets `meetings k`. -/
def commandExecutor (policy : RetryPolicy) (meetings : ℕ → Meeting T) (w : Serving T) :
    Except RouteError CommandResult × Serving T :=
  let (result, w) := callWithRetry AttemptError.retryable
    (fun k => attemptOnce config command commandId principal (meetings k)) policy w
  (result.mapError unavailable, w)

end Executor

end Cloudscale
