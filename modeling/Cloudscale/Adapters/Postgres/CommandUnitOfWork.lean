import Cloudscale.Adapters.Postgres.Database

/-!
# The command unit of work on PostgreSQL

`decision` is the command decision as a program of statements, and `Client` a caller
with its requests: each runs in a transaction of its own, and one that ends with
`UniqueViolation` is run again, at most `maxRaceRetries` times.

The clock, the factory of event ids and whether a snapshot is due are inputs of every
attempt.  A fold reads the whole stream.  With its snapshots and its tracker the unit of work is
that of `Cloudscale.Adapters.Postgres.Snapshots`, and `callers_shadow` says that they do not show.
-/

namespace Cloudscale.Postgres

open Checked Python ReadCommitted LogRow

/-- One attempt at a call; whether a snapshot is due after an event is an input. -/
structure Attempt where
  call : Call
  snapshotDue : EventEnvelope → Bool

def maxRaceRetries : ℕ := 2

section

variable (Row : Type) [LogRow Row]

abbrev Program (α : Type) : Type := Prog (@Statement.Res Row) PyError α

variable {Row}

def perform (op : Statement Row) : Program Row op.Res := Prog.perform op

variable (attempt : Attempt)

def clock : Program Row Datetime := do
  let n ← perform .reading
  pure (attempt.call.clock n)

def eventIdFactory : Program Row UUID := do
  let n ← perform .issue
  pure (attempt.call.eventIds n)

def appendEvent (envelope : EventEnvelope) (event : AccountEvent) : Program Row Unit := do
  let id ← perform .nextId
  let _ ← perform (.insertEvent id (ofEnvelope envelope event))
  if attempt.snapshotDue envelope then perform (.writeSnapshot (streamName event.accountId))
  else pure ()

/-- The default of `created_at` is a reading of a clock too. -/
def persistResult (result : CommandResult) : Program Row Unit := do
  let createdAt ← clock attempt
  perform (.insertResult ⟨result.commandId, result.requestHash, result.toJson, createdAt⟩)

def boundStorage : CommandDecisionStorage (Program Row) where
  storedResult commandId := perform (.storedResult commandId)
  foldStream accountId := perform (.foldStream accountId)
  openHold accountId holdId := perform (.openHold accountId holdId)
  legsOf transferId := perform (.legsOf transferId)
  revertedBy transferId := perform (.revertedBy transferId)
  appendEvent := appendEvent attempt
  persistResult := persistResult attempt

def decision : Program Row CommandResult :=
  executeCommandDecision (boundStorage attempt) attempt.call.request (clock attempt)
    (eventIdFactory attempt)

end

/-! ### Callers -/

/-- A call of `execute`, with the inputs of each of its attempts. -/
structure Execution where
  request : NormalizedCommand
  clock : ℕ → ℕ → Datetime
  eventIds : ℕ → ℕ → UUID
  snapshotDue : ℕ → EventEnvelope → Bool

/-- The attempt after a number of lost races. -/
def Execution.attempt (e : Execution) (races : ℕ) : Attempt where
  call := ⟨e.request, e.clock races, e.eventIds races⟩
  snapshotDue := e.snapshotDue races

/-- What came of a call: its request, how it ended and how many races it had lost by then. -/
structure Answered where
  execution : Execution
  races : ℕ
  answer : Except PyError CommandResult

/-- `UniqueViolation`. -/
def lostRace {α : Type} : Except PyError α → Bool
  | .error .integrityError => true
  | _ => false

/-- A caller: the calls it still has to make, the races that the running one has lost, and
what came of the others. -/
structure Client where
  queue : List Execution
  races : ℕ
  answered : List Answered

namespace Client

def next (c : Client) : Option Attempt := c.queue.head?.map (·.attempt c.races)

/-- The loop of `execute`: only `UniqueViolation` is retried. -/
def resume (c : Client) (result : Except PyError CommandResult) : Client :=
  match c.queue with
  | [] => c
  | e :: queue =>
    if lostRace result ∧ c.races < maxRaceRetries then
      { c with races := c.races + 1 }
    else { queue := queue, races := 0, answered := c.answered ++ [⟨e, c.races, result⟩] }

end Client

def caller : Worker Client Attempt PyError CommandResult where
  next := Client.next
  resume := Client.resume
  lost := .operationalError

section

variable (Row : Type) [LogRow Row] (ι : Type)

abbrev Callers : Type :=
  State (Database Row) (Written Row) (@Statement.Res Row) PyError ι Client Attempt CommandResult

variable {Row ι}

def Callers.start (db : Database Row) (queues : ι → List Execution) : Callers Row ι where
  shared := db
  sessions i := ⟨⟨queues i, 0, []⟩, .idle⟩

variable [DecidableEq ι] [∀ s : Callers Row ι, ∀ i op, Decidable (s.Waits engine i op)]

def Callers.next (s : Callers Row ι) (move : Move ι) : Callers Row ι :=
  State.next engine decision (fun _ => caller) s move

def Callers.run (db : Database Row) (queues : ι → List Execution) (moves : List (Move ι)) :
    Callers Row ι :=
  Runs.run Callers.next (Callers.start db queues) moves

end

end Cloudscale.Postgres
