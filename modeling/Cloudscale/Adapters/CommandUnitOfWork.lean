import Cloudscale.Adapters.Compat
import Cloudscale.Application.CommandExecution
import Cloudscale.Lib.Following
import Cloudscale.Lib.Runs
import Cloudscale.Lib.Tables

/-!
# The command unit of work

The store of the SQLite tier, the reads and writes of a command decision over
it, and `execute`, which runs one decision in a transaction: a success commits,
an exception rolls everything back.  `next` is what a call makes of the store,
and a run is `Runs.run next`.

A row of the log keeps the event it was written from, and every read goes
through its columns and the decoder (`EventRow.dict`, `decodeRow`).  The log is
listed in the order of its row ids.  Reads and writes hold the write lock, so a
call sees one store; its clock readings and its event ids are inputs.

A transaction has a tracker besides, which remembers the state of every stream that was
folded and applies to it each event that is appended.  So an append raises where the event
does not apply, although the log would take it.  `logStorage` are the operations on the
log alone; which snapshots the tracker has due is left to `SnapshotTracker`.
-/

namespace Cloudscale

open Checked Python Tables Transactions

def streamName (accountId : String) : String := "account-" ++ accountId

/-- A row of `events` with its row of `event_envelopes`. -/
structure EventRow where
  eventId : UUID
  seq : Int
  event : AccountEvent
  schemaVersion : Int
  occurredAt : Datetime
  correlationId : UUID
  causationId : UUID
  commandId : UUID

namespace EventRow

def stream (r : EventRow) : String := streamName r.event.accountId

def fields (r : EventRow) : RowFields := eventRowFields r.event

def dict (r : EventRow) : Dict := rowDict r.event r.schemaVersion

/-- The row of an envelope around an event. -/
def ofEnvelope (envelope : EventEnvelope) (event : AccountEvent) : EventRow where
  eventId := envelope.eventId
  seq := envelope.streamVersion
  event := event
  schemaVersion := envelope.schemaVersion
  occurredAt := envelope.occurredAt
  correlationId := envelope.correlationId
  causationId := envelope.causationId
  commandId := envelope.commandId

end EventRow

/-- A row of `command_results`. -/
structure ResultRow where
  commandId : UUID
  requestHash : Digest
  resultJson : String
  createdAt : Datetime

structure Store where
  events : List EventRow
  results : List ResultRow

def Store.empty : Store := ⟨[], []⟩

namespace Store

/-! ### Reads -/

def storedResult (s : Store) (commandId : UUID) : Except PyError (Option CommandResult) :=
  match s.results.find? (fun row => row.commandId = commandId) with
  | none => .ok none
  | some row => some <$> CommandResult.fromStored row.resultJson

/-- `ORDER BY seq`. -/
def bySeq (rows : List EventRow) : List EventRow :=
  rows.insertionSort (fun r r' => r.seq ≤ r'.seq)

/-- The events that a list of rows decodes to. -/
def decodeRows (rows : List EventRow) : Except PyError (List AccountEvent) :=
  rows.mapM (fun r => decodeRow r.dict)

def foldStream (s : Store) (accountId : String) : Except PyError AccountState := do
  let events ← decodeRows (bySeq (s.events.filter (fun r => r.stream = streamName accountId)))
  Account.fold events

/-- The types of the `Hold*` rows. -/
def holdTypes : List EventType := [.holdPlaced, .holdReleased, .holdPosted]

/-- The open hold, derived from the stream's own hold events. -/
def openHold (s : Store) (accountId : String) (holdId : UUID) :
    Except PyError (Option Account.OpenHold) := do
  let events ← decodeRows (bySeq (s.events.filter (fun r => r.stream = streamName accountId ∧
    r.fields.transferId = some holdId.str ∧ r.event.type ∈ holdTypes)))
  pure (Account.openHoldFromEvents holdId (events.filterMap Account.holdEvent?))

/-- Every row of a set, across streams. -/
def legsOf (s : Store) (transferId : UUID) : Except PyError (List AccountEvent) :=
  decodeRows (s.events.filter (fun r => r.fields.transferId = some transferId.str))

/-- The reversal that names the set, if any. -/
def revertedBy (s : Store) (transferId : UUID) : Except PyError (Option UUID) :=
  match (s.events.filter (fun r => r.fields.reverts = some transferId.str)).head? with
  | none => .ok none
  | some row => some <$> legacyUuid (some (column row.fields.transferId)) "transfer_id"

/-! ### Writes -/

/-- Append one row; `UNIQUE (stream, seq)` and `UNIQUE (event_id)`. -/
def appendEvent (s : Store) (row : EventRow) : Except PyError Store :=
  if ∃ r ∈ s.events, (r.stream = row.stream ∧ r.seq = row.seq) ∨ r.eventId = row.eventId then
    .error .integrityError
  else .ok { s with events := s.events ++ [row] }

/-- Persist one result; the command id is the primary key. -/
def persistResult (s : Store) (row : ResultRow) : Except PyError Store :=
  if ∃ r ∈ s.results, r.commandId = row.commandId then .error .integrityError
  else .ok { s with results := s.results ++ [row] }

end Store

/-! ### One call -/

/-- A call of `execute`: the request, what the clock shows at each reading, and
the event ids the factory returns. -/
structure Call where
  request : NormalizedCommand
  clock : Nat → Datetime
  eventIds : Nat → UUID

/-- A transaction's view of the log: the store, and how often the clock and the factory
have been called. -/
structure Session where
  store : Store
  readings : Nat
  issued : Nat

abbrev Transaction := StateT Session (Except PyError)

namespace Call

/-- `clock()`. -/
def tick (call : Call) : Transaction Datetime := fun session =>
  .ok (call.clock session.readings, { session with readings := session.readings + 1 })

def eventIdFactory (call : Call) : Transaction UUID := fun session =>
  .ok (call.eventIds session.issued, { session with issued := session.issued + 1 })

/-- The rows of an event and its envelope. -/
def insertEvent (envelope : EventEnvelope) (event : AccountEvent) : Transaction Unit :=
  fun session => do
    let store ← session.store.appendEvent (EventRow.ofEnvelope envelope event)
    pure ((), { session with store := store })

def persistResult (call : Call) (result : CommandResult) : Transaction Unit := do
  let createdAt ← call.tick
  fun session => do
    let store ← session.store.persistResult
      ⟨result.commandId, result.requestHash, result.toJson, createdAt⟩
    pure ((), { session with store := store })

def read {α : Type} (f : Store → Except PyError α) : Transaction α :=
  query (fun session => f session.store)

def logStorage (call : Call) : CommandDecisionStorage Transaction where
  storedResult commandId := read (·.storedResult commandId)
  foldStream accountId := read (·.foldStream accountId)
  openHold accountId holdId := read (·.openHold accountId holdId)
  legsOf transferId := read (·.legsOf transferId)
  revertedBy transferId := read (·.revertedBy transferId)
  appendEvent := insertEvent
  persistResult := call.persistResult

end Call

/-! ### The tracker -/

/-- The view of a transaction, with the states that its tracker has by account. -/
structure TrackedSession where
  session : Session
  states : Table String AccountState

abbrev TrackedTransaction := StateT TrackedSession (Except PyError)

namespace TrackedSession

def setSession (t : TrackedSession) (session : Session) : TrackedSession :=
  { t with session := session }

/-- The log as the transaction sees it. -/
def store (t : TrackedSession) : Store := t.session.store

def Knows (t : TrackedSession) (accountId : String) : Prop := (t.states.find accountId).isSome

/-- The state of a stream after a fold or an append. -/
def track (t : TrackedSession) (accountId : String) (state : AccountState) : TrackedSession :=
  { t with states := t.states.put accountId state }

/-- What the tracker makes of an appended event. -/
def afterAppend (t : TrackedSession) (event : AccountEvent) : Except PyError TrackedSession :=
  match t.states.find event.accountId with
  | none => pure t
  | some prior => do
    let state ← Account.apply prior event
    pure (t.track event.accountId state)

end TrackedSession

namespace Call

/-- A transaction that leaves the tracker as it is. -/
def onSession {α : Type} (x : Transaction α) : TrackedTransaction α :=
  zoom TrackedSession.session TrackedSession.setSession x

def foldStream (accountId : String) : TrackedTransaction AccountState := fun t => do
  let state ← t.store.foldStream accountId
  pure (state, t.track accountId state)

def appendEvent (envelope : EventEnvelope) (event : AccountEvent) : TrackedTransaction Unit := do
  onSession (insertEvent envelope event)
  fun t => do
    let t ← t.afterAppend event
    pure ((), t)

def storage (call : Call) : CommandDecisionStorage TrackedTransaction where
  storedResult commandId := onSession (call.logStorage.storedResult commandId)
  foldStream := foldStream
  openHold accountId holdId := onSession (call.logStorage.openHold accountId holdId)
  legsOf transferId := onSession (call.logStorage.legsOf transferId)
  revertedBy transferId := onSession (call.logStorage.revertedBy transferId)
  appendEvent := appendEvent
  persistResult result := onSession (call.logStorage.persistResult result)

/-- The decision of the call, as a transaction. -/
def decision (call : Call) : TrackedTransaction CommandResult :=
  executeCommandDecision call.storage call.request (onSession call.tick)
    (onSession call.eventIdFactory)

end Call

def Store.begin (s : Store) : TrackedSession := ⟨⟨s, 0, 0⟩, .empty⟩

/-- Run one call: commit on success, roll back on an exception. -/
def execute (store : Store) (call : Call) : Except PyError CommandResult × Store :=
  match call.decision.run store.begin with
  | .ok (result, t) => (.ok result, t.store)
  | .error e => (.error e, store)

def next (store : Store) (call : Call) : Store := (execute store call).2

end Cloudscale
