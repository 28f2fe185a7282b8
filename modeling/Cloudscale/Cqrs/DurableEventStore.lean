import Cloudscale.Adapters.EventStore
import Cloudscale.Lib.SqliteInteger

/-!
# The durable event log of `cqrs`

`append` reads the stream's last number, and then inserts.  Another connection can
append in between, so it has two logs: the one that its read saw, and the one that
its insert finds.  Integers are bound as 64 bits, a larger one raises
`OverflowError`; a taken number or event id raises `ConcurrencyError`.

`readAfter` hands out dictionaries with the columns that are not NULL.
-/

namespace Cloudscale.Cqrs

open SqliteInteger

/-- The exceptions of `cqrs`. -/
inductive LegacyError
  | commandError (message : String)
  | typeError (message : String)
  | valueError (message : String)
  | overflowError
  | concurrencyError
  deriving DecidableEq

/-- The rows of `events` in the order of their ids. -/
abbrev EventLog := List StoredEvent

/-- The dictionary of a row that `read_after` returns: `_row_to_event`. -/
def rowToEvent (e : StoredEvent) : Dict := e.columns.dropLast.filterMap fun c => c.2.map (c.1, ·)

/-- `event.get(key)` as a text column. -/
def textColumn (event : Dict) (key : String) : Option String :=
  match event.lookup key with
  | some (.str text) => some text
  | _ => none

/-- `event.get(key)` as an integer column. -/
def intColumn (event : Dict) (key : String) : Option Int :=
  match event.lookup key with
  | some (.int n) => some n
  | _ => none

def stampFor (event : Dict) : Int :=
  match intColumn event "schema_version" with
  | some version => version
  | none => (currentSchemaVersions.lookup (textOf (event.lookup "type"))).getD 1

/-- The row that `append` inserts. -/
def rowOf (id seq : Int) (stream eventId : String) (event : Dict) : StoredEvent where
  id := id
  eventId := eventId
  stream := stream
  seq := seq
  type := textOf (event.lookup "type")
  schemaVersion := stampFor event
  accountId := textColumn event "account_id"
  amount := intColumn event "amount"
  fields := ⟨textColumn event "transfer_id", textColumn event "counterparty",
    textColumn event "expires_at", textColumn event "release_reason", textColumn event "reverts"⟩

namespace EventLog

def rows (log : EventLog) (stream : String) : List StoredEvent := log.filter (·.stream = stream)

/-- `COALESCE(MAX(seq), 0) + 1`. -/
def nextSeq (log : EventLog) (stream : String) : Int :=
  ((log.rows stream).map StoredEvent.seq).max?.getD 0 + 1

/-- The id of the next row; ids are never used again. -/
def nextId (log : EventLog) : Int := (log.map StoredEvent.id).max?.getD 0 + 1

/-- The `INSERT` of `append`. -/
def insert (log : EventLog) (row : StoredEvent) : Except LegacyError EventLog :=
  if ¬ InRange row.seq ∨ (∃ n ∈ row.amount, ¬ InRange n) ∨ ¬ InRange row.schemaVersion then
    .error .overflowError
  else if ∃ r ∈ log, (r.stream = row.stream ∧ r.seq = row.seq) ∨ r.eventId = row.eventId then
    .error .concurrencyError
  else .ok (log ++ [row])

/-- `append`: the number is read from the first log, the row goes to the second. -/
def append (seen log : EventLog) (stream : String) (event : Dict) (eventId : String) :
    Except LegacyError (Int × EventLog) :=
  if stream = "" then .error (.valueError "stream must be a non-empty string")
  else do
    let seq := nextSeq seen stream
    let log ← log.insert (rowOf log.nextId seq stream eventId event)
    pure (seq, log)

def readAfter (log : EventLog) (stream : String) (afterSeq : Int) :
    Except LegacyError (List Dict) :=
  if afterSeq < 0 then .error (.valueError "after_seq must be non-negative")
  else
    .ok (((log.filter (fun e => e.stream = stream ∧ afterSeq < e.seq)).insertionSort
      (fun e e' => e.seq ≤ e'.seq)).map rowToEvent)

end EventLog

end Cloudscale.Cqrs
