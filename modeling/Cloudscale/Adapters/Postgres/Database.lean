import Cloudscale.Adapters.CommandUnitOfWork
import Cloudscale.Lib.ReadCommitted

/-!
# The database of the PostgreSQL tier

The tables that commands, the relay and the feed share (`Database`), what a transaction
has written to them (`Written`), and the statements that the adapters run (`Statement`).
`engine` says what each statement answers and writes under READ COMMITTED: it sees
what was committed before it and what its own transaction wrote.

A row of `events` has its `id` from a sequence, which is drawn before the row is
inserted and which no rollback gives back.  The rows are listed by `id`.  An insert that
meets a row of an open transaction under one of its unique keys waits for the end of
that transaction (`Statement.keys`, `Written.keys`); one that meets a committed row
raises `UniqueViolation`.
-/

namespace Cloudscale.Postgres

open Checked Python ReadCommitted

/-- What the statements see of a row of `events`. -/
class LogRow (Row : Type) where
  eventId : Row → String
  stream : Row → String
  seq : Row → Int
  transferId : Row → Option String
  reverts : Row → Option String
  /-- `type IN ('HoldPlaced', 'HoldReleased', 'HoldPosted')`. -/
  isHold : Row → Bool
  /-- The selected columns. -/
  dict : Row → Dict
  ofEnvelope : EventEnvelope → AccountEvent → Row
  stream_ofEnvelope : ∀ envelope event,
    stream (ofEnvelope envelope event) = streamName event.accountId
  seq_ofEnvelope : ∀ envelope event, seq (ofEnvelope envelope event) = envelope.streamVersion

instance : LogRow EventRow where
  eventId r := r.eventId.str
  stream := EventRow.stream
  seq := EventRow.seq
  transferId r := r.fields.transferId
  reverts r := r.fields.reverts
  isHold r := r.event.type ∈ Store.holdTypes
  dict := EventRow.dict
  ofEnvelope := EventRow.ofEnvelope
  stream_ofEnvelope _ _ := rfl
  seq_ofEnvelope _ _ := rfl

open LogRow

/-- The tables.  `events` are the rows under their ids, `published` the ids whose row is
marked, `outbox` the event ids under their positions, `nextId` the sequence. -/
structure Database (Row : Type) where
  events : List (ℕ × Row)
  published : List ℕ
  outbox : List (ℕ × String)
  results : List ResultRow
  nextId : ℕ

def Database.empty {Row : Type} : Database Row := ⟨[], [], [], [], 1⟩

/-- What a transaction has written and drawn, and how often it has read its clock and
its factory of event ids. -/
structure Written (Row : Type) where
  drawn : List ℕ
  events : List (ℕ × Row)
  results : List ResultRow
  /-- The streams whose row of `stream_snapshots` it has written. -/
  snapshots : List String
  /-- It holds the advisory lock of the relay. -/
  relaying : Bool
  outbox : List (ℕ × String)
  published : List ℕ
  readings : ℕ
  issued : ℕ

namespace Written

variable {Row : Type} (own : Written Row)

def nothing : Written Row := ⟨[], [], [], [], false, [], [], 0, 0⟩

def withId (id : ℕ) : Written Row := { own with drawn := own.drawn ++ [id] }

def withEvent (id : ℕ) (row : Row) : Written Row := { own with events := own.events ++ [(id, row)] }

def withResult (row : ResultRow) : Written Row := { own with results := own.results ++ [row] }

def withSnapshot (stream : String) : Written Row :=
  { own with snapshots := own.snapshots ++ [stream] }

end Written

/-! ### Statements -/

/-- The statements of the adapters, with the readings of a clock and of a factory. -/
inductive Statement (Row : Type)
  | storedResult (commandId : UUID)
  | foldStream (accountId : String)
  | openHold (accountId : String) (holdId : UUID)
  | legsOf (transferId : UUID)
  | revertedBy (transferId : UUID)
  | reading
  | issue
  | nextId
  | insertEvent (id : ℕ) (row : Row)
  | writeSnapshot (stream : String)
  | insertResult (row : ResultRow)
  | nextSeq (stream : String)
  | lockRelay
  | pending
  | head
  | insertOutbox (rows : List (ℕ × String))
  | markPublished (ids : List ℕ)
  | feed (after : ℕ) (limit : Option ℕ)

abbrev Statement.Res {Row : Type} : Statement Row → Type
  | .storedResult _ => Option CommandResult
  | .foldStream _ => AccountState
  | .openHold _ _ => Option Account.OpenHold
  | .legsOf _ => List AccountEvent
  | .revertedBy _ => Option UUID
  | .reading | .issue | .nextId | .head => ℕ
  | .nextSeq _ => Int
  | .pending => List (ℕ × String)
  | .feed _ _ => List (ℕ × Row)
  | .insertEvent _ _ | .writeSnapshot _ | .insertResult _ | .lockRelay | .insertOutbox _
  | .markPublished _ => Unit

/-- What only one transaction at a time can have. -/
inductive Key
  | id (id : ℕ)
  | version (stream : String) (seq : Int)
  | event (eventId : String)
  | result (commandId : UUID)
  | snapshot (stream : String)
  | relay
  deriving DecidableEq

section

variable {Row : Type} [LogRow Row]

/-- The keys that a statement takes, or waits for. -/
def Statement.keys : Statement Row → List Key
  | .insertEvent _ row => [.version (stream row) (seq row), .event (eventId row)]
  | .writeSnapshot stream => [.snapshot stream]
  | .insertResult row => [.result row.commandId]
  | .lockRelay => [.relay]
  | _ => []

/-- The keys that a transaction has until it ends. -/
def Written.keys (own : Written Row) : List Key :=
  own.drawn.map .id ++ own.events.map (fun r => .version (stream r.2) (seq r.2)) ++
    own.events.map (fun r => .event (eventId r.2)) ++ own.results.map (fun r => .result r.commandId) ++
    own.snapshots.map .snapshot ++ if own.relaying then [.relay] else []

/-! ### Reads of rows -/

/-- `ORDER BY id`. -/
def byId (rows : List (ℕ × Row)) : List (ℕ × Row) :=
  rows.insertionSort (fun r r' => r.1 ≤ r'.1)

/-- `ORDER BY seq`. -/
def bySeq (rows : List Row) : List Row :=
  rows.insertionSort (fun r r' => seq r ≤ seq r')

def decodeRows (rows : List Row) : Except PyError (List AccountEvent) :=
  rows.mapM (fun r => decodeRow (dict r))

def foldStream (rows : List Row) (accountId : String) : Except PyError AccountState := do
  let events ← decodeRows (bySeq (rows.filter (fun r => stream r = streamName accountId)))
  Account.fold events

def openHold (rows : List Row) (accountId : String) (holdId : UUID) :
    Except PyError (Option Account.OpenHold) := do
  let events ← decodeRows (bySeq (rows.filter (fun r => stream r = streamName accountId ∧
    transferId r = some holdId.str ∧ isHold r = true)))
  pure (Account.openHoldFromEvents holdId (events.filterMap Account.holdEvent?))

def legsOf (rows : List Row) (transfer : UUID) : Except PyError (List AccountEvent) :=
  decodeRows (rows.filter (fun r => transferId r = some transfer.str))

def revertedBy (rows : List Row) (transfer : UUID) : Except PyError (Option UUID) :=
  match (rows.filter (fun r => reverts r = some transfer.str)).head? with
  | none => .ok none
  | some row => some <$> legacyUuid (some (column (transferId row))) "transfer_id"

/-- `COALESCE(MAX(seq), 0) + 1`. -/
def nextSeq (rows : List Row) (name : String) : Int :=
  ((rows.filter (fun r => stream r = name)).map seq).foldl max 0 + 1

/-! ### The engine -/

namespace Database

variable (db : Database Row) (own : Written Row)

/-- The rows that a statement sees, by id. -/
def seen : List Row := (byId (db.events ++ own.events)).map Prod.snd

/-- `SELECT id, event_id FROM events WHERE NOT published ORDER BY id`. -/
def pending : List (ℕ × String) :=
  ((byId (db.events ++ own.events)).filter
    (fun r => r.1 ∉ db.published ++ own.published)).map (fun r => (r.1, eventId r.2))

/-- `COALESCE(MAX(position), 0)`. -/
def head : ℕ := ((db.outbox ++ own.outbox).map Prod.fst).foldl max 0

/-- The rows of `outbox` after a position, by position, each with its event. -/
def feed (after : ℕ) (limit : Option ℕ) : List (ℕ × Row) :=
  let rows := (((db.outbox ++ own.outbox).filter (fun o => after < o.1)).insertionSort
    (fun o o' => o.1 ≤ o'.1)).filterMap
      (fun o => ((db.seen own).find? (fun r => eventId r = o.2)).map (o.1, ·))
  match limit with
  | none => rows
  | some limit => rows.take limit

/-- A row that meets a unique key of another. -/
def Meets (row row' : Row) : Prop :=
  (stream row = stream row' ∧ seq row = seq row') ∨ eventId row = eventId row'

instance (row row' : Row) : Decidable (Meets row row') :=
  inferInstanceAs (Decidable (_ ∧ _ ∨ _))

/-- `UNIQUE (stream, seq)` and `UNIQUE (event_id)`. -/
def insertEvent (id : ℕ) (row : Row) : Except PyError (Unit × Written Row) :=
  if ∃ r ∈ db.events ++ own.events, Meets r.2 row then .error .integrityError
  else .ok ((), own.withEvent id row)

/-- The command id is the primary key. -/
def insertResult (row : ResultRow) : Except PyError (Unit × Written Row) :=
  if ∃ r ∈ db.results ++ own.results, r.commandId = row.commandId then .error .integrityError
  else .ok ((), own.withResult row)

/-- The position is the primary key, and the event id is unique. -/
def insertOutbox (rows : List (ℕ × String)) : Except PyError (Unit × Written Row) :=
  if ((db.outbox ++ own.outbox ++ rows).map Prod.fst).Nodup ∧
      ((db.outbox ++ own.outbox ++ rows).map Prod.snd).Nodup then
    .ok ((), { own with outbox := own.outbox ++ rows })
  else .error .integrityError

end Database

/-- What a statement answers, and what its transaction has written then. -/
def exec : (op : Statement Row) → Database Row → Written Row → Except PyError (op.Res × Written Row)
  | .storedResult commandId, db, own =>
    (Store.storedResult ⟨[], db.results ++ own.results⟩ commandId).map (·, own)
  | .foldStream accountId, db, own => (foldStream (db.seen own) accountId).map (·, own)
  | .openHold accountId holdId, db, own => (openHold (db.seen own) accountId holdId).map (·, own)
  | .legsOf transferId, db, own => (legsOf (db.seen own) transferId).map (·, own)
  | .revertedBy transferId, db, own => (revertedBy (db.seen own) transferId).map (·, own)
  | .reading, _, own => .ok (own.readings, { own with readings := own.readings + 1 })
  | .issue, _, own => .ok (own.issued, { own with issued := own.issued + 1 })
  | .nextId, db, own => .ok (db.nextId, own.withId db.nextId)
  | .insertEvent id row, db, own => db.insertEvent own id row
  | .writeSnapshot stream, _, own => .ok ((), own.withSnapshot stream)
  | .insertResult row, db, own => db.insertResult own row
  | .nextSeq stream, db, own => .ok (nextSeq (db.seen own) stream, own)
  | .lockRelay, _, own => .ok ((), { own with relaying := true })
  | .pending, db, own => .ok (db.pending own, own)
  | .head, db, own => .ok (db.head own, own)
  | .insertOutbox rows, db, own => db.insertOutbox own rows
  | .markPublished ids, _, own => .ok ((), { own with published := own.published ++ ids })
  | .feed after limit, db, own => .ok (db.feed own after limit, own)

/-- What a statement takes from the sequence. -/
def draw : Statement Row → Database Row → Database Row
  | .nextId, db => { db with nextId := db.nextId + 1 }
  | _, db => db

/-- `COMMIT`. -/
def publish (db : Database Row) (own : Written Row) : Database Row where
  events := byId (db.events ++ own.events)
  published := db.published ++ own.published
  outbox := db.outbox ++ own.outbox
  results := db.results ++ own.results
  nextId := db.nextId

/-- PostgreSQL under READ COMMITTED, as far as the adapters use it. -/
def engine : Engine (Database Row) (Written Row) PyError (Statement Row) (@Statement.Res Row) where
  blank := .nothing
  exec := exec
  draw := draw
  waits op own := op.keys.any (· ∈ own.keys)
  publish := publish

end

end Cloudscale.Postgres
