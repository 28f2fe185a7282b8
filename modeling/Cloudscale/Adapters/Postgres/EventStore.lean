import Cloudscale.Adapters.Postgres.CommandUnitOfWork

/-!
# The event store on PostgreSQL

`append` adds a row without a command, `relayOutbox` gives positions to the committed
rows that have none, and `readAll` are the relay and the read by position after it, each
in a transaction of its own.

`Parties` share a database with the callers of commands: sessions that append, that
relay, and that read the feed from where they last came to.
-/

namespace Cloudscale.Postgres

open Checked Python ReadCommitted LogRow

/-! ### Rows -/

/-- A row of `events`, whatever wrote it; `none` is NULL. -/
structure EventRecord where
  eventId : String
  stream : String
  seq : Int
  type : Option String
  accountId : Option String
  amount : Option Int
  schemaVersion : Int
  fields : RowFields
  deriving DecidableEq

/-- A nullable integer column, as the driver returns it. -/
def intColumn : Option Int → Json
  | some n => .int n
  | none => .null

def EventRecord.dict (r : EventRecord) : Dict :=
  [("type", column r.type), ("account_id", column r.accountId), ("amount", intColumn r.amount),
    ("transfer_id", column r.fields.transferId), ("counterparty", column r.fields.counterparty),
    ("expires_at", column r.fields.expiresAt), ("release_reason", column r.fields.releaseReason),
    ("reverts", column r.fields.reverts), ("schema_version", .int r.schemaVersion)]

def EventRecord.ofRow (r : EventRow) : EventRecord where
  eventId := r.eventId.str
  stream := r.stream
  seq := r.seq
  type := some r.event.type.text
  accountId := some r.event.accountId
  amount := some r.event.amount
  schemaVersion := r.schemaVersion
  fields := r.fields

instance : LogRow EventRecord where
  eventId := EventRecord.eventId
  stream := EventRecord.stream
  seq := EventRecord.seq
  transferId r := r.fields.transferId
  reverts r := r.fields.reverts
  isHold r := r.type.any (· ∈ Store.holdTypes.map EventType.text)
  dict := EventRecord.dict
  ofEnvelope envelope event := .ofRow (.ofEnvelope envelope event)
  stream_ofEnvelope _ _ := rfl
  seq_ofEnvelope _ _ := rfl

/-- What can be appended to a stream without a command: its row under a number. -/
class Appendable (A Row : Type) [LogRow Row] where
  streamOf : A → String
  rowAt : A → Int → Row
  /-- The integers of the row are in the range of their columns. -/
  fits : Row → Bool
  stream_rowAt : ∀ a n, stream (rowAt a n) = streamOf a
  seq_rowAt : ∀ a n, seq (rowAt a n) = n

open Appendable

/-- The arguments of `append`: a stream, and an event whose columns have values of their
types.  `fresh` is what `uuid4` returns. -/
structure Appending where
  stream : String
  eventId : Option String
  type : Option String
  accountId : Option String
  amount : Option Int
  schemaVersion : Option Int
  fields : RowFields
  fresh : UUID

namespace Appending

/-- `event.get("event_id") or str(uuid.uuid4())`. -/
def eventIdOf (a : Appending) : String :=
  match a.eventId with
  | some text => if text = "" then a.fresh.str else text
  | none => a.fresh.str

/-- `_stamp_for`; the text of an absent type is `None`. -/
def stampFor (a : Appending) : Int :=
  match a.schemaVersion with
  | some stamp => stamp
  | none => (currentSchemaVersions.lookup (a.type.getD "None")).getD 1

def record (a : Appending) (n : Int) : EventRecord where
  eventId := a.eventIdOf
  stream := a.stream
  seq := n
  type := a.type
  accountId := a.accountId
  amount := a.amount
  schemaVersion := a.stampFor
  fields := a.fields

end Appending

/-- `BIGINT`, and `INTEGER` for the version of the schema. -/
def EventRecord.fits (r : EventRecord) : Bool :=
  decide (-(2 ^ 63) ≤ r.seq ∧ r.seq < 2 ^ 63 ∧ -(2 ^ 31) ≤ r.schemaVersion ∧ r.schemaVersion < 2 ^ 31) &&
    r.amount.all fun n => decide (-(2 ^ 63) ≤ n ∧ n < 2 ^ 63)

instance : Appendable Appending EventRecord where
  streamOf := Appending.stream
  rowAt := Appending.record
  fits := EventRecord.fits
  stream_rowAt _ _ := rfl
  seq_rowAt _ _ := rfl

/-- Nothing is appended without a command. -/
instance {Row : Type} [LogRow Row] : Appendable Empty Row where
  streamOf a := nomatch a
  rowAt a := nomatch a
  fits _ := true
  stream_rowAt a := nomatch a
  seq_rowAt a := nomatch a

/-! ### Programs -/

section

variable {A Row : Type} [LogRow Row] [Appendable A Row]

/-- `append`; the answer is the number of the row. -/
def append (a : A) : Program Row Int :=
  if streamOf Row a = "" then throw (.valueError "stream must be a non-empty string")
  else do
    let seq ← perform (.nextSeq (streamOf Row a))
    if fits A (rowAt a seq : Row) then do
      let id ← perform .nextId
      let _ ← perform (.insertEvent id (rowAt a seq))
      pure seq
    else throw .numericValueOutOfRange

/-- The rows of `outbox` for these rows, after a position. -/
def outboxRows : ℕ → List (ℕ × String) → List (ℕ × String)
  | _, [] => []
  | position, row :: rows => (position + 1, row.2) :: outboxRows (position + 1) rows

/-- `relay_outbox`; the answer is how many rows got a position. -/
def relayOutbox : Program Row ℕ := do
  let _ ← perform .lockRelay
  let pending ← perform .pending
  if pending = [] then pure 0
  else do
    let head ← perform .head
    let rows := outboxRows head pending
    let _ ← perform (.insertOutbox rows)
    let _ ← perform (.markPublished (pending.map Prod.fst))
    pure rows.length

/-- `relay_outbox` on a database that nobody else uses. -/
def Database.relay (db : Database Row) : Except PyError ℕ × Database Row :=
  transact engine relayOutbox db

/-- `read_all` on a database that nobody else uses. -/
def Database.readAll (db : Database Row) (after : ℕ) (limit : Option ℕ) :
    Except PyError (List (ℕ × Row)) × Database Row :=
  match db.relay with
  | (.ok _, db) => transact engine (perform (.feed after limit)) db
  | (.error e, db) => (.error e, db)

end

/-! ### Sessions -/

/-- What the sessions run in a transaction. -/
inductive Job (A : Type)
  | attempt (attempt : Attempt)
  | append (a : A)
  | relay
  | feed (after : ℕ) (limit : Option ℕ)

inductive Answer (Row : Type)
  | decided (result : CommandResult)
  | appended (seq : Int)
  | relayed (count : ℕ)
  | fed (rows : List (ℕ × Row))

def Job.program {A Row : Type} [LogRow Row] [Appendable A Row] : Job A → Program Row (Answer Row)
  | .attempt once => do
    let result ← decision once
    pure (.decided result)
  | .append a => do
    let seq ← Postgres.append a
    pure (.appended seq)
  | .relay => do
    let count ← relayOutbox
    pure (.relayed count)
  | .feed after limit => do
    let rows ← perform (.feed after limit)
    pure (.fed rows)

/-- A reader of the feed: how many rows it asks for, the position of the last one, what it
has received, and whether it has relayed and is to read. -/
structure Reader (Row : Type) where
  limit : Option ℕ
  lastId : ℕ
  received : List (ℕ × Row)
  relayed : Bool

/-- A reader goes on from the last row of an answer. -/
def Reader.receive {Row : Type} (r : Reader Row) (rows : List (ℕ × Row)) : Reader Row where
  limit := r.limit
  lastId := (rows.getLast?.map Prod.fst).getD r.lastId
  received := r.received ++ rows
  relayed := false

inductive Party (A Row : Type)
  | client (c : Client)
  /-- It appends the events of a queue, one after the other; with the answers so far. -/
  | appender (queue : List A) (answers : List (Except PyError Int))
  | relay
  | reader (r : Reader Row)

namespace Party

variable {A Row : Type}

def next : Party A Row → Option (Job A)
  | client c => c.next.map .attempt
  | appender queue _ => queue.head?.map .append
  | relay => some .relay
  | reader r => some (if r.relayed then .feed r.lastId r.limit else .relay)

/-- The result of a command, of an answer. -/
def decided : Except PyError (Answer Row) → Option (Except PyError CommandResult)
  | .ok (.decided result) => some (.ok result)
  | .ok _ => none
  | .error e => some (.error e)

/-- The number of a row, of an answer. -/
def appended : Except PyError (Answer Row) → Option (Except PyError Int)
  | .ok (.appended seq) => some (.ok seq)
  | .ok _ => none
  | .error e => some (.error e)

/-- A reader relays before each of its reads; an error makes it start again. -/
def resume (p : Party A Row) (answer : Except PyError (Answer Row)) : Party A Row :=
  match p with
  | client c => (decided answer).elim p (client ∘ c.resume)
  | appender queue answers => (appended answer).elim p fun seq => appender queue.tail (answers ++ [seq])
  | relay => relay
  | reader r =>
    match answer with
    | .ok (.relayed _) => reader { r with relayed := true }
    | .ok (.fed rows) => reader (r.receive rows)
    | .ok _ => p
    | .error _ => reader { r with relayed := false }

end Party

def party (A Row : Type) : Worker (Party A Row) (Job A) PyError (Answer Row) where
  next := Party.next
  resume := Party.resume
  lost := .operationalError

inductive Role (A : Type)
  | client (queue : List Execution)
  | appender (queue : List A)
  | relay
  | reader (limit : Option ℕ)

def Role.party {A Row : Type} : Role A → Party A Row
  | client queue => .client ⟨queue, 0, []⟩
  | appender queue => .appender queue []
  | relay => .relay
  | reader limit => .reader ⟨limit, 0, [], false⟩

section

variable (A Row : Type) [LogRow Row] [Appendable A Row] (ι : Type)

abbrev Parties : Type :=
  State (Database Row) (Written Row) (@Statement.Res Row) PyError ι (Party A Row) (Job A) (Answer Row)

variable {A Row ι}

def Parties.start (roles : ι → Role A) : Parties A Row ι where
  shared := .empty
  sessions i := ⟨(roles i).party, .idle⟩

variable [DecidableEq ι] [∀ s : Parties A Row ι, ∀ i op, Decidable (s.Waits engine i op)]

def Parties.next (s : Parties A Row ι) (move : Move ι) : Parties A Row ι :=
  State.next engine Job.program (fun _ => party A Row) s move

def Parties.run (roles : ι → Role A) (moves : List (Move ι)) : Parties A Row ι :=
  Runs.run Parties.next (Parties.start roles) moves

end

end Cloudscale.Postgres
