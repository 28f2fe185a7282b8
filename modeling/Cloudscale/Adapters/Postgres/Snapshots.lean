import Cloudscale.Adapters.Postgres.CommandUnitOfWork
import Cloudscale.Adapters.StreamSnapshots

/-!
# The command unit of work on PostgreSQL, with its snapshots

`stream_snapshots` lies beside the tables of `Database`.  A fold reads the snapshot of its
stream, then the events from its position on, and if these do not bear it out the whole
stream: each is a statement of its own, and other transactions can commit in between.  An append
tells the tracker, which may raise, and writes the snapshot that is due; that takes the row of
its stream until the transaction ends.

The other operations are those of `Postgres.boundStorage`, and so are clock and factory.  The
tracker is a state of the attempt; every attempt starts with a new one.
-/

namespace Cloudscale.Postgres

open Checked Python ReadCommitted LogRow Tables

/-- The tables, with the rows of `stream_snapshots`. -/
structure SnapshotDatabase where
  database : Database EventRow
  snapshots : Table String SnapshotRow

def SnapshotDatabase.empty : SnapshotDatabase := ⟨.empty, .empty⟩

/-- What a transaction has written: the rows of `stream_snapshots`, too, and the streams whose row
it has locked, written or not. -/
structure SnapshotWritten where
  written : Written EventRow
  pending : Table String SnapshotRow
  locked : List String

/-! ### Statements -/

inductive SnapshotStatement
  | log (op : Statement EventRow)
  | readSnapshot (stream : String)
  | selectFromSeq (accountId : String) (seq : Int)
  | selectAll (accountId : String)
  | upsertSnapshot (stream : String) (row : SnapshotRow)

abbrev SnapshotStatement.Res : SnapshotStatement → Type
  | .log op => op.Res
  | .readSnapshot _ => Option SnapshotRow
  | .selectFromSeq _ _ | .selectAll _ => List EventRow
  | .upsertSnapshot _ _ => Unit

def SnapshotStatement.keys : SnapshotStatement → List Key
  | .log op => op.keys
  | .upsertSnapshot stream _ => [.snapshot stream]
  | .readSnapshot _ | .selectFromSeq _ _ | .selectAll _ => []

namespace SnapshotWritten

def nothing : SnapshotWritten := ⟨.nothing, .empty, []⟩

def keys (own : SnapshotWritten) : List Key := own.written.keys ++ own.locked.map .snapshot

end SnapshotWritten

namespace SnapshotDatabase

variable (db : SnapshotDatabase) (own : SnapshotWritten)

/-- The rows of `stream_snapshots` that a statement sees. -/
def visible : Table String SnapshotRow := db.snapshots.putAll own.pending

/-- `ON CONFLICT (stream) DO UPDATE ... WHERE stream_snapshots.seq < EXCLUDED.seq`.  The row is
locked, updated or not. -/
def upsert (stream : String) (row : SnapshotRow) : SnapshotWritten where
  written := own.written
  pending := match (db.visible own).find stream with
    | none => own.pending.put stream row
    | some stored => if stored.seq < row.seq then own.pending.put stream row else own.pending
  locked := own.locked ++ [stream]

end SnapshotDatabase

namespace SnapshotStatement

def exec : (op : SnapshotStatement) → SnapshotDatabase → SnapshotWritten →
    Except PyError (op.Res × SnapshotWritten)
  | .log op, db, own =>
    (Postgres.exec op db.database own.written).map fun p => (p.1, { own with written := p.2 })
  | .readSnapshot stream, db, own => .ok ((db.visible own).find stream, own)
  | .selectFromSeq accountId seq, db, own =>
    .ok (StorageTier.rowsFrom (db.database.seen own.written) accountId seq, own)
  | .selectAll accountId, db, own =>
    .ok (StorageTier.streamRows (db.database.seen own.written) accountId, own)
  | .upsertSnapshot stream row, db, own => .ok ((), db.upsert own stream row)

def draw : SnapshotStatement → SnapshotDatabase → SnapshotDatabase
  | .log op, db => { db with database := Postgres.draw op db.database }
  | .readSnapshot _, db | .selectFromSeq _ _, db | .selectAll _, db | .upsertSnapshot _ _, db => db

end SnapshotStatement

def snapshotEngine : Engine SnapshotDatabase SnapshotWritten PyError SnapshotStatement
    SnapshotStatement.Res where
  blank := .nothing
  exec := SnapshotStatement.exec
  draw := SnapshotStatement.draw
  waits op own := op.keys.any (· ∈ own.keys)
  publish db own := ⟨publish db.database own.written, db.snapshots.putAll own.pending⟩

/-! ### Attempts -/

/-- Statements on the log, run beside the snapshots. -/
def onLog {α : Type} : Program EventRow α → Prog SnapshotStatement.Res PyError α
  | .pure a => .pure a
  | .throw e => .throw e
  | .call op next => .call (.log op) fun r => onLog (next r)

/-- A program with the tracker of its attempt. -/
abbrev SnapshotProgram (α : Type) : Type :=
  StateT SnapshotTracker (Prog SnapshotStatement.Res PyError) α

/-- An attempt of a unit of work that snapshots a stream after `every` events. -/
structure SnapshotAttempt where
  call : Call
  every : Int

namespace SnapshotAttempt

def perform (op : SnapshotStatement) : SnapshotProgram op.Res := StateT.lift (Prog.perform op)

def log {α : Type} (p : Program EventRow α) : SnapshotProgram α := StateT.lift (onLog p)

def checked {α : Type} (x : Except PyError α) : SnapshotProgram α := MonadExcept.ofExcept x

/-- The tracker is told of a fold. -/
def folded (accountId : String) (state : AccountState) (seq : Int) : SnapshotProgram AccountState :=
  fun tracker => pure (state, tracker.folded accountId state seq)

/-- The fold of the whole stream. -/
def foldAll (accountId : String) : SnapshotProgram AccountState := do
  let rows ← perform (.selectAll accountId)
  let state ← checked do
    let events ← StorageTier.readRows StorageTier.postgres.selects.all rows
    Account.fold events
  folded accountId state 0

/-- The fold of the events after the anchor. -/
def foldTail (snapshot : StreamSnapshot) (foreign : Bool) (rows : List EventRow) :
    Except PyError AccountState := do
  let events ← StorageTier.readRows StorageTier.postgres.selects.fromSeq (rows.drop 1)
  let _ ← requireOwn foreign
  Account.foldFrom snapshot.state events

/-- The fold from a snapshot, if the rows from its position on bear it out. -/
def foldRows (accountId : String) (snapshot : StreamSnapshot) (foreign : Bool)
    (rows : List EventRow) : SnapshotProgram AccountState :=
  match snapshotRejection snapshot rows with
  | some _ => foldAll accountId
  | none => do
    let state ← checked (foldTail snapshot foreign rows)
    folded accountId state snapshot.seq

def foldFromSnapshot (accountId : String) (snapshot : StreamSnapshot) (foreign : Bool) :
    SnapshotProgram AccountState := do
  let rows ← perform (.selectFromSeq accountId snapshot.seq)
  foldRows accountId snapshot foreign rows

/-- `fold_stream`. -/
def foldStream (accountId : String) : SnapshotProgram AccountState := do
  match ← perform (.readSnapshot (streamName accountId)) with
  | none => foldAll accountId
  | some row => do
    let (snapshot, foreign) ← checked (readSnapshot row)
    foldFromSnapshot accountId snapshot foreign

/-- The tracker is told of an append, and says what is due. -/
def afterAppend (envelope : EventEnvelope) (event : AccountEvent) :
    SnapshotProgram (Option StreamSnapshot) :=
  fun tracker => MonadExcept.ofExcept (tracker.afterAppend envelope event)

/-- `append_event`. -/
def appendEvent (envelope : EventEnvelope) (event : AccountEvent) : SnapshotProgram Unit := do
  let id ← perform (.log .nextId)
  let _ ← perform (.log (.insertEvent id (ofEnvelope envelope event)))
  match ← afterAppend envelope event with
  | none => pure ()
  | some snapshot =>
    perform (.upsertSnapshot (streamName event.accountId) (Snapshots.rowOf snapshot))

variable (attempt : SnapshotAttempt)

/-- The attempt without its snapshots. -/
def quiet : Attempt := ⟨attempt.call, fun _ => false⟩

def boundStorage : CommandDecisionStorage SnapshotProgram where
  storedResult commandId := log ((Postgres.boundStorage attempt.quiet).storedResult commandId)
  foldStream := foldStream
  openHold accountId holdId := log ((Postgres.boundStorage attempt.quiet).openHold accountId holdId)
  legsOf transferId := log ((Postgres.boundStorage attempt.quiet).legsOf transferId)
  revertedBy transferId := log ((Postgres.boundStorage attempt.quiet).revertedBy transferId)
  appendEvent := appendEvent
  persistResult result := log ((Postgres.boundStorage attempt.quiet).persistResult result)

def decision : Prog SnapshotStatement.Res PyError CommandResult := do
  let ended ← executeCommandDecision attempt.boundStorage attempt.call.request
    (log (clock attempt.quiet)) (log (eventIdFactory attempt.quiet)) (.new attempt.every)
  pure ended.1

end SnapshotAttempt

/-! ### Callers -/

/-- A caller of such a unit of work.  Of the inputs of its calls, whether a snapshot is due is not
one any more. -/
def snapshotCaller (every : Int) : Worker Client SnapshotAttempt PyError CommandResult where
  next c := c.next.map fun attempt => ⟨attempt.call, every⟩
  resume := Client.resume
  lost := caller.lost

section

variable (ι : Type)

abbrev SnapshotCallers : Type :=
  State SnapshotDatabase SnapshotWritten SnapshotStatement.Res PyError ι Client SnapshotAttempt
    CommandResult

variable {ι}

def SnapshotCallers.start (queues : ι → List Execution) : SnapshotCallers ι where
  shared := .empty
  sessions i := ⟨⟨queues i, 0, []⟩, .idle⟩

variable [DecidableEq ι]
  [∀ s : SnapshotCallers ι, ∀ i op, Decidable (s.Waits snapshotEngine i op)]

def SnapshotCallers.next (every : ι → Int) (s : SnapshotCallers ι) (move : Move ι) :
    SnapshotCallers ι :=
  State.next snapshotEngine SnapshotAttempt.decision (fun i => snapshotCaller (every i)) s move

def SnapshotCallers.run (every : ι → Int) (queues : ι → List Execution) (moves : List (Move ι)) :
    SnapshotCallers ι :=
  Runs.run (SnapshotCallers.next every) (.start queues) moves

end

end Cloudscale.Postgres
