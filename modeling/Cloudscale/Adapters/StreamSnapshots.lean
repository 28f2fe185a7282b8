import Cloudscale.Application.SnapshotTracker
import Cloudscale.Lib.Following

/-!
# The unit of work with its snapshots

`stream_snapshots` lies beside the log.  A fold of the unit of work starts from the
snapshot of its stream where that may be used (`Snapshots.foldStream`) and tells the
tracker; an append may write the snapshot that the tracker says is due, and never one that
is behind the row in the table (`writeSnapshot`).

The other operations are those of `Call.logStorage`, and the decision is the same.
`executeWith` commits log and snapshots together, so a call that raises leaves both.  A decision
that is refused leaves nothing in the tracker, which has no further use in its transaction.

The table is derived: any of its rows can be deleted, as the restore drill deletes all, and
in a rolling deployment it has rows of builds with another version of the state (`Move`).
-/

namespace Cloudscale

open Checked Python Tables Transactions

/-- The log of the SQLite tier, with its snapshots. -/
structure SnapshotStore where
  store : Store
  snapshots : Table String SnapshotRow

/-- The view of a transaction on both, with its tracker. -/
structure SnapshotSession where
  session : Session
  snapshots : Table String SnapshotRow
  tracker : SnapshotTracker

abbrev SnapshotTransaction := StateT SnapshotSession (Except PyError)

namespace SnapshotSession

def setSession (t : SnapshotSession) (session : Session) : SnapshotSession :=
  { t with session := session }

/-- The log as the transaction sees it. -/
def store (t : SnapshotSession) : Store := t.session.store

end SnapshotSession

def onLog {α : Type} (x : Transaction α) : SnapshotTransaction α :=
  zoom SnapshotSession.session SnapshotSession.setSession x

namespace Snapshots

def rowOf (snapshot : StreamSnapshot) : SnapshotRow :=
  ⟨snapshot.seq, snapshot.toStateJson, snapshot.stateVersion, snapshot.anchorEventId⟩

/-- Insert a row, or replace one that is behind it. -/
def upsert (snapshots : Table String SnapshotRow) (stream : String) (row : SnapshotRow) :
    Table String SnapshotRow :=
  match snapshots.find stream with
  | none => snapshots.put stream row
  | some stored => if stored.seq < row.seq then snapshots.put stream row else snapshots

/-- `_write_snapshot`, of the snapshot that is due. -/
def writeSnapshot (snapshots : Table String SnapshotRow) (stream : String) :
    Option StreamSnapshot → Table String SnapshotRow
  | none => snapshots
  | some snapshot => upsert snapshots stream (rowOf snapshot)

end Snapshots

namespace Call

/-- `fold_stream`, which tells the tracker. -/
def foldFromSnapshot (accountId : String) : SnapshotTransaction AccountState := fun t => do
  let (state, seq) ←
    Snapshots.foldStream .sqlite t.store.events t.snapshots.entries accountId
  pure (state, { t with tracker := t.tracker.folded accountId state seq })

/-- `append_event`, with the snapshot that is due after it. -/
def appendAndSnapshot (envelope : EventEnvelope) (event : AccountEvent) :
    SnapshotTransaction Unit := do
  onLog (insertEvent envelope event)
  fun t => do
    let (due, tracker) ← t.tracker.afterAppend envelope event
    pure ((), { t with
      snapshots := Snapshots.writeSnapshot t.snapshots (streamName event.accountId) due
      tracker := tracker })

/-- The storage operations of the unit of work, with its snapshots. -/
def snapshotStorage (call : Call) : CommandDecisionStorage SnapshotTransaction where
  storedResult commandId := onLog (call.logStorage.storedResult commandId)
  foldStream := foldFromSnapshot
  openHold accountId holdId := onLog (call.logStorage.openHold accountId holdId)
  legsOf transferId := onLog (call.logStorage.legsOf transferId)
  revertedBy transferId := onLog (call.logStorage.revertedBy transferId)
  appendEvent := appendAndSnapshot
  persistResult result := onLog (call.logStorage.persistResult result)

/-- The decision of the call, as a transaction over log and snapshots. -/
def snapshotDecision (call : Call) : SnapshotTransaction CommandResult :=
  executeCommandDecision call.snapshotStorage call.request (onLog call.tick)
    (onLog call.eventIdFactory)

end Call

namespace Snapshots

/-- `execute` of a unit of work that snapshots a stream after `every` events. -/
def executeWith (every : Int) (db : SnapshotStore) (call : Call) :
    Except PyError CommandResult × SnapshotStore :=
  match call.snapshotDecision.run ⟨⟨db.store, 0, 0⟩, db.snapshots, .new every⟩ with
  | .ok (result, t) => (.ok result, ⟨t.store, t.snapshots⟩)
  | .error e => (.error e, db)

/-- A snapshot that was written by a build of another version of the state, and whose text
this build reads. -/
structure OtherBuild where
  row : SnapshotRow
  other : row.stateVersion ≠ currentStateVersion
  reads : ReadsAsState row.stateJson

inductive Move
  | call (every : Int) (call : Call)
  | otherBuild (stream : String) (snapshot : OtherBuild)
  | delete (streams : List String)

def step (db : SnapshotStore) : Move → SnapshotStore
  | .call every call => (executeWith every db call).2
  | .otherBuild stream snapshot => { db with snapshots := upsert db.snapshots stream snapshot.row }
  | .delete streams => { db with snapshots := streams.foldl Table.erase db.snapshots }

def afterMoves (moves : List Move) : SnapshotStore := Runs.run step ⟨.empty, .empty⟩ moves

def calls (moves : List Move) : List Call :=
  moves.filterMap fun
    | .call _ call => some call
    | .otherBuild _ _ | .delete _ => none

end Snapshots

end Cloudscale
