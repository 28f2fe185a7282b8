import Cloudscale.Adapters.ProjectionSessions
import Cloudscale.Lib.Connections

/-!
# The connection of the SQLite projection store

The SQLite store sends the statements of a call over its one connection.  A statement that
fails, and a commit that fails, leave the open transaction in place.  `apply` and
`dead_letter` roll back when they meet an `IntegrityError`, and only then: any other error
leaves them with the transaction open, and whatever runs next on the connection goes on in
it.

Statements are counted in each call, from zero on; `faults` are those that raise a
transient error, where a commit counts as a statement.  A fault leaves the transaction
open: errors on which SQLite rolls back by itself (a full disk, an I/O error, no memory)
are left out.
-/

namespace Cloudscale

open Checked Python SqliteInteger Sessions Connections

abbrev SqliteConnection : Type := Connection (RowValue SqliteNumber)

/-- `except sqlite3.IntegrityError`. -/
def sqliteConditions (faults : ℕ → Bool) : Conditions PyError where
  busy := .operationalError
  rescued e := e == .integrityError
  faults := faults

def SqliteConnection.call (faults : ℕ → Bool) (script : sqliteDialect.Script)
    (c : SqliteConnection) : Except PyError Reply × SqliteConnection :=
  let (result, _, c) := Connections.run sqliteDialect.database (sqliteConditions faults) script 0 c
  (result, c)

def SqliteConnection.apply (faults : ℕ → Bool) (event : Dict) (c : SqliteConnection) :
    Except PyError Reply × SqliteConnection := c.call faults (sqliteDialect.apply event)

def SqliteConnection.deadLetter (faults : ℕ → Bool) (event : Dict) (error : PyError) (attempts : Int)
    (now : Datetime) (c : SqliteConnection) : Except PyError Reply × SqliteConnection :=
  c.call faults (sqliteDialect.deadLetter event error attempts now)

/-- `last_id`, which sees what the open transaction has written. -/
def SqliteConnection.lastId (c : SqliteConnection) : Int := offsetOf c.seen

end Cloudscale
