import Cloudscale.Adapters.SqliteConnection
import Cloudscale.Processes.Consumers

/-!
# The consumer on SQLite

`run_forever` on the SQLite tier: one process, one connection, and a loop as on PostgreSQL
(`Consumers`), whose calls nobody else runs between.  Any statement of a call can raise a
transient error.

In an attempt such an error is retried on the same connection, and so is the event after a
pause when the breaker has stopped the loop.  Elsewhere it leaves `run`, the process ends and
its connection with it; another process begins with what was committed.

`hit` keeps the events of which an attempt has raised and left its claim pending.  The source
keeps no such list.
-/

namespace Cloudscale

open Checked Python SqliteInteger Sessions Connections

variable {T : Type}

/-- The process, its connection, and how many events of the feed can be seen. -/
structure SqliteConsumer (feed : ConsumerFeed) (T : Type) where
  connection : SqliteConnection
  breaker : CircuitBreaker T
  task : Task Unit feed.events.length
  visible : ℕ
  hit : List feed.Place

inductive SqliteMove (T : Type)
  /-- One more event is committed to the log. -/
  | relay
  /-- `last_id`, and then `read_all`. -/
  | poll (fault : Bool)
  /-- `_apply_under_breaker`, with the readings of the breaker's clock. -/
  | attempt (now later after : T) (faults : ℕ → Bool)
  | park (now : Datetime) (faults : ℕ → Bool)
  /-- The process ends, and another one takes its place. -/
  | restart

namespace SqliteConsumer

variable {feed : ConsumerFeed}

def start [AddCommGroup T] (feed : ConsumerFeed) : SqliteConsumer feed T where
  connection := ⟨(⟨.empty, .empty⟩ : DeadLetterStore SqliteNumber).rows, none⟩
  breaker := .initial
  task := .idle
  visible := 0
  hit := []

variable [AddCommGroup T] [LinearOrder T] (settings : ConsumerSettings T) (s : SqliteConsumer feed T)

def restart : SqliteConsumer feed T :=
  { s with connection := s.connection.rollback, breaker := .initial, task := .idle }

/-- The places that a read behind the offset returns. -/
def readAll (lastId : Int) : List feed.Place :=
  ((List.finRange feed.events.length).filter fun place =>
    decide (place.val < s.visible ∧ lastId < positionOf (feed.event place))).take settings.batch

def poll (fault : Bool) : SqliteConsumer feed T :=
  match s.task with
  | .idle =>
    if fault then s.restart else { s with task := .polling s.connection.lastId }
  | .polling lastId =>
    if fault then s.restart else { s with task := .over (s.readAll settings lastId) }
  | _ => s

/-- The claim of the event is pending on a connection. -/
def leftClaim (c : SqliteConnection) (place : feed.Place) : Bool :=
  let claim := RowKey.processedEvent (letterId (feed.event place))
  (c.seen claim).isSome && (c.rows claim).isNone

def attempt (now later after : T) (faults : ℕ → Bool) : SqliteConsumer feed T :=
  match s.task with
  | .attempting place rest failures =>
    match upcast currentSchemaVersions registeredSteps (feed.event place) with
    | .error e => { s with task := Consumers.failed settings place rest failures e }
    | .ok _ =>
      match s.breaker.admission settings.breaker now later with
      | (.error _, b) => { s with breaker := b, task := .idle }
      | (.ok (), b) =>
        match s.connection.apply faults (feed.current place) with
        | (.ok _, c) =>
          { s with
            connection := c
            breaker := b.record settings.breaker .returned after
            task := .over rest }
        | (.error e, c) =>
          { s with
            connection := c
            breaker := b.record settings.breaker (.raised e) after
            task := Consumers.failed settings place rest failures e
            hit := if leftClaim c place then place :: s.hit else s.hit }
  | _ => s

def park (now : Datetime) (faults : ℕ → Bool) : SqliteConsumer feed T :=
  match s.task with
  | .parking place rest error attempts =>
    match s.connection.deadLetter faults (feed.event place) error attempts now with
    | (.ok _, c) => { s with connection := c, task := .over rest }
    | (.error _, c) => { s with connection := c }.restart
  | _ => s

def next : SqliteMove T → SqliteConsumer feed T
  | .relay => { s with visible := s.visible + 1 }
  | .poll fault => s.poll settings fault
  | .attempt now later after faults => s.attempt settings now later after faults
  | .park now faults => s.park now faults
  | .restart => s.restart

end SqliteConsumer

end Cloudscale
