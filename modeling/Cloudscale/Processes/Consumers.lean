import Cloudscale.Adapters.ProjectionSessions
import Cloudscale.Processes.ResilientConsumer

/-!
# Consumers of one name

`run_forever` in any number of processes, on one PostgreSQL projection under one consumer
name.  A lease lets one of them drain at a time, but a process that has lost it goes on
until it asks for it again; here all of them drain whenever they like.

A consumer is what its process keeps between two statements: its breaker, and where it is
in its loop (`Task`).  A call of the projection store runs as a session of the database,
whose statements come in any order with those of the others.  A consumer that sees a
transient fault goes on at once, whatever becomes of the session: it may be lost, and it may
still commit.  Operators redrive letters at any time.

The events of the feed can be seen one after the other, in the order of their positions.
-/

namespace Cloudscale

open Checked Python Sessions

/-- The feed of the log: positions count from one on, and every event has its own id. -/
structure ConsumerFeed extends EventFeed where
  positive : ∀ event ∈ events, 0 < positionOf event
  distinct : (events.map letterId).Nodup

namespace ConsumerFeed

/-- The place of an event in the feed. -/
abbrev Place (feed : ConsumerFeed) : Type := Fin feed.events.length

def event (feed : ConsumerFeed) (place : feed.Place) : Dict := feed.events.get place

/-- The event as `upcast` returns it. -/
def current (feed : ConsumerFeed) (place : feed.Place) : Dict :=
  (upcast currentSchemaVersions registeredSteps (feed.event place)).toOption.getD (feed.event place)

end ConsumerFeed

structure ConsumerSettings (T : Type) [Zero T] [LT T] where
  retryPolicy : RetryPolicy
  breaker : BreakerConfig T PyError
  batch : ℕ
  one_le_batch : 1 ≤ batch

/-- A call of the projection store: the process that makes it with the number of the call,
or an operator. -/
inductive ConsumerCall (W : Type) (places : ℕ)
  | apply (w : W) (number : ℕ) (place : Fin places)
  | deadLetter (w : W) (number : ℕ) (place : Fin places) (error : PyError) (attempts : ℕ)
    (now : Datetime)
  | redrive (number : ℕ) (eventId : String) (now : Datetime)
  deriving DecidableEq

variable {W T : Type}

def ConsumerCall.storeCall (feed : ConsumerFeed) :
    ConsumerCall W feed.events.length → StoreCall
  | apply _ _ place => .apply (feed.current place)
  | deadLetter _ _ place error attempts now => .deadLetter (feed.event place) error attempts now
  | redrive _ eventId now => .redrive eventId now

/-- Where a consumer is in its loop, with the places of its batch that come after. -/
inductive Task (W : Type) (places : ℕ)
  | idle
  /-- It has read the offset. -/
  | polling (lastId : Int)
  /-- It is about to make an attempt; so many have failed. -/
  | attempting (place : Fin places) (rest : List (Fin places)) (failures : ℕ)
  | applying (place : Fin places) (rest : List (Fin places)) (failures : ℕ)
    (call : ConsumerCall W places)
  /-- It is about to park the event. -/
  | parking (place : Fin places) (rest : List (Fin places)) (error : PyError) (attempts : ℕ)
  | lettering (place : Fin places) (rest : List (Fin places)) (call : ConsumerCall W places)

/-- The next event of the batch, or the next poll. -/
def Task.over {places : ℕ} : List (Fin places) → Task W places
  | [] => .idle
  | place :: rest => .attempting place rest 0

/-- A process, with the number of the calls that it has made. -/
structure Consumer (W T : Type) (places : ℕ) where
  breaker : CircuitBreaker T
  number : ℕ
  task : Task W places

structure Consumers (feed : ConsumerFeed) (W T : Type) where
  db : State postgresDialect.database (ConsumerCall W feed.events.length) Reply
  /-- The calls that were made. -/
  begun : List (ConsumerCall W feed.events.length)
  consumers : W → Consumer W T feed.events.length
  /-- So many events of the feed can be seen. -/
  visible : ℕ

inductive ConsumerMove (feed : ConsumerFeed) (W T : Type)
  /-- One more event of the feed can be seen. -/
  | relay
  /-- A session takes its next step, or is lost. -/
  | session (move : Move (ConsumerCall W feed.events.length))
  /-- `last_id`, and then `read_all`. -/
  | poll (w : W)
  /-- `_apply_under_breaker`, with the readings of the breaker's clock. -/
  | attempt (w : W) (now later : T)
  | park (w : W) (now : Datetime)
  /-- The call has returned or raised. -/
  | finish (w : W) (now : T)
  /-- A transient fault, whatever becomes of the session. -/
  | fault (w : W) (now : T)
  /-- The process ends, and another one takes its place. -/
  | crash (w : W)

/-- The session that a move is about. -/
def callerOf {ι : Type} : Move ι → ι
  | .proceed i => i
  | .lose i => i

namespace Consumers

variable {feed : ConsumerFeed}

variable [DecidableEq W] [AddCommGroup T] [LinearOrder T] (settings : ConsumerSettings T)
  (s : Consumers feed W T)

def start : Consumers feed W T where
  db := .start (⟨.empty, .empty⟩ : DeadLetterStore Int).rows fun call =>
    (call.storeCall feed).postgres
  begun := []
  consumers _ := ⟨.initial, 0, .idle⟩
  visible := 0

/-- The places that a read behind the offset returns. -/
def readAll (lastId : Int) : List feed.Place :=
  ((List.finRange feed.events.length).filter fun place =>
    decide (place.val < s.visible ∧ lastId < positionOf (feed.event place))).take settings.batch

def goOn (w : W) (consumer : Consumer W T feed.events.length) : Consumers feed W T :=
  { s with consumers := Function.update s.consumers w consumer }

def makeCall (w : W) (breaker : CircuitBreaker T) (call : ConsumerCall W feed.events.length)
    (task : Task W feed.events.length) : Consumers feed W T :=
  { s with
    begun := call :: s.begun
    consumers := Function.update s.consumers w ⟨breaker, (s.consumers w).number + 1, task⟩ }

/-- What follows when an attempt has raised. -/
def failed (place : feed.Place) (rest : List feed.Place) (failures : ℕ) (e : PyError) :
    Task W feed.events.length :=
  if e = .operationalError then
    if failures + 1 < settings.retryPolicy.maxAttempts then .attempting place rest (failures + 1)
    else .parking place rest e settings.retryPolicy.maxAttempts
  else .parking place rest e 1

def crash (w : W) : Consumers feed W T := s.goOn w ⟨.initial, (s.consumers w).number, .idle⟩

def poll (w : W) : Consumers feed W T :=
  match (s.consumers w).task with
  | .idle => s.goOn w { s.consumers w with task := .polling (offsetOf s.db.rows) }
  | .polling lastId => s.goOn w { s.consumers w with task := .over (s.readAll settings lastId) }
  | _ => s

def attempt (w : W) (now later : T) : Consumers feed W T :=
  match (s.consumers w).task with
  | .attempting place rest failures =>
    match upcast currentSchemaVersions registeredSteps (feed.event place) with
    | .error e => s.goOn w { s.consumers w with task := failed settings place rest failures e }
    | .ok _ =>
      match (s.consumers w).breaker.admission settings.breaker now later with
      | (.error _, b) => s.goOn w { s.consumers w with breaker := b, task := .idle }
      | (.ok (), b) =>
        let call := .apply w (s.consumers w).number place
        s.makeCall w b call (.applying place rest failures call)
  | _ => s

def park (w : W) (now : Datetime) : Consumers feed W T :=
  match (s.consumers w).task with
  | .parking place rest error attempts =>
    let call := .deadLetter w (s.consumers w).number place error attempts now
    s.makeCall w (s.consumers w).breaker call (.lettering place rest call)
  | _ => s

/-- The attempt has ended, and the breaker records it. -/
def endAttempt (w : W) (now : T) (ending : Ending PyError) (task : Task W feed.events.length) :
    Consumers feed W T :=
  s.goOn w { s.consumers w with
    breaker := (s.consumers w).breaker.record settings.breaker ending now, task := task }

def finish (w : W) (now : T) : Consumers feed W T :=
  match (s.consumers w).task with
  | .applying place rest failures call =>
    match s.db.sessions call with
    | .ready (.answer _) => s.endAttempt settings w now .returned (.over rest)
    | .ready (.raised e) =>
      s.endAttempt settings w now (.raised e) (failed settings place rest failures e)
    | _ => s
  | .lettering _ rest call =>
    match s.db.sessions call with
    | .ready (.answer _) => s.goOn w { s.consumers w with task := .over rest }
    | .ready (.raised _) => s.crash w
    | _ => s
  | _ => s

/-- A fault in an attempt is retried; in a read or in `dead_letter` it leaves `run`. -/
def fault (w : W) (now : T) : Consumers feed W T :=
  match (s.consumers w).task with
  | .applying place rest failures _ =>
    s.endAttempt settings w now (.raised .operationalError)
      (failed settings place rest failures .operationalError)
  | _ => s.crash w

/-- Calls of consumers go on when they were made, operators call when they like. -/
def session (move : Move (ConsumerCall W feed.events.length)) : Consumers feed W T :=
  match callerOf move with
  | .redrive _ _ _ => { s with db := s.db.next move }
  | call => if call ∈ s.begun then { s with db := s.db.next move } else s

def next : ConsumerMove feed W T → Consumers feed W T
  | .relay => { s with visible := s.visible + 1 }
  | .session move => s.session move
  | .poll w => s.poll settings w
  | .attempt w now later => s.attempt settings w now later
  | .park w now => s.park w now
  | .finish w now => s.finish settings w now
  | .fault w now => s.fault settings w now
  | .crash w => s.crash w

end Consumers

end Cloudscale
