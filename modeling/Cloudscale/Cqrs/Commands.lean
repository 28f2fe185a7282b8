import Cloudscale.Application.TransfersReadModel
import Cloudscale.Cqrs.DurableEventStore

/-!
# The command handler of `cqrs`

`CommandHandler` keeps a memo, for each stream the number of the last event that
it folded and the state; it folds what it has not seen yet before a withdrawal,
and its own event after an append (`memoized`).  `replaying` is the guard that the
memo replaced: it folds the whole stream each time and remembers nothing.  A
handler is the same over both (`handle`).

Between the read of a withdrawal and its append, and inside the append, other
writers may append (`Round`).
-/

namespace Cloudscale.Cqrs

/-! ### `BalanceProjection` -/

structure BalanceState where
  accountId : Option Json
  balance : Int
  held : Int
  version : Int

namespace BalanceProjection

def initial : BalanceState := ⟨none, 0, 0, 0⟩

/-- The next state; an unknown type moves nothing.  The store hands out integer amounts. -/
def apply (state : BalanceState) (event : Dict) : BalanceState :=
  let etype := textOf (event.lookup "type")
  let amount := intOf (event.lookup "amount")
  { accountId := state.accountId.or (event.lookup "account_id")
    balance := state.balance + (balanceSigns.lookup etype).getD 0 * amount
    held := state.held + (heldSigns.lookup etype).getD 0 * amount
    version := state.version + 1 }

def rebuild (events : List Dict) : BalanceState := events.foldl apply initial

end BalanceProjection

/-! ### What the guard remembers -/

/-- How a handler comes by the state of a stream. -/
structure Guard (μ : Type) where
  currentState : μ → EventLog → String → Except LegacyError (BalanceState × μ)
  recordAppend : μ → String → Dict → Int → μ

/-- `self._folds`. -/
abbrev Folds := List (String × Int × BalanceState)

namespace Folds

/-- `self._folds.get(stream, (0, initial))`. -/
def get (folds : Folds) (stream : String) : Int × BalanceState :=
  (folds.lookup stream).getD (0, BalanceProjection.initial)

/-- The loop of `_current_state`. -/
def catchUp (fold : Int × BalanceState) (events : List Dict) : Int × BalanceState :=
  events.foldl (fun fold event =>
    (intOf (event.lookup "seq"), BalanceProjection.apply fold.2 event)) fold

def currentState (folds : Folds) (log : EventLog) (stream : String) :
    Except LegacyError (BalanceState × Folds) := do
  let fold := folds.get stream
  let events ← log.readAfter stream fold.1
  let fold := catchUp fold events
  pure (fold.2, setItem stream fold folds)

/-- Advance the memo with the event just appended, unless another writer came before. -/
def recordAppend (folds : Folds) (stream : String) (event : Dict) (seq : Int) : Folds :=
  let fold := folds.get stream
  if seq = fold.1 + 1 then
    setItem stream (seq, BalanceProjection.apply fold.2 (setItem "seq" (.int seq) event)) folds
  else folds

end Folds

def memoized : Guard Folds := ⟨Folds.currentState, Folds.recordAppend⟩

def replaying : Guard Unit where
  currentState _ log stream := do
    let events ← log.readAfter stream 0
    pure (BalanceProjection.rebuild events, ())
  recordAppend _ _ _ _ := ()

/-! ### `handle` -/

/-- The keys of `self._handlers`. -/
inductive CommandType
  | deposit
  | withdraw
  deriving DecidableEq

/-- The event that a handler of a command builds. -/
def cashEvent (type accountId : String) (amount : Int) : Dict :=
  [("type", .str type), ("account_id", .str accountId), ("amount", .int amount)]

def commandType (command : Dict) : Except LegacyError CommandType :=
  match command.lookup "type" with
  | some (.arr _) => .error (.typeError "unhashable type: 'list'")
  | some (.obj _) | some (.oddObj _) => .error (.typeError "unhashable type: 'dict'")
  | ctype =>
    if textOf ctype = "Deposit" then .ok .deposit
    else if textOf ctype = "Withdraw" then .ok .withdraw
    else .error (.commandError ("unknown command type: " ++ pyRepr ctype))

def commandAccount (command : Dict) : Except LegacyError String :=
  match command.lookup "account_id" with
  | some (.str accountId) =>
    if accountId = "" then .error (.commandError "command requires a non-empty account_id")
    else .ok accountId
  | _ => .error (.commandError "command requires a non-empty account_id")

/-- `_amount`. -/
def commandAmount (command : Dict) : Except LegacyError Int :=
  match command.lookup "amount" with
  | some (.int amount) =>
    if amount ≤ 0 then .error (.commandError "amount must be positive") else .ok amount
  | _ => .error (.commandError "amount must be an integer (minor units)")

section Handle

variable {μ : Type} (guard : Guard μ)

/-- What a handler comes to: the state that it saw, and the event or an error. -/
structure Decision (μ : Type) where
  seen : Option BalanceState
  event : Except LegacyError Dict
  memo : μ

def handleDeposit (memo : μ) (accountId : String) (command : Dict) : Decision μ :=
  ⟨none, cashEvent "Deposited" accountId <$> commandAmount command, memo⟩

def handleWithdraw (memo : μ) (log : EventLog) (accountId : String) (command : Dict) :
    Decision μ :=
  match commandAmount command with
  | .error e => ⟨none, .error e, memo⟩
  | .ok amount =>
    match guard.currentState memo log (streamName accountId) with
    | .error e => ⟨none, .error e, memo⟩
    | .ok (current, memo) =>
      ⟨some current,
        if current.balance < amount then .error (.commandError "insufficient funds")
        else .ok (cashEvent "Withdrawn" accountId amount), memo⟩

/-- `self._handlers[ctype](account_id, command)`. -/
def dispatch (memo : μ) (log : EventLog) (ctype : CommandType) (accountId : String)
    (command : Dict) : Decision μ :=
  match ctype with
  | .deposit => handleDeposit memo accountId command
  | .withdraw => handleWithdraw guard memo log accountId command

/-- The checks of `handle` before the handler of the command's type. -/
def checkCommand : Json → Except LegacyError (CommandType × String × Dict)
  | .obj command | .oddObj command => do
    let ctype ← commandType command
    let accountId ← commandAccount command
    pure (ctype, accountId, command)
  | _ => .error (.commandError "command must be a dict")

/-- An append by another writer; it is refused or it stands. -/
structure Foreign where
  stream : String
  eventId : String
  event : Dict

def Foreign.append (log : EventLog) (f : Foreign) : EventLog :=
  match log.append log f.stream f.event f.eventId with
  | .ok (_, log) => log
  | .error _ => log

/-- A call of `handle`, and what other writers append before it, between its read and its
append, and while it appends. -/
structure Round where
  command : Json
  eventId : String
  before : List Foreign
  between : List Foreign
  racing : List Foreign

/-- What a call of `handle` answers, with the state that a withdrawal saw. -/
structure Reply where
  seen : Option BalanceState
  answer : Except LegacyError Int

/-- `handle`, in a round. -/
def handle (state : μ × EventLog) (round : Round) : Reply × (μ × EventLog) :=
  let log := round.before.foldl Foreign.append state.2
  let appending := round.between.foldl Foreign.append log
  let inserting := round.racing.foldl Foreign.append appending
  match checkCommand round.command with
  | .error e => (⟨none, .error e⟩, (state.1, inserting))
  | .ok (ctype, accountId, command) =>
    let decision := dispatch guard state.1 log ctype accountId command
    match decision.event with
    | .error e => (⟨decision.seen, .error e⟩, (decision.memo, inserting))
    | .ok event =>
      match appending.append inserting (streamName accountId) event round.eventId with
      | .error e => (⟨decision.seen, .error e⟩, (decision.memo, inserting))
      | .ok (seq, appended) =>
        (⟨decision.seen, .ok seq⟩,
          (guard.recordAppend decision.memo (streamName accountId) event seq, appended))

/-- The answers to a sequence of calls, and the log after them. -/
def handleAll : μ × EventLog → List Round → List Reply × EventLog
  | state, [] => ([], state.2)
  | state, round :: rounds =>
    let (reply, state) := handle guard state round
    let (replies, log) := handleAll state rounds
    (reply :: replies, log)

end Handle

end Cloudscale.Cqrs
