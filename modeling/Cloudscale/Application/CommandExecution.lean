import Cloudscale.Application.CommandService
import Cloudscale.Domain.Account
import Cloudscale.Domain.Results
import Cloudscale.Domain.Upcasting
import Cloudscale.Lib.Transactions
import Mathlib.Data.List.Sort
import Mathlib.Data.String.Basic

/-!
# The command decision

`executeCommandDecision` is the decision that every unit of work shares.  It
speaks to the store through a `CommandDecisionStorage`, whose operations run in
any monad with the exceptions of `PyError`, so that one definition serves a store
behind a lock and one whose every read may see a newer state.

The decision reads, decides the legs under a `try` that catches `DomainError`
alone, appends one enveloped event per leg, and persists the result.
-/

namespace Cloudscale

open Checked Python Transactions

structure CommandReads (m : Type → Type) where
  storedResult : UUID → m (Option CommandResult)
  foldStream : String → m AccountState
  openHold : String → UUID → m (Option Account.OpenHold)
  legsOf : UUID → m (List AccountEvent)
  revertedBy : UUID → m (Option UUID)

/-- The storage operations a command decision needs: its reads and its writes. -/
structure CommandDecisionStorage (m : Type → Type) extends CommandReads m where
  appendEvent : EventEnvelope → AccountEvent → m Unit
  persistResult : CommandResult → m Unit

/-! ### Numbering -/

/-- Each event with the next version of its stream. -/
def numberEvents : List (String × Int) → List AccountEvent →
    Except PyError (List (AccountEvent × Int))
  | _, [] => .ok []
  | next, event :: events => do
    let version ← getItem next event.accountId
    let legs ← numberEvents (setItem event.accountId (version + 1) next) events
    pure ((event, version + 1) :: legs)

/-- `sorted(legs, key=account)`; the sort is stable. -/
def sortLegs (legs : List (AccountEvent × Int)) : List (AccountEvent × Int) :=
  legs.insertionSort (fun leg leg' => leg.1.accountId ≤ leg'.1.accountId)

/-- Assign each event its stream version and sort. -/
def numberLegs (states : States) (events : List AccountEvent) :
    Except PyError (List (AccountEvent × Int)) := do
  let legs ← numberEvents (states.map (fun s => (s.1, s.2.version))) events
  pure (sortLegs legs)

/-! ### Results -/

def rejectionFor (error : DomainError) : CommandOutcome × Int :=
  match error.kind with
  | .insufficientFunds => (.insufficientFunds, 422)
  | .alreadyReverted => (.domainRejected, 409)
  | _ => (.domainRejected, 400)

def rejection (request : NormalizedCommand) (outcome : CommandOutcome) (errorCode : String)
    (httpStatus currentVersion : Int) (createdAt : Datetime) : Except PyError CommandResult :=
  CommandResult.new request.commandId request.requestHash outcome request.command.accountId
    request.command.expectedVersion currentVersion none none request.correlationId (some errorCode)
    httpStatus createdAt []

/-- `postings[account] = posting`: one posting per stream, the last event written. -/
def setPosting (posting : Posting) : List Posting → List Posting
  | [] => [posting]
  | p :: ps => if p.accountId = posting.accountId then posting :: ps else p :: setPosting posting ps

section

variable {m : Type → Type} [Monad m] [MonadExcept PyError m]

def persistedRejection (storage : CommandDecisionStorage m) (request : NormalizedCommand)
    (outcome : CommandOutcome) (errorCode : String) (httpStatus currentVersion : Int)
    (createdAt : Datetime) : m CommandResult := do
  let result ← MonadExcept.ofExcept
    (rejection request outcome errorCode httpStatus currentVersion createdAt)
  storage.persistResult result
  pure result

/-! ### Deciding -/

section

variable (storage : CommandReads m)

/-- The states given and a fresh fold of every other stream named. -/
def foldOthers : States → List String → m States
  | states, [] => pure states
  | states, accountId :: accountIds =>
    if (states.lookup accountId).isSome then foldOthers states accountIds
    else do
      let state ← storage.foldStream accountId
      foldOthers (states ++ [(accountId, state)]) accountIds

def postingsLegs (anchor : String) (legs : List Leg) (state : AccountState) (commandId : UUID) :
    m (List (AccountEvent × Int)) := do
  let states ← foldOthers storage [(anchor, state)] (legs.map Leg.accountId)
  MonadExcept.ofExcept do
    let events ← Account.decidePostings states anchor legs commandId
    numberLegs states events

def postHoldLegs (state : AccountState) (command : PostHold) (now : Datetime) :
    m (List (AccountEvent × Int)) := do
  let hold ← storage.openHold command.accountId command.holdId
  let targetId := match hold with
    | some hold => hold.counterparty
    | none => command.accountId
  let states ← foldOthers storage [(command.accountId, state)]
    (if hold.isSome then [targetId] else [])
  MonadExcept.ofExcept do
    let target ← getItem states targetId
    let events ← Account.decidePostHold state target hold command now
    numberLegs states events

def revertLegs (command : Revert) (state : AccountState) (commandId : UUID) :
    m (List (AccountEvent × Int)) := do
  let original ← storage.legsOf command.transferId
  let states ← foldOthers storage [(command.accountId, state)] (original.map AccountEvent.accountId)
  let revertedBy ← storage.revertedBy command.transferId
  MonadExcept.ofExcept do
    let events ← Account.decideRevert states original command commandId revertedBy
    numberLegs states events

def releaseLegs (kind : Account.ReleaseKind) (command : ReleaseCommand) (state : AccountState)
    (now : Datetime) : m (List (AccountEvent × Int)) := do
  let hold ← storage.openHold command.accountId command.holdId
  MonadExcept.ofExcept do
    let released ← Account.decideReleaseHold kind state hold command now
    pure [(.holdReleased released, state.version + 1)]

/-- The legs a valid command appends, with their stream versions. -/
def decideLegs (request : NormalizedCommand) (state : AccountState) (now : Datetime) :
    m (List (AccountEvent × Int)) :=
  match request.command with
  | .transfer c => postingsLegs storage c.accountId c.legs state request.commandId
  | .post c => postingsLegs storage c.accountId c.legs state request.commandId
  | .hold c => MonadExcept.ofExcept do
    let placed ← Account.decideHold state c request.commandId now
    pure [(.holdPlaced placed, state.version + 1)]
  | .postHold c => postHoldLegs storage state c now
  | .voidHold c => releaseLegs storage .void c state now
  | .expireHold c => releaseLegs storage .expire c state now
  | .revert c => revertLegs storage c state request.commandId
  | command => MonadExcept.ofExcept do
    let event ← Account.decide state command
    pure [(event, state.version + 1)]

end

/-! ### Executing -/

variable (storage : CommandDecisionStorage m)

/-- Append every leg; the postings by stream, and the last envelope on the
stream the command is addressed to. -/
def appendLegs (request : NormalizedCommand) (occurredAt : Datetime) (eventIdFactory : m UUID) :
    List (AccountEvent × Int) → List Posting → Option EventEnvelope →
      m (List Posting × Option EventEnvelope)
  | [], postings, addressed => pure (postings, addressed)
  | (event, streamVersion) :: legs, postings, addressed => do
    let eventId ← eventIdFactory
    let envelope ← MonadExcept.ofExcept (EventEnvelope.fromDomainEvent event eventId streamVersion
      occurredAt request.correlationId request.commandId request.commandId)
    storage.appendEvent envelope event
    let posting ← MonadExcept.ofExcept
      (Posting.new event.accountId envelope.eventId streamVersion)
    appendLegs request occurredAt eventIdFactory legs (setPosting posting postings)
      (if event.accountId = request.command.accountId then some envelope else addressed)

/-- The errors a decision turns into a rejection. -/
def domainErrorOf : PyError → Option DomainError
  | .domain e => some e
  | _ => none

/-- Run one command decision against the storage; the caller owns atomicity. -/
def executeCommandDecision (request : NormalizedCommand) (clock : m Datetime)
    (eventIdFactory : m UUID) : m CommandResult := do
  match ← storage.storedResult request.commandId with
  | some stored =>
    if stored.requestHash = request.requestHash then pure stored
    else do
      let current ← storage.foldStream request.command.accountId
      let createdAt ← clock
      MonadExcept.ofExcept (rejection request .commandIdConflict "command_id_conflict" 409
        current.version createdAt)
  | none => do
    let state ← storage.foldStream request.command.accountId
    if request.command.expectedVersion ≠ state.version then do
      let createdAt ← clock
      persistedRejection storage request .versionConflict "version_conflict" 409 state.version
        createdAt
    else do
      let occurredAt ← clock
      match ← attempt domainErrorOf (decideLegs storage.toCommandReads request state occurredAt) with
      | .inr error =>
        persistedRejection storage request (rejectionFor error).1 error.code (rejectionFor error).2
          state.version occurredAt
      | .inl legs => do
        let (postings, addressed) ← appendLegs storage request occurredAt eventIdFactory legs [] none
        match addressed with
        | none => throw (.runtimeError "command produced no leg on its addressed stream")
        | some addressed => do
          let result ← MonadExcept.ofExcept (CommandResult.new request.commandId
            request.requestHash .accepted request.command.accountId
            request.command.expectedVersion state.version (some addressed.streamVersion)
            (some addressed.eventId) request.correlationId none 201 occurredAt postings)
          storage.persistResult result
          pure result

end

end Cloudscale
