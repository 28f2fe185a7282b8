import Cloudscale.Adapters.CommandUnitOfWork
import Cloudscale.Entrypoints.Http.Auth

/-!
# The routes that move money

Each route authorizes the principal, builds a command from the request, hands it
to the command service and answers with the result, whose committed versions are
redacted for accounts the principal may not read.

A route's check and its command are one `Except` computation (`postingsCommand`,
`revertCommand`), so that the store the check reads and the
store the command is executed on can be told apart.  The executor's breaker and
retry are a module of their own; the attempt modelled here is the one that returns.
-/

namespace Cloudscale

open Checked Python

/-! ### Requests -/

structure LegRequest where
  accountId : String
  amount : Int
  direction : Direction

structure PostingsRequest where
  commandId : UUID
  postings : List LegRequest
  expectedVersion : Int

structure RevertRequest where
  commandId : UUID
  expectedVersion : Int

/-! ### Executing -/

/-- What an attempt draws from outside: its correlation id, the clock and the event ids. -/
structure Attempt where
  correlationId : UUID
  clock : Nat → Datetime
  eventIds : Nat → UUID

def Attempt.call (attempt : Attempt) (request : NormalizedCommand) : Call :=
  ⟨request, attempt.clock, attempt.eventIds⟩

/-- `CommandService.execute`. -/
def serviceExecute (command : AccountCommand) (commandId : UUID) (issuer subject : String)
    (attempt : Attempt) (s : Store) : Except PyError CommandResult × Store :=
  match normalizeCommand command commandId attempt.correlationId issuer subject with
  | .error e => (.error e, s)
  | .ok request => execute s (attempt.call request)

/-- `except DomainError as error`: a 400 with the error's code. -/
def asBadRequest {α : Type} : Except PyError α → Except RouteError α
  | .ok a => .ok a
  | .error (.domain e) => .error (.http 400 e.code)
  | .error e => .error (.raised e)

/-- The exceptions of an execution; a newer event schema is a 503. -/
def executionError : PyError → RouteError
  | .unknownSchemaVersion _ =>
    .http 503 "command path unavailable (event schema newer than this build)"
  | e => .raised e

structure PostingResponse where
  accountId : String
  eventId : UUID
  committedVersion : Option Int

structure CommandResponse where
  statusCode : Int
  commandId : UUID
  outcome : CommandOutcome
  accountId : String
  expectedVersion : Int
  currentVersion : Int
  committedVersion : Option Int
  eventId : Option UUID
  correlationId : UUID
  errorCode : Option String
  postings : List PostingResponse

def commandResponse (result : CommandResult) (mayRead : String → Bool) : CommandResponse where
  statusCode := result.httpStatus
  commandId := result.commandId
  outcome := result.outcome
  accountId := result.accountId
  expectedVersion := result.expectedVersion
  currentVersion := result.currentVersion
  committedVersion := result.committedVersion
  eventId := result.eventId
  correlationId := result.correlationId
  errorCode := result.errorCode
  postings := result.postings.map (fun posting => ⟨posting.accountId, posting.eventId,
    if mayRead posting.accountId then some posting.committedVersion else none⟩)

/-- Execute a route's command, unless its check has raised. -/
def answer (registry : Option OwnerOf) (principal : Principal) (commandId : UUID)
    (command : Except RouteError AccountCommand) (attempt : Attempt) (s : Store) :
    Except RouteError CommandResponse × Store :=
  match command with
  | .error e => (.error e, s)
  | .ok command =>
    match serviceExecute command commandId principal.issuer principal.subject attempt s with
    | (.error e, s') => (.error (executionError e), s')
    | (.ok result, s') =>
      (.ok (commandResponse result (fun target => mayRead registry principal target)), s')

/-! ### Routes -/

section Routes

variable (registry : Option OwnerOf) (principal : Principal) (accountId : String)

def PostingsRequest.post (request : PostingsRequest) (accountId : String) : Except PyError Post := do
  let legs ← request.postings.mapM (fun leg => Leg.new leg.accountId leg.amount leg.direction)
  Post.new accountId legs request.expectedVersion

def postingsCommand (request : PostingsRequest) : Except RouteError AccountCommand := do
  authorizeAccount principal accountId registry
  .post <$> asBadRequest (request.post accountId)

def postPostings (request : PostingsRequest) (attempt : Attempt) (s : Store) :
    Except RouteError CommandResponse × Store :=
  answer registry principal request.commandId (postingsCommand registry principal accountId request)
    attempt s

/-- Authorize the accounts that a revert of the legs debits. -/
def authorizeDebited : List AccountEvent → Except RouteError Unit
  | [] => .ok ()
  | leg :: legs =>
    -- They received it: we debit them.
    if 0 < leg.balanceSign then do
      authorizeAccount principal leg.accountId registry
      authorizeDebited legs
    else authorizeDebited legs

/-- The check and the command of a revert; the store is the one its legs are read from. -/
def revertCommand (transferId : UUID) (request : RevertRequest) (s : Store) :
    Except RouteError AccountCommand := do
  authorizeAccount principal accountId registry
  let legs ← (s.legsOf transferId).mapError .raised
  let _ ← require (adminScope ∈ principal.scopes ∨
    ∃ leg ∈ legs, mayRead registry principal leg.accountId) forbidden
  authorizeDebited registry principal legs
  .revert <$> asBadRequest (Revert.new accountId transferId request.expectedVersion)

/-- What a read outside the lock of the log sees while a transaction that has inserted the rows
is open: on SQLite the requests share a connection. -/
def Store.amid (s : Store) (pending : List EventRow) : Store := ⟨s.events ++ pending, s.results⟩

/-- `post_revert`: the legs are read from one store, the command is executed on a later one.
`legs_of` takes no lock, so what it reads may have the rows of an open transaction
(`Store.amid`). -/
def postRevert (transferId : UUID) (request : RevertRequest) (attempt : Attempt)
    (readFrom executeOn : Store) : Except RouteError CommandResponse × Store :=
  answer registry principal request.commandId
    (revertCommand registry principal accountId transferId request readFrom) attempt executeOn

end Routes

end Cloudscale
