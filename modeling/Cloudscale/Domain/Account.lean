import Cloudscale.Domain.Events

/-!
# The Account aggregate

`AccountState` with its invariants, the decisions, and the fold.  Every function
is the source's, check by check: a decision returns the events a command
appends or raises, and `apply` moves a state by one event through the two sign
tables and validates the result.

A decision reads the states of the accounts it needs from a `States`
dictionary; a key it does not hold is a `KeyError`.
-/

namespace Cloudscale

open Checked Python

/-- What the constructor of `AccountState` checks. -/
structure AccountState.Valid (accountId : Option String) (balance version held : Int) : Prop where
  id_ok : accountId ≠ some ""
  balance_nonneg : 0 ≤ balance
  balance_le : balance ≤ maxSignedBigint
  held_nonneg : 0 ≤ held
  held_le : held ≤ balance
  version_nonneg : 0 ≤ version
  version_le : version ≤ maxSignedBigint
  unknown : accountId = none → balance = 0 ∧ version = 0

/-- State derived by folding an account's events; `held` is the sum of its open holds. -/
structure AccountState where
  accountId : Option String
  balance : Int
  version : Int
  held : Int
  valid : AccountState.Valid accountId balance version held
  deriving DecidableEq

namespace AccountState

def available (s : AccountState) : Int := s.balance - s.held

def new (accountId : Option String) (balance version held : Int) : Except PyError AccountState := do
  let ⟨id_ok⟩ ← require (accountId ≠ some "")
    (domainError .invalidAccountId "account_id must be None or a non-empty string")
  let ⟨balance_nonneg⟩ ← require (0 ≤ balance)
    (domainError .invalidAccountState "balance must be a non-negative, non-Boolean integer")
  let ⟨balance_le⟩ ← require (balance ≤ maxSignedBigint)
    (domainError .amountOutOfRange "balance exceeds the signed-BIGINT range")
  let ⟨held_nonneg⟩ ← require (0 ≤ held)
    (domainError .invalidAccountState "held must be a non-negative, non-Boolean integer")
  let ⟨held_le⟩ ← require (held ≤ balance)
    (domainError .invalidAccountState "held funds cannot exceed the balance")
  let ⟨version_nonneg⟩ ← require (0 ≤ version)
    (domainError .invalidAccountState "version must be a non-negative, non-Boolean integer")
  let ⟨version_le⟩ ← require (version ≤ maxSignedBigint)
    (domainError .versionOutOfRange "version exceeds the signed-BIGINT range")
  let ⟨unknown⟩ ← require (accountId = none → balance = 0 ∧ version = 0)
    (domainError .invalidAccountState "an unknown account must have balance zero and version zero")
  pure ⟨accountId, balance, version, held, id_ok, balance_nonneg, balance_le,
    held_nonneg, held_le, version_nonneg, version_le, unknown⟩

theorem new_of_valid {accountId : Option String} {balance version held : Int}
    (h : Valid accountId balance version held) :
    new accountId balance version held = .ok ⟨accountId, balance, version, held, h⟩ := by
  simp only [new, require_bind_of h.id_ok, require_bind_of h.balance_nonneg,
    require_bind_of h.balance_le, require_bind_of h.held_nonneg, require_bind_of h.held_le,
    require_bind_of h.version_nonneg, require_bind_of h.version_le, require_bind_of h.unknown,
    pure_eq_ok]

theorem new_eq_ok {accountId : Option String} {balance version held : Int} {s : AccountState} :
    new accountId balance version held = .ok s ↔
      s.accountId = accountId ∧ s.balance = balance ∧ s.version = version ∧ s.held = held := by
  constructor
  · intro h
    simp only [new, require_bind_eq_ok, pure_eq_ok, Except.ok.injEq] at h
    obtain ⟨_, _, _, _, _, _, _, _, rfl⟩ := h
    exact ⟨rfl, rfl, rfl, rfl⟩
  · rintro ⟨rfl, rfl, rfl, rfl⟩
    exact new_of_valid s.valid

/-- `AccountState()`. -/
def unknown : AccountState where
  accountId := none
  balance := 0
  version := 0
  held := 0
  valid := ⟨by simp, le_rfl, by decide, le_rfl, le_rfl, le_rfl, by decide, fun _ => ⟨rfl, rfl⟩⟩

/-- The state is of the account, or of none yet. -/
def Matches (s : AccountState) (accountId : String) : Prop := ∀ id ∈ s.accountId, id = accountId

instance (s : AccountState) (accountId : String) : Decidable (s.Matches accountId) :=
  inferInstanceAs (Decidable (∀ id ∈ s.accountId, id = accountId))

end AccountState

/-! ### Checks -/

abbrev requireMatchingIdentity (state : AccountState) (targetAccountId : String) :
    Except PyError (PLift (state.Matches targetAccountId)) :=
  require (state.Matches targetAccountId) (domainError .accountIdentityMismatch
    "command or event account_id does not match AccountState exactly")

abbrev requireNextVersion (state : AccountState) :
    Except PyError (PLift (state.version ≠ maxSignedBigint)) :=
  require (state.version ≠ maxSignedBigint)
    (domainError .versionOutOfRange "the next event version exceeds the signed-BIGINT range")

abbrev requireCreditFits (state : AccountState) (amount : Int) (what : String) :
    Except PyError (PLift (amount ≤ maxSignedBigint - state.balance)) :=
  require (amount ≤ maxSignedBigint - state.balance) (domainError .amountOutOfRange
    s!"{what} would move balance outside the signed-BIGINT range")

/-- Debits are checked against what is available. -/
abbrev requireFunds (state : AccountState) (amount : Int) (what : String) :
    Except PyError (PLift (amount ≤ state.available)) :=
  require (amount ≤ state.available)
    (domainError .insufficientFunds s!"{what} amount exceeds available balance")

abbrev States := List (String × AccountState)

/-- `dict[key]`. -/
def getItem {α : Type} (dict : List (String × α)) (key : String) : Except PyError α :=
  match dict.lookup key with
  | some v => .ok v
  | none => .error (.keyError key)

theorem getItem_eq_ok {α : Type} {dict : List (String × α)} {key : String} {value : α} :
    getItem dict key = .ok value ↔ dict.lookup key = some value := by
  rw [getItem]
  cases dict.lookup key with
  | none => simp
  | some v => rw [Except.ok.injEq, Option.some.injEq]

theorem getItem_ne_integrityError {α : Type} {dict : List (String × α)} {key : String} :
    getItem dict key ≠ .error .integrityError := by
  intro h
  rw [getItem] at h
  split at h <;> cases h

namespace Account

/-! ### Cash and postings -/

/-- The single event of a `Deposit` or a `Withdraw`. -/
def decide (state : AccountState) (command : AccountCommand) : Except PyError AccountEvent :=
  match command with
  | .deposit c => do
    let _ ← requireMatchingIdentity state c.accountId
    let _ ← requireNextVersion state
    let _ ← requireCreditFits state c.amount "deposit"
    .deposited <$> CashEvent.new c.accountId c.amount
  | .withdraw c => do
    let _ ← requireMatchingIdentity state c.accountId
    let _ ← requireNextVersion state
    let _ ← requireFunds state c.amount "withdrawal"
    .withdrawn <$> CashEvent.new c.accountId c.amount
  | other => .error (domainError .unknownCommand s!"unsupported command type: {other.typeName}")

/-- The checks on one leg of a posting set. -/
def checkPosting (states : States) (leg : Leg) : Except PyError Unit := do
  let state ← getItem states leg.accountId
  let _ ← requireMatchingIdentity state leg.accountId
  let _ ← requireNextVersion state
  match leg.direction with
  | .debit => do
    let _ ← requireFunds state leg.amount "posting"
    pure ()
  | .credit => do
    let _ ← requireCreditFits state leg.amount "posting"
    pure ()

/-- `max(legs, key=amount)`: the first of the largest. -/
def largest : List Leg → Option Leg
  | [] => none
  | leg :: legs => some (legs.foldl (fun best c => if best.amount < c.amount then c else best) leg)

/-- The other account of two legs; for more, the anchor, and for the anchor its
largest payee. -/
def counterpartyFor (anchor : String) (legs : List Leg) (leg : Leg) : Except PyError String :=
  if legs.length = 2 then
    match legs.find? (fun other => other.accountId ≠ leg.accountId) with
    | some other => .ok other.accountId
    | none => .error (.runtimeError "StopIteration")
  else if leg.accountId ≠ anchor then .ok anchor
  else
    match largest (legs.filter (fun other => other.direction = .credit)) with
    | some credit => .ok credit.accountId
    | none => .error (.valueError "max() iterable argument is empty")

def postingEvent (anchor : String) (legs : List Leg) (transferId : UUID) (leg : Leg) :
    Except PyError AccountEvent := do
  let counterparty ← counterpartyFor anchor legs leg
  let event ← TransferLeg.new leg.accountId leg.amount transferId counterparty
  match leg.direction with
  | .debit => pure (.transferDebited event)
  | .credit => pure (.transferCredited event)

/-- One event per leg of a valid set; `anchor` and `legs` are the account and the
legs of a `Transfer` or a `Post`. -/
def decidePostings (states : States) (anchor : String) (legs : List Leg) (transferId : UUID) :
    Except PyError (List AccountEvent) := do
  let _ ← legs.mapM (checkPosting states)
  legs.mapM (postingEvent anchor legs transferId)

/-- The two legs of a transfer, debit first. -/
def decideTransfer (source target : AccountState) (command : Transfer) (transferId : UUID) :
    Except PyError (AccountEvent × AccountEvent) := do
  let states := [(command.accountId, source), (command.targetAccountId, target)]
  let events ← decidePostings states command.accountId command.legs transferId
  let byAccount := events.reverse.map (fun e => (e.accountId, e))
  let debit ← getItem byAccount command.accountId
  let credit ← getItem byAccount command.targetAccountId
  match debit, credit with
  | .transferDebited _, .transferCredited _ => pure (debit, credit)
  | _, _ => .error (domainError .unknownCommand "transfer legs have unexpected directions")

/-! ### Holds -/

/-- The events a hold's state is derived from. -/
inductive HoldEvent
  | placed (e : HoldPlaced)
  | released (e : HoldReleased)
  | posted (e : HoldPosted)
  deriving DecidableEq

def HoldEvent.holdId : HoldEvent → UUID
  | placed e => e.holdId
  | released e => e.holdId
  | posted e => e.holdId

/-- The event as a `Hold*` event, if it is one. -/
def holdEvent? : AccountEvent → Option HoldEvent
  | .holdPlaced e => some (.placed e)
  | .holdReleased e => some (.released e)
  | .holdPosted e => some (.posted e)
  | _ => none

/-- An open hold, derived from the source stream's own events. -/
@[ext] structure OpenHold where
  holdId : UUID
  amount : Int
  counterparty : String
  expiresAt : String
  expires_ok : ValidExpiresAt expiresAt

instance : DecidableEq OpenHold := fun _ _ => decidable_of_iff _ OpenHold.ext_iff.symm

def OpenHold.expiry (h : OpenHold) : Datetime := (expiryOf h.expiresAt).get h.expires_ok.utc

def OpenHold.expiredAt (h : OpenHold) (now : Datetime) : Prop := h.expiry ≤ now

instance (h : OpenHold) (now : Datetime) : Decidable (h.expiredAt now) :=
  inferInstanceAs (Decidable (h.expiry ≤ now))

/-- The loop of `open_hold_from_events`: the last placement, or nothing once closed. -/
def scanHold (holdId : UUID) (placed : Option HoldPlaced) : List HoldEvent → Option HoldPlaced
  | [] => placed
  | event :: events =>
    if event.holdId ≠ holdId then scanHold holdId placed events
    else
      match event with
      | .placed e => scanHold holdId (some e) events
      | .posted _ => none
      | .released e =>
        if e.reason ≠ .partialCapture then none else scanHold holdId placed events

def openHoldFromEvents (holdId : UUID) (events : List HoldEvent) : Option OpenHold :=
  (scanHold holdId none events).map
    (fun placed => ⟨holdId, placed.amount, placed.counterparty, placed.expiresAt, placed.expires_ok⟩)

/-- Reserve funds; the expiry is stamped from the decision clock. -/
def decideHold (state : AccountState) (command : Hold) (holdId : UUID) (now : Datetime) :
    Except PyError HoldPlaced := do
  let _ ← requireMatchingIdentity state command.accountId
  let _ ← requireNextVersion state
  let _ ← requireFunds state command.amount "hold"
  match now.addSeconds command.ttlSeconds with
  | none => .error .overflowError
  | some expiresAt =>
    HoldPlaced.new command.accountId command.amount holdId command.targetAccountId
      expiresAt.isoformat

/-- Settle a hold: the debit, the credit and, for less than the whole, the rest. -/
def decidePostHold (source target : AccountState) (hold : Option OpenHold) (command : PostHold)
    (now : Datetime) : Except PyError (List AccountEvent) :=
  match hold with
  | none => .error (domainError .holdNotOpen
      s!"hold {command.holdId.str} is not open on {command.accountId}")
  | some hold => do
    let _ ← require (¬ hold.expiredAt now)
      (domainError .holdExpired s!"hold {command.holdId.str} expired at {hold.expiresAt}")
    let amount := command.amount.getD hold.amount
    let _ ← require (amount ≤ hold.amount)
      (domainError .captureExceedsHold s!"capture {amount} exceeds held {hold.amount}")
    let _ ← requireMatchingIdentity source command.accountId
    let _ ← requireMatchingIdentity target hold.counterparty
    let _ ← requireNextVersion source
    let _ ← requireNextVersion target
    let _ ← require (hold.amount ≤ source.held ∧ hold.amount ≤ source.balance)
      (domainError .invalidAccountState "open hold exceeds the source's held funds")
    let _ ← requireCreditFits target amount "hold posting"
    let posted ← HoldPosted.new command.accountId amount command.holdId hold.counterparty
    let credited ← TransferLeg.new hold.counterparty amount command.holdId command.accountId
    if amount < hold.amount then do
      let released ← HoldReleased.new command.accountId (hold.amount - amount) command.holdId
        HoldReleaseReason.partialCapture.text
      pure [.holdPosted posted, .transferCredited credited, .holdReleased released]
    else pure [.holdPosted posted, .transferCredited credited]

inductive ReleaseKind
  | void
  | expire
  deriving DecidableEq

def ReleaseKind.reason : ReleaseKind → HoldReleaseReason
  | .void => .voided
  | .expire => .expired

/-- Void at any time while open, or expire once the expiry has passed. -/
def decideReleaseHold (kind : ReleaseKind) (state : AccountState) (hold : Option OpenHold)
    (command : ReleaseCommand) (now : Datetime) : Except PyError HoldReleased :=
  match hold with
  | none => .error (domainError .holdNotOpen
      s!"hold {command.holdId.str} is not open on {command.accountId}")
  | some hold => do
    let _ ← require (kind = .expire → hold.expiredAt now)
      (domainError .holdNotExpired s!"hold {command.holdId.str} expires at {hold.expiresAt}")
    let _ ← requireMatchingIdentity state command.accountId
    let _ ← requireNextVersion state
    let _ ← require (hold.amount ≤ state.held)
      (domainError .invalidAccountState "open hold exceeds the account's held funds")
    HoldReleased.new command.accountId hold.amount command.holdId kind.reason.text

/-! ### Reverts -/

/-- The events that move money as part of a grouped set. -/
inductive MovementLeg
  | transferDebited (e : TransferLeg)
  | transferCredited (e : TransferLeg)
  | holdPosted (e : HoldPosted)
  | reversalDebited (e : ReversalLeg)
  | reversalCredited (e : ReversalLeg)
  deriving DecidableEq

namespace MovementLeg

def toEvent : MovementLeg → AccountEvent
  | transferDebited e => .transferDebited e
  | transferCredited e => .transferCredited e
  | holdPosted e => .holdPosted e
  | reversalDebited e => .reversalDebited e
  | reversalCredited e => .reversalCredited e

def accountId (leg : MovementLeg) : String := leg.toEvent.accountId

def amount (leg : MovementLeg) : Int := leg.toEvent.amount

def balanceSign (leg : MovementLeg) : Int := leg.toEvent.balanceSign

def counterparty : MovementLeg → String
  | transferDebited e => e.counterparty
  | transferCredited e => e.counterparty
  | holdPosted e => e.counterparty
  | reversalDebited e => e.counterparty
  | reversalCredited e => e.counterparty

end MovementLeg

/-- The event as a movement leg, if it is one. -/
def movementLeg? : AccountEvent → Option MovementLeg
  | .transferDebited e => some (.transferDebited e)
  | .transferCredited e => some (.transferCredited e)
  | .holdPosted e => some (.holdPosted e)
  | .reversalDebited e => some (.reversalDebited e)
  | .reversalCredited e => some (.reversalCredited e)
  | _ => none

def movementLegs (originalLegs : List AccountEvent) : List MovementLeg :=
  originalLegs.filterMap movementLeg?

/-- The conditions on the set as a whole. -/
def requireRevertible (legs : List MovementLeg) (command : Revert) (revertedBy : Option UUID) :
    Except PyError Unit := do
  let _ ← require (legs ≠ [])
    (domainError .notRevertible (command.transferId.str ++
      " names no posting set (cash movements and hold placements are not revertible)"))
  match revertedBy with
  | some id => .error (domainError .alreadyReverted
      s!"{command.transferId.str} was reverted by {id.str}")
  | none => do
    let _ ← require (∃ leg ∈ legs, leg.accountId = command.accountId ∧ leg.balanceSign < 0)
      (domainError .anchorNotCredited "the anchor must be an account the revert credits")
    pure ()

/-- The mirror of one leg: who received pays back, who paid is paid back. -/
def mirrorLeg (state : AccountState) (leg : MovementLeg) (transferId reverts : UUID) :
    Except PyError AccountEvent := do
  let _ ← requireMatchingIdentity state leg.accountId
  let _ ← requireNextVersion state
  if 0 < leg.balanceSign then do
    let _ ← requireFunds state leg.amount "reversal"
    .reversalDebited <$>
      ReversalLeg.new leg.accountId leg.amount transferId leg.counterparty reverts
  else do
    let _ ← requireCreditFits state leg.amount "reversal"
    .reversalCredited <$>
      ReversalLeg.new leg.accountId leg.amount transferId leg.counterparty reverts

def decideRevert (states : States) (originalLegs : List AccountEvent) (command : Revert)
    (transferId : UUID) (revertedBy : Option UUID) : Except PyError (List AccountEvent) := do
  let legs := movementLegs originalLegs
  requireRevertible legs command revertedBy
  legs.mapM (fun leg => do
    let state ← getItem states leg.accountId
    mirrorLeg state leg transferId command.transferId)

/-! ### The fold -/

def apply (state : AccountState) (event : AccountEvent) : Except PyError AccountState := do
  let _ ← requireMatchingIdentity state event.accountId
  let _ ← requireNextVersion state
  let _ ← require (0 < event.balanceDelta → event.amount ≤ maxSignedBigint - state.balance)
    (domainError .amountOutOfRange
      "credit event would move balance outside the signed-BIGINT range")
  let _ ← require (0 ≤ state.balance + event.balanceDelta)
    (domainError .insufficientFunds "debit event would make account balance negative")
  let _ ← require (0 ≤ state.held + event.heldDelta)
    (domainError .invalidAccountState "release would make held funds negative")
  let _ ← require (state.held + event.heldDelta ≤ state.balance + event.balanceDelta)
    (domainError .invalidAccountState "hold would exceed the account balance")
  AccountState.new (some (state.accountId.getD event.accountId))
    (state.balance + event.balanceDelta) (state.version + 1) (state.held + event.heldDelta)

def foldFrom (initial : AccountState) (events : List AccountEvent) : Except PyError AccountState :=
  events.foldlM apply initial

def fold (events : List AccountEvent) : Except PyError AccountState := foldFrom .unknown events

end Account

end Cloudscale
