import Cloudscale.Application.TransfersReadModel
import Cloudscale.Lib.SqliteInteger
import Cloudscale.Lib.Tables

/-!
# The projection stores

The read models, the ids of the events that were applied and the consumer's
offset, and `apply`, one transaction that claims the id of an event, changes the
read models and advances the offset.  An id that is claimed already rolls the
transaction back and leaves only the offset to advance.

The two tiers share the statements on holds, sets and legs.  They differ in how a
balance is kept: SQLite inserts an empty row and adds to it in its own arithmetic
(`sqliteTier`), PostgreSQL upserts and refuses what leaves a `BIGINT`
(`postgresTier`).
-/

namespace Cloudscale

open Checked Tables SqliteInteger

/-! ### Tables -/

/-- A row of `balances`, under its account. -/
structure BalanceRow (V : Type) where
  balance : V
  held : V
  version : V
  deriving DecidableEq

/-- A row of `holds`, under its hold. -/
structure HoldRow where
  source : String
  target : String
  amount : Int
  expiresAt : String
  state : String
  deriving DecidableEq

/-- A row of `transfers`, under its set. -/
structure TransferRow where
  kind : TransferKind
  reverts : Option String
  revertedBy : Option String
  deriving DecidableEq

/-- A row of `transfer_legs`, under its set and its account. -/
structure TransferLegRow where
  amount : Int
  direction : Direction
  deriving DecidableEq

structure ReadModels (V : Type) where
  balances : Table String (BalanceRow V)
  holds : Table String HoldRow
  transfers : Table String TransferRow
  transferLegs : Table (String × String) TransferLegRow

/-- The tables of a projection with its only consumer. -/
structure ProjectionStore (V : Type) where
  readModels : ReadModels V
  processedEvents : Table String Unit
  lastId : Int

def ReadModels.empty {V : Type} : ReadModels V := ⟨.empty, .empty, .empty, .empty⟩

def ProjectionStore.empty {V : Type} : ProjectionStore V := ⟨.empty, .empty, 0⟩

/-! ### Balances -/

/-- How a tier keeps the numbers of a balance. -/
structure Tier (V : Type) where
  /-- Add to the balance and to the held amount of an account, and one to its version. -/
  updateBalance : Table String (BalanceRow V) → String → Int → Int →
    Except PyError (Table String (BalanceRow V))
  /-- `int(value)` of a column. -/
  toInt : V → Int

/-- `INSERT OR IGNORE`, then `UPDATE`. -/
def sqliteTier : Tier SqliteNumber where
  updateBalance balances accountId delta heldDelta :=
    let balances := balances.putNew accountId ⟨.integer 0, .integer 0, .integer 0⟩
    .ok (balances.modify accountId fun row =>
      ⟨row.balance.add delta, row.held.add heldDelta, row.version.add 1⟩)
  toInt := SqliteNumber.toInt

/-- A value of a `BIGINT` column. -/
def bigint (n : Int) : Except PyError Int :=
  if InRange n then .ok n else .error .numericValueOutOfRange

/-- `INSERT … ON CONFLICT (account_id) DO UPDATE`. -/
def postgresTier : Tier Int where
  updateBalance balances accountId delta heldDelta :=
    match balances.find accountId with
    | none => do
      let balance ← bigint delta
      let held ← bigint heldDelta
      pure (balances.put accountId ⟨balance, held, 1⟩)
    | some row => do
      let balance ← bigint (row.balance + delta)
      let held ← bigint (row.held + heldDelta)
      let version ← bigint (row.version + 1)
      pure (balances.put accountId ⟨balance, held, version⟩)
  toInt := id

/-! ### Holds and sets -/

/-- The statement that an event runs on `holds`. -/
inductive HoldStatement
  | place (holdId source target : String) (amount : Int) (expiresAt : String)
  | settle (holdId state : String)
  deriving DecidableEq

/-- The statement of `_apply_to_holds`, if the event has one. -/
def holdStatement (eventType : String) (event : Dict) : Except PyError (Option HoldStatement) :=
  match textParam (event.lookup "transfer_id") with
  | none => .ok none
  | some holdId =>
    if eventType = "HoldPlaced" then do
      let source ← getItem event "account_id"
      let target ← getItem event "counterparty"
      let amount ← getItem event "amount"
      let expiresAt ← getItem event "expires_at"
      pure (some (.place holdId (textOf (some source)) (textOf (some target)) (intOf (some amount))
        (textOf (some expiresAt))))
    else if eventType = "HoldPosted" then .ok (some (.settle holdId "posted"))
    else if eventType = "HoldReleased" ∧ textOf (event.lookup "release_reason") ≠ "partial" then
      .ok (some (.settle holdId (textOf (event.lookup "release_reason"))))
    else .ok none

/-- `INSERT … DO NOTHING`, or `UPDATE holds SET state = …`. -/
def HoldStatement.execute (holds : Table String HoldRow) : HoldStatement → Table String HoldRow
  | .place holdId source target amount expiresAt =>
    holds.putNew holdId ⟨source, target, amount, expiresAt, "open"⟩
  | .settle holdId state => holds.modify holdId fun row => { row with state := state }

namespace TransferRowEffect

variable (effect : TransferRowEffect)

/-- `INSERT INTO transfers … ON CONFLICT (transfer_id) DO UPDATE SET kind = …`. -/
def upsertTransfer (transfers : Table String TransferRow) : Table String TransferRow :=
  match transfers.find effect.transferId with
  | none => transfers.put effect.transferId ⟨effect.kind, effect.reverts, none⟩
  | some row =>
    transfers.put effect.transferId { row with kind := conflictKind row.kind effect.kind }

/-- `UPDATE transfers SET reverted_by = … WHERE reverted_by IS NULL`. -/
def markReverted (transfers : Table String TransferRow) : Table String TransferRow :=
  match effect.marksReverted with
  | none => transfers
  | some reverts => transfers.modify reverts fun row =>
    { row with revertedBy := row.revertedBy.or (some effect.transferId) }

/-- `INSERT INTO transfer_legs … DO NOTHING`. -/
def insertLeg (legs : Table (String × String) TransferLegRow) :
    Table (String × String) TransferLegRow :=
  legs.putNew (effect.transferId, effect.accountId) ⟨effect.amount, effect.direction⟩

end TransferRowEffect

namespace ReadModels

variable {V : Type}

def applyToHolds (eventType : String) (event : Dict) (models : ReadModels V) :
    Except PyError (ReadModels V) := do
  match ← holdStatement eventType event with
  | some statement => pure { models with holds := statement.execute models.holds }
  | none => pure models

def applyToTransfers (event : Dict) (models : ReadModels V) : Except PyError (ReadModels V) := do
  match ← transferRowEffect event with
  | some effect =>
    pure { models with
      transfers := effect.markReverted (effect.upsertTransfer models.transfers)
      transferLegs := effect.insertLeg models.transferLegs }
  | none => pure models

/-- `_apply_to_balance`.  An event of an unknown type counts as a version. -/
def applyToBalance (tier : Tier V) (event : Dict) (models : ReadModels V) :
    Except PyError (ReadModels V) :=
  match textParam (event.lookup "account_id") with
  | none => .ok models
  | some accountId => do
    let eventType := textOf (event.lookup "type")
    let amount := intOf (event.lookup "amount")
    let delta := (balanceSigns.lookup eventType).getD 0 * amount
    let heldDelta := (heldSigns.lookup eventType).getD 0 * amount
    let balances ← tier.updateBalance models.balances accountId delta heldDelta
    let models ← applyToHolds eventType event { models with balances := balances }
    applyToTransfers event models

end ReadModels

/-! ### Applying -/

namespace ProjectionStore

variable {V : Type}

/-- `INSERT INTO processed_events`. -/
def claim (p : ProjectionStore V) (eventId : String) : Except PyError (ProjectionStore V) :=
  if (p.processedEvents.find eventId).isSome then .error .integrityError
  else .ok { p with processedEvents := p.processedEvents.put eventId () }

/-- `last_id = MAX(last_id, ?)`. -/
def advanceOffset (p : ProjectionStore V) (logId : Int) : ProjectionStore V :=
  { p with lastId := max p.lastId logId }

/-- Commit, or roll back; a conflict on the claim leaves the offset to advance. -/
def settle (p : ProjectionStore V) (logId : Int) :
    Except PyError (ProjectionStore V) → Except PyError Bool × ProjectionStore V
  | .ok p' => (.ok true, p')
  | .error .integrityError => (.ok false, p.advanceOffset logId)
  | .error e => (.error e, p)

/-- What a transaction of `apply` does before it commits. -/
def applyTransaction (tier : Tier V) (event : Dict) (p : ProjectionStore V) :
    Except PyError (ProjectionStore V) := do
  let p ← p.claim (textOf (event.lookup "event_id"))
  let readModels ← p.readModels.applyToBalance tier event
  pure ({ p with readModels := readModels }.advanceOffset (intOf (event.lookup "id")))

/-- `apply`: whether the event changed the read models, and the store afterwards.
The event is one that passed the gate. -/
def applyAdapted (tier : Tier V) (event : Dict) (p : ProjectionStore V) :
    Except PyError Bool × ProjectionStore V :=
  if textOf (event.lookup "event_id") = "" then
    (.error (.valueError "event requires an event_id for idempotent apply"), p)
  else p.settle (intOf (event.lookup "id")) (applyTransaction tier event p)

/-- `apply` behind its gate. -/
def apply (tier : Tier V) (event : Dict) (p : ProjectionStore V) :
    Except PyError Bool × ProjectionStore V :=
  match adaptLegacyEvent event with
  | .error e => (.error e, p)
  | .ok event => applyAdapted tier event p

/-- `balance`: the row of an account, zeros for an unknown one. -/
def balance (tier : Tier V) (p : ProjectionStore V) (accountId : String) : BalanceRow Int :=
  match p.readModels.balances.find accountId with
  | none => ⟨0, 0, 0⟩
  | some row => ⟨tier.toInt row.balance, tier.toInt row.held, tier.toInt row.version⟩

end ProjectionStore

end Cloudscale
