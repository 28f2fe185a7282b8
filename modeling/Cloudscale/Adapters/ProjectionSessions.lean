import Cloudscale.Adapters.DeadLetterStore
import Cloudscale.Lib.Sessions

/-!
# The projection stores, statement by statement

The calls of a projection store as the statements that they send to their database,
for stores that share it: each row is under a key, each statement is on one row, and
each call is a script of transactions.

The tiers differ in three ways (`Dialect`): in the statements on a balance, in what
a transaction locks (PostgreSQL the rows that it changes, SQLite the database from
its first statement on), and in `redrive`.  PostgreSQL deletes the letter first and
goes on with what the deletion returned; SQLite reads the letter before its
transaction and deletes it last, whether it is still there or not.

Alone, the scripts do what the calls of `DeadLetterStore` do (`Projection.Alone`).
-/

namespace Cloudscale

open Checked Python SqliteInteger Sessions

/-! ### Rows and statements -/

/-- The tables of a projection and their keys. -/
inductive RowKey
  | processedEvent (eventId : String)
  | deadLetter (eventId : String)
  | balance (accountId : String)
  | hold (holdId : String)
  | transfer (transferId : String)
  | transferLeg (transferId accountId : String)
  | consumerOffset
  deriving DecidableEq

abbrev RowValue (V : Type) : RowKey → Type
  | .processedEvent _ => Unit
  | .deadLetter _ => DeadLetter
  | .balance _ => BalanceRow V
  | .hold _ => HoldRow
  | .transfer _ => TransferRow
  | .transferLeg _ _ => TransferLegRow
  | .consumerOffset => Int

def DeadLetterStore.rows {V : Type} (p : DeadLetterStore V) : Rows (RowValue V)
  | .processedEvent eventId => p.processedEvents.find eventId
  | .deadLetter eventId => p.deadLetters.find eventId
  | .balance accountId => p.readModels.balances.find accountId
  | .hold holdId => p.readModels.holds.find holdId
  | .transfer transferId => p.readModels.transfers.find transferId
  | .transferLeg transferId accountId => p.readModels.transferLegs.find (transferId, accountId)
  | .consumerOffset => some p.lastId

/-- `last_id`. -/
def offsetOf {V : Type} (rows : Rows (RowValue V)) : Int := (rows .consumerOffset).getD (0 : Int)

/-- The statements that change a projection; those on a balance are the tier's own. -/
inductive ProjectionStatement (B : Type)
  /-- `INSERT INTO processed_events`. -/
  | claim (eventId : String)
  /-- `INSERT INTO dead_letters`. -/
  | insertLetter (eventId : String) (letter : DeadLetter)
  /-- `DELETE FROM dead_letters`. -/
  | deleteLetter (eventId : String)
  /-- `UPDATE dead_letters SET attempts = attempts + 1, …`. -/
  | updateLetter (eventId : String) (error : PyError) (now : Datetime)
  /-- `UPDATE consumer_offset SET last_id = …`. -/
  | advanceOffset (logId : Int)
  | balance (accountId : String) (statement : B)
  | hold (statement : HoldStatement)
  | upsertTransfer (effect : TransferRowEffect)
  | insertLeg (effect : TransferRowEffect)
  | markReverted (reverts transferId : String)

def HoldStatement.holdId : HoldStatement → String
  | .place holdId _ _ _ _ => holdId
  | .settle holdId _ => holdId

structure Dialect (B V : Type) where
  /-- The statements that add to a balance and to its held amount. -/
  updateBalance : Int → Int → List B
  onBalance : B → Option (BalanceRow V) → Except PyError (Option (BalanceRow V))
  /-- Rows are locked one by one, and not the database. -/
  locksRows : Bool

namespace ProjectionStatement

variable {B V : Type}

def key : ProjectionStatement B → RowKey
  | claim eventId => .processedEvent eventId
  | insertLetter eventId _ => .deadLetter eventId
  | deleteLetter eventId => .deadLetter eventId
  | updateLetter eventId _ _ => .deadLetter eventId
  | advanceOffset _ => .consumerOffset
  | balance accountId _ => .balance accountId
  | hold statement => .hold statement.holdId
  | upsertTransfer effect => .transfer effect.transferId
  | insertLeg effect => .transferLeg effect.transferId effect.accountId
  | markReverted reverts _ => .transfer reverts

/-- What a statement makes of its row. -/
def run (d : Dialect B V) : ∀ st : ProjectionStatement B,
    Option (RowValue V st.key) → Except PyError (Option (RowValue V st.key))
  | claim _ => fun row => if row.isSome then .error .integrityError else .ok (some ())
  | insertLetter _ letter => fun row =>
    if row.isSome then .error .integrityError else .ok (some letter)
  | deleteLetter _ => fun _ => .ok none
  | updateLetter _ error now => fun row => .ok (row.map fun letter : DeadLetter =>
    { letter with attempts := letter.attempts + 1, error := error, deadLetteredAt := now })
  | advanceOffset logId => fun row => .ok (row.map fun lastId : Int => (max lastId logId : Int))
  | balance _ statement => d.onBalance statement
  | hold (.place _ source target amount expiresAt) => fun row =>
    .ok (some (row.getD ⟨source, target, amount, expiresAt, "open"⟩))
  | hold (.settle _ state) => fun row =>
    .ok (row.map fun hold : HoldRow => { hold with state := state })
  | upsertTransfer effect => fun row =>
    .ok (some (match row with
      | none => ⟨effect.kind, effect.reverts, none⟩
      | some (row : TransferRow) => { row with kind := conflictKind row.kind effect.kind }))
  | insertLeg effect => fun row => .ok (some (row.getD ⟨effect.amount, effect.direction⟩))
  | markReverted _ transferId => fun row => .ok (row.map fun row : TransferRow =>
    { row with revertedBy := row.revertedBy.or (some transferId) })

/-- A row that does not meet the `WHERE` of an update or a deletion, and a row that an
insert leaves to `DO NOTHING`. -/
def passesOver : ∀ st : ProjectionStatement B, Option (RowValue V st.key) → Bool
  | claim _ => fun _ => false
  | insertLetter _ _ => fun _ => false
  | deleteLetter _ => fun row => row.isNone
  | updateLetter _ _ _ => fun row => row.isNone
  | advanceOffset _ => fun row => row.isNone
  | balance _ _ => fun _ => false
  | hold (.place _ _ _ _ _) => fun row => row.isSome
  | hold (.settle _ _) => fun row => row.isNone
  | upsertTransfer _ => fun _ => false
  | insertLeg _ => fun row => row.isSome
  | markReverted _ _ => fun row => row.all fun row : TransferRow => row.revertedBy.isSome

theorem run_passesOver (d : Dialect B V) (st : ProjectionStatement B)
    (row : Option (RowValue V st.key)) (h : st.passesOver row = true) : st.run d row = .ok row := by
  cases st with
  | claim | insertLetter | balance | upsertTransfer => cases h
  | deleteLetter | updateLetter | advanceOffset =>
    cases row with
    | none => rfl
    | some row => cases h
  | hold statement =>
    cases statement <;> cases row <;> first | rfl | cases h
  | insertLeg =>
    cases row with
    | none => cases h
    | some row => rfl
  | markReverted reverts transferId =>
    cases row with
    | none => rfl
    | some row =>
      obtain ⟨kind, rowReverts, revertedBy⟩ := row
      cases revertedBy with
      | none => cases h
      | some by' => rfl

end ProjectionStatement

variable {B V : Type}

def Dialect.database (d : Dialect B V) :
    Database RowKey (RowValue V) (ProjectionStatement B) PyError (Option RowKey) where
  key := ProjectionStatement.key
  run := ProjectionStatement.run d
  idle st row := d.locksRows && st.passesOver row
  run_idle st row h := st.run_passesOver d row (Bool.and_eq_true _ _ ▸ h).2
  lock k := if d.locksRows then some k else none

/-- `INSERT OR IGNORE INTO balances`, then `UPDATE balances`. -/
inductive SqliteBalance
  | insertOrIgnore
  | update (delta heldDelta : Int)

def sqliteDialect : Dialect SqliteBalance SqliteNumber where
  updateBalance delta heldDelta := [.insertOrIgnore, .update delta heldDelta]
  onBalance
    | .insertOrIgnore, row => .ok (some (row.getD ⟨.integer 0, .integer 0, .integer 0⟩))
    | .update delta heldDelta, row => .ok (row.map fun row =>
      ⟨row.balance.add delta, row.held.add heldDelta, row.version.add 1⟩)
  locksRows := false

/-- `INSERT INTO balances … ON CONFLICT (account_id) DO UPDATE`. -/
inductive PostgresBalance
  | upsert (delta heldDelta : Int)

def postgresDialect : Dialect PostgresBalance Int where
  updateBalance delta heldDelta := [.upsert delta heldDelta]
  onBalance
    | .upsert delta heldDelta, none => do
      let balance ← bigint delta
      let held ← bigint heldDelta
      pure (some ⟨balance, held, 1⟩)
    | .upsert delta heldDelta, some row => do
      let balance ← bigint (row.balance + delta)
      let held ← bigint (row.held + heldDelta)
      let version ← bigint (row.version + 1)
      pure (some ⟨balance, held, version⟩)
  locksRows := true

/-! ### Calls -/

/-- What a call answers.  What it applied and under which id is not part of the answer
in the source; it is kept to say what the call did. -/
inductive Reply
  | applied (eventId : String) (event : Dict)
  | duplicate
  | parked (eventId : String) (event : Dict)
  | absorbed
  | redriven (eventId : String) (event : Dict)
  | notFound
  | failedAgain

def Reply.outcome : Reply → Option RedriveOutcome
  | redriven _ _ => some .applied
  | notFound => some .notFound
  | failedAgain => some .failedAgain
  | _ => none

abbrev Dialect.Program (d : Dialect B V) : Type := Sessions.Program d.database Reply

abbrev Dialect.Script (d : Dialect B V) : Type := Sessions.Script d.database Reply

namespace Dialect

variable (d : Dialect B V)

/-- The statements of `_apply_to_transfers`. -/
def applyToTransfers (event : Dict) (rest : d.Program) : d.Program :=
  match transferRowEffect event with
  | .error e => .raise e
  | .ok none => rest
  | .ok (some effect) =>
    .sequence (.upsertTransfer effect :: .insertLeg effect ::
      (effect.marksReverted.toList.map (.markReverted · effect.transferId))) rest

/-- The statements of `_apply_to_holds`. -/
def applyToHolds (eventType : String) (event : Dict) (rest : d.Program) : d.Program :=
  match holdStatement eventType event with
  | .error e => .raise e
  | .ok hold => .sequence (hold.toList.map .hold) rest

/-- The statements of `_apply_to_balance`. -/
def applyToBalance (event : Dict) (rest : d.Program) : d.Program :=
  match textParam (event.lookup "account_id") with
  | none => rest
  | some accountId =>
    let eventType := textOf (event.lookup "type")
    let amount := intOf (event.lookup "amount")
    let delta := (balanceSigns.lookup eventType).getD 0 * amount
    let heldDelta := (heldSigns.lookup eventType).getD 0 * amount
    .sequence ((d.updateBalance delta heldDelta).map (.balance accountId))
      (d.applyToHolds eventType event (d.applyToTransfers event rest))

/-- The transaction that only advances the offset. -/
def advance (logId : Int) (reply : Reply) : d.Script :=
  .transaction (.sequence [.advanceOffset logId] (.commit reply)) .raised

/-- A conflict on the claim leaves the offset to advance. -/
def rescueConflict (logId : Int) (reply : Reply) : PyError → d.Script
  | .integrityError => d.advance logId reply
  | e => .raised e

/-- `apply` behind its gate. -/
def apply (event : Dict) : d.Script :=
  match adaptLegacyEvent event with
  | .error e => .raised e
  | .ok event =>
    if textOf (event.lookup "event_id") = "" then
      .raised (.valueError "event requires an event_id for idempotent apply")
    else
      let eventId := textOf (event.lookup "event_id")
      let logId := intOf (event.lookup "id")
      .transaction
        (.sequence [.claim eventId] (d.applyToBalance event
          (.sequence [.advanceOffset logId] (.commit (.applied eventId event)))))
        (d.rescueConflict logId .duplicate)

def deadLetter (event : Dict) (error : PyError) (attempts : Int) (now : Datetime) : d.Script :=
  if attempts < 1 then .raised (.valueError "attempts must be at least 1")
  else
    let eventId := letterId event
    let logId := intOf (event.lookup "id")
    .transaction
      (.sequence [.claim eventId, .insertLetter eventId ⟨logId, event, error, attempts, now⟩,
        .advanceOffset logId] (.commit (.parked eventId event)))
      (d.rescueConflict logId .absorbed)

/-- The transaction that keeps the letter of a redrive that failed. -/
def failAgain (eventId : String) (now : Datetime) (error : PyError) : d.Script :=
  .transaction (.sequence [.updateLetter eventId error now] (.commit .failedAgain)) .raised

/-- What a redrive does with the letter that it read. -/
def redriveLetter (eventId : String) (now : Datetime) : Option DeadLetter → d.Script
  | none => .answer .notFound
  | some letter =>
    .transaction
      (match adaptLegacyEvent letter.payload with
        | .error e => .raise e
        | .ok event => d.applyToBalance event
          (.sequence [.deleteLetter eventId] (.commit (.redriven eventId event))))
      (d.failAgain eventId now)

/-- `redrive` on SQLite: the letter is read, then applied and deleted in a transaction. -/
def redriveRead (eventId : String) (now : Datetime) : d.Script :=
  .select (.deadLetter eventId) (d.redriveLetter eventId now)

/-- What a redrive does with the letter that its deletion returned. -/
def redriveReturned (eventId : String) : Option DeadLetter → d.Program
  | none => .commit .notFound
  | some letter =>
    match adaptLegacyEvent letter.payload with
    | .error e => .raise e
    | .ok event => d.applyToBalance event (.commit (.redriven eventId event))

/-- `redrive` on PostgreSQL: the letter is deleted, and what was deleted is applied. -/
def redriveReturning (eventId : String) (now : Datetime) : d.Script :=
  .transaction (.execute (.deleteLetter eventId) (d.redriveReturned eventId))
    (d.failAgain eventId now)

end Dialect

inductive StoreCall
  | apply (event : Dict)
  | deadLetter (event : Dict) (error : PyError) (attempts : Int) (now : Datetime)
  | redrive (eventId : String) (now : Datetime)

def StoreCall.sqlite : StoreCall → sqliteDialect.Script
  | apply event => sqliteDialect.apply event
  | deadLetter event error attempts now => sqliteDialect.deadLetter event error attempts now
  | redrive eventId now => sqliteDialect.redriveRead eventId now

def StoreCall.postgres : StoreCall → postgresDialect.Script
  | apply event => postgresDialect.apply event
  | deadLetter event error attempts now => postgresDialect.deadLetter event error attempts now
  | redrive eventId now => postgresDialect.redriveReturning eventId now

end Cloudscale
