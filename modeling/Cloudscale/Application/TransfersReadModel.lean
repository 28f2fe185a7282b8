import Cloudscale.Adapters.Compat

/-!
# The transfers read model

What each movement event does to the row of its set and to its leg.  Both
projection stores call `transferRowEffect`, so that they cannot drift.

The statement that updates the kind of a row is written out in SQL;
`conflictKind_eq` says that it is `strongerKind`, which only ever upgrades.
-/

namespace Cloudscale

open Checked

/-- The kinds of a set; `posting` is what a `transfer` with more than two legs is
called when it is read. -/
inductive TransferKind
  | transfer
  | holdPosting
  | reversal
  | posting
  deriving DecidableEq

/-- `_KINDS`. -/
def transferKinds : List (String × TransferKind) :=
  [("TransferDebited", .transfer), ("TransferCredited", .transfer), ("HoldPosted", .holdPosting),
    ("ReversalDebited", .reversal), ("ReversalCredited", .reversal)]

/-- `BALANCE_SIGN`, by the name of the type. -/
def balanceSigns : List (String × Int) := EventType.all.map (fun t => (t.text, t.balanceSign))

/-- `HELD_SIGN`, by the name of the type. -/
def heldSigns : List (String × Int) := EventType.all.map (fun t => (t.text, t.heldSign))

/-- A text column of an event: text, or `None`. -/
def textParam : Option Json → Option String
  | some (.str text) => some text
  | _ => none

/-- Upsert the row of the set, insert this leg, and mark the set it reverts. -/
structure TransferRowEffect where
  transferId : String
  kind : TransferKind
  accountId : String
  amount : Int
  direction : Direction
  reverts : Option String
  deriving DecidableEq

def TransferRowEffect.marksReverted (effect : TransferRowEffect) : Option String := effect.reverts

/-- The read-model effect of one event row, or `none`. -/
def transferRowEffect (event : Dict) : Except PyError (Option TransferRowEffect) :=
  let eventType := textOf (event.lookup "type")
  match transferKinds.lookup eventType, textParam (event.lookup "transfer_id") with
  | some kind, some transferId => do
    let accountId ← getItem event "account_id"
    let amount ← getItem event "amount"
    let sign ← getItem balanceSigns eventType
    pure (some {
      transferId := transferId
      kind := kind
      accountId := textOf (some accountId)
      amount := intOf (some amount)
      direction := if sign < 0 then .debit else .credit
      reverts := (textParam (event.lookup "reverts")).filter (fun text => text ≠ "") })
  | _, _ => .ok none

/-- `KIND_RANK.get(kind, 0)`. -/
def kindRank : TransferKind → Nat
  | .transfer => 0
  | .holdPosting => 1
  | .reversal => 2
  | .posting => 0

/-- The kind a row carries after `incoming`; never downgrades. -/
def strongerKind (current incoming : TransferKind) : TransferKind :=
  if kindRank incoming > kindRank current then incoming else current

/-- The `CASE` of the upsert. -/
def conflictKind (current excluded : TransferKind) : TransferKind :=
  if excluded = .reversal then .reversal
  else if excluded = .holdPosting ∧ current = .transfer then .holdPosting
  else current

/-- **The statement keeps the stronger kind**, on the kinds a row can carry. -/
theorem conflictKind_eq {current excluded : TransferKind} (h : current ≠ .posting) :
    conflictKind current excluded = strongerKind current excluded := by
  cases current <;> cases excluded <;> first | rfl | exact absurd rfl h

end Cloudscale
