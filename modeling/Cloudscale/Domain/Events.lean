import Cloudscale.Domain.Commands
import Cloudscale.Lib.JsonRoundtrip
import Cloudscale.Python.Datetime

/-!
# Account events and their envelope

The nine events, each with the proofs of what its constructor checks, and the
two sign tables every projection reads: `EventType.balanceSign` and
`EventType.heldSign`.  `AccountEvent.balanceDelta` and `AccountEvent.heldDelta`
are what one event moves.

An `EventEnvelope` keeps the event as a payload, a JSON mapping, and decodes it
when it is built; `decodePayload_eventPayload` says that an event's own payload
decodes to the event, so an envelope of an event can only fail on the stream
version (`EventEnvelope.fromDomainEvent_of`).
-/

namespace Cloudscale

open Checked Python

/-- `dict[str, object]` with JSON values. -/
abbrev Dict := List (String × Json)

/-! ### Cash -/

/-- The fields of a `Deposited` or a `Withdrawn`. -/
@[ext] structure CashEvent where
  accountId : String
  amount : Int
  account_ok : ValidAccountId accountId
  amount_ok : ValidAmount amount

instance : DecidableEq CashEvent := fun _ _ => decidable_of_iff _ CashEvent.ext_iff.symm

def CashEvent.new (accountId : String) (amount : Int) : Except PyError CashEvent := do
  let ⟨account_ok⟩ ← validateAccountId accountId
  let ⟨amount_ok⟩ ← validateAmount amount
  pure ⟨accountId, amount, account_ok, amount_ok⟩

/-! ### Transfers -/

/-- The fields of a `TransferDebited` or a `TransferCredited`. -/
@[ext] structure TransferLeg where
  accountId : String
  amount : Int
  transferId : UUID
  counterparty : String
  account_ok : ValidAccountId accountId
  amount_ok : ValidAmount amount
  counterparty_ok : ValidAccountId counterparty
  counterparty_ne : counterparty ≠ accountId

instance : DecidableEq TransferLeg := fun _ _ => decidable_of_iff _ TransferLeg.ext_iff.symm

def TransferLeg.new (accountId : String) (amount : Int) (transferId : UUID)
    (counterparty : String) : Except PyError TransferLeg := do
  let ⟨account_ok⟩ ← validateAccountId accountId
  let ⟨amount_ok⟩ ← validateAmount amount
  let ⟨counterparty_ok⟩ ← validateAccountId counterparty
  let ⟨counterparty_ne⟩ ← require (counterparty ≠ accountId)
    (PyError.valueError "a transfer leg's counterparty must be a different account")
  pure ⟨accountId, amount, transferId, counterparty, account_ok, amount_ok,
    counterparty_ok, counterparty_ne⟩

/-! ### Holds -/

/-- `datetime.fromisoformat(text.replace("Z", "+00:00"))`. -/
def parseExpiry (text : String) : Option (Datetime × Option Int) :=
  Datetime.fromisoformat (replace text "Z" "+00:00")

/-- The instant a text of an expiry names, when it is UTC. -/
def expiryOf (text : String) : Option Datetime :=
  match parseExpiry text with
  | some (t, some 0) => some t
  | _ => none

structure ValidExpiresAt (text : String) : Prop where
  ne_empty : text ≠ ""
  utc : (expiryOf text).isSome

def validateExpiresAt (text : String) : Except PyError (PLift (ValidExpiresAt text)) := do
  let ⟨ne_empty⟩ ← require (text ≠ "") (PyError.valueError "expires_at must be a UTC ISO-8601 string")
  let _ ← require (parseExpiry text).isSome (PyError.valueError "Invalid isoformat string")
  let ⟨utc⟩ ← require (expiryOf text).isSome (PyError.valueError "expires_at must be UTC")
  pure ⟨⟨ne_empty, utc⟩⟩

@[simp] theorem expiryOf_isoformat (t : Datetime) : expiryOf t.isoformat = some t := by
  simp only [expiryOf, parseExpiry, Datetime.replace_isoformat, Datetime.fromisoformat_isoformat]

theorem validExpiresAt_isoformat (t : Datetime) : ValidExpiresAt t.isoformat :=
  ⟨t.isoformat_ne_empty, by rw [expiryOf_isoformat]; rfl⟩

@[ext] structure HoldPlaced where
  accountId : String
  amount : Int
  holdId : UUID
  counterparty : String
  expiresAt : String
  account_ok : ValidAccountId accountId
  amount_ok : ValidAmount amount
  counterparty_ok : ValidAccountId counterparty
  counterparty_ne : counterparty ≠ accountId
  expires_ok : ValidExpiresAt expiresAt

instance : DecidableEq HoldPlaced := fun _ _ => decidable_of_iff _ HoldPlaced.ext_iff.symm

def HoldPlaced.new (accountId : String) (amount : Int) (holdId : UUID) (counterparty : String)
    (expiresAt : String) : Except PyError HoldPlaced := do
  let ⟨account_ok⟩ ← validateAccountId accountId
  let ⟨amount_ok⟩ ← validateAmount amount
  let ⟨counterparty_ok⟩ ← validateAccountId counterparty
  let ⟨counterparty_ne⟩ ← require (counterparty ≠ accountId)
    (PyError.valueError "a hold's counterparty must be a different account")
  let ⟨expires_ok⟩ ← validateExpiresAt expiresAt
  pure ⟨accountId, amount, holdId, counterparty, expiresAt, account_ok, amount_ok,
    counterparty_ok, counterparty_ne, expires_ok⟩

/-- `partialCapture` is the reason `partial`. -/
inductive HoldReleaseReason
  | voided
  | expired
  | partialCapture
  deriving DecidableEq

def HoldReleaseReason.text : HoldReleaseReason → String
  | .voided => "voided"
  | .expired => "expired"
  | .partialCapture => "partial"

def HoldReleaseReason.ofText (text : String) : Option HoldReleaseReason :=
  [voided, expired, partialCapture].find? (fun r => r.text = text)

@[simp] theorem HoldReleaseReason.ofText_text (r : HoldReleaseReason) : ofText r.text = some r := by
  cases r <;> decide

@[ext] structure HoldReleased where
  accountId : String
  amount : Int
  holdId : UUID
  reason : HoldReleaseReason
  account_ok : ValidAccountId accountId
  amount_ok : ValidAmount amount

instance : DecidableEq HoldReleased := fun _ _ => decidable_of_iff _ HoldReleased.ext_iff.symm

def HoldReleased.new (accountId : String) (amount : Int) (holdId : UUID) (reason : String) :
    Except PyError HoldReleased := do
  let ⟨account_ok⟩ ← validateAccountId accountId
  let ⟨amount_ok⟩ ← validateAmount amount
  match HoldReleaseReason.ofText reason with
  | some reason => pure ⟨accountId, amount, holdId, reason, account_ok, amount_ok⟩
  | none => .error (.valueError "reason must be voided, expired or partial")

@[ext] structure HoldPosted where
  accountId : String
  amount : Int
  holdId : UUID
  counterparty : String
  account_ok : ValidAccountId accountId
  amount_ok : ValidAmount amount
  counterparty_ok : ValidAccountId counterparty
  counterparty_ne : counterparty ≠ accountId

instance : DecidableEq HoldPosted := fun _ _ => decidable_of_iff _ HoldPosted.ext_iff.symm

def HoldPosted.new (accountId : String) (amount : Int) (holdId : UUID) (counterparty : String) :
    Except PyError HoldPosted := do
  let ⟨account_ok⟩ ← validateAccountId accountId
  let ⟨amount_ok⟩ ← validateAmount amount
  let ⟨counterparty_ok⟩ ← validateAccountId counterparty
  let ⟨counterparty_ne⟩ ← require (counterparty ≠ accountId)
    (PyError.valueError "a hold's counterparty must be a different account")
  pure ⟨accountId, amount, holdId, counterparty, account_ok, amount_ok,
    counterparty_ok, counterparty_ne⟩

/-! ### Reversals -/

/-- The fields of a `ReversalDebited` or a `ReversalCredited`. -/
@[ext] structure ReversalLeg where
  accountId : String
  amount : Int
  transferId : UUID
  counterparty : String
  reverts : UUID
  account_ok : ValidAccountId accountId
  amount_ok : ValidAmount amount
  reverts_ne : reverts ≠ transferId
  counterparty_ok : ValidAccountId counterparty
  counterparty_ne : counterparty ≠ accountId

instance : DecidableEq ReversalLeg := fun _ _ => decidable_of_iff _ ReversalLeg.ext_iff.symm

def ReversalLeg.new (accountId : String) (amount : Int) (transferId : UUID)
    (counterparty : String) (reverts : UUID) : Except PyError ReversalLeg := do
  let ⟨account_ok⟩ ← validateAccountId accountId
  let ⟨amount_ok⟩ ← validateAmount amount
  let ⟨reverts_ne⟩ ← require (reverts ≠ transferId)
    (PyError.valueError "a reversal cannot revert itself")
  let ⟨counterparty_ok⟩ ← validateAccountId counterparty
  let ⟨counterparty_ne⟩ ← require (counterparty ≠ accountId)
    (PyError.valueError "a reversal leg's counterparty must be a different account")
  pure ⟨accountId, amount, transferId, counterparty, reverts, account_ok, amount_ok,
    reverts_ne, counterparty_ok, counterparty_ne⟩

/-! ### What a constructor builds

A constructor succeeds on the fields of a value that exists, and what it returns
has the fields it was given. -/

theorem CashEvent.new_self (e : CashEvent) : CashEvent.new e.accountId e.amount = .ok e := by
  simp only [CashEvent.new, validateAccountId_of e.account_ok, ok_bind, validateAmount_of e.amount_ok,
    ok_bind, pure_eq_ok]

theorem TransferLeg.new_self (e : TransferLeg) :
    TransferLeg.new e.accountId e.amount e.transferId e.counterparty = .ok e := by
  simp only [TransferLeg.new, validateAccountId_of e.account_ok, ok_bind, validateAmount_of e.amount_ok,
    ok_bind, validateAccountId_of e.counterparty_ok, ok_bind, require_bind_of e.counterparty_ne,
    pure_eq_ok]

theorem validateExpiresAt_of {text : String} (h : ValidExpiresAt text) :
    validateExpiresAt text = .ok ⟨h⟩ := by
  have hparse : (parseExpiry text).isSome := by
    have hutc := h.utc
    rw [expiryOf] at hutc
    cases hp : parseExpiry text with
    | none => rw [hp] at hutc; cases hutc
    | some p => rfl
  simp only [validateExpiresAt, require_bind_of h.ne_empty, require_bind_of hparse,
    require_bind_of h.utc, pure_eq_ok]

theorem HoldPlaced.new_self (e : HoldPlaced) :
    HoldPlaced.new e.accountId e.amount e.holdId e.counterparty e.expiresAt = .ok e := by
  simp only [HoldPlaced.new, validateAccountId_of e.account_ok, ok_bind, validateAmount_of e.amount_ok,
    ok_bind, validateAccountId_of e.counterparty_ok, ok_bind, require_bind_of e.counterparty_ne,
    validateExpiresAt_of e.expires_ok, ok_bind, pure_eq_ok]

theorem HoldReleased.new_self (e : HoldReleased) :
    HoldReleased.new e.accountId e.amount e.holdId e.reason.text = .ok e := by
  simp only [HoldReleased.new, validateAccountId_of e.account_ok, validateAmount_of e.amount_ok,
    ok_bind, HoldReleaseReason.ofText_text, pure_eq_ok]

theorem HoldPosted.new_self (e : HoldPosted) :
    HoldPosted.new e.accountId e.amount e.holdId e.counterparty = .ok e := by
  simp only [HoldPosted.new, validateAccountId_of e.account_ok, ok_bind, validateAmount_of e.amount_ok,
    ok_bind, validateAccountId_of e.counterparty_ok, ok_bind, require_bind_of e.counterparty_ne,
    pure_eq_ok]

theorem ReversalLeg.new_self (e : ReversalLeg) :
    ReversalLeg.new e.accountId e.amount e.transferId e.counterparty e.reverts = .ok e := by
  simp only [ReversalLeg.new, validateAccountId_of e.account_ok, ok_bind, validateAmount_of e.amount_ok,
    ok_bind, require_bind_of e.reverts_ne, validateAccountId_of e.counterparty_ok, ok_bind,
    require_bind_of e.counterparty_ne, pure_eq_ok]

theorem validateAccountId_bind_eq_ok {β : Type} {id : String} {b : β}
    {f : PLift (ValidAccountId id) → Except PyError β} :
    (validateAccountId id >>= f) = .ok b ↔ ∃ h, f ⟨h⟩ = .ok b := require_bind_eq_ok

theorem validateAmount_bind_eq_ok {β : Type} {amount : Int} {b : β}
    {f : PLift (ValidAmount amount) → Except PyError β} :
    (validateAmount amount >>= f) = .ok b ↔ ∃ h, f ⟨h⟩ = .ok b := by
  constructor
  · intro h
    obtain ⟨u, hu, hf⟩ := bind_eq_ok.mp h
    exact ⟨u.down, hf⟩
  · rintro ⟨h, hf⟩
    rw [validateAmount_of h, ok_bind, hf]

theorem CashEvent.new_eq_ok {accountId : String} {amount : Int} {e : CashEvent} :
    CashEvent.new accountId amount = .ok e ↔ e.accountId = accountId ∧ e.amount = amount := by
  constructor
  · intro h
    simp only [CashEvent.new, validateAccountId_bind_eq_ok, validateAmount_bind_eq_ok, pure_eq_ok,
      Except.ok.injEq] at h
    obtain ⟨_, _, rfl⟩ := h
    exact ⟨rfl, rfl⟩
  · rintro ⟨rfl, rfl⟩
    exact e.new_self

theorem TransferLeg.new_eq_ok {accountId counterparty : String} {amount : Int} {transferId : UUID}
    {e : TransferLeg} : TransferLeg.new accountId amount transferId counterparty = .ok e ↔
      e.accountId = accountId ∧ e.amount = amount ∧ e.transferId = transferId ∧
        e.counterparty = counterparty := by
  constructor
  · intro h
    simp only [TransferLeg.new, validateAccountId_bind_eq_ok, validateAmount_bind_eq_ok,
      require_bind_eq_ok, pure_eq_ok, Except.ok.injEq] at h
    obtain ⟨_, _, _, _, rfl⟩ := h
    exact ⟨rfl, rfl, rfl, rfl⟩
  · rintro ⟨rfl, rfl, rfl, rfl⟩
    exact e.new_self

theorem HoldPlaced.new_eq_ok {accountId counterparty expiresAt : String} {amount : Int}
    {holdId : UUID} {e : HoldPlaced} :
    HoldPlaced.new accountId amount holdId counterparty expiresAt = .ok e ↔
      e.accountId = accountId ∧ e.amount = amount ∧ e.holdId = holdId ∧
        e.counterparty = counterparty ∧ e.expiresAt = expiresAt := by
  constructor
  · intro h
    simp only [HoldPlaced.new, validateAccountId_bind_eq_ok, validateAmount_bind_eq_ok,
      require_bind_eq_ok, pure_eq_ok] at h
    obtain ⟨_, _, _, _, h⟩ := h
    obtain ⟨_, _, h⟩ := bind_eq_ok.mp h
    cases h
    exact ⟨rfl, rfl, rfl, rfl, rfl⟩
  · rintro ⟨rfl, rfl, rfl, rfl, rfl⟩
    exact e.new_self

theorem HoldReleased.new_eq_ok {accountId : String} {amount : Int} {holdId : UUID}
    {reason : HoldReleaseReason} {e : HoldReleased} :
    HoldReleased.new accountId amount holdId reason.text = .ok e ↔
      e.accountId = accountId ∧ e.amount = amount ∧ e.holdId = holdId ∧ e.reason = reason := by
  constructor
  · intro h
    simp only [HoldReleased.new, validateAccountId_bind_eq_ok, validateAmount_bind_eq_ok,
      HoldReleaseReason.ofText_text, pure_eq_ok, Except.ok.injEq] at h
    obtain ⟨_, _, rfl⟩ := h
    exact ⟨rfl, rfl, rfl, rfl⟩
  · rintro ⟨rfl, rfl, rfl, rfl⟩
    exact e.new_self

theorem HoldPosted.new_eq_ok {accountId counterparty : String} {amount : Int} {holdId : UUID}
    {e : HoldPosted} : HoldPosted.new accountId amount holdId counterparty = .ok e ↔
      e.accountId = accountId ∧ e.amount = amount ∧ e.holdId = holdId ∧
        e.counterparty = counterparty := by
  constructor
  · intro h
    simp only [HoldPosted.new, validateAccountId_bind_eq_ok, validateAmount_bind_eq_ok,
      require_bind_eq_ok, pure_eq_ok, Except.ok.injEq] at h
    obtain ⟨_, _, _, _, rfl⟩ := h
    exact ⟨rfl, rfl, rfl, rfl⟩
  · rintro ⟨rfl, rfl, rfl, rfl⟩
    exact e.new_self

theorem ReversalLeg.new_eq_ok {accountId counterparty : String} {amount : Int}
    {transferId reverts : UUID} {e : ReversalLeg} :
    ReversalLeg.new accountId amount transferId counterparty reverts = .ok e ↔
      e.accountId = accountId ∧ e.amount = amount ∧ e.transferId = transferId ∧
        e.counterparty = counterparty ∧ e.reverts = reverts := by
  constructor
  · intro h
    simp only [ReversalLeg.new, validateAccountId_bind_eq_ok, validateAmount_bind_eq_ok,
      require_bind_eq_ok, pure_eq_ok, Except.ok.injEq] at h
    obtain ⟨_, _, _, _, _, rfl⟩ := h
    exact ⟨rfl, rfl, rfl, rfl, rfl⟩
  · rintro ⟨rfl, rfl, rfl, rfl, rfl⟩
    exact e.new_self

/-! ### All events -/

inductive EventType
  | deposited
  | withdrawn
  | transferDebited
  | transferCredited
  | holdPlaced
  | holdReleased
  | holdPosted
  | reversalDebited
  | reversalCredited
  deriving DecidableEq

namespace EventType

def text : EventType → String
  | deposited => "Deposited"
  | withdrawn => "Withdrawn"
  | transferDebited => "TransferDebited"
  | transferCredited => "TransferCredited"
  | holdPlaced => "HoldPlaced"
  | holdReleased => "HoldReleased"
  | holdPosted => "HoldPosted"
  | reversalDebited => "ReversalDebited"
  | reversalCredited => "ReversalCredited"

/-- `_EVENT_TYPES`. -/
def all : List EventType :=
  [deposited, withdrawn, transferDebited, transferCredited, holdPlaced, holdReleased, holdPosted,
    reversalDebited, reversalCredited]

def ofText (text : String) : Option EventType := all.find? (fun t => t.text = text)

@[simp] theorem ofText_text (t : EventType) : ofText t.text = some t := by
  cases t <;> decide

/-- `BALANCE_SIGN`: the direction each type moves the balance. -/
def balanceSign : EventType → Int
  | deposited => 1
  | withdrawn => -1
  | transferCredited => 1
  | transferDebited => -1
  | holdPlaced => 0
  | holdReleased => 0
  | holdPosted => -1
  | reversalDebited => -1
  | reversalCredited => 1

/-- `HELD_SIGN`: the direction each type moves the held amount. -/
def heldSign : EventType → Int
  | deposited => 0
  | withdrawn => 0
  | transferCredited => 0
  | transferDebited => 0
  | holdPlaced => 1
  | holdReleased => -1
  | holdPosted => -1
  | reversalDebited => 0
  | reversalCredited => 0

end EventType

inductive AccountEvent
  | deposited (e : CashEvent)
  | withdrawn (e : CashEvent)
  | transferDebited (e : TransferLeg)
  | transferCredited (e : TransferLeg)
  | holdPlaced (e : HoldPlaced)
  | holdReleased (e : HoldReleased)
  | holdPosted (e : HoldPosted)
  | reversalDebited (e : ReversalLeg)
  | reversalCredited (e : ReversalLeg)
  deriving DecidableEq

namespace AccountEvent

def type : AccountEvent → EventType
  | deposited _ => .deposited
  | withdrawn _ => .withdrawn
  | transferDebited _ => .transferDebited
  | transferCredited _ => .transferCredited
  | holdPlaced _ => .holdPlaced
  | holdReleased _ => .holdReleased
  | holdPosted _ => .holdPosted
  | reversalDebited _ => .reversalDebited
  | reversalCredited _ => .reversalCredited

def accountId : AccountEvent → String
  | deposited e => e.accountId
  | withdrawn e => e.accountId
  | transferDebited e => e.accountId
  | transferCredited e => e.accountId
  | holdPlaced e => e.accountId
  | holdReleased e => e.accountId
  | holdPosted e => e.accountId
  | reversalDebited e => e.accountId
  | reversalCredited e => e.accountId

def amount : AccountEvent → Int
  | deposited e => e.amount
  | withdrawn e => e.amount
  | transferDebited e => e.amount
  | transferCredited e => e.amount
  | holdPlaced e => e.amount
  | holdReleased e => e.amount
  | holdPosted e => e.amount
  | reversalDebited e => e.amount
  | reversalCredited e => e.amount

def balanceSign (e : AccountEvent) : Int := e.type.balanceSign

def heldSign (e : AccountEvent) : Int := e.type.heldSign

def balanceDelta (e : AccountEvent) : Int := e.balanceSign * e.amount

def heldDelta (e : AccountEvent) : Int := e.heldSign * e.amount

theorem account_ok (e : AccountEvent) : ValidAccountId e.accountId := by
  cases e with
  | deposited e => exact e.account_ok
  | withdrawn e => exact e.account_ok
  | transferDebited e => exact e.account_ok
  | transferCredited e => exact e.account_ok
  | holdPlaced e => exact e.account_ok
  | holdReleased e => exact e.account_ok
  | holdPosted e => exact e.account_ok
  | reversalDebited e => exact e.account_ok
  | reversalCredited e => exact e.account_ok

theorem amount_ok (e : AccountEvent) : ValidAmount e.amount := by
  cases e with
  | deposited e => exact e.amount_ok
  | withdrawn e => exact e.amount_ok
  | transferDebited e => exact e.amount_ok
  | transferCredited e => exact e.amount_ok
  | holdPlaced e => exact e.amount_ok
  | holdReleased e => exact e.amount_ok
  | holdPosted e => exact e.amount_ok
  | reversalDebited e => exact e.amount_ok
  | reversalCredited e => exact e.amount_ok

end AccountEvent

/-! ### Payloads -/

def eventPayload (event : AccountEvent) : Dict :=
  [("account_id", .str event.accountId), ("amount", .int event.amount)] ++
  match event with
  | .deposited _ | .withdrawn _ => []
  | .transferDebited e | .transferCredited e =>
    [("transfer_id", .str e.transferId.str), ("counterparty", .str e.counterparty)]
  | .holdPlaced e =>
    [("hold_id", .str e.holdId.str), ("counterparty", .str e.counterparty),
      ("expires_at", .str e.expiresAt)]
  | .holdReleased e => [("hold_id", .str e.holdId.str), ("reason", .str e.reason.text)]
  | .holdPosted e => [("hold_id", .str e.holdId.str), ("counterparty", .str e.counterparty)]
  | .reversalDebited e | .reversalCredited e =>
    [("transfer_id", .str e.transferId.str), ("counterparty", .str e.counterparty),
      ("reverts", .str e.reverts.str)]

/-- The keys a payload of the type must have, and the message when it has others. -/
def EventType.payloadKeys : EventType → List String × String
  | .deposited | .withdrawn =>
    (["account_id", "amount"], "v1 payload must contain exactly account_id and amount")
  | .transferDebited | .transferCredited =>
    (["account_id", "amount", "transfer_id", "counterparty"],
      "v1 transfer payload must contain exactly account_id, amount, transfer_id and counterparty")
  | .holdPlaced =>
    (["account_id", "amount", "hold_id", "counterparty", "expires_at"],
      "v1 HoldPlaced payload must contain exactly " ++
        "['account_id', 'amount', 'counterparty', 'expires_at', 'hold_id']")
  | .holdReleased =>
    (["account_id", "amount", "hold_id", "reason"],
      "v1 HoldReleased payload must contain exactly ['account_id', 'amount', 'hold_id', 'reason']")
  | .holdPosted =>
    (["account_id", "amount", "hold_id", "counterparty"],
      "v1 HoldPosted payload must contain exactly " ++
        "['account_id', 'amount', 'counterparty', 'hold_id']")
  | .reversalDebited | .reversalCredited =>
    (["account_id", "amount", "transfer_id", "counterparty", "reverts"],
      "v1 reversal payload must contain exactly account_id, amount, transfer_id, " ++
        "counterparty and reverts")

/-- `set(payload) == keys`; a dictionary has each of its keys once. -/
def sameKeys (payload : Dict) (keys : List String) : Bool := (payload.map Prod.fst).isPerm keys

theorem sameKeys_perm {value value' : Dict} (h : value.Perm value') (keys : List String) :
    sameKeys value keys = sameKeys value' keys := by
  rw [Bool.eq_iff_iff, sameKeys, sameKeys, List.isPerm_iff, List.isPerm_iff]
  exact ⟨(h.map Prod.fst).symm.trans, (h.map Prod.fst).trans⟩

theorem nodup_of_sameKeys {value : Dict} {keys : List String} (h : sameKeys value keys = true)
    (hkeys : keys.Nodup) : (value.map Prod.fst).Nodup :=
  (List.isPerm_iff.mp h).nodup_iff.mpr hkeys

def decodeUuid (value : Option Json) (fieldName : String) : Except PyError UUID :=
  match value with
  | some (.str text) =>
    match UUID.ofText text with
    | some u => .ok u
    | none => .error (.valueError s!"{fieldName} must be a valid UUID string")
  | _ => .error (.valueError s!"{fieldName} must be a UUID string")

theorem fits_of_le {n : Int} (h : 0 ≤ n ∧ n ≤ maxSignedBigint) : Json.Fits Json.defaultLimit n := by
  rw [maxSignedBigint_eq] at h
  exact Json.fits_of_natAbs_lt (k := 19) (by decide) (by decide) (by omega)

/-- The text of a field; anything else fails the check that an empty text fails. -/
def textOf : Option Json → String
  | some (.str text) => text
  | _ => ""

/-- The integer of a field; anything else fails the check that zero fails. -/
def intOf : Option Json → Int
  | some (.int n) => n
  | _ => 0

/-- `EventEnvelope.to_domain_event`, on the type and the payload. -/
def decodePayload (type : EventType) (payload : Dict) : Except PyError AccountEvent := do
  let _ ← require (sameKeys payload type.payloadKeys.1) (PyError.valueError type.payloadKeys.2)
  let accountId := textOf (payload.lookup "account_id")
  let amount := intOf (payload.lookup "amount")
  let counterparty := textOf (payload.lookup "counterparty")
  match type with
  | .deposited => .deposited <$> CashEvent.new accountId amount
  | .withdrawn => .withdrawn <$> CashEvent.new accountId amount
  | .transferDebited => do
    let transferId ← decodeUuid (payload.lookup "transfer_id") "transfer_id"
    .transferDebited <$> TransferLeg.new accountId amount transferId counterparty
  | .transferCredited => do
    let transferId ← decodeUuid (payload.lookup "transfer_id") "transfer_id"
    .transferCredited <$> TransferLeg.new accountId amount transferId counterparty
  | .holdPlaced => do
    let holdId ← decodeUuid (payload.lookup "hold_id") "hold_id"
    .holdPlaced <$> HoldPlaced.new accountId amount holdId counterparty
      (textOf (payload.lookup "expires_at"))
  | .holdReleased => do
    let holdId ← decodeUuid (payload.lookup "hold_id") "hold_id"
    .holdReleased <$> HoldReleased.new accountId amount holdId (textOf (payload.lookup "reason"))
  | .holdPosted => do
    let holdId ← decodeUuid (payload.lookup "hold_id") "hold_id"
    .holdPosted <$> HoldPosted.new accountId amount holdId counterparty
  | .reversalDebited => do
    let transferId ← decodeUuid (payload.lookup "transfer_id") "transfer_id"
    let reverts ← decodeUuid (payload.lookup "reverts") "reverts"
    .reversalDebited <$> ReversalLeg.new accountId amount transferId counterparty reverts
  | .reversalCredited => do
    let transferId ← decodeUuid (payload.lookup "transfer_id") "transfer_id"
    let reverts ← decodeUuid (payload.lookup "reverts") "reverts"
    .reversalCredited <$> ReversalLeg.new accountId amount transferId counterparty reverts

theorem decodeUuid_str_bind {β : Type} (u : UUID) (fieldName : String)
    (f : UUID → Except PyError β) :
    (decodeUuid (some (.str u.str)) fieldName >>= f) = f u := by
  simp only [decodeUuid, UUID.ofText_str, ok_bind]

/-- **An event's payload decodes to the event.** -/
theorem decodePayload_eventPayload (event : AccountEvent) :
    decodePayload event.type (eventPayload event) = .ok event := by
  have hkeys : sameKeys (eventPayload event) event.type.payloadKeys.1 = true := by
    cases event <;> rfl
  rw [decodePayload, require_bind_of hkeys]
  cases event with
  | deposited e =>
    show AccountEvent.deposited <$> CashEvent.new e.accountId e.amount = _
    rw [e.new_self]
    rfl
  | withdrawn e =>
    show AccountEvent.withdrawn <$> CashEvent.new e.accountId e.amount = _
    rw [e.new_self]
    rfl
  | transferDebited e =>
    refine (decodeUuid_str_bind e.transferId "transfer_id" _).trans ?_
    show AccountEvent.transferDebited <$>
      TransferLeg.new e.accountId e.amount e.transferId e.counterparty = _
    rw [e.new_self]
    rfl
  | transferCredited e =>
    refine (decodeUuid_str_bind e.transferId "transfer_id" _).trans ?_
    show AccountEvent.transferCredited <$>
      TransferLeg.new e.accountId e.amount e.transferId e.counterparty = _
    rw [e.new_self]
    rfl
  | holdPlaced e =>
    refine (decodeUuid_str_bind e.holdId "hold_id" _).trans ?_
    show AccountEvent.holdPlaced <$>
      HoldPlaced.new e.accountId e.amount e.holdId e.counterparty e.expiresAt = _
    rw [e.new_self]
    rfl
  | holdReleased e =>
    refine (decodeUuid_str_bind e.holdId "hold_id" _).trans ?_
    show AccountEvent.holdReleased <$>
      HoldReleased.new e.accountId e.amount e.holdId e.reason.text = _
    rw [e.new_self]
    rfl
  | holdPosted e =>
    refine (decodeUuid_str_bind e.holdId "hold_id" _).trans ?_
    show AccountEvent.holdPosted <$>
      HoldPosted.new e.accountId e.amount e.holdId e.counterparty = _
    rw [e.new_self]
    rfl
  | reversalDebited e =>
    refine (decodeUuid_str_bind e.transferId "transfer_id" _).trans ?_
    refine (decodeUuid_str_bind e.reverts "reverts" _).trans ?_
    show AccountEvent.reversalDebited <$>
      ReversalLeg.new e.accountId e.amount e.transferId e.counterparty e.reverts = _
    rw [e.new_self]
    rfl
  | reversalCredited e =>
    refine (decodeUuid_str_bind e.transferId "transfer_id" _).trans ?_
    refine (decodeUuid_str_bind e.reverts "reverts" _).trans ?_
    show AccountEvent.reversalCredited <$>
      ReversalLeg.new e.accountId e.amount e.transferId e.counterparty e.reverts = _
    rw [e.new_self]
    rfl

/-! ### Timestamps -/

def formatUtcTimestamp (value : Datetime) : String :=
  replace value.isoformatMicroseconds "+00:00" "Z"

def parseUtcTimestamp (value : Option Json) (fieldName : String) : Except PyError Datetime :=
  match value with
  | some (.str text) =>
    let normalized := if text.toList.getLast? = some 'Z' then
      String.ofList (text.toList.dropLast ++ "+00:00".toList) else text
    match Datetime.fromisoformat normalized with
    | none => .error (.valueError s!"{fieldName} must be a valid RFC 3339 timestamp")
    | some (_, none) => .error (.valueError s!"{fieldName} must be timezone-aware UTC")
    | some (t, some offset) =>
      if offset = 0 then .ok t else .error (.valueError s!"{fieldName} must use UTC")
  | _ => .error (.valueError s!"{fieldName} must be an RFC 3339 string")

/-- **A formatted timestamp reads back.** -/
theorem parseUtcTimestamp_format (t : Datetime) (fieldName : String) :
    parseUtcTimestamp (some (.str (formatUtcTimestamp t))) fieldName = .ok t := by
  have hoffset : "+00:00".toList = '+' :: ['0', '0', ':', '0', '0'] := by decide
  have hZ : "Z".toList = ['Z'] := by decide
  obtain ⟨body, hbody, hplus⟩ := t.isoformatMicroseconds_eq
  have hformat : formatUtcTimestamp t = String.ofList (body ++ ['Z']) := by
    rw [formatUtcTimestamp, replace, hbody, hoffset, hZ]
    simp only [String.toList_ofList]
    rw [replaceAll_suffix hplus]
  have hread := t.fromisoformat_isoformatMicroseconds
  rw [hbody] at hread
  simp only [parseUtcTimestamp, hformat, String.toList_ofList, List.getLast?_append,
    List.getLast?_singleton, Option.some_or, if_true, List.dropLast_concat, hoffset, hread]

/-! ### The envelope -/

/-- `CURRENT_SCHEMA_VERSION`: every type is in its first shape. -/
def currentSchemaVersion : EventType → Int := fun _ => 1

/-- The immutable identity and trace metadata around one event. -/
structure EventEnvelope where
  eventId : UUID
  streamId : String
  streamVersion : Int
  eventType : EventType
  occurredAt : Datetime
  correlationId : UUID
  causationId : UUID
  commandId : UUID
  schemaVersion : Int
  payload : Dict
  stream_ok : ValidAccountId streamId
  stream_version_ok : 1 ≤ streamVersion ∧ streamVersion ≤ maxSignedBigint
  schema_version_ok : 1 ≤ schemaVersion ∧ schemaVersion ≤ maxSignedBigint
  decodes : ∃ event, decodePayload eventType payload = .ok event ∧ event.accountId = streamId

def validatePositiveVersion (version : Int) (fieldName : String) :
    Except PyError (PLift (1 ≤ version ∧ version ≤ maxSignedBigint)) :=
  require (1 ≤ version ∧ version ≤ maxSignedBigint)
    (.valueError s!"{fieldName} must be a positive, non-Boolean signed-BIGINT integer")

namespace EventEnvelope

def new (eventId : UUID) (streamId : String) (streamVersion : Int) (eventType : EventType)
    (occurredAt : Datetime) (correlationId causationId commandId : UUID) (schemaVersion : Int)
    (payload : Dict) : Except PyError EventEnvelope := do
  let ⟨stream_ok⟩ ← validateAccountId streamId
  let ⟨stream_version_ok⟩ ← validatePositiveVersion streamVersion "stream_version"
  let ⟨schema_version_ok⟩ ← validatePositiveVersion schemaVersion "schema_version"
  match hdecode : decodePayload eventType payload with
  | .error e => .error e
  | .ok event => do
    let ⟨account⟩ ← require (event.accountId = streamId)
      (PyError.valueError "payload account_id must match stream_id exactly")
    pure ⟨eventId, streamId, streamVersion, eventType, occurredAt, correlationId, causationId,
      commandId, schemaVersion, payload, stream_ok, stream_version_ok,
      schema_version_ok, event, hdecode, account⟩

/-- The schema version is the current one of the type unless another is given. -/
def fromDomainEvent (event : AccountEvent) (eventId : UUID) (streamVersion : Int)
    (occurredAt : Datetime) (correlationId causationId commandId : UUID)
    (schemaVersion : Option Int := none) : Except PyError EventEnvelope :=
  new eventId event.accountId streamVersion event.type occurredAt correlationId causationId
    commandId (schemaVersion.getD (currentSchemaVersion event.type)) (eventPayload event)

/-- The fields of an envelope around `event`. -/
structure Wraps (env : EventEnvelope) (event : AccountEvent) (eventId : UUID) (streamVersion : Int)
    (occurredAt : Datetime) (correlationId causationId commandId : UUID) : Prop where
  eventId : env.eventId = eventId
  streamId : env.streamId = event.accountId
  streamVersion : env.streamVersion = streamVersion
  eventType : env.eventType = event.type
  occurredAt : env.occurredAt = occurredAt
  correlationId : env.correlationId = correlationId
  causationId : env.causationId = causationId
  commandId : env.commandId = commandId
  schemaVersion : env.schemaVersion = currentSchemaVersion event.type
  payload : env.payload = eventPayload event

section

variable {event : AccountEvent} {eventId correlationId causationId commandId : UUID}
  {streamVersion : Int} {occurredAt : Datetime}

/-- **An envelope of an event fails only on the stream version.** -/
theorem fromDomainEvent_of (h : 1 ≤ streamVersion ∧ streamVersion ≤ maxSignedBigint) :
    ∃ env, fromDomainEvent event eventId streamVersion occurredAt correlationId causationId
      commandId = .ok env := by
  have hschema : 1 ≤ currentSchemaVersion event.type ∧
      currentSchemaVersion event.type ≤ maxSignedBigint := by
    rw [currentSchemaVersion, maxSignedBigint_eq]
    decide
  have hdecode := decodePayload_eventPayload event
  simp only [fromDomainEvent, Option.getD_none, new, validateAccountId_of event.account_ok, ok_bind,
    validatePositiveVersion, require_bind_of h, require_bind_of hschema]
  split
  next e he => rw [hdecode] at he; cases he
  next event' he =>
    rw [hdecode] at he
    cases he
    rw [require_bind_of rfl]
    exact ⟨_, rfl⟩

theorem new_fields {streamId : String} {eventType : EventType} {schemaVersion : Int}
    {payload : Dict} {env : EventEnvelope}
    (h : new eventId streamId streamVersion eventType occurredAt correlationId causationId commandId
      schemaVersion payload = .ok env) :
    (env.eventId = eventId ∧ env.streamId = streamId ∧ env.streamVersion = streamVersion ∧
      env.eventType = eventType ∧ env.occurredAt = occurredAt) ∧
    env.correlationId = correlationId ∧ env.causationId = causationId ∧ env.commandId = commandId ∧
      env.schemaVersion = schemaVersion ∧ env.payload = payload := by
  rw [new, validateAccountId_bind_eq_ok] at h
  obtain ⟨_, h⟩ := h
  simp only [validatePositiveVersion, require_bind_eq_ok] at h
  obtain ⟨_, _, h⟩ := h
  split at h
  next => cases h
  next =>
    obtain ⟨_, h⟩ := require_bind_eq_ok.mp h
    cases h
    exact ⟨⟨rfl, rfl, rfl, rfl, rfl⟩, rfl, rfl, rfl, rfl, rfl⟩

theorem fromDomainEvent_wraps {env : EventEnvelope}
    (h : fromDomainEvent event eventId streamVersion occurredAt correlationId causationId
      commandId = .ok env) :
    Wraps env event eventId streamVersion occurredAt correlationId causationId commandId := by
  obtain ⟨⟨hid, hstream, hversion, htype, hat⟩, hcorrelation, hcausation, hcommand, hschema,
    hpayload⟩ := new_fields h
  exact ⟨hid, hstream, hversion, htype, hat, hcorrelation, hcausation, hcommand, hschema, hpayload⟩

end

end EventEnvelope

end Cloudscale
