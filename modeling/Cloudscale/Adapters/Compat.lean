import Cloudscale.Domain.Account
import Cloudscale.Domain.Upcasting

/-!
# Event rows

The columns of the `events` table that an event fills (`eventRowFields`) and the
decoder that turns a row back into an event (`legacyEventToDomain`).  A hold's
id rides the `transfer_id` column, since it becomes the transfer id of the
eventual posting.

`decodeRow_rowDict` says that the columns of an event, upcast and decoded, are
the event, so a reader of rows sees the events that were appended.

`adaptLegacyEvent` is the gate of the projections: an event of a known type goes
through its domain value and back (`domainEventToLegacy`), any other passes.
-/

namespace Cloudscale

open Checked Python

/-- The nullable columns of the `events` table. -/
structure RowFields where
  transferId : Option String
  counterparty : Option String
  expiresAt : Option String
  releaseReason : Option String
  reverts : Option String
  deriving DecidableEq

/-- The columns of an event; absent is NULL. -/
def eventRowFields : AccountEvent → RowFields
  | .transferDebited e | .transferCredited e =>
    ⟨some e.transferId.str, some e.counterparty, none, none, none⟩
  | .holdPlaced e => ⟨some e.holdId.str, some e.counterparty, some e.expiresAt, none, none⟩
  | .holdReleased e => ⟨some e.holdId.str, none, none, some e.reason.text, none⟩
  | .holdPosted e => ⟨some e.holdId.str, some e.counterparty, none, none, none⟩
  | .reversalDebited e | .reversalCredited e =>
    ⟨some e.transferId.str, some e.counterparty, none, none, some e.reverts.str⟩
  | .deposited _ | .withdrawn _ => ⟨none, none, none, none, none⟩

/-- A nullable text column, as the driver returns it. -/
def column : Option String → Json
  | some text => .str text
  | none => .null

/-- The selected columns of an event's row, as a dictionary. -/
def rowDict (event : AccountEvent) (schemaVersion : Int) : Dict :=
  let fields := eventRowFields event
  [("type", .str event.type.text), ("account_id", .str event.accountId),
    ("amount", .int event.amount), ("transfer_id", column fields.transferId),
    ("counterparty", column fields.counterparty), ("expires_at", column fields.expiresAt),
    ("release_reason", column fields.releaseReason), ("reverts", column fields.reverts),
    ("schema_version", .int schemaVersion)]

/-- `_uuid`, with the check that the constructor makes of its result. -/
def legacyUuid (value : Option Json) (fieldName : String) : Except PyError UUID :=
  match value with
  | some (.str text) =>
    match UUID.ofText text with
    | some u => .ok u
    | none => .error (.valueError "badly formed hexadecimal UUID string")
  | _ => .error (.valueError s!"{fieldName} must be a UUID")

/-- Validate and convert one dictionary event to a domain value. -/
def legacyEventToDomain (event : Dict) : Except PyError AccountEvent :=
  let accountId := textOf (event.lookup "account_id")
  let amount := intOf (event.lookup "amount")
  let counterparty := textOf (event.lookup "counterparty")
  let transferId := legacyUuid (event.lookup "transfer_id")
  match EventType.ofText (textOf (event.lookup "type")) with
  | none => .error (.valueError
      ("unsupported legacy event type: " ++ pyRepr (event.lookup "type")))
  | some .deposited => .deposited <$> CashEvent.new accountId amount
  | some .withdrawn => .withdrawn <$> CashEvent.new accountId amount
  | some .transferDebited => do
    let transferId ← transferId "transfer_id"
    .transferDebited <$> TransferLeg.new accountId amount transferId counterparty
  | some .transferCredited => do
    let transferId ← transferId "transfer_id"
    .transferCredited <$> TransferLeg.new accountId amount transferId counterparty
  | some .holdPlaced => do
    let holdId ← transferId "hold_id"
    .holdPlaced <$> HoldPlaced.new accountId amount holdId counterparty
      (textOf (event.lookup "expires_at"))
  | some .holdReleased => do
    let holdId ← transferId "hold_id"
    .holdReleased <$> HoldReleased.new accountId amount holdId
      (textOf (event.lookup "release_reason"))
  | some .holdPosted => do
    let holdId ← transferId "hold_id"
    .holdPosted <$> HoldPosted.new accountId amount holdId counterparty
  | some .reversalDebited => do
    let transferId ← transferId "transfer_id"
    let reverts ← legacyUuid (event.lookup "reverts") "reverts"
    .reversalDebited <$> ReversalLeg.new accountId amount transferId counterparty reverts
  | some .reversalCredited => do
    let transferId ← transferId "transfer_id"
    let reverts ← legacyUuid (event.lookup "reverts") "reverts"
    .reversalCredited <$> ReversalLeg.new accountId amount transferId counterparty reverts

/-- What a reader makes of a row: translate to the current shape, then decode. -/
def decodeRow (row : Dict) : Except PyError AccountEvent := do
  let row ← upcast currentSchemaVersions registeredSteps row
  legacyEventToDomain row

theorem legacyUuid_str_bind {β : Type} (u : UUID) (fieldName : String)
    (f : UUID → Except PyError β) :
    (legacyUuid (some (.str u.str)) fieldName >>= f) = f u := by
  simp only [legacyUuid, UUID.ofText_str, ok_bind]

/-- The dictionary has the columns of the event. -/
structure HasColumns (row : Dict) (event : AccountEvent) : Prop where
  type : row.lookup "type" = some (.str event.type.text)
  accountId : row.lookup "account_id" = some (.str event.accountId)
  amount : row.lookup "amount" = some (.int event.amount)
  transferId : ∀ text ∈ (eventRowFields event).transferId, row.lookup "transfer_id" = some (.str text)
  counterparty :
    ∀ text ∈ (eventRowFields event).counterparty, row.lookup "counterparty" = some (.str text)
  expiresAt : ∀ text ∈ (eventRowFields event).expiresAt, row.lookup "expires_at" = some (.str text)
  releaseReason :
    ∀ text ∈ (eventRowFields event).releaseReason, row.lookup "release_reason" = some (.str text)
  reverts : ∀ text ∈ (eventRowFields event).reverts, row.lookup "reverts" = some (.str text)

/-- **The columns of an event decode to the event.** -/
theorem legacyEventToDomain_of {row : Dict} {event : AccountEvent} (h : HasColumns row event) :
    legacyEventToDomain row = .ok event := by
  rw [legacyEventToDomain]
  simp only [h.type, h.accountId, h.amount, textOf, intOf, EventType.ofText_text]
  cases event with
  | deposited e =>
    show AccountEvent.deposited <$> CashEvent.new e.accountId e.amount = _
    rw [e.new_self]
    rfl
  | withdrawn e =>
    show AccountEvent.withdrawn <$> CashEvent.new e.accountId e.amount = _
    rw [e.new_self]
    rfl
  | transferDebited e | transferCredited e =>
    simp only [AccountEvent.type, h.transferId _ rfl, h.counterparty _ rfl, legacyUuid_str_bind]
    exact congrArg _ e.new_self
  | holdPlaced e =>
    simp only [AccountEvent.type, h.transferId _ rfl, h.counterparty _ rfl, h.expiresAt _ rfl,
      legacyUuid_str_bind]
    exact congrArg _ e.new_self
  | holdReleased e =>
    simp only [AccountEvent.type, h.transferId _ rfl, h.releaseReason _ rfl, legacyUuid_str_bind]
    exact congrArg _ e.new_self
  | holdPosted e =>
    simp only [AccountEvent.type, h.transferId _ rfl, h.counterparty _ rfl, legacyUuid_str_bind]
    exact congrArg _ e.new_self
  | reversalDebited e | reversalCredited e =>
    simp only [AccountEvent.type, h.transferId _ rfl, h.counterparty _ rfl, h.reverts _ rfl,
      legacyUuid_str_bind]
    exact congrArg _ e.new_self

/-- The stamp of the schema version is no column of an event. -/
theorem HasColumns.stamped {row : Dict} {event : AccountEvent} (h : HasColumns row event)
    (stamp : Json) : HasColumns (setItem "schema_version" stamp row) event := by
  have hkeep : ∀ {key : String}, key ≠ "schema_version" →
      (setItem "schema_version" stamp row).lookup key = row.lookup key := by
    intro key hkey
    rw [lookup_setItem, if_neg hkey]
  refine ⟨(hkeep (by decide)).trans h.type, (hkeep (by decide)).trans h.accountId,
    (hkeep (by decide)).trans h.amount, fun text htext => ?_, fun text htext => ?_,
    fun text htext => ?_, fun text htext => ?_, fun text htext => ?_⟩
  · exact (hkeep (by decide)).trans (h.transferId text htext)
  · exact (hkeep (by decide)).trans (h.counterparty text htext)
  · exact (hkeep (by decide)).trans (h.expiresAt text htext)
  · exact (hkeep (by decide)).trans (h.releaseReason text htext)
  · exact (hkeep (by decide)).trans (h.reverts text htext)

/-- **A row in the current shape decodes to its event**, whichever columns it has
besides those of the event. -/
theorem decodeRow_of {row : Dict} {event : AccountEvent} (h : HasColumns row event)
    (hversion : row.lookup "schema_version" = some (.int (currentSchemaVersion event.type))) :
    decodeRow row = .ok event := by
  rw [decodeRow, upcast_current h.type hversion, ok_bind, legacyEventToDomain_of (h.stamped _)]

theorem decodeRow_rowDict (event : AccountEvent) :
    decodeRow (rowDict event (currentSchemaVersion event.type)) = .ok event := by
  refine decodeRow_of ⟨rfl, rfl, rfl, ?_, ?_, ?_, ?_, ?_⟩ rfl <;> intro text htext
  · exact congrArg (some ∘ column) htext
  · exact congrArg (some ∘ column) htext
  · exact congrArg (some ∘ column) htext
  · exact congrArg (some ∘ column) htext
  · exact congrArg (some ∘ column) htext

/-! ### The gate of the projections -/

/-- `legacy[key] = value`, unless the value is `None`. -/
def setPresent (key : String) (value : Option String) (legacy : Dict) : Dict :=
  match value with
  | some text => setItem key (.str text) legacy
  | none => legacy

theorem lookup_setPresent (key : String) (value : Option String) (k : String) (legacy : Dict) :
    (setPresent key value legacy).lookup k =
      if k = key then (value.map Json.str).or (legacy.lookup k) else legacy.lookup k := by
  cases value with
  | none =>
    show legacy.lookup k = _
    split <;> rfl
  | some text =>
    show (setItem key (.str text) legacy).lookup k = _
    rw [lookup_setItem]
    rfl

/-- A typed event as a dictionary that keeps its metadata. -/
def domainEventToLegacy (event : AccountEvent) (metadata : Dict) : Dict :=
  let fields := eventRowFields event
  let legacy := setItem "type" (.str event.type.text) metadata
  let legacy := setItem "account_id" (.str event.accountId) legacy
  let legacy := setItem "amount" (.int event.amount) legacy
  let legacy := setPresent "transfer_id" fields.transferId legacy
  let legacy := setPresent "counterparty" fields.counterparty legacy
  let legacy := setPresent "expires_at" fields.expiresAt legacy
  let legacy := setPresent "release_reason" fields.releaseReason legacy
  setPresent "reverts" fields.reverts legacy

theorem hasColumns_domainEventToLegacy (e : AccountEvent) (metadata : Dict) :
    HasColumns (domainEventToLegacy e metadata) e := by
  refine ⟨?_, ?_, ?_, fun text htext => ?_, fun text htext => ?_, fun text htext => ?_,
    fun text htext => ?_, fun text htext => ?_⟩ <;>
    simp only [domainEventToLegacy, lookup_setPresent, lookup_setItem, String.reduceEq, if_true,
      if_false]
  all_goals
    rw [Option.mem_def.mp htext]
    rfl

/-- Round-trip a known event through its domain value; copy an unknown one. -/
def adaptLegacyEvent (event : Dict) : Except PyError Dict :=
  match EventType.ofText (textOf (event.lookup "type")) with
  | none => .ok event
  | some _ => do
    let domainEvent ← legacyEventToDomain event
    pure (domainEventToLegacy domainEvent event)

def gateKeys : List String :=
  ["type", "account_id", "amount", "transfer_id", "counterparty", "expires_at", "release_reason",
    "reverts"]

theorem lookup_of_adaptLegacyEvent {event adapted : Dict} {key : String} (hkey : key ∉ gateKeys)
    (h : adaptLegacyEvent event = .ok adapted) : adapted.lookup key = event.lookup key := by
  rw [adaptLegacyEvent] at h
  split at h
  next =>
    cases h
    rfl
  next =>
    obtain ⟨domainEvent, -, h⟩ := bind_eq_ok.mp h
    cases h
    simp only [gateKeys, List.mem_cons, List.not_mem_nil, not_or, or_false] at hkey
    simp only [domainEventToLegacy, lookup_setPresent, lookup_setItem, hkey, if_false]

theorem setPresent_of_lookup {key : String} {value : Option String} {legacy : Dict}
    (h : ∀ text ∈ value, legacy.lookup key = some (.str text)) :
    setPresent key value legacy = legacy := by
  cases value with
  | none => rfl
  | some text => exact setItem_of_lookup (h text rfl)

/-- A dictionary that has the columns of an event is not changed by writing them. -/
theorem domainEventToLegacy_of {event : AccountEvent} {legacy : Dict}
    (h : HasColumns legacy event) : domainEventToLegacy event legacy = legacy := by
  simp only [domainEventToLegacy, setItem_of_lookup h.type, setItem_of_lookup h.accountId,
    setItem_of_lookup h.amount, setPresent_of_lookup h.transferId,
    setPresent_of_lookup h.counterparty, setPresent_of_lookup h.expiresAt,
    setPresent_of_lookup h.releaseReason, setPresent_of_lookup h.reverts]

/-- **The gate passes what it has let through.** -/
theorem adaptLegacyEvent_idem {event adapted : Dict} (h : adaptLegacyEvent event = .ok adapted) :
    adaptLegacyEvent adapted = .ok adapted := by
  cases htype : EventType.ofText (textOf (event.lookup "type")) with
  | none =>
    have hpass : adaptLegacyEvent event = .ok event := by
      simp only [adaptLegacyEvent, htype]
    rw [hpass, Except.ok.injEq] at h
    rw [← h, hpass]
  | some type =>
    simp only [adaptLegacyEvent, htype] at h
    obtain ⟨domainEvent, -, h⟩ := bind_eq_ok.mp h
    cases h
    have hcolumns := hasColumns_domainEventToLegacy domainEvent event
    simp only [adaptLegacyEvent, hcolumns.type, textOf, EventType.ofText_text,
      legacyEventToDomain_of hcolumns, ok_bind, domainEventToLegacy_of hcolumns]
    rfl

end Cloudscale
