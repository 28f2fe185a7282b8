import Cloudscale.Domain.Events

/-!
# The text of an envelope

`EventEnvelope.toJson` writes an envelope as canonical JSON and
`EventEnvelope.fromJson` reads it back through every check of the constructor.  A
payload that decodes to an event holds texts and amounts only
(`scalar_of_decodePayload`), so the text gives it back with its members in the
order of their keys: `EventEnvelope.sorted` is that envelope, and it is equal to
the one that was written, as dictionaries are compared.  Freezing and thawing a
payload leave no trace here, since a document does not change.
-/

namespace Cloudscale

open Checked Python

/-! ### Payloads that decode -/

inductive Scalar : Json → Prop
  | str (s : String) : Scalar (.str s)
  | int {n : Int} (valid : ValidAmount n) : Scalar (.int n)

theorem Scalar.plain {v : Json} (h : Scalar v) : Json.Plain Json.defaultLimit v := by
  cases h with
  | str s => exact .str s
  | int valid => exact .int (fits_of_le ⟨valid.pos.le, valid.le_max⟩)

theorem Scalar.sortKeys {v : Json} (h : Scalar v) : v.sortKeys = v := by
  cases h <;> rfl

theorem scalar_textOf {value : Option Json} (h : textOf value ≠ "") : ∃ v ∈ value, Scalar v := by
  unfold textOf at h
  split at h
  next text => exact ⟨_, rfl, .str text⟩
  next => exact absurd rfl h

theorem scalar_intOf {value : Option Json} (h : ValidAmount (intOf value)) :
    ∃ v ∈ value, Scalar v := by
  unfold intOf at h
  split at h
  next n => exact ⟨_, rfl, .int h⟩
  next => exact absurd h.pos (by decide)

theorem scalar_decodeUuid {value : Option Json} {fieldName : String} {u : UUID}
    (h : decodeUuid value fieldName = .ok u) : ∃ v ∈ value, Scalar v := by
  unfold decodeUuid at h
  split at h
  next text => exact ⟨_, rfl, .str text⟩
  next => cases h

theorem HoldReleased.fields_of_new {accountId reason : String} {amount : Int} {holdId : UUID}
    {e : HoldReleased} (h : HoldReleased.new accountId amount holdId reason = .ok e) :
    e.accountId = accountId ∧ e.amount = amount ∧ reason ≠ "" := by
  simp only [HoldReleased.new, validateAccountId_bind_eq_ok, validateAmount_bind_eq_ok] at h
  obtain ⟨_, _, h⟩ := h
  split at h
  next r hr =>
    cases h
    refine ⟨rfl, rfl, ?_⟩
    rintro rfl
    cases hr
  next => cases h

section

variable {type : EventType} {payload payload' : Dict} {event : AccountEvent}

/-- Under each of its keys a payload that decodes has a text or an amount. -/
theorem scalar_of_key (h : decodePayload type payload = .ok event) :
    ∀ key ∈ type.payloadKeys.1, ∃ v ∈ payload.lookup key, Scalar v := by
  obtain ⟨-, h⟩ := require_bind_eq_ok.mp h
  cases type with
  | deposited | withdrawn =>
    obtain ⟨e, he, -⟩ := map_eq_ok.mp h
    obtain ⟨haccount, hamount⟩ := CashEvent.new_eq_ok.mp he
    simp only [EventType.payloadKeys, List.forall_mem_cons]
    exact ⟨scalar_textOf (haccount ▸ e.account_ok), scalar_intOf (hamount ▸ e.amount_ok),
      fun _ h => nomatch h⟩
  | transferDebited | transferCredited =>
    obtain ⟨transferId, htransfer, h⟩ := bind_eq_ok.mp h
    obtain ⟨e, he, -⟩ := map_eq_ok.mp h
    obtain ⟨haccount, hamount, -, hcounterparty⟩ := TransferLeg.new_eq_ok.mp he
    simp only [EventType.payloadKeys, List.forall_mem_cons]
    exact ⟨scalar_textOf (haccount ▸ e.account_ok), scalar_intOf (hamount ▸ e.amount_ok),
      scalar_decodeUuid htransfer, scalar_textOf (hcounterparty ▸ e.counterparty_ok),
      fun _ h => nomatch h⟩
  | holdPlaced =>
    obtain ⟨holdId, hhold, h⟩ := bind_eq_ok.mp h
    obtain ⟨e, he, -⟩ := map_eq_ok.mp h
    obtain ⟨haccount, hamount, -, hcounterparty, hexpires⟩ := HoldPlaced.new_eq_ok.mp he
    simp only [EventType.payloadKeys, List.forall_mem_cons]
    exact ⟨scalar_textOf (haccount ▸ e.account_ok), scalar_intOf (hamount ▸ e.amount_ok),
      scalar_decodeUuid hhold, scalar_textOf (hcounterparty ▸ e.counterparty_ok),
      scalar_textOf (hexpires ▸ e.expires_ok.ne_empty), fun _ h => nomatch h⟩
  | holdReleased =>
    obtain ⟨holdId, hhold, h⟩ := bind_eq_ok.mp h
    obtain ⟨e, he, -⟩ := map_eq_ok.mp h
    obtain ⟨haccount, hamount, hreason⟩ := HoldReleased.fields_of_new he
    simp only [EventType.payloadKeys, List.forall_mem_cons]
    exact ⟨scalar_textOf (haccount ▸ e.account_ok), scalar_intOf (hamount ▸ e.amount_ok),
      scalar_decodeUuid hhold, scalar_textOf hreason, fun _ h => nomatch h⟩
  | holdPosted =>
    obtain ⟨holdId, hhold, h⟩ := bind_eq_ok.mp h
    obtain ⟨e, he, -⟩ := map_eq_ok.mp h
    obtain ⟨haccount, hamount, -, hcounterparty⟩ := HoldPosted.new_eq_ok.mp he
    simp only [EventType.payloadKeys, List.forall_mem_cons]
    exact ⟨scalar_textOf (haccount ▸ e.account_ok), scalar_intOf (hamount ▸ e.amount_ok),
      scalar_decodeUuid hhold, scalar_textOf (hcounterparty ▸ e.counterparty_ok),
      fun _ h => nomatch h⟩
  | reversalDebited | reversalCredited =>
    obtain ⟨transferId, htransfer, h⟩ := bind_eq_ok.mp h
    obtain ⟨reverts, hreverts, h⟩ := bind_eq_ok.mp h
    obtain ⟨e, he, -⟩ := map_eq_ok.mp h
    obtain ⟨haccount, hamount, -, hcounterparty, -⟩ := ReversalLeg.new_eq_ok.mp he
    simp only [EventType.payloadKeys, List.forall_mem_cons]
    exact ⟨scalar_textOf (haccount ▸ e.account_ok), scalar_intOf (hamount ▸ e.amount_ok),
      scalar_decodeUuid htransfer, scalar_textOf (hcounterparty ▸ e.counterparty_ok),
      scalar_decodeUuid hreverts, fun _ h => nomatch h⟩

theorem nodup_payloadKeys (type : EventType) : type.payloadKeys.1.Nodup := by
  cases type <;> decide

theorem nodup_of_decodePayload (h : decodePayload type payload = .ok event) :
    (payload.map Prod.fst).Nodup :=
  nodup_of_sameKeys (require_bind_eq_ok.mp h).1 (nodup_payloadKeys type)

/-- **A payload that decodes holds texts and amounts only.** -/
theorem scalar_of_decodePayload (h : decodePayload type payload = .ok event) :
    ∀ m ∈ payload, Scalar m.2 := by
  intro m hm
  have hsame := List.isPerm_iff.mp (require_bind_eq_ok.mp h).1
  have hkey : m.1 ∈ type.payloadKeys.1 := hsame.mem_iff.mp (List.mem_map_of_mem hm)
  obtain ⟨v, hv, hscalar⟩ := scalar_of_key h m.1 hkey
  have hlookup := Json.lookup_of_mem (nodup_of_decodePayload h) hm
  rw [hlookup] at hv
  cases hv
  exact hscalar

theorem decodePayload_perm (h : payload.Perm payload') (hkeys : (payload.map Prod.fst).Nodup) :
    decodePayload type payload = decodePayload type payload' := by
  rw [decodePayload, decodePayload, sameKeys_perm h]
  simp only [Json.lookup_perm h hkeys]

end

namespace EventEnvelope

/-! ### Writing and reading -/

def toDict (e : EventEnvelope) : Dict :=
  [("event_id", .str e.eventId.str),
    ("stream_id", .str e.streamId),
    ("stream_version", .int e.streamVersion),
    ("event_type", .str e.eventType.text),
    ("occurred_at", .str (formatUtcTimestamp e.occurredAt)),
    ("correlation_id", .str e.correlationId.str),
    ("causation_id", .str e.causationId.str),
    ("command_id", .str e.commandId.str),
    ("schema_version", .int e.schemaVersion),
    ("payload", .obj e.payload)]

def toJson (e : EventEnvelope) : String := Json.canonical (.obj e.toDict)

def required : List String :=
  ["event_id", "stream_id", "stream_version", "event_type", "occurred_at", "correlation_id",
    "causation_id", "command_id", "schema_version", "payload"]

/-- The check of the constructor that an event type is one of the nine. -/
def eventTypeOf (value : Option Json) : Except PyError EventType :=
  match EventType.ofText (textOf value) with
  | some type => .ok type
  | none => .error (.valueError
      "event_type must be Deposited, Withdrawn, TransferDebited or TransferCredited")

/-- The constructor on a document's event type, checked where the source checks it. -/
def newOf (eventId : UUID) (streamId : String) (streamVersion : Int) (eventType : Option Json)
    (occurredAt : Datetime) (correlationId causationId commandId : UUID) (schemaVersion : Int)
    (payload : Dict) : Except PyError EventEnvelope := do
  let _ ← validateAccountId streamId
  let _ ← validatePositiveVersion streamVersion "stream_version"
  let eventType ← eventTypeOf eventType
  new eventId streamId streamVersion eventType occurredAt correlationId causationId commandId
    schemaVersion payload

def invalidFields : String := "invalid event envelope fields"

def fromDict (value : Dict) : Except PyError EventEnvelope := do
  let _ ← require (sameKeys value required) (PyError.valueError invalidFields)
  match value.lookup "payload" with
  | some (.obj payload) => do
    let eventId ← decodeUuid (value.lookup "event_id") "event_id"
    let occurredAt ← parseUtcTimestamp (value.lookup "occurred_at") "occurred_at"
    let correlationId ← decodeUuid (value.lookup "correlation_id") "correlation_id"
    let causationId ← decodeUuid (value.lookup "causation_id") "causation_id"
    let commandId ← decodeUuid (value.lookup "command_id") "command_id"
    newOf eventId (textOf (value.lookup "stream_id")) (intOf (value.lookup "stream_version"))
      (value.lookup "event_type") occurredAt correlationId causationId commandId
      (intOf (value.lookup "schema_version")) payload
  | _ => .error (.valueError "payload must be a mapping")

theorem new_self (e : EventEnvelope) :
    new e.eventId e.streamId e.streamVersion e.eventType e.occurredAt e.correlationId e.causationId
      e.commandId e.schemaVersion e.payload = .ok e := by
  obtain ⟨event, hdecode, haccount⟩ := e.decodes
  simp only [new, validateAccountId_of e.stream_ok, ok_bind, validatePositiveVersion,
    require_bind_of e.stream_version_ok, require_bind_of e.schema_version_ok]
  split
  next error herror => rw [hdecode] at herror; cases herror
  next event' hevent =>
    rw [hdecode] at hevent
    cases hevent
    rw [require_bind_of haccount]
    rfl

theorem fromDict_perm {value value' : Dict} (h : value.Perm value')
    (hkeys : (value.map Prod.fst).Nodup) : fromDict value = fromDict value' := by
  rw [fromDict, fromDict, sameKeys_perm h]
  simp only [Json.lookup_perm h hkeys]

theorem nodup_payload (e : EventEnvelope) : (e.payload.map Prod.fst).Nodup := by
  obtain ⟨event, hdecode, -⟩ := e.decodes
  exact nodup_of_decodePayload hdecode

theorem scalar_payload (e : EventEnvelope) : ∀ m ∈ e.payload, Scalar m.2 := by
  obtain ⟨event, hdecode, -⟩ := e.decodes
  exact scalar_of_decodePayload hdecode

/-- The envelope with its payload in the order of the keys. -/
def sorted (e : EventEnvelope) : EventEnvelope :=
  { e with
    payload := Json.sortMembers e.payload
    decodes := by
      obtain ⟨event, hdecode, haccount⟩ := e.decodes
      refine ⟨event, ?_, haccount⟩
      rw [decodePayload_perm (Json.sortMembers_perm _).symm e.nodup_payload] at hdecode
      exact hdecode }

theorem plain_toDict (e : EventEnvelope) : Json.Plain Json.defaultLimit (.obj e.toDict) := by
  have hkeys : (e.toDict.map Prod.fst).Nodup := by
    show required.Nodup
    decide
  have hversion : ∀ {version : Int}, 1 ≤ version ∧ version ≤ maxSignedBigint →
      Json.Plain Json.defaultLimit (.int version) :=
    fun h => .int (fits_of_le ⟨by omega, h.2⟩)
  refine .obj hkeys ?_
  simp only [toDict, List.forall_mem_cons]
  exact ⟨.str _, .str _, hversion e.stream_version_ok, .str _, .str _, .str _, .str _, .str _,
    hversion e.schema_version_ok,
    .obj e.nodup_payload (fun m hm => (e.scalar_payload m hm).plain), fun _ h => nomatch h⟩

end EventEnvelope

end Cloudscale
