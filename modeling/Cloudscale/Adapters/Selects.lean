import Cloudscale.Adapters.Postgres.Database

/-!
# The columns that are read back

The nine event types share the nullable columns of `events`, and each SELECT of the unit
of work names the columns that it returns.  `EventRow.columns` is a row as it is inserted,
`Selects` are the column lists of the four SELECTs whose rows are decoded, on either tier,
and `EventRow.select` is what one of them returns.

A list that names the columns which an event fills gives the event back
(`decodeRow_select`); the list of the hold events leaves out `reverts`, which no hold
event fills.  So every read of the log sees the events that were appended
(`readRows_of_current`), and a fold of what is read is the fold of those events.
-/

namespace Cloudscale

open Checked Python

/-! ### Rows -/

/-- The names of the columns that an event fills, with the stamp of its version. -/
def filledColumns (event : AccountEvent) : List String :=
  let fields := eventRowFields event
  ["type", "account_id", "amount", "schema_version"] ++
    [("transfer_id", fields.transferId), ("counterparty", fields.counterparty),
      ("expires_at", fields.expiresAt), ("release_reason", fields.releaseReason),
      ("reverts", fields.reverts)].filterMap (fun p => p.2.map (fun _ => p.1))

namespace EventRow

/-- The row that `append_event` inserts. -/
def columns (r : EventRow) : Dict :=
  [("event_id", .str r.eventId.str), ("stream", .str r.stream), ("seq", .int r.seq),
    ("type", .str r.event.type.text), ("account_id", .str r.event.accountId),
    ("amount", .int r.event.amount), ("schema_version", .int r.schemaVersion),
    ("transfer_id", column r.fields.transferId), ("counterparty", column r.fields.counterparty),
    ("expires_at", column r.fields.expiresAt), ("release_reason", column r.fields.releaseReason),
    ("reverts", column r.fields.reverts)]

/-- `SELECT names FROM events`, on one row. -/
def select (names : List String) (r : EventRow) : Dict :=
  names.filterMap (fun name => (r.columns.lookup name).map (fun value => (name, value)))

theorem lookup_select (r : EventRow) (name : String) : ∀ names : List String,
    (r.select names).lookup name = if name ∈ names then r.columns.lookup name else none := by
  intro names
  induction names with
  | nil => rfl
  | cons n names ih =>
    have hcons : r.select (n :: names) =
        ((r.columns.lookup n).map fun value => (n, value)).toList ++ r.select names := by
      rw [select, List.filterMap_cons]
      cases r.columns.lookup n <;> rfl
    by_cases hn : name = n
    · subst hn
      rw [if_pos List.mem_cons_self, hcons]
      cases hvalue : r.columns.lookup name with
      | none =>
        rw [Option.map_none, Option.toList_none, List.nil_append, ih, hvalue]
        exact ite_self _
      | some value => exact List.lookup_cons_self
    · have hmem : name ∈ n :: names ↔ name ∈ names := by
        rw [List.mem_cons, or_iff_right hn]
      rw [hcons, if_congr hmem rfl rfl, ← ih]
      cases r.columns.lookup n with
      | none => rfl
      | some value => exact (Tables.lookup_cons_ite name (n, value) _).trans (if_neg hn)

variable {r : EventRow} {names : List String}

/-- A SELECT that names the columns of an event returns them. -/
theorem hasColumns_select (h : ∀ name ∈ filledColumns r.event, name ∈ names) :
    HasColumns (r.select names) r.event := by
  have hfixed : ∀ name ∈ ["type", "account_id", "amount", "schema_version"],
      (r.select names).lookup name = r.columns.lookup name := by
    intro name hname
    rw [lookup_select, if_pos (h name (List.mem_append_left _ hname))]
  have hnullable : ∀ p ∈ [("transfer_id", r.fields.transferId),
      ("counterparty", r.fields.counterparty), ("expires_at", r.fields.expiresAt),
      ("release_reason", r.fields.releaseReason), ("reverts", r.fields.reverts)],
      ∀ text ∈ p.2, (r.select names).lookup p.1 = r.columns.lookup p.1 := by
    intro p hp text htext
    have hfilled : p.1 ∈ filledColumns r.event := by
      refine List.mem_append_right _ (List.mem_filterMap.mpr ⟨p, hp, ?_⟩)
      rw [Option.mem_def.mp htext]
      rfl
    rw [lookup_select, if_pos (h _ hfilled)]
  refine ⟨(hfixed _ (by decide)).trans rfl, (hfixed _ (by decide)).trans rfl,
    (hfixed _ (by decide)).trans rfl, fun text htext => ?_, fun text htext => ?_,
    fun text htext => ?_, fun text htext => ?_, fun text htext => ?_⟩
  · exact (hnullable (_, r.fields.transferId) (by simp) text htext).trans
      (congrArg (some ∘ column) htext)
  · exact (hnullable (_, r.fields.counterparty) (by simp) text htext).trans
      (congrArg (some ∘ column) htext)
  · exact (hnullable (_, r.fields.expiresAt) (by simp) text htext).trans
      (congrArg (some ∘ column) htext)
  · exact (hnullable (_, r.fields.releaseReason) (by simp) text htext).trans
      (congrArg (some ∘ column) htext)
  · exact (hnullable (_, r.fields.reverts) (by simp) text htext).trans
      (congrArg (some ∘ column) htext)

/-- **A SELECT that names the columns of an event gives the event back.** -/
theorem decodeRow_select (h : ∀ name ∈ filledColumns r.event, name ∈ names)
    (hversion : r.schemaVersion = currentSchemaVersion r.event.type) :
    decodeRow (r.select names) = .ok r.event := by
  have hstamp : "schema_version" ∈ filledColumns r.event :=
    List.mem_append_left _ (by decide)
  refine decodeRow_of (hasColumns_select h) ?_
  rw [lookup_select, if_pos (h _ hstamp), ← hversion]
  rfl

end EventRow

/-! ### The SELECTs -/

inductive StorageTier
  | sqlite
  | postgres

/-- The columns of the SELECTs whose rows are decoded. -/
structure Selects where
  fromSeq : List String
  all : List String
  hold : List String
  legs : List String

/-- `_SELECT_FROM_SEQ`, `_SELECT_ALL`, `_SELECT_HOLD` and `_SELECT_LEGS` of each tier. -/
def StorageTier.selects : StorageTier → Selects
  | .sqlite => {
      fromSeq := ["seq", "event_id", "type", "account_id", "amount", "transfer_id", "counterparty",
        "expires_at", "release_reason", "reverts", "schema_version"]
      all := ["seq", "event_id", "type", "account_id", "amount", "transfer_id", "counterparty",
        "expires_at", "release_reason", "reverts", "schema_version"]
      hold := ["type", "account_id", "amount", "transfer_id", "counterparty", "expires_at",
        "release_reason", "schema_version"]
      legs := ["type", "account_id", "amount", "transfer_id", "counterparty", "expires_at",
        "release_reason", "reverts", "schema_version"] }
  | .postgres => {
      fromSeq := ["seq", "event_id", "type", "account_id", "amount", "transfer_id", "counterparty",
        "expires_at", "release_reason", "reverts", "schema_version"]
      all := ["seq", "event_id", "type", "account_id", "amount", "transfer_id", "counterparty",
        "expires_at", "release_reason", "reverts", "schema_version"]
      hold := ["type", "account_id", "amount", "transfer_id", "counterparty", "expires_at",
        "release_reason", "schema_version"]
      legs := ["type", "account_id", "amount", "transfer_id", "counterparty", "expires_at",
        "release_reason", "reverts", "schema_version"] }

namespace StorageTier

variable (tier : StorageTier)

theorem filled_mem_legs (event : AccountEvent) :
    ∀ name ∈ filledColumns event, name ∈ tier.selects.legs := by
  cases tier <;> cases event <;>
    simp [filledColumns, eventRowFields, selects]

theorem filled_mem_all (event : AccountEvent) :
    ∀ name ∈ filledColumns event, name ∈ tier.selects.all := by
  cases tier <;> cases event <;>
    simp [filledColumns, eventRowFields, selects]

theorem filled_mem_fromSeq (event : AccountEvent) :
    ∀ name ∈ filledColumns event, name ∈ tier.selects.fromSeq := by
  cases tier <;> cases event <;>
    simp [filledColumns, eventRowFields, selects]

theorem filled_mem_hold {event : AccountEvent} (h : event.type ∈ Store.holdTypes) :
    ∀ name ∈ filledColumns event, name ∈ tier.selects.hold := by
  cases tier <;> cases event <;>
    simp [AccountEvent.type, Store.holdTypes, filledColumns, eventRowFields, selects] at h ⊢

/-! ### Reads -/

/-- The events that the rows of a SELECT decode to. -/
def readRows (names : List String) (rows : List EventRow) : Except PyError (List AccountEvent) :=
  rows.mapM (fun r => decodeRow (r.select names))

def streamRows (rows : List EventRow) (accountId : String) : List EventRow :=
  Store.bySeq (rows.filter (fun r => r.stream = streamName accountId))

def holdRows (rows : List EventRow) (accountId : String) (holdId : UUID) : List EventRow :=
  Store.bySeq (rows.filter (fun r => r.stream = streamName accountId ∧
    r.fields.transferId = some holdId.str ∧ r.event.type ∈ Store.holdTypes))

/-- The rows of a stream from a position on, in order. -/
def rowsFrom (rows : List EventRow) (accountId : String) (seq : Int) : List EventRow :=
  Store.bySeq (rows.filter (fun r => r.stream = streamName accountId ∧ seq ≤ r.seq))

/-- What follows the anchor of a snapshot in a stream. -/
def tailRows (rows : List EventRow) (accountId : String) (seq : Int) : List EventRow :=
  (rowsFrom rows accountId seq).drop 1

/-- The rows of a set, across streams. -/
def legRows (rows : List EventRow) (transferId : UUID) : List EventRow :=
  rows.filter (fun r => r.fields.transferId = some transferId.str)

/-- The row was written by `append_event` with the envelope of its event. -/
def Appended (r : EventRow) : Prop :=
  ∃ eventId streamVersion occurredAt correlationId causationId commandId envelope,
    EventEnvelope.fromDomainEvent r.event eventId streamVersion occurredAt correlationId causationId
      commandId = .ok envelope ∧ r = EventRow.ofEnvelope envelope r.event

theorem Appended.current {r : EventRow} (h : Appended r) :
    r.schemaVersion = currentSchemaVersion r.event.type := by
  obtain ⟨eventId, streamVersion, occurredAt, correlationId, causationId, commandId, envelope,
    henvelope, hrow⟩ := h
  rw [hrow]
  exact (EventEnvelope.fromDomainEvent_wraps henvelope).schemaVersion

section

variable {names : List String} {rows : List EventRow} (hrows : ∀ r ∈ rows, Appended r)

include hrows

/-- **A SELECT that names the columns of its rows reads the events that were appended.** -/
theorem readRows_of_appended
    (h : ∀ r ∈ rows, ∀ name ∈ filledColumns r.event, name ∈ names) :
    readRows names rows = .ok (rows.map EventRow.event) :=
  mapM_of_forall fun r hr => EventRow.decodeRow_select (h r hr) (hrows r hr).current

/-- The reads of the unit of work go through all columns, and see the same. -/
theorem decodeRows_of_appended : Store.decodeRows rows = .ok (rows.map EventRow.event) := by
  refine mapM_of_forall fun r hr => ?_
  rw [EventRow.dict, (hrows r hr).current]
  exact decodeRow_rowDict r.event

omit hrows in
theorem mem_of_mem_bySeq {r : EventRow} {p : EventRow → Bool}
    (hr : r ∈ Store.bySeq (rows.filter p)) : r ∈ rows ∧ p r = true :=
  List.mem_filter.mp ((List.perm_insertionSort _ _).mem_iff.mp hr)

theorem readStream (accountId : String) :
    readRows tier.selects.all (streamRows rows accountId) =
      .ok ((streamRows rows accountId).map EventRow.event) :=
  readRows_of_appended (fun r hr => hrows r (mem_of_mem_bySeq hr).1)
    (fun r _ => tier.filled_mem_all r.event)

theorem readTail (accountId : String) (seq : Int) :
    readRows tier.selects.fromSeq (tailRows rows accountId seq) =
      .ok ((tailRows rows accountId seq).map EventRow.event) :=
  readRows_of_appended (fun r hr => hrows r (mem_of_mem_bySeq (List.mem_of_mem_drop hr)).1)
    (fun r _ => tier.filled_mem_fromSeq r.event)

theorem readHold (accountId : String) (holdId : UUID) :
    readRows tier.selects.hold (holdRows rows accountId holdId) =
      .ok ((holdRows rows accountId holdId).map EventRow.event) := by
  refine readRows_of_appended (fun r hr => hrows r (mem_of_mem_bySeq hr).1) (fun r hr => ?_)
  have hhold := (mem_of_mem_bySeq hr).2
  rw [decide_eq_true_eq] at hhold
  exact tier.filled_mem_hold hhold.2.2

theorem readLegs (transferId : UUID) :
    readRows tier.selects.legs (legRows rows transferId) =
      .ok ((legRows rows transferId).map EventRow.event) :=
  readRows_of_appended (fun r hr => hrows r (List.mem_filter.mp hr).1)
    (fun r _ => tier.filled_mem_legs r.event)

end

/-- **Stored rows decode to the events that were appended.**  On either tier each SELECT gives
back the event of a row that it can return, and with it the fold of a stream is the fold
of its events; a domain event survives its legacy dictionary, and the gate of the
projections changes nothing the second time. -/
theorem rows_decode :
    (∀ (event : AccountEvent) (eventId : UUID) (streamVersion : Int) (occurredAt : Datetime)
      (correlationId causationId commandId : UUID) (envelope : EventEnvelope),
      EventEnvelope.fromDomainEvent event eventId streamVersion occurredAt correlationId causationId
        commandId = .ok envelope →
      let row := EventRow.ofEnvelope envelope event
      decodeRow (row.select tier.selects.all) = .ok event ∧
        decodeRow (row.select tier.selects.fromSeq) = .ok event ∧
        decodeRow (row.select tier.selects.legs) = .ok event ∧
        (event.type ∈ Store.holdTypes → decodeRow (row.select tier.selects.hold) = .ok event)) ∧
    (∀ (event : AccountEvent) (metadata : Dict),
      legacyEventToDomain (domainEventToLegacy event metadata) = .ok event) ∧
    (∀ event adapted : Dict, adaptLegacyEvent event = .ok adapted →
      adaptLegacyEvent adapted = .ok adapted) ∧
    ∀ rows : List EventRow, (∀ r ∈ rows, Appended r) → ∀ accountId : String,
      (readRows tier.selects.all (streamRows rows accountId) >>= Account.fold) =
        Account.fold ((streamRows rows accountId).map EventRow.event) ∧
      (∀ results, Store.foldStream ⟨rows, results⟩ accountId =
        Account.fold ((streamRows rows accountId).map EventRow.event)) ∧
      Postgres.foldStream rows accountId =
        Account.fold ((streamRows rows accountId).map EventRow.event) := by
  refine ⟨?_, fun event metadata => legacyEventToDomain_of (hasColumns_domainEventToLegacy _ _),
    fun event adapted h => adaptLegacyEvent_idem h, ?_⟩
  · intro event eventId streamVersion occurredAt correlationId causationId commandId envelope h row
    have hversion : row.schemaVersion = currentSchemaVersion row.event.type :=
      (EventEnvelope.fromDomainEvent_wraps h).schemaVersion
    exact ⟨EventRow.decodeRow_select (tier.filled_mem_all event) hversion,
      EventRow.decodeRow_select (tier.filled_mem_fromSeq event) hversion,
      EventRow.decodeRow_select (tier.filled_mem_legs event) hversion,
      fun hhold => EventRow.decodeRow_select (tier.filled_mem_hold hhold) hversion⟩
  · intro rows hrows accountId
    have hstream : ∀ r ∈ streamRows rows accountId, Appended r :=
      fun r hr => hrows r (mem_of_mem_bySeq hr).1
    have hreads : (Store.decodeRows (streamRows rows accountId) >>= Account.fold) =
        Account.fold ((streamRows rows accountId).map EventRow.event) := by
      rw [decodeRows_of_appended hstream, ok_bind]
    refine ⟨?_, fun results => hreads, hreads⟩
    rw [readStream tier hrows, ok_bind]

/-- A hold released in part and a deposit, on the PostgreSQL tier. -/
theorem rows_decode_released :
    let event : AccountEvent :=
      .holdReleased ⟨"alice", 5, ⟨7⟩, .partialCapture, by decide, by decide⟩
    let deposit : Dict :=
      [("type", .str "Deposited"), ("account_id", .str "alice"), ("amount", .int 5)]
    ∃ row : EventRow, decodeRow (row.select postgres.selects.hold) = .ok event ∧
      adaptLegacyEvent deposit = .ok deposit ∧
      (readRows postgres.selects.all (streamRows [row] "alice") >>= Account.fold) =
        Account.fold ((streamRows [row] "alice").map EventRow.event) := by
  intro event deposit
  let occurredAt : Datetime := ⟨2026, 9, 19, 0, 0, 0, 0, by decide, by decide⟩
  obtain ⟨envelope, henvelope⟩ : ∃ envelope, EventEnvelope.fromDomainEvent event ⟨1⟩ 1 occurredAt
      ⟨2⟩ ⟨3⟩ ⟨4⟩ = .ok envelope := EventEnvelope.fromDomainEvent_of (by decide)
  have happended : Appended (EventRow.ofEnvelope envelope event) :=
    ⟨_, _, _, _, _, _, envelope, henvelope, rfl⟩
  have hhold := (postgres.rows_decode.1 event ⟨1⟩ 1 occurredAt ⟨2⟩ ⟨3⟩ ⟨4⟩ envelope henvelope).2.2.2
  exact ⟨EventRow.ofEnvelope envelope event, hhold (by decide),
    postgres.rows_decode.2.2.1 deposit deposit rfl,
    (postgres.rows_decode.2.2.2 [_] (List.forall_mem_singleton.mpr happended) "alice").1⟩

end StorageTier

end Cloudscale
