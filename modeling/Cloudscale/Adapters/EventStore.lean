import Cloudscale.Adapters.CommandUnitOfWork

/-!
# The consumer feed

A row of the log as the feed hands it to a consumer: a dictionary with the
columns that are not NULL, and the position of the row under `id`.
-/

namespace Cloudscale

/-- A row of `events` as it is stored, whatever wrote it. -/
structure StoredEvent where
  id : Int
  eventId : String
  stream : String
  seq : Int
  type : String
  schemaVersion : Int
  accountId : Option String
  amount : Option Int
  fields : RowFields

namespace StoredEvent

/-- The columns of the row, `none` for NULL, and the `id` that the feed adds. -/
def columns (e : StoredEvent) : List (String × Option Json) :=
  [("event_id", some (.str e.eventId)), ("stream", some (.str e.stream)),
    ("seq", some (.int e.seq)), ("type", some (.str e.type)),
    ("schema_version", some (.int e.schemaVersion)), ("account_id", e.accountId.map Json.str),
    ("amount", e.amount.map Json.int), ("transfer_id", e.fields.transferId.map Json.str),
    ("counterparty", e.fields.counterparty.map Json.str),
    ("expires_at", e.fields.expiresAt.map Json.str),
    ("release_reason", e.fields.releaseReason.map Json.str),
    ("reverts", e.fields.reverts.map Json.str), ("id", some (.int e.id))]

/-- `_row_to_event`: the columns that are not NULL. -/
def dict (e : StoredEvent) : Dict := e.columns.filterMap fun c => c.2.map (c.1, ·)

theorem lookup_dict (e : StoredEvent) (k : String) : e.dict.lookup k = (e.columns.lookup k).join := by
  have hkeys : (e.columns.map Prod.fst).Nodup := by
    simp [columns]
  rw [dict]
  generalize e.columns = columns at hkeys ⊢
  induction columns with
  | nil => rfl
  | cons c columns ih =>
    obtain ⟨key, value⟩ := c
    rw [List.map_cons, List.nodup_cons] at hkeys
    rw [Tables.lookup_cons_ite]
    cases value with
    | some value =>
      have hcons : ((key, some value) :: columns).filterMap (fun c => c.2.map (c.1, ·)) =
          (key, value) :: columns.filterMap (fun c => c.2.map (c.1, ·)) := rfl
      rw [hcons, Tables.lookup_cons_ite, ih hkeys.2]
      split <;> rfl
    | none =>
      have hcons : ((key, none) :: columns).filterMap (fun c => c.2.map (c.1, ·)) =
          columns.filterMap (fun c => c.2.map (c.1, ·)) := rfl
      rw [hcons, ih hkeys.2]
      split
      next hk =>
        rw [hk, List.lookup_eq_none_iff.mpr fun c hc => ?_]
        · rfl
        · rw [bne_iff_ne]
          exact fun heq => hkeys.1 (heq ▸ List.mem_map_of_mem hc)
      next => rfl

end StoredEvent

/-- The row at a position of the feed. -/
def EventRow.stored (r : EventRow) (id : Int) : StoredEvent where
  id := id
  eventId := r.eventId.str
  stream := r.stream
  seq := r.seq
  type := r.event.type.text
  schemaVersion := r.schemaVersion
  accountId := some r.event.accountId
  amount := some r.event.amount
  fields := r.fields

end Cloudscale
