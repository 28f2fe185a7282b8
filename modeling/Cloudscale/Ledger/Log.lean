import Cloudscale.Adapters.CommandUnitOfWork
import Cloudscale.Domain.Decisions
import Cloudscale.Lib.Streams

/-!
# The log and its readers

The log restricted to a stream (`Store.streamOf`) and to a set (`Store.setOf`),
and what the reads of a unit of work make of it.

A store is `Readable` when its rows are of the current shapes, every stream is
numbered from one on in the order of its rows, and every stream folds.  Then a
read of rows sees the events that were written: `Store.foldStream_eq`,
`Store.openHold_eq`, `Store.legsOf_eq` and `Store.revertedBy_eq_none`.
-/

namespace Cloudscale

open Checked Python DoubleEntry Streams

namespace AccountEvent

/-- The id of the set or of the hold that the event belongs to. -/
def setId : AccountEvent → Option UUID
  | deposited _ | withdrawn _ => none
  | transferDebited e | transferCredited e => some e.transferId
  | holdPlaced e => some e.holdId
  | holdReleased e => some e.holdId
  | holdPosted e => some e.holdId
  | reversalDebited e | reversalCredited e => some e.transferId

def reverts : AccountEvent → Option UUID
  | reversalDebited e | reversalCredited e => some e.reverts
  | _ => none

theorem fields_transferId (e : AccountEvent) :
    (eventRowFields e).transferId = e.setId.map UUID.str := by
  cases e <;> rfl

theorem fields_reverts (e : AccountEvent) : (eventRowFields e).reverts = e.reverts.map UUID.str := by
  cases e <;> rfl

theorem setId_isSome_of_reverts {e : AccountEvent} {t : UUID} (h : e.reverts = some t) :
    ∃ u, e.setId = some u := by
  cases e with
  | reversalDebited v => exact ⟨_, rfl⟩
  | reversalCredited v => exact ⟨_, rfl⟩
  | deposited | withdrawn | transferDebited | transferCredited | holdPlaced | holdReleased
  | holdPosted => cases h

end AccountEvent

theorem map_str_eq_some {id : Option UUID} {t : UUID} :
    id.map UUID.str = some t.str ↔ id = some t := by
  rw [show some t.str = (some t).map UUID.str from rfl]
  exact (Option.map_injective UUID.str_injective).eq_iff

theorem streamName_injective : Function.Injective streamName := by
  intro a b h
  rw [streamName, streamName, ← String.toList_inj, String.toList_append, String.toList_append] at h
  exact String.toList_inj.mp (List.append_cancel_left h)

namespace EventRow

theorem stream_eq_iff (r : EventRow) (a : String) :
    r.stream = streamName a ↔ r.event.accountId = a :=
  streamName_injective.eq_iff

theorem transferId_eq_iff (r : EventRow) (t : UUID) :
    r.fields.transferId = some t.str ↔ r.event.setId = some t := by
  rw [fields, AccountEvent.fields_transferId, map_str_eq_some]

theorem reverts_eq_iff (r : EventRow) (t : UUID) :
    r.fields.reverts = some t.str ↔ r.event.reverts = some t := by
  rw [fields, AccountEvent.fields_reverts, map_str_eq_some]

end EventRow

namespace Store

def streamOf (s : Store) (a : String) : List EventRow :=
  s.events.filter (fun r => r.event.accountId = a)

def eventsOf (s : Store) (a : String) : List AccountEvent := (s.streamOf a).map EventRow.event

/-- The rows of a set or of a hold. -/
def setOf (s : Store) (t : UUID) : List EventRow :=
  s.events.filter (fun r => r.event.setId = some t)

theorem streamOf_sublist (s : Store) (a : String) : (s.streamOf a).Sublist s.events :=
  List.filter_sublist

theorem setOf_sublist (s : Store) (t : UUID) : (s.setOf t).Sublist s.events :=
  List.filter_sublist

def account (s : Store) (a : String) : AccountState :=
  match Account.fold (s.eventsOf a) with
  | .ok state => state
  | .error _ => .unknown

def holdEvents (s : Store) (a : String) (t : UUID) : List Account.HoldEvent :=
  (((s.setOf t).filter (fun r => r.event.accountId = a)).map EventRow.event).filterMap
    Account.holdEvent?

/-- What the reads of a unit of work rest on. -/
structure Readable (s : Store) : Prop where
  current : ∀ r ∈ s.events, r.schemaVersion = currentSchemaVersion r.event.type
  numbered : ∀ a, (s.streamOf a).map (fun r => (r.event, r.seq)) = numberFrom 0 (s.eventsOf a)
  folds : ∀ a, ∃ state, Account.fold (s.eventsOf a) = .ok state

theorem readable_empty : Readable .empty :=
  ⟨(fun _ h => nomatch h), fun _ => rfl, fun _ => ⟨_, rfl⟩⟩

/-- **The rows of a stream are numbered from one on.** -/
theorem map_seq {s : Store} {a : String}
    (h : (s.streamOf a).map (fun r => (r.event, r.seq)) = numberFrom 0 (s.eventsOf a)) :
    (s.streamOf a).map EventRow.seq = consecutive 0 (s.streamOf a).length := by
  have hmap := congrArg (List.map Prod.snd) h
  rw [List.map_map, map_snd_numberFrom, eventsOf, List.length_map] at hmap
  exact hmap

section Readable

variable {s : Store} (h : s.Readable)

include h

/-! ### Streams -/

theorem fold_eventsOf (a : String) : Account.fold (s.eventsOf a) = .ok (s.account a) := by
  obtain ⟨state, hfold⟩ := h.folds a
  rw [account, hfold]

omit h in
theorem accountId_of_mem_eventsOf {a : String} :
    ∀ e ∈ s.eventsOf a, e.accountId = a := by
  intro e he
  obtain ⟨r, hr, rfl⟩ := List.mem_map.mp he
  simpa using (List.mem_filter.mp hr).2

omit h in
theorem moved_eventsOf (delta : AccountEvent → Int) (a : String) :
    moved delta (s.eventsOf a) =
      posted (fun r => r.event.accountId) (fun r => delta r.event) s.events a := by
  rw [moved, eventsOf, List.map_map, posted]
  rfl

theorem account_matches (a : String) : (s.account a).Matches a :=
  Account.foldFrom_matches (Account.unknown_matches a) (accountId_of_mem_eventsOf)
    (fold_eventsOf h a)

/-- **The balance of an account is what the log posts to it.** -/
theorem account_balance (a : String) : (s.account a).balance =
    posted (fun r => r.event.accountId) (fun r => r.event.balanceDelta) s.events a := by
  have hfields := (Account.foldFrom_fields (fold_eventsOf h a)).1
  rw [hfields, moved_eventsOf AccountEvent.balanceDelta]
  exact zero_add _

/-- **What an account holds is what the log reserves on it.** -/
theorem account_held (a : String) : (s.account a).held =
    posted (fun r => r.event.accountId) (fun r => r.event.heldDelta) s.events a := by
  have hfields := (Account.foldFrom_fields (fold_eventsOf h a)).2.1
  rw [hfields, moved_eventsOf AccountEvent.heldDelta]
  exact zero_add _

theorem account_version (a : String) : (s.account a).version = (s.streamOf a).length := by
  have hfields := (Account.foldFrom_fields (fold_eventsOf h a)).2.2
  rw [hfields, eventsOf, List.length_map]
  exact zero_add _

theorem pairwise_seq (a : String) : (s.streamOf a).Pairwise (fun r r' => r.seq < r'.seq) := by
  have hpair : (numberFrom 0 (s.eventsOf a)).Pairwise (fun p q => p.2 < q.2) :=
    pairwise_numberFrom
  rw [← h.numbered a, List.pairwise_map] at hpair
  exact hpair

theorem seq_of_mem {r : EventRow} {a : String} (hr : r ∈ s.streamOf a) :
    1 ≤ r.seq ∧ r.seq ≤ (s.account a).version := by
  have hmem : (r.event, r.seq) ∈ numberFrom 0 (s.eventsOf a) := by
    rw [← h.numbered a]
    exact List.mem_map_of_mem (f := fun r => (r.event, r.seq)) hr
  obtain ⟨hlt, hle⟩ := lt_of_mem_numberFrom hmem
  rw [account_version h]
  rw [eventsOf, List.length_map] at hle
  simp only at hlt hle
  omega

/-! ### Reads -/

omit h in
theorem decodeRows_of_current {rows : List EventRow}
    (hrows : ∀ r ∈ rows, r.schemaVersion = currentSchemaVersion r.event.type) :
    decodeRows rows = .ok (rows.map EventRow.event) := by
  refine mapM_of_forall fun r hr => ?_
  rw [EventRow.dict, hrows r hr]
  exact decodeRow_rowDict r.event

theorem decodeRows_of_sublist {rows : List EventRow} (hrows : rows.Sublist s.events) :
    decodeRows rows = .ok (rows.map EventRow.event) :=
  decodeRows_of_current fun r hr => h.current r (hrows.subset hr)

/-- A part of a stream is read in the order of its rows. -/
theorem bySeq_of_sublist {a : String} {rows : List EventRow}
    (hrows : rows.Sublist (s.streamOf a)) : bySeq rows = rows :=
  List.Pairwise.insertionSort_eq
    ((pairwise_seq h a).sublist hrows |>.imp (fun hlt => hlt.le))

theorem foldStream_eq (a : String) : s.foldStream a = .ok (s.account a) := by
  have hfilter : s.events.filter (fun r => r.stream = streamName a) = s.streamOf a :=
    List.filter_congr fun r _ => by simp only [r.stream_eq_iff]
  rw [foldStream, hfilter, bySeq_of_sublist h (List.Sublist.refl _),
    decodeRows_of_sublist h (streamOf_sublist s a), ok_bind]
  exact fold_eventsOf h a

omit h in
theorem filterMap_holdEvent_filter (rows : List EventRow) :
    ((rows.filter (fun r => r.event.type ∈ holdTypes)).map EventRow.event).filterMap
      Account.holdEvent? = (rows.map EventRow.event).filterMap Account.holdEvent? := by
  rw [List.filterMap_map, List.filterMap_map, List.filterMap_filter]
  refine List.filterMap_congr fun r _ => ?_
  cases he : r.event <;> simp [AccountEvent.type, holdTypes, Account.holdEvent?, he]

/-- **The open hold is read off the hold's own events.** -/
theorem openHold_eq (a : String) (t : UUID) :
    s.openHold a t = .ok (Account.openHoldFromEvents t (s.holdEvents a t)) := by
  have hfilter : s.events.filter (fun r => r.stream = streamName a ∧
      r.fields.transferId = some t.str ∧ r.event.type ∈ holdTypes) =
      ((s.setOf t).filter (fun r => r.event.accountId = a)).filter
        (fun r => r.event.type ∈ holdTypes) := by
    rw [setOf, List.filter_filter, List.filter_filter]
    refine List.filter_congr fun r _ => ?_
    simp only [r.stream_eq_iff, r.transferId_eq_iff, ← Bool.decide_and]
    exact decide_eq_decide.mpr ⟨fun ⟨h₁, h₂, h₃⟩ => ⟨⟨h₃, h₁⟩, h₂⟩,
      fun ⟨⟨h₃, h₁⟩, h₂⟩ => ⟨h₁, h₂, h₃⟩⟩
  have hsub : (((s.setOf t).filter (fun r => r.event.accountId = a)).filter
      (fun r => r.event.type ∈ holdTypes)).Sublist (s.streamOf a) := by
    rw [← hfilter, streamOf]
    refine List.monotone_filter_right s.events fun r hr => ?_
    simp only [decide_eq_true_eq, r.stream_eq_iff] at hr ⊢
    exact hr.1
  rw [openHold, hfilter, bySeq_of_sublist h hsub,
    decodeRows_of_sublist h (hsub.trans List.filter_sublist), ok_bind, pure_eq_ok,
    filterMap_holdEvent_filter]
  rfl

theorem legsOf_eq (t : UUID) : s.legsOf t = .ok ((s.setOf t).map EventRow.event) := by
  have hfilter : s.events.filter (fun r => r.fields.transferId = some t.str) = s.setOf t :=
    List.filter_congr fun r _ => by simp only [r.transferId_eq_iff]
  rw [legsOf, hfilter, decodeRows_of_sublist h (setOf_sublist s t)]

omit h in
/-- The reversal of a set is always found, or there is none. -/
theorem revertedBy_eq (t : UUID) : s.revertedBy t =
    .ok ((s.events.find? (fun r => r.event.reverts = some t)).bind (·.event.setId)) := by
  have hfilter : s.events.filter (fun r => r.fields.reverts = some t.str) =
      s.events.filter (fun r => r.event.reverts = some t) :=
    List.filter_congr fun r _ => by simp only [r.reverts_eq_iff]
  rw [revertedBy, hfilter, List.head?_filter]
  cases hrow : s.events.find? (fun r => r.event.reverts = some t) with
  | none => rfl
  | some r =>
    obtain ⟨u, hu⟩ := AccountEvent.setId_isSome_of_reverts (by simpa using List.find?_some hrow)
    have hcolumn : r.fields.transferId = some u.str := (r.transferId_eq_iff u).mpr hu
    show some <$> legacyUuid (some (column r.fields.transferId)) "transfer_id" = .ok r.event.setId
    rw [hcolumn, hu]
    simp only [column, legacyUuid, UUID.ofText_str]
    rfl

omit h in
theorem revertedBy_eq_none {t : UUID} :
    s.revertedBy t = .ok none ↔ ∀ r ∈ s.events, r.event.reverts ≠ some t := by
  rw [revertedBy_eq, Except.ok.injEq]
  constructor
  · intro hnone r hr hreverts
    cases hrow : s.events.find? (fun r => r.event.reverts = some t) with
    | none => exact List.find?_eq_none.mp hrow r hr (by simpa using hreverts)
    | some r' =>
      obtain ⟨u, hu⟩ := AccountEvent.setId_isSome_of_reverts (by simpa using List.find?_some hrow)
      rw [hrow, Option.bind_some, hu] at hnone
      cases hnone
  · intro hall
    rw [List.find?_eq_none.mpr fun r hr => by simpa using hall r hr]
    rfl

end Readable

end Store

end Cloudscale
