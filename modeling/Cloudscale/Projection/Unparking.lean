import Cloudscale.Projection.Parking
import Cloudscale.Projection.Reordering

/-!
# Redriving what was parked

The consumer has gone through the log and parked some of its events, and all of them
are redriven.  The events have then taken effect in another order than that of the
log: first those that were applied, and then those that were parked, in the order of
their redrives (`effectiveOrder`).

`parking_invisible_iff` says when this shows in the read models.
-/

namespace Cloudscale

open Checked Python Tables SqliteInteger DoubleEntry

structure SameReadModels {V : Type} (p q : ReadModels V) : Prop where
  balances : p.balances.SameRows q.balances
  holds : p.holds.SameRows q.holds
  transfers : p.transfers.SameRows q.transfers
  transferLegs : p.transferLegs.SameRows q.transferLegs

section Redriving

variable {V : Type} {tier : Tier V}

/-- The store after the redrive of a parked event, at a time. -/
def redriveParked (tier : Tier V) (p : DeadLetterStore V) (r : Consumed × Datetime) :
    DeadLetterStore V := (p.redrive tier r.1.eventId.str r.2).2

/-- The redrive answers that it has applied the event. -/
def RedriveApplies (tier : Tier V) (p : DeadLetterStore V) (r : Consumed × Datetime) : Prop :=
  (p.redrive tier r.1.eventId.str r.2).1 = .applied

instance (tier : Tier V) (p : DeadLetterStore V) (r : Consumed × Datetime) :
    Decidable (RedriveApplies tier p r) := inferInstanceAs (Decidable (_ = _))

def redrivenBy (tier : Tier V) (cs : List Consumed) (order : List (Consumed × Datetime)) :
    DeadLetterStore V :=
  Runs.run (redriveParked tier) (consumedBy tier cs) order

/-- All that was parked is redriven with success, in an order. -/
structure RedrivesAll (tier : Tier V) (cs : List Consumed) (order : List (Consumed × Datetime)) :
    Prop where
  parked : (order.map Prod.fst).Perm (cs.filter (fun c => c.fault.isSome))
  along : Runs.Along (redriveParked tier) (RedriveApplies tier) (consumedBy tier cs) order

/-- The events in the order in which they took effect. -/
def effectiveOrder (cs : List Consumed) (order : List (Consumed × Datetime)) : List AccountEvent :=
  appliedOf cs ++ order.map fun r => r.1.event

/-- A redrive that applies a letter of the log executes its event and deletes it. -/
theorem redrive_stored {p : DeadLetterStore V} {r : EventRow} {id : Int} {eventId : String}
    {letter : DeadLetter} {now : Datetime} (hletter : p.deadLetters.find eventId = some letter)
    (hpayload : letter.payload = (r.stored id).dict)
    (happlied : (p.redrive tier eventId now).1 = .applied) :
    ∃ models, r.event.effect.execute tier p.readModels = .ok models ∧
      (p.redrive tier eventId now).2 =
        { p with readModels := models, deadLetters := p.deadLetters.erase eventId } := by
  have htransaction : DeadLetterStore.redriveTransaction tier eventId letter p =
      (r.event.effect.execute tier p.readModels >>= fun models =>
        .ok { p with readModels := models, deadLetters := p.deadLetters.erase eventId }) := by
    rw [DeadLetterStore.redriveTransaction, hpayload, adaptLegacyEvent_stored, ok_bind,
      applyToBalance_of (projectionEffect_stored r id)]
    rfl
  rw [DeadLetterStore.redrive, hletter] at happlied ⊢
  simp only [htransaction] at happlied ⊢
  cases hmodels : r.event.effect.execute tier p.readModels with
  | error e =>
    rw [hmodels] at happlied
    cases happlied
  | ok models => exact ⟨models, rfl, rfl⟩

/-- **Redrives project what they apply.** -/
theorem projectAll_redrives : ∀ {order : List (Consumed × Datetime)} {p : DeadLetterStore V}
    {es : List AccountEvent}, projectAll tier .empty es = .ok p.readModels →
    (order.map fun r => r.1.eventId).Nodup →
    (∀ r ∈ order, ∃ letter, p.deadLetters.find r.1.eventId.str = some letter ∧
      letter.payload = r.1.delivery.event) →
    Runs.Along (redriveParked tier) (RedriveApplies tier) p order →
    projectAll tier .empty (es ++ order.map fun r => r.1.event) =
      .ok (Runs.run (redriveParked tier) p order).readModels := by
  intro order
  induction order with
  | nil =>
    intro p es hes _ _ _
    rw [List.map_nil, List.append_nil]
    exact hes
  | cons r order ih =>
    rintro p es hes hnodup hletters ⟨happlies, halong⟩
    rw [List.map_cons, List.nodup_cons] at hnodup
    obtain ⟨letter, hfind, hpayload⟩ := hletters r List.mem_cons_self
    obtain ⟨models, hmodels, hstore⟩ := redrive_stored hfind hpayload happlies
    have hnext : redriveParked tier p r = { p with
        readModels := models
        deadLetters := p.deadLetters.erase r.1.eventId.str } := hstore
    rw [List.map_cons, List.append_cons, Runs.run_cons]
    refine ih ?_ hnodup.2 (fun r' hr' => ?_) halong
    · rw [projectAll_concat, hes, ok_bind, hnext]
      exact hmodels
    · obtain ⟨letter', hfind', hpayload'⟩ := hletters r' (List.mem_cons_of_mem r hr')
      refine ⟨letter', ?_, hpayload'⟩
      have hne : r'.1.eventId.str ≠ r.1.eventId.str := fun heq =>
        hnodup.1 (UUID.str_injective heq ▸ List.mem_map_of_mem (f := fun r => r.1.eventId) hr')
      rw [hnext, Table.find_erase]
      exact (if_neg hne).trans hfind'

/-- **After all redrives the read models project the effective order.** -/
theorem projectAll_redrivenBy {cs : List Consumed} {order : List (Consumed × Datetime)}
    (hnodup : (cs.map Consumed.eventId).Nodup) (happlies : AppliesRest tier cs)
    (hredrives : RedrivesAll tier cs order) :
    projectAll tier .empty (effectiveOrder cs order) = .ok (redrivenBy tier cs order).readModels := by
  have hconsuming := consuming_consumedBy hnodup happlies
  refine projectAll_redrives hconsuming.projected ?_ (fun r hr => ?_) hredrives.along
  · have hmap : (order.map fun r => r.1.eventId) = (order.map Prod.fst).map Consumed.eventId := by
      rw [List.map_map]
      rfl
    rw [hmap, (hredrives.parked.map _).nodup_iff]
    exact hnodup.sublist (List.filter_sublist.map _)
  · have hmem := hredrives.parked.mem_iff.mp (List.mem_map_of_mem hr)
    exact hconsuming.parked r.1 (List.mem_of_mem_filter hmem) (List.mem_filter.mp hmem).2

theorem effectiveOrder_perm {cs : List Consumed} {order : List (Consumed × Datetime)}
    (h : (order.map Prod.fst).Perm (cs.filter (fun c => c.fault.isSome))) :
    (effectiveOrder cs order).Perm ((rowsOf cs).map EventRow.event) := by
  have horder : (order.map fun r => r.1.event) = (order.map Prod.fst).map Consumed.event := by
    rw [List.map_map]
    rfl
  have hrows : (rowsOf cs).map EventRow.event = cs.map Consumed.event := by
    rw [rowsOf, List.map_map]
    rfl
  rw [effectiveOrder, horder, hrows, appliedOf]
  refine ((h.map _).append_left _).trans ?_
  rw [← List.map_append]
  refine List.Perm.map _ ?_
  have hsplit := List.filter_append_perm (fun c : Consumed => c.fault.isNone) cs
  have hnot : cs.filter (fun c => !c.fault.isNone) = cs.filter (fun c => c.fault.isSome) :=
    List.filter_congr fun c _ => by cases c.fault <;> rfl
  rwa [hnot] at hsplit

end Redriving

/-! ### The log with nothing parked -/

section Reference

variable {V : Type} {tier : Tier V} {calls : List Call} {ds : List Delivery}

def Applies (tier : Tier V) (p : ProjectionStore V) (d : Delivery) : Prop :=
  (p.apply tier d.event).1 = .ok true

theorem projectAll_projectionAfter : ∀ {ds : List Delivery},
    Runs.Along (deliver tier) (Applies tier) .empty ds →
    projectAll tier .empty (ds.map fun d => d.row.event) =
      .ok (projectionAfter tier ds).readModels := by
  intro ds
  induction ds using List.reverseRecOn with
  | nil => exact fun _ => rfl
  | append_singleton ds d ih =>
    intro halong
    obtain ⟨hbefore, happlies, -⟩ := Runs.along_append.mp halong
    obtain ⟨hnew, models, hmodels⟩ := apply_stored_eq_true happlies
    have hnext : (projectionAfter tier (ds ++ [d])).readModels = models := by
      rw [projectionAfter, Runs.run_concat, deliver, Delivery.event, apply_stored_new hnew hmodels]
    rw [List.map_append, List.map_singleton, projectAll_concat, ih hbefore, ok_bind, hnext]
    exact hmodels

/-- Both tiers apply every delivery of new ids, as long as the streams stay in bounds. -/
theorem applies_of_bounds (hnodup : (ds.map Delivery.eventId).Nodup)
    (hbounds : ∀ fs, fs <+: ds → ∀ a, InBounds (eventsOn fs a)) :
    Runs.Along (deliver sqliteTier) (Applies sqliteTier) .empty ds ∧
      Runs.Along (deliver postgresTier) (Applies postgresTier) .empty ds := by
  induction ds using List.reverseRecOn with
  | nil => exact ⟨trivial, trivial⟩
  | append_singleton ds d ih =>
    rw [List.map_append, List.map_singleton, List.nodup_append] at hnodup
    obtain ⟨hnodup, -, hdisjoint⟩ := hnodup
    have hstart : ∀ fs, fs <+: ds → fs <+: ds ++ [d] := fun fs hfs =>
      hfs.trans (List.prefix_append _ _)
    obtain ⟨hsqlite, hpostgres⟩ := ih hnodup fun fs hfs => hbounds fs (hstart fs hfs)
    have hfirsts : Deliveries.firsts Delivery.eventId ds = ds := Deliveries.firsts_of_nodup hnodup
    have htracks := @tracks_projectionAfter ds fun fs hfs =>
      hbounds fs (hstart fs (hfirsts ▸ hfs))
    rw [hfirsts] at htracks
    obtain ⟨p, q, hp, hq, -⟩ := htracks.apply_new
      (fun hd => hdisjoint _ hd _ (List.mem_singleton.mpr rfl) rfl) (hbounds _ List.prefix_rfl _)
    refine ⟨Runs.along_append.mpr ⟨hsqlite, ?_, trivial⟩,
      Runs.along_append.mpr ⟨hpostgres, ?_, trivial⟩⟩
    · exact congrArg Prod.fst hp
    · exact congrArg Prod.fst hq

/-- **Both tiers apply every event of the log in its order.** -/
theorem applies_log (h : ds.map Delivery.row = (storeAfter calls).events) :
    Runs.Along (deliver sqliteTier) (Applies sqliteTier) .empty ds ∧
      Runs.Along (deliver postgresTier) (Applies postgresTier) .empty ds := by
  have hreadable := (ledger_storeAfter calls).coherent.readable
  refine applies_of_bounds ?_ fun fs hfs a => ?_
  · have hids : ds.map Delivery.eventId = (ds.map Delivery.row).map EventRow.eventId := by
      rw [List.map_map]
      rfl
    rw [hids, h]
    exact (unclashed_storeAfter calls).nodup_eventIds
  · have hsub : eventsOn fs a <+: (storeAfter calls).eventsOf a := by
      rw [Store.eventsOf, Store.streamOf, ← h, eventsOn_eq]
      exact ((hfs.map Delivery.row).filter _).map EventRow.event
    exact inBounds_of_start hsub (Store.fold_eventsOf hreadable a)

theorem sqlite_sums_stream (calls : List Call) (a : String) : ∀ es : List AccountEvent,
    es <+: (storeAfter calls).eventsOf a →
    sqliteArithmetic.sum (es.map AccountEvent.balanceDelta) =
        .integer (moved AccountEvent.balanceDelta es) ∧
      sqliteArithmetic.sum (es.map AccountEvent.heldDelta) =
        .integer (moved AccountEvent.heldDelta es) := by
  have hreadable := (ledger_storeAfter calls).coherent.readable
  intro es
  induction es using List.reverseRecOn with
  | nil => exact fun _ => ⟨rfl, rfl⟩
  | append_singleton es e ih =>
    intro h
    obtain ⟨hbalance, hheld⟩ := ih ((List.prefix_append _ _).trans h)
    have hbounds := inBounds_of_start h (Store.fold_eventsOf hreadable a)
    have hsum : ∀ delta : AccountEvent → Int, moved delta (es ++ [e]) = moved delta es + delta e :=
      fun delta => by rw [moved_append, moved_cons, moved_nil, add_zero]
    have hbalance' := inRange_of_nonneg hbounds.balance.1 hbounds.balance.2
    have hheld' := inRange_of_nonneg hbounds.held.1 (hbounds.held.2.trans hbounds.balance.2)
    rw [hsum] at hbalance' hheld'
    constructor
    · rw [List.map_append, List.map_singleton, Arithmetic.sum_concat, hbalance, sqlite_add,
        SqliteNumber.add_integer hbalance', hsum]
    · rw [List.map_append, List.map_singleton, Arithmetic.sum_concat, hheld, sqlite_add,
        SqliteNumber.add_integer hheld', hsum]

end Reference

/-! ### When parking does not show -/

section Parking

variable {calls : List Call} {cs : List Consumed} {order : List (Consumed × Datetime)}

/-- SQLite adds the amounts on every account, in this order, without leaving its integers. -/
def AddsIntegers (es : List AccountEvent) : Prop :=
  ∀ a, sqliteArithmetic.sum ((es.filter (fun e => e.accountId = a)).map AccountEvent.balanceDelta) =
      .integer (moved AccountEvent.balanceDelta (es.filter (fun e => e.accountId = a))) ∧
    sqliteArithmetic.sum ((es.filter (fun e => e.accountId = a)).map AccountEvent.heldDelta) =
      .integer (moved AccountEvent.heldDelta (es.filter (fun e => e.accountId = a)))

/-- **Redrives restore the log exactly when the sums agree and the rows are in order.** -/
theorem sameReadModels_iff {V : Type} {tier : Tier V} {n : Arithmetic V} (hadds : tier.Adds n)
    (hrows : rowsOf cs = (storeAfter calls).events) (happlies : AppliesRest tier cs)
    (hredrives : RedrivesAll tier cs order)
    (hlog : Runs.Along (deliver tier) (Applies tier) .empty (cs.map Consumed.delivery)) :
    SameReadModels (redrivenBy tier cs order).readModels
        (projectionAfter tier (cs.map Consumed.delivery)).readModels ↔
      (∀ a, sumRow? n ((effectiveOrder cs order).filter (fun e => e.accountId = a)) =
        sumRow? n ((storeAfter calls).eventsOf a)) ∧ InOrder (effectiveOrder cs order) := by
  have hnodup : (cs.map Consumed.eventId).Nodup := nodup_rowsOf ⟨[], by rw [List.append_nil, hrows]⟩
  have hevents : ((cs.map Consumed.delivery).map fun d => d.row.event) =
      (storeAfter calls).events.map EventRow.event := by
    rw [← hrows, rowsOf, List.map_map, List.map_map]
    rfl
  have hperm := effectiveOrder_perm hredrives.parked
  rw [hrows] at hperm
  have hredriven := projected_of_ok hadds (projectAll_redrivenBy hnodup happlies hredrives)
  have hreference := projectAll_projectionAfter hlog
  rw [hevents] at hreference
  replace hreference := projected_of_ok hadds hreference
  have hstream : ∀ a, ((storeAfter calls).events.map EventRow.event).filter
      (fun e => e.accountId = a) = (storeAfter calls).eventsOf a := fun a => by
    rw [List.filter_map]
    rfl
  rw [← rows_perm_iff hperm]
  constructor
  · intro h
    refine ⟨fun a => ?_, fun holdId => ?_, fun t => ?_⟩
    · rw [← hredriven.balances, h.balances, hreference.balances, hstream]
    · rw [← hredriven.holds, h.holds, hreference.holds]
    · rw [← hredriven.transfers, h.transfers, hreference.transfers]
  · rintro ⟨hbalances, hholds, htransfers⟩
    refine ⟨fun a => ?_, fun holdId => ?_, fun t => ?_, fun key => ?_⟩
    · rw [hredriven.balances, hbalances, hreference.balances, hstream]
    · rw [hredriven.holds, hholds, hreference.holds]
    · rw [hredriven.transfers, htransfers, hreference.transfers]
    · rw [hredriven.transferLegs, onLeg_perm hperm, hreference.transferLegs]

theorem postgres_sumRow_perm {es fs : List AccountEvent} (h : es.Perm fs) :
    sumRow? postgresArithmetic es = sumRow? postgresArithmetic fs := by
  have hrow : sumRow postgresArithmetic es = sumRow postgresArithmetic fs := by
    simp only [sumRow, postgres_sum]
    rw [(h.map _).sum_eq, (h.map AccountEvent.heldDelta).sum_eq, (h.map fun _ => (1 : Int)).sum_eq]
  rw [sumRow?, sumRow?, hrow]
  by_cases hnil : es = []
  · rw [if_pos hnil, if_pos (List.nil_perm.mp (hnil ▸ h))]
  · rw [if_neg hnil, if_neg fun hfs : fs = [] => hnil (List.perm_nil.mp (hfs ▸ h))]

/-- SQLite adds to the row of the stream exactly when it adds integers. -/
theorem sqlite_sumRow_perm {es : List AccountEvent} {a : String}
    (h : es.Perm ((storeAfter calls).eventsOf a)) :
    sumRow? sqliteArithmetic es = sumRow? sqliteArithmetic ((storeAfter calls).eventsOf a) ↔
      sqliteArithmetic.sum (es.map AccountEvent.balanceDelta) =
          .integer (moved AccountEvent.balanceDelta es) ∧
        sqliteArithmetic.sum (es.map AccountEvent.heldDelta) =
          .integer (moved AccountEvent.heldDelta es) := by
  obtain ⟨hbalance, hheld⟩ := sqlite_sums_stream calls a _ List.prefix_rfl
  rw [moved_perm h, moved_perm h, ← hbalance, ← hheld]
  have hcount : (es.map fun _ => (1 : Int)) =
      ((storeAfter calls).eventsOf a).map fun _ => (1 : Int) := by
    rw [List.map_const', List.map_const', h.length_eq]
  by_cases hnil : es = []
  · have hstream : (storeAfter calls).eventsOf a = [] := List.nil_perm.mp (hnil ▸ h)
    rw [hnil, hstream]
    exact iff_of_true rfl ⟨rfl, rfl⟩
  · have hstream : (storeAfter calls).eventsOf a ≠ [] :=
      fun hstream => hnil (List.perm_nil.mp (hstream ▸ h))
    rw [sumRow?, if_neg hnil, sumRow?, if_neg hstream, Option.some.injEq, sumRow, sumRow,
      BalanceRow.mk.injEq, hcount]
    simp only [and_true]

/-- **Parking does not show in the read models exactly when the events have taken effect
in order**: every settlement of a hold after its placement, and of every reversal some
leg after a leg of the set that it reverts. On SQLite the amounts on every account must
also have been added as integers. -/
theorem parking_invisible_iff (calls : List Call) (cs : List Consumed)
    (order : List (Consumed × Datetime)) (hrows : rowsOf cs = (storeAfter calls).events) :
    (RedrivesAll sqliteTier cs order →
      (SameReadModels (redrivenBy sqliteTier cs order).readModels
          (projectionAfter sqliteTier (cs.map Consumed.delivery)).readModels ↔
        AddsIntegers (effectiveOrder cs order) ∧ InOrder (effectiveOrder cs order))) ∧
    (AppliesRest postgresTier cs → RedrivesAll postgresTier cs order →
      (SameReadModels (redrivenBy postgresTier cs order).readModels
          (projectionAfter postgresTier (cs.map Consumed.delivery)).readModels ↔
        InOrder (effectiveOrder cs order))) := by
  have hdeliveries : (cs.map Consumed.delivery).map Delivery.row = (storeAfter calls).events := by
    rw [← hrows, rowsOf, List.map_map]
    rfl
  obtain ⟨hsqlite, hpostgres⟩ := applies_log hdeliveries
  have hperm : (order.map Prod.fst).Perm (cs.filter (fun c => c.fault.isSome)) →
      ∀ a, ((effectiveOrder cs order).filter (fun e => e.accountId = a)).Perm
        ((storeAfter calls).eventsOf a) := by
    intro hparked a
    have hfilter := (effectiveOrder_perm hparked).filter (fun e => e.accountId = a)
    rw [hrows, List.filter_map] at hfilter
    exact hfilter
  constructor
  · intro hredrives
    rw [sameReadModels_iff sqlite_adds hrows
      (sqlite_appliesRest (nodup_rowsOf ⟨[], by rw [List.append_nil, hrows]⟩)) hredrives hsqlite]
    refine and_congr_left fun _ => forall_congr' fun a => ?_
    exact sqlite_sumRow_perm (hperm hredrives.parked a)
  · intro happlies hredrives
    rw [sameReadModels_iff postgres_adds hrows happlies hredrives hpostgres]
    exact and_iff_right fun a => postgres_sumRow_perm (hperm hredrives.parked a)

def placementRedriven : List (Consumed × Datetime) :=
  (placementParked.filter (fun c => c.fault.isSome)).map fun c => (c, .epoch)

theorem redrivesAll_placement : RedrivesAll sqliteTier placementParked placementRedriven ∧
    RedrivesAll postgresTier placementParked placementRedriven := by
  have hparked : placementRedriven.map Prod.fst =
      placementParked.filter (fun c => c.fault.isSome) := by
    rw [placementRedriven, List.map_map]
    exact List.map_id _
  exact ⟨⟨List.Perm.of_eq hparked, by decide +kernel⟩, ⟨List.Perm.of_eq hparked, by decide +kernel⟩⟩

theorem parking_invisible_iff_placement :
    (SameReadModels (redrivenBy sqliteTier placementParked placementRedriven).readModels
        (projectionAfter sqliteTier (placementParked.map Consumed.delivery)).readModels ↔
      AddsIntegers (effectiveOrder placementParked placementRedriven) ∧
        InOrder (effectiveOrder placementParked placementRedriven)) ∧
    (SameReadModels (redrivenBy postgresTier placementParked placementRedriven).readModels
        (projectionAfter postgresTier (placementParked.map Consumed.delivery)).readModels ↔
      InOrder (effectiveOrder placementParked placementRedriven)) := by
  obtain ⟨hsqlite, hpostgres⟩ := parking_invisible_iff voidedHold placementParked placementRedriven
    rowsOf_placementParked
  obtain ⟨hredrives, hredrives'⟩ := redrivesAll_placement
  exact ⟨hsqlite hredrives, hpostgres appliesRest_placementParked hredrives'⟩

/-- The state of a hold in the read models. -/
def ReadModels.holdState {V : Type} (models : ReadModels V) (holdId : UUID) : Option String :=
  (models.holds.find holdId.str).map HoldRow.state

/-- **A hold that was voided is open again** once its parked placement is redriven, on
either tier. -/
theorem voided_hold_reopened :
    rowsOf placementParked = (storeAfter voidedHold).events ∧
      RedrivesAll sqliteTier placementParked placementRedriven ∧
      RedrivesAll postgresTier placementParked placementRedriven ∧
      AppliesRest postgresTier placementParked ∧
      (redrivenBy sqliteTier placementParked placementRedriven).readModels.holdState ⟨2⟩ =
        some "open" ∧
      (projectionAfter sqliteTier (placementParked.map Consumed.delivery)).readModels.holdState ⟨2⟩ =
        some "voided" ∧
      (redrivenBy postgresTier placementParked placementRedriven).readModels.holdState ⟨2⟩ =
        some "open" ∧
      (projectionAfter postgresTier (placementParked.map Consumed.delivery)).readModels.holdState
        ⟨2⟩ = some "voided" := by
  refine ⟨rowsOf_placementParked, redrivesAll_placement.1, redrivesAll_placement.2,
    appliesRest_placementParked, ?_, ?_, ?_, ?_⟩
  · decide +kernel
  · decide +kernel
  · decide +kernel
  · decide +kernel

end Parking

end Cloudscale
