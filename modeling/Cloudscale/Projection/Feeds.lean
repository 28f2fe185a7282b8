import Cloudscale.Projection.Unparking

/-!
# The order of a feed does not show

A feed keeps the order of every stream, and the events of different streams come in any
order.  A hold is placed and settled on one account, and a reversal has a leg of its set before
it on its own account, so the events of a feed are in order (`inOrder_of_streams`).  What a
feed delivers again changes no read model (`hasProjected_projectionAfter`).

`sameReadModels_of_feeds` is the result: the read models of all feeds of a log have the same
rows.
-/

namespace Cloudscale

open Checked Python Tables SqliteInteger DoubleEntry Deliveries Precedence

/-! ### One account -/

section Log

variable {calls : List Call}

/-- The events on the row of a hold are on one account. -/
theorem accountId_of_heldRow {x y : AccountEvent} {holdId : String}
    (hx : x ∈ (storeAfter calls).events.map EventRow.event)
    (hy : y ∈ (storeAfter calls).events.map EventRow.event) (hxrow : x.heldRow = some holdId)
    (hyrow : y.heldRow = some holdId) : x.accountId = y.accountId := by
  obtain ⟨r, hr, rfl⟩ := mem_log hx
  obtain ⟨r', hr', rfl⟩ := mem_log hy
  obtain ⟨t, ht, rfl⟩ := heldRow_eq_some hxrow
  obtain ⟨t', ht', hstr⟩ := heldRow_eq_some hyrow
  obtain rfl := UUID.str_injective hstr
  obtain ⟨a, ha⟩ := ((ledger_storeAfter calls).coherent.shapes t).exists_account
  have hmem : ∀ {z : EventRow}, z ∈ (storeAfter calls).events → z.event.setId = some t →
      z ∈ (storeAfter calls).setOf t := fun hz hid => List.mem_filter.mpr ⟨hz, decide_eq_true hid⟩
  rw [ha r (hmem hr ht) (by rw [hxrow]; simp), ha r' (hmem hr' ht') (by rw [hyrow]; simp)]

theorem inOrder_log (calls : List Call) : InOrder ((storeAfter calls).events.map EventRow.event) :=
  (rows_perm_iff (List.Perm.refl _)).mp ⟨fun _ => rfl, fun _ => rfl⟩

structure StreamsOf (calls : List Call) (es : List AccountEvent) : Prop where
  perm : es.Perm ((storeAfter calls).events.map EventRow.event)
  streams : ∀ a, es.filter (fun e => e.accountId = a) = (storeAfter calls).eventsOf a

theorem StreamsOf.before {es : List AccountEvent} (h : StreamsOf calls es) {x y : AccountEvent}
    (hxy : Before ((storeAfter calls).events.map EventRow.event) x y)
    (haccount : x.accountId = y.accountId) : Before es x y := by
  have hstream : Before (es.filter (fun e => e.accountId = y.accountId)) x y := by
    have hfilter : (storeAfter calls).eventsOf y.accountId =
        ((storeAfter calls).events.map EventRow.event).filter
          (fun e => e.accountId = y.accountId) := by
      rw [List.filter_map]
      rfl
    rw [h.streams, hfilter]
    exact before_filter_iff.mpr ⟨hxy, by simpa using haccount, by simp⟩
  exact (before_filter_iff.mp hstream).1

/-- **Events with the streams of the log are in order.** -/
theorem inOrder_of_streams {es : List AccountEvent} (h : StreamsOf calls es) : InOrder es := by
  refine ⟨fun x hx holdId hsettles => ?_, fun z hz t hmark => ?_⟩
  · have hx' := h.perm.mem_iff.mp hx
    obtain ⟨p, hplaces, hbefore⟩ := (inOrder_log calls).holds x hx' holdId hsettles
    exact ⟨p, hplaces, h.before hbefore (accountId_of_heldRow hbefore.mem_left hx'
      (heldRow_of_places hplaces) (heldRow_of_settles hsettles))⟩
  · obtain ⟨effect, heffect, hmark'⟩ := id hmark
    obtain ⟨r, hr, rfl⟩ := mem_log (h.perm.mem_iff.mp hz)
    obtain ⟨-, -, hreverts, -⟩ := transferEffect_fields heffect
    rw [TransferRowEffect.marksReverted, hreverts] at hmark'
    obtain ⟨v, hv, rfl⟩ := Option.map_eq_some_iff.mp hmark'
    obtain ⟨x, haccount, hid, hleg, hbefore⟩ := reversedOn_storeAfter calls r hr v hv
    obtain ⟨effect', heffect'⟩ := exists_transferEffect hleg
    obtain ⟨-, ⟨u, hu, hstr⟩, -, -⟩ := transferEffect_fields heffect'
    rw [hid, Option.some.injEq] at hu
    exact ⟨x.event, r.event, h.before (before_map_iff.mpr ⟨x, r, hbefore, rfl, rfl⟩) haccount,
      ⟨effect', heffect', by rw [hstr, ← hu]⟩, hmark⟩

end Log

/-! ### First deliveries -/

section Feeds

variable {V : Type} {tier : Tier V} {ds : List Delivery}

def eventsOf (ds : List Delivery) : List AccountEvent :=
  (firsts Delivery.eventId ds).map fun d => d.row.event

/-- The stores have projected the events of these deliveries. -/
structure HasProjected (fs : List Delivery)
    (s : ProjectionStore SqliteNumber × ProjectionStore Int) : Prop extends Tracks fs s where
  sqlite : projectAll sqliteTier .empty (fs.map fun d => d.row.event) = .ok s.1.readModels
  postgres : projectAll postgresTier .empty (fs.map fun d => d.row.event) = .ok s.2.readModels

theorem projectAll_deliver {fs : List Delivery} {p : ProjectionStore V} {d : Delivery}
    (h : projectAll tier .empty (fs.map fun d => d.row.event) = .ok p.readModels)
    (happlies : Applies tier p d) :
    projectAll tier .empty ((fs ++ [d]).map fun d => d.row.event) =
      .ok (deliver tier p d).readModels := by
  obtain ⟨hnew, models, hmodels⟩ := apply_stored_eq_true happlies
  rw [List.map_append, List.map_singleton, projectAll_concat, h, ok_bind, deliver, Delivery.event,
    apply_stored_new hnew hmodels]
  exact hmodels

/-- **A feed is projected by its first deliveries.** -/
theorem hasProjected_projectionAfter
    (h : ∀ fs, fs <+: firsts Delivery.eventId ds → ∀ a, InBounds (eventsOn fs a)) :
    HasProjected (firsts Delivery.eventId ds)
      (projectionAfter sqliteTier ds, projectionAfter postgresTier ds) := by
  have hnew : ∀ fs s d, HasProjected fs s → d.eventId ∉ fs.map Delivery.eventId →
      (∀ a, InBounds (eventsOn (fs ++ [d]) a)) → HasProjected (fs ++ [d]) (deliverBoth s d) := by
    intro fs s d hs hd hbounds
    obtain ⟨p, q, hp, hq, -⟩ := hs.toTracks.apply_new hd (hbounds d.row.event.accountId)
    exact ⟨hs.toTracks.deliver_new hd (hbounds _), projectAll_deliver hs.sqlite (congrArg Prod.fst hp),
      projectAll_deliver hs.postgres (congrArg Prod.fst hq)⟩
  have hold : ∀ fs s d, HasProjected fs s → d.eventId ∈ fs.map Delivery.eventId →
      HasProjected fs (deliverBoth s d) := by
    intro fs s d hs hd
    obtain ⟨hsqlite, hpostgres⟩ := hs.toTracks.apply_repeated hd
    refine ⟨hs.toTracks.deliver_repeated hd, ?_, ?_⟩
    · show _ = Except.ok (s.1.apply sqliteTier d.event).2.readModels
      rw [hsqlite]
      exact hs.sqlite
    · show _ = Except.ok (s.2.apply postgresTier d.event).2.readModels
      rw [hpostgres]
      exact hs.postgres
  have hrun := run_firsts hnew hold ⟨tracks_empty, rfl, rfl⟩ h
  rw [run_deliverBoth] at hrun
  exact hrun

end Feeds

/-! ### Feeds of a log -/

section Log

variable {calls : List Call} {ds ds' : List Delivery}

/-- **The first deliveries are the rows of the log.** -/
theorem AtLeastOnce.streamsOf (h : AtLeastOnce (storeAfter calls).events ds) :
    StreamsOf calls (eventsOf ds) := by
  have hmap : eventsOf ds = ((firsts Delivery.eventId ds).map Delivery.row).map EventRow.event := by
    rw [eventsOf, List.map_map]
    rfl
  have hnodup : ((storeAfter calls).events.map EventRow.eventId).Nodup :=
    (unclashed_storeAfter calls).nodup_eventIds
  have hfirsts : (((firsts Delivery.eventId ds).map Delivery.row).map EventRow.eventId).Nodup := by
    rw [List.map_map]
    exact nodup_firsts ds
  rw [hmap]
  refine ⟨List.Perm.map _ ?_, fun a => ?_⟩
  · rw [List.perm_ext_iff_of_nodup hfirsts.of_map hnodup.of_map]
    intro r
    have hstream := h.ordered r.event.accountId
    have hmem : ∀ rows : List EventRow, r ∈ rows ↔
        r ∈ rows.filter (fun x => x.event.accountId = r.event.accountId) := fun rows => by
      simp
    rw [hmem, hstream, ← hmem]
  · rw [List.filter_map, Store.eventsOf, Store.streamOf, ← h.ordered a]
    rfl

/-- **The read models of two feeds of a log** have the same rows. -/
theorem sameReadModels_of_feeds (h : AtLeastOnce (storeAfter calls).events ds)
    (h' : AtLeastOnce (storeAfter calls).events ds') {V : Type} {tier : Tier V} {n : Arithmetic V}
    (hadds : tier.Adds n) {models models' : ReadModels V}
    (hmodels : projectAll tier .empty (eventsOf ds) = .ok models)
    (hmodels' : projectAll tier .empty (eventsOf ds') = .ok models') :
    SameReadModels models models' := by
  replace hmodels := projected_of_ok hadds hmodels
  replace hmodels' := projected_of_ok hadds hmodels'
  have hstreams := h.streamsOf
  have hstreams' := h'.streamsOf
  obtain ⟨hholds, htransfers⟩ := (rows_perm_iff hstreams.perm).mpr (inOrder_of_streams hstreams)
  obtain ⟨hholds', htransfers'⟩ := (rows_perm_iff hstreams'.perm).mpr (inOrder_of_streams hstreams')
  refine ⟨fun a => ?_, fun holdId => ?_, fun t => ?_, fun key => ?_⟩
  · rw [hmodels.balances, hmodels'.balances, hstreams.streams, hstreams'.streams]
  · rw [hmodels.holds, hmodels'.holds, hholds, hholds']
  · rw [hmodels.transfers, hmodels'.transfers, htransfers, htransfers']
  · rw [hmodels.transferLegs, hmodels'.transferLegs, onLeg_perm hstreams.perm,
      onLeg_perm hstreams'.perm]

end Log

end Cloudscale
