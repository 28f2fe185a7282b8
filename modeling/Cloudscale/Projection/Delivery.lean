import Cloudscale.Ledger.Retention
import Cloudscale.Lib.Deliveries
import Cloudscale.Projection.Effects

/-!
# The projection of an at-least-once feed

A feed delivers every row of the log once or more, and the first deliveries keep
the order of each stream (`AtLeastOnce`).  Then both projection stores end with
the folds of the streams as balances, and with the same rows (`balances_are_folds`).

The two stores run in lockstep: as long as PostgreSQL accepts the sums, SQLite
stores the same ones as integers (`SameModels.execute`).  The sums are those of a
prefix of a stream, which folds, so they are in range (`Tracks.deliver_new`).
-/

namespace Cloudscale

open Checked Python Tables DoubleEntry Deliveries SqliteInteger

structure Delivery where
  row : EventRow
  logId : Int

namespace Delivery

def eventId (d : Delivery) : UUID := d.row.eventId

def event (d : Delivery) : Dict := (d.row.stored d.logId).dict

end Delivery

def deliver {V : Type} (tier : Tier V) (p : ProjectionStore V) (d : Delivery) : ProjectionStore V :=
  (p.apply tier d.event).2

def projectionAfter {V : Type} (tier : Tier V) (ds : List Delivery) : ProjectionStore V :=
  Runs.run (deliver tier) .empty ds

/-- Rows of the log, every one at least once, in the order of its stream at first. -/
structure AtLeastOnce (log : List EventRow) (ds : List Delivery) : Prop where
  logged : ∀ d ∈ ds, d.row ∈ log
  ordered : ∀ a, ((firsts Delivery.eventId ds).map Delivery.row).filter
    (fun r => r.event.accountId = a) = log.filter (fun r => r.event.accountId = a)

/-! ### One delivery -/

section Applying

variable {V : Type} {tier : Tier V} {p : ProjectionStore V} {r : EventRow} {id : Int}

theorem applyTransaction_stored :
    ProjectionStore.applyTransaction tier (domainEventToLegacy r.event (r.stored id).dict) p =
      (p.claim r.eventId.str >>= fun p => r.event.effect.execute tier p.readModels >>= fun models =>
        .ok ({ p with readModels := models }.advanceOffset id)) := by
  have heventId : (r.stored id).dict.lookup "event_id" = some (.str r.eventId.str) := by
    rw [StoredEvent.lookup_dict]
    rfl
  have hid : (r.stored id).dict.lookup "id" = some (.int id) := by
    simp only [StoredEvent.lookup_dict, StoredEvent.columns, Tables.lookup_cons_ite, String.reduceEq,
      if_true, if_false, Option.join_some]
    rfl
  simp only [ProjectionStore.applyTransaction, lookup_adapted, heventId, hid, textOf, intOf,
    applyToBalance_of (projectionEffect_stored r id), pure_eq_ok]

theorem apply_stored : p.apply tier (r.stored id).dict =
    p.settle id (ProjectionStore.applyTransaction tier
      (domainEventToLegacy r.event (r.stored id).dict) p) := by
  have heventId : (r.stored id).dict.lookup "event_id" = some (.str r.eventId.str) := by
    rw [StoredEvent.lookup_dict]
    rfl
  have hid : (r.stored id).dict.lookup "id" = some (.int id) := by
    simp only [StoredEvent.lookup_dict, StoredEvent.columns, Tables.lookup_cons_ite, String.reduceEq,
      if_true, if_false, Option.join_some]
    rfl
  rw [ProjectionStore.apply, adaptLegacyEvent_stored]
  simp only [ProjectionStore.applyAdapted, lookup_adapted, heventId, hid, textOf, intOf,
    if_neg r.eventId.str_ne_empty]

/-- **A claimed id changes the offset alone.** -/
theorem apply_stored_processed (h : (p.processedEvents.find r.eventId.str).isSome) :
    p.apply tier (r.stored id).dict = (.ok false, p.advanceOffset id) := by
  rw [apply_stored, applyTransaction_stored, ProjectionStore.claim, if_pos h]
  rfl

/-- **A new id has the effect of its event.** -/
theorem apply_stored_new (h : ¬ (p.processedEvents.find r.eventId.str).isSome)
    {models : ReadModels V} (hmodels : r.event.effect.execute tier p.readModels = .ok models) :
    p.apply tier (r.stored id).dict =
      (.ok true, ⟨models, p.processedEvents.put r.eventId.str (), max p.lastId id⟩) := by
  rw [apply_stored, applyTransaction_stored, ProjectionStore.claim, if_neg h, ok_bind, hmodels]
  rfl

end Applying

/-! ### The two tiers in lockstep -/

/-- The row with its numbers as integers of SQLite. -/
def BalanceRow.sqlite (row : BalanceRow Int) : BalanceRow SqliteNumber :=
  ⟨.integer row.balance, .integer row.held, .integer row.version⟩

structure SameModels (p : ReadModels SqliteNumber) (q : ReadModels Int) : Prop where
  balances : ∀ a, p.balances.find a = (q.balances.find a).map BalanceRow.sqlite
  holds : p.holds = q.holds
  transfers : p.transfers = q.transfers
  transferLegs : p.transferLegs = q.transferLegs

theorem sameModels_empty : SameModels .empty .empty := ⟨fun _ => rfl, rfl, rfl, rfl⟩

theorem bigint_eq_ok {n m : Int} : bigint n = .ok m ↔ InRange n ∧ m = n := by
  rw [bigint]
  split
  next h => simp [h, eq_comm]
  next h => simp [h]

section Lockstep

variable {p : ReadModels SqliteNumber} {q : ReadModels Int}

theorem postgres_updateBalance {balances balances' : Table String (BalanceRow Int)} {a : String}
    {delta heldDelta : Int}
    (h : postgresTier.updateBalance balances a delta heldDelta = .ok balances') :
    ∃ row, row = (balances.find a).getD ⟨0, 0, 0⟩ ∧ InRange (row.balance + delta) ∧
      InRange (row.held + heldDelta) ∧ InRange (row.version + 1) ∧
      balances' = balances.put a ⟨row.balance + delta, row.held + heldDelta, row.version + 1⟩ := by
  rw [postgresTier] at h
  cases hrow : balances.find a with
  | none =>
    simp only [hrow, bind_eq_ok, bigint_eq_ok, pure_eq_ok, Except.ok.injEq] at h
    obtain ⟨_, ⟨hbalance, rfl⟩, _, ⟨hheld, rfl⟩, rfl⟩ := h
    refine ⟨_, rfl, ?_, ?_, ?_, ?_⟩
    · simpa using hbalance
    · simpa using hheld
    · decide
    · simp
  | some row =>
    simp only [hrow, bind_eq_ok, bigint_eq_ok, pure_eq_ok, Except.ok.injEq] at h
    obtain ⟨_, ⟨hbalance, rfl⟩, _, ⟨hheld, rfl⟩, _, ⟨hversion, rfl⟩, rfl⟩ := h
    exact ⟨_, rfl, hbalance, hheld, hversion, rfl⟩

theorem postgres_updateBalance_of {balances : Table String (BalanceRow Int)} {a : String}
    {delta heldDelta : Int} {row : BalanceRow Int} (hrow : row = (balances.find a).getD ⟨0, 0, 0⟩)
    (hbalance : InRange (row.balance + delta)) (hheld : InRange (row.held + heldDelta))
    (hversion : InRange (row.version + 1)) :
    postgresTier.updateBalance balances a delta heldDelta =
      .ok (balances.put a ⟨row.balance + delta, row.held + heldDelta, row.version + 1⟩) := by
  subst hrow
  rw [postgresTier]
  cases hrow : balances.find a with
  | none =>
    rw [hrow] at hbalance hheld
    simp only [hrow, Option.getD_none, zero_add] at hbalance hheld ⊢
    rw [bigint, if_pos hbalance, bigint, if_pos hheld]
    rfl
  | some row =>
    rw [hrow] at hbalance hheld hversion
    simp only [hrow, Option.getD_some] at hbalance hheld hversion ⊢
    rw [bigint, if_pos hbalance, bigint, if_pos hheld, bigint, if_pos hversion]
    rfl

theorem sqlite_updateBalance {balances : Table String (BalanceRow SqliteNumber)} {a : String}
    {delta heldDelta : Int} {row : BalanceRow Int}
    (hrow : (balances.find a).getD ⟨.integer 0, .integer 0, .integer 0⟩ = row.sqlite)
    (hbalance : InRange (row.balance + delta)) (hheld : InRange (row.held + heldDelta))
    (hversion : InRange (row.version + 1)) :
    ∃ balances', sqliteTier.updateBalance balances a delta heldDelta = .ok balances' ∧
      ∀ l, balances'.find l = if l = a then
        some (BalanceRow.sqlite ⟨row.balance + delta, row.held + heldDelta, row.version + 1⟩)
        else balances.find l := by
  refine ⟨_, rfl, fun l => ?_⟩
  rw [Table.find_modify, Table.find_putNew, Table.find_putNew, if_pos rfl, hrow, Option.map_some]
  split
  next hl =>
    rw [BalanceRow.sqlite, SqliteNumber.add_integer hbalance, SqliteNumber.add_integer hheld,
      SqliteNumber.add_integer hversion]
    rfl
  next => rfl

/-- **What PostgreSQL accepts, SQLite stores as well.** -/
theorem SameModels.execute {effect : ProjectionEffect} {q' : ReadModels Int} (h : SameModels p q)
    (hq : effect.execute postgresTier q = .ok q') :
    ∃ p', effect.execute sqliteTier p = .ok p' ∧ SameModels p' q' := by
  obtain ⟨balances, hbalances, hq'⟩ := bind_eq_ok.mp hq
  cases hq'
  obtain ⟨row, hrow, hbalance, hheld, hversion, rfl⟩ := postgres_updateBalance hbalances
  have hrow' : (p.balances.find effect.accountId).getD ⟨.integer 0, .integer 0, .integer 0⟩ =
      row.sqlite := by
    rw [h.balances, hrow]
    cases q.balances.find effect.accountId <;> rfl
  obtain ⟨balances', hupdate, hfind⟩ := sqlite_updateBalance hrow' hbalance hheld hversion
  refine ⟨{ p with balances := balances' }.executeOthers effect, ?_, ?_⟩
  · rw [ProjectionEffect.execute, hupdate]
    rfl
  · have hbalances : ∀ a, balances'.find a =
        ((q.balances.put effect.accountId ⟨row.balance + effect.delta, row.held + effect.heldDelta,
          row.version + 1⟩).find a).map BalanceRow.sqlite := by
      intro a
      rw [hfind, Table.find_put, h.balances]
      split <;> rfl
    refine ⟨hbalances, ?_, ?_, ?_⟩
    · simp only [ReadModels.executeOthers, h.holds]
    · simp only [ReadModels.executeOthers, h.transfers]
    · simp only [ReadModels.executeOthers, h.transferLegs]

end Lockstep

/-! ### Balances of a stream -/

/-- The balance row of the events of an account. -/
def balanceRow (es : List AccountEvent) : Option (BalanceRow Int) :=
  if es = [] then none
  else some ⟨moved AccountEvent.balanceDelta es, moved AccountEvent.heldDelta es, es.length⟩

theorem balanceRow_getD (es : List AccountEvent) : (balanceRow es).getD ⟨0, 0, 0⟩ =
    ⟨moved AccountEvent.balanceDelta es, moved AccountEvent.heldDelta es, es.length⟩ := by
  cases es <;> rfl

theorem balanceRow_concat (es : List AccountEvent) (e : AccountEvent) : balanceRow (es ++ [e]) =
    some ⟨moved AccountEvent.balanceDelta es + e.balanceDelta,
      moved AccountEvent.heldDelta es + e.heldDelta, es.length + 1⟩ := by
  rw [balanceRow, if_neg (by simp), moved_append, moved_append, List.length_append]
  simp

/-- The sums of a prefix of a stream are in range. -/
structure InBounds (es : List AccountEvent) : Prop where
  balance : 0 ≤ moved AccountEvent.balanceDelta es ∧
    moved AccountEvent.balanceDelta es ≤ maxSignedBigint
  held : 0 ≤ moved AccountEvent.heldDelta es ∧
    moved AccountEvent.heldDelta es ≤ moved AccountEvent.balanceDelta es
  length : (es.length : Int) ≤ maxSignedBigint

theorem inBounds_of_start {es fs : List AccountEvent} {st : AccountState} (hstart : es <+: fs)
    (h : Account.fold fs = .ok st) : InBounds es := by
  obtain ⟨rest, rfl⟩ := hstart
  rw [Account.fold, Account.foldFrom_append] at h
  obtain ⟨st', hst', -⟩ := bind_eq_ok.mp h
  obtain ⟨hbalance, hheld, hversion⟩ := Account.foldFrom_fields hst'
  have hunknown : AccountState.unknown.balance = 0 ∧ AccountState.unknown.held = 0 ∧
      AccountState.unknown.version = 0 := ⟨rfl, rfl, rfl⟩
  rw [hunknown.1, zero_add] at hbalance
  rw [hunknown.2.1, zero_add] at hheld
  rw [hunknown.2.2, zero_add] at hversion
  have hvalid := st'.valid
  rw [hbalance, hheld, hversion] at hvalid
  exact ⟨⟨hvalid.balance_nonneg, hvalid.balance_le⟩, ⟨hvalid.held_nonneg, hvalid.held_le⟩,
    hvalid.version_le⟩

theorem inRange_of_nonneg {n : Int} (h : 0 ≤ n) (hle : n ≤ maxSignedBigint) : InRange n := by
  rw [maxSignedBigint_eq] at hle
  exact ⟨by omega, by omega⟩

/-- **One more event of a stream is projected.** -/
theorem execute_in_bounds {q : ReadModels Int} {e : AccountEvent} {es : List AccountEvent}
    (hrow : q.balances.find e.accountId = balanceRow es) (hbounds : InBounds (es ++ [e])) :
    ∃ q', e.effect.execute postgresTier q = .ok q' ∧
      ∀ a, q'.balances.find a =
        if a = e.accountId then balanceRow (es ++ [e]) else q.balances.find a := by
  have hsums : (balanceRow (es ++ [e])).getD ⟨0, 0, 0⟩ =
      ⟨moved AccountEvent.balanceDelta es + e.balanceDelta,
        moved AccountEvent.heldDelta es + e.heldDelta, es.length + 1⟩ := by
    rw [balanceRow_concat]
    rfl
  rw [balanceRow_getD, BalanceRow.mk.injEq] at hsums
  obtain ⟨hbalance, hheld, hlength⟩ := hsums
  have hupdate : postgresTier.updateBalance q.balances e.accountId e.balanceDelta e.heldDelta =
      .ok (q.balances.put e.accountId ⟨moved AccountEvent.balanceDelta es + e.balanceDelta,
        moved AccountEvent.heldDelta es + e.heldDelta, es.length + 1⟩) :=
    postgres_updateBalance_of (hrow ▸ balanceRow_getD es).symm
      (hbalance ▸ inRange_of_nonneg hbounds.balance.1 hbounds.balance.2)
      (hheld ▸ inRange_of_nonneg hbounds.held.1 (hbounds.held.2.trans hbounds.balance.2))
      (hlength ▸ inRange_of_nonneg (by omega) hbounds.length)
  refine ⟨_, bind_of hupdate (fun balances =>
    pure (({ q with balances := balances } : ReadModels Int).executeOthers e.effect)), fun a => ?_⟩
  rw [balanceRow_concat]
  exact Table.find_put _ _ _ _

/-! ### A feed -/

/-- The events of the first deliveries on an account. -/
def eventsOn (fs : List Delivery) (a : String) : List AccountEvent :=
  (fs.map (fun d => d.row.event)).filter (fun e => e.accountId = a)

theorem eventsOn_concat (fs : List Delivery) (d : Delivery) (a : String) : eventsOn (fs ++ [d]) a =
    if a = d.row.event.accountId then eventsOn fs a ++ [d.row.event] else eventsOn fs a := by
  rw [eventsOn, List.map_append, List.filter_append, eventsOn]
  by_cases ha : a = d.row.event.accountId
  · rw [if_pos ha, List.map_singleton, List.filter_cons_of_pos (by simpa using ha.symm)]
    rfl
  · rw [if_neg ha, List.map_singleton, List.filter_cons_of_neg (by simpa using Ne.symm ha),
      List.filter_nil, List.append_nil]

structure Tracks (fs : List Delivery) (s : ProjectionStore SqliteNumber × ProjectionStore Int) :
    Prop where
  sqlite_processed : ∀ u : UUID,
    (s.1.processedEvents.find u.str).isSome ↔ u ∈ fs.map Delivery.eventId
  postgres_processed : ∀ u : UUID,
    (s.2.processedEvents.find u.str).isSome ↔ u ∈ fs.map Delivery.eventId
  balances : ∀ a, s.2.readModels.balances.find a = balanceRow (eventsOn fs a)
  same : SameModels s.1.readModels s.2.readModels

def deliverBoth (s : ProjectionStore SqliteNumber × ProjectionStore Int) (d : Delivery) :
    ProjectionStore SqliteNumber × ProjectionStore Int :=
  (deliver sqliteTier s.1 d, deliver postgresTier s.2 d)

section Feed

variable {fs : List Delivery} {s : ProjectionStore SqliteNumber × ProjectionStore Int}
  {d : Delivery}

theorem tracks_empty : Tracks [] (.empty, .empty) := by
  refine ⟨fun u => ?_, fun u => ?_, fun a => rfl, sameModels_empty⟩ <;>
    exact ⟨(fun h => nomatch h), (fun h => nomatch h)⟩

theorem Tracks.apply_repeated (h : Tracks fs s) (hd : d.eventId ∈ fs.map Delivery.eventId) :
    s.1.apply sqliteTier d.event = (.ok false, s.1.advanceOffset d.logId) ∧
      s.2.apply postgresTier d.event = (.ok false, s.2.advanceOffset d.logId) :=
  ⟨apply_stored_processed ((h.sqlite_processed _).mpr hd),
    apply_stored_processed ((h.postgres_processed _).mpr hd)⟩

theorem Tracks.deliver_repeated (h : Tracks fs s) (hd : d.eventId ∈ fs.map Delivery.eventId) :
    Tracks fs (deliverBoth s d) := by
  obtain ⟨hsqlite, hpostgres⟩ := h.apply_repeated hd
  rw [deliverBoth, deliver, deliver, hsqlite, hpostgres]
  exact ⟨h.sqlite_processed, h.postgres_processed, h.balances, h.same⟩

theorem processed_put {processed : Table String Unit} {ids : List UUID} {u : UUID}
    (h : ∀ v : UUID, (processed.find v.str).isSome ↔ v ∈ ids) (v : UUID) :
    ((processed.put u.str ()).find v.str).isSome ↔ v ∈ ids ++ [u] := by
  rw [Table.find_put, List.mem_append, List.mem_singleton, ← h]
  by_cases hv : v = u
  · simp [hv]
  · rw [if_neg fun heq => hv (UUID.str_injective heq)]
    simp [hv]

/-- A new delivery changes both stores, as long as the stream stays in bounds. -/
theorem Tracks.apply_new (h : Tracks fs s) (hd : d.eventId ∉ fs.map Delivery.eventId)
    (hbounds : InBounds (eventsOn (fs ++ [d]) d.row.event.accountId)) :
    ∃ p q, s.1.apply sqliteTier d.event = (.ok true, p) ∧
      s.2.apply postgresTier d.event = (.ok true, q) ∧ Tracks (fs ++ [d]) (p, q) := by
  rw [eventsOn_concat, if_pos rfl] at hbounds
  obtain ⟨models, hexecute, hfind⟩ := execute_in_bounds (h.balances _) hbounds
  obtain ⟨models', hexecute', hsame⟩ := h.same.execute hexecute
  refine ⟨_, _, apply_stored_new (fun hp => hd ((h.sqlite_processed _).mp hp)) hexecute',
    apply_stored_new (fun hp => hd ((h.postgres_processed _).mp hp)) hexecute, ?_, ?_, ?_, hsame⟩
  · rw [List.map_append]
    exact processed_put h.sqlite_processed
  · rw [List.map_append]
    exact processed_put h.postgres_processed
  · intro a
    rw [eventsOn_concat, hfind]
    split
    next ha => rw [ha]
    next => exact h.balances a

theorem Tracks.deliver_new (h : Tracks fs s) (hd : d.eventId ∉ fs.map Delivery.eventId)
    (hbounds : InBounds (eventsOn (fs ++ [d]) d.row.event.accountId)) :
    Tracks (fs ++ [d]) (deliverBoth s d) := by
  obtain ⟨p, q, hsqlite, hpostgres, htracks⟩ := h.apply_new hd hbounds
  rw [deliverBoth, deliver, deliver, hsqlite, hpostgres]
  exact htracks

theorem run_deliverBoth (s : ProjectionStore SqliteNumber × ProjectionStore Int) :
    ∀ ds : List Delivery, Runs.run deliverBoth s ds =
      (Runs.run (deliver sqliteTier) s.1 ds, Runs.run (deliver postgresTier) s.2 ds) := by
  intro ds
  induction ds generalizing s with
  | nil => rfl
  | cons d ds ih => rw [Runs.run_cons, ih, Runs.run_cons, Runs.run_cons, deliverBoth]

/-- **Along a feed the stores track the first deliveries.** -/
theorem tracks_projectionAfter {ds : List Delivery}
    (h : ∀ fs, fs <+: firsts Delivery.eventId ds → ∀ a, InBounds (eventsOn fs a)) :
    Tracks (firsts Delivery.eventId ds)
      (projectionAfter sqliteTier ds, projectionAfter postgresTier ds) := by
  have hnew : ∀ fs s d, Tracks fs s → d.eventId ∉ fs.map Delivery.eventId →
      (∀ a, InBounds (eventsOn (fs ++ [d]) a)) → Tracks (fs ++ [d]) (deliverBoth s d) :=
    fun fs s d hs hd hbounds => hs.deliver_new hd (hbounds _)
  have hrun := run_firsts hnew (fun fs s d hs hd => hs.deliver_repeated hd) tracks_empty h
  rw [run_deliverBoth] at hrun
  exact hrun

end Feed

/-! ### The feed of a log -/

/-- The projections of a feed of the log. -/
structure ProjectsFolds (s : Store) (ds : List Delivery) : Prop where
  /-- PostgreSQL keeps the folds. -/
  postgres : ∀ a, s.streamOf a ≠ [] → (projectionAfter postgresTier ds).readModels.balances.find a =
    some ⟨(s.account a).balance, (s.account a).held, (s.account a).version⟩
  /-- SQLite keeps the folds. -/
  sqlite : ∀ a, s.streamOf a ≠ [] → (projectionAfter sqliteTier ds).readModels.balances.find a =
    some ⟨.integer (s.account a).balance, .integer (s.account a).held,
      .integer (s.account a).version⟩
  /-- What either store answers is the fold, also for an account without events. -/
  balance : ∀ a, (projectionAfter postgresTier ds).balance postgresTier a =
      ⟨(s.account a).balance, (s.account a).held, (s.account a).version⟩ ∧
    (projectionAfter sqliteTier ds).balance sqliteTier a =
      ⟨(s.account a).balance, (s.account a).held, (s.account a).version⟩
  /-- A redelivery is a duplicate to both stores, and changes no read model. -/
  repeated : ∀ before d after, ds = before ++ d :: after →
    d.eventId ∈ before.map Delivery.eventId →
    (projectionAfter postgresTier before).apply postgresTier d.event =
        (.ok false, (projectionAfter postgresTier before).advanceOffset d.logId) ∧
      (projectionAfter sqliteTier before).apply sqliteTier d.event =
        (.ok false, (projectionAfter sqliteTier before).advanceOffset d.logId)
  /-- The stores end with the same rows. -/
  same : SameModels (projectionAfter sqliteTier ds).readModels (projectionAfter postgresTier ds).readModels

section Log

variable {s : Store} {ds : List Delivery}

theorem eventsOn_eq (fs : List Delivery) (a : String) : eventsOn fs a =
    ((fs.map Delivery.row).filter (fun r => r.event.accountId = a)).map EventRow.event := by
  have hmap : fs.map (fun d => d.row.event) = (fs.map Delivery.row).map EventRow.event := by
    rw [List.map_map]
    rfl
  rw [eventsOn, hmap, List.filter_map]
  rfl

theorem AtLeastOnce.inBounds (hs : s.Readable) (h : AtLeastOnce s.events ds) {fs : List Delivery}
    (hstart : fs <+: firsts Delivery.eventId ds) (a : String) : InBounds (eventsOn fs a) := by
  have hsub : eventsOn fs a <+: s.eventsOf a := by
    rw [Store.eventsOf, Store.streamOf, ← h.ordered a, eventsOn_eq]
    exact ((hstart.map Delivery.row).filter _).map EventRow.event
  exact inBounds_of_start hsub (Store.fold_eventsOf hs a)

theorem projectsFolds_of (hs : s.Readable) (h : AtLeastOnce s.events ds) : ProjectsFolds s ds := by
  have htracks := tracks_projectionAfter fun fs hfs => h.inBounds hs hfs
  have hevents : ∀ a, eventsOn (firsts Delivery.eventId ds) a = s.eventsOf a := by
    intro a
    rw [eventsOn_eq, h.ordered a]
    rfl
  have hfold : ∀ a, (balanceRow (s.eventsOf a)).getD ⟨0, 0, 0⟩ =
      ⟨(s.account a).balance, (s.account a).held, (s.account a).version⟩ := by
    intro a
    obtain ⟨hbalance, hheld, hversion⟩ := Account.foldFrom_fields (Store.fold_eventsOf hs a)
    rw [balanceRow_getD, hbalance, hheld, hversion]
    simp [AccountState.unknown]
  have hpostgres : ∀ a, s.streamOf a ≠ [] →
      (projectionAfter postgresTier ds).readModels.balances.find a =
        some ⟨(s.account a).balance, (s.account a).held, (s.account a).version⟩ := by
    intro a ha
    have hne : s.eventsOf a ≠ [] := by simpa [Store.eventsOf] using ha
    rw [htracks.balances, hevents, ← hfold, balanceRow, if_neg hne]
    rfl
  refine ⟨hpostgres, fun a ha => ?_, fun a => ⟨?_, ?_⟩, fun before d after hds hd => ?_,
    htracks.same⟩
  · rw [htracks.same.balances, hpostgres a ha]
    rfl
  · rw [ProjectionStore.balance, htracks.balances, hevents, ← hfold]
    cases balanceRow (s.eventsOf a) <;> rfl
  · rw [ProjectionStore.balance, htracks.same.balances, htracks.balances, hevents, ← hfold]
    cases balanceRow (s.eventsOf a) <;> rfl
  · have hbefore := @tracks_projectionAfter before fun fs hfs =>
      h.inBounds hs (hfs.trans (by rw [hds]; exact isPrefix_firsts before (d :: after)))
    exact (hbefore.apply_repeated ((mem_map_firsts _ before).mpr hd)).symm

/-- **The projections of a log are the folds of its streams.** -/
theorem balances_are_folds (calls : List Call) (ds : List Delivery)
    (h : AtLeastOnce (storeAfter calls).events ds) : ProjectsFolds (storeAfter calls) ds :=
  projectsFolds_of (ledger_storeAfter calls).coherent.readable h

def feedOf (log : List EventRow) : List Delivery := log.map (fun r => ⟨r, 1⟩)

theorem atLeastOnce_twice {log : List EventRow} (h : (log.map EventRow.eventId).Nodup) :
    AtLeastOnce log (feedOf log ++ feedOf log) := by
  have hrows : (feedOf log).map Delivery.row = log := by
    rw [feedOf, List.map_map]
    exact List.map_id log
  have hids : (feedOf log).map Delivery.eventId = log.map EventRow.eventId := by
    rw [feedOf, List.map_map]
    rfl
  refine ⟨fun d hd => ?_, fun a => ?_⟩
  · rw [List.mem_append, or_self] at hd
    rw [← hrows]
    exact List.mem_map_of_mem hd
  · rw [firsts_append_of_subset (List.Subset.refl _), firsts_of_nodup (hids ▸ h), hrows]

/-- A hold that is placed and voided, delivered twice over. -/
theorem balances_are_folds_void :
    ProjectsFolds (storeAfter [deposit100, hold50 1 (by decide) .epoch 20, void50])
      (feedOf (storeAfter [deposit100, hold50 1 (by decide) .epoch 20, void50]).events ++
        feedOf (storeAfter [deposit100, hold50 1 (by decide) .epoch 20, void50]).events) :=
  balances_are_folds _ _ (atLeastOnce_twice (by decide +kernel))

end Log

end Cloudscale
