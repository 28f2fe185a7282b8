import Cloudscale.Postgres.Feeding
import Cloudscale.Postgres.Serializability
import Cloudscale.Projection.Rebuilding

/-!
# Restoring the database

A relay that nobody interrupts gives a position to every event that has none
(`relay_eq`), so on a quiet database every read hands out rows of one feed
(`readAll_eq`), which has every event once and every stream in its order
(`perm_fullFeed`, `stream_fullFeed`).

That is so of the live database and of the one whose derived tables are truncated, where the
positions may come out differently.  `drill_passes` is the result: whatever
callers have committed, the read models that are rebuilt are those of the live feed, and the
folds.
-/

namespace Cloudscale.Postgres

open Checked Python ReadCommitted LogRow Streams

/-! ### A relay alone -/

section Alone

variable {Row : Type} [LogRow Row] {db : Database Row}

def Database.relayed (db : Database Row) : Database Row :=
  { db with
    outbox := db.outbox ++ outboxRows (db.head .nothing) (db.pending .nothing)
    published := db.published ++ (db.pending .nothing).map Prod.fst }

theorem head_nothing (h : Relayed db) : db.head .nothing = db.outbox.length := by
  have hout : db.outbox ++ (Written.nothing : Written Row).outbox = db.outbox := List.append_nil _
  have hhead : db.head .nothing = _ := head_eq (by rw [hout]; exact h.feeds)
  rw [hhead, hout]

variable (hdb : Numbered db) (h : Relayed db)

include hdb h

theorem insertOutbox_alone : db.insertOutbox locked
    (outboxRows (db.head .nothing) (db.pending .nothing)) =
      .ok ((), { locked with outbox := outboxRows (db.head .nothing) (db.pending .nothing) }) := by
  have hout : db.outbox ++ (locked : Written Row).outbox = db.outbox := List.append_nil _
  rw [Database.insertOutbox, if_pos]
  · rfl
  rw [hout, List.map_append, List.map_append, map_fst_outboxRows, map_snd_outboxRows,
    h.feeds.positions, head_nothing h, Nat.add_comm, List.range'_append_1]
  refine ⟨List.nodup_range', ?_⟩
  rw [pending_eq hdb rfl rfl, List.map_map]
  refine List.nodup_append.mpr ⟨h.feeds.once, hdb.eventIds.sublist (List.filter_sublist.map _), ?_⟩
  rintro id hid _ hpending rfl
  obtain ⟨r, hr, rfl⟩ := List.mem_map.mp hpending
  obtain ⟨hr, hfree⟩ := List.mem_filter.mp hr
  exact of_decide_eq_true hfree ((h.marked.marks r hr).mpr hid)

/-- **What a relay does that nobody interrupts.** -/
theorem relay_eq : db.relay = (.ok (db.pending .nothing).length, db.relayed) := by
  have hevents : byId db.events = db.events := by
    rw [byId, List.Pairwise.insertionSort_eq (hdb.ids.imp le_of_lt)]
  have halone : (relayOutbox : Program Row ℕ).alone engine db .nothing =
      (.ok (db.pending .nothing).length, db, { locked with
        outbox := outboxRows (db.head .nothing) (db.pending .nothing)
        published := (db.pending .nothing).map Prod.fst }) := by
    refine (alone_perform_bind rfl).trans ((alone_perform_bind rfl).trans ?_)
    show Prog.alone engine (if db.pending .nothing = [] then _ else _) db locked = _
    split
    next hnil =>
      rw [hnil]
      rfl
    next =>
      refine (alone_perform_bind rfl).trans
        ((alone_perform_bind (insertOutbox_alone hdb h)).trans ?_)
      refine (alone_perform_bind rfl).trans ?_
      exact Prod.ext (congrArg Except.ok (length_outboxRows _ _)) rfl
  rw [Database.relay, transact_of halone]
  show (_, publish db _) = _
  rw [publish, Database.relayed]
  simp only [locked, Written.nothing, List.append_nil, hevents]

/-- **Every event has a position then.** -/
theorem Relayed.relayed : Relayed db.relayed ∧
    ∀ r ∈ db.events, eventId r.2 ∈ db.relayed.outbox.map Prod.snd := by
  have hrows : db.pending .nothing = _ := pending_eq hdb rfl rfl
  have hmarked : Marked db.events db.relayed.outbox db.relayed.published :=
    Marked.relay hdb (Grows.refl db) h.marked hrows
  refine ⟨⟨?_, hmarked⟩, fun r hr => (hmarked.marks r hr).mp ?_⟩
  · by_cases hnil : db.pending .nothing = []
    · have hout : db.relayed.outbox = db.outbox := by
        rw [Database.relayed, hnil]
        exact List.append_nil _
      rw [hout]
      exact h.feeds
    · have hout : db.outbox ++ (locked : Written Row).outbox = db.outbox := List.append_nil _
      have hinsert := insertOutbox_alone hdb h
      rw [Database.insertOutbox, hout] at hinsert
      split at hinsert
      next hfits =>
        exact Feeds.relay hdb (Grows.refl db) h.feeds hdb h.marked (List.prefix_refl _)
          (head_nothing h).le hrows hnil hfits.1 hfits.2
      next => cases hinsert
  · rw [Database.relayed, hrows, List.map_map]
    by_cases hpublished : r.1 ∈ db.published
    · exact List.mem_append_left _ hpublished
    · exact List.mem_append_right _ (List.mem_map.mpr ⟨r,
        List.mem_filter.mpr ⟨hr, by simpa using hpublished⟩, rfl⟩)

omit h in
theorem Numbered.relayed : Numbered db.relayed :=
  ⟨hdb.ids, hdb.drawn, hdb.seqs, hdb.eventIds, hdb.results⟩

omit h in
theorem publish_nothing : publish db .nothing = db := by
  have hevents : byId db.events = db.events := by
    rw [byId, List.Pairwise.insertionSort_eq (hdb.ids.imp le_of_lt)]
  rw [publish]
  simp only [Written.nothing, List.append_nil, hevents]

theorem relayed_relayed : db.relayed.relayed = db.relayed := by
  obtain ⟨hrelayed, hall⟩ := Relayed.relayed hdb h
  have hnil : db.relayed.pending .nothing = [] := by
    rw [pending_eq hdb.relayed rfl rfl, List.map_eq_nil_iff, List.filter_eq_nil_iff]
    intro r hr hfree
    exact of_decide_eq_true hfree ((hrelayed.marked.marks r hr).mpr (hall r hr))
  rw [Database.relayed, hnil]
  show Database.mk _ _ _ _ _ = _
  rw [List.map_nil, List.append_nil]
  show Database.mk _ _ (db.relayed.outbox ++ []) _ _ = _
  rw [List.append_nil]

/-- **What a read answers on a quiet database.** -/
theorem readAll_eq (after : ℕ) (limit : Option ℕ) : db.readAll after limit =
    (.ok (limited limit (db.relayed.fullFeed.drop after)), db.relayed) := by
  have halone : (perform (.feed after limit) : Program Row _).alone engine db.relayed .nothing =
      (.ok (db.relayed.feed .nothing after limit), db.relayed, .nothing) := rfl
  rw [Database.readAll, relay_eq hdb h]
  show transact engine _ db.relayed = _
  rw [transact_of halone, feed_eq hdb.relayed (Relayed.relayed hdb h).1.feeds]
  exact congrArg (Prod.mk _) (publish_nothing hdb.relayed)

/-! ### The feed of a quiet database -/

/-- **The feed has every event once.** -/
theorem perm_fullFeed : (db.relayed.fullFeed.map Prod.snd).Perm (db.events.map Prod.snd) := by
  obtain ⟨hrelayed, hall⟩ := Relayed.relayed hdb h
  have hids : ((db.relayed.fullFeed.map Prod.snd).map eventId).Nodup := by
    rw [List.map_map]
    have hfeed := fullFeed_eventIds hdb.relayed hrelayed.feeds
    rw [show (eventId ∘ Prod.snd : ℕ × Row → String) = fun p => eventId p.2 from rfl, hfeed]
    exact hrelayed.feeds.once
  have hrows : ((db.events.map Prod.snd).map eventId).Nodup := by
    rw [List.map_map]
    exact hdb.eventIds
  rw [List.perm_ext_iff_of_nodup hids.of_map hrows.of_map]
  intro row
  constructor
  · intro hrow
    obtain ⟨p, hp, rfl⟩ := List.mem_map.mp hrow
    obtain ⟨r, hr, heq⟩ := mem_events_of_fullFeed hdb.relayed hrelayed.feeds hp
    exact List.mem_map.mpr ⟨r, hr, heq⟩
  · intro hrow
    obtain ⟨r, hr, rfl⟩ := List.mem_map.mp hrow
    obtain ⟨o, ho, hid⟩ := List.mem_map.mp (hall r hr)
    have hentry := entry_eq hdb.relayed hr hid.symm
    rw [fullFeed_eq hrelayed.feeds]
    exact List.mem_map.mpr ⟨(o.1, r.2), List.mem_filterMap.mpr ⟨o, ho, hentry⟩, rfl⟩

/-- **The feed has every stream in its order.** -/
theorem stream_fullFeed (name : String) :
    (db.relayed.fullFeed.map Prod.snd).filter (fun r => stream r = name) =
      (onStream db.events name).map Prod.snd := by
  obtain ⟨hrelayed, -⟩ := Relayed.relayed hdb h
  refine (fullFeed_stream hdb.relayed hrelayed.feeds name).eq_of_length ?_
  rw [((perm_fullFeed hdb h).filter _).length_eq, List.filter_map, List.length_map, List.length_map]
  rfl

end Alone

/-! ### The deliveries of a quiet database -/

section Deliveries

variable {db : Database EventRow}

/-- What a consumer of a quiet database is delivered. -/
def Database.deliveries (db : Database EventRow) : List Delivery :=
  db.relayed.fullFeed.map fun p => ⟨p.2, p.1⟩

theorem map_row_deliveries :
    db.deliveries.map Delivery.row = db.relayed.fullFeed.map Prod.snd := by
  rw [Database.deliveries, List.map_map]
  rfl

variable (hdb : Numbered db) (h : Relayed db)

include hdb h

theorem nodup_deliveries (hrows : (db.store.events.map EventRow.eventId).Nodup) :
    (db.deliveries.map Delivery.eventId).Nodup := by
  have hids : db.deliveries.map Delivery.eventId =
      (db.relayed.fullFeed.map Prod.snd).map EventRow.eventId := by
    rw [← map_row_deliveries, List.map_map]
    rfl
  rw [hids]
  exact ((perm_fullFeed hdb h).map EventRow.eventId).nodup_iff.mpr hrows

/-- **A quiet database delivers its log.** -/
theorem atLeastOnce_deliveries (hrows : (db.store.events.map EventRow.eventId).Nodup) :
    AtLeastOnce db.store.events db.deliveries := by
  have hfirsts := Deliveries.firsts_of_nodup (nodup_deliveries hdb h hrows)
  refine ⟨fun d hd => ?_, fun a => ?_⟩
  · have hrow : d.row ∈ db.deliveries.map Delivery.row := List.mem_map_of_mem hd
    rw [map_row_deliveries] at hrow
    exact (perm_fullFeed hdb h).mem_iff.mp hrow
  · have hstream : ∀ rows : List EventRow, rows.filter (fun r => r.event.accountId = a) =
        rows.filter (fun r => LogRow.stream r = streamName a) := fun rows =>
      List.filter_congr fun r _ => decide_eq_decide.mpr (EventRow.stream_eq_iff r a).symm
    rw [hfirsts, map_row_deliveries, hstream, hstream, stream_fullFeed hdb h, onStream, Database.store,
      List.filter_map]
    rfl

theorem map_logId_deliveries : db.deliveries.map (fun d => positionOf d.event) =
    (List.range' 1 db.deliveries.length).map Nat.cast := by
  have hpositions := fullFeed_positions hdb.relayed (Relayed.relayed hdb h).1.feeds
  have hlength : db.deliveries.length = db.relayed.fullFeed.length := List.length_map _
  rw [hlength, ← hpositions, Database.deliveries, List.map_map, List.map_map]
  exact List.map_congr_left fun p _ => positionOf_event _

def quietFeed (hdb : Numbered db) (h : Relayed db) : EventFeed where
  events := db.deliveries.map Delivery.event
  ordered := by
    have hsorted : (db.deliveries.map fun d => positionOf d.event).Pairwise (· < ·) := by
      rw [map_logId_deliveries hdb h, List.pairwise_map]
      exact (List.pairwise_lt_range' 1).imp fun hlt => Int.ofNat_lt.mpr hlt
    exact List.pairwise_map.mpr (List.pairwise_map.mp hsorted)

/-- **A read is a read of the feed.** -/
theorem readAll_quietFeed (after limit : ℕ) : ∃ rows, db.readAll after (some limit) = (.ok rows, db.relayed) ∧
    rows.map (fun p => (p.2.stored p.1).dict) =
      Polling.readAfter positionOf (quietFeed hdb h).events after limit := by
  refine ⟨_, readAll_eq hdb h after (some limit), ?_⟩
  have hpositions := fullFeed_positions hdb.relayed (Relayed.relayed hdb h).1.feeds
  have hdrop : db.relayed.fullFeed.drop after =
      db.relayed.fullFeed.filter (fun p => after < p.1) := by
    rw [← filter_positions after hpositions]
    exact List.filter_congr fun o _ => decide_eq_decide.mpr (by omega)
  show _ = (Polling.pending positionOf (db.deliveries.map Delivery.event) after).take limit
  rw [limited, hdrop, Polling.pending, List.map_take, Database.deliveries, List.map_map,
    List.filter_map]
  refine congrArg (List.take limit) (congrArg (List.map _) (List.filter_congr fun p _ => ?_))
  have hposition : positionOf (Delivery.event ⟨p.2, p.1⟩) = p.1 := positionOf_event _
  simp [hposition]

end Deliveries

/-! ### The drill -/

theorem serial_feed_discipline : FeedDiscipline Empty serialRely Commits where
  discipline := serial_discipline
  numbered h := h.numbered
  grows h := h.grows
  owns h := h
  settled hevents hresults := .unchanged hevents (by simp [hresults])
  decides hends hholds := hends.commits hholds
  appends a := by cases a
  empty := serialized_empty

theorem numbered_truncateDerived {db : Database EventRow} (h : Numbered db) :
    Numbered (truncateDerived db) :=
  ⟨h.ids, h.drawn, h.seqs, h.eventIds, h.results⟩

theorem relayed_truncateDerived (db : Database EventRow) : Relayed (truncateDerived db) :=
  ⟨⟨rfl, List.nodup_nil, (fun _ h => nomatch h), fun _ _ _ _ _ _ h => nomatch h⟩,
    ⟨(fun _ h => nomatch h), fun _ _ => ⟨(fun h => nomatch h), fun h => nomatch h⟩⟩⟩

theorem Serialized.nodup_eventIds {db : Database EventRow} (h : Serialized db) :
    (db.store.events.map EventRow.eventId).Nodup := by
  obtain ⟨calls, hserial⟩ := h.serial
  exact (hserial.log.perm.map EventRow.eventId).nodup_iff.mpr
    (unclashed_storeAfter calls).nodup_eventIds

variable {ι : Type} [DecidableEq ι]
  [∀ s : Parties Empty EventRow ι, ∀ i op, Decidable (s.Waits engine i op)]

/-- **The restore drill passes** on whatever callers, relays and readers have committed: every
read of the restored database without its derived tables is a read of one feed, the
consumer applies each event of that feed, and the read models are those of any
feed of the live log, and the folds. -/
theorem drill_passes (roles : ι → Role Empty) (moves : List (Move ι)) (isOperational : PyError → Bool)
    (now : Datetime) (clock : ℕ → ℚ) :
    let db := (Parties.run roles moves : Parties Empty EventRow ι).shared
    let restored := truncateDerived db
    ∃ feed : EventFeed, ∃ folds, ∃ after : Consumption (DeadLetterStore Int) ℚ,
      (∀ quiet ∈ [restored, restored.relayed], ∀ after limit, ∃ rows,
        quiet.readAll after (some limit) = (.ok rows, restored.relayed) ∧
          rows.map (fun p => (p.2.stored p.1).dict) =
            Polling.readAfter positionOf feed.events after limit) ∧
      (∀ rounds runs, db.events.length < rounds → 2 ≤ runs →
        drain (drillConsumer postgresTier isOperational now) (undisturbed clock) feed rounds runs
            ⟨0, 0, 0, false, none⟩ ⟨⟨.empty, .empty⟩, .initial, 0⟩ =
          some (.ok ⟨db.events.length, 0, 0, false, none⟩, after)) ∧
      foldAll db.store (logFacts db.store.events).accounts = .ok folds ∧
      AtLeastOnce db.store.events db.deliveries ∧
      ∀ ds letters, AtLeastOnce db.store.events ds →
        Passes (logFacts db.store.events)
          (DeadLetterStore.snapshot postgresTier ⟨projectionAfter postgresTier ds, letters⟩) folds
          (⟨db.events.length, 0, 0, false, none⟩ : ConsumerReport ℚ)
          (after.projection.snapshot postgresTier) := by
  intro db restored
  obtain ⟨hsound, -⟩ := Parties.sound_run serial_feed_discipline roles moves
  have hdb : Serialized db := hsound.inv.1
  have hrelayed : Relayed db := hsound.inv.2
  have hread : db.store.Readable := hdb.ledger.coherent.readable
  have hnumbered := numbered_truncateDerived hdb.numbered
  have hempty := relayed_truncateDerived db
  have hids : (restored.store.events.map EventRow.eventId).Nodup := hdb.nodup_eventIds
  have hfeed : AtLeastOnce db.store.events restored.deliveries :=
    atLeastOnce_deliveries hnumbered hempty hids
  have hnodup := nodup_deliveries hnumbered hempty hids
  have hprojects := (projects_of_feed hread hfeed).2
  obtain ⟨calls, hserial⟩ := hdb.serial
  obtain ⟨folds, hfolds, hfind⟩ := exists_foldAll hread (logFacts db.store.events).accounts
  have hlength : restored.deliveries.length = db.events.length := by
    have hperm := (perm_fullFeed hnumbered hempty).length_eq
    rwa [← map_row_deliveries, List.length_map, List.length_map] at hperm
  have hpositive : ∀ d ∈ restored.deliveries, 0 < d.logId := by
    intro d hd
    have hmem := List.mem_map_of_mem (f := fun d : Delivery => positionOf d.event) hd
    rw [map_logId_deliveries hnumbered hempty] at hmem
    obtain ⟨n, hn, hid⟩ := List.mem_map.mp hmem
    have hpos := (List.mem_range'_1.mp hn).1
    rw [positionOf_event] at hid
    omega
  obtain ⟨after, hdrain, hafter⟩ : ∃ after : Consumption (DeadLetterStore Int) ℚ,
      (∀ rounds runs, (quietFeed hnumbered hempty).events.length < rounds → 2 ≤ runs →
        drain (drillConsumer postgresTier isOperational now) (undisturbed clock)
            (quietFeed hnumbered hempty) rounds runs ⟨0, 0, 0, false, none⟩
            ⟨⟨.empty, .empty⟩, .initial, 0⟩ =
          some (.ok ⟨restored.deliveries.length, 0, 0, false, none⟩, after)) ∧
      after.projection = ⟨projectionAfter postgresTier restored.deliveries, .empty⟩ :=
    drain_applied rfl clock rfl hpositive (fun d hd => hread.current d.row (hfeed.logged d hd))
      (hprojects.applies hnodup) rfl
  have hsame : restored.relayed.relayed = restored.relayed := relayed_relayed hnumbered hempty
  refine ⟨quietFeed hnumbered hempty, folds, after, ?_, fun rounds runs hrounds hruns => ?_, hfolds,
    atLeastOnce_deliveries hdb.numbered hrelayed hdb.nodup_eventIds, fun ds letters hds => ?_⟩
  · rintro quiet (_ | ⟨_, _ | ⟨_, h⟩⟩) after limit
    · exact readAll_quietFeed hnumbered hempty after limit
    · obtain ⟨rows, hrows, hreads⟩ := readAll_quietFeed hnumbered.relayed
        (Relayed.relayed hnumbered hempty).1 after limit
      have hevents : restored.relayed.deliveries = restored.deliveries := by
        rw [Database.deliveries, hsame]
        rfl
      refine ⟨rows, hrows.trans (by rw [hsame]), hreads.trans ?_⟩
      show Polling.readAfter positionOf (restored.relayed.deliveries.map Delivery.event) after limit = _
      rw [hevents]
      rfl
    · cases h
  · have hcount : (quietFeed hnumbered hempty).events.length = db.events.length :=
      (List.length_map _).trans hlength
    rw [hdrain rounds runs (hcount ▸ hrounds) hruns, hlength]
  · rw [hafter]
    refine passes_of_feeds postgres_adds hserial.log hfeed hprojects hnodup hds
      (projects_of_feed hread hds).2 letters (fun a => ?_) rfl
    rw [hfind, balanceRow_eventsOf hread]

end Cloudscale.Postgres
