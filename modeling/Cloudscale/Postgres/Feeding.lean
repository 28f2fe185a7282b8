import Cloudscale.Postgres.Relaying

/-!
# The feed misses nothing

`Database.fullFeed` is what a reader is handed that asks for everything.  It has the
positions of the outbox, one after the other (`fullFeed_positions`), it only grows at its
end (`fullFeed_start`), and of every stream it has a start (`fullFeed_stream`).

A reader that asks for the rows after the last one it has received comes to have the
first rows of the feed, each of them once (`Reader.UpTo`), whatever other sessions append,
commit, abort and relay in between.  `feed_misses_nothing` is the result for every run of
parties.
-/

namespace Cloudscale.Postgres

open Checked Python ReadCommitted LogRow Streams

variable {Row : Type} [LogRow Row] {db db' : Database Row} {outbox : List (ℕ × String)}

/-! ### The feed -/

/-- The rows of the feed, each under its position. -/
def Database.fullFeed (db : Database Row) : List (ℕ × Row) := db.feed .nothing 0 none

/-- The row of an event id under its position. -/
def Database.entry (db : Database Row) (o : ℕ × String) : Option (ℕ × Row) :=
  ((db.seen .nothing).find? (fun r => eventId r = o.2)).map (o.1, ·)

theorem entry_eq (h : Numbered db) {o : ℕ × String} {r : ℕ × Row} (hr : r ∈ db.events)
    (hid : eventId r.2 = o.2) : db.entry o = some (o.1, r.2) := by
  have hseen : r.2 ∈ db.seen .nothing := by
    rw [seen_of_nil h rfl]
    exact List.mem_map_of_mem hr
  have hfind : (db.seen .nothing).find? (fun x => eventId x = o.2) = some r.2 := by
    cases hfound : (db.seen .nothing).find? (fun x => eventId x = o.2) with
    | none => exact absurd (decide_eq_true hid) (List.find?_eq_none.mp hfound r.2 hseen)
    | some x =>
      have hx : eventId x = o.2 := by simpa using List.find?_some hfound
      have hmem := List.mem_of_find?_eq_some hfound
      rw [seen_of_nil h rfl] at hmem
      obtain ⟨y, hy, rfl⟩ := List.mem_map.mp hmem
      rw [h.eq_of_eventId hy hr (hx.trans hid.symm)]
  rw [Database.entry, hfind]
  rfl

theorem exists_entry (h : Numbered db) (hfeeds : Feeds db.events outbox) {o : ℕ × String}
    (ho : o ∈ outbox) : ∃ r ∈ db.events, eventId r.2 = o.2 ∧ db.entry o = some (o.1, r.2) := by
  obtain ⟨r, hr, hid⟩ := hfeeds.known o ho
  exact ⟨r, hr, hid, entry_eq h hr hid⟩

theorem filter_positions {α : Type} : ∀ {rows : List (ℕ × α)} {first : ℕ} (k : ℕ),
    rows.map Prod.fst = List.range' first rows.length →
    rows.filter (fun o => first + k ≤ o.1) = rows.drop k
  | [], _, _, _ => by rw [List.drop_nil, List.filter_nil]
  | row :: rows, first, k, h => by
    rw [List.map_cons, List.length_cons, List.range'_succ, List.cons.injEq] at h
    cases k with
    | zero =>
      refine List.filter_eq_self.mpr fun o ho => ?_
      rcases List.mem_cons.mp ho with rfl | ho
      · simp [h.1]
      · have hmem : o.1 ∈ List.range' (first + 1) rows.length := h.2 ▸ List.mem_map_of_mem ho
        rw [List.mem_range'_1] at hmem
        simp
        omega
    | succ k =>
      rw [List.filter_cons_of_neg (by rw [h.1]; simp), List.drop_succ_cons,
        ← filter_positions k h.2]
      refine List.filter_congr fun o _ => ?_
      rw [Nat.add_right_comm, Nat.add_assoc]

/-- At most so many of the rows; `none` is no limit. -/
def limited {α : Type} (limit : Option ℕ) (rows : List α) : List α :=
  match limit with
  | none => rows
  | some limit => rows.take limit

theorem limited_start {α : Type} (limit : Option ℕ) (rows : List α) : limited limit rows <+: rows := by
  cases limit with
  | none => exact List.prefix_refl _
  | some limit => exact List.take_prefix _ _

section Feed

variable (hdb : Numbered db) (hfeeds : Feeds db.events db.outbox)

include hfeeds

theorem feed_eq_entries (after : ℕ) (limit : Option ℕ) :
    db.feed .nothing after limit = limited limit ((db.outbox.drop after).filterMap db.entry) := by
  have hfilter : (db.outbox ++ (.nothing : Written Row).outbox).filter (fun o => after < o.1) =
      db.outbox.drop after := by
    rw [Written.nothing, List.append_nil, ← filter_positions after hfeeds.positions]
    exact List.filter_congr fun o _ => decide_eq_decide.mpr (by omega)
  have hsorted : (db.outbox.drop after).Pairwise (fun o o' => o.1 ≤ o'.1) := by
    refine List.Pairwise.sublist (List.drop_sublist _ _) ?_
    have hpositions : (db.outbox.map Prod.fst).Pairwise (· < ·) := by
      rw [hfeeds.positions]
      exact List.pairwise_lt_range' 1
    exact (List.pairwise_map.mp hpositions).imp le_of_lt
  have hrows : (((db.outbox ++ (.nothing : Written Row).outbox).filter
      (fun o => after < o.1)).insertionSort (fun o o' => o.1 ≤ o'.1)).filterMap db.entry =
        (db.outbox.drop after).filterMap db.entry := by
    rw [hfilter, List.Pairwise.insertionSort_eq hsorted]
  cases limit with
  | none => exact hrows
  | some limit => exact congrArg (List.take limit) hrows

theorem fullFeed_eq : db.fullFeed = db.outbox.filterMap db.entry := feed_eq_entries hfeeds 0 none

include hdb

theorem forall₂_fullFeed : List.Forall₂ (fun o (p : ℕ × Row) => p.1 = o.1 ∧ eventId p.2 = o.2 ∧
    ∃ r ∈ db.events, r.2 = p.2) db.outbox db.fullFeed := by
  rw [fullFeed_eq hfeeds]
  have hentries : ∀ o ∈ db.outbox, ∃ r ∈ db.events, eventId r.2 = o.2 ∧ db.entry o = some (o.1, r.2) :=
    fun o ho => exists_entry hdb hfeeds ho
  generalize db.outbox = outbox at hentries
  induction outbox with
  | nil => exact .nil
  | cons o outbox ih =>
    rw [List.forall_mem_cons] at hentries
    obtain ⟨⟨r, hr, hid, hentry⟩, hentries⟩ := hentries
    rw [List.filterMap_cons_some hentry]
    exact .cons ⟨rfl, hid, r, hr, rfl⟩ (ih hentries)

theorem length_fullFeed : db.fullFeed.length = db.outbox.length :=
  (forall₂_fullFeed hdb hfeeds).length_eq.symm

/-- **The positions of the feed** are 1, 2, 3, …. -/
theorem fullFeed_positions : db.fullFeed.map Prod.fst = List.range' 1 db.fullFeed.length := by
  rw [length_fullFeed hdb hfeeds, ← hfeeds.positions, ← List.forall₂_eq_eq_eq,
    List.forall₂_map_left_iff, List.forall₂_map_right_iff]
  exact (forall₂_fullFeed hdb hfeeds).flip.imp fun _ _ h => h.1

theorem fullFeed_eventIds : db.fullFeed.map (fun p => eventId p.2) = db.outbox.map Prod.snd := by
  rw [← List.forall₂_eq_eq_eq, List.forall₂_map_left_iff, List.forall₂_map_right_iff]
  exact (forall₂_fullFeed hdb hfeeds).flip.imp fun _ _ h => h.2.1

theorem mem_events_of_fullFeed {p : ℕ × Row} (hp : p ∈ db.fullFeed) : ∃ r ∈ db.events, r.2 = p.2 := by
  rw [fullFeed_eq hfeeds] at hp
  obtain ⟨o, ho, hentry⟩ := List.mem_filterMap.mp hp
  obtain ⟨r, hr, -, hr'⟩ := exists_entry hdb hfeeds ho
  rw [hentry, Option.some.injEq] at hr'
  exact ⟨r, hr, by rw [hr']⟩

/-- **A read answers the next rows of the feed.** -/
theorem feed_eq (after : ℕ) (limit : Option ℕ) :
    db.feed .nothing after limit = limited limit (db.fullFeed.drop after) := by
  rw [feed_eq_entries hfeeds, fullFeed_eq hfeeds]
  refine congrArg (limited limit) ?_
  have hentries : ∀ o ∈ db.outbox, ∃ p, db.entry o = some p := fun o ho => by
    obtain ⟨r, -, -, hentry⟩ := exists_entry hdb hfeeds ho
    exact ⟨_, hentry⟩
  generalize db.outbox = outbox at hentries
  induction outbox generalizing after with
  | nil => rw [List.drop_nil, List.filterMap_nil, List.drop_nil]
  | cons o outbox ih =>
    rw [List.forall_mem_cons] at hentries
    obtain ⟨⟨p, hp⟩, hentries⟩ := hentries
    cases after with
    | zero => rfl
    | succ after => rw [List.drop_succ_cons, List.filterMap_cons_some hp, List.drop_succ_cons, ih _ hentries]

/-- **The feed only grows at its end.** -/
theorem fullFeed_start (hdb' : Numbered db') (hfeeds' : Feeds db'.events db'.outbox)
    (hgrows : Grows db db') (houtbox : db.outbox <+: db'.outbox) : db.fullFeed <+: db'.fullFeed := by
  obtain ⟨more, hmore⟩ := houtbox
  rw [fullFeed_eq hfeeds, fullFeed_eq hfeeds', ← hmore, List.filterMap_append]
  refine ⟨_, congrArg (· ++ _) (List.filterMap_congr fun o ho => ?_)⟩
  obtain ⟨r, hr, hid, hentry⟩ := exists_entry hdb hfeeds ho
  rw [hentry]
  exact (entry_eq hdb' (hgrows.events.subset hr) hid).symm

/-- **Of every stream the feed has a start.** -/
theorem fullFeed_stream (name : String) :
    (db.fullFeed.map Prod.snd).filter (fun r => stream r = name) <+:
      (onStream db.events name).map Prod.snd := by
  have hids : (db.fullFeed.map (fun p => eventId p.2)).Nodup := by
    rw [fullFeed_eventIds hdb hfeeds]
    exact hfeeds.once
  have hrows : (db.events.map Prod.snd).Nodup := List.Nodup.of_map eventId (by
    rw [List.map_map]
    exact hdb.eventIds)
  refine Precedence.prefix_of_before ?_ ?_ (fun r hr => ?_) fun x y hxy hy => ?_
  · exact hrows.sublist (List.filter_sublist.map Prod.snd)
  · refine List.Nodup.filter _ (List.Nodup.of_map eventId ?_)
    rwa [List.map_map]
  · obtain ⟨hr, hname⟩ := List.mem_filter.mp hr
    obtain ⟨p, hp, rfl⟩ := List.mem_map.mp hr
    obtain ⟨x, hx, heq⟩ := mem_events_of_fullFeed hdb hfeeds hp
    rw [← heq] at hname ⊢
    exact List.mem_map_of_mem (mem_onStream.mpr ⟨hx, of_decide_eq_true hname⟩)
  · obtain ⟨p, q, hpq, rfl, rfl⟩ := Precedence.before_map_iff.mp hxy
    obtain ⟨hp, hpname⟩ := mem_onStream.mp hpq.mem_left
    obtain ⟨hq, hqname⟩ := mem_onStream.mp hpq.mem_right
    have hsorted : (onStream db.events name).Pairwise (fun r r' => r.1 < r'.1) := hdb.ids.filter _
    have hlt : p.1 < q.1 := List.pairwise_iff_forall_sublist.mp hsorted hpq
    have hids : (db.fullFeed.map Prod.snd).map eventId = db.outbox.map Prod.snd := by
      rw [List.map_map]
      exact fullFeed_eventIds hdb hfeeds
    have hlisted : eventId q.2 ∈ db.outbox.map Prod.snd :=
      hids ▸ List.mem_map_of_mem (List.mem_of_mem_filter hy)
    have hordered := hfeeds.ordered p hp q hq (hpname.trans hqname.symm) hlt hlisted
    rw [← hids] at hordered
    obtain ⟨a, b, hab, ha, hb⟩ := Precedence.before_map_iff.mp hordered
    -- The rows of the feed with these ids are these rows.
    have hrow : ∀ {c : Row} {r : ℕ × Row}, c ∈ db.fullFeed.map Prod.snd → r ∈ db.events →
        eventId c = eventId r.2 → c = r.2 := by
      intro c r hc hr hid
      obtain ⟨o, ho, rfl⟩ := List.mem_map.mp hc
      obtain ⟨z, hz, hzo⟩ := mem_events_of_fullFeed hdb hfeeds ho
      rw [← hzo, hdb.eq_of_eventId hz hr (by rw [hzo, hid])]
    rw [hrow hab.mem_left hp ha, hrow hab.mem_right hq hb] at hab
    exact Precedence.before_filter_iff.mpr ⟨hab, by simpa using hpname, by simpa using hqname⟩

end Feed

/-! ### Readers -/

/-- A reader has received the first rows of the feed, up to its position. -/
structure Reader.UpTo (db : Database Row) (r : Reader Row) : Prop where
  behind : r.lastId ≤ db.fullFeed.length
  received : r.received = db.fullFeed.take r.lastId

theorem Reader.UpTo.grows {r : Reader Row} (h : r.UpTo db) (hstart : db.fullFeed <+: db'.fullFeed) :
    r.UpTo db' := by
  refine ⟨h.behind.trans hstart.length_le, ?_⟩
  obtain ⟨more, hmore⟩ := hstart
  rw [h.received, ← hmore, List.take_append_of_le_length h.behind]

/-- **A reader goes on where it was**, with the next rows. -/
theorem Reader.UpTo.receive {r : Reader Row} (h : r.UpTo db)
    (hpositions : db.fullFeed.map Prod.fst = List.range' 1 db.fullFeed.length) {rows : List (ℕ × Row)}
    (hrows : rows <+: db.fullFeed.drop r.lastId) : (r.receive rows).UpTo db := by
  have hlength : rows.length ≤ db.fullFeed.length - r.lastId := by
    rw [← List.length_drop]
    exact hrows.length_le
  have hlast : (r.receive rows).lastId = r.lastId + rows.length := by
    have hmap := hrows.map Prod.fst
    rw [List.map_drop, hpositions, List.drop_range', Nat.mul_one, List.prefix_iff_eq_take,
      List.length_map, List.take_range'_of_length_ge hlength] at hmap
    show (rows.getLast?.map Prod.fst).getD r.lastId = _
    rw [← List.getLast?_map, hmap, List.getLast?_range']
    split
    next hzero => rw [hzero, Option.getD_none, Nat.add_zero]
    next hpos =>
      rw [Option.getD_some]
      omega
  refine ⟨?_, ?_⟩
  · have := h.behind
    omega
  · rw [hlast, List.take_add]
    show r.received ++ rows = _
    rw [h.received, List.prefix_iff_eq_take.mp hrows, List.length_take_of_le (by rwa [List.length_drop])]

/-! ### Parties -/

section Parties

variable {A ι : Type} [Appendable A Row] {log : Rely (Database Row) (Written Row)}
  {Settled : Database Row → Written Row → Prop}

/-- A discipline of the log under which decisions and appends are settled. -/
structure FeedDiscipline (A : Type) (log : Rely (Database Row) (Written Row))
    (Settled : Database Row → Written Row → Prop) : Prop extends LogDiscipline log Settled where
  decides : ∀ {attempt result db own past}, Ended attempt (.ok result) own past →
    log.Holds db own past → Settled db own
  appends : A → ∀ {db own}, Settled db own
  empty : log.Inv .empty

omit [Appendable A Row] in
theorem feed_discipline : FeedDiscipline A (rely : Rely (Database Row) _) (fun _ _ => True) :=
  { log_discipline with
    decides := fun _ _ => trivial
    appends := fun _ _ _ => trivial
    empty := numbered_empty }

theorem relayed_empty : Relayed (.empty : Database Row) :=
  ⟨⟨rfl, List.nodup_nil, (fun _ h => nomatch h), fun _ h => nomatch h⟩,
    ⟨(fun _ h => nomatch h), fun _ h => nomatch h⟩⟩

theorem party_tasks (h : FeedDiscipline A log Settled) :
    Tasks (relayRely log) RelayOwes engine Job.program (fun _ : ι => party A Row)
      (RelaySettled Settled) (JobEnd log Settled) (fun _ _ => True) where
  wp job _ := wp_job h.toLogDiscipline h.decides h.appends job
  settled hends := hends.settled _ rfl
  resume _ _ _ := trivial
  lost _ := trivial

abbrev Parties.Sound (log : Rely (Database Row) (Written Row))
    (Settled : Database Row → Written Row → Prop) (s : Parties A Row ι) : Prop :=
  Safe (relayRely log) RelayOwes Clash engine (fun _ => party A Row) (JobEnd log Settled)
    (fun _ _ => True) s

/-- A party that reads has received the first rows of the feed. -/
def Party.UpTo (db : Database Row) : Party A Row → Prop
  | .reader r => r.UpTo db
  | _ => True

omit [Appendable A Row] in
theorem Party.UpTo.resume {p : Party A Row} (h : p.UpTo db) {job : Job A}
    (hnext : p.next = some job) {r : Except PyError (Answer Row)} {own : Written Row}
    {past : List (Step Row)} (hdb : Numbered db) (hlog : LogDiscipline log Settled)
    (hends : JobEnd log Settled job r db own past) : (p.resume r).UpTo db := by
  cases p with
  | client c =>
    rw [Party.resume]
    cases Party.decided r <;> trivial
  | appender queue answers =>
    rw [Party.resume]
    cases Party.appended r <;> trivial
  | relay => trivial
  | reader reader =>
    cases r with
    | error e => exact ⟨h.behind, h.received⟩
    | ok answer =>
      cases answer with
      | decided | appended => exact h
      | relayed => exact ⟨h.behind, h.received⟩
      | fed rows =>
        obtain ⟨after, limit, t, rfl, ht, hgrows, rfl⟩ := hends.fed _ rfl
        have hafter : reader.relayed = true ∧ reader.lastId = after := by
          have hjob := Option.some.inj hnext
          split at hjob
          next hrelayed => exact ⟨hrelayed, (Job.feed.inj hjob).1⟩
          next => cases hjob
        have hfeeds := hends.holds.inv.2.feeds
        refine Reader.UpTo.receive h (fullFeed_positions hdb hfeeds) ?_
        rw [feed_eq (hlog.numbered ht.1) ht.2.feeds, hafter.2]
        have hstart := fullFeed_start (hlog.numbered ht.1) ht.2.feeds hdb hfeeds
          (hlog.grows hgrows.1) hgrows.2
        exact (limited_start _ _).trans (hstart.drop after)

variable [DecidableEq ι] [∀ s : Parties A Row ι, ∀ i op, Decidable (s.Waits engine i op)]

/-- **Parties keep to what they owe, and readers to the feed**, in every state of a run. -/
theorem Parties.sound_run (h : FeedDiscipline A log Settled) (roles : ι → Role A)
    (moves : List (Move ι)) : (Parties.run roles moves : Parties A Row ι).Sound log Settled ∧
      ∀ i, ((Parties.run roles moves : Parties A Row ι).sessions i).locals.UpTo
        (Parties.run roles moves : Parties A Row ι).shared := by
  have hstart : (Parties.start roles : Parties A Row ι).Sound log Settled := by
    refine ⟨⟨h.empty, relayed_empty⟩, fun _ => trivial, ?_, ?_⟩
    · exact fun _ _ _ _ hown => nomatch hown
    · exact fun _ _ _ _ _ hphase => nomatch hphase
  have hreaders : ∀ i, ((Parties.start roles : Parties A Row ι).sessions i).locals.UpTo .empty := by
    intro i
    show (roles i).party.UpTo _
    cases roles i with
    | reader limit => exact ⟨Nat.zero_le _, rfl⟩
    | client | appender | relay => trivial
  have hstep : ∀ (s : Parties A Row ι) (move : Move ι), (s.Sound log Settled ∧
      ∀ i, (s.sessions i).locals.UpTo s.shared) → (s.next move).Sound log Settled ∧
        ∀ i, ((s.next move).sessions i).locals.UpTo (s.next move).shared := ?_
  · exact Runs.run_invariant _ hstep moves ⟨hstart, hreaders⟩
  intro s move hs
  refine ⟨hs.1.next (relay_discipline h.toLogDiscipline) (party_tasks h) move,
    hs.1.knows_next (relay_discipline h.toLogDiscipline) (party_tasks h) ?_ ?_ ?_ hs.2 move⟩
  · intro i db db' p hdb hdb' hgrows hp
    cases p with
    | reader r =>
      exact hp.grows (fullFeed_start (h.numbered hdb.1) hdb.2.feeds (h.numbered hdb'.1) hdb'.2.feeds
        (h.grows hgrows.1) hgrows.2)
    | client | appender | relay => trivial
  · intro i db p job r own past hp hnext hends
    exact hp.resume hnext (h.numbered hends.holds.inv.1) h.toLogDiscipline hends
  · intro i db p hp
    cases p with
    | reader r => exact ⟨hp.behind, hp.received⟩
    | client c => trivial
    | appender | relay => trivial

/-! ### The result -/

/-- What a reader has received: the first rows of the feed, each of them once, and of every stream
its first rows, in their order. -/
structure Received (db : Database Row) (r : Reader Row) : Prop where
  rows : r.received <+: db.fullFeed
  count : r.received.length = r.lastId
  positions : r.received.map Prod.fst = List.range' 1 r.lastId
  once : (r.received.map (fun p => eventId p.2)).Nodup
  committed : ∀ p ∈ r.received, ∃ x ∈ db.events, x.2 = p.2
  streams : ∀ name, ((r.received.map Prod.snd).filter (fun row => stream row = name)).map seq =
    consecutive 0 ((r.received.map Prod.snd).filter (fun row => stream row = name)).length

omit [DecidableEq ι] [∀ s : Parties A Row ι, ∀ i op, Decidable (s.Waits engine i op)]
  [Appendable A Row] in
theorem Reader.UpTo.received_of {r : Reader Row} (h : r.UpTo db) (hdb : Numbered db)
    (hfeeds : Feeds db.events db.outbox) : Received db r := by
  have hstart : r.received <+: db.fullFeed := by
    rw [h.received]
    exact List.take_prefix _ _
  have hcount : r.received.length = r.lastId := by
    rw [h.received, List.length_take_of_le h.behind]
  refine ⟨hstart, hcount, ?_, ?_, fun p hp => ?_, fun name => ?_⟩
  · rw [h.received, List.map_take, fullFeed_positions hdb hfeeds,
      List.take_range'_of_length_ge h.behind]
  · refine List.Nodup.sublist (hstart.sublist.map _) ?_
    rw [fullFeed_eventIds hdb hfeeds]
    exact hfeeds.once
  · exact mem_events_of_fullFeed hdb hfeeds (hstart.subset hp)
  · have hstream := ((hstart.map Prod.snd).filter (fun row => stream row = name)).trans
      (fullFeed_stream hdb hfeeds name)
    have hseqs := hstream.map seq
    rw [List.map_map, show (seq ∘ Prod.snd : ℕ × Row → Int) = fun r => seq r.2 from rfl,
      hdb.seqs name] at hseqs
    have hconsecutive := eq_consecutive_of_prefix hseqs
    rwa [List.length_map] at hconsecutive

/-- **The feed misses nothing**: its positions are 1, 2, 3, … of committed events, each of which
has one; a relay that commits has given one to every event that was committed when it read; no
position is taken away or put before one that is there; and a reader has received the first rows
of the feed. -/
theorem feed_misses_nothing (roles : ι → Role A) (moves : List (Move ι)) :
    let s := (Parties.run roles moves : Parties A Row ι)
    s.shared.outbox.map Prod.fst = List.range' 1 s.shared.outbox.length ∧
    (s.shared.outbox.map Prod.snd).Nodup ∧
    (∀ o ∈ s.shared.outbox, ∃ r ∈ s.shared.events, eventId r.2 = o.2) ∧
    (∀ i past own n, (s.sessions i).phase = .running .relay past own (.pure (.relayed n)) →
      (s.next (.proceed i)).shared.outbox.length = s.shared.outbox.length + n ∧
      ∃ step ∈ past, step.op = .pending ∧ ∀ x ∈ step.seen.events,
        eventId x.2 ∈ (s.next (.proceed i)).shared.outbox.map Prod.snd) ∧
    (∀ more, s.shared.outbox <+: (Parties.run roles (moves ++ more) : Parties A Row ι).shared.outbox) ∧
    ∀ i r, (s.sessions i).locals = .reader r → Received s.shared r := by
  intro s
  have hfeed : FeedDiscipline A (rely : Rely (Database Row) _) (fun _ _ => True) := feed_discipline
  obtain ⟨hsound, hreaders⟩ := Parties.sound_run hfeed roles moves
  have hfeeds : Feeds s.shared.events s.shared.outbox := hsound.inv.2.feeds
  refine ⟨hfeeds.positions, hfeeds.once, hfeeds.known, fun i past own n hphase => ?_,
    fun more => ?_, fun i r hr => ?_⟩
  · have hends := (hsound.ends hphase).relayed n rfl
    have hshared : (s.next (.proceed i)).shared = publish s.shared own := by
      show (s.proceed engine Job.program (fun _ => party A Row) i).shared = _
      rw [State.proceed, hphase]
      rfl
    rw [hshared]
    refine ⟨?_, hends.covered⟩
    show (s.shared.outbox ++ own.outbox).length = _
    rw [List.length_append, hends.count]
  · rw [Parties.run, Runs.run_append]
    exact (hsound.grows_run (relay_discipline hfeed.toLogDiscipline) (party_tasks hfeed) more).2
  · have hreader : (s.sessions i).locals.UpTo s.shared := hreaders i
    rw [hr] at hreader
    exact hreader.received_of hsound.inv.1 hfeeds

/-- An event that has the smaller id and commits later gets the later position. -/
example :
    let event (stream eventId : String) : Appending :=
      ⟨stream, some eventId, none, none, none, none, ⟨none, none, none, none, none⟩, ⟨1, by decide⟩⟩
    let roles : Fin 3 → Role Appending
      | 0 => .appender [event "a" "first"]
      | 1 => .appender [event "b" "second"]
      | 2 => .relay
    let steps (i : Fin 3) (n : ℕ) := List.replicate n (Move.proceed i)
    let s : Parties Appending EventRecord (Fin 3) :=
      Parties.run roles (steps 0 4 ++ steps 1 5 ++ steps 2 8 ++ steps 0 1 ++ steps 2 8)
    s.shared.outbox = [(1, "second"), (2, "first")] ∧
      s.shared.events.map (fun r => (r.1, r.2.eventId)) = [(1, "first"), (2, "second")] := by
  decide +kernel

end Parties

end Cloudscale.Postgres
