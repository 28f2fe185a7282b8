import Cloudscale.Adapters.Postgres.EventStore
import Cloudscale.Lib.Precedence
import Cloudscale.Postgres.Numbering

/-!
# The outbox on PostgreSQL

An outbox feeds a log (`Feeds`) when its positions are 1, 2, 3, …, each of its events
is a committed one that it has once, and a row of a stream has a position only after the
earlier rows of that stream.  A row is marked as published just when its event has a
position (`Marked`).

Transactions that keep the streams numbered keep this too, if they owe it before
what they write to the outbox (`Relays`): `relay_discipline` adds the outbox to any
discipline of the log (`LogDiscipline`).
-/

namespace Cloudscale.Postgres

open Checked Python ReadCommitted LogRow

variable {Row : Type} [LogRow Row] {db db' : Database Row} {own own' other : Written Row}
  {outbox : List (ℕ × String)} {published : List ℕ}

/-! ### Definitions -/

/-- **An outbox of a log.** -/
structure Feeds (events : List (ℕ × Row)) (outbox : List (ℕ × String)) : Prop where
  positions : outbox.map Prod.fst = List.range' 1 outbox.length
  once : (outbox.map Prod.snd).Nodup
  known : ∀ o ∈ outbox, ∃ r ∈ events, eventId r.2 = o.2
  ordered : ∀ x ∈ events, ∀ y ∈ events, stream x.2 = stream y.2 → x.1 < y.1 →
    eventId y.2 ∈ outbox.map Prod.snd →
      Precedence.Before (outbox.map Prod.snd) (eventId x.2) (eventId y.2)

/-- The marked rows are those that have a position. -/
structure Marked (events : List (ℕ × Row)) (outbox : List (ℕ × String)) (published : List ℕ) :
    Prop where
  known : ∀ id ∈ published, ∃ r ∈ events, r.1 = id
  marks : ∀ r ∈ events, r.1 ∈ published ↔ eventId r.2 ∈ outbox.map Prod.snd

structure Relayed (db : Database Row) : Prop where
  feeds : Feeds db.events db.outbox
  marked : Marked db.events db.outbox db.published

/-- What a transaction has written to the outbox goes on where that ends, and it writes there
under the lock only. -/
structure Carries (db : Database Row) (own : Written Row) : Prop where
  unlocked : own.relaying = false → own.outbox = [] ∧ own.published = []
  feeds : Feeds db.events (db.outbox ++ own.outbox)

/-- What a transaction owes before it writes to the outbox. -/
structure Relays (op : Statement Row) (db : Database Row) (own : Written Row) : Prop where
  locked : ∀ rows ids, op = .insertOutbox rows ∨ op = .markPublished ids → own.relaying = true
  feeds : ∀ rows, op = .insertOutbox rows →
    ((db.outbox ++ own.outbox ++ rows).map Prod.fst).Nodup →
    ((db.outbox ++ own.outbox ++ rows).map Prod.snd).Nodup →
    Feeds db.events (db.outbox ++ own.outbox ++ rows)

/-- A discipline of transactions that keeps the streams numbered; one that appends nothing and
records no result is settled. -/
structure LogDiscipline (log : Rely (Database Row) (Written Row))
    (Settled : Database Row → Written Row → Prop) : Prop where
  discipline : Discipline log Owes Clash (engine : Engine (Database Row) _ _ _ _) Settled
  numbered : ∀ {db}, log.Inv db → Numbered db
  grows : ∀ {db db'}, log.Grows db db' → Grows db db'
  owns : ∀ {db own}, log.Owns db own → Owns db own
  settled : ∀ {db own}, own.events = [] → own.results = [] → Settled db own

/-- What a transaction relies on, with the outbox. -/
def relayRely (log : Rely (Database Row) (Written Row)) : Rely (Database Row) (Written Row) where
  Inv db := log.Inv db ∧ Relayed db
  Grows db db' := log.Grows db db' ∧ db.outbox <+: db'.outbox
  Owns db own := log.Owns db own ∧ Carries db own
  refl db := ⟨log.refl db, List.prefix_refl _⟩
  trans h h' := ⟨log.trans h.1 h'.1, h.2.trans h'.2⟩

def RelayOwes (op : Statement Row) (db : Database Row) (own : Written Row) : Prop :=
  Owes op db own ∧ Relays op db own

/-- A transaction can be published, with what it has written to the outbox. -/
def RelaySettled (Settled : Database Row → Written Row → Prop) (db : Database Row)
    (own : Written Row) : Prop :=
  Settled db own ∧ Marked db.events (db.outbox ++ own.outbox) (db.published ++ own.published)

theorem log_discipline : LogDiscipline (rely : Rely (Database Row) _) (fun _ _ => True) :=
  ⟨discipline, id, id, id, fun _ _ => trivial⟩

/-! ### Growth -/

theorem Numbered.eq_of_eventId (h : Numbered db) {x y : ℕ × Row} (hx : x ∈ db.events)
    (hy : y ∈ db.events) (heq : eventId x.2 = eventId y.2) : x = y :=
  List.inj_on_of_nodup_map h.eventIds hx hy heq

/-- What comes before a row of its stream was there when the row was. -/
theorem Grows.mem_of_lt (h : Grows db db') (hdb' : Numbered db') {x y : ℕ × Row}
    (hx : x ∈ db'.events) (hy : y ∈ db.events) (hstream : stream x.2 = stream y.2)
    (hlt : x.1 < y.1) : x ∈ db.events := by
  obtain ⟨rest, hrest⟩ := h.streams (stream y.2)
  have hmem : x ∈ onStream db.events (stream y.2) ++ rest := by
    rw [hrest]
    exact mem_onStream.mpr ⟨hx, hstream⟩
  rcases List.mem_append.mp hmem with hmem | hmem
  · exact (mem_onStream.mp hmem).1
  · have hsorted : (onStream db.events (stream y.2) ++ rest).Pairwise (fun r r' => r.1 < r'.1) := by
      rw [hrest]
      exact hdb'.ids.filter _
    have hlater := (List.pairwise_append.mp hsorted).2.2 y (mem_onStream.mpr ⟨hy, rfl⟩) x hmem
    omega

/-- **An outbox goes on feeding a log that grows.** -/
theorem Feeds.grows (h : Feeds db.events outbox) (hgrows : Grows db db') (hdb' : Numbered db') :
    Feeds db'.events outbox := by
  refine ⟨h.positions, h.once, fun o ho => ?_, fun x hx y hy hstream hlt hlisted => ?_⟩
  · obtain ⟨r, hr, hid⟩ := h.known o ho
    exact ⟨r, hgrows.events.subset hr, hid⟩
  · -- A row with a position was there before, and so were those before it.
    obtain ⟨o, ho, hoid⟩ := List.mem_map.mp hlisted
    obtain ⟨r, hr, hid⟩ := h.known o ho
    obtain rfl : r = y :=
      hdb'.eq_of_eventId (hgrows.events.subset hr) hy (hid.trans hoid)
    exact h.ordered x (hgrows.mem_of_lt hdb' hx hr hstream hlt) r hr hstream hlt hlisted

theorem Marked.publish (h : Marked db.events outbox published) (hfeeds : Feeds db.events outbox)
    (howns : Owns db own) : Marked (publish db own).events outbox published := by
  refine ⟨fun id hid => ?_, fun r hr => ?_⟩
  · obtain ⟨r, hr, heq⟩ := h.known id hid
    exact ⟨r, mem_byId.mpr (List.mem_append_left _ hr), heq⟩
  · rcases List.mem_append.mp (mem_byId.mp hr) with hr | hr
    · exact h.marks r hr
    · refine iff_of_false (fun hmem => ?_) fun hmem => ?_
      · obtain ⟨x, hx, heq⟩ := h.known r.1 hmem
        exact (howns.fresh r.1 (howns.drawn r hr)).2 x hx heq
      · obtain ⟨o, ho, hoid⟩ := List.mem_map.mp hmem
        obtain ⟨x, hx, hid⟩ := hfeeds.known o ho
        exact howns.eventIds r hr x hx (hid.trans hoid)

/-! ### Executing -/

theorem outbox_of_exec {op : Statement Row} {reply : op.Res}
    (h : exec op db own = .ok (reply, own')) :
    (own'.outbox = own.outbox ∧ own'.published = own.published ∧
      (own'.relaying = own.relaying ∨ op = .lockRelay ∧ own'.relaying = true)) ∨
    (∃ rows, op = .insertOutbox rows ∧ own' = { own with outbox := own.outbox ++ rows } ∧
      ((db.outbox ++ own.outbox ++ rows).map Prod.fst).Nodup ∧
      ((db.outbox ++ own.outbox ++ rows).map Prod.snd).Nodup) ∨
    ∃ ids, op = .markPublished ids ∧ own' = { own with published := own.published ++ ids } := by
  have hread : ∀ {α : Type} {x : Except PyError α} {a : α}, x.map (·, own) = .ok (a, own') →
      own' = own := by
    intro α x a hx
    cases x with
    | error e => cases hx
    | ok b =>
      cases hx
      rfl
  cases op with
  | storedResult | foldStream | openHold | legsOf | revertedBy =>
    rw [hread h]
    exact Or.inl ⟨rfl, rfl, Or.inl rfl⟩
  | reading | issue | nextId | writeSnapshot | nextSeq | pending | head | feed =>
    cases h
    exact Or.inl ⟨rfl, rfl, Or.inl rfl⟩
  | insertEvent id row =>
    obtain ⟨-, rfl⟩ := insertEvent_eq_ok.mp h
    exact Or.inl ⟨rfl, rfl, Or.inl rfl⟩
  | insertResult row =>
    obtain ⟨-, rfl⟩ := insertResult_eq_ok.mp h
    exact Or.inl ⟨rfl, rfl, Or.inl rfl⟩
  | lockRelay =>
    cases h
    exact Or.inl ⟨rfl, rfl, Or.inr ⟨rfl, rfl⟩⟩
  | markPublished ids =>
    cases h
    exact Or.inr (Or.inr ⟨ids, rfl, rfl⟩)
  | insertOutbox rows =>
    change db.insertOutbox own rows = _ at h
    rw [Database.insertOutbox] at h
    split at h
    next hfits =>
      cases h
      exact Or.inr (Or.inl ⟨rows, rfl, rfl, hfits⟩)
    next => cases h

theorem Carries.exec {op : Statement Row} {reply : op.Res} (h : Carries db own)
    (howes : Relays op db own) (hexec : exec op db own = .ok (reply, own')) : Carries db own' := by
  rcases outbox_of_exec hexec with ⟨houtbox, hpublished, hlock⟩ | ⟨rows, rfl, rfl, hfits⟩ |
    ⟨ids, rfl, rfl⟩
  · refine ⟨fun hfree => ?_, ?_⟩
    · rcases hlock with hlock | ⟨-, hlock⟩
      · rw [houtbox, hpublished]
        exact h.unlocked (hlock ▸ hfree)
      · rw [hlock] at hfree
        cases hfree
    · rw [houtbox]
      exact h.feeds
  · refine ⟨fun hfree => ?_, ?_⟩
    · cases (howes.locked rows [] (Or.inl rfl)).symm.trans hfree
    · show Feeds db.events (db.outbox ++ (own.outbox ++ rows))
      rw [← List.append_assoc]
      exact howes.feeds rows rfl hfits.1 hfits.2
  · refine ⟨fun hfree => ?_, h.feeds⟩
    cases (howes.locked [] ids (Or.inr rfl)).symm.trans hfree

/-! ### The discipline of the outbox -/

theorem relay_mem_keys (h : own.relaying = true) : Key.relay ∈ own.keys := by
  rw [Written.keys, if_pos h]
  exact List.mem_append_right _ List.mem_cons_self

theorem unlocked_of_not_clash (h : ¬ Clash own other) :
    own.relaying = false ∨ other.relaying = false := by
  by_contra hboth
  rw [not_or, Bool.not_eq_false, Bool.not_eq_false] at hboth
  exact h ⟨.relay, relay_mem_keys hboth.1, relay_mem_keys hboth.2⟩

/-- **Why the outbox goes on feeding the log.** -/
theorem relay_discipline {log : Rely (Database Row) (Written Row)}
    {Settled : Database Row → Written Row → Prop} (hlog : LogDiscipline log Settled) :
    Discipline (relayRely log) RelayOwes Clash (engine : Engine (Database Row) _ _ _ _)
      (RelaySettled Settled) where
  clash_symm := hlog.discipline.clash_symm
  clash_blank := hlog.discipline.clash_blank
  blank {db} h := by
    refine ⟨hlog.discipline.blank h.1, fun _ => ⟨rfl, rfl⟩, ?_⟩
    show Feeds db.events (db.outbox ++ [])
    rw [List.append_nil]
    exact h.2.feeds
  draw {db} op h := by
    obtain ⟨hinv, hgrows, howns⟩ := hlog.discipline.draw op h.1
    obtain ⟨heq, -⟩ := draw_eq op db
    have hevents : (draw op db).events = db.events := by rw [heq]
    have houtbox : (draw op db).outbox = db.outbox := by rw [heq]
    have hpublished : (draw op db).published = db.published := by rw [heq]
    refine ⟨⟨hinv, ?_, ?_⟩, ⟨hgrows, ?_⟩, fun {own} hown => ⟨howns hown.1, hown.2.unlocked, ?_⟩⟩
    · show Feeds (draw op db).events (draw op db).outbox
      rw [hevents, houtbox]
      exact h.2.feeds
    · show Marked (draw op db).events (draw op db).outbox (draw op db).published
      rw [hevents, houtbox, hpublished]
      exact h.2.marked
    · show db.outbox <+: (draw op db).outbox
      rw [houtbox]
    · show Feeds (draw op db).events ((draw op db).outbox ++ own.outbox)
      rw [hevents, houtbox]
      exact hown.2.feeds
  exec {db op own own' reply} hdb howns howes hexec := by
    obtain ⟨hown', hclash⟩ := hlog.discipline.exec hdb.1 howns.1 howes.1 hexec
    have hcarries : Carries db own' := howns.2.exec howes.2 hexec
    obtain ⟨heq, -⟩ := draw_eq op db
    refine ⟨⟨hown', hcarries.unlocked, ?_⟩, fun hother => hclash hother.1⟩
    show Feeds (draw op db).events ((draw op db).outbox ++ own'.outbox)
    rw [heq]
    exact hcarries.feeds
  publish {db own} hdb howns hsettled := by
    obtain ⟨hinv, hgrows, hothers⟩ := hlog.discipline.publish hdb.1 howns.1 hsettled.1
    have hnumbered : Numbered (publish db own) := hlog.numbered hinv
    have hfeeds := howns.2.feeds.grows (hlog.grows hgrows) hnumbered
    refine ⟨⟨hinv, hfeeds, hsettled.2.publish howns.2.feeds (hlog.owns howns.1)⟩,
      ⟨hgrows, List.prefix_append _ _⟩, fun {other} hother hclash =>
        ⟨hothers hother.1 hclash, hother.2.unlocked, ?_⟩⟩
    show Feeds (publish db own).events (db.outbox ++ own.outbox ++ other.outbox)
    rcases unlocked_of_not_clash hclash with hfree | hfree
    · rw [(howns.2.unlocked hfree).1, List.append_nil]
      exact hother.2.feeds.grows (hlog.grows hgrows) hnumbered
    · rw [(hother.2.unlocked hfree).1, List.append_nil]
      exact hfeeds

end Cloudscale.Postgres
