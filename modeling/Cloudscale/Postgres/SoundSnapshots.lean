import Cloudscale.Adapters.Postgres.Snapshots
import Cloudscale.Ledger.SoundSnapshots
import Cloudscale.Lib.Covering
import Cloudscale.Postgres.Serializability

/-!
# Sound snapshots on PostgreSQL

Of a stream a transaction sees what is committed and what it has appended itself
(`Database.view`).  A row of `stream_snapshots` is `Faithful` when it is the fold of the stream up
to its anchor, or when no read accepts it.  What a transaction sees only grows, and at its commit
it is what all see; so a row that is faithful when it is written stays so.

With that the database with its snapshots is one over the database without them
(`snapshotCover`).

The tracker of an attempt knows states of its streams, each no later than the stream that the
attempt sees, and the fold of it if it is as late (`Tracked`).  While nobody else appends to the
stream the tracker is up to date, and a snapshot that it says is due is sound.  If somebody else has
appended, the state is of an earlier position than the snapshot, which is then refused.
-/

namespace Cloudscale.Postgres

open Checked Python ReadCommitted LogRow Tables Snapshots

/-! ### What a transaction sees of a stream -/

/-- The log as a transaction sees it, stream by stream. -/
def Database.view (db : Database EventRow) (own : Written EventRow) : Store :=
  ⟨db.events.map Prod.snd ++ own.events.map Prod.snd, db.results⟩

section View

variable {db db' : Database EventRow} {own own' : Written EventRow} {a : String}

theorem map_snd_onStream (rows : List (ℕ × EventRow)) (a : String) :
    (onStream rows (streamName a)).map Prod.snd =
      (rows.map Prod.snd).filter (fun r => r.event.accountId = a) := by
  rw [onStream, List.filter_map]
  exact congrArg _ (List.filter_congr fun r _ => decide_eq_decide.mpr (r.2.stream_eq_iff a))

theorem streamOf_view (db : Database EventRow) (own : Written EventRow) (a : String) :
    (db.view own).streamOf a = (onStream db.events (streamName a)).map Prod.snd ++
      (onStream own.events (streamName a)).map Prod.snd := by
  rw [map_snd_onStream, map_snd_onStream]
  exact List.filter_append ..

theorem streamOf_view_of_nil (hnil : own.events = []) :
    (db.view own).streamOf a = db.store.streamOf a := by
  rw [Database.view, hnil, List.map_nil, List.append_nil]
  rfl

/-- **At its commit what a transaction saw is what all see.** -/
theorem streamOf_publish (hdb : Numbered db) (howns : Owns db own) :
    (publish db own).store.streamOf a = (db.view own).streamOf a := by
  rw [streamOf_view, ← List.map_append, ← onStream_byId hdb howns, map_snd_onStream]
  rfl

theorem length_view (db : Database EventRow) (own : Written EventRow) (a : String) :
    ((db.view own).streamOf a).length =
      db.count (streamName a) + (onStream own.events (streamName a)).length := by
  rw [streamOf_view, List.length_append, List.length_map, List.length_map]
  rfl

section Grows

variable (hgrows : Grows db db')

include hgrows

theorem length_view_le (hown : own.events <+: own'.events) :
    ((db.view own).streamOf a).length ≤ ((db'.view own').streamOf a).length := by
  rw [length_view, length_view]
  exact Nat.add_le_add (hgrows.count_le _) (hown.filter _).length_le

/-- A stream that is no longer than it was is what it was. -/
theorem view_eq_of_length_le (hown : own.events <+: own'.events)
    (hle : ((db'.view own').streamOf a).length ≤ ((db.view own).streamOf a).length) :
    (db'.view own').streamOf a = (db.view own).streamOf a := by
  have hcount := hgrows.count_le (streamName a)
  have hfilter := hown.filter (fun r => stream r.2 = streamName a)
  have hlength := hfilter.length_le
  rw [length_view, length_view] at hle
  simp only [onStream] at hle
  rw [streamOf_view, streamOf_view, hgrows.onStream_eq (by omega)]
  simp only [onStream]
  rw [hfilter.eq_of_length_le (by omega)]

/-- **What a transaction sees of a stream grows** while others commit. -/
theorem prefix_view (howns : Owns db own) (howns' : Owns db' own) :
    (db.view own).streamOf a <+: (db'.view own).streamOf a := by
  by_cases hnil : onStream own.events (streamName a) = []
  · rw [streamOf_view, streamOf_view, hnil, List.map_nil, List.append_nil, List.append_nil]
    exact (hgrows.streams _).map _
  · -- Its first own row has the next number, so nobody else has appended to the stream.
    obtain ⟨r, hr⟩ := List.exists_mem_of_ne_nil _ hnil
    obtain ⟨hmem, hname⟩ := mem_onStream.mp hr
    obtain ⟨first, hfirst, hstream, hseq⟩ := howns.exists_first hmem
    rw [hname] at hstream hseq
    have hcount : db'.count (streamName a) ≤ db.count (streamName a) := by
      have hlater : seq first.2 ∈ (onStream own.events (streamName a)).map (fun r => seq r.2) :=
        List.mem_map_of_mem (mem_onStream.mpr ⟨hfirst, hstream⟩)
      rw [howns'.seqs, Streams.mem_consecutive, hseq] at hlater
      omega
    rw [streamOf_view, streamOf_view, hgrows.onStream_eq hcount]

end Grows

end View

/-! ### Rows that do no harm -/

/-- No read accepts the row: it is of another version of the state, or its state is not of its
position. -/
def Refused (row : SnapshotRow) : Prop :=
  ∃ read, stateFromJson row.stateJson = .ok read ∧
    (row.stateVersion ≠ currentStateVersion ∨ read.state.version ≠ row.seq)

/-- The row is sound, or no read accepts it. -/
def Faithful (s : Store) (a : String) (row : SnapshotRow) : Prop := Sound s a row ∨ Refused row

theorem Faithful.grows {s s' : Store} {a : String} {row : SnapshotRow} (h : Faithful s a row)
    (hstream : s.streamOf a <+: s'.streamOf a) : Faithful s' a row :=
  h.imp_left fun hsound => hsound.grows hstream

theorem Refused.rejected {row : SnapshotRow} (h : Refused row) : ∃ snapshot foreign,
    readSnapshot row = .ok (snapshot, foreign) ∧
      ∀ rows, ∃ reason, snapshotRejection snapshot rows = some reason := by
  obtain ⟨read, htext, hrefused⟩ := h
  refine ⟨⟨row.seq, read.state, row.stateVersion, row.anchorEventId⟩, read.foreign, ?_,
    fun rows => ?_⟩
  · rw [readSnapshot, htext, ok_bind]
    rfl
  · refine Option.ne_none_iff_exists'.mp fun hnone => ?_
    unfold snapshotRejection at hnone
    split_ifs at hnone with hversion hseq
    rw [not_not] at hversion hseq
    exact hrefused.elim (fun hne => hne hversion) fun hne => hne hseq

/-! ### The database under the snapshots -/

/-- Every row of the table is faithful to the log. -/
def AllFaithful (s : Store) (snapshots : Table String SnapshotRow) : Prop :=
  ∀ a row, snapshots.find (streamName a) = some row → Faithful s a row

theorem AllFaithful.grows {s s' : Store} {snapshots : Table String SnapshotRow}
    (h : AllFaithful s snapshots) (hstream : ∀ a, s.streamOf a <+: s'.streamOf a) :
    AllFaithful s' snapshots :=
  fun a row hrow => (h a row hrow).grows (hstream a)

theorem AllFaithful.putAll {s : Store} {snapshots rows : Table String SnapshotRow}
    (h : AllFaithful s snapshots) (hrows : AllFaithful s rows) :
    AllFaithful s (snapshots.putAll rows) := by
  intro a row hrow
  rw [Table.find_putAll, Option.or_eq_some_iff] at hrow
  rcases hrow with hrow | ⟨-, hrow⟩
  · exact hrows a row hrow
  · exact h a row hrow

theorem AllFaithful.put {s : Store} {snapshots : Table String SnapshotRow} {stream : String}
    {row : SnapshotRow} (h : AllFaithful s snapshots)
    (hrow : ∀ a, streamName a = stream → Faithful s a row) :
    AllFaithful s (snapshots.put stream row) := by
  intro a row' hrow'
  rw [Table.find_put] at hrow'
  split at hrow'
  next hstream =>
    cases hrow'
    exact hrow a hstream
  next => exact h a row' hrow'

/-- **The database without its snapshots** is one under the database with them. -/
def snapshotCover : Cover snapshotEngine engine serialRely where
  shared := SnapshotDatabase.database
  own := SnapshotWritten.written
  Inv s := AllFaithful s.database.store s.snapshots
  Owns s o := AllFaithful (s.database.view o.written) o.pending
  blank := rfl
  publish _ _ := rfl
  owns_blank _ := fun _ _ hrow => by cases hrow
  inv_draw {s} op h := by
    cases op with
    | log op =>
      refine h.grows fun a => ?_
      show s.database.store.streamOf a <+: (draw op s.database).store.streamOf a
      rw [(draw_eq op s.database).1]
      exact List.prefix_refl _
    | readSnapshot | selectFromSeq | selectAll | upsertSnapshot => exact h
  inv_publish {s o} hdb howns hinv hpending := by
    have hview := fun a => (streamOf_publish (a := a) hdb.numbered howns).symm
    refine (hinv.grows fun a => ?_).putAll (hpending.grows fun a => ?_)
    · have hprefix := ((Grows.publish hdb.numbered howns).streams (streamName a)).map Prod.snd
      rwa [map_snd_onStream, map_snd_onStream] at hprefix
    · rw [hview a]
      exact List.prefix_refl _
  stable hgrows howns howns' h := h.grows fun _ => prefix_view hgrows.grows howns howns'

/-! ### What the tracker knows -/

/-- A state of the tracker is no later than the stream, and its fold if it is as late. -/
def Tracked (tracker : SnapshotTracker) (db : Database EventRow) (own : Written EventRow) : Prop :=
  ∀ a state, tracker.states.find a = some state →
    state.version ≤ ((db.view own).streamOf a).length ∧
      (state.version = ((db.view own).streamOf a).length →
        Account.fold ((db.view own).eventsOf a) = .ok state)

section Tracked

variable {tracker tracker' : SnapshotTracker} {db db' : Database EventRow}
  {own own' : Written EventRow}

theorem tracked_new (every : Int) (db : Database EventRow) (own : Written EventRow) :
    Tracked (.new every) db own :=
  fun a state hstate => by cases hstate

theorem Tracked.grows (h : Tracked tracker db own) (hgrows : Grows db db')
    (hown : own.events <+: own'.events) : Tracked tracker db' own' := by
  intro a state hstate
  obtain ⟨hle, hfold⟩ := h a state hstate
  have hlength := length_view_le (a := a) hgrows hown
  refine ⟨hle.trans (by exact_mod_cast hlength), fun heq => ?_⟩
  have hsame := view_eq_of_length_le (a := a) hgrows hown (by omega)
  rw [Store.eventsOf, hsame]
  exact hfold (heq.trans (by rw [hsame]))

theorem Tracked.folded (h : Tracked tracker db own) {a : String} {state : AccountState}
    (hversion : state.version = ((db.view own).streamOf a).length)
    (hfold : Account.fold ((db.view own).eventsOf a) = .ok state) (seq : Int) :
    Tracked (tracker.folded a state seq) db own := by
  intro b state' hstate
  rw [SnapshotTracker.folded, Table.find_put] at hstate
  split at hstate
  next heq =>
    cases hstate
    rw [heq]
    exact ⟨hversion.le, fun _ => hfold⟩
  next => exact h b state' hstate

section Append

variable {id : ℕ} {envelope : EventEnvelope} {event : AccountEvent}

theorem view_withEvent (db : Database EventRow) (own : Written EventRow) (id : ℕ)
    (envelope : EventEnvelope) (event : AccountEvent) (a : String) :
    (db.view (own.withEvent id (.ofEnvelope envelope event))).streamOf a =
      (db.view own).streamOf a ++
        if event.accountId = a then [.ofEnvelope envelope event] else [] := by
  have happend : (db.view (own.withEvent id (.ofEnvelope envelope event))).events =
      (db.view own).events ++ [.ofEnvelope envelope event] := by
    show _ ++ (own.events ++ [(id, _)]).map Prod.snd = _ ++ _ ++ _
    rw [List.map_append, List.append_assoc]
    rfl
  rw [Store.streamOf_of_events happend, List.filter_singleton]
  congr 1
  by_cases ha : event.accountId = a <;> simp [ha, EventRow.ofEnvelope]

/-- **An append keeps the tracker no later than its streams.** -/
theorem Tracked.appended (h : Tracked tracker db own) {due : Option StreamSnapshot}
    (hafter : tracker.afterAppend envelope event = .ok (due, tracker')) :
    Tracked tracker' db (own.withEvent id (.ofEnvelope envelope event)) := by
  have hlater : Tracked tracker db (own.withEvent id (.ofEnvelope envelope event)) :=
    h.grows (Grows.refl db) (List.prefix_append _ _)
  rcases SnapshotTracker.afterAppend_cases hafter with
    ⟨-, rfl⟩ | ⟨prior, state, hprior, happly, hstates, -⟩
  · exact hlater
  intro a state' hstate'
  rw [hstates, Table.find_put] at hstate'
  split at hstate'
  next heq =>
    cases hstate'
    subst heq
    obtain ⟨hle, hfold⟩ := h _ _ hprior
    have hversion : state.version = prior.version + 1 := (Account.apply_eq_ok.mp happly).2.version
    rw [Store.eventsOf, view_withEvent, if_pos rfl, List.length_append, List.length_singleton,
      List.map_append]
    push_cast
    refine ⟨by omega, fun hlength => ?_⟩
    rw [Account.fold, Account.foldFrom_append]
    have hbefore := hfold (by omega)
    rw [Account.fold, Store.eventsOf] at hbefore
    rw [hbefore, ok_bind]
    exact bind_of happly _
  next => exact hlater a state' hstate'

/-- **A snapshot that is due does no harm**: it is the fold of the stream, or of a state that is not
of its position. -/
theorem Tracked.due (h : Tracked tracker' db (own.withEvent id (.ofEnvelope envelope event)))
    (howns : Owns db (own.withEvent id (.ofEnvelope envelope event)))
    {state : AccountState} (hstate : tracker'.states.find event.accountId = some state) :
    Faithful (db.view (own.withEvent id (.ofEnvelope envelope event))) event.accountId
      (rowOf ⟨envelope.streamVersion, state, currentStateVersion, envelope.eventId.str⟩) := by
  set row := EventRow.ofEnvelope envelope event
  have hstream := view_withEvent db own id envelope event event.accountId
  rw [if_pos rfl] at hstream
  -- The row has the last number of its stream.
  have hlength : (envelope.streamVersion : Int) =
      ((db.view (own.withEvent id row)).streamOf event.accountId).length := by
    have hseqs := howns.seqs (streamName event.accountId)
    have hown := onStream_withEvent own id row (streamName event.accountId)
    rw [if_pos (show stream row = streamName event.accountId from rfl)] at hown
    rw [hown, List.map_append, List.length_append, List.length_singleton,
      Streams.consecutive_concat] at hseqs
    have hlast := List.cons.inj (List.append_inj' hseqs rfl).2
    rw [length_view, hown, List.length_append, List.length_singleton]
    push_cast at hlast ⊢
    exact hlast.1.trans (add_assoc _ _ _).symm
  obtain ⟨-, hfold⟩ := h _ _ hstate
  set snapshot : StreamSnapshot :=
    ⟨envelope.streamVersion, state, currentStateVersion, envelope.eventId.str⟩ with hsnapshot
  have htext : stateFromJson (rowOf snapshot).stateJson = .ok ⟨state, false⟩ :=
    stateFromJson_toStateJson snapshot
  by_cases hversion : state.version = envelope.streamVersion
  · refine Or.inl (.upTo hstream rfl rfl rfl htext ?_)
    rw [← hstream]
    exact hfold (hversion.trans hlength)
  · exact Or.inr ⟨_, htext, Or.inr hversion⟩

end Append

end Tracked

end Cloudscale.Postgres
