import Cloudscale.Application.RelatedStorages
import Cloudscale.Postgres.SoundSnapshots

/-!
# Attempts over snapshots

An attempt of the unit of work with snapshots does what the attempt without them does, statement by
statement.  A fold that starts from a snapshot ends with the statement that reads the events after
it, and this stands for the read of the whole stream at that moment: the snapshot was faithful when
it was read and is so still.  What the tracker and the snapshots need beside is silent.

The tracker may refuse an append that the log would take.  The attempt gives up then, and does what
an attempt does whose connection is lost (`GivesUp`).

`callers_shadow` carries that to callers: whatever they do over snapshots, callers without
snapshots can do as well, with the same log, the same results, and, up to the texts of errors, the
same answers.
-/

namespace Cloudscale.Postgres

open Checked Python ReadCommitted LogRow Tables Snapshots Relational

/-- The attempt ends without a commit and is not run again. -/
def GivesUp (e : PyError) : Prop := e ≠ .integrityError

/-! ### Statements -/

section Statements

variable {gives : PyError → Prop} {α β : Type} {s : SnapshotDatabase} {o : SnapshotWritten}
  {db : Database EventRow} {own own' : Written EventRow}

theorem prefix_of_exec {op : Statement EventRow} {reply : op.Res}
    (h : exec op db own = .ok (reply, own')) : own.events <+: own'.events := by
  cases writes_of_exec h with
  | event => exact List.prefix_append _ _
  | result | drawn | snapshot | locked | other => exact List.prefix_refl _

theorem events_of_exec {op : Statement EventRow} {reply : op.Res} (hkeys : op.keys = [])
    (h : exec op db own = .ok (reply, own')) : own'.events = own.events := by
  cases writes_of_exec h with
  | event => cases hkeys
  | result | drawn | snapshot | locked | other => rfl

theorem exec_log (op : Statement EventRow) (s : SnapshotDatabase) (o : SnapshotWritten) :
    snapshotEngine.exec (.log op) s o =
      (exec op s.database o.written).map fun p => (p.1, { o with written := p.2 }) := rfl

/-- A statement on the log leaves what its transaction sees, or appends to it. -/
theorem prefix_view_of_exec {op : Statement EventRow} (h : own.events <+: own'.events)
    (a : String) : (db.view own).streamOf a <+: ((draw op db).view own').streamOf a := by
  rw [(draw_eq op db).1, streamOf_view, streamOf_view]
  exact (List.prefix_append_right_inj _).mpr ((h.filter _).map _)

/-- **A statement on the log stands for itself.** -/
theorem standsFor_log (op : Statement EventRow) (h : snapshotCover.Holds s o) :
    StandsFor snapshotCover (.log op) op s o := by
  have hown : snapshotCover.own (ownAfter o (snapshotEngine.exec (.log op) s o)) =
      ownAfter o.written (exec op s.database o.written) := by
    rw [exec_log]
    cases exec op s.database o.written <;> rfl
  refine ⟨rfl, hown, fun other hwaits => ?_, ?_, ?_⟩
  · obtain ⟨k, hk, hheld⟩ := List.any_eq_true.mp hwaits
    have hmem : k ∈ other.keys := List.mem_append_left _ (of_decide_eq_true hheld)
    exact List.any_eq_true.mpr ⟨k, hk, decide_eq_true hmem⟩
  · exact (serial_discipline.draw op h.relied).2.1
  · rw [exec_log]
    cases hexec : exec op s.database o.written with
    | error e => exact AllFaithful.grows h.owns fun a => prefix_view_of_exec (List.prefix_refl _) a
    | ok p => exact AllFaithful.grows h.owns fun a => prefix_view_of_exec (prefix_of_exec hexec) a

/-- A statement that only reads, and draws nothing. -/
structure Looks (op : SnapshotStatement) (s : SnapshotDatabase) (o : SnapshotWritten)
    (reply : op.Res) : Prop where
  answers : snapshotEngine.exec op s o = .ok (reply, o)
  draws : snapshotEngine.draw op s = s

theorem Looks.silent {op : SnapshotStatement} {reply : op.Res} (h : Looks op s o reply)
    (hholds : snapshotCover.Holds s o) : Silent snapshotCover op s o := by
  refine ⟨by rw [h.draws], by rw [h.answers]; rfl, ?_⟩
  rw [h.draws, h.answers]
  exact hholds.owns

/-- **A read of a stream stands for its fold.** -/
theorem Looks.standsFor {op : SnapshotStatement} {reply : op.Res} (h : Looks op s o reply)
    (hholds : snapshotCover.Holds s o) (a : String) :
    StandsFor snapshotCover op (.foldStream a) s o := by
  refine ⟨by rw [h.draws]; rfl, ?_, (fun _ hwaits => nomatch hwaits), serialRely.refl _, ?_⟩
  · rw [h.answers]
    have hread : exec (.foldStream a) s.database o.written =
        (foldStream (s.database.seen o.written) a).map (·, o.written) := rfl
    show o.written = ownAfter o.written (exec (.foldStream a) s.database o.written)
    rw [hread]
    cases foldStream (s.database.seen o.written) a <;> rfl
  · rw [h.draws, h.answers]
    exact hholds.owns

end Statements

/-! ### Folds -/

/-- What the tracker knows is no later than what is there. -/
abbrev Kept (tracker : SnapshotTracker) (s : SnapshotDatabase) (o : SnapshotWritten) : Prop :=
  Tracked tracker s.database o.written

abbrev Unwritten (o : SnapshotWritten) : Prop := o.written.events = []

/-- The same, before the first append. -/
abbrev Deciding (tracker : SnapshotTracker) (s : SnapshotDatabase) (o : SnapshotWritten) : Prop :=
  Unwritten o ∧ Kept tracker s o

section Folds

variable {gives : PyError → Prop} {s : SnapshotDatabase} {o : SnapshotWritten}
  {tracker : SnapshotTracker} {a : String}

theorem Kept.later {t : SnapshotDatabase} (h : Kept tracker s o)
    (hgrows : snapshotCover.Grows s t) : Kept tracker t o :=
  Tracked.grows h (Extends.grows hgrows) (List.prefix_refl _)

theorem Deciding.later {t : SnapshotDatabase} {o' : SnapshotWritten} (h : Deciding tracker s o)
    (hgrows : snapshotCover.Grows s t) (hnil : Unwritten o') : Deciding tracker t o' := by
  refine ⟨hnil, h.2.grows (Extends.grows hgrows) ?_⟩
  rw [h.1, hnil]

theorem perform_bind {α : Type} (op : SnapshotStatement) (f : op.Res → SnapshotProgram α)
    (tracker : SnapshotTracker) : (SnapshotAttempt.perform op >>= f) tracker =
      Prog.perform op >>= fun reply => f reply tracker := by
  refine congrArg (Prog.call op) (funext fun r => ?_)
  cases r <;> rfl

theorem serialized_of_holds (h : snapshotCover.Holds s o) : Serialized s.database := h.relied

theorem readable_of_holds (h : snapshotCover.Holds s o) : s.database.store.Readable :=
  (serialized_of_holds h).ledger.coherent.readable

theorem exec_foldStream (h : snapshotCover.Holds s o) (hnil : Unwritten o) (a : String) :
    engine.exec (.foldStream a) (snapshotCover.shared s) (snapshotCover.own o) =
      .ok (s.database.store.account a, o.written) := by
  show exec (.foldStream a) s.database o.written = _
  rw [exec, foldStream_seen (serialized_of_holds h).numbered hnil,
    Store.foldStream_eq (readable_of_holds h)]
  rfl

theorem events_seen (h : snapshotCover.Holds s o) (hnil : Unwritten o) :
    s.database.seen o.written = s.database.store.events :=
  seen_of_nil (serialized_of_holds h).numbered hnil

/-- The tracker is told of a fold that is the state of the account. -/
theorem refines_folded (hdeciding : Deciding tracker s o) (hread : s.database.store.Readable)
    (seq : Int) : Refines snapshotCover gives (SameEnd Deciding Unwritten)
      (SnapshotAttempt.folded a (s.database.store.account a) seq tracker)
      (Prog.pure (s.database.store.account a)) s o := by
  have hstream : (s.database.view o.written).streamOf a = s.database.store.streamOf a :=
    streamOf_view_of_nil hdeciding.1
  refine refines_pure fun t hgrows _ =>
    ⟨rfl, hdeciding.1, Kept.later (Tracked.folded hdeciding.2 ?_ ?_ seq) hgrows⟩
  · rw [hstream]
    exact Store.account_version hread a
  · rw [Store.eventsOf, hstream]
    exact Store.fold_eventsOf hread a

theorem refines_foldAll (hdeciding : Deciding tracker s o) (a : String) :
    Refines snapshotCover gives (SameEnd Deciding Unwritten) (SnapshotAttempt.foldAll a tracker)
      (perform (.foldStream a)) s o := by
  rw [SnapshotAttempt.foldAll, perform_bind]
  refine refines_stands fun t hgrows hholds => ?_
  have hdeciding := hdeciding.later hgrows hdeciding.1
  have hlooks : Looks (.selectAll a) t o _ := ⟨rfl, rfl⟩
  refine ⟨hlooks.standsFor hholds a, ?_⟩
  have hfold := fullFold_eq (readable_of_holds hholds) .postgres a
  rw [fullFold, ← events_seen hholds hdeciding.1] at hfold
  rw [hlooks.answers, hlooks.draws, exec_foldStream hholds hdeciding.1 a]
  show Refines snapshotCover gives (SameEnd Deciding Unwritten)
    ((SnapshotAttempt.checked (do
      let events ← StorageTier.readRows StorageTier.postgres.selects.all
        (StorageTier.streamRows (t.database.seen o.written) a)
      Account.fold events) >>= fun state => SnapshotAttempt.folded a state 0) tracker)
    (Prog.pure (t.database.store.account a)) t o
  rw [hfold]
  exact refines_folded hdeciding (readable_of_holds hholds) 0

theorem visible_faithful (h : snapshotCover.Holds s o) (hnil : Unwritten o) {row : SnapshotRow}
    (hrow : (s.visible o).find (streamName a) = some row) :
    Faithful s.database.store a row := by
  have hpending : AllFaithful s.database.store o.pending :=
    AllFaithful.grows h.owns fun b => by
      show (s.database.view o.written).streamOf b <+: _
      rw [streamOf_view_of_nil hnil]
  exact (AllFaithful.putAll h.inv hpending) a row hrow

/-- What a read from the snapshot comes to: it is refused, or gives the state of the account. -/
def Verdict (s : Store) (a : String) (snapshot : StreamSnapshot) (foreign : Bool) : Prop :=
  (∃ reason,
    snapshotRejection snapshot (StorageTier.rowsFrom s.events a snapshot.seq) = some reason) ∨
    snapshotRejection snapshot (StorageTier.rowsFrom s.events a snapshot.seq) = none ∧
      SnapshotAttempt.foldTail snapshot foreign (StorageTier.rowsFrom s.events a snapshot.seq) =
        .ok (s.account a)

theorem Faithful.verdict {store : Store} {row : SnapshotRow} (h : Faithful store a row) :
    ∃ snapshot foreign, readSnapshot row = .ok (snapshot, foreign) ∧ ∀ later : Store,
      later.Readable → store.streamOf a <+: later.streamOf a →
        Verdict later a snapshot foreign := by
  rcases h with hsound | hrefused
  · obtain ⟨state, htext⟩ : ∃ state, stateFromJson row.stateJson = .ok ⟨state, false⟩ := by
      cases hsound with
      | upTo _ _ _ _ text _ => exact ⟨_, text⟩
    refine ⟨⟨row.seq, state, row.stateVersion, row.anchorEventId⟩, false, ?_,
      fun later hlater hprefix => Or.inr ?_⟩
    · rw [readSnapshot, htext]
      rfl
    · obtain ⟨state', events, htext', hrejection, hevents, hfold⟩ :=
        (hsound.grows hprefix).tail hlater
      rw [htext] at htext'
      cases htext'
      refine ⟨hrejection, ?_⟩
      have htail := hevents .postgres
      rw [StorageTier.tailRows] at htail
      rw [SnapshotAttempt.foldTail, htail, ok_bind, requireOwn, require_bind_of rfl, hfold]
  · obtain ⟨snapshot, foreign, hread, hrejects⟩ := hrefused.rejected
    exact ⟨snapshot, foreign, hread, fun later _ _ => Or.inl (hrejects _)⟩

/-- **On the log as it is, a fold from a snapshot is the fold of the stream.** -/
theorem foldStream_of_faithful {store : Store} (hstore : store.Readable)
    {snapshots : Table String SnapshotRow} (h : AllFaithful store snapshots) (a : String) :
    ∃ seq, Snapshots.foldStream .postgres store.events snapshots.entries a =
      .ok (store.account a, seq) := by
  have hfull := fullFold_eq hstore .postgres a
  cases hrow : snapshots.find (streamName a) with
  | none =>
    have hlookup : snapshots.entries.lookup (streamName a) = none := hrow
    exact ⟨0, by simp only [Snapshots.foldStream, hlookup, hfull]; rfl⟩
  | some row =>
    have hlookup : snapshots.entries.lookup (streamName a) = some row := hrow
    obtain ⟨snapshot, foreign, hread, hverdict⟩ := (h a row hrow).verdict
    rcases hverdict store hstore (List.prefix_refl _) with ⟨reason, hreason⟩ | ⟨hnone, hfold⟩
    · exact ⟨0, by simp only [Snapshots.foldStream, hlookup, hread, ok_bind, hreason, hfull]; rfl⟩
    · obtain ⟨events, hevents, hfold⟩ := bind_eq_ok.mp hfold
      obtain ⟨_, hown, hfold⟩ := bind_eq_ok.mp hfold
      exact ⟨snapshot.seq, by simp only [Snapshots.foldStream, hlookup, hread, ok_bind, hnone,
        StorageTier.tailRows, hevents, hown, hfold, pure_eq_ok]⟩

theorem refines_foldFromSnapshot (hdeciding : Deciding tracker s o) {snapshot : StreamSnapshot}
    {foreign : Bool} (hverdict : ∀ t, snapshotCover.Grows s t → snapshotCover.Holds t o →
      Verdict t.database.store a snapshot foreign) :
    Refines snapshotCover gives (SameEnd Deciding Unwritten)
      (SnapshotAttempt.foldFromSnapshot a snapshot foreign tracker) (perform (.foldStream a))
      s o := by
  rw [SnapshotAttempt.foldFromSnapshot, perform_bind]
  intro t hgrows hholds
  have hdeciding := hdeciding.later hgrows hdeciding.1
  have hlooks : Looks (.selectFromSeq a snapshot.seq) t o _ := ⟨rfl, rfl⟩
  have hverdict := hverdict t hgrows hholds
  rw [Verdict, ← events_seen hholds hdeciding.1] at hverdict
  rcases hverdict with ⟨reason, hreason⟩ | ⟨hnone, hfold⟩
  · -- The rows do not bear the snapshot out, and the whole stream is read.
    refine Or.inl ⟨hlooks.silent hholds, ?_⟩
    rw [hlooks.answers, hlooks.draws]
    show Refines snapshotCover gives (SameEnd Deciding Unwritten)
      (SnapshotAttempt.foldRows a snapshot foreign
        (StorageTier.rowsFrom (t.database.seen o.written) a snapshot.seq) tracker) _ t o
    rw [SnapshotAttempt.foldRows, hreason]
    exact refines_foldAll hdeciding a
  · refine Or.inr ⟨.foldStream a, _, rfl, hlooks.standsFor hholds a, ?_⟩
    rw [hlooks.answers, hlooks.draws, exec_foldStream hholds hdeciding.1 a]
    show Refines snapshotCover gives (SameEnd Deciding Unwritten)
      (SnapshotAttempt.foldRows a snapshot foreign
        (StorageTier.rowsFrom (t.database.seen o.written) a snapshot.seq) tracker)
      (Prog.pure (t.database.store.account a)) t o
    rw [SnapshotAttempt.foldRows, hnone]
    dsimp only
    rw [hfold]
    exact refines_folded hdeciding (readable_of_holds hholds) snapshot.seq

/-- **A fold from the snapshot of its stream is the fold of the stream.** -/
theorem refines_foldStream (hdeciding : Deciding tracker s o) (a : String) :
    Refines snapshotCover gives (SameEnd Deciding Unwritten) (SnapshotAttempt.foldStream a tracker)
      (perform (.foldStream a)) s o := by
  rw [SnapshotAttempt.foldStream, perform_bind]
  refine refines_silent fun t hgrows hholds => ?_
  have hdeciding := hdeciding.later hgrows hdeciding.1
  have hlooks : Looks (.readSnapshot (streamName a)) t o _ := ⟨rfl, rfl⟩
  refine ⟨hlooks.silent hholds, _, rfl, ?_⟩
  rw [hlooks.answers, hlooks.draws]
  cases hrow : (t.visible o).find (streamName a) with
  | none => exact refines_foldAll hdeciding a
  | some row =>
    obtain ⟨snapshot, foreign, hread, hverdict⟩ :=
      (visible_faithful hholds hdeciding.1 hrow).verdict
    have hfold : Refines snapshotCover gives (SameEnd Deciding Unwritten)
        (SnapshotAttempt.foldFromSnapshot a snapshot foreign tracker) (perform (.foldStream a))
        t o := by
      refine refines_foldFromSnapshot hdeciding fun u hu hholds =>
        hverdict _ (readable_of_holds hholds) ?_
      have hstreams := ((Extends.grows hu).streams (streamName a)).map Prod.snd
      rwa [map_snd_onStream, map_snd_onStream] at hstreams
    show Refines snapshotCover gives (SameEnd Deciding Unwritten)
      ((SnapshotAttempt.checked (readSnapshot row) >>= fun p =>
        SnapshotAttempt.foldFromSnapshot a p.1 p.2) tracker) (perform (.foldStream a)) t o
    rw [hread]
    exact hfold

end Folds

/-! ### Programs on the log -/

section Logging

variable {gives : PyError → Prop} {s : SnapshotDatabase} {o : SnapshotWritten}
  {tracker : SnapshotTracker}

theorem kept_log (op : Statement EventRow) (h : snapshotCover.Holds s o)
    (hkept : Kept tracker s o) : Kept tracker (snapshotEngine.draw (.log op) s)
      (ownAfter o (snapshotEngine.exec (.log op) s o)) := by
  have hgrows := (serial_discipline.draw op h.relied).2.1.grows
  rw [exec_log]
  cases hexec : exec op s.database o.written with
  | error e => exact Tracked.grows hkept hgrows (List.prefix_refl _)
  | ok p => exact Tracked.grows hkept hgrows (prefix_of_exec hexec)

theorem deciding_log {op : Statement EventRow} (hkeys : op.keys = []) (h : snapshotCover.Holds s o)
    (hdeciding : Deciding tracker s o) : Deciding tracker (snapshotEngine.draw (.log op) s)
      (ownAfter o (snapshotEngine.exec (.log op) s o)) := by
  refine ⟨?_, kept_log op h hdeciding.2⟩
  rw [exec_log]
  cases hexec : exec op s.database o.written with
  | error e => exact hdeciding.1
  | ok p => exact (events_of_exec hkeys hexec).trans hdeciding.1

/-- **A program on the log does what it does beside the snapshots.** -/
theorem emulates_log {P : SnapshotTracker → SnapshotDatabase → SnapshotWritten → Prop}
    {Z : SnapshotWritten → Prop} {q : Statement EventRow → Prop}
    (hlater : ∀ tracker s t o, P tracker s o → snapshotCover.Grows s t → P tracker t o)
    (hkeep : ∀ tracker op s o, q op → snapshotCover.Holds s o → P tracker s o →
      P tracker (snapshotEngine.draw (.log op) s) (ownAfter o (snapshotEngine.exec (.log op) s o)))
    (hZ : ∀ tracker s o, P tracker s o → Z o) {α : Type} {p : Program EventRow α} (hp : p.Only q) :
    Emulates snapshotCover gives P P Z (SnapshotAttempt.log p) p := by
  intro tracker s o h
  show Refines snapshotCover gives (SameEnd P Z) (onLog p >>= fun a => pure (a, tracker)) p s o
  induction p generalizing s o with
  | pure a => exact refines_pure fun t hgrows _ => ⟨rfl, hlater _ _ _ _ h hgrows⟩
  | throw e => exact refines_throw fun _ _ _ => ⟨rfl, hZ _ _ _ h⟩
  | call op next ih =>
    intro t hgrows hholds
    refine Or.inr ⟨op, next, rfl, standsFor_log op hholds, ?_⟩
    have hreply : (snapshotEngine.exec (.log op) t o).map Prod.fst =
        (exec op t.database o.written).map Prod.fst := by
      rw [exec_log]
      cases exec op t.database o.written <;> rfl
    have hnext := ih ((exec op t.database o.written).map Prod.fst) (hp.2 _) _ _
      (hkeep _ _ _ _ hp.1 hholds (hlater _ _ _ _ h hgrows))
    rw [show (snapshotEngine.exec (.log op) t o).map Prod.fst = _ from hreply]
    exact hnext

/-- A statement on the log, and what comes after it. -/
theorem refines_log {op : Statement EventRow} {α β : Type}
    {f : op.Res → Prog SnapshotStatement.Res PyError α}
    {next : Except PyError op.Res → Program EventRow β}
    {Q : Except PyError α → Except PyError β → SnapshotDatabase → SnapshotWritten → Prop}
    (hok : ∀ (t : SnapshotDatabase) reply own', snapshotCover.Grows s t → snapshotCover.Holds t o →
      exec op t.database o.written = .ok (reply, own') → Refines snapshotCover gives Q (f reply)
        (next (.ok reply)) { t with database := draw op t.database } { o with written := own' })
    (herror : ∀ (t : SnapshotDatabase) e, exec op t.database o.written = .error e →
      Refines snapshotCover gives Q (throw e) (next (.error e))
        { t with database := draw op t.database } o) :
    Refines snapshotCover gives Q (Prog.perform (.log op) >>= f) (.call op next) s o := by
  refine refines_stands fun t hgrows hholds => ⟨standsFor_log op hholds, ?_⟩
  have hexec₀ : engine.exec op (snapshotCover.shared t) (snapshotCover.own o) =
      exec op t.database o.written := rfl
  rw [exec_log, hexec₀]
  cases hexec : exec op t.database o.written with
  | error e => exact herror t e hexec
  | ok p => exact hok t p.1 p.2 hgrows hholds hexec

end Logging

/-! ### Appends -/

section Appends

variable {s : SnapshotDatabase} {o : SnapshotWritten} {tracker : SnapshotTracker}

/-- The write of a snapshot that does no harm is silent. -/
theorem silent_upsertSnapshot {a : String} {row : SnapshotRow} (hholds : snapshotCover.Holds s o)
    (hrow : Faithful (s.database.view o.written) a row) :
    Silent snapshotCover (.upsertSnapshot (streamName a) row) s o := by
  have hpending : AllFaithful (s.database.view o.written) o.pending := hholds.owns
  have hput : AllFaithful (s.database.view o.written) (o.pending.put (streamName a) row) := by
    refine hpending.put fun b hb => ?_
    rw [streamName_injective hb]
    exact hrow
  refine ⟨rfl, rfl, ?_⟩
  show AllFaithful (s.database.view o.written) (s.upsert o (streamName a) row).pending
  rw [SnapshotDatabase.upsert]
  dsimp only
  split
  next => exact hput
  next => split <;> assumption

theorem afterAppend_bind {α : Type} (envelope : EventEnvelope) (event : AccountEvent)
    (f : Option StreamSnapshot → SnapshotProgram α) (tracker : SnapshotTracker) :
    (SnapshotAttempt.afterAppend envelope event >>= f) tracker =
      match tracker.afterAppend envelope event with
      | .ok (due, tracker') => f due tracker'
      | .error e => throw e := by
  show (MonadExcept.ofExcept (tracker.afterAppend envelope event) :
    Prog SnapshotStatement.Res PyError _) >>= _ = _
  cases tracker.afterAppend envelope event <;> rfl

/-- **An append does what it does without the tracker**, or the tracker refuses it. -/
theorem emulates_appendEvent (attempt : SnapshotAttempt) (envelope : EventEnvelope)
    (event : AccountEvent) : Emulates snapshotCover GivesUp Kept Kept (fun _ => True)
      (SnapshotAttempt.appendEvent envelope event) (appendEvent attempt.quiet envelope event) := by
  intro tracker s o hkept
  rw [SnapshotAttempt.appendEvent, perform_bind]
  refine refines_log (fun t id own hgrows hholds hexec => ?_) fun t e herror => by cases herror
  have hkept : Kept tracker _ _ := kept_log .nextId hholds (hkept.later hgrows)
  rw [exec_log, hexec] at hkept
  rw [perform_bind]
  refine refines_log (fun u reply own' hgrows hholds hexec => ?_) fun u e _ =>
    refines_throw fun _ _ _ => ⟨rfl, trivial⟩
  have hkept := Kept.later hkept hgrows
  obtain ⟨-, rfl⟩ := insertEvent_eq_ok.mp hexec
  rw [afterAppend_bind]
  cases hafter : tracker.afterAppend envelope event with
  | error e =>
    refine refines_gives ?_
    rintro rfl
    exact tracker.afterAppend_ne_integrityError envelope event hafter
  | ok p =>
    obtain ⟨due, tracker'⟩ := p
    have hkept' : ∀ v, snapshotCover.Grows u v →
        Tracked tracker' v.database (own.withEvent id (.ofEnvelope envelope event)) :=
      fun v hgrows =>
        (Tracked.appended hkept hafter).grows (Extends.grows hgrows) (List.prefix_refl _)
    cases due with
    | none => exact refines_pure fun v hgrows _ => ⟨rfl, hkept' v hgrows⟩
    | some snapshot =>
      rcases SnapshotTracker.afterAppend_cases hafter with
        ⟨hdue, -⟩ | ⟨prior, state, -, -, hstates, hsnapshot⟩
      · cases hdue
      cases hsnapshot snapshot rfl
      have hstate : tracker'.states.find event.accountId = some state := by
        rw [hstates, Table.find_put, if_pos rfl]
      refine refines_silent fun v hgrows hholds => ⟨silent_upsertSnapshot hholds ?_, (), rfl, ?_⟩
      · have howns : Owns v.database (own.withEvent id (.ofEnvelope envelope event)) := hholds.owned
        exact (hkept' v hgrows).due howns hstate
      · exact refines_pure fun w hgrows' _ => ⟨rfl, hkept' w (serialRely.trans hgrows hgrows')⟩

end Appends

/-! ### Decisions -/

section Decisions

variable {α : Type}

/-- A read does what it does without the snapshots, and raises what that raises. -/
abbrev EmulatesRead (x : SnapshotProgram α) (y : Program EventRow α) : Prop :=
  Emulates snapshotCover (fun _ => False) Deciding Deciding Unwritten x y

abbrev EmulatesWrite (x : SnapshotProgram α) (y : Program EventRow α) : Prop :=
  Emulates snapshotCover GivesUp Kept Kept (fun _ => True) x y

abbrev EmulatesDecision (x : SnapshotProgram α) (y : Program EventRow α) : Prop :=
  Emulates snapshotCover GivesUp Deciding (fun _ _ _ => True) (fun _ => True) x y

theorem respects_emulatesRead : Respects domainErrorOf @EmulatesRead where
  pure := emulates_pure fun _ _ _ _ h hgrows => h.later hgrows h.1
  bind := Emulates.bind
  throw := emulates_throw fun _ _ _ h => h.1
  attempt h := h.attempt (fun _ _ _ h => h.1) fun _ _ _ _ _ h hgrows hnil => h.later hgrows hnil

theorem composes_emulatesWrite : Composes PyError @EmulatesWrite where
  pure := emulates_pure fun _ _ _ _ h hgrows => Kept.later h hgrows
  bind := Emulates.bind
  throw := emulates_throw fun _ _ _ _ => trivial

theorem emulatesRead_log {p : Program EventRow α} (hp : p.Only fun op => op.keys = []) :
    EmulatesRead (SnapshotAttempt.log p) p :=
  emulates_log (fun _ _ _ _ h hgrows => h.later hgrows h.1)
    (fun _ _ _ _ hkeys hholds h => deciding_log hkeys hholds h) (fun _ _ _ h => h.1) hp

theorem emulatesWrite_log (p : Program EventRow α) : EmulatesWrite (SnapshotAttempt.log p) p :=
  emulates_log (P := Kept) (fun _ _ _ _ h hgrows => Kept.later h hgrows)
    (fun _ _ _ _ _ hholds h => kept_log _ hholds h) (fun _ _ _ _ => trivial) (only_true p)

/-- **A decision over snapshots does what the decision without them does.** -/
theorem emulates_decision (attempt : SnapshotAttempt) :
    EmulatesDecision (executeCommandDecision attempt.boundStorage attempt.call.request
      (SnapshotAttempt.log (clock attempt.quiet))
      (SnapshotAttempt.log (eventIdFactory attempt.quiet)))
      (decision attempt.quiet) := by
  refine executeCommandDecision_related respects_emulatesRead ⟨?_, ?_, ?_, ?_, ?_⟩
    composes_emulatesWrite ⟨?_, ?_⟩ (fun h hf => ?_) (fun h => ?_) ?_ (emulatesWrite_log _) _
  · exact fun t => emulatesRead_log (only_perform rfl)
  · exact fun a tracker s o h => refines_foldStream h a
  · exact fun a t => emulatesRead_log (only_perform rfl)
  · exact fun t => emulatesRead_log (only_perform rfl)
  · exact fun t => emulatesRead_log (only_perform rfl)
  · exact emulates_appendEvent attempt
  · exact fun result => emulatesWrite_log _
  · refine Emulates.bind ?_ hf
    exact h.mono (fun _ he => he.elim) (fun _ _ _ h => h) (fun _ _ _ h => h) fun _ _ => trivial
  · exact h.mono (fun _ he => he) (fun _ _ _ h => h.2) (fun _ _ _ _ => trivial) fun _ _ => trivial
  · exact emulatesRead_log (only_bind (only_perform rfl) fun _ => trivial)

/-- **An attempt over snapshots refines the attempt without them.** -/
theorem refines_decision (attempt : SnapshotAttempt) (s : SnapshotDatabase) :
    Refines snapshotCover GivesUp (fun r r₀ _ _ => r = r₀) attempt.decision
      (decision attempt.quiet) s snapshotEngine.blank := by
  have hstart : Deciding (.new attempt.every) s SnapshotWritten.nothing :=
    ⟨rfl, tracked_new attempt.every _ _⟩
  have hemulates := emulates_decision attempt _ s _ hstart
  exact Refines.map (f := Prod.fst) (Q := fun r r₀ _ _ => r = r₀)
    (hemulates.mono (fun _ he => he) fun _ _ _ _ h => h.fst_eq)

end Decisions

/-! ### Callers -/

/-- The call, and no snapshot is due. -/
def Execution.quiet (e : Execution) : Execution := { e with snapshotDue := fun _ _ => false }

/-- The call was answered alike, or it ended with an error instead of the loss of its connection. -/
structure AnsweredAlike (x x₀ : Answered) : Prop where
  execution : x₀.execution = x.execution.quiet
  races : x₀.races = x.races
  answer : x₀.answer = x.answer ∨
    (∃ e, x.answer = .error e) ∧ x₀.answer = .error .operationalError

/-- The same calls are left, and the others were answered alike. -/
structure Alike (c c₀ : Client) : Prop where
  queue : c₀.queue = c.queue.map Execution.quiet
  races : c₀.races = c.races
  answered : List.Forall₂ AnsweredAlike c.answered c₀.answered

section Callers

variable {c c₀ : Client}

theorem Alike.next (h : Alike c c₀) {every : Int} {attempt : SnapshotAttempt}
    (hnext : (snapshotCaller every).next c = some attempt) :
    caller.next c₀ = some attempt.quiet := by
  obtain ⟨_, htask, rfl⟩ := Option.map_eq_some_iff.mp hnext
  obtain ⟨e, hhead, rfl⟩ := Option.map_eq_some_iff.mp htask
  show c₀.queue.head?.map _ = _
  rw [h.queue, h.races, List.head?_map, hhead]
  rfl

theorem Alike.resume (h : Alike c c₀) {r r₀ : Except PyError CommandResult}
    (hraces : lostRace r₀ = lostRace r)
    (hanswer : r₀ = r ∨ (∃ e, r = .error e) ∧ r₀ = .error .operationalError) :
    Alike (c.resume r) (c₀.resume r₀) := by
  have hqueue := h.queue
  rw [Client.resume, Client.resume, hqueue]
  cases c.queue with
  | nil => exact h
  | cons e queue =>
    dsimp only [List.map_cons]
    rw [hraces, h.races]
    split
    next => exact ⟨rfl, rfl, h.answered⟩
    next => exact ⟨rfl, rfl, List.rel_append h.answered (.cons ⟨rfl, rfl, hanswer⟩ .nil)⟩

theorem GivesUp.lostRace {α : Type} {e : PyError} (h : GivesUp e) :
    lostRace (.error e : Except PyError α) = false := by
  cases e with
  | integrityError => exact absurd rfl h
  | _ => rfl

/-- **Callers over snapshots match callers without them.** -/
theorem matches_callers {ι : Type} (every : ι → Int) :
    Matches snapshotCover GivesUp (fun r r₀ => r = r₀) Alike SnapshotAttempt.quiet
      SnapshotAttempt.decision (fun i => snapshotCaller (every i)) decision
      (fun _ : ι => caller) where
  task h hnext := h.next hnext
  refines := refines_decision
  resume h hsame := by
    subst hsame
    exact h.resume rfl (Or.inl rfl)
  lost {_ _ _ e} h he := by
    refine h.resume ?_ (Or.inr ⟨⟨e, rfl⟩, rfl⟩)
    rcases he with hgives | rfl
    · exact hgives.lostRace.symm
    · rfl

variable {ι : Type} [DecidableEq ι]
  [∀ s : Callers EventRow ι, ∀ i op, Decidable (s.Waits engine i op)]
  [∀ s : SnapshotCallers ι, ∀ i op, Decidable (s.Waits snapshotEngine i op)]

/-- **Whatever callers do over snapshots, callers without them can do.** -/
theorem callers_shadow (every : ι → Int) (queues : ι → List Execution) (moves : List (Move ι)) :
    ∃ moves₀, Shadows snapshotCover GivesUp (fun r r₀ => r = r₀) Alike SnapshotAttempt.quiet
      (SnapshotCallers.run every queues moves)
      (Callers.run .empty (fun i => (queues i).map Execution.quiet) moves₀) := by
  have hstart : Shadows snapshotCover GivesUp (fun r r₀ => r = r₀) Alike SnapshotAttempt.quiet
      (SnapshotCallers.start queues)
      (Callers.start .empty fun i => (queues i).map Execution.quiet) :=
    ⟨rfl, (fun a row hrow => by cases hrow), fun i => ⟨rfl, rfl, .nil⟩, fun i => .idle⟩
  exact hstart.run serial_discipline serial_tasks (matches_callers every)
    (Callers.serial_run _ []) moves

/-- **Accepted commands are serialized over snapshots, too**: what commits as accepted is what the
decision comes to when it is run alone on the store before the commit.  The log is that of some
calls, one after the other, and of every stream a fold from its snapshot is the fold of the
stream. -/
theorem snapshots_serialized (every : ι → Int) (queues : ι → List Execution)
    (moves : List (Move ι)) :
    let s := SnapshotCallers.run every queues moves
    let db := s.shared.database
    (∀ i attempt past own result,
      (s.sessions i).phase = .running attempt past own (.pure result) → result.outcome = .accepted →
      execute db.store attempt.call = (.ok result,
        ⟨db.store.events ++ own.written.events.map Prod.snd, db.results ++ own.written.results⟩) ∧
      (s.next every (.proceed i)).shared.database = publish db own.written) ∧
    (∃ calls, db.store.SameLog (storeAfter calls)) ∧ Exclusive db.store ∧
    ∀ a, ∃ seq, Snapshots.foldStream .postgres db.store.events s.shared.snapshots.entries a =
      .ok (db.store.account a, seq) := by
  intro s db
  obtain ⟨moves₀, hshadows⟩ := callers_shadow every queues moves
  have hsafe := Callers.serial_run (fun i => (queues i).map Execution.quiet) moves₀
  have hdb : Serialized db := by
    have hinv := hsafe.inv
    rw [← hshadows.shared] at hinv
    exact hinv
  obtain ⟨calls, hserial⟩ := hdb.serial
  refine ⟨fun i attempt past own result hphase haccepted => ⟨?_, ?_⟩, ⟨calls, hserial.log⟩,
    hdb.exclusive, fun a => foldStream_of_faithful hdb.ledger.coherent.readable hshadows.inv a⟩
  · obtain ⟨past₀, q, hphase₀, hholds, hrefines⟩ := hshadows.running hsafe hphase
    obtain ⟨result₀, rfl, hsame⟩ := hrefines s.shared (serialRely.refl _) hholds
    cases hsame
    obtain ⟨hends, hholds₀⟩ := hsafe.ends hphase₀
    rw [← hshadows.shared] at hholds₀
    exact hends.execute_eq hholds₀ haccepted
  · show (s.proceed snapshotEngine SnapshotAttempt.decision
      (fun i => snapshotCaller (every i)) i).shared.database = _
    rw [State.proceed, hphase]
    rfl

end Callers

end Cloudscale.Postgres
