import Cloudscale.Ledger.SoundSnapshots

/-!
# What a transaction knows of its streams

The tracker has the state of every stream that the transaction folded, and it is the fold of
the log as it grows (`Tracks`).  So the snapshot that is due after an append is sound
(`Tracks.sound_due`), and an append keeps all of that (`Tracks.appends`), with the snapshots
near to the ends of their streams (`Tight.appends`).

An event is applied to the state that is tracked, whether or not there are snapshots, so
appending over the snapshots follows appending without them, error for error
(`appendLegs_follows`).
-/

namespace Cloudscale

open Checked Python Tables Transactions Streams

def SnapshotSession.tracked (t : SnapshotSession) : TrackedSession := ⟨t.session, t.tracker.states⟩

namespace Snapshots

/-! ### Bookkeeping -/

/-- What a transaction knows of the streams that it folded. -/
structure Tracks (t : SnapshotSession) : Prop where
  folded : ∀ a state, t.tracker.states.find a = some state →
    Account.fold (t.store.eventsOf a) = .ok state
  known : ∀ a, t.tracker.Knows a → (t.tracker.snapshotSeq.find a).isSome
  harmless : AllHarmless t.store t.snapshots

/-- The snapshot of a stream that the transaction folded is less than `every` events behind. -/
structure Tight (every : Int) (t : SnapshotSession) : Prop where
  configured : t.tracker.every = every
  current : ∀ a row, t.snapshots.find (streamName a) = some row →
    row.stateVersion = currentStateVersion
  synced : ∀ a, t.tracker.Knows a → t.tracker.snapshotSeq.find a = some (position t.snapshots a)
  near : ∀ a, ((t.store.eventsOf a).length : Int) - position t.snapshots a < every

/-- What the tracker makes of an append: the tracker and the snapshots after it. -/
inductive Tracked (t : SnapshotSession) (envelope : EventEnvelope) (event : AccountEvent) :
    SnapshotTracker → Table String SnapshotRow → Prop
  | unknown (unknown : t.tracker.states.find event.accountId = none) :
    Tracked t envelope event t.tracker t.snapshots
  | near {prior state : AccountState} {last : Int}
      (found : t.tracker.states.find event.accountId = some prior)
      (applied : Account.apply prior event = .ok state)
      (started : t.tracker.snapshotSeq.find event.accountId = some last)
      (near : ¬ (0 < t.tracker.every ∧ t.tracker.every ≤ envelope.streamVersion - last)) :
    Tracked t envelope event
      { t.tracker with states := t.tracker.states.put event.accountId state } t.snapshots
  | due {prior state : AccountState} {last : Int}
      (found : t.tracker.states.find event.accountId = some prior)
      (applied : Account.apply prior event = .ok state)
      (started : t.tracker.snapshotSeq.find event.accountId = some last)
      (due : 0 < t.tracker.every ∧ t.tracker.every ≤ envelope.streamVersion - last) :
    Tracked t envelope event (t.tracker.folded event.accountId state envelope.streamVersion)
      (upsert t.snapshots (streamName event.accountId)
        (rowOf ⟨envelope.streamVersion, state, currentStateVersion, envelope.eventId.str⟩))

/-- One append to the log, with what the tracker makes of it. -/
structure Appends (t t' : SnapshotSession) (envelope : EventEnvelope) (event : AccountEvent) :
    Prop where
  events : t'.store.events = t.store.events ++ [EventRow.ofEnvelope envelope event]
  tracked : Tracked t envelope event t'.tracker t'.snapshots

section Appends

variable {t t' : SnapshotSession} {envelope : EventEnvelope} {event : AccountEvent}

theorem Appends.streamOf (h : Appends t t' envelope event) (a : String) :
    t'.store.streamOf a = t.store.streamOf a ++
      if event.accountId = a then [EventRow.ofEnvelope envelope event] else [] := by
  rw [Store.streamOf_of_events h.events, List.filter_singleton]
  by_cases ha : event.accountId = a
  · rw [if_pos ha, show (EventRow.ofEnvelope envelope event).event.accountId = a from ha]
    simp
  · rw [if_neg ha, show (EventRow.ofEnvelope envelope event).event = event from rfl]
    simp [ha]

theorem Appends.eventsOf (h : Appends t t' envelope event) (a : String) :
    t'.store.eventsOf a = t.store.eventsOf a ++ if event.accountId = a then [event] else [] := by
  rw [Store.eventsOf, h.streamOf, List.map_append]
  by_cases ha : event.accountId = a
  · rw [if_pos ha, if_pos ha]
    rfl
  · rw [if_neg ha, if_neg ha]
    rfl

theorem find_upsert (snapshots : Table String SnapshotRow) (stream key : String) (row : SnapshotRow) :
    (upsert snapshots stream row).find key =
      if key = stream ∧ ∀ stored ∈ snapshots.find stream, stored.seq < row.seq then some row
      else snapshots.find key := by
  rw [upsert]
  cases hstored : snapshots.find stream with
  | none =>
    rw [Table.find_put]
    simp
  | some stored =>
    dsimp only
    by_cases hseq : stored.seq < row.seq
    · rw [if_pos hseq, Table.find_put]
      simp [hseq]
    · rw [if_neg hseq, if_neg]
      rintro ⟨-, h⟩
      exact hseq (h stored rfl)

theorem AllHarmless.upsert {s : Store} {snapshots : Table String SnapshotRow}
    (h : AllHarmless s snapshots) {stream : String} {row : SnapshotRow}
    (hrow : ∀ a, streamName a = stream → Harmless s a row) :
    AllHarmless s (Snapshots.upsert snapshots stream row) := by
  intro a stored hstored
  rw [find_upsert] at hstored
  split at hstored
  next hkey =>
    cases hstored
    exact hrow a hkey.1
  next => exact h a stored hstored

/-- The state of a stream that was folded, after the append. -/
theorem Tracks.fold_appends (ht : Tracks t) (h : Appends t t' envelope event)
    {prior state : AccountState} (hprior : t.tracker.states.find event.accountId = some prior)
    (happlied : Account.apply prior event = .ok state) :
    Account.fold (t'.store.eventsOf event.accountId) = .ok state := by
  have hfold := ht.folded _ _ hprior
  rw [Account.fold] at hfold ⊢
  rw [h.eventsOf, if_pos rfl, Account.foldFrom_append, hfold, ok_bind, Account.foldFrom_cons,
    happlied, ok_bind, Account.foldFrom_nil]

theorem Tracks.sound_due (ht : Tracks t) (h : Appends t t' envelope event)
    {prior state : AccountState} (hprior : t.tracker.states.find event.accountId = some prior)
    (happlied : Account.apply prior event = .ok state) :
    Sound t'.store event.accountId
      (rowOf ⟨envelope.streamVersion, state, currentStateVersion, envelope.eventId.str⟩) := by
  have hstream := h.streamOf event.accountId
  rw [if_pos rfl] at hstream
  have hfold := ht.fold_appends h hprior happlied
  rw [Store.eventsOf, hstream] at hfold
  exact .upTo hstream rfl rfl rfl (stateFromJson_toStateJson _) hfold

/-- **An append keeps what the transaction knows.** -/
theorem Tracks.appends (ht : Tracks t) (h : Appends t t' envelope event) : Tracks t' := by
  have hother : ∀ a state, a ≠ event.accountId → t.tracker.states.find a = some state →
      Account.fold (t'.store.eventsOf a) = .ok state := by
    intro a state ha hstate
    rw [h.eventsOf, if_neg (fun heq => ha heq.symm), List.append_nil]
    exact ht.folded a state hstate
  have hgrown := ht.harmless.grows h.events
  have htracked := h.tracked
  generalize hsnapshots : t'.snapshots = snapshots at htracked
  generalize htracker : t'.tracker = tracker at htracked
  cases htracked with
  | unknown hunknown =>
    refine ⟨fun a state hstate => ?_, ?_, ?_⟩
    · rw [htracker] at hstate
      refine hother a state ?_ hstate
      rintro rfl
      rw [hunknown] at hstate
      cases hstate
    · rw [htracker]
      exact ht.known
    · rw [hsnapshots]
      exact hgrown
  | near hprior happlied hlast hnear =>
    refine ⟨fun a state hstate => ?_, fun a ha => ?_, ?_⟩
    · rw [htracker, Table.find_put] at hstate
      split at hstate
      next heq =>
        cases hstate
        exact heq ▸ ht.fold_appends h hprior happlied
      next hne => exact hother a state hne hstate
    · rw [htracker] at ha ⊢
      rw [SnapshotTracker.Knows, Table.find_put] at ha
      split at ha
      next heq => rw [heq, hlast]; rfl
      next => exact ht.known a ha
    · rw [hsnapshots]
      exact hgrown
  | due hprior happlied hlast hdue =>
    refine ⟨fun a state hstate => ?_, fun a ha => ?_, ?_⟩
    · rw [htracker, SnapshotTracker.folded, Table.find_put] at hstate
      split at hstate
      next heq =>
        cases hstate
        exact heq ▸ ht.fold_appends h hprior happlied
      next hne => exact hother a state hne hstate
    · rw [htracker] at ha ⊢
      rw [SnapshotTracker.folded, Table.find_put]
      split
      next => rfl
      next hne => exact ht.known a ((or_iff_right hne).mp (SnapshotTracker.knows_folded.mp ha))
    · rw [hsnapshots]
      refine hgrown.upsert fun a ha => Or.inl ?_
      rw [streamName_injective ha]
      exact ht.sound_due h hprior happlied

/-- **An append keeps the snapshots near**, when its event is numbered. -/
theorem Tight.appends {every : Int} (hevery : 0 < every) (hnear : Tight every t)
    (h : Appends t t' envelope event) (hknows : t.tracker.Knows event.accountId)
    (hnumber : envelope.streamVersion = (t.store.eventsOf event.accountId).length + 1) :
    Tight every t' := by
  have hlength : ∀ a, ((t'.store.eventsOf a).length : Int) =
      (t.store.eventsOf a).length + if event.accountId = a then 1 else 0 := by
    intro a
    rw [h.eventsOf]
    split <;> simp
  have htracked := h.tracked
  generalize hsnapshots : t'.snapshots = snapshots at htracked
  generalize htracker : t'.tracker = tracker at htracked
  cases htracked with
  | unknown hunknown =>
    rw [SnapshotTracker.Knows, hunknown] at hknows
    cases hknows
  | near hprior happlied hlast hlater =>
    have hposition := (hnear.synced _ hknows).symm.trans hlast
    rw [Option.some.injEq] at hposition
    refine ⟨by rw [htracker]; exact hnear.configured, by rw [hsnapshots]; exact hnear.current,
      fun a ha => ?_, fun a => ?_⟩
    · rw [htracker] at ha ⊢
      rw [hsnapshots]
      refine hnear.synced a ?_
      rw [SnapshotTracker.Knows, Table.find_put] at ha
      split at ha
      next heq => exact heq ▸ hknows
      next => exact ha
    · rw [hlength, hsnapshots]
      split
      next heq =>
        subst heq
        rw [hnear.configured] at hlater
        omega
      next =>
        have := hnear.near a
        omega
  | @due prior state last hprior happlied hlast hdue =>
    have hposition := (hnear.synced _ hknows).symm.trans hlast
    rw [Option.some.injEq] at hposition
    have hbehind : ∀ stored ∈ t.snapshots.find (streamName event.accountId),
        stored.seq < envelope.streamVersion := by
      intro stored hstored
      have hrow : position t.snapshots event.accountId = stored.seq := by
        simp only [position, Option.mem_def.mp hstored, if_pos (hnear.current _ _ hstored)]
      omega
    have hfind : ∀ a, t'.snapshots.find (streamName a) = if a = event.accountId then
        some (rowOf ⟨envelope.streamVersion, state, currentStateVersion, envelope.eventId.str⟩)
        else t.snapshots.find (streamName a) := by
      intro a
      rw [hsnapshots, find_upsert]
      refine if_congr ?_ rfl rfl
      rw [streamName_injective.eq_iff]
      exact and_iff_left hbehind
    have hat : ∀ a, position t'.snapshots a =
        if a = event.accountId then envelope.streamVersion else position t.snapshots a := by
      intro a
      rw [position, hfind]
      by_cases ha : a = event.accountId
      · simp only [if_pos ha]
        rfl
      · simp only [if_neg ha]
        rfl
    refine ⟨by rw [htracker]; exact hnear.configured, fun a row hrow => ?_, fun a ha => ?_, fun a => ?_⟩
    · rw [hfind] at hrow
      split at hrow
      next =>
        cases hrow
        rfl
      next => exact hnear.current a row hrow
    · rw [htracker] at ha ⊢
      rw [hat, SnapshotTracker.folded, Table.find_put]
      split
      next => rfl
      next hne => exact hnear.synced a ((or_iff_right hne).mp (SnapshotTracker.knows_folded.mp ha))
    · rw [hlength, hat]
      by_cases ha : a = event.accountId
      · subst ha
        rw [if_pos rfl, if_pos rfl]
        omega
      · rw [if_neg ha, if_neg (Ne.symm ha)]
        have := hnear.near a
        omega

end Appends

/-! ### Appending -/

theorem follows_onLog {α : Type} {x : Transaction α} {t : SnapshotSession}
    {Q : α → SnapshotSession → Prop}
    (h : ∀ a session, x.run t.session = .ok (a, session) → Q a (t.setSession session)) :
    Follows SnapshotSession.tracked (Call.onSession x) (onLog x) t Q := by
  refine ⟨fun a t₁ hrun => ?_, fun e hrun => ?_⟩
  · obtain ⟨session, hsession, rfl⟩ := Call.onSession_eq_ok.mp hrun
    exact ⟨_, run_zoom_of hsession, rfl, h a session hsession⟩
  · have hmap : (x.run t.session).map (fun p => (p.1, t.tracked.setSession p.2)) = .error e := hrun
    show (x.run t.session).map _ = _
    cases hx : x.run t.session with
    | ok p => rw [hx] at hmap; cases hmap
    | error e' => rw [hx] at hmap; cases hmap; rfl

theorem exists_tracked {t : SnapshotSession} (ht : Tracks t) (envelope : EventEnvelope)
    {event : AccountEvent} {t₁ : TrackedSession} (h : t.tracked.afterAppend event = .ok t₁) :
    ∃ due tracker, t.tracker.afterAppend envelope event = .ok (due, tracker) ∧
      tracker.states = t₁.states ∧ Tracked t envelope event tracker
        (writeSnapshot t.snapshots (streamName event.accountId) due) := by
  rcases TrackedSession.afterAppend_eq_ok.mp h with ⟨hnone, rfl⟩ | ⟨prior, state, hprior, hstate, rfl⟩
  · have hunknown : t.tracker.states.find event.accountId = none := hnone
    exact ⟨_, _, SnapshotTracker.afterAppend_of_unknown hunknown, rfl, .unknown hunknown⟩
  · have hfound : t.tracker.states.find event.accountId = some prior := hprior
    obtain ⟨last, hlast⟩ := Option.isSome_iff_exists.mp
      (ht.known event.accountId (by rw [SnapshotTracker.Knows, hfound]; rfl))
    by_cases hdue : 0 < t.tracker.every ∧ t.tracker.every ≤ envelope.streamVersion - last
    · refine ⟨some ⟨envelope.streamVersion, state, currentStateVersion, envelope.eventId.str⟩, _, ?_,
        rfl, .due hfound hstate hlast hdue⟩
      rw [SnapshotTracker.afterAppend_eq hfound hstate hlast, if_pos hdue]
    · refine ⟨none, _, ?_, rfl, .near hfound hstate hlast hdue⟩
      rw [SnapshotTracker.afterAppend_eq hfound hstate hlast, if_neg hdue]

theorem afterAppend_error {t : SnapshotSession} {envelope : EventEnvelope} {event : AccountEvent}
    {e : PyError} (h : t.tracked.afterAppend event = .error e) :
    t.tracker.afterAppend envelope event = .error e := by
  rw [TrackedSession.afterAppend] at h
  rw [SnapshotTracker.afterAppend]
  have hstates : t.tracked.states = t.tracker.states := rfl
  rw [hstates] at h
  cases hprior : t.tracker.states.find event.accountId with
  | none => rw [hprior] at h; cases h
  | some prior =>
    rw [hprior] at h
    cases happly : Account.apply prior event with
    | ok state =>
      dsimp only at h
      rw [happly] at h
      cases h
    | error e' =>
      dsimp only at h ⊢
      rw [happly] at h ⊢
      cases h
      rfl

/-- **An append follows the append without snapshots.** -/
theorem appendAndSnapshot_follows {t : SnapshotSession} (ht : Tracks t) {envelope : EventEnvelope}
    {event : AccountEvent} :
    Follows SnapshotSession.tracked (Call.appendEvent envelope event)
      (Call.appendAndSnapshot envelope event) t fun _ t' => Appends t t' envelope event := by
  have hlog : Follows SnapshotSession.tracked (Call.onSession (Call.insertEvent envelope event))
      (onLog (Call.insertEvent envelope event)) t fun _ t' =>
        t'.store.events = t.store.events ++ [EventRow.ofEnvelope envelope event] ∧
          t'.tracker = t.tracker ∧ t'.snapshots = t.snapshots := by
    refine follows_onLog fun u session hrun => ⟨?_, rfl, rfl⟩
    obtain ⟨store, hstore, hsession⟩ := bind_eq_ok.mp hrun
    obtain ⟨-, rfl⟩ := Store.appendEvent_eq_ok.mp hstore
    cases hsession
    rfl
  refine hlog.bind fun u t' ⟨hevents, htracker, hsnapshots⟩ => ⟨fun v t₁ hrun => ?_, fun e hrun => ?_⟩
  · obtain ⟨t₂, hafter, hpure⟩ := bind_eq_ok.mp hrun
    cases hpure
    have hstates : t'.tracked.states = t.tracked.states := congrArg SnapshotTracker.states htracker
    have hbefore : t.tracked.afterAppend event = .ok (t₁.setSession t.session) := by
      rcases TrackedSession.afterAppend_eq_ok.mp hafter with
        ⟨hnone, rfl⟩ | ⟨prior, state, hprior, hstate, rfl⟩
      · rw [hstates] at hnone
        refine TrackedSession.afterAppend_eq_ok.mpr (Or.inl ⟨hnone, ?_⟩)
        rw [SnapshotSession.tracked, htracker]
        rfl
      · rw [hstates] at hprior
        refine TrackedSession.afterAppend_eq_ok.mpr (Or.inr ⟨prior, state, hprior, hstate, ?_⟩)
        rw [SnapshotSession.tracked, htracker]
        rfl
    obtain ⟨due, tracker, hdue, htaken, htracked⟩ := exists_tracked ht envelope hbefore
    refine ⟨⟨t'.session, writeSnapshot t.snapshots (streamName event.accountId) due, tracker⟩, ?_,
      ?_, hevents, htracked⟩
    · show (t'.tracker.afterAppend envelope event >>= fun p => pure ((), { t' with
        snapshots := writeSnapshot t'.snapshots (streamName event.accountId) p.1
        tracker := p.2 })) = _
      rw [htracker, hdue, ok_bind, hsnapshots]
      rfl
    · have hsession := TrackedSession.session_afterAppend hafter
      rw [SnapshotSession.tracked, htaken, show t'.session = t₁.session from hsession.symm]
      rfl
  · have hafter : t'.tracked.afterAppend event = .error e := by
      cases hafter : t'.tracked.afterAppend event with
      | ok t₂ =>
        have hok : (t'.tracked.afterAppend event >>= fun t => pure ((), t) :
          Except PyError (Unit × TrackedSession)) = .error e := hrun
        rw [hafter] at hok
        cases hok
      | error e' =>
        have herror : (t'.tracked.afterAppend event >>= fun t => pure ((), t) :
          Except PyError (Unit × TrackedSession)) = .error e := hrun
        rw [hafter] at herror
        cases herror
        rfl
    show (t'.tracker.afterAppend envelope event >>= _) = _
    rw [afterAppend_error hafter]
    rfl

/-- The legs are numbered onwards from the end of their streams. -/
def Numbered (s : Store) (legs : List (AccountEvent × Int)) : Prop :=
  ∀ a, (legs.filter (fun leg => leg.1.accountId = a)).map Prod.snd =
    consecutive (s.eventsOf a).length (legs.filter (fun leg => leg.1.accountId = a)).length

section Legs

variable {t t' : SnapshotSession} {envelope : EventEnvelope} {event : AccountEvent}
  {version : Int} {legs : List (AccountEvent × Int)}

theorem Numbered.head (h : Numbered t.store ((event, version) :: legs)) :
    version = (t.store.eventsOf event.accountId).length + 1 := by
  have hnumber := h event.accountId
  rw [List.filter_cons_of_pos (by simp), List.length_cons, consecutive_cons, List.map_cons] at hnumber
  exact (List.cons.inj hnumber).1

theorem Numbered.appends (h : Numbered t.store ((event, version) :: legs))
    (happends : Appends t t' envelope event) : Numbered t'.store legs := by
  intro a
  have hnumber := h a
  rw [happends.eventsOf]
  by_cases ha : event.accountId = a
  · rw [List.filter_cons_of_pos (by simpa using ha), List.length_cons, consecutive_cons,
      List.map_cons] at hnumber
    rw [if_pos ha, List.length_append, List.length_singleton, (List.cons.inj hnumber).2]
    push_cast
    rfl
  · rwa [if_neg ha, List.append_nil, ← List.filter_cons_of_neg (a := (event, version))
      (p := fun leg => decide (leg.1.accountId = a)) (by simpa using ha)]

end Legs

structure SameBooks (t t' : SnapshotSession) : Prop where
  events : t'.store.events = t.store.events
  snapshots : t'.snapshots = t.snapshots
  tracker : t'.tracker = t.tracker

section SameBooks

variable {t t' : SnapshotSession} (h : SameBooks t t')

include h

theorem SameBooks.streamOf (a : String) : t'.store.streamOf a = t.store.streamOf a := by
  rw [Store.streamOf, h.events]
  rfl

theorem SameBooks.eventsOf (a : String) : t'.store.eventsOf a = t.store.eventsOf a := by
  rw [Store.eventsOf, h.streamOf]
  rfl

theorem SameBooks.tracks (ht : Tracks t) : Tracks t' where
  folded a state hstate := by
    rw [h.tracker] at hstate
    rw [h.eventsOf]
    exact ht.folded a state hstate
  known a ha := by
    rw [h.tracker] at ha ⊢
    exact ht.known a ha
  harmless := by
    rw [h.snapshots]
    exact ht.harmless.grows (h.events.trans (List.append_nil _).symm)

theorem SameBooks.tight {every : Int} (ht : Tight every t) : Tight every t' where
  configured := by rw [h.tracker]; exact ht.configured
  current := by rw [h.snapshots]; exact ht.current
  synced := by rw [h.tracker, h.snapshots]; exact ht.synced
  near a := by rw [h.eventsOf, h.snapshots]; exact ht.near a

theorem SameBooks.numbered {legs : List (AccountEvent × Int)} (hnumbered : Numbered t.store legs) :
    Numbered t'.store legs := by
  intro a
  rw [h.eventsOf]
  exact hnumbered a

end SameBooks

section Calls

variable (call : Call)

theorem tick_follows (t : SnapshotSession) :
    Follows SnapshotSession.tracked (Call.onSession call.tick) (onLog call.tick) t fun now t' =>
      SameBooks t t' ∧ t'.store = t.store ∧ now = call.clock t.session.readings := by
  refine follows_onLog fun now session hrun => ?_
  cases hrun
  exact ⟨⟨rfl, rfl, rfl⟩, rfl, rfl⟩

theorem eventIdFactory_follows (t : SnapshotSession) :
    Follows SnapshotSession.tracked (Call.onSession call.eventIdFactory)
      (onLog call.eventIdFactory) t fun _ t' => SameBooks t t' := by
  refine follows_onLog fun eventId session hrun => ?_
  cases hrun
  exact ⟨rfl, rfl, rfl⟩

theorem persistResult_follows (result : CommandResult) (t : SnapshotSession) :
    Follows SnapshotSession.tracked (call.storage.persistResult result)
      (call.snapshotStorage.persistResult result) t fun _ t' => SameBooks t t' := by
  refine follows_onLog fun u session hrun => ?_
  obtain ⟨-, row, -, hstore⟩ := persistResult_run hrun
  refine ⟨?_, rfl, rfl⟩
  show session.store.events = t.session.store.events
  rw [hstore]

theorem Appends.knows {t t' : SnapshotSession} {envelope : EventEnvelope} {event : AccountEvent}
    (h : Appends t t' envelope event) {a : String} (ha : t.tracker.Knows a) : t'.tracker.Knows a := by
  have htracked := h.tracked
  generalize t'.tracker = tracker, t'.snapshots = snapshots at htracked
  rw [SnapshotTracker.Knows] at ha ⊢
  cases htracked with
  | unknown => exact ha
  | near | due =>
    first
      | rw [SnapshotTracker.folded, Table.find_put]
      | rw [Table.find_put]
    split
    next => rfl
    next => exact ha

/-- **Appending over the snapshots follows appending without them.** -/
theorem appendLegs_follows (request : NormalizedCommand) (now : Datetime) :
    ∀ {legs : List (AccountEvent × Int)} {postings : List Posting}
    {addressed : Option EventEnvelope} {t : SnapshotSession}, Tracks t →
    Follows SnapshotSession.tracked
      (appendLegs call.storage request now (Call.onSession call.eventIdFactory) legs postings
        addressed)
      (appendLegs call.snapshotStorage request now (onLog call.eventIdFactory) legs postings
        addressed) t fun _ t' => Tracks t' ∧ ∀ every, 0 < every → Tight every t →
          (∀ leg ∈ legs, t.tracker.Knows leg.1.accountId) → Numbered t.store legs →
          Tight every t' := by
  intro legs
  induction legs with
  | nil => exact fun ht => follows_pure ⟨ht, fun _ _ htight _ _ => htight⟩
  | cons leg legs ih =>
    obtain ⟨event, version⟩ := leg
    intro postings addressed t ht
    refine (eventIdFactory_follows call t).bind fun eventId t₁ hsame => ?_
    have ht₁ := hsame.tracks ht
    refine (follows_ofExcept (Q := fun envelope t' => t' = t₁ ∧ envelope.streamVersion = version)
      fun envelope henvelope => ?_).bind fun envelope t' ⟨ht', hnumber⟩ => ?_
    · exact ⟨rfl, (EventEnvelope.fromDomainEvent_wraps henvelope).streamVersion⟩
    subst ht'
    refine (appendAndSnapshot_follows ht₁).bind fun u t₂ happends => ?_
    refine (follows_ofExcept (Q := fun _ t' => t' = t₂) fun _ _ => rfl).bind fun posting t' ht' => ?_
    subst ht'
    refine (ih (ht₁.appends happends)).mono
      fun p t₃ ⟨ht₃, htight⟩ => ⟨ht₃, fun every hevery hnear hknows hnumbered => ?_⟩
    have hnumbered₁ := hsame.numbered hnumbered
    rw [← hsame.tracker] at hknows
    rw [List.forall_mem_cons] at hknows
    refine htight every hevery ?_ (fun leg hleg => happends.knows (hknows.2 leg hleg))
      (hnumbered₁.appends happends)
    exact (hsame.tight hnear).appends hevery happends hknows.1 (hnumber.trans hnumbered₁.head)

end Calls

end Snapshots

end Cloudscale
