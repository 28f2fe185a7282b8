import Cloudscale.Application.RelatedStorages
import Cloudscale.Ledger.SnapshotTracking

/-!
# Snapshots do not show

Until it appends, a transaction reads the states of the log (`Reading`), and what it tracks
is what it would track without snapshots.  So the decision over the snapshots follows the
decision without them (`decision_follows`): a call answers and appends alike, whatever was
snapshotted before (`snapshots_transparent`).

When every call snapshots after the same number of events, a fold has fewer events than that
to read after its snapshot (`folds_are_short`).
-/

namespace Cloudscale

open Checked Python Tables Transactions Streams

namespace Snapshots

section Calls

variable (call : Call)

/-! ### Reading -/

/-- The transaction has only read: what it folded are the states of the log. -/
structure Reading (s : Store) (snapshots : Table String SnapshotRow) (every : Int)
    (t : SnapshotSession) : Prop where
  store : t.store = s
  stored : t.snapshots = snapshots
  configured : t.tracker.every = every
  folded : ∀ a state, t.tracker.states.find a = some state → state = s.account a ∧
    t.tracker.snapshotSeq.find a = some (position snapshots a)

theorem read_follows {α : Type} (f : Store → Except PyError α) (t : SnapshotSession) :
    Follows SnapshotSession.tracked (Call.onSession (Call.read f)) (onLog (Call.read f)) t
      fun _ t' => t' = t := by
  refine follows_onLog fun a session hrun => ?_
  obtain ⟨-, rfl⟩ := run_query_eq_ok.mp hrun
  rfl

section Reading

variable {s : Store} (hs : s.Readable) {snapshots : Table String SnapshotRow}
  (hharmless : AllHarmless s snapshots) {every : Int}

include hs hharmless

/-- **A fold that tells the tracker follows the fold of the log.** -/
theorem foldFromSnapshot_follows (a : String) {t : SnapshotSession}
    (ht : Reading s snapshots every t) :
    Follows SnapshotSession.tracked (call.storage.foldStream a) (Call.foldFromSnapshot a) t
      fun state t' => state = s.account a ∧ Reading s snapshots every t' ∧ t'.tracker.Knows a := by
  have hplain : (call.storage.foldStream a).run t.tracked =
      .ok (s.account a, t.tracked.track a (s.account a)) := by
    refine Call.foldStream_eq_ok.mpr ⟨?_, rfl⟩
    have hstore : t.tracked.store = s := ht.store
    rw [hstore]
    exact Store.foldStream_eq hs a
  have hfold : (Call.foldFromSnapshot a).run t = .ok (s.account a,
      { t with tracker := t.tracker.folded a (s.account a) (position snapshots a) }) := by
    show (foldStream .sqlite t.store.events t.snapshots.entries a >>= fun p => pure (p.1,
      { t with tracker := t.tracker.folded a p.1 p.2 })) = _
    rw [ht.store, ht.stored, foldStream_eq hs .sqlite hharmless, ok_bind]
    rfl
  refine ⟨fun state session hrun => ?_, fun e hrun => ?_⟩
  · rw [hplain] at hrun
    cases hrun
    refine ⟨_, hfold, rfl, rfl, ⟨ht.store, ht.stored, ht.configured, fun b state hstate => ?_⟩,
      SnapshotTracker.knows_folded.mpr (Or.inl rfl)⟩
    rw [SnapshotTracker.folded, Table.find_put] at hstate ⊢
    split at hstate
    next hb =>
      cases hstate
      rw [if_pos hb, hb]
      exact ⟨rfl, rfl⟩
    next hb =>
      rw [if_neg hb]
      exact ht.folded b state hstate
  · rw [hplain] at hrun
    cases hrun

theorem relatedReads : RelatedReads (fun {α : Type} (x : TrackedTransaction α)
      (y : SnapshotTransaction α) =>
      ∀ t, Reading s snapshots every t →
        Follows SnapshotSession.tracked x y t fun _ t' => Reading s snapshots every t')
    call.storage.toCommandReads call.snapshotStorage.toCommandReads where
  storedResult id _ ht := (read_follows (·.storedResult id) _).mono fun _ _ h => h ▸ ht
  foldStream a _ ht := (foldFromSnapshot_follows call hs hharmless a ht).mono fun _ _ h => h.2.1
  openHold a id _ ht := (read_follows (·.openHold a id) _).mono fun _ _ h => h ▸ ht
  legsOf id _ ht := (read_follows (·.legsOf id) _).mono fun _ _ h => h ▸ ht
  revertedBy id _ ht := (read_follows (·.revertedBy id) _).mono fun _ _ h => h ▸ ht

omit hharmless in
theorem Reading.tracked {t : SnapshotSession} (ht : Reading s snapshots every t) :
    Cloudscale.Reading s t.tracked := by
  refine ⟨ht.store, fun a state hstate => ?_⟩
  rw [(ht.folded a state hstate).1]
  exact Store.foldStream_eq hs a

theorem Reading.tracks {t : SnapshotSession} (ht : Reading s snapshots every t) : Tracks t where
  folded a state hstate := by
    rw [(ht.folded a state hstate).1, ht.store]
    exact Store.fold_eventsOf hs a
  known a ha := by
    obtain ⟨state, hstate⟩ := Option.isSome_iff_exists.mp ha
    rw [(ht.folded a state hstate).2]
    rfl
  harmless := by
    rw [ht.store, ht.stored]
    exact hharmless

end Reading

/-! ### Deciding -/

section Deciding

variable {s : Store} (hs : s.Readable) {snapshots : Table String SnapshotRow}
  (hharmless : AllHarmless s snapshots) {every : Int}

theorem numbered_number (events : List AccountEvent) (hs : s.Readable) :
    Numbered s (s.number events) := by
  intro a
  rw [s.filter_number, map_snd_numberFrom, length_numberFrom, Store.account_version hs,
    Store.eventsOf, List.length_map]

theorem SameBooks.reading {t t' : SnapshotSession} (h : SameBooks t t') (hstore : t'.store = t.store)
    (ht : Reading s snapshots every t) : Reading s snapshots every t' where
  store := hstore.trans ht.store
  stored := h.snapshots.trans ht.stored
  configured := by rw [h.tracker]; exact ht.configured
  folded := by rw [h.tracker]; exact ht.folded

theorem Reading.tight {t t' : SnapshotSession} (ht : Reading s snapshots every t)
    (ht' : Reading s snapshots every t') (h : Tight every t) : Tight every t' where
  configured := ht'.configured
  current := by rw [ht'.stored, ← ht.stored]; exact h.current
  synced a ha := by
    obtain ⟨state, hstate⟩ := Option.isSome_iff_exists.mp ha
    rw [(ht'.folded a state hstate).2, ht'.stored]
  near := by rw [ht'.store, ht'.stored, ← ht.store, ← ht.stored]; exact h.near

/-- What the end of a transaction keeps, which started with what was read. -/
def Kept (t t' : SnapshotSession) : Prop :=
  Tracks t' ∧ ∀ every, 0 < every → Tight every t → Tight every t'

theorem Kept.sameBooks {t t' t'' : SnapshotSession} (h : Kept t t') (hsame : SameBooks t' t'') :
    Kept t t'' :=
  ⟨hsame.tracks h.1, fun every hevery ht => hsame.tight (h.2 every hevery ht)⟩

include hs hharmless

theorem Reading.kept {t t' : SnapshotSession} (ht : Reading s snapshots every t)
    (ht' : Reading s snapshots every t') : Kept t t' := by
  refine ⟨ht'.tracks hs hharmless, fun n _ hn => ?_⟩
  have heq : n = every := hn.configured.symm.trans ht.configured
  subst heq
  exact ht.tight ht' hn

omit hs hharmless in
theorem persistedRejection_follows {t t' : SnapshotSession} (hkept : Kept t t')
    (request : NormalizedCommand) (outcome : CommandOutcome) (errorCode : String)
    (httpStatus currentVersion : Int) (createdAt : Datetime) :
    Follows SnapshotSession.tracked
      (persistedRejection call.storage request outcome errorCode httpStatus currentVersion createdAt)
      (persistedRejection call.snapshotStorage request outcome errorCode httpStatus currentVersion
        createdAt) t' fun _ t'' => Kept t t'' := by
  refine (follows_ofExcept (Q := fun _ t'' => t'' = t') fun _ _ => rfl).bind fun result t'' h => ?_
  subst h
  refine (persistResult_follows call result t'').bind fun u t₃ hsame => ?_
  exact follows_pure (hkept.sameBooks hsame)

/-- **The decision over the snapshots follows the decision without them.** -/
theorem decision_follows {t : SnapshotSession} (ht : Reading s snapshots every t) :
    Follows SnapshotSession.tracked call.decision call.snapshotDecision t fun _ t' => Kept t t' := by
  have hreads := @relatedReads call s hs snapshots hharmless every
  have hfold := fun a {t₁} (ht₁ : Reading s snapshots every t₁) =>
    foldFromSnapshot_follows call hs hharmless a ht₁
  refine (hreads.storedResult call.request.commandId t ht).bind fun stored t₁ ht₁ => ?_
  cases stored with
  | some stored =>
    dsimp only
    by_cases hsame : stored.requestHash = call.request.requestHash
    · rw [if_pos hsame, if_pos hsame]
      exact follows_pure (ht.kept hs hharmless ht₁)
    · rw [if_neg hsame, if_neg hsame]
      refine (hfold _ ht₁).bind fun current t₂ ⟨_, ht₂, _⟩ => ?_
      refine (tick_follows call t₂).bind fun createdAt t₃ ⟨hsame, hstore, _⟩ => ?_
      exact follows_ofExcept fun _ _ => ht.kept hs hharmless (hsame.reading hstore ht₂)
  | none =>
    refine (hfold _ ht₁).bind fun state t₂ ⟨hstate, ht₂, hknows⟩ => ?_
    subst hstate
    by_cases hversion : call.request.command.expectedVersion ≠
        (s.account call.request.command.accountId).version
    · rw [if_pos hversion, if_pos hversion]
      refine (tick_follows call t₂).bind fun createdAt t₃ ⟨hsame, hstore, _⟩ => ?_
      exact persistedRejection_follows call
        (ht.kept hs hharmless (hsame.reading hstore ht₂)) _ _ _ _ _ _
    · rw [if_neg hversion, if_neg hversion]
      refine (tick_follows call t₂).bind fun now t₃ ⟨hsame, hstore, _⟩ => ?_
      have ht₃ := hsame.reading hstore ht₂
      rw [← hsame.tracker] at hknows
      have hdecide := decideLegs_related (respects_follows domainErrorOf (Reading s snapshots every))
        hreads call.request (s.account call.request.command.accountId) now t₃ ht₃
      refine hdecide.returned.attempt.bind fun decided t₄ ht₄ => ?_
      cases decided with
      | inr error =>
        exact persistedRejection_follows call
          (ht.kept hs hharmless (ht₄ ▸ ht₃)) _ _ _ _ _ _
      | inl legs =>
        obtain ⟨ht₄, hplain, -⟩ := ht₄
        obtain ⟨hlegs, hdecides⟩ := decideLegs_run_ok call (ht₃.tracked hs) hknows hplain
        obtain ⟨events, hdecided, rfl⟩ := (decideLegs_eq_ok hs).mp hlegs
        have hnumbered : Numbered t₄.store (s.number events) := by
          rw [ht₄.store]
          exact numbered_number events hs
        refine (appendLegs_follows call call.request now (ht₄.tracks hs hharmless)).bind
          fun p t₅ ⟨ht₅, htight⟩ => ?_
        have hkept : Kept t t₅ := by
          refine ⟨ht₅, fun n hn hnear => htight n hn ?_ ?_ hnumbered⟩
          · exact (ht.kept hs hharmless ht₄).2 n hn hnear
          · exact hdecides.knows
        obtain ⟨postings, addressed⟩ := p
        cases addressed with
        | none => exact follows_throw _
        | some addressed =>
          refine (follows_ofExcept (Q := fun _ t' => t' = t₅) fun _ _ => rfl).bind
            fun result t' h => ?_
          subst h
          refine (persistResult_follows call result t').bind fun u t₆ hsame => ?_
          exact follows_pure (hkept.sameBooks hsame)

end Deciding

end Calls

/-! ### Runs -/

/-- Every stream is less than `every` events ahead of its snapshot. -/
structure Near (every : Int) (db : SnapshotStore) : Prop where
  current : ∀ a row, db.snapshots.find (streamName a) = some row →
    row.stateVersion = currentStateVersion
  near : ∀ a, ((db.store.eventsOf a).length : Int) - position db.snapshots a < every

section Steps

variable {db : SnapshotStore} (hs : db.store.Readable) (hharmless : AllHarmless db.store db.snapshots)

include hs hharmless

/-- **A call over the snapshots is the call over the log**, and keeps them harmless and near. -/
theorem executeWith_eq (every : Int) (call : Call) :
    (executeWith every db call).1 = (execute db.store call).1 ∧
      (executeWith every db call).2.store = next db.store call ∧
      AllHarmless (executeWith every db call).2.store (executeWith every db call).2.snapshots ∧
      (0 < every → Near every db → Near every (executeWith every db call).2) := by
  set t : SnapshotSession := ⟨⟨db.store, 0, 0⟩, db.snapshots, .new every⟩ with ht
  have hreading : Reading db.store db.snapshots every t :=
    ⟨rfl, rfl, rfl, fun a state hstate => by cases hstate⟩
  have hfollows := decision_follows call hs hharmless hreading
  have htracked : t.tracked = db.store.begin := rfl
  cases hrun : call.decision.run db.store.begin with
  | error e =>
    have hsnapshots := hfollows.error e (htracked ▸ hrun)
    rw [next, execute, executeWith, hrun, ← ht, hsnapshots]
    exact ⟨rfl, rfl, hharmless, fun _ h => h⟩
  | ok p =>
    obtain ⟨result, session⟩ := p
    obtain ⟨t', hsnapshots, rfl, htracks, htight⟩ := hfollows.ok result session (htracked ▸ hrun)
    rw [next, execute, executeWith, hrun, ← ht, hsnapshots]
    refine ⟨rfl, rfl, htracks.harmless, fun hevery hnear => ?_⟩
    have hend := htight every hevery
      ⟨rfl, hnear.current, (fun a ha => by cases ha), hnear.near⟩
    exact ⟨hend.current, hend.near⟩

end Steps

/-- **What the moves keep**: the log is that of the calls, and the snapshots are harmless. -/
theorem afterMoves_spec (moves : List Move) :
    (afterMoves moves).store = storeAfter (calls moves) ∧
      AllHarmless (afterMoves moves).store (afterMoves moves).snapshots := by
  induction moves using List.reverseRecOn with
  | nil => exact ⟨rfl, fun a row hrow => by cases hrow⟩
  | append_singleton moves move ih =>
    obtain ⟨hstore, hharmless⟩ := ih
    have hlast : afterMoves (moves ++ [move]) = step (afterMoves moves) move :=
      Runs.run_concat _ _ _ _
    rw [hlast, calls, List.filterMap_append]
    cases move with
    | call every call =>
      have hs : (afterMoves moves).store.Readable := by
        rw [hstore]
        exact (ledger_storeAfter _).coherent.readable
      obtain ⟨-, hnext, hafter, -⟩ := executeWith_eq hs hharmless every call
      refine ⟨?_, hafter⟩
      show (executeWith every (afterMoves moves) call).2.store = storeAfter (calls moves ++ [call])
      rw [hnext, hstore, storeAfter_append]
      rfl
    | otherBuild stream snapshot =>
      refine ⟨?_, hharmless.upsert fun a _ => Or.inr ⟨snapshot.other, snapshot.reads⟩⟩
      show (afterMoves moves).store = storeAfter (calls moves ++ [])
      rw [List.append_nil, hstore]
    | delete streams =>
      refine ⟨?_, fun a row hrow => ?_⟩
      · show (afterMoves moves).store = storeAfter (calls moves ++ [])
        rw [List.append_nil, hstore]
      · have hfind : (streams.foldl Table.erase (afterMoves moves).snapshots).find (streamName a) =
            some row := hrow
        rw [Table.find_eraseAll] at hfind
        split at hfind
        next => cases hfind
        next => exact hharmless a row hfind

/-- **Snapshots do not show.**  Whatever calls were made with whatever frequency of
snapshots, whichever rows were deleted in between and whatever other builds wrote, the log is
that of the plain calls, each snapshot of this build is the fold of its stream up to its
anchor, every next call answers as it would without snapshots, and on either tier every fold
is the fold of the whole stream. -/
theorem snapshots_transparent (moves : List Move) :
    (afterMoves moves).store = storeAfter (calls moves) ∧
    (∀ a row, (afterMoves moves).snapshots.find (streamName a) = some row →
      row.stateVersion = currentStateVersion → Sound (storeAfter (calls moves)) a row) ∧
    (∀ every call, (executeWith every (afterMoves moves) call).1 =
      (execute (storeAfter (calls moves)) call).1) ∧
    ∀ tier a, foldStream tier (afterMoves moves).store.events (afterMoves moves).snapshots.entries a =
      .ok ((storeAfter (calls moves)).account a, position (afterMoves moves).snapshots a) := by
  obtain ⟨hstore, hharmless⟩ := afterMoves_spec moves
  have hs : (storeAfter (calls moves)).Readable := (ledger_storeAfter _).coherent.readable
  rw [hstore] at hharmless
  refine ⟨hstore, fun a row hrow hversion => ?_, fun every call => ?_, fun tier a => ?_⟩
  · exact (hharmless a row hrow).resolve_right fun hother => hother.1 hversion
  · rw [← hstore] at hs hharmless ⊢
    exact (executeWith_eq hs hharmless every call).1
  · rw [hstore]
    exact foldStream_eq hs tier hharmless a

theorem near_afterMoves {every : Int} (hevery : 0 < every) (calls : List Call) :
    Near every (afterMoves (calls.map (.call every))) := by
  induction calls using List.reverseRecOn with
  | nil => exact ⟨(fun a row hrow => by cases hrow), fun a => hevery⟩
  | append_singleton calls call ih =>
    obtain ⟨hstore, hharmless⟩ := afterMoves_spec (calls.map (.call every))
    have hs : (afterMoves (calls.map (.call every))).store.Readable := by
      rw [hstore]
      exact (ledger_storeAfter _).coherent.readable
    have hlast : afterMoves ((calls ++ [call]).map (.call every)) =
        (executeWith every (afterMoves (calls.map (.call every))) call).2 := by
      rw [List.map_append]
      exact Runs.run_concat _ _ _ _
    rw [hlast]
    exact (executeWith_eq hs hharmless every call).2.2.2 hevery ih

theorem calls_map (every : Int) (cs : List Call) : calls (cs.map (.call every)) = cs := by
  rw [calls, List.filterMap_map]
  exact List.filterMap_some

/-- **Folds are short.**  When every call snapshots after `every` events, each fold starts
from a snapshot that less than `every` events come after, or from the start of a stream that
is shorter than that. -/
theorem folds_are_short {every : Int} (hevery : 0 < every) (cs : List Call) (a : String) :
    ∃ p, foldStream .sqlite (afterMoves (cs.map (.call every))).store.events
        (afterMoves (cs.map (.call every))).snapshots.entries a =
      .ok ((storeAfter cs).account a, p) ∧
      0 ≤ p ∧ p ≤ ((storeAfter cs).account a).version ∧
      ((storeAfter cs).account a).version - p < every := by
  obtain ⟨hstore, hharmless⟩ := afterMoves_spec (cs.map (.call every))
  rw [calls_map] at hstore
  have hs : (storeAfter cs).Readable := (ledger_storeAfter cs).coherent.readable
  have hnear := (near_afterMoves hevery cs).near a
  rw [hstore] at hharmless hnear ⊢
  obtain ⟨hnonneg, hle⟩ := position_le hs hharmless a
  refine ⟨_, foldStream_eq hs .sqlite hharmless a, hnonneg, hle, ?_⟩
  rwa [Store.account_version hs, ← List.length_map (f := EventRow.event)]

/-- One deposit, with a snapshot after every event. -/
theorem folds_are_short_deposit :
    ∃ p, foldStream .sqlite (afterMoves [.call 1 deposit100]).store.events
        (afterMoves [.call 1 deposit100]).snapshots.entries "alice" =
      .ok ((storeAfter [deposit100]).account "alice", p) ∧
      0 ≤ p ∧ p ≤ ((storeAfter [deposit100]).account "alice").version ∧
      ((storeAfter [deposit100]).account "alice").version - p < 1 :=
  folds_are_short (by decide) [deposit100] "alice"

end Snapshots

end Cloudscale
