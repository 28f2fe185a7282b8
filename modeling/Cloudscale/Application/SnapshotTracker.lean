import Cloudscale.Application.Snapshots
import Cloudscale.Lib.JsonAscii
import Cloudscale.Lib.Tables

/-!
# The tracker of a transaction

A transaction remembers the state of every stream that it folded and the position of the
snapshot that the fold started from.  After an append the state moves on, and once the
stream is `every` events past its last snapshot a new one is due (`afterAppend`).

The text of a snapshot is written in ASCII, and reads back as its state
(`stateFromJson_toStateJson`).
-/

namespace Cloudscale

open Checked Python Tables

/-! ### The text of a state -/

def AccountState.document (state : AccountState) : List (String × Json) :=
  [("account_id", column state.accountId), ("balance", .int state.balance),
    ("version", .int state.version), ("held", .int state.held)]

def StreamSnapshot.toStateJson (snapshot : StreamSnapshot) : String :=
  String.ofList (Json.flatChars snapshot.state.document)

theorem nodup_document (state : AccountState) : (state.document.map Prod.fst).Nodup := by
  show ["account_id", "balance", "version", "held"].Nodup
  decide

theorem loads_document (state : AccountState) :
    Json.loads (String.ofList (Json.flatChars state.document)) = some (.obj state.document) := by
  have hcolumn : ∀ text : Option String, Json.Scalar Json.defaultLimit (column text) := by
    intro text
    cases text with
    | none => exact .null
    | some text => exact .str text
  have hint : ∀ {n : Int}, 0 ≤ n → n ≤ maxSignedBigint →
      Json.Scalar Json.defaultLimit (.int n) := fun h₀ h => .int (fits_of_le ⟨h₀, h⟩)
  refine Json.loadsWithin_flatChars (nodup_document state) ?_
  simp only [AccountState.document, List.forall_mem_cons, List.not_mem_nil, false_implies,
    implies_true, and_true]
  have hvalid := state.valid
  exact ⟨hcolumn _, hint hvalid.balance_nonneg hvalid.balance_le,
    hint hvalid.version_nonneg hvalid.version_le,
    hint hvalid.held_nonneg (hvalid.held_le.trans hvalid.balance_le)⟩

/-- **The text of a snapshot reads back as its state.** -/
theorem stateFromJson_toStateJson (snapshot : StreamSnapshot) :
    stateFromJson snapshot.toStateJson = .ok ⟨snapshot.state, false⟩ := by
  have haccount : stateAccountId (column snapshot.state.accountId) = .ok snapshot.state.accountId := by
    cases snapshot.state.accountId <;> rfl
  have hown : isForeign (column snapshot.state.accountId) = false := by
    cases snapshot.state.accountId <;> rfl
  have hdocument : ∀ m ∈ snapshot.state.document,
      getItem snapshot.state.document m.1 = .ok m.2 := by
    intro m hm
    exact getItem_eq_ok.mpr (Json.lookup_of_mem (nodup_document snapshot.state) hm)
  simp only [AccountState.document, List.forall_mem_cons, List.not_mem_nil, false_implies,
    implies_true, and_true] at hdocument
  obtain ⟨hid, hbalance, hversion, hheld⟩ := hdocument
  have hheld := getItem_eq_ok.mp hheld
  rw [StreamSnapshot.toStateJson, stateFromJson, loads_document]
  simp only [AccountState.document, stateFromDocument, membersOf, hid, hbalance, hversion, hheld,
    ok_bind, Option.getD_some, pyInt, haccount, AccountState.new_of_valid snapshot.state.valid, hown,
    pure_eq_ok]

/-! ### Tracking -/

theorem AccountState.new_ne_integrityError (accountId : Option String)
    (balance version held : Int) :
    AccountState.new accountId balance version held ≠ .error .integrityError := by
  rw [AccountState.new]
  repeat refine bind_ne_error (require_ne_error (by rintro ⟨⟩)) fun _ => ?_
  simp

theorem Account.apply_ne_integrityError (state : AccountState) (event : AccountEvent) :
    Account.apply state event ≠ .error .integrityError := by
  rw [Account.apply, requireMatchingIdentity, requireNextVersion]
  iterate 6 refine bind_ne_error (require_ne_error (by rintro ⟨⟩)) fun _ => ?_
  exact AccountState.new_ne_integrityError _ _ _ _

/-- Which streams a transaction folded, and from where. -/
structure SnapshotTracker where
  every : Int
  states : Table String AccountState
  snapshotSeq : Table String Int

namespace SnapshotTracker

def new (every : Int) : SnapshotTracker := ⟨every, .empty, .empty⟩

/-- After a fold of the stream, from the snapshot at the position or from its start. -/
def folded (tracker : SnapshotTracker) (accountId : String) (state : AccountState)
    (snapshotSeq : Int) : SnapshotTracker where
  every := tracker.every
  states := tracker.states.put accountId state
  snapshotSeq := tracker.snapshotSeq.put accountId snapshotSeq

/-- After an append: the snapshot that is due, if any. -/
def afterAppend (tracker : SnapshotTracker) (envelope : EventEnvelope) (event : AccountEvent) :
    Except PyError (Option StreamSnapshot × SnapshotTracker) :=
  match tracker.states.find event.accountId with
  | none => pure (none, tracker)
  | some prior => do
    let newState ← Account.apply prior event
    let states := tracker.states.put event.accountId newState
    if tracker.every ≤ 0 then pure (none, { tracker with states := states })
    else do
      let last ← getItem tracker.snapshotSeq.entries event.accountId
      if envelope.streamVersion - last < tracker.every then
        pure (none, { tracker with states := states })
      else pure (some ⟨envelope.streamVersion, newState, currentStateVersion, envelope.eventId.str⟩,
        ⟨tracker.every, states, tracker.snapshotSeq.put event.accountId envelope.streamVersion⟩)

def Knows (tracker : SnapshotTracker) (accountId : String) : Prop :=
  (tracker.states.find accountId).isSome

theorem knows_folded {tracker : SnapshotTracker} {a b : String} {state : AccountState} {seq : Int} :
    (tracker.folded a state seq).Knows b ↔ b = a ∨ tracker.Knows b := by
  rw [Knows, folded, Table.find_put]
  split
  next h => exact ⟨fun _ => Or.inl h, fun _ => rfl⟩
  next h => exact (or_iff_right h).symm

/-- **After an append to a stream that was folded** the state has moved on, and the snapshot
that is due is its state at the new event. -/
theorem afterAppend_eq {tracker : SnapshotTracker} {envelope : EventEnvelope} {event : AccountEvent}
    {prior state : AccountState} {last : Int}
    (hprior : tracker.states.find event.accountId = some prior)
    (hstate : Account.apply prior event = .ok state)
    (hlast : tracker.snapshotSeq.find event.accountId = some last) :
    tracker.afterAppend envelope event =
      .ok (if 0 < tracker.every ∧ tracker.every ≤ envelope.streamVersion - last then
        (some ⟨envelope.streamVersion, state, currentStateVersion, envelope.eventId.str⟩,
          tracker.folded event.accountId state envelope.streamVersion)
      else (none, { tracker with states := tracker.states.put event.accountId state })) := by
  simp only [afterAppend, hprior, hstate, ok_bind, pure_eq_ok]
  by_cases hevery : tracker.every ≤ 0
  · rw [if_pos hevery, if_neg (by omega)]
  · rw [if_neg hevery, getItem_eq_ok.mpr hlast, ok_bind]
    by_cases hdue : envelope.streamVersion - last < tracker.every
    · rw [if_pos hdue, if_neg (by omega)]
    · rw [if_neg hdue, if_pos (by omega)]
      rfl

/-- **What an append makes of the tracker**: the state of its stream moves on, if it was known, and
a snapshot that is due is that state. -/
theorem afterAppend_cases {tracker tracker' : SnapshotTracker} {envelope : EventEnvelope}
    {event : AccountEvent} {due : Option StreamSnapshot}
    (h : tracker.afterAppend envelope event = .ok (due, tracker')) :
    (due = none ∧ tracker' = tracker) ∨ ∃ prior state,
      tracker.states.find event.accountId = some prior ∧ Account.apply prior event = .ok state ∧
      tracker'.states = tracker.states.put event.accountId state ∧
      ∀ snapshot ∈ due, snapshot =
        ⟨envelope.streamVersion, state, currentStateVersion, envelope.eventId.str⟩ := by
  rw [afterAppend] at h
  split at h
  next =>
    cases h
    exact Or.inl ⟨rfl, rfl⟩
  next prior hprior =>
    obtain ⟨state, hstate, h⟩ := bind_eq_ok.mp h
    refine Or.inr ⟨prior, state, hprior, hstate, ?_⟩
    dsimp only at h
    split at h
    next =>
      cases h
      exact ⟨rfl, by simp⟩
    next =>
      obtain ⟨last, -, h⟩ := bind_eq_ok.mp h
      split at h
      next =>
        cases h
        exact ⟨rfl, by simp⟩
      next =>
        cases h
        exact ⟨rfl, fun _ hsnapshot => (Option.mem_some.mp hsnapshot).symm⟩

/-- An append that the tracker refuses is no lost race. -/
theorem afterAppend_ne_integrityError (tracker : SnapshotTracker) (envelope : EventEnvelope)
    (event : AccountEvent) : tracker.afterAppend envelope event ≠ .error .integrityError := by
  rw [afterAppend]
  split
  next => simp
  next prior _ =>
    refine bind_ne_error (Account.apply_ne_integrityError prior event) fun state => ?_
    dsimp only
    split
    next => simp
    next =>
      refine bind_ne_error getItem_ne_integrityError fun last => ?_
      split <;> simp

theorem afterAppend_of_unknown {tracker : SnapshotTracker} {envelope : EventEnvelope}
    {event : AccountEvent} (h : tracker.states.find event.accountId = none) :
    tracker.afterAppend envelope event = .ok (none, tracker) := by
  simp only [afterAppend, h, pure_eq_ok]

end SnapshotTracker

end Cloudscale
