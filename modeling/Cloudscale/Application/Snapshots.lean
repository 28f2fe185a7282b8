import Cloudscale.Adapters.Selects
import Cloudscale.Domain.Account
import Cloudscale.Python.Numbers

/-!
# Stream snapshots

A row of `stream_snapshots` says that the fold of a stream up to `seq` is a state, under
the version of the state's shape and with the id of the event at `seq` as an anchor.
`foldStream` is the read of both units of work: it parses the row (`readSnapshot`), judges
it (`snapshotRejection`), and folds the events after the anchor, or the whole stream.

The text is parsed before the version and the anchor are looked at.  So of a row that must
not be used the full fold is returned exactly when its text still reads as a state of this
build (`ReadsAsState`); else the read raises what the parser raises (`foldStream_raises`).

An account id in the text can have a lone surrogate, which no `String` has.  It is the id of
no account, so a tail folded onto its state raises; of such a row that may be used and has no
tail the source returns the state, and `foldStream` raises what the next event would.
-/

namespace Cloudscale

open Checked Python

def currentStateVersion : Int := 2

/-! ### The text of a state -/

/-- `int(value)`. -/
def pyInt : Json → Except PyError Int
  | .int n => .ok n
  | .bool b => .ok (if b then 1 else 0)
  | .str text =>
    match intOfText text with
    | some n => .ok n
    | none => .error (.valueError ("invalid literal for int() with base 10: '" ++ text ++ "'"))
  | .float "NaN" => .error (.valueError "cannot convert float NaN to integer")
  | .float "Infinity" | .float "-Infinity" => .error .overflowError
  | .float literal =>
    match intOfLiteral literal with
    | some n => .ok n
    | none => .error .overflowError
  | .surrogates _ => .error (.valueError "invalid literal for int() with base 10")
  | .null | .arr _ | .obj _ | .oddObj _ => .error (.typeError
      "int() argument must be a string, a bytes-like object or a real number")

/-- The account id of a state as the document has it; a text stands for one with a lone
surrogate, whose checks are the same. -/
def stateAccountId : Json → Except PyError (Option String)
  | .null => .ok none
  | .str id => .ok (some id)
  | .surrogates points => .ok (some (String.ofList (points.map Char.ofNat)))
  | _ => .error (domainError .invalidAccountId "account_id must be None or a non-empty string")

/-- A state as a text has it: whether its account id has a lone surrogate is kept. -/
structure ReadState where
  state : AccountState
  foreign : Bool
  deriving DecidableEq

def isForeign : Json → Bool
  | .surrogates _ => true
  | _ => false

def membersOf : Json → Option Dict
  | .obj members | .oddObj members => some members
  | _ => none

/-- `StreamSnapshot.state_from_json`, on the document. -/
def stateFromDocument (document : Json) : Except PyError ReadState :=
  match membersOf document with
  | none => .error (.typeError "indices must be integers, not str")
  | some data => do
    let id ← getItem data "account_id"
    let balance ← getItem data "balance"
    let balance ← pyInt balance
    let version ← getItem data "version"
    let version ← pyInt version
    let held ← pyInt ((data.lookup "held").getD (.int 0))
    let accountId ← stateAccountId id
    let state ← AccountState.new accountId balance version held
    pure ⟨state, isForeign id⟩

/-- `StreamSnapshot.state_from_json`. -/
def stateFromJson (text : String) : Except PyError ReadState :=
  match Json.loads text with
  | none => .error (.valueError "Expecting value")
  | some document => stateFromDocument document

/-- The text is an object whose members make a state: an account id or null, and a balance,
a version and held funds (none if absent) that `int` takes and the invariants allow. -/
def ReadsAsState (text : String) : Prop :=
  ∃ document data id balance version accountId balance' version' held',
    Json.loads text = some document ∧ membersOf document = some data ∧
    data.lookup "account_id" = some id ∧ data.lookup "balance" = some balance ∧
    data.lookup "version" = some version ∧ stateAccountId id = .ok accountId ∧
    pyInt balance = .ok balance' ∧ pyInt version = .ok version' ∧
    pyInt ((data.lookup "held").getD (.int 0)) = .ok held' ∧
    AccountState.Valid accountId balance' version' held'

/-- **The parser returns exactly for the texts that read as a state.** -/
theorem stateFromJson_returns_iff {text : String} :
    (∃ state, stateFromJson text = .ok state) ↔ ReadsAsState text := by
  constructor
  · rintro ⟨state, h⟩
    unfold stateFromJson at h
    split at h
    next => cases h
    next document hload =>
      unfold stateFromDocument at h
      split at h
      next => cases h
      next data hdata =>
        simp only [bind_eq_ok, getItem_eq_ok] at h
        obtain ⟨id, hid, balance, hbalance, balance', hbalance', version, hversion, version',
          hversion', held', hheld', accountId, haccount, state', hnew, -⟩ := h
        obtain ⟨rfl, rfl, rfl, rfl⟩ := AccountState.new_eq_ok.mp hnew
        exact ⟨document, data, id, balance, version, _, _, _, _, hload, hdata, hid, hbalance,
          hversion, haccount, hbalance', hversion', hheld', state'.valid⟩
  · rintro ⟨document, data, id, balance, version, accountId, balance', version', held', hload, hdata,
      hid, hbalance, hversion, haccount, hbalance', hversion', hheld', hvalid⟩
    refine ⟨⟨⟨accountId, balance', version', held', hvalid⟩, isForeign id⟩, ?_⟩
    simp only [stateFromJson, hload, stateFromDocument, hdata, getItem, hid, hbalance, hversion,
      haccount, hbalance', hversion', hheld', ok_bind, AccountState.new_of_valid hvalid, pure_eq_ok]

/-! ### Snapshots -/

/-- A row of `stream_snapshots`, under its stream. -/
structure SnapshotRow where
  seq : Int
  stateJson : String
  stateVersion : Int
  anchorEventId : String

structure StreamSnapshot where
  seq : Int
  state : AccountState
  stateVersion : Int
  anchorEventId : String

/-- `_read_snapshot`, on the row that was found, and whether its account id has a lone
surrogate. -/
def readSnapshot (row : SnapshotRow) : Except PyError (StreamSnapshot × Bool) := do
  let read ← stateFromJson row.stateJson
  pure (⟨row.seq, read.state, row.stateVersion, row.anchorEventId⟩, read.foreign)

/-- An event is not of the account of such a state. -/
def requireOwn (foreign : Bool) : Except PyError (PLift (foreign = false)) :=
  require (foreign = false) (domainError .accountIdentityMismatch
    "command or event account_id does not match AccountState exactly")

/-- Why a snapshot must not be used; `rows` are the stream's events from its `seq` on. -/
def snapshotRejection (snapshot : StreamSnapshot) (rows : List EventRow) : Option String :=
  if snapshot.stateVersion ≠ currentStateVersion then
    some (s!"state_version {snapshot.stateVersion} != build {currentStateVersion} " ++
      "(AccountState shape or fold semantics changed)")
  else if snapshot.state.version ≠ snapshot.seq then
    some s!"state.version {snapshot.state.version} != seq {snapshot.seq}"
  else match rows with
    | [] => some s!"anchor seq {snapshot.seq} is past the end of the stream (truncated?)"
    | first :: _ =>
      if first.seq ≠ snapshot.seq ∨ first.eventId.str ≠ snapshot.anchorEventId then
        some (s!"anchor mismatch at seq {snapshot.seq}: log has seq={first.seq} " ++
          s!"event_id={first.eventId.str}, snapshot expected " ++
          s!"event_id={snapshot.anchorEventId} (restored from a different log?)")
      else none

namespace Snapshots

section

variable (tier : StorageTier) (rows : List EventRow)

def fullFold (accountId : String) : Except PyError AccountState := do
  let events ← StorageTier.readRows tier.selects.all (StorageTier.streamRows rows accountId)
  Account.fold events

/-- `fold_stream`, with the position that the tracker is told. -/
def foldStream (snapshots : List (String × SnapshotRow)) (accountId : String) :
    Except PyError (AccountState × Int) := do
  let full := (fun state => (state, 0)) <$> fullFold tier rows accountId
  match snapshots.lookup (streamName accountId) with
  | none => full
  | some row => do
    let (snapshot, foreign) ← readSnapshot row
    match snapshotRejection snapshot (StorageTier.rowsFrom rows accountId snapshot.seq) with
    | some _ => full
    | none => do
      let events ← StorageTier.readRows tier.selects.fromSeq
        (StorageTier.tailRows rows accountId snapshot.seq)
      let _ ← requireOwn foreign
      let state ← Account.foldFrom snapshot.state events
      pure (state, snapshot.seq)

end

/-! ### Rows that must not be used -/

/-- The row is of another version of the state, or its anchor is not the event of the stream
at its position. -/
def Untrusted (rows : List EventRow) (accountId : String) (row : SnapshotRow) : Prop :=
  row.stateVersion ≠ currentStateVersion ∨
    ¬ ∃ r ∈ rows, r.stream = streamName accountId ∧ r.seq = row.seq ∧
      r.eventId.str = row.anchorEventId

section

variable {tier : StorageTier} {rows : List EventRow} {snapshots : List (String × SnapshotRow)}
  {accountId : String} {row : SnapshotRow}

/-- A snapshot that may be used is of this build and anchored in the stream. -/
theorem trusted_of_rejection {snapshot : StreamSnapshot}
    (h : snapshotRejection snapshot (StorageTier.rowsFrom rows accountId snapshot.seq) = none) :
    snapshot.stateVersion = currentStateVersion ∧
      ∃ r ∈ rows, r.stream = streamName accountId ∧ r.seq = snapshot.seq ∧
        r.eventId.str = snapshot.anchorEventId := by
  unfold snapshotRejection at h
  split_ifs at h with hversion hstate
  rw [not_not] at hversion
  refine ⟨hversion, ?_⟩
  cases hrows : StorageTier.rowsFrom rows accountId snapshot.seq with
  | nil => rw [hrows] at h; cases h
  | cons first rest =>
    rw [hrows] at h
    have hfirst : first ∈ StorageTier.rowsFrom rows accountId snapshot.seq := by
      rw [hrows]
      exact List.mem_cons_self
    obtain ⟨hmem, hstream⟩ := StorageTier.mem_of_mem_bySeq hfirst
    rw [decide_eq_true_eq] at hstream
    by_cases hanchor : first.seq ≠ snapshot.seq ∨ first.eventId.str ≠ snapshot.anchorEventId
    · simp only [if_pos hanchor] at h
      cases h
    · rw [not_or, not_not, not_not] at hanchor
      exact ⟨first, hmem, hstream.1, hanchor⟩

theorem rejection_of_untrusted (h : Untrusted rows accountId row) (state : AccountState) :
    ∃ reason, snapshotRejection ⟨row.seq, state, row.stateVersion, row.anchorEventId⟩
      (StorageTier.rowsFrom rows accountId row.seq) = some reason := by
  refine Option.ne_none_iff_exists'.mp fun hnone => ?_
  obtain ⟨hversion, hanchor⟩ := trusted_of_rejection hnone
  rcases h with hother | hmissing
  · exact hother hversion
  · exact hmissing hanchor

/-- A row that must not be used is not used, when its text reads as a state. -/
theorem foldStream_of_reads (hrow : snapshots.lookup (streamName accountId) = some row)
    (huntrusted : Untrusted rows accountId row) (h : ReadsAsState row.stateJson) :
    foldStream tier rows snapshots accountId =
      (fun state => (state, 0)) <$> fullFold tier rows accountId := by
  obtain ⟨read, hstate⟩ := stateFromJson_returns_iff.mpr h
  obtain ⟨reason, hreason⟩ := rejection_of_untrusted huntrusted read.state
  simp only [foldStream, hrow, readSnapshot, hstate, ok_bind, pure_eq_ok, hreason]

/-- **A text that does not read as a state makes every fold of the stream raise**, used or
not. -/
theorem foldStream_raises (hrow : snapshots.lookup (streamName accountId) = some row)
    (h : ¬ ReadsAsState row.stateJson) :
    ∃ error, stateFromJson row.stateJson = .error error ∧
      foldStream tier rows snapshots accountId = .error error := by
  cases hstate : stateFromJson row.stateJson with
  | ok read => exact absurd (stateFromJson_returns_iff.mp ⟨read, hstate⟩) h
  | error error =>
    refine ⟨error, rfl, ?_⟩
    simp only [foldStream, hrow, readSnapshot, hstate, error_bind]

/-- **A row that must not be used leaves the full fold exactly when its text reads as a
state of this build.** -/
theorem untrusted_fold_iff (hrow : snapshots.lookup (streamName accountId) = some row)
    (huntrusted : Untrusted rows accountId row) {state : AccountState}
    (hfull : fullFold tier rows accountId = .ok state) :
    foldStream tier rows snapshots accountId = .ok (state, 0) ↔ ReadsAsState row.stateJson := by
  constructor
  · intro hfold
    by_contra hnot
    obtain ⟨error, -, hraises⟩ : ∃ error, stateFromJson row.stateJson = .error error ∧
        foldStream tier rows snapshots accountId = .error error := foldStream_raises hrow hnot
    rw [hfold] at hraises
    cases hraises
  · intro h
    rw [foldStream_of_reads hrow huntrusted h, hfull]
    rfl

end

theorem validAccountId_alice : ValidAccountId "alice" := by decide

/-- The row of a first deposit of 5. -/
def exampleRow : EventRow where
  eventId := ⟨1⟩
  seq := 1
  event := .deposited ⟨"alice", 5, validAccountId_alice, by decide⟩
  schemaVersion := 1
  occurredAt := .epoch
  correlationId := ⟨2⟩
  causationId := ⟨3⟩
  commandId := ⟨4⟩

/-- The snapshot of a build whose states have an owner. -/
def renamedSnapshot : SnapshotRow where
  seq := 1
  stateJson := "\x7b\"owner\":\"alice\",\"balance\":5,\"version\":1\x7d"
  stateVersion := 3
  anchorEventId := (⟨1⟩ : UUID).str

/-- The snapshot of a build without held funds, with a wrong balance. -/
def olderSnapshot : SnapshotRow where
  seq := 1
  stateJson := "\x7b\"account_id\":\"alice\",\"balance\":999,\"version\":1\x7d"
  stateVersion := 1
  anchorEventId := (⟨1⟩ : UUID).str

theorem untrusted_fold_older : ∃ state, state.balance = 5 ∧
    foldStream .sqlite [exampleRow] [("account-alice", olderSnapshot)] "alice" = .ok (state, 0) := by
  have hfull : ∃ state, fullFold .sqlite [exampleRow] "alice" = .ok state ∧ state.balance = 5 := by
    decide +kernel
  have hreads : ∃ read, stateFromJson olderSnapshot.stateJson = .ok read ∧
      read.state.balance = 999 := by
    decide +kernel
  obtain ⟨state, hstate, hbalance⟩ := hfull
  obtain ⟨read, hread, -⟩ := hreads
  have huntrusted : Untrusted [exampleRow] "alice" olderSnapshot := Or.inl (by decide)
  exact ⟨state, hbalance, (untrusted_fold_iff rfl huntrusted hstate).mpr
    (stateFromJson_returns_iff.mp ⟨read, hread⟩)⟩

/-- **A snapshot of another state version whose text has other members freezes the stream**:
its fold raises on both tiers, where the log folds. -/
theorem renamed_snapshot_raises :
    Untrusted [exampleRow] "alice" renamedSnapshot ∧ ∀ tier : StorageTier,
      (∃ state, fullFold tier [exampleRow] "alice" = .ok state) ∧
      foldStream tier [exampleRow] [("account-alice", renamedSnapshot)] "alice" =
        .error (.keyError "account_id") := by
  refine ⟨Or.inl (by decide), fun tier => ⟨?_, ?_⟩⟩
  · have hfull : ∀ tier : StorageTier,
        ∃ state, fullFold tier [exampleRow] "alice" = .ok state ∧ state.balance = 5 := by
      intro tier
      cases tier <;> decide +kernel
    obtain ⟨state, hstate, -⟩ := hfull tier
    exact ⟨state, hstate⟩
  · have hparse : stateFromJson renamedSnapshot.stateJson = .error (.keyError "account_id") := by
      decide +kernel
    have hrow : [("account-alice", renamedSnapshot)].lookup (streamName "alice") =
        some renamedSnapshot := rfl
    simp only [foldStream, hrow, readSnapshot, hparse, error_bind]

end Snapshots

end Cloudscale
