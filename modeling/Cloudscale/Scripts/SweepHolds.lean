import Cloudscale.Projection.Expiry

/-!
# The expiry sweep

`sweep` reads the holds that have expired from the read model and executes an
`ExpireHold` for each, under a command id that is a function of the hold id alone
and at the version that the source folds to.  Nothing is retried: a result that is
not accepted is counted, and an exception ends the sweep.  While a hold is handled
its `SweepTurn` says what `uuid4`, the clock and the event id factory return.

`Sweeping.next` is the system of several sweepers and the clients: a sweeper reads
the read model, reads the version of its first hold and executes the command in
separate moves, and a client's call may come between any two of them.
-/

namespace Cloudscale

open Checked Python

/-- Every sweeper derives the same command id for a hold. -/
def holdExpiryNamespace : UUID := ⟨0x5b1c6f2e8d3a4e7b9c1d2f3a4b5c6d7e⟩

def sweeperSubject : String := "hold-sweeper"

def expiryCommandId (holdId : String) : UUID := UUID.uuid5 holdExpiryNamespace holdId

/-- What the surroundings return while one hold is handled. -/
structure SweepTurn where
  correlationId : UUID
  clock : Nat → Datetime
  eventIds : Nat → UUID

/-- `uuid.UUID(text)`. -/
def uuidOfText (text : String) : Except PyError UUID :=
  match UUID.ofText text with
  | some id => .ok id
  | none => .error (.valueError "badly formed hexadecimal UUID string")

def expiryRequest (hold : ExpiredHold) (version : Int) (correlationId : UUID) :
    Except PyError NormalizedCommand := do
  let holdId ← uuidOfText hold.holdId
  let command ← ReleaseCommand.new hold.source holdId version
  normalizeCommand (.expireHold command) (expiryCommandId hold.holdId) correlationId "cloudscale"
    sweeperSubject

/-- Execute the request of one hold; an exception before leaves the store. -/
def executeExpiry (s : Store) (hold : ExpiredHold) (version : Int) (turn : SweepTurn) :
    Except PyError CommandResult × Store :=
  match expiryRequest hold version turn.correlationId with
  | .error e => (.error e, s)
  | .ok request => execute s ⟨request, turn.clock, turn.eventIds⟩

def sweepHold (s : Store) (hold : ExpiredHold) (turn : SweepTurn) :
    Except PyError CommandResult × Store :=
  match s.foldStream hold.source with
  | .error e => (.error e, s)
  | .ok state => executeExpiry s hold state.version turn

/-- The loop, with the counts of the holds expired and skipped so far. -/
def sweepEach (turns : ExpiredHold → SweepTurn) :
    List ExpiredHold → Nat × Nat → Store → Except PyError (Nat × Nat) × Store
  | [], counts, s => (.ok counts, s)
  | hold :: holds, (expired, skipped), s =>
    match sweepHold s hold (turns hold) with
    | (.error e, s') => (.error e, s')
    | (.ok result, s') =>
      if result.outcome = .accepted then sweepEach turns holds (expired + 1, skipped) s'
      else sweepEach turns holds (expired, skipped + 1) s'

/-- Expire every open hold past its expiry. -/
def sweep {V : Type} (models : ReadModels V) (now : Datetime) (turns : ExpiredHold → SweepTurn)
    (s : Store) : Except PyError (Nat × Nat) × Store :=
  sweepEach turns (models.openHoldsExpiredAt now.isoformat) (0, 0) s

/-! ### Sweepers among clients -/

/-- A sweeper: the holds it has still to handle, and the version it has read for the first. -/
structure Sweeper where
  holds : List ExpiredHold
  version : Option Int

structure Sweeping (ι : Type) where
  store : Store
  sweepers : ι → Sweeper

/-- A client executes a call, or a sweeper takes a step: it reads the read model, which
may be behind the log, reads a version, or executes. -/
inductive SweepMove (ι : Type)
  | call (call : Call)
  | query (i : ι) (holds : List ExpiredHold)
  | fold (i : ι)
  | execute (i : ι) (turn : SweepTurn)

namespace Sweeping

variable {ι : Type} [DecidableEq ι]

def start : Sweeping ι := ⟨.empty, fun _ => ⟨[], none⟩⟩

def next (s : Sweeping ι) : SweepMove ι → Sweeping ι
  | .call call => { s with store := Cloudscale.next s.store call }
  | .query i holds => { s with sweepers := Function.update s.sweepers i ⟨holds, none⟩ }
  | .fold i =>
    match (s.sweepers i).holds with
    | [] => s
    | hold :: holds =>
      match s.store.foldStream hold.source with
      | .error _ => { s with sweepers := Function.update s.sweepers i ⟨[], none⟩ }
      | .ok state =>
        { s with sweepers := Function.update s.sweepers i ⟨hold :: holds, some state.version⟩ }
  | .execute i turn =>
    match s.sweepers i with
    | ⟨hold :: holds, some version⟩ =>
      match executeExpiry s.store hold version turn with
      | (.error _, store) => ⟨store, Function.update s.sweepers i ⟨[], none⟩⟩
      | (.ok _, store) => ⟨store, Function.update s.sweepers i ⟨holds, none⟩⟩
    | _ => s

def storeAfter (moves : List (SweepMove ι)) : Store := (Runs.run next start moves).store

theorem executeExpiry_store (s : Store) (hold : ExpiredHold) (version : Int) (turn : SweepTurn) :
    (executeExpiry s hold version turn).2 = s ∨
      ∃ call, (executeExpiry s hold version turn).2 = Cloudscale.next s call := by
  rw [executeExpiry]
  split
  · exact Or.inl rfl
  · exact Or.inr ⟨_, rfl⟩

theorem store_next (s : Sweeping ι) (move : SweepMove ι) :
    (next s move).store = s.store ∨ ∃ call, (next s move).store = Cloudscale.next s.store call := by
  cases move with
  | call call => exact Or.inr ⟨call, rfl⟩
  | query i holds => exact Or.inl rfl
  | fold i =>
    rw [next]
    split
    · exact Or.inl rfl
    · split <;> exact Or.inl rfl
  | execute i turn =>
    rw [next]
    split
    next hold holds version _ =>
      have hstore := executeExpiry_store s.store hold version turn
      split
      next heq =>
        rw [heq] at hstore
        exact hstore
      next heq =>
        rw [heq] at hstore
        exact hstore
    next => exact Or.inl rfl

/-- **The sweepers are callers**: what they make of the store with the clients, calls
make of it. -/
theorem store_run (moves : List (SweepMove ι)) : ∀ s : Sweeping ι, ∃ calls,
    (Runs.run next s moves).store = Runs.run Cloudscale.next s.store calls := by
  induction moves with
  | nil => exact fun s => ⟨[], rfl⟩
  | cons move moves ih =>
    intro s
    obtain ⟨calls, hcalls⟩ := ih (next s move)
    rw [Runs.run_cons, hcalls]
    rcases store_next s move with h | ⟨call, h⟩
    · exact ⟨calls, by rw [h]⟩
    · exact ⟨call :: calls, by rw [h, Runs.run_cons]⟩

theorem exists_calls (moves : List (SweepMove ι)) :
    ∃ calls, storeAfter moves = Cloudscale.storeAfter calls :=
  store_run moves start

end Sweeping

end Cloudscale
