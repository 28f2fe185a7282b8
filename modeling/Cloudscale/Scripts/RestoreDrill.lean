import Cloudscale.Adapters.Postgres.EventStore
import Cloudscale.Processes.ResilientConsumer

/-!
# The restore drill

The drill restores a dump, truncates every derived table, lets a consumer rebuild them and
compares: with a full fold of the log, and with the read models that the dump carried.

`Passes` are its criteria, each under its name.  They are about the log of the restored
database (`LogFacts`), the read models before and after (`ReadModelSnapshot`), the folds
(`foldAll`) and the report of the consumer (`drain`).
-/

namespace Cloudscale

open Checked Python Tables

/-! ### Read models -/

/-- The derived tables as rows; the balances are a dictionary, the others sets of rows. -/
structure ReadModelSnapshot where
  balances : Table String (BalanceRow Int)
  holds : Table String HoldRow
  transfers : Table String TransferRow
  transferLegs : Table (String × String) TransferLegRow
  deadLetterIds : List String
  processedEvents : ℕ

namespace ReadModelSnapshot

variable (s : ReadModelSnapshot)

def openHoldIds : List String :=
  (s.holds.entries.filter (fun e => e.2.state = "open")).map Prod.fst

def totalBalance : Int := (s.balances.entries.map fun e => e.2.balance).sum

end ReadModelSnapshot

/-- `int(…)` of the numbers of a balance. -/
def BalanceRow.toInts {V : Type} (tier : Tier V) (row : BalanceRow V) : BalanceRow Int :=
  ⟨tier.toInt row.balance, tier.toInt row.held, tier.toInt row.version⟩

/-- `read_models`. -/
def DeadLetterStore.snapshot {V : Type} (tier : Tier V) (p : DeadLetterStore V) :
    ReadModelSnapshot where
  balances := p.readModels.balances.map (BalanceRow.toInts tier)
  holds := p.readModels.holds
  transfers := p.readModels.transfers
  transferLegs := p.readModels.transferLegs
  deadLetterIds := p.deadLetters.entries.map Prod.fst
  processedEvents := p.processedEvents.entries.length

/-! ### The log -/

/-- What the log says; `accounts` are the accounts of its streams, each of which has one. -/
structure LogFacts where
  events : ℕ
  accounts : List String
  openHoldIds : List String

def holdEventTypes : List String := ["HoldPlaced", "HoldPosted", "HoldReleased"]

/-- `_open_holds_from_rows`: the holds that are placed and not closed. -/
def openHoldsFromRows (rows : List (String × String)) : List String :=
  let placed := (rows.filter (fun r => r.1 = "HoldPlaced")).map Prod.snd
  let closed := (rows.filter (fun r => r.1 ≠ "HoldPlaced")).map Prod.snd
  placed.filter (· ∉ closed)

/-- The types and the holds of the rows of holds. -/
def holdRows (rows : List EventRow) : List (String × String) :=
  (rows.filter (fun r => r.event.type.text ∈ holdEventTypes)).filterMap fun r =>
    r.fields.transferId.map (r.event.type.text, ·)

def logFacts (rows : List EventRow) : LogFacts where
  events := rows.length
  accounts := (rows.map (fun r => r.event.accountId)).dedup
  openHoldIds := openHoldsFromRows (holdRows rows)

/-- `_state_tuple`. -/
def AccountState.tuple (state : AccountState) : BalanceRow Int :=
  ⟨state.balance, state.held, state.version⟩

/-- `fold_all`: every account under the fold of its stream. -/
def foldAll (s : Store) (accounts : List String) : Except PyError (Table String (BalanceRow Int)) :=
  accounts.foldlM (fun folds a => do
    let state ← s.foldStream a
    pure (folds.put a state.tuple)) .empty

/-! ### The consumer -/

section Drain

variable {σ T ε : Type} [AddCommGroup T] [LinearOrder T]

/-- The reports of runs, one after the other. -/
def ConsumerReport.add (total report : ConsumerReport T) : ConsumerReport T where
  applied := total.applied + report.applied
  duplicates := total.duplicates + report.duplicates
  deadLettered := total.deadLettered + report.deadLettered
  halted := report.halted
  haltReason := report.haltReason

/-- `_drain`: run the consumer until a run settles nothing or halts, with bounds on the runs and
on the rounds of each. -/
def drain (c : ResilientConsumer σ T ε) (around : Surroundings T) (feed : EventFeed) (rounds : ℕ) :
    ℕ → ConsumerReport T → Consumption σ T →
    Option (Except ε (ConsumerReport T) × Consumption σ T)
  | 0, _, _ => none
  | runs + 1, total, s =>
    match c.run around feed rounds s with
    | none => none
    | some (.error e, s) => some (.error e, s)
    | some (.ok report, s) =>
      if report.halted ∨ (report.applied = 0 ∧ report.deadLettered = 0) then
        some (.ok (total.add report), s)
      else drain c around feed rounds runs (total.add report) s

end Drain

/-- The consumer of the drill.  What it retries and counts is SQLite's operational error. -/
def drillConsumer {V : Type} (tier : Tier V) (isOperational : PyError → Bool) (now : Datetime) :
    ResilientConsumer (DeadLetterStore V) ℚ PyError where
  projection := DeadLetterStore.projection tier now
  retryPolicy := ⟨3, Nat.succ_pos 2⟩
  breaker := ⟨5, 30, isOperational, Nat.succ_pos 4, Nat.ofNat_pos⟩
  retryable
    | .circuitOpen _ => false
    | .error e => isOperational e
  isException _ := true
  raises e := e
  batch := 500
  one_le_batch := Nat.succ_pos 499

/-! ### The comparison -/

/-- `_compare`, a field for each criterion. -/
structure Passes {T : Type} (facts : LogFacts) (before : ReadModelSnapshot)
    (folds : Table String (BalanceRow Int)) (drained : ConsumerReport T) (after : ReadModelSnapshot) :
    Prop where
  consumerDidNotHalt : drained.halted = false
  rebuiltBalancesEqualFullFold : after.balances.SameRows folds
  rebuiltBalancesEqualDump : after.balances.SameRows before.balances
  rebuiltHoldsEqualDump : after.holds.SameRows before.holds
  rebuiltTransfersEqualDump : after.transfers.SameRows before.transfers ∧
    after.transferLegs.SameRows before.transferLegs
  conservationTotalBalanceUnchanged : before.totalBalance = after.totalBalance ∧
    after.totalBalance = (folds.entries.map fun e => e.2.balance).sum
  openHoldsEqualLog : ∀ holdId, holdId ∈ after.openHoldIds ↔ holdId ∈ facts.openHoldIds
  processedEventsEqualEvents : after.processedEvents = facts.events
  deadLettersSubsetOfDump : after.deadLetterIds ⊆ before.deadLetterIds

/-! ### The database -/

namespace Postgres

open ReadCommitted

/-- `truncate_derived`, as far as the tables of the log go. -/
def truncateDerived (db : Database EventRow) : Database EventRow :=
  { db with outbox := [], published := [] }

end Postgres

end Cloudscale
