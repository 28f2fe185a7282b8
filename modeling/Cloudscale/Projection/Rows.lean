import Cloudscale.Projection.Delivery

/-!
# The rows of a projection

A list of events is projected one after the other (`projectAll`).  What the read
models hold afterwards is said row by row (`Projected`): the row of an account is
the sum of its events in the arithmetic of the tier, and the row of a hold, a set
or a leg is what the events make of it in their order.  `projected_of_ok` says
that every projection that succeeds is one.

The two tiers differ in their arithmetic alone (`sqlite_adds`, `postgres_adds`).
-/

namespace Cloudscale

open Checked Tables SqliteInteger DoubleEntry

/-! ### Sums of a tier -/

/-- The zero and the addition of the numbers of a balance. -/
structure Arithmetic (V : Type) where
  zero : V
  add : V → Int → V

def sqliteArithmetic : Arithmetic SqliteNumber := ⟨.integer 0, SqliteNumber.add⟩

def postgresArithmetic : Arithmetic Int := ⟨0, fun n d => n + d⟩

theorem sqlite_add (v : SqliteNumber) (d : Int) : sqliteArithmetic.add v d = v.add d := rfl

section Sums

variable {V : Type} (n : Arithmetic V)

/-- The sum of amounts, in their order. -/
def Arithmetic.sum (deltas : List Int) : V := deltas.foldl n.add n.zero

theorem Arithmetic.sum_concat (deltas : List Int) (d : Int) :
    n.sum (deltas ++ [d]) = n.add (n.sum deltas) d := List.foldl_concat _ _ _ _

/-- The row of `balances` that events on one account leave. -/
def sumRow (es : List AccountEvent) : BalanceRow V :=
  ⟨n.sum (es.map AccountEvent.balanceDelta), n.sum (es.map AccountEvent.heldDelta),
    n.sum (es.map fun _ => 1)⟩

/-- The same, without a row before the first event. -/
def sumRow? (es : List AccountEvent) : Option (BalanceRow V) :=
  if es = [] then none else some (sumRow n es)

theorem sumRow?_getD (es : List AccountEvent) : (sumRow? n es).getD (sumRow n []) = sumRow n es := by
  cases es <;> rfl

def BalanceRow.plus (row : BalanceRow V) (delta heldDelta : Int) : BalanceRow V :=
  ⟨n.add row.balance delta, n.add row.held heldDelta, n.add row.version 1⟩

theorem sumRow?_concat (es : List AccountEvent) (e : AccountEvent) : sumRow? n (es ++ [e]) =
    some ((sumRow n es).plus n e.balanceDelta e.heldDelta) := by
  rw [sumRow?, if_neg (by simp), sumRow, List.map_append, List.map_append, List.map_append]
  simp only [List.map_singleton, n.sum_concat]
  rfl

/-- A tier that keeps the numbers of a balance in an arithmetic. -/
def Tier.Adds (tier : Tier V) : Prop :=
  ∀ balances a delta heldDelta balances',
    tier.updateBalance balances a delta heldDelta = .ok balances' →
    ∀ l, balances'.find l = if l = a then
      some (((balances.find a).getD (sumRow n [])).plus n delta heldDelta) else balances.find l

end Sums

theorem sqlite_adds : sqliteTier.Adds sqliteArithmetic := by
  intro balances a delta heldDelta balances' h l
  cases h
  rw [Table.find_modify, Table.find_putNew, Table.find_putNew, if_pos rfl]
  split <;> rfl

theorem postgres_adds : postgresTier.Adds postgresArithmetic := by
  intro balances a delta heldDelta balances' h l
  obtain ⟨row, hrow, -, -, -, rfl⟩ := postgres_updateBalance h
  rw [Table.find_put, hrow]
  rfl

theorem postgres_sum (deltas : List Int) : postgresArithmetic.sum deltas = deltas.sum := by
  induction deltas using List.reverseRecOn with
  | nil => rfl
  | append_singleton deltas d ih =>
    rw [Arithmetic.sum_concat, ih, List.sum_append, List.sum_singleton]
    rfl

/-! ### Rows of holds and sets -/

/-- What a statement makes of the row of a hold. -/
def HoldStatement.onRow (holdId : String) (row : Option HoldRow) : HoldStatement → Option HoldRow
  | .place id source target amount expiresAt =>
    if holdId = id then some (row.getD ⟨source, target, amount, expiresAt, "open"⟩) else row
  | .settle id state => if holdId = id then row.map fun row => { row with state := state } else row

theorem find_executeHold (holds : Table String HoldRow) (statement : HoldStatement)
    (holdId : String) :
    (statement.execute holds).find holdId = statement.onRow holdId (holds.find holdId) := by
  cases statement with
  | place id =>
    rw [HoldStatement.execute, Table.find_putNew, HoldStatement.onRow]
    split
    next h => rw [h]
    next => rfl
  | settle id state =>
    rw [HoldStatement.execute, Table.find_modify, HoldStatement.onRow]
    split
    next h => rw [h]
    next => rfl

namespace TransferRowEffect

variable (effect : TransferRowEffect)

/-- What the upsert makes of the row of a set. -/
def upsertRow (transferId : String) (row : Option TransferRow) : Option TransferRow :=
  if transferId = effect.transferId then
    some (match row with
      | none => ⟨effect.kind, effect.reverts, none⟩
      | some row => { row with kind := conflictKind row.kind effect.kind })
  else row

/-- What the mark makes of the row of a set. -/
def markRow (transferId : String) (row : Option TransferRow) : Option TransferRow :=
  if effect.marksReverted = some transferId then
    row.map fun row => { row with revertedBy := row.revertedBy.or (some effect.transferId) }
  else row

/-- What the insert makes of the row of a leg. -/
def insertRow (key : String × String) (row : Option TransferLegRow) : Option TransferLegRow :=
  if key = (effect.transferId, effect.accountId) then
    some (row.getD ⟨effect.amount, effect.direction⟩)
  else row

theorem find_upsertTransfer (transfers : Table String TransferRow) (transferId : String) :
    (effect.upsertTransfer transfers).find transferId =
      effect.upsertRow transferId (transfers.find transferId) := by
  unfold upsertTransfer upsertRow
  cases hrow : transfers.find effect.transferId with
  | none =>
    simp only [Table.find_put]
    split
    next h => rw [h, hrow]
    next => rfl
  | some row =>
    simp only [Table.find_put]
    split
    next h => rw [h, hrow]
    next => rfl

theorem find_markReverted (transfers : Table String TransferRow) (transferId : String) :
    (effect.markReverted transfers).find transferId =
      effect.markRow transferId (transfers.find transferId) := by
  rw [markReverted, markRow]
  cases hmark : effect.marksReverted with
  | none => rw [if_neg (by simp)]
  | some reverts =>
    simp only [Table.find_modify]
    by_cases h : transferId = reverts
    · rw [if_pos h, if_pos (by rw [h]), h]
    · rw [if_neg h, if_neg (by simpa using Ne.symm h)]

theorem find_insertLeg (legs : Table (String × String) TransferLegRow) (key : String × String) :
    (effect.insertLeg legs).find key = effect.insertRow key (legs.find key) := by
  rw [insertLeg, Table.find_putNew, insertRow]
  split
  next h => rw [h]
  next => rfl

end TransferRowEffect

namespace AccountEvent

/-- What an event makes of the row of a hold. -/
def onHold (holdId : String) (row : Option HoldRow) (e : AccountEvent) : Option HoldRow :=
  match e.holdStatement with
  | some statement => statement.onRow holdId row
  | none => row

/-- What an event makes of the row of a set. -/
def onTransfer (transferId : String) (row : Option TransferRow) (e : AccountEvent) :
    Option TransferRow :=
  match e.transferEffect with
  | some effect => effect.markRow transferId (effect.upsertRow transferId row)
  | none => row

/-- What an event makes of the row of a leg. -/
def onLeg (key : String × String) (row : Option TransferLegRow) (e : AccountEvent) :
    Option TransferLegRow :=
  match e.transferEffect with
  | some effect => effect.insertRow key row
  | none => row

end AccountEvent

/-! ### Projections -/

section Projections

variable {V : Type} {tier : Tier V} {n : Arithmetic V} {es : List AccountEvent}
  {models models' : ReadModels V}

/-- The effects of events, one after the other. -/
def projectAll (tier : Tier V) (models : ReadModels V) (es : List AccountEvent) :
    Except PyError (ReadModels V) :=
  es.foldlM (fun models e => e.effect.execute tier models) models

theorem projectAll_append (es fs : List AccountEvent) :
    projectAll tier models (es ++ fs) = projectAll tier models es >>= (projectAll tier · fs) :=
  List.foldlM_append

theorem projectAll_concat (es : List AccountEvent) (e : AccountEvent) :
    projectAll tier models (es ++ [e]) = projectAll tier models es >>= e.effect.execute tier := by
  rw [projectAll_append]
  refine bind_congr fun models => ?_
  rw [projectAll, List.foldlM_cons]
  exact bind_pure _

/-- **The read models hold what the events make of each row.** -/
structure Projected (n : Arithmetic V) (es : List AccountEvent) (models : ReadModels V) : Prop where
  balances : ∀ a, models.balances.find a = sumRow? n (es.filter (fun e => e.accountId = a))
  holds : ∀ holdId, models.holds.find holdId = es.foldl (AccountEvent.onHold holdId) none
  transfers : ∀ t, models.transfers.find t = es.foldl (AccountEvent.onTransfer t) none
  transferLegs : ∀ key, models.transferLegs.find key = es.foldl (AccountEvent.onLeg key) none

theorem projected_empty : Projected n [] (ReadModels.empty : ReadModels V) :=
  ⟨fun _ => rfl, fun _ => rfl, fun _ => rfl, fun _ => rfl⟩

/-- **One more event.** -/
theorem Projected.execute (h : Projected n es models) (hadds : tier.Adds n) {e : AccountEvent}
    (he : e.effect.execute tier models = .ok models') : Projected n (es ++ [e]) models' := by
  obtain ⟨balances, hbalances, hmodels⟩ := bind_eq_ok.mp he
  cases hmodels
  refine ⟨fun a => ?_, fun holdId => ?_, fun t => ?_, fun key => ?_⟩
  · show balances.find a = _
    rw [hadds _ _ _ _ _ hbalances, h.balances, h.balances, List.filter_append]
    by_cases ha : a = e.accountId
    · subst ha
      rw [List.filter_cons_of_pos (by simp), List.filter_nil, sumRow?_concat, sumRow?_getD]
      exact if_pos rfl
    · rw [List.filter_cons_of_neg (by simpa using Ne.symm ha), List.filter_nil, List.append_nil]
      exact if_neg ha
  · rw [List.foldl_concat, ← h.holds, AccountEvent.onHold]
    show (match e.holdStatement with
      | some statement => statement.execute models.holds
      | none => models.holds).find holdId = _
    cases e.holdStatement with
    | none => rfl
    | some statement => exact find_executeHold _ _ _
  · rw [List.foldl_concat, ← h.transfers, AccountEvent.onTransfer]
    show (match e.transferEffect with
      | some effect => effect.markReverted (effect.upsertTransfer models.transfers)
      | none => models.transfers).find t = _
    cases e.transferEffect with
    | none => rfl
    | some effect =>
      simp only [effect.find_markReverted, effect.find_upsertTransfer]
  · rw [List.foldl_concat, ← h.transferLegs, AccountEvent.onLeg]
    show (match e.transferEffect with
      | some effect => effect.insertLeg models.transferLegs
      | none => models.transferLegs).find key = _
    cases e.transferEffect with
    | none => rfl
    | some effect => exact effect.find_insertLeg _ _

/-- **A projection that succeeds holds what its events make of each row.** -/
theorem projected_of_ok (hadds : tier.Adds n) : ∀ {es : List AccountEvent} {models : ReadModels V},
    projectAll tier .empty es = .ok models → Projected n es models := by
  intro es
  induction es using List.reverseRecOn with
  | nil =>
    intro models h
    cases h
    exact projected_empty
  | append_singleton es e ih =>
    intro models h
    rw [projectAll_concat] at h
    obtain ⟨before, hbefore, he⟩ := bind_eq_ok.mp h
    exact (ih hbefore).execute hadds he

end Projections

end Cloudscale
