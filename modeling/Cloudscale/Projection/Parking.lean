import Cloudscale.Adapters.DeadLetterStore
import Cloudscale.Adapters.ProjectionReaders
import Cloudscale.Ledger.Linked
import Cloudscale.Projection.Rows

/-!
# A consumer that parks events

The consumer applies the events of the log in their order, and parks some of them
instead.  The read models are then the projection of the events that it applied
(`Consuming.projected`), and every event that it parked has its letter.

A balance is therefore the sum of the applied events alone.  Without a parked
deposit it can be negative, which the view of a balance refuses:
`balance_answered_iff` says on which accounts a query is answered.
-/

namespace Cloudscale

open Checked Python Tables SqliteInteger DoubleEntry

/-- Why, after how many attempts and when an event was parked. -/
structure ParkingFault where
  error : PyError
  attempts : Int
  parkedAt : Datetime
  attempts_ok : 1 ≤ attempts

structure Consumed where
  delivery : Delivery
  fault : Option ParkingFault

namespace Consumed

def eventId (c : Consumed) : UUID := c.delivery.eventId

def event (c : Consumed) : AccountEvent := c.delivery.row.event

end Consumed

def DeadLetterStore.empty {V : Type} : DeadLetterStore V := ⟨.empty, .empty⟩

section Consuming

variable {V : Type}

/-- The store after a delivery that is applied or parked. -/
def consume (tier : Tier V) (p : DeadLetterStore V) (c : Consumed) : DeadLetterStore V :=
  match c.fault with
  | none => { p with toProjectionStore := (p.apply tier c.delivery.event).2 }
  | some fault => (p.deadLetter c.delivery.event fault.error fault.attempts fault.parkedAt).2

/-- The store after a list of deliveries. -/
def consumedBy (tier : Tier V) (cs : List Consumed) : DeadLetterStore V :=
  Runs.run (consume tier) .empty cs

def AppliesOrParks (tier : Tier V) (p : DeadLetterStore V) (c : Consumed) : Prop :=
  c.fault.isSome ∨ (p.apply tier c.delivery.event).1 = .ok true

instance (tier : Tier V) (p : DeadLetterStore V) (c : Consumed) :
    Decidable (AppliesOrParks tier p c) := inferInstanceAs (Decidable (_ ∨ _))

structure AppliesRest (tier : Tier V) (cs : List Consumed) : Prop where
  along : Runs.Along (consume tier) (AppliesOrParks tier) .empty cs

def appliedOf (cs : List Consumed) : List AccountEvent :=
  (cs.filter (fun c => c.fault.isNone)).map Consumed.event

theorem appliedOf_concat (cs : List Consumed) (c : Consumed) : appliedOf (cs ++ [c]) =
    if c.fault.isNone then appliedOf cs ++ [c.event] else appliedOf cs := by
  by_cases h : c.fault.isNone <;> simp [appliedOf, h]

/-- The store after deliveries of different events. -/
structure Consuming (tier : Tier V) (cs : List Consumed) (p : DeadLetterStore V) : Prop where
  /-- The read models are the projection of what was applied. -/
  projected : projectAll tier .empty (appliedOf cs) = .ok p.readModels
  processed : ∀ u : UUID, (p.processedEvents.find u.str).isSome ↔ u ∈ cs.map Consumed.eventId
  letters : ∀ u : UUID, (p.deadLetters.find u.str).isSome → u ∈ cs.map Consumed.eventId
  /-- What was parked has its letter. -/
  parked : ∀ c ∈ cs, c.fault.isSome → ∃ letter,
    p.deadLetters.find c.eventId.str = some letter ∧ letter.payload = c.delivery.event

theorem consuming_empty (tier : Tier V) : Consuming tier [] (.empty : DeadLetterStore V) :=
  ⟨rfl, fun _ => ⟨(fun h => nomatch h), (fun h => nomatch h)⟩, (fun _ h => nomatch h),
    (fun _ h => nomatch h)⟩

variable {tier : Tier V}

theorem apply_stored_eq_true {p : ProjectionStore V} {r : EventRow} {id : Int}
    (h : (p.apply tier (r.stored id).dict).1 = .ok true) :
    ¬ (p.processedEvents.find r.eventId.str).isSome ∧
      ∃ models, r.event.effect.execute tier p.readModels = .ok models := by
  by_cases hprocessed : (p.processedEvents.find r.eventId.str).isSome
  · rw [apply_stored_processed hprocessed] at h
    cases h
  · refine ⟨hprocessed, ?_⟩
    rw [apply_stored, applyTransaction_stored, ProjectionStore.claim, if_neg hprocessed,
      ok_bind] at h
    cases hmodels : r.event.effect.execute tier p.readModels with
    | ok models => exact ⟨models, rfl⟩
    | error e =>
      rw [hmodels] at h
      cases e <;> cases h

theorem deadLetter_stored {p : DeadLetterStore V} {r : EventRow} {id : Int} (fault : ParkingFault)
    (hprocessed : ¬ (p.processedEvents.find r.eventId.str).isSome)
    (hletter : ¬ (p.deadLetters.find r.eventId.str).isSome) :
    (p.deadLetter (r.stored id).dict fault.error fault.attempts fault.parkedAt).2 =
      ⟨⟨p.readModels, p.processedEvents.put r.eventId.str (), max p.lastId id⟩,
        p.deadLetters.put r.eventId.str
          ⟨id, (r.stored id).dict, fault.error, fault.attempts, fault.parkedAt⟩⟩ := by
  have heventId : (r.stored id).dict.lookup "event_id" = some (.str r.eventId.str) := by
    rw [StoredEvent.lookup_dict]
    rfl
  have hid : (r.stored id).dict.lookup "id" = some (.int id) := by
    simp only [StoredEvent.lookup_dict, StoredEvent.columns, Tables.lookup_cons_ite, String.reduceEq,
      if_true, if_false, Option.join_some]
    rfl
  have hletterId : letterId (r.stored id).dict = r.eventId.str := by
    rw [letterId, heventId, textOf, if_neg r.eventId.str_ne_empty]
  have hattempts := fault.attempts_ok
  rw [DeadLetterStore.deadLetter, if_neg (by omega), DeadLetterStore.deadLetterTransaction,
    hletterId, hid, intOf, ProjectionStore.claim, if_neg hprocessed, ok_bind,
    require_bind_of (by simpa using hletter)]
  rfl

/-- **One more event is applied or parked.** -/
theorem Consuming.consume {cs : List Consumed} {p : DeadLetterStore V} {c : Consumed}
    (h : Consuming tier cs p) (hnew : c.eventId ∉ cs.map Consumed.eventId)
    (hgood : AppliesOrParks tier p c) : Consuming tier (cs ++ [c]) (consume tier p c) := by
  have hprocessed : ¬ (p.processedEvents.find c.delivery.row.eventId.str).isSome :=
    fun hp => hnew ((h.processed _).mp hp)
  have hids : (cs ++ [c]).map Consumed.eventId = cs.map Consumed.eventId ++ [c.eventId] := by
    rw [List.map_append]
    rfl
  -- A letter of an earlier event is not touched.
  have hother : ∀ c' ∈ cs, c'.eventId.str ≠ c.eventId.str := fun c' hc' heq =>
    hnew (UUID.str_injective heq ▸ List.mem_map_of_mem hc')
  rw [Cloudscale.consume]
  cases hfault : c.fault with
  | none =>
    rcases hgood with hgood | hgood
    · rw [hfault] at hgood
      cases hgood
    · obtain ⟨-, models, hmodels⟩ := apply_stored_eq_true hgood
      have happly : p.apply tier (c.delivery.row.stored c.delivery.logId).dict = _ :=
        apply_stored_new hprocessed hmodels
      refine ⟨?_, fun u => ?_, fun u hu => ?_, fun c' hc' hparked => ?_⟩
      · rw [appliedOf_concat, if_pos (by rw [hfault]; rfl), projectAll_concat, h.projected, ok_bind]
        show c.event.effect.execute tier p.readModels = .ok (p.apply tier c.delivery.event).2.readModels
        rw [Delivery.event, happly]
        exact hmodels
      · show ((p.apply tier c.delivery.event).2.processedEvents.find u.str).isSome ↔ _
        rw [Delivery.event, happly, hids]
        exact processed_put h.processed u
      · rw [hids]
        exact List.mem_append_left _ (h.letters u hu)
      · rcases List.mem_append.mp hc' with hc' | hc'
        · exact h.parked c' hc' hparked
        · rw [List.mem_singleton.mp hc', hfault] at hparked
          cases hparked
  | some fault =>
    have hletter : ¬ (p.deadLetters.find c.delivery.row.eventId.str).isSome :=
      fun hp => hnew (h.letters _ hp)
    have hpark : (p.deadLetter (c.delivery.row.stored c.delivery.logId).dict fault.error
        fault.attempts fault.parkedAt).2 = _ := deadLetter_stored fault hprocessed hletter
    simp only [Delivery.event, hpark]
    refine ⟨?_, fun u => ?_, fun u hu => ?_, fun c' hc' hparked => ?_⟩
    · rw [appliedOf_concat, if_neg (by rw [hfault]; simp)]
      exact h.projected
    · rw [hids]
      exact processed_put h.processed u
    · rw [hids, List.mem_append, List.mem_singleton]
      rw [Table.find_put] at hu
      by_cases hu' : u.str = c.delivery.row.eventId.str
      · exact Or.inr (UUID.str_injective hu')
      · rw [if_neg hu'] at hu
        exact Or.inl (h.letters u hu)
    · rcases List.mem_append.mp hc' with hc' | hc'
      · obtain ⟨letter, hfind, hpayload⟩ := h.parked c' hc' hparked
        refine ⟨letter, ?_, hpayload⟩
        rw [Table.find_put]
        exact (if_neg (hother c' hc')).trans hfind
      · rw [List.mem_singleton.mp hc']
        refine ⟨⟨c.delivery.logId, c.delivery.event, fault.error, fault.attempts, fault.parkedAt⟩,
          ?_, rfl⟩
        rw [Table.find_put]
        exact if_pos rfl

/-- **A run of the consumer projects what it applies.** -/
theorem consuming_consumedBy : ∀ {cs : List Consumed}, (cs.map Consumed.eventId).Nodup →
    AppliesRest tier cs → Consuming tier cs (consumedBy tier cs) := by
  intro cs
  induction cs using List.reverseRecOn with
  | nil => exact fun _ _ => consuming_empty tier
  | append_singleton cs c ih =>
    rintro hnodup ⟨halong⟩
    rw [List.map_append, List.map_singleton] at hnodup
    obtain ⟨hbefore, hlast⟩ := Runs.along_append.mp halong
    obtain ⟨hnodup, -, hdisjoint⟩ := List.nodup_append.mp hnodup
    rw [consumedBy, Runs.run_concat]
    exact (ih hnodup ⟨hbefore⟩).consume
      (fun hmem => hdisjoint _ hmem _ (List.mem_singleton.mpr rfl) rfl) hlast.1

end Consuming

/-! ### Balance queries -/

def appliedOn (cs : List Consumed) (a : String) : List AccountEvent :=
  (appliedOf cs).filter (fun e => e.accountId = a)

/-- The query on an account is answered, with a view or with nothing. -/
def BalanceAnswered {V : Type} (tier : Tier V) (p : ProjectionStore V) (a : String) : Prop :=
  ∃ view, getBalance tier p a = .ok view

theorem sqlite_count {es : List AccountEvent} (h : (es.length : Int) ≤ maxSignedBigint) :
    sqliteArithmetic.sum (es.map fun _ => 1) = .integer es.length := by
  induction es using List.reverseRecOn with
  | nil => rfl
  | append_singleton es e ih =>
    rw [List.length_append, List.length_singleton, Nat.cast_add, Nat.cast_one] at h ⊢
    rw [List.map_append, List.map_singleton, Arithmetic.sum_concat, ih (by omega), sqlite_add,
      SqliteNumber.add_integer (inRange_of_nonneg (by omega) h)]

/-- **A query is answered unless a sum of the projected events is refused.** -/
theorem answered_iff_of_projected {V : Type} {tier : Tier V} {n : Arithmetic V}
    {es : List AccountEvent} {p : ProjectionStore V} (h : Projected n es p.readModels) {a : String}
    {fs : List AccountEvent} (hon : es.filter (fun e => e.accountId = a) = fs)
    (hcount : tier.toInt (n.sum (fs.map fun _ => 1)) = fs.length)
    (hlength : (fs.length : Int) ≤ maxSignedBigint) :
    BalanceAnswered tier p a ↔ fs = [] ∨
      ((0 ≤ tier.toInt (n.sum (fs.map AccountEvent.balanceDelta)) ∧
        tier.toInt (n.sum (fs.map AccountEvent.balanceDelta)) ≤ maxSignedBigint) ∧
      0 ≤ tier.toInt (n.sum (fs.map AccountEvent.heldDelta))) := by
  have hfind := h.balances a
  rw [hon] at hfind
  rw [BalanceAnswered, getBalance_isOk_iff]
  by_cases hempty : fs = []
  · have hrow : p.balance tier a = ⟨0, 0, 0⟩ := by
      rw [ProjectionStore.balance, hfind, sumRow?, if_pos hempty]
    exact iff_of_true (Or.inl (by rw [hrow])) (Or.inl hempty)
  · have hrow : p.balance tier a = ⟨tier.toInt (n.sum (fs.map AccountEvent.balanceDelta)),
        tier.toInt (n.sum (fs.map AccountEvent.heldDelta)), fs.length⟩ := by
      rw [ProjectionStore.balance, hfind, sumRow?, if_neg hempty, ← hcount]
      rfl
    have haccount : ValidAccountId a := by
      obtain ⟨e, he⟩ := List.exists_mem_of_ne_nil _ hempty
      rw [← hon, List.mem_filter] at he
      exact of_decide_eq_true he.2 ▸ e.account_ok
    have hpos : 0 < fs.length := List.length_pos_iff.mpr hempty
    rw [hrow, BalanceView.new_isOk_iff]
    constructor
    · rintro (hzero | ⟨-, hbalance, hheld, -⟩)
      · exact absurd (Int.ofNat_eq_zero.mp hzero) (by omega)
      · exact Or.inr ⟨hbalance, hheld⟩
    · rintro (hnil | ⟨hbalance, hheld⟩)
      · exact absurd hnil hempty
      · exact Or.inr ⟨haccount, hbalance, hheld, Int.natCast_nonneg _, hlength⟩

theorem postgres_inRange {es : List AccountEvent} : ∀ {models : ReadModels Int},
    projectAll postgresTier .empty es = .ok models → ∀ a row, models.balances.find a = some row →
      InRange row.balance := by
  induction es using List.reverseRecOn with
  | nil =>
    intro models h a row hrow
    cases h
    cases hrow
  | append_singleton es e ih =>
    intro models h a row hrow
    rw [projectAll_concat] at h
    obtain ⟨before, hbefore, he⟩ := bind_eq_ok.mp h
    obtain ⟨balances, hbalances, hmodels⟩ := bind_eq_ok.mp he
    cases hmodels
    obtain ⟨row', -, hbalance, -, -, rfl⟩ := postgres_updateBalance hbalances
    rw [ReadModels.executeOthers, Table.find_put] at hrow
    split at hrow
    next =>
      cases hrow
      exact hbalance
    next => exact ih hbefore a row hrow

theorem sqlite_execute (effect : ProjectionEffect) (models : ReadModels SqliteNumber) :
    ∃ models', effect.execute sqliteTier models = .ok models' := ⟨_, rfl⟩

theorem sqlite_appliesRest : ∀ {cs : List Consumed}, (cs.map Consumed.eventId).Nodup →
    AppliesRest sqliteTier cs := by
  intro cs
  induction cs using List.reverseRecOn with
  | nil => exact fun _ => ⟨trivial⟩
  | append_singleton cs c ih =>
    intro hnodup
    rw [List.map_append, List.map_singleton, List.nodup_append] at hnodup
    obtain ⟨hnodup, -, hdisjoint⟩ := hnodup
    refine ⟨Runs.along_append.mpr ⟨(ih hnodup).along, ?_, trivial⟩⟩
    have hconsuming := consuming_consumedBy hnodup (ih hnodup)
    refine Or.inr ?_
    obtain ⟨models, hmodels⟩ := sqlite_execute c.event.effect (consumedBy sqliteTier cs).readModels
    rw [Delivery.event, consumedBy] at *
    rw [apply_stored_new (fun hp => hdisjoint _ ((hconsuming.processed _).mp hp) _
      (List.mem_singleton.mpr rfl) rfl) hmodels]

section Log

variable {calls : List Call} {cs : List Consumed}

def rowsOf (cs : List Consumed) : List EventRow := cs.map fun c => c.delivery.row

theorem nodup_rowsOf (h : rowsOf cs <+: (storeAfter calls).events) :
    (cs.map Consumed.eventId).Nodup := by
  have hids : cs.map Consumed.eventId = (rowsOf cs).map EventRow.eventId := by
    rw [rowsOf, List.map_map]
    rfl
  rw [hids]
  exact (unclashed_storeAfter calls).nodup_eventIds.sublist (h.sublist.map _)

/-- What was applied on an account is part of its stream. -/
theorem length_appliedOn (h : rowsOf cs <+: (storeAfter calls).events) (a : String) :
    ((appliedOn cs a).length : Int) ≤ maxSignedBigint := by
  have hreadable := (ledger_storeAfter calls).coherent.readable
  have hsub : (appliedOn cs a).Sublist ((storeAfter calls).eventsOf a) := by
    have hevents : appliedOf cs = ((cs.filter (fun c => c.fault.isNone)).map
        (fun c => c.delivery.row)).map EventRow.event := by
      rw [appliedOf, List.map_map]
      rfl
    rw [appliedOn, hevents, List.filter_map, Store.eventsOf, Store.streamOf]
    exact (((List.filter_sublist.map _).trans h.sublist).filter _).map _
  exact (Int.ofNat_le.mpr hsub.length_le).trans
    (inBounds_of_start List.prefix_rfl (Store.fold_eventsOf hreadable a)).length

/-- **A balance query is answered exactly when nothing was applied on the account, or
what was applied keeps the balance and the held amount from being negative** (and, in
the arithmetic of SQLite, the balance in range). -/
theorem balance_answered_iff (calls : List Call) (cs : List Consumed)
    (h : rowsOf cs <+: (storeAfter calls).events) (a : String) :
    (BalanceAnswered sqliteTier (consumedBy sqliteTier cs).toProjectionStore a ↔ appliedOn cs a = [] ∨
      ((0 ≤ (sqliteArithmetic.sum ((appliedOn cs a).map AccountEvent.balanceDelta)).toInt ∧
        (sqliteArithmetic.sum ((appliedOn cs a).map AccountEvent.balanceDelta)).toInt ≤
          maxSignedBigint) ∧
      0 ≤ (sqliteArithmetic.sum ((appliedOn cs a).map AccountEvent.heldDelta)).toInt)) ∧
    (AppliesRest postgresTier cs → (BalanceAnswered postgresTier (consumedBy postgresTier cs).toProjectionStore a ↔
        appliedOn cs a = [] ∨ (0 ≤ moved AccountEvent.balanceDelta (appliedOn cs a) ∧
          0 ≤ moved AccountEvent.heldDelta (appliedOn cs a)))) := by
  have hnodup := nodup_rowsOf h
  have hlength := length_appliedOn h a
  constructor
  · have hconsuming := consuming_consumedBy hnodup (sqlite_appliesRest hnodup)
    refine answered_iff_of_projected (projected_of_ok sqlite_adds hconsuming.projected) rfl ?_ hlength
    show (sqliteArithmetic.sum ((appliedOn cs a).map fun _ => 1)).toInt = _
    rw [sqlite_count hlength]
    rfl
  · intro happlies
    have hconsuming := consuming_consumedBy hnodup happlies
    have hprojected := projected_of_ok postgres_adds hconsuming.projected
    have hcount : postgresTier.toInt (postgresArithmetic.sum ((appliedOn cs a).map fun _ => 1)) =
        (appliedOn cs a).length := by
      rw [postgres_sum, List.map_const', List.sum_replicate]
      exact nsmul_one _
    have hanswered := answered_iff_of_projected hprojected rfl hcount hlength
    simp only [postgres_sum] at hanswered
    refine hanswered.trans (or_congr_right' fun hne => ?_)
    have hrow := hprojected.balances a
    rw [sumRow?, if_neg hne] at hrow
    have hrange := postgres_inRange hconsuming.projected a _ hrow
    have hle : moved AccountEvent.balanceDelta (appliedOn cs a) ≤ maxSignedBigint := by
      rw [moved, ← postgres_sum, maxSignedBigint_eq]
      exact hrange.2
    exact ⟨fun h => ⟨h.1.1, h.2⟩, fun h => ⟨⟨h.1, hle⟩, h.2⟩⟩

/-- Rows in their order, each with its fault if it has one. -/
def consumedRows (rows : List EventRow) (faults : List (Option ParkingFault)) : List Consumed :=
  List.zipWith (fun r fault => ⟨⟨r, 1⟩, fault⟩) rows faults

/-- An event that was parked after its first attempt. -/
def ParkingFault.once : ParkingFault := ⟨.runtimeError "poison", 1, .epoch, le_rfl⟩

theorem rowsOf_consumedRows : ∀ {rows : List EventRow} {faults : List (Option ParkingFault)},
    rows.length ≤ faults.length → rowsOf (consumedRows rows faults) = rows := by
  intro rows
  induction rows with
  | nil => exact fun _ => rfl
  | cons r rows ih =>
    intro faults h
    cases faults with
    | nil => exact absurd h (by simp)
    | cons fault faults => exact congrArg (r :: ·) (ih (by simpa using h))

def voidedHold : List Call := [deposit100, hold50 1 validExpectedVersion_one .epoch 20, void50]

def placementParked : List Consumed :=
  consumedRows (storeAfter voidedHold).events [none, some .once, none]

theorem rowsOf_placementParked : rowsOf placementParked = (storeAfter voidedHold).events :=
  rowsOf_consumedRows (by decide +kernel)

theorem appliesRest_placementParked : AppliesRest postgresTier placementParked :=
  ⟨by decide +kernel⟩

theorem balance_answered_iff_void :
    (BalanceAnswered sqliteTier (consumedBy sqliteTier placementParked).toProjectionStore "alice" ↔
      appliedOn placementParked "alice" = [] ∨
      ((0 ≤ (sqliteArithmetic.sum
          ((appliedOn placementParked "alice").map AccountEvent.balanceDelta)).toInt ∧
        (sqliteArithmetic.sum
          ((appliedOn placementParked "alice").map AccountEvent.balanceDelta)).toInt ≤
            maxSignedBigint) ∧
      0 ≤ (sqliteArithmetic.sum
        ((appliedOn placementParked "alice").map AccountEvent.heldDelta)).toInt)) ∧
    (BalanceAnswered postgresTier (consumedBy postgresTier placementParked).toProjectionStore
        "alice" ↔
      appliedOn placementParked "alice" = [] ∨
        (0 ≤ moved AccountEvent.balanceDelta (appliedOn placementParked "alice") ∧
          0 ≤ moved AccountEvent.heldDelta (appliedOn placementParked "alice"))) := by
  have hrows : rowsOf placementParked <+: (storeAfter voidedHold).events :=
    ⟨[], by rw [List.append_nil, rowsOf_placementParked]⟩
  obtain ⟨hsqlite, hpostgres⟩ := balance_answered_iff voidedHold placementParked hrows "alice"
  exact ⟨hsqlite, hpostgres appliesRest_placementParked⟩

def withdraw50 : Call :=
  .of (.withdraw ⟨"alice", 50, 1, validAccountId_alice, validAmount_fifty,
    validExpectedVersion_one⟩) ⟨2⟩ .epoch 20

def depositParked : List Consumed :=
  consumedRows (storeAfter [deposit100, withdraw50]).events [some .once, none]

/-- **A withdrawal without its deposit** leaves an account that cannot be read, on
either tier. -/
theorem balance_refused_without_deposit :
    rowsOf depositParked = (storeAfter [deposit100, withdraw50]).events ∧
      AppliesRest postgresTier depositParked ∧
      getBalance sqliteTier (consumedBy sqliteTier depositParked).toProjectionStore "alice" =
        .error (.valueError
          "balance must be a non-negative, non-Boolean signed-BIGINT integer") ∧
      getBalance postgresTier (consumedBy postgresTier depositParked).toProjectionStore "alice" =
        .error (.valueError
          "balance must be a non-negative, non-Boolean signed-BIGINT integer") := by
  refine ⟨rowsOf_consumedRows (by decide +kernel), ⟨?_⟩, ?_, ?_⟩
  · decide +kernel
  · decide +kernel
  · decide +kernel

end Log

end Cloudscale
