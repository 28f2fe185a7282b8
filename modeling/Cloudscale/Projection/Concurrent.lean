import Cloudscale.Adapters.ProjectionSessions
import Cloudscale.Projection.Parking

/-!
# Stores that share a database

Any number of calls run on one projection database, statement by statement, in any
order.  Each event that was parked is applied at most once, by the call that reports
so, and its letter goes with it (`AppliedOnce`).

On PostgreSQL this holds of every run.  On SQLite it holds of the runs in which the
letter that a redrive read is still there when the redrive deletes it
(`redrives_apply_once`).  Nothing in the source sees to that: two stores that read one
letter both apply it and both report so (`redriven_by_two`).
-/

namespace Cloudscale

open Checked Python Tables SqliteInteger Sessions

variable {B V ι : Type} {d : Dialect B V} {n : Arithmetic V}

/-! ### What the statements of an event do -/

/-- The change of the balance that an event asks for. -/
def balanceDelta (event : Dict) : Int :=
  (balanceSigns.lookup (textOf (event.lookup "type"))).getD 0 * intOf (event.lookup "amount")

/-- The change of the held amount that an event asks for. -/
def heldDelta (event : Dict) : Int :=
  (heldSigns.lookup (textOf (event.lookup "type"))).getD 0 * intOf (event.lookup "amount")

/-- What an event makes of the balance of an account. -/
def onBalance (n : Arithmetic V) (accountId : String) (row : Option (BalanceRow V)) (event : Dict) :
    Option (BalanceRow V) :=
  if textParam (event.lookup "account_id") = some accountId then
    some ((row.getD (sumRow n [])).plus n (balanceDelta event) (heldDelta event))
  else row

/-- A tier whose statements on a balance add in an arithmetic. -/
def Dialect.Adds (d : Dialect B V) (n : Arithmetic V) : Prop :=
  ∀ (fits : Finds d.database) accountId delta heldDelta rows rows',
    Executes fits ((d.updateBalance delta heldDelta).map (.balance accountId)) rows rows' →
    rows' (.balance accountId) =
      some (((rows (.balance accountId)).getD (sumRow n [])).plus n delta heldDelta)

theorem sqliteDialect_adds : sqliteDialect.Adds sqliteArithmetic := by
  intro fits accountId delta heldDelta rows rows' h
  cases h with
  | idle row hidle => cases hidle
  | step hinsert _ h =>
    cases hinsert
    cases h with
    | idle row hidle => cases hidle
    | step hupdate _ h =>
      cases hupdate
      cases h
      refine (Function.update_self (RowKey.balance accountId) _ _).trans ?_
      show Option.map _ (Function.update rows (RowKey.balance accountId) (some _)
        (RowKey.balance accountId)) = _
      rw [Function.update_self]
      rfl

theorem postgresDialect_adds : postgresDialect.Adds postgresArithmetic := by
  intro fits accountId delta heldDelta rows rows' h
  cases h with
  | idle row hidle => cases hidle
  | @step _ _ _ _ row' hupsert _ h =>
    cases h
    refine (Function.update_self (RowKey.balance accountId) row' rows).trans ?_
    change postgresDialect.onBalance (.upsert delta heldDelta) (rows (.balance accountId)) = _
      at hupsert
    cases hrow : rows (.balance accountId) with
    | none =>
      rw [hrow] at hupsert
      obtain ⟨balance, hbalance, hupsert⟩ := bind_eq_ok.mp hupsert
      obtain ⟨held, hheld, hupsert⟩ := bind_eq_ok.mp hupsert
      cases hupsert
      rw [(bigint_eq_ok.mp hbalance).2, (bigint_eq_ok.mp hheld).2]
      show some (BalanceRow.mk delta heldDelta 1) = some ⟨0 + delta, 0 + heldDelta, 0 + 1⟩
      rw [zero_add, zero_add, zero_add]
    | some row =>
      rw [hrow] at hupsert
      obtain ⟨balance, hbalance, hupsert⟩ := bind_eq_ok.mp hupsert
      obtain ⟨held, hheld, hupsert⟩ := bind_eq_ok.mp hupsert
      obtain ⟨version, hversion, hupsert⟩ := bind_eq_ok.mp hupsert
      cases hupsert
      rw [(bigint_eq_ok.mp hbalance).2, (bigint_eq_ok.mp hheld).2, (bigint_eq_ok.mp hversion).2]
      rfl

def RowKey.OfHolds : RowKey → Prop
  | .hold _ => True
  | .transfer _ => True
  | .transferLeg _ _ => True
  | _ => False

/-- The databases agree but for holds and sets. -/
def SameButHolds (rows rows' : Rows (RowValue V)) : Prop := ∀ k, ¬ k.OfHolds → rows' k = rows k

theorem SameButHolds.trans {rows rows' rows'' : Rows (RowValue V)} (h : SameButHolds rows rows')
    (h' : SameButHolds rows' rows'') : SameButHolds rows rows'' :=
  fun k hk => (h' k hk).trans (h k hk)

theorem sameButHolds_of_executes {fits : Finds d.database} {sts : List (ProjectionStatement B)}
    {rows rows' : Rows (RowValue V)} (h : Executes fits sts rows rows')
    (hsts : ∀ st ∈ sts, st.key.OfHolds) : SameButHolds rows rows' :=
  fun _ hk => executes_frame h fun st hst hkey => hk (hkey ▸ hsts st hst)

theorem run_applyToTransfers {fits : Finds d.database} {event : Dict} {rest : d.Program}
    {rows rows' : Rows (RowValue V)} {reply : Reply}
    (h : Run fits (d.applyToTransfers event rest) rows rows' reply) :
    ∃ between, SameButHolds rows between ∧ Run fits rest between rows' reply := by
  unfold Dialect.applyToTransfers at h
  cases heffect : transferRowEffect event with
  | error e =>
    rw [heffect] at h
    cases h
  | ok effect =>
    rw [heffect] at h
    cases effect with
    | none => exact ⟨rows, fun _ _ => rfl, h⟩
    | some effect =>
      obtain ⟨between, hsts, hrest⟩ := run_sequence h
      refine ⟨between, sameButHolds_of_executes hsts fun st hst => ?_, hrest⟩
      simp only [List.mem_cons, List.mem_map] at hst
      rcases hst with rfl | rfl | ⟨reverts, -, rfl⟩ <;> trivial

theorem run_applyToHolds {fits : Finds d.database} {eventType : String} {event : Dict}
    {rest : d.Program} {rows rows' : Rows (RowValue V)} {reply : Reply}
    (h : Run fits (d.applyToHolds eventType event rest) rows rows' reply) :
    ∃ between, SameButHolds rows between ∧ Run fits rest between rows' reply := by
  unfold Dialect.applyToHolds at h
  cases hhold : holdStatement eventType event with
  | error e =>
    rw [hhold] at h
    cases h
  | ok hold =>
    rw [hhold] at h
    obtain ⟨between, hsts, hrest⟩ := run_sequence h
    refine ⟨between, sameButHolds_of_executes hsts fun st hst => ?_, hrest⟩
    obtain ⟨statement, -, rfl⟩ := List.mem_map.mp hst
    trivial

/-- What an event leaves of claims, letters and balances. -/
structure Applied (n : Arithmetic V) (event : Dict) (rows rows' : Rows (RowValue V)) : Prop where
  balances : ∀ l, rows' (.balance l) = onBalance n l (rows (.balance l)) event
  claims : ∀ id, rows' (.processedEvent id) = rows (.processedEvent id)
  letters : ∀ id, rows' (.deadLetter id) = rows (.deadLetter id)

/-- The statements of an event, then the rest of its transaction. -/
theorem executes_applyToBalance (hadds : d.Adds n) {fits : Finds d.database} {event : Dict}
    {rest : d.Program} {rows rows' : Rows (RowValue V)} {reply : Reply}
    (h : Run fits (d.applyToBalance event rest) rows rows' reply) :
    ∃ between, Applied n event rows between ∧ between .consumerOffset = rows .consumerOffset ∧
      Run fits rest between rows' reply := by
  unfold Dialect.applyToBalance at h
  cases haccount : textParam (event.lookup "account_id") with
  | none =>
    rw [haccount] at h
    refine ⟨rows, ⟨fun l => ?_, fun _ => rfl, fun _ => rfl⟩, rfl, h⟩
    unfold onBalance
    rw [if_neg (by rw [haccount]; simp)]
  | some accountId =>
    rw [haccount] at h
    obtain ⟨balanced, hbalance, h⟩ := run_sequence h
    obtain ⟨held, hheld, h⟩ := run_applyToHolds h
    obtain ⟨between, htransfers, hrest⟩ := run_applyToTransfers h
    have hsame := hheld.trans htransfers
    have hothers : ∀ k, k ≠ .balance accountId → balanced k = rows k := by
      intro k hk
      refine executes_frame hbalance fun st hst => ?_
      obtain ⟨statement, -, rfl⟩ := List.mem_map.mp hst
      exact Ne.symm hk
    refine ⟨between, ⟨fun l => ?_, fun id => ?_, fun id => ?_⟩, ?_, hrest⟩
    · rw [hsame (.balance l) id]
      unfold onBalance
      by_cases hl : l = accountId
      · subst hl
        rw [if_pos haccount]
        exact hadds fits _ _ _ _ _ hbalance
      · rw [if_neg (by rw [haccount]; simpa using Ne.symm hl)]
        exact hothers _ (by simpa using hl)
    · exact (hsame (.processedEvent id) (fun h => h)).trans (hothers _ (by simp))
    · exact (hsame (.deadLetter id) (fun h => h)).trans (hothers _ (by simp))
    · exact (hsame .consumerOffset (fun h => h)).trans (hothers _ (by simp))

/-- **The statements of an event** add to the balance of its account and touch no claim
and no letter. -/
theorem run_applyToBalance (hadds : d.Adds n) {fits : Finds d.database} {event : Dict}
    {rest : d.Program} {rows rows' : Rows (RowValue V)} {reply : Reply}
    (h : Run fits (d.applyToBalance event rest) rows rows' reply) :
    ∃ between, Applied n event rows between ∧ Run fits rest between rows' reply := by
  obtain ⟨between, happlied, -, hrest⟩ := executes_applyToBalance hadds h
  exact ⟨between, happlied, hrest⟩

/-! ### What a call commits -/

def payloadAt (rows : Rows (RowValue V)) (id : String) : Option Dict :=
  Option.map DeadLetter.payload (rows (.deadLetter id))

/-- What a transaction that committed did to claims, letters and balances. -/
def Committed (n : Arithmetic V) (rows rows' : Rows (RowValue V)) : Reply → Prop
  | .applied id event => rows (.processedEvent id) = none ∧
    (∀ k, rows' (.processedEvent k) = if k = id then some () else rows (.processedEvent k)) ∧
    (∀ k, payloadAt rows' k = payloadAt rows k) ∧
    ∀ l, rows' (.balance l) = onBalance n l (rows (.balance l)) event
  | .parked id event => rows (.processedEvent id) = none ∧
    (∀ k, rows' (.processedEvent k) = if k = id then some () else rows (.processedEvent k)) ∧
    (∀ k, payloadAt rows' k = if k = id then some event else payloadAt rows k) ∧
    ∀ l, rows' (.balance l) = rows (.balance l)
  | .redriven id event => (payloadAt rows id).isSome ∧
    (∀ k, rows' (.processedEvent k) = rows (.processedEvent k)) ∧
    (∀ k, payloadAt rows' k = if k = id then none else payloadAt rows k) ∧
    ∀ l, rows' (.balance l) = onBalance n l (rows (.balance l)) event
  | _ => (∀ k, rows' (.processedEvent k) = rows (.processedEvent k)) ∧
    (∀ k, payloadAt rows' k = payloadAt rows k) ∧
    ∀ l, rows' (.balance l) = rows (.balance l)

/-- A call that parks an event under an id. -/
def ParkedBy (calls : ι → StoreCall) (id : String) (payload : Dict) : Prop :=
  ∃ j error attempts now, calls j = .deadLetter payload error attempts now ∧ letterId payload = id

def StoreCall.Answers (calls : ι → StoreCall) : StoreCall → Reply → Prop
  | .apply raw, .applied id event =>
    adaptLegacyEvent raw = .ok event ∧ id = textOf (event.lookup "event_id")
  | .apply _, .duplicate => True
  | .deadLetter event _ _ _, .parked id payload => payload = event ∧ id = letterId event
  | .deadLetter _ _ _ _, .absorbed => True
  | .redrive eventId _, .redriven id event =>
    id = eventId ∧ ∃ payload, ParkedBy calls id payload ∧ adaptLegacyEvent payload = .ok event
  | .redrive _ _, .notFound => True
  | .redrive _ _, .failedAgain => True
  | _, _ => False

/-- Every letter is of a call that parked it. -/
def LettersParked (calls : ι → StoreCall) (rows : Rows (RowValue V)) : Prop :=
  ∀ id payload, payloadAt rows id = some payload → ParkedBy calls id payload

def FindsLetter (d : Dialect B V) : Finds d.database
  | .deleteLetter _ => fun row => row.isSome = true
  | _ => fun _ => True

instance (d : Dialect B V) : ∀ st row, Decidable (FindsLetter d st row)
  | .deleteLetter _ => fun row => inferInstanceAs (Decidable (row.isSome = true))
  | .claim _ => fun _ => isTrue trivial
  | .insertLetter _ _ => fun _ => isTrue trivial
  | .updateLetter _ _ _ => fun _ => isTrue trivial
  | .advanceOffset _ => fun _ => isTrue trivial
  | .balance _ _ => fun _ => isTrue trivial
  | .hold _ => fun _ => isTrue trivial
  | .upsertTransfer _ => fun _ => isTrue trivial
  | .insertLeg _ => fun _ => isTrue trivial
  | .markReverted _ _ => fun _ => isTrue trivial

section Statements

variable {fits : Finds d.database} {rows rows' : Rows (RowValue V)} {id : String}

theorem executes_claim {sts : List (ProjectionStatement B)}
    (h : Executes fits (.claim id :: sts) rows rows') : rows (.processedEvent id) = none ∧
      Executes fits sts (Function.update rows (.processedEvent id) (some ())) rows' := by
  cases h with
  | idle row hidle => exact absurd (Bool.and_eq_true _ _ ▸ hidle).2 Bool.false_ne_true
  | step hrun _ h =>
    change (if (rows (.processedEvent id)).isSome then Except.error PyError.integrityError
      else Except.ok (some ())) = _ at hrun
    split at hrun
    next => cases hrun
    next hnone =>
      cases hrun
      exact ⟨Option.not_isSome_iff_eq_none.mp hnone, h⟩

theorem executes_insertLetter {letter : DeadLetter} {sts : List (ProjectionStatement B)}
    (h : Executes fits (.insertLetter id letter :: sts) rows rows') :
    Executes fits sts (Function.update rows (.deadLetter id) (some letter)) rows' := by
  cases h with
  | idle row hidle => exact absurd (Bool.and_eq_true _ _ ▸ hidle).2 Bool.false_ne_true
  | step hrun _ h =>
    change (if (rows (.deadLetter id)).isSome then Except.error PyError.integrityError
      else Except.ok (some letter)) = _ at hrun
    split at hrun
    next => cases hrun
    next hnone =>
      cases hrun
      exact h

theorem executes_advance {logId : Int} (h : Executes fits [.advanceOffset logId] rows rows')
    {k : RowKey} (hk : k ≠ .consumerOffset) : rows' k = rows k :=
  executes_frame h fun st hst => by
    rw [List.mem_singleton.mp hst]
    exact Ne.symm hk

theorem executes_updateLetter {error : PyError} {now : Datetime}
    (h : Executes fits [.updateLetter id error now] rows rows') :
    (∀ k, k ≠ .deadLetter id → rows' k = rows k) ∧ ∀ k, payloadAt rows' k = payloadAt rows k := by
  have hframe : ∀ k, k ≠ .deadLetter id → rows' k = rows k := fun k hk =>
    executes_frame h fun st hst => by
      rw [List.mem_singleton.mp hst]
      exact Ne.symm hk
  refine ⟨hframe, fun k => ?_⟩
  by_cases hk : k = id
  · subst hk
    rcases executes_singleton h with ⟨rfl, -⟩ | ⟨row', hrun, -, rfl⟩
    · rfl
    · refine (congrArg (Option.map DeadLetter.payload)
        (Function.update_self (RowKey.deadLetter k) row' rows)).trans ?_
      cases hrun
      exact Option.map_map _ _ _
  · unfold payloadAt
    rw [hframe _ (by simpa using hk)]

end Statements

section Calls

variable {P : Rows (RowValue V) → Prop} {fits : Finds d.database} {calls : ι → StoreCall}

theorem update_claim (rows : Rows (RowValue V)) (id k : String) :
    Function.update rows (.processedEvent id) (some ()) (.processedEvent k) =
      if k = id then some () else rows (.processedEvent k) := by
  by_cases hk : k = id
  · subst hk
    rw [if_pos rfl, Function.update_self]
  · rw [if_neg hk, Function.update_of_ne (by simpa using hk)]

theorem does_advance {Q : Rows (RowValue V) → Rows (RowValue V) → Reply → Prop} {logId : Int}
    {reply : Reply} (hQ : ∀ rows rows', (∀ k, k ≠ .consumerOffset → rows' k = rows k) →
      Q rows rows' reply) : Does P fits (d.advance logId reply) Q := by
  refine does_transaction (fun rows rows' a _ h => ?_) fun e => does_raised e
  obtain ⟨between, hsts, hcommit⟩ := run_sequence h
  cases hcommit
  exact hQ _ _ fun k hk => executes_advance hsts hk

theorem does_rescueConflict {Q : Rows (RowValue V) → Rows (RowValue V) → Reply → Prop} {logId : Int}
    {reply : Reply} (hQ : ∀ rows rows', (∀ k, k ≠ .consumerOffset → rows' k = rows k) →
      Q rows rows' reply) (e : PyError) : Does P fits (d.rescueConflict logId reply e) Q := by
  cases e <;> first | exact does_advance hQ | exact does_raised _

theorem unchanged_of_offset {rows rows' : Rows (RowValue V)}
    (h : ∀ k, k ≠ .consumerOffset → rows' k = rows k) :
    (∀ k, rows' (.processedEvent k) = rows (.processedEvent k)) ∧
      (∀ k, payloadAt rows' k = payloadAt rows k) ∧ ∀ l, rows' (.balance l) = rows (.balance l) := by
  refine ⟨fun k => h _ (by simp), fun k => ?_, fun l => h _ (by simp)⟩
  unfold payloadAt
  rw [h _ (by simp)]

theorem does_apply (hadds : d.Adds n) (raw : Dict) :
    Does P fits (d.apply raw) fun rows rows' reply =>
      Committed n rows rows' reply ∧ (StoreCall.apply raw).Answers calls reply := by
  unfold Dialect.apply
  cases hadapt : adaptLegacyEvent raw with
  | error e => exact does_raised e
  | ok event =>
    dsimp only
    by_cases hid : textOf (event.lookup "event_id") = ""
    · rw [if_pos hid]
      exact does_raised _
    · rw [if_neg hid]
      refine does_transaction (fun rows rows' reply _ h => ?_)
        (does_rescueConflict fun rows rows' hrows => ⟨unchanged_of_offset hrows, trivial⟩)
      obtain ⟨claimed, hclaim, h⟩ := run_sequence h
      obtain ⟨hnew, hclaim⟩ := executes_claim hclaim
      cases hclaim
      obtain ⟨applied, hevent, h⟩ := run_applyToBalance hadds h
      obtain ⟨between, hoffset, hcommit⟩ := run_sequence h
      cases hcommit
      refine ⟨⟨hnew, fun k => ?_, fun k => ?_, fun l => ?_⟩, hadapt, rfl⟩
      · rw [executes_advance hoffset (by simp), hevent.claims, update_claim]
      · unfold payloadAt
        rw [executes_advance hoffset (by simp), hevent.letters, Function.update_of_ne (by simp)]
      · rw [executes_advance hoffset (by simp), hevent.balances, Function.update_of_ne (by simp)]

theorem does_deadLetter (event : Dict) (error : PyError) (attempts : Int) (now : Datetime) :
    Does P fits (d.deadLetter event error attempts now) fun rows rows' reply =>
      Committed n rows rows' reply ∧
        (StoreCall.deadLetter event error attempts now).Answers calls reply := by
  unfold Dialect.deadLetter
  by_cases hattempts : attempts < 1
  · rw [if_pos hattempts]
    exact does_raised _
  · rw [if_neg hattempts]
    refine does_transaction (fun rows rows' reply _ h => ?_)
      (does_rescueConflict fun rows rows' hrows => ⟨unchanged_of_offset hrows, trivial⟩)
    obtain ⟨between, hsts, hcommit⟩ := run_sequence h
    cases hcommit
    obtain ⟨hnew, hsts⟩ := executes_claim hsts
    have hoffset := executes_insertLetter hsts
    refine ⟨⟨hnew, fun k => ?_, fun k => ?_, fun l => ?_⟩, rfl, rfl⟩
    · rw [executes_advance hoffset (by simp), Function.update_of_ne (by simp), update_claim]
    · unfold payloadAt
      rw [executes_advance hoffset (by simp)]
      by_cases hk : k = letterId event
      · subst hk
        rw [if_pos rfl, Function.update_self]
        rfl
      · rw [if_neg hk, Function.update_of_ne (by simpa using hk), Function.update_of_ne (by simp)]
    · rw [executes_advance hoffset (by simp), Function.update_of_ne (by simp),
        Function.update_of_ne (by simp)]

theorem does_failAgain (id : String) (now now' : Datetime) (e : PyError) :
    Does P fits (d.failAgain id now e) fun rows rows' reply =>
      Committed n rows rows' reply ∧ (StoreCall.redrive id now').Answers calls reply := by
  refine does_transaction (fun rows rows' a _ h => ?_) fun e => does_raised e
  obtain ⟨between, hsts, hcommit⟩ := run_sequence h
  cases hcommit
  obtain ⟨hframe, hpayload⟩ := executes_updateLetter hsts
  exact ⟨⟨fun k => hframe _ (by simp), hpayload, fun l => hframe _ (by simp)⟩, trivial⟩

theorem payloadAt_delete (rows : Rows (RowValue V)) (id k : String) :
    payloadAt (Function.update rows (.deadLetter id) none) k =
      if k = id then none else payloadAt rows k := by
  unfold payloadAt
  by_cases hk : k = id
  · subst hk
    rw [if_pos rfl, Function.update_self]
    rfl
  · rw [if_neg hk, Function.update_of_ne (by simpa using hk)]

theorem does_redriveReturning (hadds : d.Adds n) (id : String) (now : Datetime) :
    Does (LettersParked calls) fits (d.redriveReturning id now) fun rows rows' reply =>
      Committed n rows rows' reply ∧ (StoreCall.redrive id now).Answers calls reply := by
  refine does_transaction (fun rows rows' reply hletters h => ?_)
    fun e => does_failAgain id now now e
  cases h with
  | idle row hidle _ hnext =>
    cases row with
    | none =>
      cases hnext
      exact ⟨⟨fun _ => rfl, fun _ => rfl, fun _ => rfl⟩, trivial⟩
    | some letter => exact absurd (Bool.and_eq_true _ _ ▸ hidle).2 Bool.false_ne_true
  | step hrun _ hnext =>
    cases hrun
    change Run fits (d.redriveReturned id (rows (.deadLetter id)))
      (Function.update rows (.deadLetter id) none) rows' reply at hnext
    have hpayload : payloadAt rows id = Option.map DeadLetter.payload (rows (.deadLetter id)) := rfl
    cases hrow : rows (.deadLetter id) with
    | none =>
      rw [hrow] at hnext
      cases hnext
      refine ⟨⟨fun k => Function.update_of_ne (by simp) _ _, fun k => ?_,
        fun l => Function.update_of_ne (by simp) _ _⟩, trivial⟩
      rw [payloadAt_delete]
      split
      next hk =>
        subst hk
        rw [hpayload, hrow]
        rfl
      next => rfl
    | some letter =>
      rw [hrow] at hnext hpayload
      unfold Dialect.redriveReturned at hnext
      dsimp only at hnext
      cases hadapt : adaptLegacyEvent letter.payload with
      | error e =>
        rw [hadapt] at hnext
        cases hnext
      | ok event =>
        rw [hadapt] at hnext
        obtain ⟨applied, hevent, hcommit⟩ := run_applyToBalance hadds hnext
        cases hcommit
        refine ⟨⟨by rw [hpayload]; rfl, fun k => ?_, fun k => ?_, fun l => ?_⟩, rfl,
          letter.payload, hletters id _ hpayload, hadapt⟩
        · rw [hevent.claims, Function.update_of_ne (by simp)]
        · rw [← payloadAt_delete]
          unfold payloadAt
          rw [hevent.letters]
        · rw [hevent.balances, Function.update_of_ne (by simp)]

end Calls

/-- The letter that was read is applied, and deleted where it is. -/
theorem does_redriveRead {calls : ι → StoreCall} (id : String) (now : Datetime) :
    Does (LettersParked calls) (FindsLetter sqliteDialect) (sqliteDialect.redriveRead id now)
      fun rows rows' reply => Committed sqliteArithmetic rows rows' reply ∧
        (StoreCall.redrive id now).Answers calls reply := by
  refine does_select fun read hread => ?_
  cases hrow : read (.deadLetter id) with
  | none => exact does_answer _
  | some letter =>
    refine does_transaction (fun rows rows' reply _ h => ?_) fun e => does_failAgain id now now e
    cases hadapt : adaptLegacyEvent letter.payload with
    | error e =>
      rw [hadapt] at h
      cases h
    | ok event =>
      rw [hadapt] at h
      obtain ⟨applied, hevent, h⟩ := run_applyToBalance sqliteDialect_adds h
      obtain ⟨deleted, hdelete, hcommit⟩ := run_sequence h
      cases hcommit
      rcases executes_singleton hdelete with ⟨-, row, hidle⟩ | ⟨row', hrun, hfinds, rfl⟩
      · cases hidle
      · cases hrun
        change (applied (.deadLetter id)).isSome = true at hfinds
        have hpayload : ParkedBy calls id letter.payload := by
          refine hread id _ ?_
          unfold payloadAt
          rw [hrow]
          rfl
        refine ⟨⟨?_, fun k => ?_, fun k => ?_, fun l => ?_⟩, rfl, letter.payload, hpayload, hadapt⟩
        · unfold payloadAt
          rw [← hevent.letters, Option.isSome_map]
          exact hfinds
        · exact (Function.update_of_ne (show RowKey.processedEvent k ≠ .deadLetter id by simp)
            _ _).trans (hevent.claims k)
        · refine (payloadAt_delete applied id k).trans ?_
          unfold payloadAt
          rw [hevent.letters]
        · exact (Function.update_of_ne (show RowKey.balance l ≠ .deadLetter id by simp)
            _ _).trans (hevent.balances l)

/-! ### Transactions in the order of their commits -/

/-- What a reply says was applied, and under which id. -/
def Reply.effect : Reply → Option (String × Dict)
  | applied id event => some (id, event)
  | redriven id event => some (id, event)
  | _ => none

def Reply.parkedId : Reply → Option String
  | parked id _ => some id
  | _ => none

/-- What was applied, in the order of the commits. -/
def effects (history : List (ι × Reply)) : List (String × Dict) :=
  history.filterMap fun entry => entry.2.effect

def appliedIds (history : List (ι × Reply)) : List String := (effects history).map Prod.fst

def parkedIds (history : List (ι × Reply)) : List String :=
  history.filterMap fun entry => entry.2.parkedId

/-- **What the rows say of the history.**  An id that was claimed was applied, or it is
parked and has a letter. -/
structure Settled (n : Arithmetic V) (history : List (ι × Reply)) (rows : Rows (RowValue V)) :
    Prop where
  unclaimed : ∀ id, rows (.processedEvent id) = none →
    payloadAt rows id = none ∧ id ∉ appliedIds history ∧ id ∉ parkedIds history
  once : (appliedIds history).Nodup
  letters : ∀ id, (payloadAt rows id).isSome → id ∈ parkedIds history ∧ id ∉ appliedIds history
  parked : ∀ id ∈ parkedIds history, (payloadAt rows id).isSome ∨ id ∈ appliedIds history
  balances : ∀ l, rows (.balance l) = ((effects history).map Prod.snd).foldl (onBalance n l) none

theorem appliedIds_concat (history : List (ι × Reply)) (i : ι) (reply : Reply) :
    appliedIds (history ++ [(i, reply)]) =
      appliedIds history ++ (reply.effect.map Prod.fst).toList := by
  unfold appliedIds effects
  rw [List.filterMap_append, List.map_append]
  cases h : reply.effect <;> simp [h]

theorem parkedIds_concat (history : List (ι × Reply)) (i : ι) (reply : Reply) :
    parkedIds (history ++ [(i, reply)]) = parkedIds history ++ reply.parkedId.toList := by
  unfold parkedIds
  rw [List.filterMap_append]
  cases h : reply.parkedId <;> simp [h]

theorem effects_concat (history : List (ι × Reply)) (i : ι) (reply : Reply) :
    effects (history ++ [(i, reply)]) = effects history ++ reply.effect.toList := by
  unfold effects
  rw [List.filterMap_append]
  cases h : reply.effect <;> simp [h]

section Settling

variable {history : List (ι × Reply)} {rows rows' : Rows (RowValue V)} {i : ι}

theorem Settled.unchanged (h : Settled n history rows) {reply : Reply}
    (heffect : reply.effect = none) (hparked : reply.parkedId = none)
    (hclaims : ∀ k, rows' (.processedEvent k) = rows (.processedEvent k))
    (hpayloads : ∀ k, payloadAt rows' k = payloadAt rows k)
    (hbalances : ∀ l, rows' (.balance l) = rows (.balance l)) :
    Settled n (history ++ [(i, reply)]) rows' := by
  have hids : appliedIds (history ++ [(i, reply)]) = appliedIds history := by
    rw [appliedIds_concat, heffect]
    exact List.append_nil _
  have hparks : parkedIds (history ++ [(i, reply)]) = parkedIds history := by
    rw [parkedIds_concat, hparked]
    exact List.append_nil _
  have heffects : effects (history ++ [(i, reply)]) = effects history := by
    rw [effects_concat, heffect]
    exact List.append_nil _
  refine ⟨fun id => ?_, hids ▸ h.once, fun id => ?_, fun id => ?_, fun l => ?_⟩
  · rw [hclaims, hpayloads, hids, hparks]
    exact h.unclaimed id
  · rw [hpayloads, hids, hparks]
    exact h.letters id
  · rw [hpayloads, hids, hparks]
    exact h.parked id
  · rw [hbalances, heffects]
    exact h.balances l

theorem Settled.applied (h : Settled n history rows) {id : String} {event : Dict}
    (hcommit : Committed n rows rows' (.applied id event)) :
    Settled n (history ++ [(i, .applied id event)]) rows' := by
  obtain ⟨hnew, hclaims, hpayloads, hbalances⟩ := hcommit
  obtain ⟨hnone, hunapplied, hunparked⟩ := h.unclaimed id hnew
  have hids : appliedIds (history ++ [(i, .applied id event)]) = appliedIds history ++ [id] :=
    appliedIds_concat _ _ _
  have hparks : parkedIds (history ++ [(i, .applied id event)]) = parkedIds history :=
    (parkedIds_concat _ _ _).trans (List.append_nil _)
  refine ⟨fun k hk => ?_, ?_, fun k => ?_, fun k hk => ?_, fun l => ?_⟩
  · rw [hclaims] at hk
    by_cases hkid : k = id
    · rw [if_pos hkid] at hk
      cases hk
    · rw [if_neg hkid] at hk
      obtain ⟨hknone, hkapplied, hkparked⟩ := h.unclaimed k hk
      rw [hpayloads, hids, hparks]
      exact ⟨hknone, by simpa using ⟨hkapplied, hkid⟩, hkparked⟩
  · rw [hids]
    exact h.once.append (List.nodup_singleton id) (by simpa using hunapplied)
  · rw [hpayloads, hids, hparks]
    intro hk
    obtain ⟨hkparked, hkapplied⟩ := h.letters k hk
    have hkid : k ≠ id := by
      rintro rfl
      exact hunparked hkparked
    exact ⟨hkparked, by simpa using ⟨hkapplied, hkid⟩⟩
  · rw [hparks] at hk
    rw [hpayloads, hids]
    exact (h.parked k hk).imp_right (List.mem_append_left _)
  · rw [hbalances, h.balances, effects_concat, List.map_append]
    exact (List.foldl_concat _ _ _ _).symm

theorem Settled.park (h : Settled n history rows) {id : String} {event : Dict}
    (hcommit : Committed n rows rows' (.parked id event)) :
    Settled n (history ++ [(i, .parked id event)]) rows' := by
  obtain ⟨hnew, hclaims, hpayloads, hbalances⟩ := hcommit
  obtain ⟨hnone, hunapplied, hunparked⟩ := h.unclaimed id hnew
  have hids : appliedIds (history ++ [(i, .parked id event)]) = appliedIds history :=
    (appliedIds_concat _ _ _).trans (List.append_nil _)
  have hparks : parkedIds (history ++ [(i, .parked id event)]) = parkedIds history ++ [id] :=
    parkedIds_concat _ _ _
  refine ⟨fun k hk => ?_, hids ▸ h.once, fun k hk => ?_, fun k hk => ?_, fun l => ?_⟩
  · rw [hclaims] at hk
    by_cases hkid : k = id
    · rw [if_pos hkid] at hk
      cases hk
    · rw [if_neg hkid] at hk
      obtain ⟨hknone, hkapplied, hkparked⟩ := h.unclaimed k hk
      rw [hpayloads, if_neg hkid, hids, hparks]
      exact ⟨hknone, hkapplied, by simpa using ⟨hkparked, hkid⟩⟩
  · rw [hids, hparks]
    by_cases hkid : k = id
    · subst hkid
      exact ⟨by simp, hunapplied⟩
    · rw [hpayloads, if_neg hkid] at hk
      exact ⟨List.mem_append_left _ (h.letters k hk).1, (h.letters k hk).2⟩
  · rw [hparks] at hk
    rw [hpayloads, hids]
    rcases List.mem_append.mp hk with hk | hk
    · split
      next => exact Or.inl rfl
      next => exact h.parked k hk
    · rw [if_pos (List.mem_singleton.mp hk)]
      exact Or.inl rfl
  · rw [hbalances, h.balances, effects_concat]
    exact congrArg _ (congrArg _ (List.append_nil _).symm)

/-- A commit that applies a parked event and deletes its letter. -/
theorem Settled.redrive (h : Settled n history rows) {id : String} {event : Dict}
    (hcommit : Committed n rows rows' (.redriven id event)) :
    Settled n (history ++ [(i, .redriven id event)]) rows' := by
  obtain ⟨hletter, hclaims, hpayloads, hbalances⟩ := hcommit
  obtain ⟨hparked, hunapplied⟩ := h.letters id hletter
  have hids : appliedIds (history ++ [(i, .redriven id event)]) = appliedIds history ++ [id] :=
    appliedIds_concat _ _ _
  have hparks : parkedIds (history ++ [(i, .redriven id event)]) = parkedIds history :=
    (parkedIds_concat _ _ _).trans (List.append_nil _)
  refine ⟨fun k hk => ?_, ?_, fun k hk => ?_, fun k hk => ?_, fun l => ?_⟩
  · rw [hclaims] at hk
    obtain ⟨hknone, hkapplied, hkparked⟩ := h.unclaimed k hk
    have hkid : k ≠ id := by
      rintro rfl
      exact hkparked hparked
    rw [hpayloads, if_neg hkid, hids, hparks]
    exact ⟨hknone, by simpa using ⟨hkapplied, hkid⟩, hkparked⟩
  · rw [hids]
    exact h.once.append (List.nodup_singleton id) (by simpa using hunapplied)
  · rw [hpayloads] at hk
    rw [hids, hparks]
    by_cases hkid : k = id
    · rw [if_pos hkid] at hk
      cases hk
    · rw [if_neg hkid] at hk
      exact ⟨(h.letters k hk).1, by simpa using ⟨(h.letters k hk).2, hkid⟩⟩
  · rw [hparks] at hk
    rw [hpayloads, hids]
    by_cases hkid : k = id
    · exact Or.inr (by simp [hkid])
    · rw [if_neg hkid]
      exact (h.parked k hk).imp_right (List.mem_append_left _)
  · rw [hbalances, h.balances, effects_concat, List.map_append]
    exact (List.foldl_concat _ _ _ _).symm

/-- **Every commit keeps the rows and the history in step.** -/
theorem Settled.commit (h : Settled n history rows) {reply : Reply}
    (hcommit : Committed n rows rows' reply) : Settled n (history ++ [(i, reply)]) rows' := by
  cases reply with
  | applied id event => exact h.applied hcommit
  | parked id event => exact h.park hcommit
  | redriven id event => exact h.redrive hcommit
  | duplicate | absorbed | notFound | failedAgain =>
    exact h.unchanged rfl rfl hcommit.1 hcommit.2.1 hcommit.2.2

end Settling

/-! ### Runs -/

section Runs

variable {calls : ι → StoreCall} {fits : Finds d.database} {scripts : ι → d.Script}
  {history : List (ι × Reply)} {rows rows₀ : Rows (RowValue V)}

def DoesCalls (n : Arithmetic V) (calls : ι → StoreCall) (fits : Finds d.database)
    (scripts : ι → d.Script) : Prop :=
  ∀ i, Does (LettersParked calls) fits (scripts i) fun rows rows' reply =>
    Committed n rows rows' reply ∧ (calls i).Answers calls reply

theorem lettersParked_of_committed {rows' : Rows (RowValue V)} {i : ι} {reply : Reply}
    (h : LettersParked calls rows) (hcommit : Committed n rows rows' reply)
    (hanswers : (calls i).Answers calls reply) : LettersParked calls rows' := by
  intro id payload hpayload
  cases reply with
  | parked eventId event =>
    rw [hcommit.2.2.1] at hpayload
    split at hpayload
    next hid =>
      cases hpayload
      cases hcall : calls i with
      | deadLetter event' error attempts now =>
        rw [hcall] at hanswers
        obtain ⟨rfl, rfl⟩ := hanswers
        exact ⟨i, error, attempts, now, hcall, hid.symm⟩
      | apply | redrive => rw [hcall] at hanswers; exact hanswers.elim
    next => exact h id payload hpayload
  | redriven eventId event =>
    rw [hcommit.2.2.1] at hpayload
    split at hpayload
    next => cases hpayload
    next => exact h id payload hpayload
  | applied eventId event =>
    rw [hcommit.2.2.1] at hpayload
    exact h id payload hpayload
  | duplicate | absorbed | notFound | failedAgain =>
    rw [hcommit.2.1] at hpayload
    exact h id payload hpayload

/-- **Transactions one after the other keep the rows and the history in step.** -/
theorem settled_of_serial (hdoes : DoesCalls n calls fits scripts)
    (hstart : Settled n ([] : List (ι × Reply)) rows₀)
    (h : Serial (LettersParked calls) fits scripts rows₀ history rows) :
    Settled n history rows ∧ ∀ entry ∈ history, (calls entry.1).Answers calls entry.2 := by
  induction h with
  | start => exact ⟨hstart, fun _ h => nomatch h⟩
  | commit _ hrows hbody hrun ih =>
    obtain ⟨hcommit, hanswers⟩ := hdoes _ hbody hrows hrun
    refine ⟨ih.1.commit hcommit, fun entry hentry => ?_⟩
    rcases List.mem_append.mp hentry with hold | hnew
    · exact ih.2 entry hold
    · rw [List.mem_singleton.mp hnew]
      exact hanswers

/-- **Each parked event is applied at most once**, by the call that reports so. -/
structure AppliedOnce (n : Arithmetic V) (calls : ι → StoreCall) (s : State d.database ι Reply) :
    Prop where
  /-- No event is applied under an id twice, redriven or not. -/
  once : (appliedIds s.history).Nodup
  /-- The balances hold what was applied, and nothing else. -/
  balances : ∀ l, s.rows (.balance l) = ((effects s.history).map Prod.snd).foldl (onBalance n l) none
  /-- A letter is there until its event is applied, and no longer. -/
  letters : ∀ id ∈ parkedIds s.history, (s.rows (.deadLetter id)).isSome ↔ id ∉ appliedIds s.history
  /-- The call that reports `APPLIED` is the one that applied the event. -/
  reported : ∀ i id now, calls i = .redrive id now →
    ((∃ reply, s.sessions i = .ready (.answer reply) ∧ reply.outcome = some .applied) ↔
      ∃ event, (i, .redriven id event) ∈ s.history)
  /-- What a redrive applied is the event that was parked. -/
  payload : ∀ i id event, (i, .redriven id event) ∈ s.history →
    ∃ payload, ParkedBy calls id payload ∧ adaptLegacyEvent payload = .ok event

theorem appliedOnce_of_consistent {s : State d.database ι Reply}
    (hdoes : DoesCalls n calls fits scripts)
    (hanswers : ∀ i id now, calls i = .redrive id now → ∀ reply,
      Follows (LettersParked calls) (scripts i) (.answer reply) → reply = .notFound)
    (hstart : Settled n ([] : List (ι × Reply)) rows₀)
    (h : Consistent (LettersParked calls) fits scripts rows₀ s) : AppliedOnce n calls s := by
  obtain ⟨hsettled, hentries⟩ := settled_of_serial hdoes hstart h.serial
  have hletter : ∀ id, (payloadAt s.rows id).isSome = (s.rows (.deadLetter id)).isSome := fun id =>
    Option.isSome_map
  refine ⟨hsettled.once, hsettled.balances, fun id hid => ?_, fun i id now hcall => ?_,
    fun i id event hmem => ?_⟩
  · rw [← hletter]
    constructor
    · exact fun hsome => (hsettled.letters id hsome).2
    · exact fun happlied => (hsettled.parked id hid).resolve_right happlied
  · constructor
    · rintro ⟨reply, hsession, houtcome⟩
      rcases answer_of_ready h hsession with hmem | hfollows
      · have hanswer := hentries _ hmem
        rw [hcall] at hanswer
        cases reply with
        | redriven id' event =>
          obtain ⟨rfl, -⟩ := hanswer
          exact ⟨event, hmem⟩
        | applied | duplicate | parked | absorbed | notFound | failedAgain => cases houtcome
      · rw [hanswers i id now hcall reply hfollows] at houtcome
        cases houtcome
    · rintro ⟨event, hmem⟩
      exact ⟨_, h.answers _ _ hmem, rfl⟩
  · have hanswer := hentries _ hmem
    cases hcall : calls i with
    | redrive eventId now =>
      rw [hcall] at hanswer
      exact hanswer.2
    | apply | deadLetter => rw [hcall] at hanswer; exact hanswer.elim

end Runs

/-- The calls on a PostgreSQL database without rows. -/
def postgresStart (calls : ι → StoreCall) : State postgresDialect.database ι Reply :=
  .start DeadLetterStore.empty.rows fun i => (calls i).postgres

/-- The calls on a SQLite database without rows. -/
def sqliteStart (calls : ι → StoreCall) : State sqliteDialect.database ι Reply :=
  .start DeadLetterStore.empty.rows fun i => (calls i).sqlite

theorem settled_empty : Settled n ([] : List (ι × Reply))
    (DeadLetterStore.empty : DeadLetterStore V).rows :=
  ⟨fun _ _ => ⟨rfl, List.not_mem_nil, List.not_mem_nil⟩, List.nodup_nil,
    (fun _ h => absurd h Bool.false_ne_true), (fun _ h => absurd h List.not_mem_nil), fun _ => rfl⟩

theorem lettersParked_empty (calls : ι → StoreCall) :
    LettersParked calls (DeadLetterStore.empty : DeadLetterStore V).rows := fun _ _ h => nomatch h

theorem doesCalls_postgres (calls : ι → StoreCall) :
    DoesCalls postgresArithmetic calls (fun _ _ => True) fun i => (calls i).postgres := by
  intro i
  dsimp only
  cases hcall : calls i with
  | apply event => exact does_apply postgresDialect_adds event
  | deadLetter event error attempts now => exact does_deadLetter event error attempts now
  | redrive id now => exact does_redriveReturning postgresDialect_adds id now

theorem doesCalls_sqlite (calls : ι → StoreCall) :
    DoesCalls sqliteArithmetic calls (FindsLetter sqliteDialect) fun i => (calls i).sqlite := by
  intro i
  dsimp only
  cases hcall : calls i with
  | apply event => exact does_apply sqliteDialect_adds event
  | deadLetter event error attempts now => exact does_deadLetter event error attempts now
  | redrive id now => exact does_redriveRead id now

theorem appliedOnce_of_run [DecidableEq ι] {calls : ι → StoreCall} {fits : Finds d.database}
    {scripts : ι → d.Script} (hdoes : DoesCalls n calls fits scripts)
    (hanswers : ∀ i id now, calls i = .redrive id now → ∀ reply,
      Follows (LettersParked calls) (scripts i) (.answer reply) → reply = .notFound)
    (moves : List (Move ι))
    (hfits : Runs.Along State.next (Fitting fits) (.start DeadLetterStore.empty.rows scripts) moves) :
    AppliedOnce n calls
      (Runs.run State.next (.start DeadLetterStore.empty.rows scripts) moves) := by
  have hkeep : ∀ i, Does (LettersParked calls) fits (scripts i) fun _ rows' _ =>
      LettersParked calls rows' := by
    intro i _ _ _ _ _ hbody hrows hrun
    obtain ⟨hcommit, hreply⟩ := hdoes i hbody hrows hrun
    exact lettersParked_of_committed hrows hcommit hreply
  exact appliedOnce_of_consistent hdoes hanswers settled_empty
    (consistent_run hkeep (lettersParked_empty calls) moves hfits)

/-- Without its transaction a redrive answers that there is no letter. -/
theorem answer_of_redriveRead {P : Rows (RowValue V) → Prop} {id : String} {now : Datetime}
    {reply : Reply} (h : Follows P (d.redriveRead id now) (.answer reply)) : reply = .notFound := by
  rcases follows_select h with heq | ⟨rows, -, h⟩
  · cases heq
  · cases hrow : rows (.deadLetter id) with
    | none =>
      rw [hrow] at h
      cases follows_answer h
      rfl
    | some letter =>
      rw [hrow] at h
      rcases follows_transaction h with heq | ⟨e, h⟩
      · cases heq
      · rcases follows_transaction h with heq | ⟨e', h⟩
        · cases heq
        · cases follows_raised h

theorem answer_of_redriveReturning {P : Rows (RowValue V) → Prop} {id : String} {now : Datetime}
    {reply : Reply} (h : Follows P (d.redriveReturning id now) (.answer reply)) :
    reply = .notFound := by
  rcases follows_transaction h with heq | ⟨e, h⟩
  · cases heq
  · rcases follows_transaction h with heq | ⟨e', h⟩
    · cases heq
    · cases follows_raised h

/-- The letter that a redrive deletes is there. -/
structure LettersStay [DecidableEq ι] (calls : ι → StoreCall) (moves : List (Move ι)) : Prop where
  along : Runs.Along State.next (Fitting (FindsLetter sqliteDialect)) (sqliteStart calls) moves

/-- **Stores that share a database apply a parked event once**: on PostgreSQL whatever
the order of the statements, on SQLite when no redrive deletes a letter that is gone. -/
theorem redrives_apply_once [DecidableEq ι] (calls : ι → StoreCall) (moves : List (Move ι)) :
    AppliedOnce postgresArithmetic calls (Runs.run State.next (postgresStart calls) moves) ∧
      (LettersStay calls moves →
        AppliedOnce sqliteArithmetic calls (Runs.run State.next (sqliteStart calls) moves)) := by
  constructor
  · refine appliedOnce_of_run (doesCalls_postgres calls) (fun i id now hcall reply h => ?_) moves
      (Runs.along_of_forall fitting_true moves _)
    rw [hcall] at h
    exact answer_of_redriveReturning h
  · intro hstay
    refine appliedOnce_of_run (doesCalls_sqlite calls) (fun i id now hcall reply h => ?_) moves
      hstay.along
    rw [hcall] at h
    exact answer_of_redriveRead h

/-! ### Two redrives of one letter -/

def feedDeposit : Dict :=
  [("type", .str "Deposited"), ("account_id", .str "alice"), ("amount", .int 100),
    ("event_id", .str "e-1"), ("id", .int 1)]

/-- The deposit is parked, and two stores redrive it. -/
def twoRedrives : Fin 3 → StoreCall
  | 0 => .deadLetter feedDeposit .overflowError 3 .epoch
  | _ => .redrive "e-1" .epoch

/-- The second redrive begins when the first has ended. -/
def oneByOne : List (Move (Fin 3)) :=
  [0, 0, 0, 0, 0, 1, 1, 1, 1, 1, 1, 2].map .proceed

/-- The second redrive reads the letter before the first deletes it. -/
def bothRead : List (Move (Fin 3)) :=
  [0, 0, 0, 0, 0, 1, 2, 1, 1, 1, 1, 1, 2, 2, 2, 2, 2].map .proceed

def outcomes (history : List (ι × Reply)) : List (ι × Option RedriveOutcome) :=
  history.map fun entry => (entry.1, entry.2.outcome)

theorem lettersStay_oneByOne : LettersStay twoRedrives oneByOne := ⟨by decide +kernel⟩

theorem redrives_apply_once_oneByOne :
    outcomes (Runs.run State.next (sqliteStart twoRedrives) oneByOne).history =
        [(0, none), (1, some .applied)] ∧
      AppliedOnce sqliteArithmetic twoRedrives
        (Runs.run State.next (sqliteStart twoRedrives) oneByOne) :=
  ⟨by decide +kernel, (redrives_apply_once twoRedrives oneByOne).2 lettersStay_oneByOne⟩

/-- **Two stores apply one letter**, and both report that they did: the deposit of 100
is 200 on the account. -/
theorem redriven_by_two :
    outcomes (Runs.run State.next (sqliteStart twoRedrives) bothRead).history =
        [(0, none), (1, some .applied), (2, some .applied)] ∧
      (Runs.run State.next (sqliteStart twoRedrives) bothRead).rows (.balance "alice") =
        some ⟨.integer 200, .integer 0, .integer 2⟩ ∧
      ¬ AppliedOnce sqliteArithmetic twoRedrives
        (Runs.run State.next (sqliteStart twoRedrives) bothRead) := by
  refine ⟨by decide +kernel, by decide +kernel, fun h => ?_⟩
  have hids : appliedIds (Runs.run State.next (sqliteStart twoRedrives) bothRead).history =
      ["e-1", "e-1"] := by decide +kernel
  have honce := h.once
  rw [hids] at honce
  exact absurd honce (by decide)

end Cloudscale
