import Cloudscale.Adapters.ProjectionSessions
import Cloudscale.Projection.Rows

/-!
# A store alone on its database

A script that no other session disturbs does what the call of `DeadLetterStore` does
(`apply_alone`, `deadLetter_alone`, `redriveRead_alone`, `redriveReturning_alone`): the
statements of the source, row by row, are its transactions, table by table.
-/

namespace Cloudscale

open Checked Python Tables SqliteInteger Sessions

variable {B V : Type} {d : Dialect B V} {tier : Tier V}

/-! ### Read models -/

def DeadLetterStore.withModels (p : DeadLetterStore V) (models : ReadModels V) : DeadLetterStore V :=
  { p with readModels := models }

/-- **One statement**: two stores that differ in its row, as it changes it. -/
theorem executeAll_step {p p' : DeadLetterStore V} {st : ProjectionStatement B}
    (sts : List (ProjectionStatement B))
    (hrun : d.database.run st (p.rows st.key) = .ok (p'.rows st.key))
    (hother : ∀ k, k ≠ st.key → p'.rows k = p.rows k) :
    d.database.executeAll (st :: sts) p.rows = d.database.executeAll sts p'.rows := by
  have hrows : p'.rows = Function.update p.rows st.key (p'.rows st.key) := by
    funext k
    by_cases hk : k = st.key
    · subst hk
      rw [Function.update_self]
    · rw [Function.update_of_ne hk, hother k hk]
  rw [executeAll_cons]
  change (d.database.run st (p.rows st.key)).map (Function.update p.rows st.key) >>= _ = _
  rw [hrun]
  change d.database.executeAll sts (Function.update p.rows st.key (p'.rows st.key)) = _
  rw [← hrows]

theorem executeAll_error {p : DeadLetterStore V} {st : ProjectionStatement B} {e : PyError}
    (sts : List (ProjectionStatement B)) (hrun : d.database.run st (p.rows st.key) = .error e) :
    d.database.executeAll (st :: sts) p.rows = .error e := by
  rw [executeAll_cons]
  change (d.database.run st (p.rows st.key)).map (Function.update p.rows st.key) >>= _ = _
  rw [hrun]
  rfl

section ReadModels

variable {p : DeadLetterStore V} {models : ReadModels V}

/-- A tier and its statements on a balance. -/
def Dialect.Renders (d : Dialect B V) (tier : Tier V) : Prop :=
  ∀ (p : DeadLetterStore V) (models : ReadModels V) accountId delta heldDelta,
    d.database.executeAll ((d.updateBalance delta heldDelta).map (.balance accountId))
        (p.withModels models).rows =
      (tier.updateBalance models.balances accountId delta heldDelta).map fun balances =>
        (p.withModels { models with balances := balances }).rows

theorem executeAll_balance {accountId : String} {statement : B} (sts : List (ProjectionStatement B))
    (balances : Table String (BalanceRow V))
    (hrun : d.onBalance statement (models.balances.find accountId) = .ok (balances.find accountId))
    (hother : ∀ k, k ≠ accountId → balances.find k = models.balances.find k) :
    d.database.executeAll (.balance accountId statement :: sts) (p.withModels models).rows =
      d.database.executeAll sts (p.withModels { models with balances := balances }).rows := by
  refine executeAll_step sts hrun fun k hk => ?_
  cases k with
  | balance k => exact hother k fun h => hk (by rw [h]; rfl)
  | _ => rfl

theorem sqlite_renders : sqliteDialect.Renders sqliteTier := by
  intro p models accountId delta heldDelta
  refine (executeAll_balance _ (models.balances.putNew accountId
    ⟨.integer 0, .integer 0, .integer 0⟩) ?_ fun k hk => ?_).trans
    (executeAll_balance [] _ ?_ fun k hk => ?_)
  · rw [Table.find_putNew, if_pos rfl]
    rfl
  · rw [Table.find_putNew, if_neg hk]
  · rw [Table.find_modify, if_pos rfl]
    rfl
  · rw [Table.find_modify, if_neg hk]

theorem postgres_upsert (balances : Table String (BalanceRow Int)) (accountId : String)
    (delta heldDelta : Int) :
    (∃ e, postgresDialect.onBalance (.upsert delta heldDelta) (balances.find accountId) = .error e ∧
      postgresTier.updateBalance balances accountId delta heldDelta = .error e) ∨
    ∃ row, postgresDialect.onBalance (.upsert delta heldDelta) (balances.find accountId) =
        .ok (some row) ∧
      postgresTier.updateBalance balances accountId delta heldDelta =
        .ok (balances.put accountId row) := by
  cases hrow : balances.find accountId with
  | none =>
    simp only [postgresDialect, postgresTier, hrow]
    cases bigint delta with
    | error e => exact Or.inl ⟨e, rfl, rfl⟩
    | ok balance =>
      cases bigint heldDelta with
      | error e => exact Or.inl ⟨e, rfl, rfl⟩
      | ok held => exact Or.inr ⟨_, rfl, rfl⟩
  | some row =>
    simp only [postgresDialect, postgresTier, hrow]
    cases bigint (row.balance + delta) with
    | error e => exact Or.inl ⟨e, rfl, rfl⟩
    | ok balance =>
      cases bigint (row.held + heldDelta) with
      | error e => exact Or.inl ⟨e, rfl, rfl⟩
      | ok held =>
        cases bigint (row.version + 1) with
        | error e => exact Or.inl ⟨e, rfl, rfl⟩
        | ok version => exact Or.inr ⟨_, rfl, rfl⟩

theorem postgres_renders : postgresDialect.Renders postgresTier := by
  intro p models accountId delta heldDelta
  rcases postgres_upsert models.balances accountId delta heldDelta with
    ⟨e, hstatement, hupdate⟩ | ⟨row, hstatement, hupdate⟩
  · rw [hupdate]
    exact executeAll_error _ hstatement
  · rw [hupdate]
    refine executeAll_balance [] _ ?_ fun k hk => ?_
    · rw [hstatement, Table.find_put, if_pos rfl]
    · rw [Table.find_put, if_neg hk]

theorem executeAll_hold (hold : Option HoldStatement) :
    d.database.executeAll (hold.toList.map .hold) (p.withModels models).rows =
      .ok (p.withModels { models with holds := match hold with
        | some statement => statement.execute models.holds
        | none => models.holds }).rows := by
  cases hold with
  | none => rfl
  | some statement =>
    refine executeAll_step [] ?_ fun k hk => ?_
    · show _ = Except.ok ((statement.execute models.holds).find statement.holdId)
      rw [find_executeHold]
      cases statement with
      | place => exact congrArg Except.ok (if_pos rfl).symm
      | settle => exact congrArg Except.ok (if_pos rfl).symm
    · cases k with
      | hold k =>
        show (statement.execute models.holds).find k = _
        rw [find_executeHold]
        cases statement <;> exact if_neg fun h => hk (by rw [h]; rfl)
      | _ => rfl

theorem executeAll_upsertTransfer (effect : TransferRowEffect) (sts : List (ProjectionStatement B)) :
    d.database.executeAll (.upsertTransfer effect :: sts) (p.withModels models).rows =
      d.database.executeAll sts (p.withModels
        { models with transfers := effect.upsertTransfer models.transfers }).rows := by
  refine executeAll_step sts ?_ fun k hk => ?_
  · show d.database.run (.upsertTransfer effect) (models.transfers.find effect.transferId) =
      Except.ok ((effect.upsertTransfer models.transfers).find effect.transferId)
    rw [effect.find_upsertTransfer]
    unfold TransferRowEffect.upsertRow
    rw [if_pos rfl]
    cases models.transfers.find effect.transferId <;> rfl
  · cases k with
    | transfer k =>
      show (effect.upsertTransfer models.transfers).find k = _
      rw [effect.find_upsertTransfer]
      exact if_neg fun h => hk (by rw [h]; rfl)
    | _ => rfl

theorem executeAll_insertLeg (effect : TransferRowEffect) (sts : List (ProjectionStatement B)) :
    d.database.executeAll (.insertLeg effect :: sts) (p.withModels models).rows =
      d.database.executeAll sts (p.withModels
        { models with transferLegs := effect.insertLeg models.transferLegs }).rows := by
  refine executeAll_step sts ?_ fun k hk => ?_
  · show _ = Except.ok ((effect.insertLeg models.transferLegs).find
      (effect.transferId, effect.accountId))
    rw [effect.find_insertLeg]
    exact congrArg Except.ok (if_pos rfl).symm
  · cases k with
    | transferLeg t a =>
      show (effect.insertLeg models.transferLegs).find (t, a) = _
      rw [effect.find_insertLeg]
      refine if_neg fun h => hk ?_
      obtain ⟨rfl, rfl⟩ := Prod.mk.inj h
      rfl
    | _ => rfl

theorem executeAll_markReverted (effect : TransferRowEffect) :
    d.database.executeAll (effect.marksReverted.toList.map (.markReverted · effect.transferId))
        (p.withModels models).rows =
      .ok (p.withModels
        { models with transfers := effect.markReverted models.transfers }).rows := by
  cases hmarks : effect.marksReverted with
  | none =>
    unfold TransferRowEffect.markReverted
    rw [hmarks]
    rfl
  | some reverts =>
    refine executeAll_step [] ?_ fun k hk => ?_
    · show _ = Except.ok ((effect.markReverted models.transfers).find reverts)
      rw [effect.find_markReverted]
      exact congrArg Except.ok (if_pos hmarks).symm
    · cases k with
      | transfer k =>
        show (effect.markReverted models.transfers).find k = _
        rw [effect.find_markReverted]
        refine if_neg fun h => hk ?_
        rw [hmarks] at h
        rw [Option.some.inj h]
        rfl
      | _ => rfl

theorem applyToTransfers_alone (event : Dict) (rest : d.Program) :
    (d.applyToTransfers event rest).alone (p.withModels models).rows =
      models.applyToTransfers event >>= fun models => rest.alone (p.withModels models).rows := by
  unfold Dialect.applyToTransfers ReadModels.applyToTransfers
  cases transferRowEffect event with
  | error e => rfl
  | ok effect =>
    cases effect with
    | none => rfl
    | some effect =>
      dsimp only
      rw [alone_sequence, executeAll_upsertTransfer, executeAll_insertLeg, executeAll_markReverted]
      rfl

theorem applyToHolds_alone (eventType : String) (event : Dict) (rest : d.Program) :
    (d.applyToHolds eventType event rest).alone (p.withModels models).rows =
      models.applyToHolds eventType event >>= fun models => rest.alone (p.withModels models).rows := by
  unfold Dialect.applyToHolds ReadModels.applyToHolds
  cases holdStatement eventType event with
  | error e => rfl
  | ok hold =>
    dsimp only
    rw [alone_sequence, executeAll_hold]
    cases hold <;> rfl

/-- **The statements of an event, alone, are `_apply_to_balance`.** -/
theorem applyToBalance_alone (hd : d.Renders tier) (p : DeadLetterStore V) (models : ReadModels V)
    (event : Dict) (rest : d.Program) :
    (d.applyToBalance event rest).alone (p.withModels models).rows =
      models.applyToBalance tier event >>= fun models => rest.alone (p.withModels models).rows := by
  unfold Dialect.applyToBalance ReadModels.applyToBalance
  cases textParam (event.lookup "account_id") with
  | none => rfl
  | some accountId =>
    dsimp only
    rw [alone_sequence, hd]
    cases tier.updateBalance models.balances accountId _ _ with
    | error e => rfl
    | ok balances =>
      show (d.applyToHolds _ event _).alone (p.withModels { models with balances := balances }).rows =
        (ReadModels.applyToHolds _ event { models with balances := balances } >>=
          ReadModels.applyToTransfers event) >>= _
      rw [applyToHolds_alone, bind_assoc]
      exact bind_congr fun models => applyToTransfers_alone event rest

end ReadModels

/-! ### Calls -/

/-- What a caller of `apply` or `dead_letter` sees of a reply. -/
def Reply.changed : Reply → Bool
  | applied _ _ => true
  | parked _ _ => true
  | _ => false

section Calls

variable (p : DeadLetterStore V)

theorem executeAll_advance (logId : Int) : d.database.executeAll [.advanceOffset logId] p.rows =
    .ok { p with lastId := max p.lastId logId }.rows := by
  refine executeAll_step [] rfl fun k hk => ?_
  cases k with
  | consumerOffset => exact absurd rfl hk
  | _ => rfl

theorem advance_alone (logId : Int) (reply : Reply) : (d.advance logId reply).alone p.rows =
    (.ok reply, { p with lastId := max p.lastId logId }.rows) := by
  unfold Dialect.advance Script.alone
  rw [alone_sequence, executeAll_advance]
  rfl

theorem executeAll_claim (id : String) (sts : List (ProjectionStatement B)) :
    d.database.executeAll (.claim id :: sts) p.rows =
      p.claim id >>= fun store =>
        d.database.executeAll sts { p with toProjectionStore := store }.rows := by
  unfold ProjectionStore.claim
  by_cases hclaimed : (p.processedEvents.find id).isSome
  · rw [if_pos hclaimed]
    exact executeAll_error sts (if_pos hclaimed)
  · rw [if_neg hclaimed]
    refine executeAll_step sts ?_ fun k hk => ?_
    · show (if (p.processedEvents.find id).isSome then Except.error PyError.integrityError
        else Except.ok (some ())) = Except.ok ((p.processedEvents.put id ()).find id)
      rw [if_neg hclaimed, Table.find_put, if_pos rfl]
    · cases k with
      | processedEvent k =>
        show (p.processedEvents.put id ()).find k = _
        rw [Table.find_put, if_neg fun h => hk (by rw [h]; rfl)]
        rfl
      | _ => rfl

/-- What a call that claims an id leaves. -/
def DeadLetterStore.settled (logId : Int) :
    Except PyError (DeadLetterStore V) → Except PyError Bool × DeadLetterStore V
  | .ok p' => (.ok true, p')
  | .error .integrityError => (.ok false, { p with lastId := max p.lastId logId })
  | .error e => (.error e, p)

theorem rescueConflict_alone (result : Except PyError (DeadLetterStore V)) (logId : Int)
    (conflict : Reply) {body : d.Program} {reply : Reply} (hreply : reply.changed = true)
    (hconflict : conflict.changed = false)
    (hbody : body.alone p.rows = result.map fun p' => (reply, p'.rows)) :
    ((Script.transaction body (d.rescueConflict logId conflict)).alone p.rows).1.map Reply.changed =
        (p.settled logId result).1 ∧
      ((Script.transaction body (d.rescueConflict logId conflict)).alone p.rows).2 =
        (p.settled logId result).2.rows := by
  rw [alone_transaction, hbody]
  cases result with
  | ok p' => exact ⟨congrArg Except.ok hreply, rfl⟩
  | error e =>
    cases e with
    | integrityError =>
      show ((d.advance logId conflict).alone p.rows).1.map _ = _ ∧
        ((d.advance logId conflict).alone p.rows).2 = _
      rw [advance_alone]
      exact ⟨congrArg Except.ok hconflict, rfl⟩
    | _ => exact ⟨rfl, rfl⟩

theorem applyTransaction_alone (hd : d.Renders tier) (event : Dict) (reply : Reply) :
    (Program.sequence [.claim (textOf (event.lookup "event_id"))] (d.applyToBalance event
      (.sequence [.advanceOffset (intOf (event.lookup "id"))] (.commit reply)))).alone p.rows =
    ((ProjectionStore.applyTransaction tier event p.toProjectionStore).map fun store =>
      { p with toProjectionStore := store }).map fun p' => (reply, p'.rows) := by
  rw [alone_sequence, executeAll_claim]
  unfold ProjectionStore.applyTransaction
  cases p.claim (textOf (event.lookup "event_id")) with
  | error e => rfl
  | ok store =>
    refine (applyToBalance_alone hd { p with toProjectionStore := store } store.readModels
      event _).trans ?_
    show _ = Except.map _ (Except.map _ (store.readModels.applyToBalance tier event >>= _))
    cases store.readModels.applyToBalance tier event with
    | error e => rfl
    | ok models =>
      rw [ok_bind, alone_sequence, executeAll_advance]
      rfl

/-- **`apply`, alone.** -/
theorem apply_alone (hd : d.Renders tier) (event : Dict) :
    ((d.apply event).alone p.rows).1.map Reply.changed = (p.apply tier event).1 ∧
      ((d.apply event).alone p.rows).2 =
        { p with toProjectionStore := (p.apply tier event).2 }.rows := by
  unfold Dialect.apply ProjectionStore.apply
  cases adaptLegacyEvent event with
  | error e => exact ⟨rfl, rfl⟩
  | ok event =>
    dsimp only
    unfold ProjectionStore.applyAdapted
    by_cases hid : textOf (event.lookup "event_id") = ""
    · rw [if_pos hid, if_pos hid]
      exact ⟨rfl, rfl⟩
    · rw [if_neg hid, if_neg hid]
      obtain ⟨hresult, hrows⟩ := rescueConflict_alone p _ (intOf (event.lookup "id")) .duplicate
        rfl rfl (applyTransaction_alone p hd event (.applied (textOf (event.lookup "event_id")) event))
      refine ⟨hresult.trans ?_, hrows.trans ?_⟩ <;>
        unfold ProjectionStore.settle DeadLetterStore.settled
      · cases ProjectionStore.applyTransaction tier event p.toProjectionStore with
        | ok store => rfl
        | error e => cases e <;> rfl
      · cases ProjectionStore.applyTransaction tier event p.toProjectionStore with
        | ok store => rfl
        | error e => cases e <;> rfl

theorem executeAll_insertLetter (id : String) (letter : DeadLetter)
    (sts : List (ProjectionStatement B)) :
    d.database.executeAll (.insertLetter id letter :: sts) p.rows =
      (require ((p.deadLetters.find id).isSome = false) PyError.integrityError >>= fun _ =>
        d.database.executeAll sts { p with deadLetters := p.deadLetters.put id letter }.rows) := by
  by_cases hletter : (p.deadLetters.find id).isSome = false
  · rw [require_of hletter, ok_bind]
    refine executeAll_step sts ?_ fun k hk => ?_
    · show (if (p.deadLetters.find id).isSome then Except.error PyError.integrityError
        else Except.ok (some letter)) = Except.ok ((p.deadLetters.put id letter).find id)
      rw [if_neg (by rw [hletter]; decide), Table.find_put, if_pos rfl]
    · cases k with
      | deadLetter k =>
        show (p.deadLetters.put id letter).find k = _
        rw [Table.find_put, if_neg fun h => hk (by rw [h]; rfl)]
        rfl
      | _ => rfl
  · rw [require_of_not hletter, error_bind]
    exact executeAll_error sts (if_pos (Bool.eq_true_of_not_eq_false hletter))

theorem deadLetterTransaction_alone (event : Dict) (error : PyError) (attempts : Int)
    (now : Datetime) (reply : Reply) :
    (.sequence [.claim (letterId event), .insertLetter (letterId event)
        ⟨intOf (event.lookup "id"), event, error, attempts, now⟩,
      .advanceOffset (intOf (event.lookup "id"))] (.commit reply) : d.Program).alone p.rows =
    (DeadLetterStore.deadLetterTransaction event error attempts now p).map
      fun p' => (reply, p'.rows) := by
  rw [alone_sequence, executeAll_claim]
  unfold DeadLetterStore.deadLetterTransaction
  cases hclaim : p.claim (letterId event) with
  | error e => rfl
  | ok store =>
    rw [ok_bind, ok_bind, executeAll_insertLetter]
    by_cases hletter : (p.deadLetters.find (letterId event)).isSome = false
    · rw [require_of hletter, ok_bind, executeAll_advance]
      rfl
    · rw [require_of_not hletter]
      rfl

/-- **`dead_letter`, alone.** -/
theorem deadLetter_alone (event : Dict) (error : PyError) (attempts : Int) (now : Datetime) :
    ((d.deadLetter event error attempts now).alone p.rows).1.map Reply.changed =
        (p.deadLetter event error attempts now).1 ∧
      ((d.deadLetter event error attempts now).alone p.rows).2 =
        (p.deadLetter event error attempts now).2.rows := by
  unfold Dialect.deadLetter DeadLetterStore.deadLetter
  by_cases hattempts : attempts < 1
  · rw [if_pos hattempts, if_pos hattempts]
    exact ⟨rfl, rfl⟩
  · rw [if_neg hattempts, if_neg hattempts]
    obtain ⟨hresult, hrows⟩ := rescueConflict_alone p _ (intOf (event.lookup "id")) .absorbed rfl rfl
      (@deadLetterTransaction_alone B V d p event error attempts now
        (.parked (letterId event) event))
    refine ⟨hresult.trans ?_, hrows.trans ?_⟩ <;> unfold DeadLetterStore.settled
    · cases DeadLetterStore.deadLetterTransaction event error attempts now p with
      | ok store => rfl
      | error e => cases e <;> rfl
    · cases DeadLetterStore.deadLetterTransaction event error attempts now p with
      | ok store => rfl
      | error e => cases e <;> rfl

theorem executeAll_deleteLetter (id : String) (sts : List (ProjectionStatement B)) :
    d.database.executeAll (.deleteLetter id :: sts) p.rows =
      d.database.executeAll sts { p with deadLetters := p.deadLetters.erase id }.rows := by
  refine executeAll_step sts ?_ fun k hk => ?_
  · show Except.ok none = Except.ok ((p.deadLetters.erase id).find id)
    rw [Table.find_erase, if_pos rfl]
  · cases k with
    | deadLetter k =>
      show (p.deadLetters.erase id).find k = _
      rw [Table.find_erase, if_neg fun h => hk (by rw [h]; rfl)]
      rfl
    | _ => rfl

theorem failAgain_alone {id : String} {letter : DeadLetter}
    (hletter : p.deadLetters.find id = some letter) (now : Datetime) (error : PyError) :
    (d.failAgain id now error).alone p.rows =
      (.ok .failedAgain, { p with
        deadLetters := p.deadLetters.put id
          { letter with
            attempts := letter.attempts + 1
            error := error
            deadLetteredAt := now } }.rows) := by
  unfold Dialect.failAgain
  rw [alone_transaction, alone_sequence]
  have hstep := @executeAll_step B V d p { p with
    deadLetters := p.deadLetters.put id
      { letter with attempts := letter.attempts + 1, error := error, deadLetteredAt := now } }
    (.updateLetter id error now) [] ?_ fun k hk => ?_
  · rw [hstep]
    rfl
  · show Except.ok (Option.map _ (p.deadLetters.find id)) =
      Except.ok ((p.deadLetters.put id _).find id)
    rw [hletter, Table.find_put, if_pos rfl]
    rfl
  · cases k with
    | deadLetter k =>
      show (p.deadLetters.put id _).find k = _
      rw [Table.find_put, if_neg fun h => hk (by rw [h]; rfl)]
      rfl
    | _ => rfl

theorem applyToBalance_rows (hd : d.Renders tier) (event : Dict) (rest : d.Program) :
    (d.applyToBalance event rest).alone p.rows = p.readModels.applyToBalance tier event >>=
      fun models => rest.alone (p.withModels models).rows :=
  applyToBalance_alone hd p p.readModels event rest

/-- **`redrive` on SQLite, alone.** -/
theorem redriveRead_alone (hd : d.Renders tier) (id : String) (now : Datetime) :
    ∃ reply, (d.redriveRead id now).alone p.rows = (.ok reply, (p.redrive tier id now).2.rows) ∧
      reply.outcome = some (p.redrive tier id now).1 := by
  unfold Dialect.redriveRead Script.alone DeadLetterStore.redrive
  change ∃ reply, (d.redriveLetter id now (p.deadLetters.find id)).alone p.rows = _ ∧ _
  cases hletter : p.deadLetters.find id with
  | none => exact ⟨.notFound, rfl, rfl⟩
  | some letter =>
    unfold Dialect.redriveLetter DeadLetterStore.redriveTransaction
    dsimp only
    rw [alone_transaction]
    cases hadapt : adaptLegacyEvent letter.payload with
    | error e => exact ⟨.failedAgain, failAgain_alone p hletter now e, rfl⟩
    | ok event =>
      dsimp only
      rw [ok_bind, applyToBalance_rows p hd]
      cases happly : p.readModels.applyToBalance tier event with
      | error e => exact ⟨.failedAgain, failAgain_alone p hletter now e, rfl⟩
      | ok models =>
        refine ⟨.redriven id event, ?_, rfl⟩
        rw [ok_bind, alone_sequence, executeAll_deleteLetter]
        rfl

/-- **`redrive` on PostgreSQL, alone.** -/
theorem redriveReturning_alone (hd : d.Renders tier) (id : String) (now : Datetime) :
    ∃ reply, (d.redriveReturning id now).alone p.rows = (.ok reply, (p.redrive tier id now).2.rows) ∧
      reply.outcome = some (p.redrive tier id now).1 := by
  unfold Dialect.redriveReturning DeadLetterStore.redrive
  have hdelete : (Program.execute (.deleteLetter id) (d.redriveReturned id) : d.Program).alone
      p.rows = (d.redriveReturned id (p.deadLetters.find id)).alone
        (Function.update p.rows (.deadLetter id) none) := by
    have hrun : d.database.run (.deleteLetter id) (p.rows (.deadLetter id)) = .ok none := rfl
    exact alone_execute hrun _
  rw [alone_transaction, hdelete]
  cases hletter : p.deadLetters.find id with
  | none =>
    have hrows : Function.update p.rows (.deadLetter id) none = p.rows := by
      rw [← hletter]
      exact Function.update_eq_self (RowKey.deadLetter id) p.rows
    rw [hrows]
    exact ⟨.notFound, rfl, rfl⟩
  | some letter =>
    have hrows : Function.update p.rows (.deadLetter id) none =
        { p with deadLetters := p.deadLetters.erase id }.rows :=
      Except.ok.inj (@executeAll_deleteLetter B V d p id [])
    rw [hrows]
    unfold Dialect.redriveReturned DeadLetterStore.redriveTransaction
    dsimp only
    cases hadapt : adaptLegacyEvent letter.payload with
    | error e => exact ⟨.failedAgain, failAgain_alone p hletter now e, rfl⟩
    | ok event =>
      dsimp only
      rw [ok_bind, applyToBalance_rows _ hd]
      cases happly : p.readModels.applyToBalance tier event with
      | error e => exact ⟨.failedAgain, failAgain_alone p hletter now e, rfl⟩
      | ok models => exact ⟨.redriven id event, rfl, rfl⟩

end Calls

end Cloudscale
