import Cloudscale.Adapters.EventStore
import Cloudscale.Adapters.ProjectionStore

/-!
# What an event does to the read models

`projectionEffect` collects the parameters of the statements that an event runs,
and `ProjectionEffect.execute` runs them; `applyToBalance_of` says that this is
`_apply_to_balance`.

An event of the log has an effect of its own, `eventEffect`: what `apply` makes
of the row that the feed delivers is to execute it (`applyAdapted_stored`).
-/

namespace Cloudscale

open Checked Tables

/-! ### Effects -/

/-- The parameters of the statements of one event. -/
structure ProjectionEffect where
  accountId : String
  delta : Int
  heldDelta : Int
  hold : Option HoldStatement
  transfer : Option TransferRowEffect
  deriving DecidableEq

/-- The parameters an event gives to the statements, or none without an account. -/
def projectionEffect (event : Dict) : Except PyError (Option ProjectionEffect) :=
  match textParam (event.lookup "account_id") with
  | none => .ok none
  | some accountId => do
    let eventType := textOf (event.lookup "type")
    let amount := intOf (event.lookup "amount")
    let hold ← holdStatement eventType event
    let transfer ← transferRowEffect event
    pure (some {
      accountId := accountId
      delta := (balanceSigns.lookup eventType).getD 0 * amount
      heldDelta := (heldSigns.lookup eventType).getD 0 * amount
      hold := hold
      transfer := transfer })

section Effects

variable {V : Type} {tier : Tier V} {event : Dict} {models : ReadModels V}

def ReadModels.executeOthers (models : ReadModels V) (effect : ProjectionEffect) : ReadModels V where
  balances := models.balances
  holds := match effect.hold with
    | some statement => statement.execute models.holds
    | none => models.holds
  transfers := match effect.transfer with
    | some transfer => transfer.markReverted (transfer.upsertTransfer models.transfers)
    | none => models.transfers
  transferLegs := match effect.transfer with
    | some transfer => transfer.insertLeg models.transferLegs
    | none => models.transferLegs

def ProjectionEffect.execute (effect : ProjectionEffect) (tier : Tier V) (models : ReadModels V) :
    Except PyError (ReadModels V) := do
  let balances ← tier.updateBalance models.balances effect.accountId effect.delta effect.heldDelta
  pure ({ models with balances := balances }.executeOthers effect)

theorem applyToBalance_of {effect : ProjectionEffect}
    (h : projectionEffect event = .ok (some effect)) :
    models.applyToBalance tier event = effect.execute tier models := by
  rw [projectionEffect] at h
  rw [ReadModels.applyToBalance]
  cases haccount : textParam (event.lookup "account_id") with
  | none =>
    rw [haccount] at h
    cases h
  | some accountId =>
    rw [haccount] at h
    obtain ⟨hold, hhold, h⟩ := bind_eq_ok.mp h
    obtain ⟨transfer, htransfer, h⟩ := bind_eq_ok.mp h
    cases h
    refine bind_congr fun balances => ?_
    rw [ReadModels.applyToHolds, hhold]
    cases hold <;> cases transfer <;> rw [ok_bind] <;>
      simp only [pure_eq_ok, ok_bind, ReadModels.applyToTransfers, htransfer,
        ReadModels.executeOthers]

theorem applyToBalance_of_none (h : projectionEffect event = .ok none) :
    models.applyToBalance tier event = .ok models := by
  rw [projectionEffect] at h
  rw [ReadModels.applyToBalance]
  cases haccount : textParam (event.lookup "account_id") with
  | none => rfl
  | some accountId =>
    rw [haccount] at h
    obtain ⟨hold, -, h⟩ := bind_eq_ok.mp h
    obtain ⟨transfer, -, h⟩ := bind_eq_ok.mp h
    cases h

theorem projectionEffect_of_ok {models' : ReadModels V}
    (h : models.applyToBalance tier event = .ok models') :
    ∃ effect, projectionEffect event = .ok effect := by
  rw [ReadModels.applyToBalance] at h
  rw [projectionEffect]
  cases haccount : textParam (event.lookup "account_id") with
  | none => exact ⟨none, rfl⟩
  | some accountId =>
    rw [haccount] at h
    obtain ⟨balances, -, h⟩ := bind_eq_ok.mp h
    obtain ⟨models₁, hholds, htransfers⟩ := bind_eq_ok.mp h
    obtain ⟨hold, hhold, -⟩ := bind_eq_ok.mp hholds
    obtain ⟨transfer, htransfer, -⟩ := bind_eq_ok.mp htransfers
    exact ⟨_, bind_eq_ok.mpr ⟨hold, hhold, bind_eq_ok.mpr ⟨transfer, htransfer, rfl⟩⟩⟩

end Effects

/-! ### Events of the log -/

namespace AccountEvent

/-- The statement of an event on `holds`. -/
def holdStatement : AccountEvent → Option HoldStatement
  | holdPlaced e => some (.place e.holdId.str e.accountId e.counterparty e.amount e.expiresAt)
  | holdPosted e => some (.settle e.holdId.str "posted")
  | holdReleased e =>
    if e.reason = .partialCapture then none else some (.settle e.holdId.str e.reason.text)
  | _ => none

/-- The effect of an event on its set. -/
def transferEffect : AccountEvent → Option TransferRowEffect
  | transferDebited e => some ⟨e.transferId.str, .transfer, e.accountId, e.amount, .debit, none⟩
  | transferCredited e => some ⟨e.transferId.str, .transfer, e.accountId, e.amount, .credit, none⟩
  | holdPosted e => some ⟨e.holdId.str, .holdPosting, e.accountId, e.amount, .debit, none⟩
  | reversalDebited e =>
    some ⟨e.transferId.str, .reversal, e.accountId, e.amount, .debit, some e.reverts.str⟩
  | reversalCredited e =>
    some ⟨e.transferId.str, .reversal, e.accountId, e.amount, .credit, some e.reverts.str⟩
  | _ => none

/-- What an event does to the read models. -/
def effect (e : AccountEvent) : ProjectionEffect where
  accountId := e.accountId
  delta := e.balanceDelta
  heldDelta := e.heldDelta
  hold := e.holdStatement
  transfer := e.transferEffect

end AccountEvent

/-! ### Rows of the feed -/

section Stored

variable (r : EventRow) (id : Int)

/-- The row of the feed has the columns of its event. -/
theorem hasColumns_stored : HasColumns (r.stored id).dict r.event := by
  refine ⟨?_, ?_, ?_, fun text htext => ?_, fun text htext => ?_, fun text htext => ?_,
    fun text htext => ?_, fun text htext => ?_⟩ <;>
    simp only [StoredEvent.lookup_dict, StoredEvent.columns, Tables.lookup_cons_ite, String.reduceEq,
      if_true, if_false, Option.join_some]
  · rfl
  · rfl
  · rfl
  · exact congrArg (Option.map Json.str) htext
  · exact congrArg (Option.map Json.str) htext
  · exact congrArg (Option.map Json.str) htext
  · exact congrArg (Option.map Json.str) htext
  · exact congrArg (Option.map Json.str) htext

/-- The row of the feed passes the gate as the event that was written. -/
theorem adaptLegacyEvent_stored :
    adaptLegacyEvent (r.stored id).dict = .ok (domainEventToLegacy r.event (r.stored id).dict) := by
  have hcolumns := hasColumns_stored r id
  rw [adaptLegacyEvent, legacyEventToDomain_of hcolumns, hcolumns.type, textOf,
    EventType.ofText_text]
  rfl

/-- What the gate lets through has the columns of the event, and no others of them. -/
theorem lookup_adapted (k : String) :
    (domainEventToLegacy r.event (r.stored id).dict).lookup k = (r.stored id).dict.lookup k := by
  have hcolumns := hasColumns_stored r id
  have hpresent : ∀ key (value : Option String) (legacy : Dict),
      (∀ text ∈ value, (r.stored id).dict.lookup key = some (.str text)) →
      (legacy.lookup k = (r.stored id).dict.lookup k) →
      (setPresent key value legacy).lookup k = (r.stored id).dict.lookup k := by
    intro key value legacy hvalue hlegacy
    rw [lookup_setPresent]
    split
    next hk =>
      subst hk
      cases value with
      | none => exact hlegacy
      | some text => exact (hvalue text rfl).symm
    next => exact hlegacy
  have hset : ∀ key (value : Json) (legacy : Dict),
      (r.stored id).dict.lookup key = some value →
      (legacy.lookup k = (r.stored id).dict.lookup k) →
      (setItem key value legacy).lookup k = (r.stored id).dict.lookup k := by
    intro key value legacy hvalue hlegacy
    rw [lookup_setItem]
    split
    next hk => rw [hk, hvalue]
    next => exact hlegacy
  rw [domainEventToLegacy]
  refine hpresent _ _ _ hcolumns.reverts <| hpresent _ _ _ hcolumns.releaseReason <|
    hpresent _ _ _ hcolumns.expiresAt <| hpresent _ _ _ hcolumns.counterparty <|
    hpresent _ _ _ hcolumns.transferId <| hset _ _ _ hcolumns.amount <|
    hset _ _ _ hcolumns.accountId <| hset _ _ _ hcolumns.type rfl

theorem lookup_balanceSigns (t : EventType) : balanceSigns.lookup t.text = some t.balanceSign := by
  cases t <;> rfl

theorem lookup_heldSigns (t : EventType) : heldSigns.lookup t.text = some t.heldSign := by
  cases t <;> rfl

theorem lookup_fields :
    (r.stored id).dict.lookup "transfer_id" = (eventRowFields r.event).transferId.map Json.str ∧
      (r.stored id).dict.lookup "counterparty" = (eventRowFields r.event).counterparty.map Json.str ∧
      (r.stored id).dict.lookup "expires_at" = (eventRowFields r.event).expiresAt.map Json.str ∧
      (r.stored id).dict.lookup "release_reason" =
        (eventRowFields r.event).releaseReason.map Json.str ∧
      (r.stored id).dict.lookup "reverts" = (eventRowFields r.event).reverts.map Json.str := by
  simp only [StoredEvent.lookup_dict, StoredEvent.columns, Tables.lookup_cons_ite, String.reduceEq,
    if_true, if_false, Option.join_some]
  exact ⟨rfl, rfl, rfl, rfl, rfl⟩

theorem textParam_map (value : Option String) : textParam (value.map Json.str) = value := by
  cases value <;> rfl

theorem textOf_map (value : Option String) : textOf (value.map Json.str) = value.getD "" := by
  cases value <;> rfl

theorem holdStatement_stored :
    holdStatement r.event.type.text (domainEventToLegacy r.event (r.stored id).dict) =
      .ok r.event.holdStatement := by
  have hcolumns := hasColumns_stored r id
  obtain ⟨htransfer, hcounterparty, hexpires, hreason, -⟩ := lookup_fields r id
  simp only [holdStatement, lookup_adapted, getItem, hcolumns.accountId, hcolumns.amount, htransfer,
    hcounterparty, hexpires, hreason, textParam_map, textOf_map]
  cases r.event with
  | holdReleased e =>
    obtain ⟨accountId, amount, holdId, reason, account_ok, amount_ok⟩ := e
    cases reason <;> rfl
  | _ => rfl

theorem transferRowEffect_stored :
    transferRowEffect (domainEventToLegacy r.event (r.stored id).dict) =
      .ok r.event.transferEffect := by
  have hcolumns := hasColumns_stored r id
  obtain ⟨htransfer, -, -, -, hreverts⟩ := lookup_fields r id
  have hfilter : ∀ u : Python.UUID, (some u.str).filter (fun text => text ≠ "") = some u.str :=
    fun u => Option.filter_some_pos (by simpa using u.str_ne_empty)
  simp only [transferRowEffect, lookup_adapted, getItem, hcolumns.type, hcolumns.accountId,
    hcolumns.amount, htransfer, hreverts, textOf, intOf, lookup_balanceSigns, textParam_map]
  cases r.event with
  | reversalDebited e | reversalCredited e =>
    simp only [eventRowFields, hfilter]
    rfl
  | _ => rfl

/-- **A row of the log has the effect of its event.** -/
theorem projectionEffect_stored :
    projectionEffect (domainEventToLegacy r.event (r.stored id).dict) =
      .ok (some r.event.effect) := by
  have hcolumns := hasColumns_stored r id
  rw [projectionEffect]
  simp only [lookup_adapted, hcolumns.type, hcolumns.accountId, hcolumns.amount, textParam, textOf,
    intOf, lookup_balanceSigns, lookup_heldSigns, holdStatement_stored, transferRowEffect_stored]
  rfl

end Stored

end Cloudscale
