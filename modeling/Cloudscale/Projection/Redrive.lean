import Cloudscale.Processes.ResilientConsumer
import Cloudscale.Projection.Delivery

/-!
# Redriving and applying

A redrive projects a parked event as it was stored, where the consumer upcasts it
first.  `redrive_applies_iff` says when the two agree, for every registry: when
what the event does is the same with the upcast and without it
(`SameProjection`).  One direction runs both paths as one function of their
effects (`ProjectionEffect.outcome`); the other needs read models that tell two
effects apart (`outcome_injective`).

In this build no type has a step, so they agree on the rows of its own version
and on those that the gate refuses (`sameProjection_registered`).
-/

namespace Cloudscale

open Checked Python Tables SqliteInteger

/-- What a redrive projects: the event as it was parked. -/
def redriveEffect (event : Dict) : Except PyError (Option ProjectionEffect) := do
  let event ← adaptLegacyEvent event
  projectionEffect event

/-- What the consumer projects: the event upcast, if it still has its id. -/
def consumerEffect (versions : List (String × Int)) (registry : UpcasterRegistry) (event : Dict) :
    Except PyError (Option ProjectionEffect) := do
  let event ← upcast versions registry event
  let event ← adaptLegacyEvent event
  let _ ← require (textOf (event.lookup "event_id") ≠ "")
    (PyError.valueError "event requires an event_id for idempotent apply")
  projectionEffect event

/-- Redriving the event does what the consumer does with it, whatever the read models:
they agree on success and on the read models, and an event that the consumer refuses
stays parked. -/
def RedrivesAsApplied {V : Type} (tier : Tier V) (versions : List (String × Int))
    (registry : UpcasterRegistry) (e : StoredEvent) : Prop :=
  ∀ (p : DeadLetterStore V) (letter : DeadLetter) (now : Datetime),
    p.deadLetters.find e.eventId = some letter → letter.payload = e.dict →
    ((p.redrive tier e.eventId now).1 = .applied ↔
      (applyUpcast tier versions registry e.dict ⟨p.readModels, .empty, p.lastId⟩).1 = .ok true) ∧
    (p.redrive tier e.eventId now).2.readModels =
      (applyUpcast tier versions registry e.dict ⟨p.readModels, .empty, p.lastId⟩).2.readModels ∧
    ((p.redrive tier e.eventId now).1 ≠ .applied →
      ((p.redrive tier e.eventId now).2.deadLetters.find e.eventId).isSome)

/-- The upcast does not change what the event does: with it and without it, the event is
refused, or it has the same parameters for every statement. -/
def SameProjection (versions : List (String × Int)) (registry : UpcasterRegistry)
    (event : Dict) : Prop :=
  (redriveEffect event).toOption = (consumerEffect versions registry event).toOption

/-! ### Both paths run their effects -/

section Paths

variable {V : Type} {tier : Tier V}

/-- The read models after an effect, if it succeeds. -/
def outcome (tier : Tier V) (models : ReadModels V) :
    Option (Option ProjectionEffect) → Option (ReadModels V)
  | none => none
  | some none => some models
  | some (some effect) => (effect.execute tier models).toOption

theorem applyToBalance_toOption (models : ReadModels V) (event : Dict) :
    (models.applyToBalance tier event).toOption =
      outcome tier models (projectionEffect event).toOption := by
  cases heffect : projectionEffect event with
  | ok effect =>
    cases effect with
    | none =>
      rw [applyToBalance_of_none heffect]
      rfl
    | some effect =>
      rw [applyToBalance_of heffect]
      rfl
  | error e =>
    cases hmodels : models.applyToBalance tier event with
    | error e' => rfl
    | ok models' =>
      obtain ⟨effect, hok⟩ := projectionEffect_of_ok hmodels
      rw [heffect] at hok
      cases hok

theorem redriveEffect_toOption (models : ReadModels V) (event : Dict) :
    (adaptLegacyEvent event >>= models.applyToBalance tier).toOption =
      outcome tier models (redriveEffect event).toOption := by
  rw [redriveEffect]
  cases adaptLegacyEvent event with
  | error e => rfl
  | ok event => exact applyToBalance_toOption models event

/-- **A redrive runs its effect.** -/
theorem redrive_eq (p : DeadLetterStore V) {eventId : String} {letter : DeadLetter} (now : Datetime)
    (hletter : p.deadLetters.find eventId = some letter) :
    ((p.redrive tier eventId now).1 = .applied ↔
      (outcome tier p.readModels (redriveEffect letter.payload).toOption).isSome) ∧
    (p.redrive tier eventId now).2.readModels =
      (outcome tier p.readModels (redriveEffect letter.payload).toOption).getD p.readModels ∧
    ((p.redrive tier eventId now).1 ≠ .applied →
      ((p.redrive tier eventId now).2.deadLetters.find eventId).isSome) := by
  rw [← redriveEffect_toOption]
  cases hmodels : adaptLegacyEvent letter.payload >>= p.readModels.applyToBalance tier with
  | ok models =>
    have hredrive : p.redrive tier eventId now = (.applied,
        { p with readModels := models, deadLetters := p.deadLetters.erase eventId }) := by
      obtain ⟨event, hevent, hmodels⟩ := bind_eq_ok.mp hmodels
      rw [DeadLetterStore.redrive, hletter]
      simp only [DeadLetterStore.redriveTransaction, hevent, ok_bind, hmodels, pure_eq_ok]
    rw [hredrive]
    exact ⟨⟨fun _ => rfl, fun _ => rfl⟩, rfl, fun h => absurd rfl h⟩
  | error e =>
    have hredrive : p.redrive tier eventId now = (.failedAgain, { p with
        deadLetters := p.deadLetters.put eventId
          { letter with attempts := letter.attempts + 1, error := e, deadLetteredAt := now } }) := by
      have htransaction : DeadLetterStore.redriveTransaction tier eventId letter p = .error e := by
        rw [DeadLetterStore.redriveTransaction, ← bind_assoc, hmodels]
        rfl
      rw [DeadLetterStore.redrive, hletter]
      simp only [htransaction]
    rw [hredrive]
    refine ⟨⟨(fun h => nomatch h), (fun h => nomatch h)⟩, rfl, fun _ => ?_⟩
    simp only [Table.find_put, if_true, Option.isSome_some]

/-- **An attempt of the consumer runs its effect.** -/
theorem applyUpcast_eq (versions : List (String × Int)) (registry : UpcasterRegistry) (event : Dict)
    (models : ReadModels V) (lastId : Int) :
    ((applyUpcast tier versions registry event ⟨models, .empty, lastId⟩).1 = .ok true ↔
      (outcome tier models (consumerEffect versions registry event).toOption).isSome) ∧
    (applyUpcast tier versions registry event ⟨models, .empty, lastId⟩).2.readModels =
      (outcome tier models (consumerEffect versions registry event).toOption).getD models := by
  rw [applyUpcast, consumerEffect]
  cases upcast versions registry event with
  | error e => exact ⟨⟨(fun h => by cases h), (fun h => by cases h)⟩, rfl⟩
  | ok event =>
    rw [ok_bind]
    dsimp only
    rw [ProjectionStore.apply]
    cases adaptLegacyEvent event with
    | error e => exact ⟨⟨(fun h => by cases h), (fun h => by cases h)⟩, rfl⟩
    | ok event =>
      rw [ok_bind]
      dsimp only
      rw [ProjectionStore.applyAdapted]
      by_cases hid : textOf (event.lookup "event_id") = ""
      · rw [if_pos hid, require_of_not (by simpa using hid)]
        exact ⟨⟨(fun h => by cases h), (fun h => by cases h)⟩, rfl⟩
      · rw [if_neg hid, require_of (by simpa using hid), ok_bind, ← applyToBalance_toOption]
        have hclaim : ProjectionStore.applyTransaction tier event ⟨models, .empty, lastId⟩ =
            (models.applyToBalance tier event >>= fun models => .ok ⟨models,
              Table.empty.put (textOf (event.lookup "event_id")) (),
              max lastId (intOf (event.lookup "id"))⟩) := rfl
        rw [hclaim]
        cases hmodels : models.applyToBalance tier event with
        | ok models' => exact ⟨⟨fun _ => rfl, fun _ => rfl⟩, rfl⟩
        | error e =>
          rw [error_bind]
          cases e <;> exact ⟨⟨(fun h => by cases h), (fun h => by cases h)⟩, rfl⟩

end Paths

/-! ### Telling effects apart -/

/-- Read models with no row but those of `holds`. -/
def probe {V : Type} (holds : Table String HoldRow) : ReadModels V := ⟨.empty, holds, .empty, .empty⟩

/-- A tier that keeps the numbers of a new row as they are. -/
structure Tier.Fresh {V : Type} (tier : Tier V) (ofInt : Int → V) : Prop where
  injective : Function.Injective ofInt
  insert : ∀ {a : String} {delta heldDelta : Int}, InRange delta → InRange heldDelta →
    ∃ balances, tier.updateBalance .empty a delta heldDelta = .ok balances ∧
      ∀ l, balances.find l = if l = a then some ⟨ofInt delta, ofInt heldDelta, ofInt 1⟩ else none

theorem postgres_fresh : postgresTier.Fresh id := by
  refine ⟨Function.injective_id, fun {a delta heldDelta} hdelta hheld => ?_⟩
  have hupdate := @postgres_updateBalance_of .empty a delta heldDelta ⟨0, 0, 0⟩ rfl
    (by rwa [zero_add]) (by rwa [zero_add]) (by decide)
  refine ⟨_, hupdate, fun l => ?_⟩
  rw [Table.find_put, zero_add, zero_add]
  rfl

theorem sqlite_fresh : sqliteTier.Fresh SqliteNumber.integer := by
  refine ⟨fun n m h => SqliteNumber.integer.inj h, fun {a delta heldDelta} hdelta hheld => ?_⟩
  obtain ⟨balances, hupdate, hfind⟩ := @sqlite_updateBalance .empty a delta heldDelta ⟨0, 0, 0⟩ rfl
    (by rwa [zero_add]) (by rwa [zero_add]) (by decide)
  refine ⟨balances, hupdate, fun l => ?_⟩
  rw [hfind, zero_add, zero_add]
  rfl

/-- The table of holds after an optional statement. -/
def holdsAfter (holds : Table String HoldRow) : Option HoldStatement → Table String HoldRow
  | some statement => statement.execute holds
  | none => holds

/-- **Two statements that do the same to every table are the same.** -/
theorem holdStatement_ext {h h' : Option HoldStatement}
    (hsame : ∀ holds l, (holdsAfter holds h).find l = (holdsAfter holds h').find l) : h = h' := by
  have hmoved : ∀ state : String, state ++ "x" ≠ state := by
    intro state heq
    have hlength := congrArg String.length heq
    rw [String.length_append] at hlength
    exact absurd hlength (by simp)
  have hplaced : ∀ {holdId source target expiresAt : String} {amount : Int} {l : String},
      ((HoldStatement.place holdId source target amount expiresAt).execute .empty).find l =
        if l = holdId then some ⟨source, target, amount, expiresAt, "open"⟩ else none := by
    intro holdId source target expiresAt amount l
    rw [HoldStatement.execute, Table.find_putNew]
    rfl
  have hsettled : ∀ {holdId state l : String} {row : HoldRow} {k : String},
      ((HoldStatement.settle holdId state).execute (Table.empty.put k row)).find l =
        if l = holdId then (if holdId = k then some { row with state := state } else none)
        else if l = k then some row else none := by
    intro holdId state l row k
    rw [HoldStatement.execute, Table.find_modify, Table.find_put, Table.find_put]
    split
    next => split <;> rfl
    next => rfl
  have hempty : ∀ {holdId state l : String},
      ((HoldStatement.settle holdId state).execute .empty).find l = none := by
    intro holdId state l
    rw [HoldStatement.execute, Table.find_modify]
    split <;> rfl
  have hnone : ∀ {h : Option HoldStatement},
      (∀ holds l, (holdsAfter holds h).find l = holds.find l) → h = none := by
    intro h hsame
    cases h with
    | none => rfl
    | some statement =>
      cases statement with
      | place holdId source target amount expiresAt =>
        have hfind := hsame .empty holdId
        rw [holdsAfter, hplaced, if_pos rfl] at hfind
        cases hfind
      | settle holdId state =>
        have hfind := hsame (Table.empty.put holdId ⟨"", "", 0, "", state ++ "x"⟩) holdId
        rw [holdsAfter, hsettled, if_pos rfl, if_pos rfl, Table.find_put, if_pos rfl] at hfind
        injection hfind with hrow
        exact absurd (HoldRow.mk.inj hrow).2.2.2.2.symm (hmoved state)
  cases h with
  | none => exact (hnone fun holds l => (hsame holds l).symm).symm
  | some statement =>
    cases h' with
    | none => exact hnone hsame
    | some statement' =>
      cases statement with
      | place holdId source target amount expiresAt =>
        have hfind := hsame .empty holdId
        rw [holdsAfter, hplaced, if_pos rfl] at hfind
        cases statement' with
        | settle holdId' state' =>
          rw [holdsAfter, hempty] at hfind
          cases hfind
        | place holdId' source' target' amount' expiresAt' =>
          rw [holdsAfter, hplaced] at hfind
          split at hfind
          next heq =>
            injection hfind with hrow
            injection hrow with h₁ h₂ h₃ h₄
            rw [heq, h₁, h₂, h₃, h₄]
          next => cases hfind
      | settle holdId state =>
        have hfind := hsame (Table.empty.put holdId ⟨"", "", 0, "", state ++ "x"⟩) holdId
        rw [holdsAfter, hsettled, if_pos rfl, if_pos rfl] at hfind
        cases statement' with
        | settle holdId' state' =>
          rw [holdsAfter, hsettled] at hfind
          split at hfind
          next heq =>
            rw [if_pos heq.symm] at hfind
            injection hfind with hrow
            rw [heq, (HoldRow.mk.inj hrow).2.2.2.2]
          next =>
            rw [if_pos rfl] at hfind
            injection hfind with hrow
            exact absurd (HoldRow.mk.inj hrow).2.2.2.2.symm (hmoved state)
        | place holdId' source' target' amount' expiresAt' =>
          have hplace := hsame .empty holdId'
          rw [holdsAfter, holdsAfter, hempty, hplaced, if_pos rfl] at hplace
          cases hplace

/-- The tables of sets and legs after an optional effect on them, from none. -/
def transfersAfter (transfer : Option TransferRowEffect) : Table String TransferRow :=
  match transfer with
  | some effect => effect.markReverted (effect.upsertTransfer .empty)
  | none => .empty

def legsAfter (transfer : Option TransferRowEffect) : Table (String × String) TransferLegRow :=
  match transfer with
  | some effect => effect.insertLeg .empty
  | none => .empty

/-- **Two effects on sets that write the same rows are the same.** -/
theorem transferRowEffect_ext {t t' : Option TransferRowEffect}
    (htransfers : ∀ k, (transfersAfter t).find k = (transfersAfter t').find k)
    (hlegs : ∀ k, (legsAfter t).find k = (legsAfter t').find k) : t = t' := by
  have hleg : ∀ (effect : TransferRowEffect) (k : String × String),
      (legsAfter (some effect)).find k =
        if k = (effect.transferId, effect.accountId) then some ⟨effect.amount, effect.direction⟩
        else none := by
    intro effect k
    rw [legsAfter, TransferRowEffect.insertLeg, Table.find_putNew]
    rfl
  have hrow : ∀ effect : TransferRowEffect, ∃ revertedBy,
      (transfersAfter (some effect)).find effect.transferId =
        some ⟨effect.kind, effect.reverts, revertedBy⟩ := by
    intro effect
    have hupsert : (effect.upsertTransfer .empty).find effect.transferId =
        some ⟨effect.kind, effect.reverts, none⟩ := by
      show (Table.empty.put effect.transferId _).find effect.transferId = _
      rw [Table.find_put, if_pos rfl]
    rw [transfersAfter, TransferRowEffect.markReverted]
    cases effect.marksReverted with
    | none => exact ⟨none, hupsert⟩
    | some reverts =>
      dsimp only
      rw [Table.find_modify]
      split
      next heq =>
        rw [← heq, hupsert]
        exact ⟨_, rfl⟩
      next => exact ⟨none, hupsert⟩
  cases t with
  | none =>
    cases t' with
    | none => rfl
    | some effect =>
      have hfind := hlegs (effect.transferId, effect.accountId)
      rw [hleg, if_pos rfl] at hfind
      cases hfind
  | some effect =>
    have hfind := hlegs (effect.transferId, effect.accountId)
    rw [hleg, if_pos rfl] at hfind
    cases t' with
    | none => cases hfind
    | some effect' =>
      rw [hleg] at hfind
      split at hfind
      next heq =>
        obtain ⟨hid, haccount⟩ := Prod.mk.inj heq
        injection hfind with hvalues
        obtain ⟨hamount, hdirection⟩ := TransferLegRow.mk.inj hvalues
        have hrows := htransfers effect.transferId
        obtain ⟨_, heffect⟩ := hrow effect
        obtain ⟨_, heffect'⟩ := hrow effect'
        rw [heffect, hid, heffect'] at hrows
        injection hrows with hrows
        obtain ⟨hkind, hreverts, -⟩ := TransferRow.mk.inj hrows
        obtain ⟨transferId, kind, accountId, amount, direction, reverts⟩ := effect
        obtain ⟨transferId', kind', accountId', amount', direction', reverts'⟩ := effect'
        simp only at hid haccount hamount hdirection hkind hreverts
        subst hid haccount hamount hdirection hkind hreverts
        rfl
      next => cases hfind

/-- The amounts of an effect are integers of 64 bits. -/
def ProjectionEffect.Bounded (effect : ProjectionEffect) : Prop :=
  InRange effect.delta ∧ InRange effect.heldDelta

section Probes

variable {V : Type} {tier : Tier V} {ofInt : Int → V}

theorem execute_probe (hfresh : tier.Fresh ofInt) {effect : ProjectionEffect}
    (hbounded : effect.Bounded) (holds : Table String HoldRow) :
    ∃ models, effect.execute tier (probe holds) = .ok models ∧
      (∀ l, models.balances.find l = if l = effect.accountId then
        some ⟨ofInt effect.delta, ofInt effect.heldDelta, ofInt 1⟩ else none) ∧
      models.holds = holdsAfter holds effect.hold ∧
      models.transfers = transfersAfter effect.transfer ∧
      models.transferLegs = legsAfter effect.transfer := by
  obtain ⟨balances, hupdate, hfind⟩ :=
    hfresh.insert (a := effect.accountId) hbounded.1 hbounded.2
  refine ⟨_, bind_of hupdate _, hfind, ?_, ?_, ?_⟩
  · show (ReadModels.executeOthers _ effect).holds = _
    rw [ReadModels.executeOthers]
    cases effect.hold <;> rfl
  · show (ReadModels.executeOthers _ effect).transfers = _
    rw [ReadModels.executeOthers]
    cases effect.transfer <;> rfl
  · show (ReadModels.executeOthers _ effect).transferLegs = _
    rw [ReadModels.executeOthers]
    cases effect.transfer <;> rfl

/-- **Different effects differ on some read models.** -/
theorem outcome_injective (hfresh : tier.Fresh ofInt) {x y : Option (Option ProjectionEffect)}
    (hx : ∀ effect, x = some (some effect) → effect.Bounded)
    (hy : ∀ effect, y = some (some effect) → effect.Bounded)
    (h : ∀ models, outcome tier models x = outcome tier models y) : x = y := by
  have hprobe : ∀ {z : Option (Option ProjectionEffect)},
      (∀ effect, z = some (some effect) → effect.Bounded) → ∀ holds,
      outcome tier (probe holds) z = none → z = none := by
    intro z hz holds hnone
    match z with
    | none => rfl
    | some none => cases hnone
    | some (some effect) =>
      obtain ⟨models, hmodels, -⟩ := execute_probe hfresh (hz effect rfl) holds
      rw [outcome, hmodels] at hnone
      cases hnone
  have hidle : ∀ {effect : ProjectionEffect}, effect.Bounded →
      outcome tier (probe .empty) (some (some effect)) ≠ some (probe .empty) := by
    intro effect hbounded heq
    obtain ⟨models, hmodels, hbalances, -⟩ := execute_probe hfresh hbounded .empty
    rw [outcome, hmodels] at heq
    cases heq
    have hfind := hbalances effect.accountId
    rw [if_pos rfl] at hfind
    cases hfind
  match x, y with
  | none, y => exact (hprobe hy .empty (h (probe .empty)).symm).symm
  | x, none => exact hprobe hx .empty (h (probe .empty))
  | some none, some none => rfl
  | some none, some (some effect) => exact absurd (h _).symm (hidle (hy effect rfl))
  | some (some effect), some none => exact absurd (h _) (hidle (hx effect rfl))
  | some (some effect), some (some effect') =>
    obtain ⟨models, hmodels, hbalances, -, htransfers, hlegs⟩ :=
      execute_probe hfresh (hx effect rfl) .empty
    obtain ⟨models', hmodels', hbalances', -, htransfers', hlegs'⟩ :=
      execute_probe hfresh (hy effect' rfl) .empty
    have hsame := h (probe .empty)
    rw [outcome, outcome, hmodels, hmodels'] at hsame
    cases hsame
    have haccount := hbalances' effect.accountId
    rw [hbalances, if_pos rfl] at haccount
    split at haccount
    next heq =>
      injection haccount with hrow
      obtain ⟨hdelta, hheld, -⟩ := BalanceRow.mk.inj hrow
      have htransfer : effect.transfer = effect'.transfer :=
        transferRowEffect_ext (fun k => by rw [← htransfers, htransfers'])
          (fun k => by rw [← hlegs, hlegs'])
      have hhold : effect.hold = effect'.hold := by
        refine holdStatement_ext fun holds l => ?_
        obtain ⟨m, hm, -, hholds, -⟩ := execute_probe hfresh (hx effect rfl) holds
        obtain ⟨m', hm', -, hholds', -⟩ := execute_probe hfresh (hy effect' rfl) holds
        have hsame := h (probe holds)
        rw [outcome, outcome, hm, hm'] at hsame
        cases hsame
        rw [← hholds, hholds']
      obtain ⟨accountId, delta, heldDelta, hold, transfer⟩ := effect
      obtain ⟨accountId', delta', heldDelta', hold', transfer'⟩ := effect'
      simp only at heq htransfer hhold
      have hdelta' : delta = delta' := hfresh.injective hdelta
      have hheld' : heldDelta = heldDelta' := hfresh.injective hheld
      rw [heq, hdelta', hheld', hhold, htransfer]
    next => cases haccount

end Probes

/-! ### When the two paths agree -/

/-- A table by event type has nothing on an unknown one. -/
theorem lookup_none_of_unknown {text : String} (h : EventType.ofText text = none)
    (value : EventType → Int) : (EventType.all.map (fun t => (t.text, value t))).lookup text = none := by
  refine List.lookup_eq_none_iff.mpr fun p hp => ?_
  obtain ⟨t, -, rfl⟩ := List.mem_map.mp hp
  refine bne_iff_ne.mpr ?_
  rintro rfl
  rw [EventType.ofText_text] at h
  cases h

theorem bounded_of_adapted {event adapted : Dict} {effect : ProjectionEffect}
    (hadapted : adaptLegacyEvent event = .ok adapted)
    (heffect : projectionEffect adapted = .ok (some effect)) : effect.Bounded := by
  rw [projectionEffect] at heffect
  cases haccount : textParam (adapted.lookup "account_id") with
  | none =>
    rw [haccount] at heffect
    cases heffect
  | some accountId =>
    rw [haccount] at heffect
    obtain ⟨hold, -, heffect⟩ := bind_eq_ok.mp heffect
    obtain ⟨transfer, -, heffect⟩ := bind_eq_ok.mp heffect
    cases heffect
    rw [adaptLegacyEvent] at hadapted
    split at hadapted
    next htype =>
      cases hadapted
      have hbalance := lookup_none_of_unknown htype EventType.balanceSign
      have hheld := lookup_none_of_unknown htype EventType.heldSign
      rw [ProjectionEffect.Bounded]
      simp only [balanceSigns, heldSigns, hbalance, hheld, Option.getD_none, zero_mul]
      decide
    next =>
      obtain ⟨domainEvent, -, hadapted⟩ := bind_eq_ok.mp hadapted
      cases hadapted
      have htype : (domainEventToLegacy domainEvent event).lookup "type" =
          some (.str domainEvent.type.text) := by
        simp [domainEventToLegacy, lookup_setPresent, lookup_setItem]
      have hamount : (domainEventToLegacy domainEvent event).lookup "amount" =
          some (.int domainEvent.amount) := by
        simp [domainEventToLegacy, lookup_setPresent, lookup_setItem]
      have hvalid := domainEvent.amount_ok
      obtain ⟨hpos, hmax⟩ := hvalid
      rw [maxSignedBigint_eq] at hmax
      rw [ProjectionEffect.Bounded]
      simp only [htype, hamount, textOf, intOf, lookup_balanceSigns, lookup_heldSigns,
        Option.getD_some]
      constructor
      · cases domainEvent.type <;> simp only [EventType.balanceSign, InRange] <;> omega
      · cases domainEvent.type <;> simp only [EventType.heldSign, InRange] <;> omega

theorem redriveEffect_bounded {event : Dict} {effect : ProjectionEffect}
    (h : (redriveEffect event).toOption = some (some effect)) : effect.Bounded := by
  rw [redriveEffect] at h
  cases hadapted : adaptLegacyEvent event with
  | error e =>
    rw [hadapted] at h
    cases h
  | ok adapted =>
    rw [hadapted, ok_bind] at h
    cases heffect : projectionEffect adapted with
    | error e =>
      rw [heffect] at h
      cases h
    | ok x =>
      rw [heffect] at h
      cases h
      exact bounded_of_adapted hadapted heffect

theorem consumerEffect_bounded {versions : List (String × Int)} {registry : UpcasterRegistry}
    {event : Dict} {effect : ProjectionEffect}
    (h : (consumerEffect versions registry event).toOption = some (some effect)) :
    effect.Bounded := by
  cases hconsumer : consumerEffect versions registry event with
  | error e =>
    rw [hconsumer] at h
    cases h
  | ok x =>
    rw [hconsumer] at h
    cases h
    obtain ⟨upcasted, -, hconsumer⟩ := bind_eq_ok.mp hconsumer
    obtain ⟨adapted, hadapted, hconsumer⟩ := bind_eq_ok.mp hconsumer
    obtain ⟨-, heffect⟩ := require_bind_eq_ok.mp hconsumer
    exact bounded_of_adapted hadapted heffect

/-- The paths agree on a tier exactly when the effects do. -/
theorem redrivesAsApplied_iff {V : Type} {tier : Tier V} {ofInt : Int → V}
    (hfresh : tier.Fresh ofInt) (versions : List (String × Int)) (registry : UpcasterRegistry)
    (e : StoredEvent) :
    RedrivesAsApplied tier versions registry e ↔ SameProjection versions registry e.dict := by
  constructor
  · intro h
    refine outcome_injective hfresh (fun effect => redriveEffect_bounded)
      (fun effect => consumerEffect_bounded) fun models => ?_
    set letter : DeadLetter := ⟨e.id, e.dict, .integrityError, 1, .epoch⟩ with hletter
    set p : DeadLetterStore V := ⟨⟨models, .empty, 0⟩, Table.empty.put e.eventId letter⟩ with hp
    have hfind : p.deadLetters.find e.eventId = some letter := by
      rw [hp]
      simp only [Table.find_put, if_true]
    obtain ⟨houtcome, hmodels, -⟩ := h p letter .epoch hfind rfl
    obtain ⟨hredrive, hredriven, -⟩ := @redrive_eq V tier p e.eventId letter .epoch hfind
    obtain ⟨happly, happlied⟩ := @applyUpcast_eq V tier versions registry e.dict models 0
    rw [hredrive] at houtcome
    rw [hredriven] at hmodels
    have hsome := houtcome.trans happly
    have hvalue := hmodels.trans happlied
    generalize outcome tier models (redriveEffect e.dict).toOption = x at *
    generalize outcome tier models (consumerEffect versions registry e.dict).toOption = y at *
    cases x <;> cases y <;> simp_all
  · intro h p letter now hfind hpayload
    obtain ⟨hredrive, hredriven, hparked⟩ := @redrive_eq V tier p e.eventId letter now hfind
    obtain ⟨happly, happlied⟩ :=
      @applyUpcast_eq V tier versions registry e.dict p.readModels p.lastId
    rw [SameProjection] at h
    rw [hpayload, h] at hredrive hredriven
    exact ⟨hredrive.trans happly.symm, hredriven.trans happlied.symm, hparked⟩

/-- **A redrive does what the consumer would do with the event exactly when the upcast
does not change what the event does**, on both tiers and for every registry. -/
theorem redrive_applies_iff (versions : List (String × Int)) (registry : UpcasterRegistry)
    (e : StoredEvent) :
    (RedrivesAsApplied sqliteTier versions registry e ↔ SameProjection versions registry e.dict) ∧
      (RedrivesAsApplied postgresTier versions registry e ↔
        SameProjection versions registry e.dict) :=
  ⟨redrivesAsApplied_iff sqlite_fresh versions registry e,
    redrivesAsApplied_iff postgres_fresh versions registry e⟩

/-- A deposit of 100 that a newer build has written. -/
def newerDeposit : StoredEvent where
  id := 1
  eventId := "5b1c6f2e-8d3a-4e7b-9c1d-2f3a4b5c6d7e"
  stream := "account-alice"
  seq := 1
  type := "Deposited"
  schemaVersion := 2
  accountId := some "alice"
  amount := some 100
  fields := ⟨none, none, none, none, none⟩

/-- The consumer refuses the newer event, and a redrive applies it. -/
theorem redrive_applies_newer :
    (consumerEffect currentSchemaVersions registeredSteps newerDeposit.dict).toOption = none ∧
      (redriveEffect newerDeposit.dict).toOption =
        some (some ⟨"alice", 100, 0, none, none⟩) ∧
      ¬ RedrivesAsApplied sqliteTier currentSchemaVersions registeredSteps newerDeposit ∧
      ¬ RedrivesAsApplied postgresTier currentSchemaVersions registeredSteps newerDeposit := by
  have hconsumer :
      (consumerEffect currentSchemaVersions registeredSteps newerDeposit.dict).toOption = none := by
    decide +kernel
  have hredrive : (redriveEffect newerDeposit.dict).toOption =
      some (some ⟨"alice", 100, 0, none, none⟩) := by
    decide +kernel
  have hdiffer : ¬ SameProjection currentSchemaVersions registeredSteps newerDeposit.dict := by
    rw [SameProjection, hconsumer, hredrive]
    exact fun h => nomatch h
  exact ⟨hconsumer, hredrive, fun h => hdiffer ((redrivesAsApplied_iff sqlite_fresh _ _ _).mp h),
    fun h => hdiffer ((redrivesAsApplied_iff postgres_fresh _ _ _).mp h)⟩

/-! ### This build -/

theorem projectionEffect_of_hasColumns {row : Dict} {e : AccountEvent} (h : HasColumns row e) :
    ∃ effect, projectionEffect row = .ok effect := by
  have hhold : ∃ hold, holdStatement e.type.text row = .ok hold := by
    rw [holdStatement]
    cases textParam (row.lookup "transfer_id") with
    | none => exact ⟨_, rfl⟩
    | some holdId =>
      cases e with
      | holdPlaced e =>
        simp only [getItem, h.accountId, h.amount, h.counterparty _ rfl, h.expiresAt _ rfl]
        exact ⟨_, rfl⟩
      | holdReleased e =>
        simp only [AccountEvent.type, EventType.text, String.reduceEq, if_false]
        split
        · exact ⟨_, rfl⟩
        · exact ⟨_, rfl⟩
      | _ => exact ⟨_, rfl⟩
  have htransfer : ∃ transfer, transferRowEffect row = .ok transfer := by
    simp only [transferRowEffect, h.type, h.accountId, h.amount, textOf, getItem,
      lookup_balanceSigns]
    split
    · exact ⟨_, rfl⟩
    · exact ⟨_, rfl⟩
  obtain ⟨hold, hhold⟩ := hhold
  obtain ⟨transfer, htransfer⟩ := htransfer
  simp only [projectionEffect, h.accountId, h.type, textParam, textOf, hhold, htransfer]
  exact ⟨_, rfl⟩

/-- An event of an unknown type is projected as a version. -/
theorem projectionEffect_of_unknown {row : Dict}
    (h : EventType.ofText (textOf (row.lookup "type")) = none) :
    ∃ effect, projectionEffect row = .ok effect := by
  have hne : ∀ t : EventType, textOf (row.lookup "type") ≠ t.text := by
    intro t heq
    rw [heq, EventType.ofText_text] at h
    cases h
  have hhold : holdStatement (textOf (row.lookup "type")) row = .ok none := by
    rw [holdStatement]
    cases textParam (row.lookup "transfer_id") with
    | none => rfl
    | some holdId =>
      have hplaced : textOf (row.lookup "type") ≠ "HoldPlaced" := hne .holdPlaced
      have hposted : textOf (row.lookup "type") ≠ "HoldPosted" := hne .holdPosted
      have hreleased : textOf (row.lookup "type") ≠ "HoldReleased" := hne .holdReleased
      simp only [hplaced, hposted, hreleased, if_false, false_and]
  have hkind : transferKinds.lookup (textOf (row.lookup "type")) = none := by
    refine List.lookup_eq_none_iff.mpr fun p hp => bne_iff_ne.mpr ?_
    simp only [transferKinds, List.mem_cons, List.not_mem_nil, or_false] at hp
    rcases hp with rfl | rfl | rfl | rfl | rfl
    · exact hne .transferDebited
    · exact hne .transferCredited
    · exact hne .holdPosted
    · exact hne .reversalDebited
    · exact hne .reversalCredited
  rw [projectionEffect]
  cases textParam (row.lookup "account_id") with
  | none => exact ⟨none, rfl⟩
  | some accountId =>
    simp only [hhold, transferRowEffect, hkind]
    exact ⟨_, rfl⟩

theorem setItem_self {key : String} {value : Json} : ∀ {dict : Dict},
    dict.lookup key = some value → setItem key value dict = dict := by
  intro dict
  induction dict with
  | nil => intro h; cases h
  | cons m dict ih =>
    intro h
    rw [Tables.lookup_cons_ite] at h
    rw [setItem]
    split at h
    next hkey =>
      injection h with hvalue
      rw [if_pos hkey.symm, hkey, ← hvalue]
    next hkey => rw [if_neg (Ne.symm hkey), ih h]

/-- **In this build** a redrive agrees with the consumer on the events of its own
version, and on those of a known type that the gate refuses. -/
theorem sameProjection_registered {e : StoredEvent} (hid : e.eventId ≠ "") :
    SameProjection currentSchemaVersions registeredSteps e.dict ↔
      ∃ t : EventType, e.type = t.text ∧ (e.schemaVersion = currentSchemaVersion t ∨
        ∀ adapted, adaptLegacyEvent e.dict ≠ .ok adapted) := by
  have htype : e.dict.lookup "type" = some (.str e.type) := by
    rw [StoredEvent.lookup_dict]
    rfl
  have hversion : e.dict.lookup "schema_version" = some (.int e.schemaVersion) := by
    rw [StoredEvent.lookup_dict]
    rfl
  have hkeeps : ∀ {adapted}, adaptLegacyEvent e.dict = .ok adapted →
      adapted.lookup "event_id" = some (.str e.eventId) := by
    intro adapted hadapted
    rw [lookup_of_adaptLegacyEvent (by decide) hadapted, StoredEvent.lookup_dict]
    rfl
  have hredrive : (redriveEffect e.dict).toOption = none ↔
      ∀ adapted, adaptLegacyEvent e.dict ≠ .ok adapted := by
    rw [redriveEffect]
    cases hadapted : adaptLegacyEvent e.dict with
    | error err => exact ⟨(fun _ _ h => by cases h), fun _ => rfl⟩
    | ok adapted =>
      have heffect : ∃ effect, projectionEffect adapted = .ok effect := by
        rw [adaptLegacyEvent] at hadapted
        split at hadapted
        next hunknown =>
          cases hadapted
          exact projectionEffect_of_unknown hunknown
        next =>
          obtain ⟨domainEvent, -, hadapted⟩ := bind_eq_ok.mp hadapted
          cases hadapted
          exact projectionEffect_of_hasColumns (hasColumns_domainEventToLegacy domainEvent e.dict)
      obtain ⟨effect, heffect⟩ := heffect
      rw [ok_bind, heffect]
      exact ⟨(fun h => by cases h), fun h => absurd rfl (h adapted)⟩
  cases hknown : EventType.ofText e.type with
  | none =>
    have hconsumer : (consumerEffect currentSchemaVersions registeredSteps e.dict).toOption = none := by
      have hnone := lookup_none_of_unknown hknown currentSchemaVersion
      simp only [consumerEffect, upcast, htype, currentSchemaVersions, hnone]
      rfl
    have hpasses : adaptLegacyEvent e.dict = .ok e.dict := by
      rw [adaptLegacyEvent, htype, textOf, hknown]
    rw [SameProjection, hconsumer, hredrive]
    refine ⟨fun h => absurd hpasses (h _), ?_⟩
    rintro ⟨t, ht, -⟩
    rw [ht, EventType.ofText_text] at hknown
    cases hknown
  | some t =>
    have ht : e.type = t.text := by
      have hfound := List.find?_some hknown
      exact (of_decide_eq_true hfound).symm
    have hiff : (∃ t' : EventType, e.type = t'.text ∧
        (e.schemaVersion = currentSchemaVersion t' ∨
          ∀ adapted, adaptLegacyEvent e.dict ≠ .ok adapted)) ↔
        (e.schemaVersion = currentSchemaVersion t ∨
          ∀ adapted, adaptLegacyEvent e.dict ≠ .ok adapted) := by
      refine ⟨?_, fun h => ⟨t, ht, h⟩⟩
      rintro ⟨t', ht', h⟩
      rw [ht', EventType.ofText_text] at hknown
      cases hknown
      exact h
    rw [hiff]
    by_cases hcurrent : e.schemaVersion = currentSchemaVersion t
    · have hupcast : upcast currentSchemaVersions registeredSteps e.dict = .ok e.dict := by
        rw [upcast_current (t := t) (by rw [htype, ht]) (by rw [hversion, hcurrent]),
          setItem_self (by rw [hversion, hcurrent])]
      have hsame : consumerEffect currentSchemaVersions registeredSteps e.dict =
          redriveEffect e.dict := by
        rw [consumerEffect, hupcast, ok_bind, redriveEffect]
        cases hadapted : adaptLegacyEvent e.dict with
        | error err => rfl
        | ok adapted =>
          rw [ok_bind, require_bind_of (by rw [hkeeps hadapted]; exact hid)]
          rfl
      rw [SameProjection, hsame]
      exact ⟨fun _ => Or.inl hcurrent, fun _ => rfl⟩
    · have hrefused : (consumerEffect currentSchemaVersions registeredSteps e.dict).toOption =
          none := by
        have hlookup := lookup_currentSchemaVersions t
        have hone : currentSchemaVersion t = 1 := rfl
        simp only [consumerEffect, upcast, htype, ht, hlookup, hversion, storedVersion]
        by_cases hlow : e.schemaVersion < 1
        · rw [if_pos hlow]
          rfl
        · rw [if_neg hlow, if_pos (by omega)]
          rfl
      rw [SameProjection, hrefused, hredrive]
      exact ⟨Or.inr, fun h => h.resolve_left hcurrent⟩

end Cloudscale
