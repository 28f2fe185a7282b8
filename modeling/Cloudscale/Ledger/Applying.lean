import Cloudscale.Domain.Postings
import Cloudscale.Ledger.Deciding

/-!
# Applying what was decided

A `Decision` is one of the decision functions with its arguments, as a function
of the states of the accounts.  Its events are `Applicable` when the versions
that numbering gives them are in range and every event can be applied, in the
order of the numbering, to what the events before it left of its account.

Numbering and applying both look at one account at a time, so `applyEach_ok` asks
for a fold of each account's own events.  Where every account has one event, the
checks of the decision are enough (`Separate.applicable`); a capture of a part of
a hold puts two events on its source.
-/

namespace Cloudscale

open Checked Python Streams

namespace Account

/-- A decision of the aggregate, but for the states it reads. -/
inductive Decision
  | decide (command : AccountCommand)
  | transfer (command : Transfer) (transferId : UUID)
  | postings (command : Transfer ⊕ Post) (transferId : UUID)
  | hold (command : Hold) (holdId : UUID) (now : Datetime)
  | postHold (hold : Option OpenHold) (command : PostHold) (now : Datetime)
  | releaseHold (kind : ReleaseKind) (hold : Option OpenHold) (command : ReleaseCommand)
      (now : Datetime)
  | revert (originalLegs : List AccountEvent) (command : Revert) (transferId : UUID)
      (revertedBy : Option UUID)

namespace Decision

/-- The events of the decision on the states. -/
def run (states : States) : Decision → Except PyError (List AccountEvent)
  | .decide c => do
    let state ← getItem states c.accountId
    let event ← Account.decide state c
    pure [event]
  | transfer c transferId => do
    let source ← getItem states c.accountId
    let target ← getItem states c.targetAccountId
    let (debit, credit) ← decideTransfer source target c transferId
    pure [debit, credit]
  | postings (.inl c) transferId => decidePostings states c.accountId c.legs transferId
  | postings (.inr c) transferId => decidePostings states c.accountId c.legs transferId
  | hold c holdId now => do
    let state ← getItem states c.accountId
    let event ← decideHold state c holdId now
    pure [.holdPlaced event]
  | postHold opened c now => do
    let source ← getItem states c.accountId
    let target ← getItem states ((opened.map OpenHold.counterparty).getD c.accountId)
    decidePostHold source target opened c now
  | releaseHold kind opened c now => do
    let state ← getItem states c.accountId
    let event ← decideReleaseHold kind state opened c now
    pure [.holdReleased event]
  | revert originalLegs c transferId revertedBy =>
    decideRevert states originalLegs c transferId revertedBy

/-- A set to revert has one leg for each account. -/
def Sound : Decision → Prop
  | revert originalLegs _ _ _ => ((movementLegs originalLegs).map MovementLeg.accountId).Nodup
  | _ => True

end Decision

/-- Apply each event to the state of its account. -/
def applyEach : States → List AccountEvent → Except PyError States
  | states, [] => .ok states
  | states, event :: events => do
    let state ← getItem states event.accountId
    let state' ← apply state event
    applyEach (setItem event.accountId state' states) events

/-- What the decision returns can be numbered and applied. -/
def Decision.Applicable (states : States) (d : Decision) : Prop :=
  ∀ events, d.run states = .ok events → ∃ legs, numberLegs states events = .ok legs ∧
    (∀ leg ∈ legs, leg.2 ≤ maxSignedBigint) ∧
      ∃ states', applyEach states (legs.map Prod.fst) = .ok states'

/-! ### One account at a time -/

def stateOf (states : States) (a : String) : AccountState := (states.lookup a).getD .unknown

theorem stateOf_of_lookup {states : States} {a : String} {s : AccountState}
    (h : states.lookup a = some s) : stateOf states a = s := by
  rw [stateOf, h, Option.getD_some]

theorem stateOf_setItem (states : States) (a : String) (s : AccountState) (b : String) :
    stateOf (setItem a s states) b = if b = a then s else stateOf states b := by
  rw [stateOf, lookup_setItem]
  split
  · rfl
  · rfl

/-- **Events can be applied** when every account can fold its own. -/
theorem applyEach_ok : ∀ {events : List AccountEvent} {states : States},
    (∀ e ∈ events, (states.lookup e.accountId).isSome) →
    (∀ a, ∃ s, foldFrom (stateOf states a) (events.filter (fun e => e.accountId = a)) = .ok s) →
      ∃ states', applyEach states events = .ok states' := by
  intro events
  induction events with
  | nil => intro states _ _; exact ⟨states, rfl⟩
  | cons e events ih =>
    intro states hknown hfold
    obtain ⟨s, hs⟩ := Option.isSome_iff_exists.mp (hknown e List.mem_cons_self)
    obtain ⟨last, hlast⟩ := hfold e.accountId
    rw [List.filter_cons_of_pos (by simp), foldFrom_cons, stateOf_of_lookup hs] at hlast
    obtain ⟨s', hs', hrest⟩ := bind_eq_ok.mp hlast
    have hnext : ∃ states', applyEach (setItem e.accountId s' states) events = .ok states' := by
      refine ih (fun x hx => ?_) (fun a => ?_)
      · rw [lookup_setItem]
        split
        · rfl
        · exact hknown x (List.mem_cons_of_mem e hx)
      · rw [stateOf_setItem]
        by_cases ha : a = e.accountId
        · rw [if_pos ha, ha]
          exact ⟨last, hrest⟩
        · have hskip := hfold a
          rw [List.filter_cons_of_neg (by simpa using Ne.symm ha)] at hskip
          rwa [if_neg ha]
    obtain ⟨states', hstates'⟩ := hnext
    refine ⟨states', ?_⟩
    rw [applyEach, getItem_eq_ok.mpr hs, ok_bind, hs', ok_bind, hstates']

/-! ### Numbering -/

theorem numberLegs_of_known {states : States} {events : List AccountEvent}
    (hknown : ∀ e ∈ events, (states.lookup e.accountId).isSome) : numberLegs states events =
      .ok (sortLegs (numberEach AccountEvent.accountId (fun a => (stateOf states a).version)
        events)) := by
  rw [numberLegs, numberEvents_eq (fun a => (stateOf states a).version), ok_bind, pure_eq_ok]
  intro e he
  obtain ⟨s, hs⟩ := Option.isSome_iff_exists.mp (hknown e he)
  rw [lookup_versions, stateOf_of_lookup hs, hs]
  rfl

/-- What numbering and applying need of the events, account by account. -/
theorem applicable_of {states : States} {events : List AccountEvent}
    (hknown : ∀ e ∈ events, (states.lookup e.accountId).isSome)
    (hroom : ∀ a, (stateOf states a).version +
      (events.filter (fun e => e.accountId = a)).length ≤ maxSignedBigint)
    (hfold : ∀ a, ∃ s,
      foldFrom (stateOf states a) (events.filter (fun e => e.accountId = a)) = .ok s) :
    ∃ legs, numberLegs states events = .ok legs ∧ (∀ leg ∈ legs, leg.2 ≤ maxSignedBigint) ∧
      ∃ states', applyEach states (legs.map Prod.fst) = .ok states' := by
  have hfilter := filter_sortLegs (fun a => (stateOf states a).version) events
  have hlegs := numberLegs_of_known hknown
  generalize sortLegs (numberEach AccountEvent.accountId (fun a => (stateOf states a).version)
    events) = legs at hfilter hlegs
  have hevents : ∀ a, (legs.map Prod.fst).filter (fun e => e.accountId = a) =
      events.filter (fun e => e.accountId = a) := by
    intro a
    have hmap := congrArg (List.map Prod.fst) (hfilter a)
    rw [map_fst_numberFrom] at hmap
    rw [List.filter_map]
    exact hmap
  refine ⟨legs, hlegs, fun leg hleg => ?_, applyEach_ok (fun e he => ?_) fun a => ?_⟩
  · have hmem : leg ∈ numberFrom (stateOf states leg.1.accountId).version
        (events.filter (fun e => e.accountId = leg.1.accountId)) := by
      rw [← hfilter]
      exact List.mem_filter.mpr ⟨hleg, by simp⟩
    have hbounds := lt_of_mem_numberFrom hmem
    have hle := hroom leg.1.accountId
    omega
  · have hmem : e ∈ events.filter (fun x => x.accountId = e.accountId) := by
      rw [← hevents]
      exact List.mem_filter.mpr ⟨he, by simp⟩
    exact hknown e (List.mem_of_mem_filter hmem)
  · rw [hevents]
    exact hfold a

/-- Every account has at most one of the events, and its state admits it. -/
structure Separate (states : States) (events : List AccountEvent) : Prop where
  nodup : (events.map AccountEvent.accountId).Nodup
  admits : ∀ e ∈ events, ∃ s, states.lookup e.accountId = some s ∧ Admits s e

/-- **Events on different accounts** need no more than the checks of the decision. -/
theorem Separate.applicable {states : States} {events : List AccountEvent}
    (h : Separate states events) :
    ∃ legs, numberLegs states events = .ok legs ∧ (∀ leg ∈ legs, leg.2 ≤ maxSignedBigint) ∧
      ∃ states', applyEach states (legs.map Prod.fst) = .ok states' := by
  refine applicable_of (fun e he => ?_) (fun a => ?_) (fun a => ?_)
  · obtain ⟨s, hs, -⟩ := h.admits e he
    rw [hs, Option.isSome_some]
  · have hle := (stateOf states a).valid.version_le
    rcases filter_of_nodup h.nodup a with hnone | ⟨e, he, rfl, hone⟩
    · rw [hnone]
      simpa using hle
    · obtain ⟨s, hs, hadmits⟩ := h.admits e he
      have hne := hadmits.version
      rw [hone, List.length_singleton, stateOf_of_lookup hs]
      rw [stateOf_of_lookup hs] at hle
      push_cast
      omega
  · rcases filter_of_nodup h.nodup a with hnone | ⟨e, he, rfl, hone⟩
    · exact ⟨_, by rw [hnone, foldFrom_nil]⟩
    · obtain ⟨s, hs, hadmits⟩ := h.admits e he
      rw [hone, stateOf_of_lookup hs]
      exact foldFrom_singleton hadmits

/-! ### The decisions -/

theorem separate_singleton {states : States} {e : AccountEvent} {s : AccountState}
    (hs : states.lookup e.accountId = some s) (hadmits : Admits s e) : Separate states [e] := by
  refine ⟨List.nodup_singleton _, fun x hx => ?_⟩
  rw [List.mem_singleton.mp hx]
  exact ⟨s, hs, hadmits⟩

theorem separate_postings {states : States} {anchor : String} {legs : List Leg}
    {transferId : UUID} {events : List AccountEvent} (hlegs : ValidLegs anchor legs)
    (h : decidePostings states anchor legs transferId = .ok events) : Separate states events := by
  obtain ⟨hcan, hposted⟩ := decidePostings_eq_ok.mp h
  refine ⟨by rw [accountId_of_posted hposted]; exact hlegs.nodup, fun e he => ?_⟩
  obtain ⟨leg, hleg, hpost⟩ := exists_of_mem_right hposted e he
  obtain ⟨s, hs, hcanPost⟩ := hcan leg hleg
  have hposting := isPosting_of_ok hpost
  exact ⟨s, by rw [hposting.accountId]; exact hs, hcanPost.admits hposting⟩

/-- The states of a transfer are those of its two accounts. -/
theorem separate_of_pair {states : States} {a b : String} {source target : AccountState}
    {events : List AccountEvent} (hsource : states.lookup a = some source)
    (htarget : states.lookup b = some target) (h : Separate [(a, source), (b, target)] events) :
    Separate states events := by
  refine ⟨h.nodup, fun e he => ?_⟩
  obtain ⟨s, hs, hadmits⟩ := h.admits e he
  refine ⟨s, ?_, hadmits⟩
  rw [Tables.lookup_cons_ite] at hs
  split at hs
  next ha =>
    cases hs
    rw [ha]
    exact hsource
  next =>
    rw [Tables.lookup_cons_ite] at hs
    split at hs
    next hb =>
      cases hs
      rw [hb]
      exact htarget
    next => cases hs

theorem separate_mirrored {states : States} {legs : List MovementLeg} {transferId reverts : UUID}
    {events : List AccountEvent} (hnodup : (legs.map MovementLeg.accountId).Nodup)
    (h : List.Forall₂ (fun leg e => ∃ s, states.lookup leg.accountId = some s ∧
      IsMirror leg transferId reverts e ∧ Admits s e) legs events) : Separate states events := by
  have hmirrored : List.Forall₂ (fun leg e => IsMirror leg transferId reverts e ∧
      ∃ s, states.lookup leg.accountId = some s ∧ Admits s e) legs events :=
    h.imp fun leg e ⟨s, hs, hmirror, hadmits⟩ => ⟨hmirror, s, hs, hadmits⟩
  refine ⟨by rw [accountId_of_mirrored hmirrored]; exact hnodup, fun e he => ?_⟩
  obtain ⟨leg, -, hmirror, s, hs, hadmits⟩ := exists_of_mem_right hmirrored e he
  exact ⟨s, by rw [hmirror.accountId]; exact hs, hadmits⟩

/-- The capture of a part of a hold, and the states it was decided on. -/
structure PartCaptured (states : States) (hold : OpenHold) (command : PostHold) (now : Datetime)
    (source target : AccountState) (posted : HoldPosted) (credited : TransferLeg)
    (released : HoldReleased) : Prop where
  known : states.lookup command.accountId = some source
  payee : states.lookup hold.counterparty = some target
  can : CanCapture source target hold command now
  capture : IsCapture command hold posted credited
  rest : IsRest command hold released

section Part

variable {states : States} {hold : OpenHold} {command : PostHold} {now : Datetime}
  {source target : AccountState} {posted : HoldPosted} {credited : TransferLeg}
  {released : HoldReleased}
  (h : PartCaptured states hold command now source target posted credited released)

include h

theorem PartCaptured.known_all : ∀ e ∈ [AccountEvent.holdPosted posted,
    .transferCredited credited, .holdReleased released], (states.lookup e.accountId).isSome := by
  have hknown : (states.lookup command.accountId).isSome := by rw [h.known, Option.isSome_some]
  have hpayee : (states.lookup hold.counterparty).isSome := by rw [h.payee, Option.isSome_some]
  simp only [List.forall_mem_cons, AccountEvent.accountId, h.capture.accountId,
    h.capture.creditedAccount, h.rest.accountId]
  exact ⟨hknown, hpayee, hknown, fun _ hx => absurd hx List.not_mem_nil⟩

theorem PartCaptured.applicable (hroom : source.version + 1 ≠ maxSignedBigint) :
    ∃ legs, numberLegs states [.holdPosted posted, .transferCredited credited,
        .holdReleased released] = .ok legs ∧ (∀ leg ∈ legs, leg.2 ≤ maxSignedBigint) ∧
      ∃ states', applyEach states (legs.map Prod.fst) = .ok states' := by
  refine applicable_of h.known_all (fun a => ?_) (fun a => ?_)
  · have hle := (stateOf states a).valid.version_le
    have hsource := source.valid.version_le
    have hne := h.can.sourceVersion
    have hne' := h.can.targetVersion
    have hle' := target.valid.version_le
    rw [filter_part h.capture h.rest]
    split
    next ha =>
      rw [ha, stateOf_of_lookup h.known, List.length_cons, List.length_singleton]
      push_cast
      omega
    next =>
      split
      next hb =>
        rw [hb, stateOf_of_lookup h.payee, List.length_singleton]
        push_cast
        omega
      next => simpa using hle
  · rw [filter_part h.capture h.rest]
    split
    next ha =>
      rw [ha, stateOf_of_lookup h.known]
      exact h.can.foldFrom_part h.capture h.rest hroom
    next =>
      split
      next hb =>
        rw [hb, stateOf_of_lookup h.payee]
        exact foldFrom_singleton (h.can.admits h.capture).2
      next => exact ⟨_, foldFrom_nil _⟩

theorem PartCaptured.overflows (hlast : source.version + 1 = maxSignedBigint)
    {legs : List (AccountEvent × Int)} (hlegs : numberLegs states [.holdPosted posted,
      .transferCredited credited, .holdReleased released] = .ok legs) :
    ∃ leg ∈ legs, maxSignedBigint < leg.2 := by
  rw [numberLegs_of_known h.known_all, Except.ok.injEq] at hlegs
  subst hlegs
  have hfilter := filter_sortLegs (fun a => (stateOf states a).version)
    [.holdPosted posted, .transferCredited credited, .holdReleased released] command.accountId
  rw [filter_part h.capture h.rest, if_pos rfl, stateOf_of_lookup h.known, numberFrom_cons, numberFrom_cons,
    numberFrom_nil] at hfilter
  refine ⟨(.holdReleased released, source.version + 1 + 1), ?_, by show _ < _; omega⟩
  refine List.mem_of_mem_filter (p := fun leg => leg.1.accountId = command.accountId) ?_
  rw [hfilter]
  simp

end Part

/-! ### Every decision -/

/-- A capture of a part of a hold, on a source with room for one event only. -/
structure Overruns (states : States) (hold : OpenHold) (command : PostHold) (now : Datetime)
    (source target : AccountState) : Prop where
  known : states.lookup command.accountId = some source
  payee : states.lookup hold.counterparty = some target
  payee_ok : hold.counterparty ≠ "" ∧ hold.counterparty ≠ command.accountId
  can : CanCapture source target hold command now
  part : captureAmount command hold < hold.amount
  last : source.version + 1 = maxSignedBigint

/-- The decision captures a part of a hold on a source with room for one event only. -/
def Decision.Overflows (states : States) (d : Decision) : Prop :=
  ∃ hold command now source target, d = .postHold (some hold) command now ∧
    Overruns states hold command now source target

/-- A capture of a part that the guards admit returns its three events. -/
theorem Overruns.partCaptured {states : States} {hold : OpenHold} {command : PostHold}
    {now : Datetime} {source target : AccountState}
    (h : Overruns states hold command now source target) : ∃ posted credited released,
      PartCaptured states hold command now source target posted credited released := by
  obtain ⟨amount, hamount⟩ : ∃ amount, command.amount = some amount := by
    cases hnone : command.amount with
    | none =>
      have hpart := h.part
      rw [captureAmount, hnone, Option.getD_none] at hpart
      omega
    | some amount => exact ⟨amount, rfl⟩
  have hcaptured : captureAmount command hold = amount := by
    rw [captureAmount, hamount, Option.getD_some]
  have hvalid := command.amount_ok amount hamount
  have hpart := h.part
  have hheld := h.can.covered.1
  have hle := source.valid.held_le
  have hmax := source.valid.balance_le
  have hpos := hvalid.pos
  rw [hcaptured] at hpart
  have hrest : ValidAmount (hold.amount - amount) := ⟨by omega, by omega⟩
  refine ⟨⟨command.accountId, amount, command.holdId, hold.counterparty, command.account_ok, hvalid,
    h.payee_ok.1, h.payee_ok.2⟩, ⟨hold.counterparty, amount, command.holdId, command.accountId,
    h.payee_ok.1, hvalid, command.account_ok, h.payee_ok.2.symm⟩, ⟨command.accountId,
    hold.amount - amount, command.holdId, .partialCapture, command.account_ok, hrest⟩,
    h.known, h.payee, h.can, ?_, ?_⟩
  · exact ⟨rfl, hcaptured.symm, rfl, rfl, rfl, hcaptured.symm, rfl, rfl⟩
  · exact ⟨rfl, by rw [hcaptured], rfl, rfl⟩

/-- The events of a decision are separate, or a capture of a part. -/
theorem Decision.run_ok {states : States} {d : Decision} (hsound : d.Sound)
    {events : List AccountEvent} (h : d.run states = .ok events) :
    Separate states events ∨ ∃ hold command now source target posted credited released,
      d = .postHold (some hold) command now ∧ captureAmount command hold < hold.amount ∧
        PartCaptured states hold command now source target posted credited released ∧
          events = [.holdPosted posted, .transferCredited credited, .holdReleased released] := by
  cases d with
  | decide c =>
    obtain ⟨state, hstate, h⟩ := bind_eq_ok.mp h
    obtain ⟨event, hevent, h⟩ := bind_eq_ok.mp h
    cases h
    have hstate := getItem_eq_ok.mp hstate
    cases c with
    | deposit c =>
      obtain ⟨rfl, hadmits⟩ := decide_deposit_eq_ok.mp hevent
      exact Or.inl (separate_singleton hstate hadmits)
    | withdraw c =>
      obtain ⟨rfl, hadmits⟩ := decide_withdraw_eq_ok.mp hevent
      exact Or.inl (separate_singleton hstate hadmits)
    | transfer | post | hold | postHold | voidHold | expireHold | revert => cases hevent
  | transfer c transferId =>
    obtain ⟨source, hsource, h⟩ := bind_eq_ok.mp h
    obtain ⟨target, htarget, h⟩ := bind_eq_ok.mp h
    obtain ⟨⟨debit, credit⟩, hpair, h⟩ := bind_eq_ok.mp h
    cases h
    have hpostings := decideTransfer_eq_ok.mp hpair
    exact Or.inl (separate_of_pair (getItem_eq_ok.mp hsource) (getItem_eq_ok.mp htarget)
      (separate_postings c.validLegs hpostings))
  | postings c transferId =>
    cases c with
    | inl c => exact Or.inl (separate_postings c.validLegs h)
    | inr c => exact Or.inl (separate_postings c.validLegs h)
  | hold c holdId now =>
    obtain ⟨state, hstate, h⟩ := bind_eq_ok.mp h
    obtain ⟨event, hevent, h⟩ := bind_eq_ok.mp h
    cases h
    obtain ⟨hplacement, hadmits⟩ := decideHold_eq_ok.mp hevent
    refine Or.inl (separate_singleton ?_ hadmits)
    rw [show (AccountEvent.holdPlaced event).accountId = c.accountId from hplacement.accountId]
    exact getItem_eq_ok.mp hstate
  | releaseHold kind opened c now =>
    obtain ⟨state, hstate, h⟩ := bind_eq_ok.mp h
    obtain ⟨event, hevent, h⟩ := bind_eq_ok.mp h
    cases h
    obtain ⟨hold, -, hcan, hrelease⟩ := decideReleaseHold_eq_ok.mp hevent
    refine Or.inl (separate_singleton ?_ (hcan.admits hrelease))
    rw [show (AccountEvent.holdReleased event).accountId = c.accountId from hrelease.accountId]
    exact getItem_eq_ok.mp hstate
  | postHold opened c now =>
    obtain ⟨source, hsource, h⟩ := bind_eq_ok.mp h
    obtain ⟨target, htarget, h⟩ := bind_eq_ok.mp h
    obtain ⟨hold, rfl, hcan, hcaptured⟩ := decidePostHold_eq_ok.mp h
    have hsource := getItem_eq_ok.mp hsource
    have htarget : states.lookup hold.counterparty = some target := getItem_eq_ok.mp htarget
    cases hcaptured with
    | @whole posted credited capture all =>
      obtain ⟨hposted, hcredited⟩ := hcan.admits capture
      refine Or.inl ⟨?_, ?_⟩
      · have hne := capture.account_ne
        simpa [AccountEvent.accountId, capture.accountId, capture.creditedAccount] using hne
      · rw [List.forall_mem_cons, List.forall_mem_singleton]
        refine ⟨⟨source, ?_, hposted⟩, target, ?_, hcredited⟩
        · rw [show (AccountEvent.holdPosted posted).accountId = c.accountId from capture.accountId]
          exact hsource
        · rw [show (AccountEvent.transferCredited credited).accountId = hold.counterparty
            from capture.creditedAccount]
          exact htarget
    | part capture rest less =>
      exact Or.inr ⟨hold, c, now, source, target, _, _, _, rfl, less,
        ⟨hsource, htarget, hcan, capture, rest⟩, rfl⟩
  | revert originalLegs c transferId revertedBy =>
    obtain ⟨-, hmirrored⟩ := decideRevert_eq_ok.mp h
    exact Or.inl (separate_mirrored hsound hmirrored)

/-- Where a capture of a part overflows, its events are not applicable. -/
theorem Decision.Overflows.not_applicable {states : States} {d : Decision}
    (h : d.Overflows states) : ¬ d.Applicable states := by
  obtain ⟨hold, command, now, source, target, rfl, hoverruns⟩ := h
  intro happlicable
  obtain ⟨posted, credited, released, hpart⟩ := hoverruns.partCaptured
  have hrun : (Decision.postHold (some hold) command now).run states =
      .ok [.holdPosted posted, .transferCredited credited, .holdReleased released] := by
    rw [Decision.run, getItem_eq_ok.mpr hoverruns.known, ok_bind, Option.map_some,
      Option.getD_some, getItem_eq_ok.mpr hoverruns.payee, ok_bind]
    exact decidePostHold_eq_ok.mpr
      ⟨hold, rfl, hpart.can, .part hpart.capture hpart.rest hoverruns.part⟩
  obtain ⟨legs, hlegs, hversions, -⟩ := happlicable _ hrun
  obtain ⟨leg, hleg, hlt⟩ := hpart.overflows hoverruns.last hlegs
  have hle := hversions leg hleg
  omega

/-- **Every decision can be applied**, but for the capture of a part of a hold on a
source with room for one event only. -/
theorem decisions_apply (states : States) (d : Decision) (hsound : d.Sound) :
    d.Applicable states ↔ ¬ d.Overflows states := by
  constructor
  · exact fun happlicable hoverflows => hoverflows.not_applicable happlicable
  · intro hfits events hrun
    rcases d.run_ok hsound hrun with hseparate | ⟨hold, command, now, source, target, posted,
      credited, released, rfl, hless, hpart, rfl⟩
    · exact hseparate.applicable
    · refine hpart.applicable fun hlast => hfits ⟨hold, command, now, source, target, rfl,
        hpart.known, hpart.payee, ⟨?_, ?_⟩, hpart.can, hless, hlast⟩
      · rw [← hpart.capture.creditedAccount]
        exact credited.account_ok
      · exact hpart.capture.account_ne.symm

/-- A set of three legs is reverted, and its three mirrored legs can be applied. -/
theorem decisions_apply_revert :
    let legs : List AccountEvent := [
      .transferDebited ⟨"a", 5, ⟨1⟩, "b", by decide, by decide, by decide, by decide⟩,
      .transferCredited ⟨"b", 3, ⟨1⟩, "a", by decide, by decide, by decide, by decide⟩,
      .transferCredited ⟨"c", 2, ⟨1⟩, "a", by decide, by decide, by decide, by decide⟩]
    let states : States := [("a", ⟨some "a", 0, 2, 0, by constructor <;> decide⟩),
      ("b", ⟨some "b", 3, 1, 0, by constructor <;> decide⟩),
      ("c", ⟨some "c", 2, 1, 0, by constructor <;> decide⟩)]
    let revert : Decision := .revert legs ⟨"a", ⟨1⟩, 2, by decide, by decide⟩ ⟨2⟩ none
    (revert.run states).map List.length = .ok 3 ∧ revert.Sound ∧ revert.Applicable states := by
  intro legs states revert
  have hsound : revert.Sound := by
    show ((movementLegs legs).map MovementLeg.accountId).Nodup
    decide
  exact ⟨by decide, hsound, (decisions_apply states revert hsound).mpr
    fun ⟨_, _, _, _, _, h, _⟩ => nomatch h⟩

/-- **A capture of a part may need a version too many**: four of the ten that are held,
on a source at version `2 ^ 63 - 2`. -/
theorem part_capture_overflows :
    let source : AccountState := ⟨some "a", 10, maxSignedBigint - 1, 10, by simp, by decide,
      by decide, by decide, by decide, by decide, by decide, by simp⟩
    let hold : OpenHold :=
      ⟨⟨1⟩, 10, "b", "1970-01-02T00:00:00+00:00", ⟨by decide, by decide +kernel⟩⟩
    let capture : Decision := .postHold (some hold) ⟨"a", ⟨1⟩, maxSignedBigint - 1, some 4,
      by decide, by decide, by simp; decide⟩ .epoch
    hold.amount ≤ source.held ∧ capture.Sound ∧
      ¬ capture.Applicable [("a", source), ("b", .unknown)] := by
  intro source hold capture
  have hcan : CanCapture source .unknown hold ⟨"a", ⟨1⟩, maxSignedBigint - 1, some 4, by decide,
      by decide, by simp; decide⟩ .epoch :=
    ⟨by decide +kernel, by decide, by decide, by decide, by decide, by decide, by decide, by decide⟩
  exact ⟨by decide, trivial, Decision.Overflows.not_applicable ⟨hold, _, .epoch, source, .unknown,
    rfl, rfl, rfl, ⟨by decide, by decide⟩, hcan, by decide, by decide⟩⟩

end Account

end Cloudscale
