import Cloudscale.Ledger.Resubmission
import Cloudscale.Ledger.Undoing

/-!
# Which calls return

A decision on the store of a run refuses with a `DomainError` and with nothing else
(`Refuses`), which the call turns into a rejection.  There are four ways around.  The
expiry of a hold can be past the last instant of a `datetime`, which is an
`OverflowError` inside the decision.  The capture of a part of a hold can need a
version that is out of range, which is found only when its event is enveloped.  The
other two need a command id that is used again once its result is pruned: a revert of
the set of its own id, which no reversal may name, and a revert of a set that several
commands wrote, whose mirrors can each be checked and not be applied together.

`execution_returns_iff` says that these are all.
-/

namespace Cloudscale

open Checked Python Streams Transactions

namespace Account

/-! ### Refusals -/

/-- The computation fails with a `DomainError` only. -/
def Refuses {α : Type} (x : Except PyError α) : Prop := ∀ e, x = .error e → ∃ d, e = .domain d

section Refusing

variable {α β : Type}

theorem refuses_ok {x : Except PyError α} (h : ∃ a, x = .ok a) : Refuses x := by
  obtain ⟨a, rfl⟩ := h
  exact fun _ he => nomatch he

theorem refuses_domain (kind : DomainErrorKind) (message : String) :
    Refuses (.error (domainError kind message) : Except PyError α) := by
  intro e he
  cases he
  exact ⟨_, rfl⟩

theorem Refuses.bind {x : Except PyError α} {f : α → Except PyError β} (hx : Refuses x)
    (hf : ∀ a, x = .ok a → Refuses (f a)) : Refuses (x >>= f) := by
  intro e he
  rcases bind_eq_error.mp he with he | ⟨a, ha, he⟩
  · exact hx e he
  · exact hf a ha e he

theorem refuses_require {p : Prop} [Decidable p] {kind : DomainErrorKind} {message : String}
    {f : PLift p → Except PyError β} (hf : ∀ h : p, Refuses (f ⟨h⟩)) :
    Refuses (require p (domainError kind message) >>= f) := by
  intro e he
  rcases require_bind_eq_error.mp he with ⟨-, rfl⟩ | ⟨h, he⟩
  · exact ⟨_, rfl⟩
  · exact hf h e he

theorem refuses_mapM {f : α → Except PyError β} : ∀ {l : List α},
    (∀ a ∈ l, Refuses (f a)) → Refuses (l.mapM f) := by
  intro l
  induction l with
  | nil => intro _; exact refuses_ok ⟨[], rfl⟩
  | cons a l ih =>
    intro h
    rw [List.forall_mem_cons] at h
    rw [List.mapM_cons]
    exact h.1.bind fun _ _ => (ih h.2).bind fun _ _ => refuses_ok ⟨_, rfl⟩

end Refusing

/-! ### The decisions refuse -/

theorem refuses_deposit (s : AccountState) (c : Deposit) : Refuses (decide s (.deposit c)) := by
  rw [decide]
  refine refuses_require fun _ => refuses_require fun _ => refuses_require fun _ => ?_
  exact refuses_ok ⟨_, map_eq_ok.mpr
    ⟨_, CashEvent.new_self ⟨c.accountId, c.amount, c.account_ok, c.amount_ok⟩, rfl⟩⟩

theorem refuses_withdraw (s : AccountState) (c : Withdraw) : Refuses (decide s (.withdraw c)) := by
  rw [decide]
  refine refuses_require fun _ => refuses_require fun _ => refuses_require fun _ => ?_
  exact refuses_ok ⟨_, map_eq_ok.mpr
    ⟨_, CashEvent.new_self ⟨c.accountId, c.amount, c.account_ok, c.amount_ok⟩, rfl⟩⟩

theorem refuses_postings {states : States} {anchor : String} {legs : List Leg}
    (hlegs : ValidLegs anchor legs) (hknown : ∀ leg ∈ legs, (states.lookup leg.accountId).isSome)
    (transferId : UUID) : Refuses (decidePostings states anchor legs transferId) := by
  refine (refuses_mapM fun leg hleg => ?_).bind fun _ _ => refuses_mapM fun leg hleg =>
    refuses_ok (postingEvent_of_valid hlegs hleg transferId)
  obtain ⟨s, hs⟩ := Option.isSome_iff_exists.mp (hknown leg hleg)
  rw [checkPosting, getItem_eq_ok.mpr hs, ok_bind]
  refine refuses_require fun _ => refuses_require fun _ => ?_
  cases leg.direction with
  | debit => exact refuses_require fun _ => refuses_ok ⟨_, rfl⟩
  | credit => exact refuses_require fun _ => refuses_ok ⟨_, rfl⟩

/-- A hold whose expiry can be shown is placed or refused. -/
theorem refuses_hold {s : AccountState} {c : Hold} (holdId : UUID) {now : Datetime}
    (hexpiry : s.version ≠ maxSignedBigint → c.amount ≤ s.available →
      (now.addSeconds c.ttlSeconds).isSome) : Refuses (decideHold s c holdId now) := by
  rw [decideHold]
  refine refuses_require fun _ => refuses_require fun hroom => refuses_require fun hfunds => ?_
  obtain ⟨expiry, hexpiry⟩ := Option.isSome_iff_exists.mp (hexpiry hroom hfunds)
  rw [hexpiry]
  exact refuses_ok ⟨_, HoldPlaced.new_self ⟨c.accountId, c.amount, holdId, c.targetAccountId,
    expiry.isoformat, c.account_ok, c.amount_ok, c.target_ok, c.accounts_ne.symm,
    validExpiresAt_isoformat expiry⟩⟩

/-- A hold that can be captured is captured or the capture is refused. -/
theorem refuses_capture (source target : AccountState) {hold : Option OpenHold} {c : PostHold}
    (now : Datetime) (h : ∀ x ∈ hold, ∃ events, Captured c x events) :
    Refuses (decidePostHold source target hold c now) := by
  cases hold with
  | none => exact refuses_domain _ _
  | some hold =>
    obtain ⟨events, hevents⟩ := h hold rfl
    have hrest := fun hcan : CanCapture source target hold c now =>
      decidePostHold_eq_ok.mpr ⟨hold, rfl, hcan, hevents⟩
    simp only [decidePostHold, require_bind_eq_ok] at hrest ⊢
    refine refuses_require fun h₁ => refuses_require fun h₂ => refuses_require fun h₃ =>
      refuses_require fun h₄ => refuses_require fun h₅ => refuses_require fun h₆ =>
      refuses_require fun h₇ => refuses_require fun h₈ => ?_
    obtain ⟨_, _, _, _, _, _, _, _, hok⟩ := hrest ⟨h₁, h₂, h₃, h₄, h₅, h₆, h₇, h₈⟩
    exact refuses_ok ⟨_, hok⟩

/-- A hold that can be released is released or the release is refused. -/
theorem refuses_release (kind : ReleaseKind) (s : AccountState) {hold : Option OpenHold}
    {c : ReleaseCommand} (now : Datetime) (h : ∀ x ∈ hold, ∃ e, IsRelease kind x c e) :
    Refuses (decideReleaseHold kind s hold c now) := by
  cases hold with
  | none => exact refuses_domain _ _
  | some hold =>
    obtain ⟨e, he⟩ := h hold rfl
    have hrest := fun hcan : CanRelease kind s hold c now =>
      decideReleaseHold_eq_ok.mpr ⟨hold, rfl, hcan, he⟩
    simp only [decideReleaseHold, require_bind_eq_ok] at hrest ⊢
    refine refuses_require fun h₁ => refuses_require fun h₂ => refuses_require fun h₃ =>
      refuses_require fun h₄ => ?_
    obtain ⟨_, _, _, _, hok⟩ := hrest ⟨h₁, h₂, h₃, h₄⟩
    exact refuses_ok ⟨_, hok⟩

/-- A leg is mirrored or its mirror is refused, unless the revert has the id of its set. -/
theorem refuses_mirror {s : AccountState} {leg : MovementLeg} {transferId reverts : UUID}
    (hne : CanMirror s leg → reverts ≠ transferId) : Refuses (mirrorLeg s leg transferId reverts) := by
  have hrest : CanMirror s leg → ∃ e, mirrorLeg s leg transferId reverts = .ok e :=
    fun hcan => exists_mirrorLeg_iff.mpr ⟨hcan, hne hcan⟩
  rw [mirrorLeg] at hrest ⊢
  refine refuses_require fun hidentity => refuses_require fun hversion => ?_
  split
  next hreceived =>
    refine refuses_require fun hfunds => ?_
    obtain ⟨e, he⟩ := hrest ⟨hidentity, hversion, (if_pos hreceived).mpr hfunds⟩
    rw [require_bind_of hidentity, require_bind_of hversion, if_pos hreceived, requireFunds,
      require_bind_of hfunds] at he
    exact refuses_ok ⟨e, he⟩
  next hpaid =>
    refine refuses_require fun hfits => ?_
    obtain ⟨e, he⟩ := hrest ⟨hidentity, hversion, (if_neg hpaid).mpr hfits⟩
    rw [require_bind_of hidentity, require_bind_of hversion, if_neg hpaid, requireCreditFits,
      require_bind_of hfits] at he
    exact refuses_ok ⟨e, he⟩

/-- A revert is refused or mirrors its set, unless it has the id of the set and can mirror the
first leg. -/
theorem refuses_revert {states : States} {originalLegs : List AccountEvent} {c : Revert}
    {transferId : UUID} (revertedBy : Option UUID)
    (hknown : ∀ leg ∈ movementLegs originalLegs, (states.lookup leg.accountId).isSome)
    (hfirst : c.transferId = transferId → Revertible (movementLegs originalLegs) c revertedBy →
      ∀ leg ∈ (movementLegs originalLegs).head?, ∀ s ∈ states.lookup leg.accountId,
        ¬ CanMirror s leg) :
    Refuses (decideRevert states originalLegs c transferId revertedBy) := by
  have hrevertible : Refuses (requireRevertible (movementLegs originalLegs) c revertedBy) := by
    rw [requireRevertible.eq_def]
    refine refuses_require fun _ => ?_
    cases revertedBy with
    | some id => exact refuses_domain _ _
    | none => exact refuses_require fun _ => refuses_ok ⟨_, rfl⟩
  refine hrevertible.bind fun u hu => ?_
  have hfirst := fun hself => hfirst hself (requireRevertible_eq_ok.mp hu)
  cases hlegs : movementLegs originalLegs with
  | nil => exact refuses_ok ⟨[], rfl⟩
  | cons leg legs =>
    rw [hlegs, List.forall_mem_cons] at hknown
    rw [hlegs] at hfirst
    obtain ⟨s, hs⟩ := Option.isSome_iff_exists.mp hknown.1
    rw [List.mapM_cons, getItem_eq_ok.mpr hs, ok_bind]
    refine (refuses_mirror fun hcan hself => hfirst hself leg rfl s hs hcan).bind fun e he => ?_
    -- The first leg was mirrored, so the revert has an id of its own.
    have hother := (exists_mirrorLeg_iff.mp ⟨e, he⟩).2
    refine (refuses_mapM fun leg' hleg' => ?_).bind fun _ _ => refuses_ok ⟨_, rfl⟩
    obtain ⟨s', hs'⟩ := Option.isSome_iff_exists.mp (hknown.2 leg' hleg')
    rw [getItem_eq_ok.mpr hs', ok_bind]
    exact refuses_mirror fun _ => hother

/-- What is left of a scan was placed before it or by one of its events. -/
theorem scanHold_eq_some {t : UUID} : ∀ {events : List HoldEvent} {placed : Option HoldPlaced}
    {p : HoldPlaced}, scanHold t placed events = some p →
    placed = some p ∨ (.placed p ∈ events ∧ p.holdId = t) := by
  intro events
  induction events with
  | nil => exact fun h => Or.inl h
  | cons event events ih =>
    intro placed p h
    have hlater : ∀ {placed' : Option HoldPlaced}, scanHold t placed' events = some p →
        placed' = some p ∨ (.placed p ∈ event :: events ∧ p.holdId = t) :=
      fun h => (ih h).imp_right (And.imp_left (List.mem_cons_of_mem event))
    rw [scanHold.eq_def] at h
    dsimp only at h
    split at h
    next => exact hlater h
    next hid =>
      rw [not_not] at hid
      cases event with
      | placed e =>
        rcases hlater h with heq | hmem
        · cases heq
          exact Or.inr ⟨List.mem_cons_self, hid⟩
        · exact Or.inr hmem
      | posted e => cases h
      | released e =>
        dsimp only at h
        split at h
        next => cases h
        next => exact hlater h

end Account

open Account

/-- **An open hold was placed**, whatever else has its id. -/
theorem Store.Readable.exists_placed {s : Store} (hs : s.Readable) {a : String} {t : UUID}
    {hold : OpenHold} (h : s.openHold a t = .ok (some hold)) :
    ∃ p : HoldPlaced, p.accountId = a ∧ hold = openHoldOf p := by
  rw [Store.openHold_eq hs, Except.ok.injEq, openHoldFromEvents, Option.map_eq_some_iff] at h
  obtain ⟨p, hscan, rfl⟩ := h
  obtain ⟨hmem, rfl⟩ := (scanHold_eq_some hscan).resolve_left (by simp)
  obtain ⟨e, he, hplaced⟩ := List.mem_filterMap.mp hmem
  obtain ⟨r, hr, rfl⟩ := List.mem_map.mp he
  refine ⟨p, ?_, rfl⟩
  have haccount : r.event.accountId = a := of_decide_eq_true (List.mem_filter.mp hr).2
  cases hevent : r.event with
  | holdPlaced e =>
    rw [hevent] at hplaced haccount
    cases hplaced
    exact haccount
  | holdReleased e | holdPosted e | deposited e | withdrawn e | transferDebited e
  | transferCredited e | reversalDebited e | reversalCredited e =>
    rw [hevent] at hplaced
    cases hplaced

/-! ### The decision on the store of a run -/

/-- The expiry of the hold is past the last instant of a `datetime`. -/
structure HoldOverruns (s : Store) (call : Call) (c : Hold) : Prop where
  command : call.request.command = .hold c
  room : (s.account c.accountId).version ≠ maxSignedBigint
  funds : c.amount ≤ (s.account c.accountId).available
  expiry : (call.clock 0).addSeconds c.ttlSeconds = none

/-- The capture of a part of the hold needs one version more than there is. -/
structure CaptureOverruns (s : Store) (call : Call) (c : PostHold) (hold : OpenHold) : Prop where
  command : call.request.command = .postHold c
  found : s.openHold c.accountId c.holdId = .ok (some hold)
  can : CanCapture (s.account c.accountId) (s.account hold.counterparty) hold c (call.clock 0)
  part : captureAmount c hold < hold.amount
  last : (s.account c.accountId).version + 1 = maxSignedBigint

/-- The set of the command's own id is reverted, and its first leg can be mirrored. -/
structure RevertsItself (s : Store) (call : Call) (c : Revert) : Prop where
  command : call.request.command = .revert c
  self : c.transferId = call.request.commandId
  revertible : Revertible (legsOfRows (s.setOf c.transferId)) c none
  once : s.revertedBy c.transferId = .ok none
  first : ∀ leg ∈ (legsOfRows (s.setOf c.transferId)).head?, CanMirror (s.account leg.accountId) leg

/-- Each leg of the set can be mirrored, but not one after another. -/
structure RevertOverruns (s : Store) (call : Call) (c : Revert) : Prop where
  command : call.request.command = .revert c
  other : c.transferId ≠ call.request.commandId
  revertible : Revertible (legsOfRows (s.setOf c.transferId)) c none
  once : s.revertedBy c.transferId = .ok none
  can : ∀ leg ∈ legsOfRows (s.setOf c.transferId), CanMirror (s.account leg.accountId) leg
  stuck : ¬ s.Undoes c.transferId

section Deciding

variable {s : Store} {call : Call}

/-- **A decision refuses**, but for a hold without an expiry and a revert of itself. -/
theorem decideLegs_refuses (hs : s.Readable) (hexpiry : ∀ c, ¬ HoldOverruns s call c)
    (hself : ∀ c, ¬ RevertsItself s call c) :
    Refuses (decideLegs s.reads call.request (s.account call.request.command.accountId)
      (call.clock 0)) := by
  generalize hnow : call.clock 0 = now
  have hpostings : ∀ anchor legs, ValidLegs anchor legs →
      Refuses (postingsLegs s.reads anchor legs (s.account anchor) call.request.commandId) := by
    intro anchor legs hlegs
    obtain ⟨states, hstates, hsnap⟩ := Store.foldOthers_eq hs
      (legs.map Leg.accountId) (snapshot_singleton anchor)
    rw [postingsLegs, hstates, ok_bind, ofExcept_eq_self]
    have hmem : ∀ leg ∈ legs, leg.accountId ∈ [anchor] ++ legs.map Leg.accountId :=
      fun leg hleg => List.mem_append_right _ (List.mem_map_of_mem hleg)
    refine (refuses_postings hlegs (fun leg hleg => ?_) _).bind fun events hevents => ?_
    · exact hsnap.complete _ (hmem leg hleg)
    · refine refuses_ok ⟨_, hsnap.numberLegs_eq fun e he => ?_⟩
      obtain ⟨leg, hleg, hpost⟩ :=
        exists_of_mem_right (decidePostings_eq_ok.mp hevents).2 e he
      rw [(isPosting_of_ok hpost).accountId]
      exact hmem leg hleg
  have hrelease : ∀ kind (c : ReleaseCommand),
      Refuses (releaseLegs s.reads kind c (s.account c.accountId) now) := by
    intro kind c
    rw [releaseLegs, show s.reads.openHold c.accountId c.holdId = s.openHold c.accountId c.holdId
      from rfl]
    cases hopen : s.openHold c.accountId c.holdId with
    | error e =>
      rw [Store.openHold_eq hs] at hopen
      cases hopen
    | ok hold =>
      rw [ok_bind, ofExcept_eq_self]
      refine (refuses_release kind _ now fun x hx => ?_).bind fun _ _ => refuses_ok ⟨_, rfl⟩
      obtain rfl := Option.mem_def.mp hx
      obtain ⟨p, -, rfl⟩ := hs.exists_placed hopen
      exact ⟨⟨c.accountId, p.amount, c.holdId, kind.reason, c.account_ok, p.amount_ok⟩, rfl, rfl,
        rfl, rfl⟩
  have hcapture : ∀ c : PostHold, Refuses (postHoldLegs s.reads (s.account c.accountId) c now) := by
    intro c
    rw [postHoldLegs, show s.reads.openHold c.accountId c.holdId = s.openHold c.accountId c.holdId
      from rfl]
    cases hopen : s.openHold c.accountId c.holdId with
    | error e =>
      rw [Store.openHold_eq hs] at hopen
      cases hopen
    | ok hold =>
      cases hold with
      | none =>
        have hself : ([(c.accountId, s.account c.accountId)] : States).lookup c.accountId =
            some (s.account c.accountId) := by rw [Tables.lookup_cons_ite, if_pos rfl]
        simp only [ok_bind, Option.isSome_none, foldOthers, Bool.false_eq_true, if_false,
          pure_eq_ok, ofExcept_eq_self, getItem_eq_ok.mpr hself]
        refine (refuses_capture _ _ now fun x hx => absurd hx (Option.not_mem_none x)).bind
          fun _ hevents => ?_
        obtain ⟨_, hnone, -⟩ := decidePostHold_eq_ok.mp hevents
        cases hnone
      | some hold =>
        obtain ⟨states, hstates, hsnap⟩ := Store.foldOthers_eq hs
          [hold.counterparty] (snapshot_singleton c.accountId)
        simp only [ok_bind, Option.isSome_some, if_true, hstates, ofExcept_eq_self,
          getItem_eq_ok.mpr (hsnap.lookup (a := hold.counterparty) (by simp))]
        refine (refuses_capture _ _ now fun x hx => ?_).bind fun events hevents => ?_
        · cases hx
          obtain ⟨p, haccount, rfl⟩ := hs.exists_placed hopen
          exact exists_captured haccount
        · obtain ⟨x, hx, -, hcaptured⟩ := decidePostHold_eq_ok.mp hevents
          cases hx
          exact refuses_ok ⟨_, hsnap.numberLegs_eq (accountId_of_captured hcaptured)⟩
  have hrevert : ∀ c : Revert, call.request.command = .revert c →
      Refuses (revertLegs s.reads c (s.account c.accountId) call.request.commandId) := by
    intro c hc
    obtain ⟨states, hstates, hsnap⟩ := Store.foldOthers_eq hs
      (((s.setOf c.transferId).map EventRow.event).map AccountEvent.accountId)
      (snapshot_singleton c.accountId)
    have hmem : ∀ leg ∈ movementLegs ((s.setOf c.transferId).map EventRow.event),
        leg.accountId ∈ [c.accountId] ++
          ((s.setOf c.transferId).map EventRow.event).map AccountEvent.accountId :=
      fun leg hleg => List.mem_append_right _ (accountId_of_movementLegs hleg)
    rw [revertLegs, show s.reads.legsOf c.transferId = s.legsOf c.transferId from rfl,
      Store.legsOf_eq hs, ok_bind, hstates, ok_bind,
      show s.reads.revertedBy c.transferId = s.revertedBy c.transferId from rfl,
      Store.revertedBy_eq, ok_bind, ofExcept_eq_self]
    refine (refuses_revert _ (fun leg hleg => hsnap.complete _ (hmem leg hleg))
      fun hid hrevertible leg hfirst state hstate hcan => ?_).bind fun events hevents => ?_
    · have hlookup := hsnap.lookup (hmem leg (List.mem_of_mem_head? hfirst))
      rw [Option.mem_def.mp hstate, Option.some.injEq] at hlookup
      have honce := hrevertible.once
      rw [honce] at hrevertible
      refine hself c ⟨hc, hid, hrevertible, ?_, fun leg' hleg' => ?_⟩
      · rw [Store.revertedBy_eq, honce]
      · rw [Option.mem_unique hleg' hfirst, ← hlookup]
        exact hcan
    refine refuses_ok ⟨_, hsnap.numberLegs_eq fun e he => ?_⟩
    obtain ⟨leg, hleg, -, -, hmirror, -⟩ :=
      exists_of_mem_right (decideRevert_eq_ok.mp hevents).2 e he
    rw [hmirror.accountId]
    exact hmem leg hleg
  rw [decideLegs]
  cases hc : call.request.command with
  | deposit c =>
    simp only [ofExcept_eq_self]
    exact (refuses_deposit _ c).bind fun _ _ => refuses_ok ⟨_, rfl⟩
  | withdraw c =>
    simp only [ofExcept_eq_self]
    exact (refuses_withdraw _ c).bind fun _ _ => refuses_ok ⟨_, rfl⟩
  | transfer c => exact hpostings c.accountId c.legs c.validLegs
  | post c => exact hpostings c.accountId c.legs c.validLegs
  | hold c =>
    simp only [ofExcept_eq_self]
    refine (refuses_hold _ fun hroom hfunds => ?_).bind fun _ _ => refuses_ok ⟨_, rfl⟩
    by_contra hnone
    exact hexpiry c ⟨hc, hroom, hfunds, by rw [hnow]; simpa using hnone⟩
  | voidHold c => exact hrelease .void c
  | expireHold c => exact hrelease .expire c
  | postHold c => exact hcapture c
  | revert c => exact hrevert c hc

end Deciding

/-! ### The call -/

section Calls

variable {s : Store} {call : Call}

abbrev Call.decides (call : Call) (s : Store) : Except PyError (List (AccountEvent × Int)) :=
  decideLegs s.reads call.request (s.account call.request.command.accountId) (call.clock 0)

variable (hs : s.Readable) (hfresh : ∀ row ∈ s.results, row.commandId ≠ call.request.commandId)
  (hversion : call.request.command.expectedVersion =
    (s.account call.request.command.accountId).version)

include hs hfresh hversion

/-- **A domain error is persisted as a rejection.** -/
theorem execute_refused {error : DomainError} (hdecide : call.decides s = .error (.domain error)) :
    ∃ r, (execute s call).1 = .ok r := by
  have hfold := Store.foldStream_eq hs call.request.command.accountId
  have hread := decideLegs_run_error call (reading_opened hfold) hdecide
  have hattempt : (attempt domainErrorOf (decideLegs call.storage.toCommandReads call.request
      (s.account call.request.command.accountId) (call.clock 0))).run
      (call.opened s (s.account call.request.command.accountId)) = .ok (.inr error, _) :=
    run_attempt_inr.mpr ⟨.domain error, hread, rfl, rfl⟩
  obtain ⟨r, t', hpersisted, -⟩ := @persistedRejection_of call _ _ _
    (refusal_rejectionFor error) (s.account call.request.command.accountId) (call.clock 0)
    (call.opened s (s.account call.request.command.accountId)) hfresh
  have hrun := decision_run hfresh hfold hversion
  rw [run_bind_of hattempt] at hrun
  exact ⟨r, by rw [execute, hrun, hpersisted]⟩

/-- **Any other error of the decision is raised.** -/
theorem execute_raises {e : PyError} (he : domainErrorOf e = none)
    (hdecide : call.decides s = .error e) : (execute s call).1 = .error e := by
  have hfold := Store.foldStream_eq hs call.request.command.accountId
  have hread := decideLegs_run_error call (reading_opened hfold) hdecide
  have hattempt : (attempt domainErrorOf (decideLegs call.storage.toCommandReads call.request
      (s.account call.request.command.accountId) (call.clock 0))).run
      (call.opened s (s.account call.request.command.accountId)) = .error e := by
    rw [run_attempt_error hread, he]
  have hrun := decision_run hfresh hfold hversion
  rw [StateT.run_bind, hattempt, error_bind] at hrun
  rw [execute, hrun]

/-- **Legs are appended only where they have versions and apply.** -/
theorem execute_decided {legs : List (AccountEvent × Int)} (hdecide : call.decides s = .ok legs)
    {r : CommandResult} (h : (execute s call).1 = .ok r) :
    (∀ leg ∈ legs, 1 ≤ leg.2 ∧ leg.2 ≤ maxSignedBigint) ∧ s.Takes legs := by
  have hfold := Store.foldStream_eq hs call.request.command.accountId
  obtain ⟨t, hread, hdecides⟩ :=
    decideLegs_run_of call (reading_opened hfold) (knows_opened _) hdecide
  have hrun := decision_run hfresh hfold hversion
  rw [run_bind_of (run_attempt_ok hread)] at hrun
  dsimp only at hrun
  cases happend : (appendLegs call.storage call.request (call.clock 0)
      (Call.onSession call.eventIdFactory) legs [] none).run t with
  | ok p =>
    obtain ⟨p, t'⟩ := p
    obtain ⟨hlog, happlies⟩ := appendLegs_iff.mp ⟨t', happend, rfl⟩
    exact ⟨(appendLegs_run hlog).1,
      (Store.takes_iff hdecides.reading hdecides.knows).mpr happlies⟩
  | error e =>
    rw [StateT.run_bind, happend, error_bind] at hrun
    rw [execute, hrun] at h
    cases h

end Calls

/-! ### Every call -/

section Returning

variable {s : Store} {call : Call}

/-- The call returns an accepted result, a rejection that it persists, a replay or a
conflict of command ids. -/
def Returns (s : Store) (call : Call) : Prop :=
  ∃ r, (execute s call).1 = .ok r ∧ Executed s call r (next s call)

/-- A new command at the current version of its stream whose expiry or whose last version
cannot be represented, or whose reversal cannot be built or applied. -/
structure Overruns (s : Store) (call : Call) : Prop where
  fresh : ∀ row ∈ s.results, row.commandId ≠ call.request.commandId
  version : call.request.command.expectedVersion =
    (s.account call.request.command.accountId).version
  beyond : (∃ c, HoldOverruns s call c) ∨ (∃ c hold, CaptureOverruns s call c hold) ∨
    (∃ c, RevertsItself s call c) ∨ ∃ c, RevertOverruns s call c

/-- The event ids that the call is given are new, as far as it needs them. -/
def FreshIds (s : Store) (call : Call) : Prop :=
  ∀ events, Decided s call.request (call.clock 0) events → s.NewIds call.eventIds events.length

/-- A set whose mirrors are decided can be undone, but for a revert that overruns. -/
theorem undoes_of_decided {events : List AccountEvent} {c : Revert}
    (hrevert : ∀ c, ¬ RevertOverruns s call c) (command : call.request.command = .revert c)
    (revertible : Revertible (legsOfRows (s.setOf c.transferId)) c none)
    (once : s.revertedBy c.transferId = .ok none)
    (mirrored : List.Forall₂ (fun leg e => IsMirror leg call.request.commandId c.transferId e ∧
      Admits (s.account leg.accountId) e) (legsOfRows (s.setOf c.transferId)) events) :
    s.Undoes c.transferId := by
  have hmirrors : ∀ leg ∈ legsOfRows (s.setOf c.transferId),
      CanMirror (s.account leg.accountId) leg ∧ c.transferId ≠ call.request.commandId := by
    intro leg hleg
    obtain ⟨e, -, he⟩ := exists_of_mem_right mirrored.flip leg hleg
    exact exists_mirrorLeg_iff.mp ⟨e, mirrorLeg_eq_ok.mpr he⟩
  obtain ⟨leg, hleg⟩ := List.exists_mem_of_ne_nil _ revertible.ne_nil
  by_contra hstuck
  exact hrevert c ⟨command, (hmirrors leg hleg).2, revertible, once,
    fun leg hleg => (hmirrors leg hleg).1, hstuck⟩

/-- **Decided events have room**, but for a capture and a revert that overrun. -/
theorem hasRoom_of_decided {events : List AccountEvent}
    (hdecided : Decided s call.request (call.clock 0) events)
    (hcapture : ∀ c hold, ¬ CaptureOverruns s call c hold)
    (hrevert : ∀ c, ¬ RevertOverruns s call c) : s.HasRoom events := by
  cases hdecided with
  | deposit command admits =>
    exact hasRoom_of_nodup (List.nodup_singleton _) (List.forall_mem_singleton.mpr admits.version)
  | withdraw command admits =>
    exact hasRoom_of_nodup (List.nodup_singleton _) (List.forall_mem_singleton.mpr admits.version)
  | postings command admits posted =>
    refine hasRoom_of_nodup ?_ fun e he => (postings_admits posted admits e he).version
    rw [accountId_of_posted posted]
    exact (AccountCommand.validLegs command).1.nodup
  | @hold c placed command placement admits =>
    refine hasRoom_of_nodup (List.nodup_singleton _) (List.forall_mem_singleton.mpr ?_)
    rw [show (AccountEvent.holdPlaced placed).accountId = c.accountId from placement.accountId]
    exact admits.version
  | @release kind c hold released command found can releases =>
    refine hasRoom_of_nodup (List.nodup_singleton _) (List.forall_mem_singleton.mpr ?_)
    rw [show (AccountEvent.holdReleased released).accountId = c.accountId from releases.accountId]
    exact can.version
  | reversal command revertible once mirrored =>
    refine hasRoom_mirrored (mirrored.imp fun _ _ h => h.1) ?_
    exact undoes_of_decided hrevert command revertible once mirrored
  | @capture c hold events command found can captured =>
    cases captured with
    | @whole posted credited capture all =>
      have hposted : (AccountEvent.holdPosted posted).accountId = c.accountId := capture.accountId
      have hcredited : (AccountEvent.transferCredited credited).accountId = hold.counterparty :=
        capture.creditedAccount
      refine hasRoom_of_nodup ?_ ?_
      · rw [List.map_cons, List.map_singleton, hposted, hcredited]
        simpa using capture.account_ne
      · rw [List.forall_mem_cons, List.forall_mem_singleton, hposted, hcredited]
        exact ⟨can.sourceVersion, can.targetVersion⟩
    | part capture rest less =>
      intro a
      have hlast : (s.account c.accountId).version + 1 ≠ maxSignedBigint :=
        fun hlast => hcapture c hold ⟨command, found, can, less, hlast⟩
      have hsource := (s.account c.accountId).valid.version_le
      have htarget := (s.account hold.counterparty).valid.version_le
      have hne := can.sourceVersion
      have hne' := can.targetVersion
      have hle := (s.account a).valid.version_le
      rw [filter_part capture rest]
      split
      next ha =>
        rw [ha, List.length_cons, List.length_singleton]
        push_cast
        omega
      next =>
        split
        next hb =>
          rw [hb, List.length_singleton]
          push_cast
          omega
        next => simpa using hle

/-- **Decided events fold**, but for a capture and a revert that overrun. -/
theorem absorbs_of_decided (hs : s.Readable) {events : List AccountEvent}
    (hdecided : Decided s call.request (call.clock 0) events)
    (hcapture : ∀ c hold, ¬ CaptureOverruns s call c hold)
    (hrevert : ∀ c, ¬ RevertOverruns s call c) : s.Absorbs events := by
  have hroom := number_of_hasRoom (hasRoom_of_decided hdecided hcapture hrevert)
  cases hrequest : call.request.command with
  | revert c =>
    cases hdecided with
    | reversal command revertible once mirrored =>
      exact (absorbs_mirrored_iff hs (mirrored.imp fun _ _ h => h.1)).mpr
        (undoes_of_decided hrevert command revertible once mirrored)
    | deposit command | withdraw command | hold command | capture command | postings command
    | release command =>
      rw [hrequest] at command
      cases command
  | deposit | withdraw | transfer | post | hold | postHold | voidHold | expireHold =>
    refine hdecided.absorbs (fun leg hleg => (hroom leg hleg).2) fun c hc => ?_
    rw [hrequest] at hc
    cases hc

section Raising

variable (hs : s.Readable) (hfresh : ∀ row ∈ s.results, row.commandId ≠ call.request.commandId)
  (hversion : call.request.command.expectedVersion =
    (s.account call.request.command.accountId).version)

include hs hfresh hversion

theorem HoldOverruns.raises {c : Hold} (h : HoldOverruns s call c) :
    (execute s call).1 = .error .overflowError := by
  refine execute_raises hs hfresh hversion rfl ?_
  have hmatches := s.account_matches hs c.accountId
  have hdecide : decideHold (s.account c.accountId) c call.request.commandId (call.clock 0) =
      .error .overflowError := by
    rw [decideHold, require_bind_of hmatches, require_bind_of h.room, require_bind_of h.funds,
      h.expiry]
  rw [Call.decides, decideLegs]
  simp only [h.command, ofExcept_eq_self]
  rw [show (AccountCommand.hold c).accountId = c.accountId from rfl, hdecide, error_bind]

/-- A capture that needs a version more than there is does not return. -/
theorem CaptureOverruns.not_returns {c : PostHold} {hold : OpenHold}
    (h : CaptureOverruns s call c hold) (r : CommandResult) : (execute s call).1 ≠ .ok r := by
  intro hr
  obtain ⟨p, haccount, rfl⟩ := hs.exists_placed h.found
  obtain ⟨events, hcaptured⟩ := exists_captured (c := c) haccount
  have hdecided : Decided s call.request (call.clock 0) events :=
    .capture h.command h.found h.can hcaptured
  have hversions := (execute_decided hs hfresh hversion (decideLegs_of_decided hs hdecided) hr).1
  have hless := h.part
  cases hcaptured with
  | whole capture all => exact absurd hless all
  | @part posted credited released capture rest less =>
    have hfilter := s.filter_number [.holdPosted posted, .transferCredited credited,
      .holdReleased released] c.accountId
    rw [filter_part capture rest, if_pos rfl] at hfilter
    have hleg : (AccountEvent.holdReleased released, (s.account c.accountId).version + 1 + 1) ∈
        s.number [.holdPosted posted, .transferCredited credited, .holdReleased released] := by
      refine List.mem_of_mem_filter (p := fun leg => leg.1.accountId = c.accountId) ?_
      rw [hfilter]
      simp
    have hle := (hversions _ hleg).2
    have hlast := h.last
    simp only at hle
    omega

theorem RevertsItself.raises {c : Revert} (h : RevertsItself s call c) :
    (execute s call).1 = .error (.valueError "a reversal cannot revert itself") := by
  refine execute_raises hs hfresh hversion rfl ?_
  obtain ⟨states, hstates, hsnap⟩ := Store.foldOthers_eq hs
    (((s.setOf c.transferId).map EventRow.event).map AccountEvent.accountId)
    (snapshot_singleton c.accountId)
  have hdecide : decideRevert states ((s.setOf c.transferId).map EventRow.event) c
      call.request.commandId none = .error (.valueError "a reversal cannot revert itself") := by
    have hrevertible : requireRevertible (movementLegs ((s.setOf c.transferId).map EventRow.event))
        c none = .ok () := requireRevertible_eq_ok.mpr h.revertible
    have hfirst := h.first
    rw [decideRevert, hrevertible, ok_bind]
    cases hlegs : movementLegs ((s.setOf c.transferId).map EventRow.event) with
    | nil => exact absurd hlegs h.revertible.ne_nil
    | cons leg legs =>
      rw [legsOfRows, hlegs] at hfirst
      have hlookup : states.lookup leg.accountId = some (s.account leg.accountId) := by
        refine hsnap.lookup (List.mem_append_right _ (accountId_of_movementLegs ?_))
        rw [hlegs]
        exact List.mem_cons_self
      rw [List.mapM_cons, getItem_eq_ok.mpr hlookup, ok_bind, ← h.self,
        mirrorLeg_self (hfirst leg rfl), error_bind]
  rw [Call.decides, decideLegs]
  simp only [h.command]
  rw [revertLegs, show s.reads.legsOf c.transferId = s.legsOf c.transferId from rfl,
    Store.legsOf_eq hs, ok_bind, show (AccountCommand.revert c).accountId = c.accountId from rfl,
    hstates, ok_bind, show s.reads.revertedBy c.transferId = s.revertedBy c.transferId from rfl,
    h.once, ok_bind, ofExcept_eq_self, hdecide, error_bind]

/-- A revert of a set that cannot be undone does not return. -/
theorem RevertOverruns.not_returns {c : Revert} (h : RevertOverruns s call c) (r : CommandResult) :
    (execute s call).1 ≠ .ok r := by
  intro hr
  obtain ⟨events, hevents⟩ := exists_mapM_of_forall fun leg hleg =>
    exists_mirrorLeg_iff.mpr ⟨h.can leg hleg, h.other⟩
  have hmirrored : List.Forall₂ (fun leg e => IsMirror leg call.request.commandId c.transferId e ∧
      Admits (s.account leg.accountId) e) (legsOfRows (s.setOf c.transferId)) events :=
    (mapM_eq_ok.mp hevents).imp fun leg e he => mirrorLeg_eq_ok.mp he
  have hdecided : Decided s call.request (call.clock 0) events :=
    .reversal h.command h.revertible h.once hmirrored
  have htakes := (execute_decided hs hfresh hversion (decideLegs_of_decided hs hdecided) hr).2
  exact h.stuck ((absorbs_mirrored_iff hs (hmirrored.imp fun _ _ h => h.1)).mp
    ((Store.takes_number hs).mp htakes))

end Raising

theorem Overruns.not_returns (hs : s.Readable) (h : Overruns s call) (r : CommandResult) :
    (execute s call).1 ≠ .ok r := by
  rcases h.beyond with ⟨c, hhold⟩ | ⟨c, hold, hcapture⟩ | ⟨c, hself⟩ | ⟨c, hrevert⟩
  · rw [hhold.raises hs h.fresh h.version]
    exact fun h => nomatch h
  · exact hcapture.not_returns hs h.fresh h.version r
  · rw [hself.raises hs h.fresh h.version]
    exact fun h => nomatch h
  · exact hrevert.not_returns hs h.fresh h.version r

/-- **Every other call returns.** -/
theorem returns_of_fits (hs : s.Readable) (hfiled : s.Filed) (hids : FreshIds s call)
    (h : ¬ Overruns s call) : ∃ r, (execute s call).1 = .ok r := by
  have hfold := Store.foldStream_eq hs call.request.command.accountId
  rcases hfiled.storedResult_cases call.request.commandId with
    hnone | ⟨row, hrow, stored, hid, hkeeps, hstored⟩
  · have hfresh := Store.storedResult_eq_none.mp hnone
    by_cases hversion : call.request.command.expectedVersion =
        (s.account call.request.command.accountId).version
    · have hhold : ∀ c, ¬ HoldOverruns s call c :=
        fun c hc => h ⟨hfresh, hversion, .inl ⟨c, hc⟩⟩
      have hcapture : ∀ c hold, ¬ CaptureOverruns s call c hold :=
        fun c hold hc => h ⟨hfresh, hversion, .inr (.inl ⟨c, hold, hc⟩)⟩
      have hself : ∀ c, ¬ RevertsItself s call c :=
        fun c hc => h ⟨hfresh, hversion, .inr (.inr (.inl ⟨c, hc⟩))⟩
      have hrevert : ∀ c, ¬ RevertOverruns s call c :=
        fun c hc => h ⟨hfresh, hversion, .inr (.inr (.inr ⟨c, hc⟩))⟩
      cases hdecide : call.decides s with
      | ok legs =>
        obtain ⟨events, hdecided, -⟩ := (decideLegs_eq_ok hs).mp hdecide
        obtain ⟨r, hr, -⟩ := accepts_of_decided hs hfresh hversion hdecided
          (hasRoom_of_decided hdecided hcapture hrevert)
          (absorbs_of_decided hs hdecided hcapture hrevert) (hids events hdecided)
        exact ⟨r, hr⟩
      | error e =>
        obtain ⟨d, rfl⟩ := decideLegs_refuses hs hhold hself e hdecide
        exact execute_refused hs hfresh hversion hdecide
    · obtain ⟨r, hr, -⟩ := execute_behind hfold hversion hnone
      exact ⟨r, hr⟩
  · by_cases hhash : stored.requestHash = call.request.requestHash
    · exact ⟨stored, by rw [execute_replay hstored hhash]⟩
    · obtain ⟨r, hr, -⟩ := execute_conflict hfold hstored hhash
      exact ⟨r, by rw [hr]⟩

end Returning

/-- **Execution is total**, but for a hold whose expiry cannot be shown, a capture of a part that
needs a version more than there is, a revert of the set of its own id, and a revert of a set
whose legs cannot be undone one after another. -/
theorem execution_returns_iff (inputs : List LedgerInput) (call : Call)
    (hids : FreshIds (storeThrough inputs) call) :
    Returns (storeThrough inputs) call ↔ ¬ Overruns (storeThrough inputs) call := by
  have hs := readable_storeThrough inputs
  constructor
  · rintro ⟨r, hr, -⟩ hoverruns
    exact hoverruns.not_returns hs r hr
  · intro hfits
    obtain ⟨r, hr⟩ := returns_of_fits hs (filed_storeThrough inputs) hids hfits
    exact ⟨r, hr, executed_of_ok hs hr⟩

/-- A deposit under the id of the one whose result is pruned. -/
def depositReused : Call :=
  .of (.deposit ⟨"alice", 100, 1, validAccountId_alice, validAmount_hundred,
    validExpectedVersion_one⟩) ⟨1⟩ .epoch 20

/-- It returns. -/
theorem execution_returns_deposit : Returns (storeThrough [.call deposit100,
    .batch (dayAfterEpoch 1) ⟨5000, by decide⟩]) depositReused := by
  refine (execution_returns_iff _ depositReused fun events hdecided => ?_).mpr fun hoverruns => ?_
  · have hlength : events.length = 1 := by
      have hcommand : depositReused.request.command = .deposit ⟨"alice", 100, 1, by decide,
        by decide, by decide⟩ := Call.of_command _ _ _ _
      cases hdecided with
      | deposit => rfl
      | withdraw command | hold command | capture command | reversal command =>
        rw [hcommand] at command
        cases command
      | postings command | release command =>
        rw [hcommand] at command
        cases command
    rw [hlength]
    refine ⟨fun i hi => ?_, fun j hj i hij => by omega⟩
    obtain rfl : i = 0 := by omega
    decide +kernel
  · rcases hoverruns.beyond with ⟨c, h⟩ | ⟨c, hold, h⟩ | ⟨c, h⟩ | ⟨c, h⟩
    all_goals cases (Call.of_command _ _ _ _).symm.trans h.command

/-- **A time to live of `10 ^ 12` seconds** is admitted, and its hold raises. -/
theorem hold_expiry_raises :
    let hold := Call.of (.hold ⟨"alice", "bob", 50, 1, 1000000000000, by decide, by decide,
      by decide, by decide, by decide, by decide⟩) ⟨2⟩ .epoch 20
    (execute (storeThrough [.call deposit100]) hold).1 = .error .overflowError ∧
      ¬ Returns (storeThrough [.call deposit100]) hold := by
  intro hold
  have hraises : (execute (storeThrough [.call deposit100]) hold).1 = .error .overflowError := by
    have hcommand : hold.request.command = .hold ⟨"alice", "bob", 50, 1, 1000000000000, by decide,
      by decide, by decide, by decide, by decide, by decide⟩ := Call.of_command _ _ _ _
    refine HoldOverruns.raises (readable_storeThrough _) (by decide +kernel) ?_
      ⟨hcommand, by decide +kernel, by decide +kernel, by decide +kernel⟩
    rw [hcommand]
    decide +kernel
  refine ⟨hraises, fun ⟨r, hr, _⟩ => ?_⟩
  rw [hraises] at hr
  cases hr

end Cloudscale
