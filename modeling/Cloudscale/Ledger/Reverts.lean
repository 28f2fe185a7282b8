import Cloudscale.Ledger.Reachable

/-!
# Reverts

An accepted revert mirrors the movement legs of a set, one event for each
(`revert_mirrors`): on the same account, of the same amount, the other way, and
without touching a hold.  So it shifts every balance by the negation of what the
set moved.  The legs of a set do not change once it has any
(`legsOfRows_final`), and a reversal that is in the log refuses the next one, so
a set is reverted at most once.
-/

namespace Cloudscale

open Checked Python DoubleEntry Account

/-- What a set moved an account by. -/
def Store.effect (s : Store) (t : UUID) (a : String) : Int :=
  posted (fun r => r.event.accountId) (fun r => r.event.balanceDelta) (s.setOf t) a

/-- The call is an accepted revert of the set. -/
def RevertsSet (s : Store) (call : Call) (t : UUID) : Prop :=
  Accepts s call ∧ ∃ c, call.request.command = .revert c ∧ c.transferId = t

/-- The event is the mirror of the leg. -/
structure Mirrors (leg : MovementLeg) (e : AccountEvent) : Prop where
  accountId : e.accountId = leg.accountId
  amount : e.amount = leg.amount
  sign : e.balanceSign = -leg.balanceSign
  heldSign : e.heldSign = 0

/-- The events are the mirrors of the legs, in some order. -/
def MirrorsAll (legs : List MovementLeg) (events : List AccountEvent) : Prop :=
  ∃ mirrored, List.Forall₂ Mirrors legs mirrored ∧ events.Perm mirrored

theorem Account.IsMirror.mirrors {leg : MovementLeg} {id reverts : UUID} {e : AccountEvent}
    (h : IsMirror leg id reverts e) : Mirrors leg e := by
  refine ⟨h.accountId, h.amount, ?_, ?_⟩
  · cases h with
    | debit received =>
      cases leg with
      | transferCredited | reversalCredited => rfl
      | transferDebited | holdPosted | reversalDebited =>
        exact absurd received (show ¬ (0 : Int) < -1 by decide)
    | credit paid =>
      cases leg with
      | transferDebited | holdPosted | reversalDebited => rfl
      | transferCredited | reversalCredited => exact absurd (show (0 : Int) < 1 by decide) paid
  · cases h <;> rfl

/-! ### Legs and what they move -/

/-- What is no movement leg moves no balance, within a set. -/
theorem balanceDelta_of_movementLeg_none {e : AccountEvent} {t : UUID} (hid : e.setId = some t)
    (h : movementLeg? e = none) : e.balanceDelta = 0 := by
  cases e with
  | holdPlaced => simp
  | holdReleased => simp
  | deposited | withdrawn => cases hid
  | transferDebited | transferCredited | holdPosted | reversalDebited | reversalCredited => cases h

/-- **A set moves what its movement legs move.** -/
theorem effect_eq_posted_legs (s : Store) (t : UUID) (a : String) : s.effect t a =
    posted MovementLeg.accountId (fun leg => leg.toEvent.balanceDelta)
      (legsOfRows (s.setOf t)) a := by
  have hid : ∀ r ∈ s.setOf t, r.event.setId = some t := fun r hr => Store.setId_of_mem hr
  rw [Store.effect]
  generalize s.setOf t = rows at hid
  induction rows with
  | nil => rfl
  | cons r rows ih =>
    rw [List.forall_mem_cons] at hid
    have hrest := ih hid.2
    rw [legsOfRows, movementLegs] at hrest ⊢
    rw [List.map_cons, posted_cons, hrest]
    cases hleg : movementLeg? r.event with
    | none =>
      rw [List.filterMap_cons_none hleg, balanceDelta_of_movementLeg_none hid.1 hleg, ite_self,
        zero_add]
    | some leg =>
      rw [List.filterMap_cons_some hleg, posted_cons, MovementLeg.accountId,
        toEvent_of_movementLeg hleg]

theorem posted_mirrored {legs : List MovementLeg} {id reverts : UUID} {events : List AccountEvent}
    {P : MovementLeg → AccountEvent → Prop}
    (h : List.Forall₂ (fun leg e => IsMirror leg id reverts e ∧ P leg e) legs events) (a : String) :
    posted AccountEvent.accountId AccountEvent.balanceDelta events a =
      -posted MovementLeg.accountId (fun leg => leg.toEvent.balanceDelta) legs a := by
  induction h with
  | nil => rfl
  | cons he _ ih =>
    rw [posted_cons, posted_cons, ih, he.1.accountId, he.1.balanceDelta]
    split <;> omega

theorem heldDelta_mirrored {legs : List MovementLeg} {id reverts : UUID}
    {events : List AccountEvent} {P : MovementLeg → AccountEvent → Prop}
    (h : List.Forall₂ (fun leg e => IsMirror leg id reverts e ∧ P leg e) legs events) :
    ∀ e ∈ events, e.heldDelta = 0 := by
  intro e he
  obtain ⟨leg, -, hleg, -⟩ := exists_of_mem_right h e he
  exact hleg.heldDelta

/-! ### One revert -/

section Revert

variable {s : Store} {call : Call} {t : UUID}

/-- **An accepted revert writes the mirror of the set**, under its own id. -/
theorem RevertsSet.rows (hs : s.Readable) (h : RevertsSet s call t) :
    ∃ events row, next s call =
        ⟨s.events ++ legRows call.request (call.clock 0) call.eventIds 0 (s.number events),
          s.results ++ [row]⟩ ∧
      Decided s call.request (call.clock 0) events ∧ s.revertedBy t = .ok none ∧
      legsOfRows (s.setOf t) ≠ [] ∧
      List.Forall₂ (fun leg e => IsMirror leg call.request.commandId t e ∧
        Admits (s.account leg.accountId) e) (legsOfRows (s.setOf t)) events := by
  obtain ⟨haccepts, c, hc, rfl⟩ := h
  obtain ⟨events, row, -, hdecided, -, hnext⟩ := haccepts.decided hs
  refine ⟨events, row, hnext, hdecided, ?_⟩
  cases hdecided with
  | reversal command revertible once mirrored =>
    rw [hc] at command
    cases command
    exact ⟨once, revertible.ne_nil, mirrored⟩
  | postings command => rw [hc] at command; cases command
  | release command => rw [hc] at command; cases command
  | deposit command | withdraw command | hold command | capture command =>
    rw [hc] at command
    cases command

theorem posted_legRows (delta : AccountEvent → Int) (events : List AccountEvent) (a : String) :
    posted (fun r : EventRow => r.event.accountId) (fun r => delta r.event)
      (legRows call.request (call.clock 0) call.eventIds 0 (s.number events)) a =
      posted AccountEvent.accountId delta events a := by
  have hmap : ∀ rows : List EventRow,
      posted (fun r : EventRow => r.event.accountId) (fun r => delta r.event) rows a =
        posted AccountEvent.accountId delta (rows.map EventRow.event) a := by
    intro rows
    induction rows with
    | nil => rfl
    | cons r rows ih => rw [List.map_cons, posted_cons, posted_cons, ih]
  rw [hmap]
  exact posted_perm (perm_legRows _ _ _ s events) a

/-- **An accepted revert shifts every balance by the negation of the set's effect**,
and no held amount. -/
theorem RevertsSet.shifts (hs : s.Ledger) (h : RevertsSet s call t) (a : String) :
    ((next s call).account a).balance = (s.account a).balance - s.effect t a ∧
      ((next s call).account a).held = (s.account a).held := by
  obtain ⟨events, row, hnext, -, -, -, hmirrored⟩ := h.rows hs.coherent.readable
  have hreadable : (next s call).Readable := hs.next.coherent.readable
  have hevents : (next s call).events =
      s.events ++ legRows call.request (call.clock 0) call.eventIds 0 (s.number events) := by
    rw [hnext]
  constructor
  · rw [Store.account_balance hreadable, Store.account_balance hs.coherent.readable, hevents,
      posted_append, posted_legRows AccountEvent.balanceDelta, posted_mirrored hmirrored,
      effect_eq_posted_legs]
    omega
  · rw [Store.account_held hreadable, Store.account_held hs.coherent.readable, hevents,
      posted_append, posted_legRows AccountEvent.heldDelta,
      posted_of_forall_zero (heldDelta_mirrored hmirrored) a, add_zero]

theorem RevertsSet.mirrors (hs : s.Readable) (h : RevertsSet s call t) :
    MirrorsAll (legsOfRows (s.setOf t)) ((appended s call).map EventRow.event) := by
  obtain ⟨events, row, hnext, -, -, -, hmirrored⟩ := h.rows hs
  rw [appended_of_accepted (congrArg Store.events hnext)]
  exact ⟨events, hmirrored.imp (fun leg e he => he.1.mirrors), perm_legRows _ _ _ s events⟩

end Revert

/-! ### Runs -/

theorem storeAfter_cons (before : List Call) (call : Call) (mid : List Call) :
    storeAfter (before ++ call :: mid) =
      Runs.run next (next (storeAfter before) call) mid := by
  rw [storeAfter_append, Runs.run_cons]

theorem legsOfRows_append (rows rows' : List EventRow) :
    legsOfRows (rows ++ rows') = legsOfRows rows ++ legsOfRows rows' := by
  rw [legsOfRows, legsOfRows, legsOfRows, movementLegs, List.map_append, List.filterMap_append]
  rfl

/-- A call adds no leg to a set that has one. -/
theorem legsOfRows_next {s : Store} (hs : s.Ledger) (call : Call) {t : UUID}
    (hne : legsOfRows (s.setOf t) ≠ []) :
    legsOfRows ((next s call).setOf t) = legsOfRows (s.setOf t) := by
  have hset : (next s call).setOf t =
      s.setOf t ++ (appended s call).filter (fun r => r.event.setId = some t) := by
    rw [Store.setOf, next_events hs.coherent.readable, List.filter_append]
    rfl
  rw [hset, legsOfRows_append]
  refine List.append_right_eq_self.mpr (List.filterMap_eq_nil_iff.mpr fun e he => ?_)
  obtain ⟨y, hy, rfl⟩ := List.mem_map.mp he
  obtain ⟨hy, hyid⟩ := List.mem_filter.mp hy
  obtain ⟨leg, hleg⟩ := List.exists_mem_of_ne_nil _ hne
  obtain ⟨e, hev, hsome⟩ := List.mem_filterMap.mp hleg
  obtain ⟨x, hx, rfl⟩ := List.mem_map.mp hev
  by_contra hsomey
  have hxid := Store.setId_of_mem hx
  have hyid' : y.event.setId = some t := of_decide_eq_true hyid
  refine appended_excludes hs.coherent (hs.opening call) x ((s.setOf_sublist t).subset hx) y hy
    ⟨by rw [hxid]; simp, by rw [hxid, hyid'], Or.inl ⟨?_, Option.isSome_iff_ne_none.mpr hsomey⟩⟩
  rw [hsome]
  rfl

/-- **The legs of a set are final** once it has any. -/
theorem legsOfRows_final {t : UUID} : ∀ (calls : List Call) {s : Store}, s.Ledger →
    legsOfRows (s.setOf t) ≠ [] →
    legsOfRows ((Runs.run next s calls).setOf t) = legsOfRows (s.setOf t) := by
  intro calls
  induction calls with
  | nil => intro s _ _; rfl
  | cons call calls ih =>
    intro s hs hne
    have hstep := legsOfRows_next hs call hne
    rw [Runs.run_cons, ih hs.next (by rw [hstep]; exact hne), hstep]

theorem mem_events_run {r : EventRow} : ∀ (calls : List Call) {s : Store}, s.Ledger →
    r ∈ s.events → r ∈ (Runs.run next s calls).events := by
  intro calls
  induction calls with
  | nil => intro s _ hr; exact hr
  | cons call calls ih =>
    intro s hs hr
    refine ih hs.next ?_
    rw [next_events hs.coherent.readable]
    exact List.mem_append_left _ hr

/-- **A set is reverted at most once.** -/
theorem RevertsSet.once {before mid : List Call} {call call' : Call} {t : UUID}
    (h : RevertsSet (storeAfter before) call t) :
    ¬ RevertsSet (storeAfter (before ++ call :: mid)) call' t := by
  intro h'
  have hs := ledger_storeAfter before
  obtain ⟨events, row, hnext, -, -, hne, hmirrored⟩ := h.rows hs.coherent.readable
  obtain ⟨-, -, -, -, honce, -⟩ := h'.rows (ledger_storeAfter _).coherent.readable
  rw [Store.revertedBy_eq_none] at honce
  -- The set has a leg, so the reversal has a row that names the set.
  have hevents : events ≠ [] := by
    rintro rfl
    exact hne (List.forall₂_nil_right_iff.mp hmirrored)
  obtain ⟨e, he⟩ := List.exists_mem_of_ne_nil _ hevents
  obtain ⟨leg, -, hleg, -⟩ := exists_of_mem_right hmirrored e he
  obtain ⟨r, hr, rfl⟩ := List.mem_map.mp ((perm_legRows call.request (call.clock 0) call.eventIds
    (storeAfter before) events).mem_iff.mpr he)
  have hmem : r ∈ (next (storeAfter before) call).events := by
    rw [hnext]
    exact List.mem_append_right _ hr
  refine honce r ?_ hleg.isLeg.2.2
  rw [storeAfter_cons]
  exact mem_events_run mid hs.next hmem

theorem RevertsSet.effect_reversal {s : Store} {call : Call} {t : UUID} (hs : s.Ledger)
    (h : RevertsSet s call t) (mid : List Call) (a : String) :
    (Runs.run next (next s call) mid).effect call.request.commandId a = -s.effect t a := by
  obtain ⟨⟨hfresh, -⟩, c, hc, rfl⟩ := id h
  obtain ⟨events, row, hnext, hdecided, -, hne, hmirrored⟩ := h.rows hs.coherent.readable
  have hopens : call.request.command.Opens := by
    rw [hc]
    trivial
  have hnew : s.setOf call.request.commandId = [] := by
    refine setOf_eq_nil fun r hr hid => ?_
    obtain ⟨row, hrow, heq⟩ := hs.recorded r hr _ hid
    exact hfresh row hrow heq
  have hset : (next s call).setOf call.request.commandId =
      legRows call.request (call.clock 0) call.eventIds 0 (s.number events) := by
    rw [hnext, setOf_append hdecided, if_pos (NormalizedCommand.setId_of_opens hopens), hnew,
      List.nil_append]
  have heffect : (next s call).effect call.request.commandId a = -s.effect c.transferId a := by
    rw [Store.effect, hset, posted_legRows AccountEvent.balanceDelta, posted_mirrored hmirrored,
      effect_eq_posted_legs]
  have hlegs : legsOfRows ((next s call).setOf call.request.commandId) ≠ [] := by
    intro hnil
    have hall : ∀ r ∈ (next s call).setOf call.request.commandId, r.event.IsLeg := by
      rw [hset]
      intro r hr
      obtain ⟨leg, -, hleg, -⟩ := exists_of_mem_right hmirrored _
        ((perm_legRows _ _ _ s events).mem_iff.mp (List.mem_map_of_mem (f := EventRow.event) hr))
      exact hleg.isLeg.1
    have hmap := map_toEvent_legsOfRows hall
    rw [hnil, hset] at hmap
    have hevents := (perm_legRows call.request (call.clock 0) call.eventIds s events)
    rw [← hmap] at hevents
    rw [List.nil_perm.mp hevents] at hmirrored
    exact hne (List.forall₂_nil_right_iff.mp hmirrored)
  rw [effect_eq_posted_legs, legsOfRows_final mid hs.next hlegs, ← effect_eq_posted_legs, heffect]

/-- **A set is reverted at most once and exactly.** An accepted revert mirrors the
movement legs of its set, one for one, as they are then and ever after; it shifts
every balance by the negation of the set's effect and no held amount; no later
revert of the set is accepted; and a revert of the reversal shifts it back. -/
theorem revert_once_and_exactly (before : List Call) (call : Call) (t : UUID)
    (h : RevertsSet (storeAfter before) call t) (mid : List Call) :
    MirrorsAll (legsOfRows ((storeAfter (before ++ call :: mid)).setOf t))
        ((appended (storeAfter before) call).map EventRow.event) ∧
      (∀ a, ((next (storeAfter before) call).account a).balance =
          ((storeAfter before).account a).balance - (storeAfter before).effect t a ∧
        ((next (storeAfter before) call).account a).held =
          ((storeAfter before).account a).held) ∧
      (∀ call', ¬ RevertsSet (storeAfter (before ++ call :: mid)) call' t) ∧
      ∀ call', RevertsSet (storeAfter (before ++ call :: mid)) call' call.request.commandId →
        ∀ a, ((next (storeAfter (before ++ call :: mid)) call').account a).balance =
          ((storeAfter (before ++ call :: mid)).account a).balance +
            (storeAfter before).effect t a := by
  have hs := ledger_storeAfter before
  obtain ⟨-, -, -, -, -, hne, -⟩ := h.rows hs.coherent.readable
  refine ⟨?_, fun a => h.shifts hs a, fun call' => h.once, fun call' h' a => ?_⟩
  · rw [storeAfter_cons, legsOfRows_final mid hs.next, legsOfRows_next hs call hne]
    · exact h.mirrors hs.coherent.readable
    · rw [legsOfRows_next hs call hne]
      exact hne
  · rw [(h'.shifts (ledger_storeAfter _) a).1]
    rw [storeAfter_cons, h.effect_reversal hs mid a]
    omega

/-- A transfer of 30 is reverted: the sender has its 100 again. -/
theorem revert_once_and_exactly_transfer :
    let deposit := Call.of (.deposit ⟨"alice", 100, 0, by decide, by decide, by decide⟩) ⟨1⟩
      .epoch 10
    let transfer := Call.of (.transfer ⟨"alice", "bob", 30, 1, by decide, by decide, by decide,
      by decide, by decide⟩) ⟨2⟩ .epoch 20
    let revert := Call.of (.revert ⟨"alice", ⟨2⟩, 2, by decide, by decide⟩) ⟨3⟩ .epoch 30
    ((next (storeAfter [deposit, transfer]) revert).account "alice").balance =
      ((storeAfter [deposit, transfer]).account "alice").balance -
        (storeAfter [deposit, transfer]).effect ⟨2⟩ "alice" := by
  intro deposit transfer revert
  have haccepts : Accepts (storeAfter [deposit, transfer]) revert := by decide +kernel
  have hreverts : RevertsSet (storeAfter [deposit, transfer]) revert ⟨2⟩ :=
    ⟨haccepts, _, Call.of_command _ _ _ _, rfl⟩
  clear_value deposit transfer revert
  exact ((revert_once_and_exactly [deposit, transfer] revert ⟨2⟩ hreverts []).2.1 "alice").1

end Cloudscale
