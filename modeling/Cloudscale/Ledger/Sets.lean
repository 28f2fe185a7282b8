import Cloudscale.Ledger.Log

/-!
# Sets and holds in the log

The rows that share a transfer id are a set of movement legs or the life of one
hold.  `SetShape` lists what they can be: legs on different accounts that balance
(or no rows yet), a hold that was placed, one that was released as a whole, or
one that was captured, in whole or in part with the rest released.

A store is `Coherent` when it is readable and every id has a shape.  From the
shape of its rows one reads off what a hold and a set are: a hold is open just
when its placement is all there is (`openHoldFromEvents_eq_some`), what an id reserves on
an account is the amount of its open hold (`posted_held_eq`), and the movement
legs of a set are on different accounts and balance (`SetShape.legs_nodup`,
`SetShape.legs_balanced`).
-/

namespace Cloudscale

open Checked Python DoubleEntry

/-! ### Shapes -/

/-- The event moves money and touches no hold. -/
def AccountEvent.IsLeg : AccountEvent → Prop
  | .transferDebited _ | .transferCredited _ | .reversalDebited _ | .reversalCredited _ => True
  | _ => False

def HoldPlaced.expiry (p : HoldPlaced) : Datetime := (expiryOf p.expiresAt).get p.expires_ok.utc

/-- The rest of a hold after a capture: nothing, or its release right after. -/
inductive Rest (p : HoldPlaced) (captured seq : Int) : List EventRow → Prop
  | whole (all : captured = p.amount) : Rest p captured seq []
  | part {r : EventRow} {x : HoldReleased} (event : r.event = .holdReleased x)
      (account : x.accountId = p.accountId) (amount : captured + x.amount = p.amount)
      (reason : x.reason = .partialCapture) (next : r.seq = seq + 1) : Rest p captured seq [r]

/-- The rows of a capture of the hold: its debit, its credit and its rest. -/
structure Settles (p : HoldPlaced) (rows : List EventRow) (posted credited : EventRow)
    (rest : List EventRow) (q : HoldPosted) (c : TransferLeg) : Prop where
  posts : posted.event = .holdPosted q
  credits : credited.event = .transferCredited c
  postedAccount : q.accountId = p.accountId
  creditedAccount : c.accountId = p.counterparty
  amount : c.amount = q.amount
  unexpired : posted.occurredAt < p.expiry
  closes : Rest p q.amount posted.seq rest
  perm : rows.Perm (posted :: credited :: rest)
  order : rows.filter (fun r => r.event.accountId = p.accountId) = posted :: rest

/-- The event closes the hold as a whole. -/
structure Releases (p : HoldPlaced) (released : EventRow) (x : HoldReleased) : Prop where
  event : released.event = .holdReleased x
  account : x.accountId = p.accountId
  amount : x.amount = p.amount
  reason : x.reason ≠ .partialCapture
  expired : x.reason = .expired → p.expiry ≤ released.occurredAt

/-- **What the rows of one id can be.** -/
inductive SetShape : List EventRow → Prop
  | movement {rows : List EventRow} (legs : ∀ r ∈ rows, r.event.IsLeg)
      (accounts : (rows.map (fun r => r.event.accountId)).Nodup)
      (balanced : moved (fun r => r.event.balanceDelta) rows = 0) : SetShape rows
  | placed {r : EventRow} {p : HoldPlaced} (event : r.event = .holdPlaced p) : SetShape [r]
  | released {r r' : EventRow} {p : HoldPlaced} {x : HoldReleased} (event : r.event = .holdPlaced p)
      (releases : Releases p r' x) : SetShape [r, r']
  | captured {r posted credited : EventRow} {p : HoldPlaced} {rows rest : List EventRow}
      {q : HoldPosted} {c : TransferLeg} (event : r.event = .holdPlaced p)
      (settles : Settles p rows posted credited rest q c) : SetShape (r :: rows)

theorem SetShape.unused : SetShape [] := .movement (fun _ h => nomatch h) List.nodup_nil rfl

/-- A store whose reads are sound and whose ids have a shape. -/
structure Store.Coherent (s : Store) : Prop where
  readable : s.Readable
  shapes : ∀ t, SetShape (s.setOf t)

theorem Store.coherent_empty : Coherent .empty := ⟨readable_empty, fun _ => SetShape.unused⟩

theorem Store.setId_of_mem {s : Store} {t : UUID} {r : EventRow} (h : r ∈ s.setOf t) :
    r.event.setId = some t := by
  simpa using (List.mem_filter.mp h).2

/-! ### Holds -/

open Account

theorem AccountEvent.IsLeg.holdEvent {e : AccountEvent} (h : e.IsLeg) : holdEvent? e = none := by
  cases e <;> first | rfl | cases h

theorem AccountEvent.IsLeg.heldDelta {e : AccountEvent} (h : e.IsLeg) : e.heldDelta = 0 := by
  cases e with
  | transferDebited | transferCredited | reversalDebited | reversalCredited => simp
  | deposited | withdrawn | holdPlaced | holdReleased | holdPosted => cases h

def openHoldOf (p : HoldPlaced) : OpenHold :=
  ⟨p.holdId, p.amount, p.counterparty, p.expiresAt, p.expires_ok⟩

/-- The hold events of the rows on one account. -/
def holdEventsOn (rows : List EventRow) (a : String) : List HoldEvent :=
  ((rows.filter (fun r => r.event.accountId = a)).map EventRow.event).filterMap holdEvent?

theorem Settles.counterparty_ne {p : HoldPlaced} {rows rest : List EventRow}
    {posted credited : EventRow} {q : HoldPosted} {c : TransferLeg}
    (h : Settles p rows posted credited rest q c) : credited.event.accountId ≠ p.accountId := by
  rw [h.credits, show (AccountEvent.transferCredited c).accountId = p.counterparty from
    h.creditedAccount]
  exact p.counterparty_ne

theorem Settles.posted_account {p : HoldPlaced} {rows rest : List EventRow}
    {posted credited : EventRow} {q : HoldPosted} {c : TransferLeg}
    (h : Settles p rows posted credited rest q c) : posted.event.accountId = p.accountId := by
  rw [h.posts]
  exact h.postedAccount

theorem Settles.filter_of_ne {p : HoldPlaced} {rows rest : List EventRow}
    {posted credited : EventRow} {q : HoldPosted} {c : TransferLeg}
    (h : Settles p rows posted credited rest q c) {a : String} (ha : p.accountId ≠ a) :
    rows.filter (fun r => r.event.accountId = a) =
      [credited].filter (fun r => r.event.accountId = a) := by
  have hrest : ∀ r ∈ rest, r.event.accountId = p.accountId := by
    intro r hr
    cases h.closes with
    | whole => cases hr
    | part event account =>
      rw [List.mem_singleton.mp hr, event]
      exact account
  have hperm := h.perm.filter (fun r => r.event.accountId = a)
  have hnil : rest.filter (fun r => r.event.accountId = a) = [] :=
    List.filter_eq_nil_iff.mpr fun r hr => by simpa [hrest r hr] using ha
  rw [List.filter_cons_of_neg (by simpa [h.posted_account] using ha), List.filter_cons, hnil]
    at hperm
  rw [List.filter_cons, List.filter_nil]
  split at hperm
  next hself =>
    rw [if_pos hself]
    exact List.perm_singleton.mp hperm
  next hother =>
    rw [if_neg hother]
    exact List.perm_nil.mp hperm

theorem holdEventsOn_of_ne {rows : List EventRow} {a : String}
    (h : ∀ r ∈ rows, r.event.accountId = a → holdEvent? r.event = none) :
    holdEventsOn rows a = [] := by
  rw [holdEventsOn, List.filterMap_eq_nil_iff]
  intro e he
  obtain ⟨r, hr, rfl⟩ := List.mem_map.mp he
  obtain ⟨hr, ha⟩ := List.mem_filter.mp hr
  exact h r hr (by simpa using ha)

/-- **A hold is open just when its placement is all there is.** -/
theorem openHoldFromEvents_eq_some {t : UUID} {rows : List EventRow} (hshape : SetShape rows)
    (hid : ∀ r ∈ rows, r.event.setId = some t) {a : String} {hold : OpenHold} :
    openHoldFromEvents t (holdEventsOn rows a) = some hold ↔
      ∃ r p, rows = [r] ∧ r.event = .holdPlaced p ∧ p.accountId = a ∧ hold = openHoldOf p := by
  cases hshape with
  | movement legs =>
    rw [holdEventsOn_of_ne fun r hr _ => (legs r hr).holdEvent]
    refine ⟨(fun h => by cases h), ?_⟩
    rintro ⟨r, p, rfl, hp, -⟩
    have := legs r List.mem_cons_self
    rw [hp] at this
    cases this
  | @placed r p event =>
    have hp : p.holdId = t := by
      have := hid r List.mem_cons_self
      rw [event] at this
      exact Option.some.inj this
    by_cases ha : p.accountId = a
    · have hevents : holdEventsOn [r] a = [.placed p] := by
        simp [holdEventsOn, event, AccountEvent.accountId, ha, holdEvent?]
      rw [hevents]
      simp only [openHoldFromEvents, scanHold, HoldEvent.holdId, hp, ne_eq, not_true_eq_false,
        if_false, Option.map_some, Option.some.injEq]
      constructor
      · rintro rfl
        exact ⟨r, p, rfl, event, ha, by rw [openHoldOf, hp]⟩
      · rintro ⟨r', p', hr, hp', -, rfl⟩
        cases hr
        rw [event] at hp'
        cases hp'
        rw [openHoldOf, hp]
    · rw [holdEventsOn_of_ne]
      · refine ⟨(fun h => by cases h), ?_⟩
        rintro ⟨r', p', hr, hp', ha', -⟩
        cases hr
        rw [event] at hp'
        cases hp'
        exact absurd ha' ha
      · intro r' hr' ha'
        rw [List.mem_singleton.mp hr', event] at ha'
        exact absurd ha' ha
  | @released r r' p x event releases =>
    have hp : p.holdId = t := by
      have := hid r List.mem_cons_self
      rw [event] at this
      exact Option.some.inj this
    have hx : x.holdId = t := by
      have := hid r' (by simp)
      rw [releases.event] at this
      exact Option.some.inj this
    refine ⟨fun h => ?_, by rintro ⟨_, _, h, -⟩; cases h⟩
    by_cases ha : p.accountId = a
    · have hevents : holdEventsOn [r, r'] a = [.placed p, .released x] := by
        simp [holdEventsOn, event, releases.event, AccountEvent.accountId, ha, releases.account,
          holdEvent?]
      rw [hevents] at h
      simp [openHoldFromEvents, scanHold, HoldEvent.holdId, hp, hx, releases.reason] at h
    · rw [holdEventsOn_of_ne] at h
      · cases h
      · intro r'' hr'' ha''
        simp only [List.mem_cons, List.not_mem_nil, or_false] at hr''
        rcases hr'' with rfl | rfl
        · rw [event] at ha''
          exact absurd ha'' ha
        · rw [releases.event, show (AccountEvent.holdReleased x).accountId = p.accountId from
            releases.account] at ha''
          exact absurd ha'' ha
  | @captured r posted credited p rows rest q c event settles =>
    have hp : p.holdId = t := by
      have := hid r List.mem_cons_self
      rw [event] at this
      exact Option.some.inj this
    have hq : q.holdId = t := by
      have := hid posted (List.mem_cons_of_mem r (settles.perm.mem_iff.mpr List.mem_cons_self))
      rw [settles.posts] at this
      exact Option.some.inj this
    constructor
    · intro h
      by_cases ha : p.accountId = a
      · subst ha
        have hevents : ∃ more, holdEventsOn (r :: rows) p.accountId =
            .placed p :: .posted q :: more := by
          refine ⟨(rest.map EventRow.event).filterMap holdEvent?, ?_⟩
          rw [holdEventsOn, List.filter_cons_of_pos (by rw [event]; simp [AccountEvent.accountId]),
            settles.order]
          simp [event, settles.posts, holdEvent?]
        obtain ⟨more, hmore⟩ := hevents
        rw [hmore] at h
        simp [openHoldFromEvents, scanHold, HoldEvent.holdId, hp, hq] at h
      · have hfilter : (r :: rows).filter (fun r => r.event.accountId = a) =
            [credited].filter (fun r => r.event.accountId = a) := by
          rw [List.filter_cons_of_neg, settles.filter_of_ne ha]
          exact fun hself => ha (by simpa [event, AccountEvent.accountId] using hself)
        have hnone : holdEventsOn (r :: rows) a = [] := by
          rw [holdEventsOn, hfilter]
          refine holdEventsOn_of_ne fun r' hr' _ => ?_
          rw [List.mem_singleton.mp hr', settles.credits]
          rfl
        rw [hnone] at h
        cases h
    · rintro ⟨_, _, h, -⟩
      have hrows : rows = [] := (List.cons.inj h).2
      have hperm := settles.perm
      rw [hrows] at hperm
      exact absurd hperm.symm (List.not_perm_cons_nil)

/-- **What an id reserves on an account is the amount of its open hold.** -/
theorem posted_held_eq {t : UUID} {rows : List EventRow} (hshape : SetShape rows)
    (hid : ∀ r ∈ rows, r.event.setId = some t) (a : String) :
    posted (fun r => r.event.accountId) (fun r => r.event.heldDelta) rows a =
      ((openHoldFromEvents t (holdEventsOn rows a)).map OpenHold.amount).getD 0 := by
  cases hopen : openHoldFromEvents t (holdEventsOn rows a) with
  | some hold =>
    obtain ⟨r, p, rfl, hp, ha, rfl⟩ := (openHoldFromEvents_eq_some hshape hid).mp hopen
    rw [posted_cons, posted_nil, hp, if_pos (show (AccountEvent.holdPlaced p).accountId = a from ha),
      AccountEvent.heldDelta_holdPlaced, add_zero]
    rfl
  | none =>
    have hne : ∀ r p, rows = [r] → r.event = .holdPlaced p → p.accountId ≠ a := by
      intro r p hrows hp ha
      rw [(openHoldFromEvents_eq_some hshape hid).mpr ⟨r, p, hrows, hp, ha, rfl⟩] at hopen
      cases hopen
    cases hshape with
    | movement legs => exact posted_of_forall_zero (fun r hr => (legs r hr).heldDelta) a
    | @placed r p event =>
      rw [posted_cons, posted_nil, event]
      exact congrArg (· + 0) (if_neg (hne r p rfl event))
    | @released r r' p x event releases =>
      rw [posted_cons, posted_cons, posted_nil, event, releases.event,
        AccountEvent.heldDelta_holdPlaced, AccountEvent.heldDelta_holdReleased, releases.amount,
        show (AccountEvent.holdPlaced p).accountId = p.accountId from rfl,
        show (AccountEvent.holdReleased x).accountId = p.accountId from releases.account]
      split <;> simp
    | @captured r posted credited p rows rest q c event settles =>
      by_cases ha : p.accountId = a
      · subst ha
        have hrest : (rest.map (fun r => r.event.heldDelta)).sum = q.amount - p.amount := by
          cases settles.closes with
          | whole all => rw [all, sub_self]; rfl
          | part event account amount =>
            rw [List.map_singleton, List.sum_singleton, event, AccountEvent.heldDelta_holdReleased]
            omega
        rw [DoubleEntry.posted, List.filter_cons_of_pos (by rw [event]; simp [AccountEvent.accountId]),
          settles.order, List.map_cons, List.map_cons, List.sum_cons, List.sum_cons, event,
          settles.posts, hrest, AccountEvent.heldDelta_holdPlaced, AccountEvent.heldDelta_holdPosted,
          Option.map_none, Option.getD_none]
        omega
      · rw [DoubleEntry.posted, List.filter_cons_of_neg, settles.filter_of_ne ha]
        · refine posted_of_forall_zero (fun r' hr' => ?_) a
          rw [List.mem_singleton.mp hr', settles.credits, AccountEvent.heldDelta_transferCredited]
        · exact fun hself => ha (by simpa [event, AccountEvent.accountId] using hself)

/-! ### Movement legs -/

def legsOfRows (rows : List EventRow) : List MovementLeg :=
  movementLegs (rows.map EventRow.event)

theorem legsOfRows_perm {rows rows' : List EventRow} (h : rows.Perm rows') :
    (legsOfRows rows).Perm (legsOfRows rows') := (h.map _).filterMap _

/-- The legs of a capture are its debit and its credit. -/
theorem Settles.legs {p : HoldPlaced} {rows rest : List EventRow} {posted credited : EventRow}
    {q : HoldPosted} {c : TransferLeg} (h : Settles p rows posted credited rest q c) :
    (legsOfRows rows).Perm [.holdPosted q, .transferCredited c] := by
  refine (legsOfRows_perm h.perm).trans (List.Perm.of_eq ?_)
  cases h.closes with
  | whole all => simp [legsOfRows, movementLegs, h.posts, h.credits, movementLeg?]
  | part event => simp [legsOfRows, movementLegs, h.posts, h.credits, movementLeg?, event]

theorem AccountEvent.IsLeg.movementLeg {e : AccountEvent} (h : e.IsLeg) :
    ∃ leg, movementLeg? e = some leg ∧ leg.toEvent = e := by
  cases e with
  | transferDebited | transferCredited | reversalDebited | reversalCredited =>
    exact ⟨_, rfl, rfl⟩
  | deposited | withdrawn | holdPlaced | holdReleased | holdPosted => cases h

/-- Where every row is a leg, the legs are the rows' events. -/
theorem map_toEvent_legsOfRows {rows : List EventRow} (h : ∀ r ∈ rows, r.event.IsLeg) :
    (legsOfRows rows).map MovementLeg.toEvent = rows.map EventRow.event := by
  induction rows with
  | nil => rfl
  | cons r rows ih =>
    rw [List.forall_mem_cons] at h
    obtain ⟨leg, hleg, hevent⟩ := h.1.movementLeg
    have hrest := ih h.2
    rw [legsOfRows, movementLegs] at hrest ⊢
    rw [List.map_cons, List.filterMap_cons_some hleg, List.map_cons, hevent, hrest]

theorem SetShape.legs_of_hold {r : EventRow} {p : HoldPlaced} (event : r.event = .holdPlaced p)
    (rows : List EventRow) : legsOfRows (r :: rows) = legsOfRows rows := by
  rw [legsOfRows, movementLegs, List.map_cons, event, List.filterMap_cons_none rfl]
  rfl

theorem Releases.legs {p : HoldPlaced} {r : EventRow} {x : HoldReleased} (h : Releases p r x) :
    legsOfRows [r] = [] := by
  rw [legsOfRows, movementLegs, List.map_singleton, h.event, List.filterMap_cons_none rfl]
  rfl

/-- **The movement legs of a set are on different accounts.** -/
theorem SetShape.legs_nodup {rows : List EventRow} (h : SetShape rows) :
    ((legsOfRows rows).map MovementLeg.accountId).Nodup := by
  have hmap : (legsOfRows rows).map MovementLeg.accountId =
      ((legsOfRows rows).map MovementLeg.toEvent).map AccountEvent.accountId := by
    rw [List.map_map]
    rfl
  cases h with
  | movement legs accounts =>
    rw [hmap, map_toEvent_legsOfRows legs, List.map_map]
    exact accounts
  | placed event =>
    rw [legs_of_hold event]
    exact List.nodup_nil
  | released event releases =>
    rw [legs_of_hold event, releases.legs]
    exact List.nodup_nil
  | @captured r posted credited p rows rest q c event settles =>
    rw [legs_of_hold event]
    refine (settles.legs.map _).nodup_iff.mpr ?_
    have hne := settles.counterparty_ne
    rw [settles.credits] at hne
    simpa [MovementLeg.accountId, MovementLeg.toEvent, AccountEvent.accountId,
      settles.postedAccount] using Ne.symm hne

/-- **The rows of a set that has legs are on the accounts of its legs.** -/
theorem SetShape.account_of_legs {rows : List EventRow} (h : SetShape rows)
    (hne : legsOfRows rows ≠ []) : ∀ r ∈ rows, ∃ leg ∈ legsOfRows rows,
      leg.accountId = r.event.accountId := by
  cases h with
  | movement legs =>
    intro r hr
    obtain ⟨leg, hleg, hevent⟩ := (legs r hr).movementLeg
    refine ⟨leg, List.mem_filterMap.mpr ⟨_, List.mem_map_of_mem hr, hleg⟩, ?_⟩
    rw [MovementLeg.accountId, hevent]
  | placed event =>
    rw [legs_of_hold event] at hne
    exact absurd rfl hne
  | released event releases =>
    rw [legs_of_hold event, releases.legs] at hne
    exact absurd rfl hne
  | @captured r posted credited p rows rest q c event settles =>
    have hposted : ∃ leg ∈ legsOfRows rows, leg.accountId = p.accountId :=
      ⟨.holdPosted q, settles.legs.mem_iff.mpr List.mem_cons_self, settles.postedAccount⟩
    have hcredited : ∃ leg ∈ legsOfRows rows, leg.accountId = p.counterparty :=
      ⟨.transferCredited c, settles.legs.mem_iff.mpr (List.mem_cons_of_mem _ List.mem_cons_self),
        settles.creditedAccount⟩
    rw [legs_of_hold event, List.forall_mem_cons, event]
    refine ⟨hposted, fun r' hr' => ?_⟩
    rcases List.mem_cons.mp (settles.perm.mem_iff.mp hr') with rfl | hr'
    · rw [settles.posted_account]
      exact hposted
    rcases List.mem_cons.mp hr' with rfl | hr'
    · rw [settles.credits, show (AccountEvent.transferCredited c).accountId = p.counterparty from
        settles.creditedAccount]
      exact hcredited
    cases settles.closes with
    | whole => cases hr'
    | part event account =>
      rw [List.mem_singleton.mp hr', event, show (AccountEvent.holdReleased _).accountId =
        p.accountId from account]
      exact hposted

/-- **The movement legs of a set balance.** -/
theorem SetShape.legs_balanced {rows : List EventRow} (h : SetShape rows) :
    moved (fun leg : MovementLeg => leg.toEvent.balanceDelta) (legsOfRows rows) = 0 := by
  cases h with
  | movement legs accounts balanced =>
    have hmoved : moved (fun leg : MovementLeg => leg.toEvent.balanceDelta) (legsOfRows rows) =
        moved AccountEvent.balanceDelta ((legsOfRows rows).map MovementLeg.toEvent) := by
      rw [moved, moved, List.map_map]
      rfl
    rw [hmoved, map_toEvent_legsOfRows legs, moved, List.map_map]
    exact balanced
  | placed event =>
    rw [legs_of_hold event]
    rfl
  | released event releases =>
    rw [legs_of_hold event, releases.legs]
    rfl
  | captured event settles =>
    rw [legs_of_hold event, moved_perm settles.legs]
    simp [MovementLeg.toEvent, settles.amount]

end Cloudscale
