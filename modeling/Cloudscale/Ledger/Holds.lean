import Cloudscale.Ledger.Reachable
import Mathlib.Algebra.Order.BigOperators.Group.Finset

/-!
# Holds

What an account holds is the sum of its open holds (`held_eq_sum_open`): the log
is regrouped by id, and each id reserves the amount of its open hold.  So an open
hold never exceeds what its account holds, and the guards of the decisions that
say so cannot fail.

The events of a hold are its placement and at most one settlement
(`hold_settled_once`): a release of the whole, or a capture whose rest is
released at once and whose credit is written by the same call.
-/

namespace Cloudscale

open Checked Python DoubleEntry Account

/-! ### What is held -/

namespace Store

/-- The ids of the hold events of an account. -/
def holdIds (s : Store) (a : String) : Finset UUID :=
  (((s.eventsOf a).filterMap holdEvent?).map HoldEvent.holdId).toFinset

/-- The amount of the open hold, if there is one. -/
def openAmount (s : Store) (a : String) (t : UUID) : Int :=
  match s.openHold a t with
  | .ok (some hold) => hold.amount
  | _ => 0

variable {s : Store}

theorem openAmount_eq (h : s.Readable) (a : String) (t : UUID) : s.openAmount a t =
    ((openHoldFromEvents t (holdEventsOn (s.setOf t) a)).map OpenHold.amount).getD 0 := by
  have hread : s.openHold a t = .ok (openHoldFromEvents t (holdEventsOn (s.setOf t) a)) :=
    openHold_eq h a t
  rw [openAmount, hread]
  cases openHoldFromEvents t (holdEventsOn (s.setOf t) a) <;> rfl

/-- An open hold is one of the hold ids of its account. -/
theorem mem_holdIds (h : s.Coherent) {a : String} {t : UUID} (hopen : s.openAmount a t ≠ 0) :
    t ∈ s.holdIds a := by
  rw [openAmount] at hopen
  split at hopen
  next hold hfound =>
    obtain ⟨r, p, hset, hp, ha, -⟩ := h.openHold_eq_some.mp hfound
    have hmem : r ∈ s.setOf t := by
      rw [hset]
      exact List.mem_singleton.mpr rfl
    have hr : r ∈ s.streamOf a := by
      refine List.mem_filter.mpr ⟨(s.setOf_sublist t).subset hmem, ?_⟩
      rw [hp]
      exact decide_eq_true ha
    have hid : p.holdId = t := by
      have := setId_of_mem hmem
      rw [hp] at this
      exact Option.some.inj this
    refine List.mem_toFinset.mpr (List.mem_map.mpr ⟨.placed p, List.mem_filterMap.mpr
      ⟨r.event, List.mem_map_of_mem hr, by rw [hp]; rfl⟩, hid⟩)
  next => exact absurd rfl hopen

/-- **What an account holds is the sum of its open holds.** -/
theorem Coherent.held_eq_sum_open (h : s.Coherent) (a : String) :
    (s.account a).held = ∑ t ∈ s.holdIds a, s.openAmount a t := by
  set keys := (s.events.filterMap (fun r => r.event.setId)).toFinset with hkeys
  have hmem : ∀ r ∈ s.events, ∀ t, r.event.setId = some t → t ∈ keys := fun r hr t ht =>
    List.mem_toFinset.mpr (List.mem_filterMap.mpr ⟨r, hr, ht⟩)
  have hcash : posted (fun r => r.event.accountId) (fun r => r.event.heldDelta)
      (s.events.filter (fun r => r.event.setId = none)) a = 0 := by
    refine posted_of_forall_zero (fun r hr => ?_) a
    have hid : r.event.setId = none := by simpa using (List.mem_filter.mp hr).2
    cases he : r.event with
    | deposited => exact AccountEvent.heldDelta_deposited _
    | withdrawn => exact AccountEvent.heldDelta_withdrawn _
    | transferDebited | transferCredited | holdPlaced | holdReleased | holdPosted
    | reversalDebited | reversalCredited => rw [he] at hid; cases hid
  have hsets : ∀ t ∈ keys, posted (fun r => r.event.accountId) (fun r => r.event.heldDelta)
      (s.setOf t) a = s.openAmount a t := fun t _ =>
    (posted_held_eq (h.shapes t) (fun r hr => setId_of_mem hr) a).trans
      (openAmount_eq h.readable a t).symm
  rw [account_held h.readable, posted_eq_sum_keys (fun r : EventRow => r.event.setId) keys a hmem,
    hcash, zero_add]
  refine (Finset.sum_congr rfl hsets).trans ?_
  refine (Finset.sum_subset (fun t ht => ?_) fun t _ ht => ?_).symm
  · obtain ⟨e, he, rfl⟩ := List.mem_map.mp (List.mem_toFinset.mp ht)
    obtain ⟨ev, hev, hhold⟩ := List.mem_filterMap.mp he
    obtain ⟨r, hr, rfl⟩ := List.mem_map.mp hev
    refine hmem r ((s.streamOf_sublist a).subset hr) e.holdId ?_
    cases her : r.event <;> rw [her] at hhold <;> cases hhold <;> rfl
  · by_contra hne
    exact ht (mem_holdIds h hne)

theorem openAmount_nonneg (h : s.Coherent) (a : String) (t : UUID) : 0 ≤ s.openAmount a t := by
  rw [openAmount]
  split
  next hold hfound =>
    obtain ⟨r, p, -, -, -, rfl⟩ := h.openHold_eq_some.mp hfound
    exact p.amount_ok.pos.le
  next => exact le_rfl

/-- **An open hold never exceeds what its account holds**, nor its balance. -/
theorem Coherent.openHold_le (h : s.Coherent) {a : String} {t : UUID} {hold : OpenHold}
    (hfound : s.openHold a t = .ok (some hold)) :
    hold.amount ≤ (s.account a).held ∧ hold.amount ≤ (s.account a).balance := by
  have hamount : s.openAmount a t = hold.amount := by rw [openAmount, hfound]
  have hpos : 0 < hold.amount := by
    obtain ⟨r, p, -, -, -, rfl⟩ := h.openHold_eq_some.mp hfound
    exact p.amount_ok.pos
  have hmem : t ∈ s.holdIds a := mem_holdIds h (by omega)
  have hle := Finset.single_le_sum (f := fun t => s.openAmount a t)
    (fun t _ => openAmount_nonneg h a t) hmem
  rw [← h.held_eq_sum_open a] at hle
  have hheld := (s.account a).valid.held_le
  omega

end Store

/-! ### The guards of the decisions -/

/-- The events of a capture exist: the amount is valid and the accounts differ. -/
theorem exists_captured {p : HoldPlaced} {c : PostHold} (haccount : p.accountId = c.accountId) :
    ∃ events, Captured c (openHoldOf p) events := by
  have hvalid : ValidAmount (captureAmount c (openHoldOf p)) := by
    rw [captureAmount]
    cases hamount : c.amount with
    | none => exact p.amount_ok
    | some amount => exact c.amount_ok amount hamount
  have hne : p.counterparty ≠ c.accountId := haccount ▸ p.counterparty_ne
  have hcapture : IsCapture c (openHoldOf p)
      ⟨c.accountId, captureAmount c (openHoldOf p), c.holdId, p.counterparty, c.account_ok, hvalid,
        p.counterparty_ok, hne⟩
      ⟨p.counterparty, captureAmount c (openHoldOf p), c.holdId, c.accountId, p.counterparty_ok,
        hvalid, c.account_ok, hne.symm⟩ := ⟨rfl, rfl, rfl, rfl, rfl, rfl, rfl, rfl⟩
  by_cases hless : captureAmount c (openHoldOf p) < (openHoldOf p).amount
  · have hmax := p.amount_ok.le_max
    have hpos := hvalid.pos
    have hrest : ValidAmount ((openHoldOf p).amount - captureAmount c (openHoldOf p)) := by
      have hamount : (openHoldOf p).amount = p.amount := rfl
      exact ⟨by omega, by omega⟩
    have hreleased : IsRest c (openHoldOf p)
        ⟨c.accountId, (openHoldOf p).amount - captureAmount c (openHoldOf p), c.holdId,
          .partialCapture, c.account_ok, hrest⟩ := ⟨rfl, rfl, rfl, rfl⟩
    exact ⟨_, .part hcapture hreleased hless⟩
  · exact ⟨_, .whole hcapture hless⟩

section Guards

variable {s : Store}

/-- **A capture never finds that its hold exceeds what is held.** -/
theorem Store.Coherent.decidePostHold_ne (h : s.Coherent) {c : PostHold} {hold : Option OpenHold}
    (hfound : s.openHold c.accountId c.holdId = .ok hold) (target : AccountState) (now : Datetime)
    (message : String) : decidePostHold (s.account c.accountId) target hold c now ≠
      .error (domainError .invalidAccountState message) := by
  intro herror
  cases hold with
  | none => cases herror
  | some hold =>
    obtain ⟨r, p, -, -, haccount, rfl⟩ := h.openHold_eq_some.mp hfound
    have hle := h.openHold_le hfound
    simp only [decidePostHold, require_bind_eq_error] at herror
    rcases herror with ⟨-, he⟩ | ⟨h₁, herror⟩
    · cases he
    rcases herror with ⟨-, he⟩ | ⟨h₂, herror⟩
    · cases he
    rcases herror with ⟨-, he⟩ | ⟨h₃, herror⟩
    · cases he
    rcases herror with ⟨-, he⟩ | ⟨h₄, herror⟩
    · cases he
    rcases herror with ⟨-, he⟩ | ⟨h₅, herror⟩
    · cases he
    rcases herror with ⟨-, he⟩ | ⟨h₆, herror⟩
    · cases he
    rcases herror with ⟨hn, -⟩ | ⟨h₇, herror⟩
    · exact hn hle
    rcases herror with ⟨-, he⟩ | ⟨h₈, herror⟩
    · cases he
    -- All guards hold, so the decision has succeeded.
    obtain ⟨events, hcaptured⟩ := exists_captured haccount
    have hok := decidePostHold_eq_ok.mpr
      ⟨openHoldOf p, rfl, ⟨h₁, h₂, h₃, h₄, h₅, h₆, h₇, h₈⟩, hcaptured⟩
    simp only [decidePostHold, require_bind_of h₁, require_bind_of h₂, require_bind_of h₃,
      require_bind_of h₄, require_bind_of h₅, require_bind_of h₆, require_bind_of h₇,
      require_bind_of h₈] at hok
    rw [hok] at herror
    cases herror

/-- An open hold can be released, unless its expiry is still to come. -/
theorem Store.Coherent.decideReleaseHold_of (h : s.Coherent) (kind : ReleaseKind)
    {c : ReleaseCommand} {hold : OpenHold}
    (hfound : s.openHold c.accountId c.holdId = .ok (some hold)) {now : Datetime}
    (hexpired : kind = .expire → hold.expiredAt now)
    (hversion : (s.account c.accountId).version ≠ maxSignedBigint) :
    ∃ released, CanRelease kind (s.account c.accountId) hold c now ∧
      IsRelease kind hold c released ∧
      decideReleaseHold kind (s.account c.accountId) (some hold) c now = .ok released := by
  obtain ⟨r, p, -, -, -, rfl⟩ := h.openHold_eq_some.mp hfound
  have hcan : CanRelease kind (s.account c.accountId) (openHoldOf p) c now :=
    ⟨hexpired, Store.account_matches h.readable _, hversion, (h.openHold_le hfound).1⟩
  have hrelease : IsRelease kind (openHoldOf p) c
      ⟨c.accountId, p.amount, c.holdId, kind.reason, c.account_ok, p.amount_ok⟩ :=
    ⟨rfl, rfl, rfl, rfl⟩
  exact ⟨_, hcan, hrelease, decideReleaseHold_eq_ok.mpr ⟨_, rfl, hcan, hrelease⟩⟩

/-- **A release never finds that its hold exceeds what is held.** -/
theorem Store.Coherent.decideReleaseHold_ne (h : s.Coherent) {kind : ReleaseKind}
    {c : ReleaseCommand} {hold : Option OpenHold}
    (hfound : s.openHold c.accountId c.holdId = .ok hold) (now : Datetime) (message : String) :
    decideReleaseHold kind (s.account c.accountId) hold c now ≠
      .error (domainError .invalidAccountState message) := by
  intro herror
  cases hold with
  | none => cases herror
  | some hold =>
    by_cases hexpired : kind = .expire → hold.expiredAt now
    · by_cases hversion : (s.account c.accountId).version ≠ maxSignedBigint
      · obtain ⟨released, -, -, hok⟩ := h.decideReleaseHold_of kind hfound hexpired hversion
        rw [hok] at herror
        cases herror
      · simp only [decideReleaseHold, require_bind_eq_error] at herror
        rcases herror with ⟨-, he⟩ | ⟨-, ⟨-, he⟩ | ⟨-, ⟨-, he⟩ | ⟨hv, -⟩⟩⟩
        · cases he
        · cases he
        · cases he
        · exact hversion hv
    · rw [decideReleaseHold, require_of_not hexpired, error_bind] at herror
      cases herror

end Guards

/-- **Hold accounting.** What an account holds is the sum of its open holds; each
can be released, none exceeds what is held or the balance, and no capture and no
release finds otherwise. -/
theorem holds_account_for_held (calls : List Call) (a : String) :
    ((storeAfter calls).account a).held =
        ∑ t ∈ (storeAfter calls).holdIds a, (storeAfter calls).openAmount a t ∧
      (∀ t hold, (storeAfter calls).openHold a t = .ok (some hold) →
        hold.amount ≤ ((storeAfter calls).account a).held ∧
          hold.amount ≤ ((storeAfter calls).account a).balance ∧
          ∀ (c : VoidHold) (now : Datetime), c.accountId = a → c.holdId = t →
            ((storeAfter calls).account a).version ≠ maxSignedBigint →
            ∃ released, decideReleaseHold .void ((storeAfter calls).account a) (some hold) c now =
              .ok released) ∧
      (∀ (c : PostHold) (hold : Option OpenHold) (target : AccountState) (now : Datetime)
        (message : String), c.accountId = a →
        (storeAfter calls).openHold a c.holdId = .ok hold →
        decidePostHold ((storeAfter calls).account a) target hold c now ≠
          .error (domainError .invalidAccountState message)) ∧
      (∀ (kind : ReleaseKind) (c : ReleaseCommand) (hold : Option OpenHold) (now : Datetime)
        (message : String), c.accountId = a →
        (storeAfter calls).openHold a c.holdId = .ok hold →
        decideReleaseHold kind ((storeAfter calls).account a) hold c now ≠
          .error (domainError .invalidAccountState message)) := by
  have h := (ledger_storeAfter calls).coherent
  refine ⟨h.held_eq_sum_open a, fun t hold hfound => ?_, ?_, ?_⟩
  · obtain ⟨hheld, hbalance⟩ := h.openHold_le hfound
    refine ⟨hheld, hbalance, ?_⟩
    rintro c now rfl rfl hversion
    obtain ⟨released, -, -, hok⟩ := h.decideReleaseHold_of .void hfound
      (fun hkind => nomatch hkind) hversion
    exact ⟨released, hok⟩
  · rintro c hold target now message rfl hfound
    exact h.decidePostHold_ne hfound target now message
  · rintro kind c hold now message rfl hfound
    exact h.decideReleaseHold_ne hfound now message

/-! ### The life of a hold -/

/-- The rows of a hold on an account, in the order of the stream. -/
def Store.holdRows (s : Store) (a : String) (t : UUID) : List EventRow :=
  (s.streamOf a).filter (fun r => r.event.setId = some t ∧ (holdEvent? r.event).isSome)

/-- **What the rows of a hold can be**: its placement, and at most one settlement. -/
inductive HoldHistory (calls : List Call) : List EventRow → Prop
  | placed {r : EventRow} {p : HoldPlaced} (event : r.event = .holdPlaced p) :
      HoldHistory calls [r]
  | released {r r' : EventRow} {p : HoldPlaced} {x : HoldReleased} (event : r.event = .holdPlaced p)
      (releases : Releases p r' x) : HoldHistory calls [r, r']
  | captured {r posted credited : EventRow} {p : HoldPlaced} {rest : List EventRow}
      {q : HoldPosted} {c : TransferLeg} (event : r.event = .holdPlaced p)
      (posts : posted.event = .holdPosted q) (unexpired : posted.occurredAt < p.expiry)
      (closes : Rest p q.amount posted.seq rest)
      (credits : credited.event = .transferCredited c) (payee : c.accountId = p.counterparty)
      (amount : c.amount = q.amount) (together : AppendedTogether calls posted credited) :
      HoldHistory calls (r :: posted :: rest)

theorem Store.holdRows_eq (s : Store) (a : String) (t : UUID) : s.holdRows a t =
    ((s.setOf t).filter (fun r => r.event.accountId = a)).filter
      (fun r => (holdEvent? r.event).isSome) := by
  rw [holdRows, streamOf, setOf, List.filter_filter, List.filter_filter, List.filter_filter]
  refine List.filter_congr fun r _ => ?_
  simp only [Bool.decide_and, Bool.decide_eq_true]
  rw [Bool.and_comm (Decidable.decide (r.event.setId = some t))]
  exact Bool.and_right_comm _ _ _

/-- The rows of a hold, read off the shape of its id. -/
theorem holdHistory (calls : List Call) (a : String) (t : UUID) :
    (storeAfter calls).holdRows a t = [] ∨
      HoldHistory calls ((storeAfter calls).holdRows a t) := by
  have hsub := (storeAfter calls).setOf_sublist t
  have hid : ∀ r ∈ (storeAfter calls).setOf t, r.event.setId = some t :=
    fun r hr => Store.setId_of_mem hr
  have hshape := (ledger_storeAfter calls).coherent.shapes t
  rw [Store.holdRows_eq]
  generalize (storeAfter calls).setOf t = rows at hshape hsub hid
  cases hshape with
  | movement legs =>
    refine Or.inl (List.filter_eq_nil_iff.mpr fun r hr => ?_)
    rw [(legs r (List.mem_of_mem_filter hr)).holdEvent]
    simp
  | @placed r p event =>
    by_cases ha : r.event.accountId = a
    · refine Or.inr ?_
      rw [List.filter_cons_of_pos (by simpa using ha), List.filter_nil,
        List.filter_cons_of_pos (by rw [event]; rfl), List.filter_nil]
      exact .placed event
    · left
      rw [List.filter_cons_of_neg (by simpa using ha), List.filter_nil, List.filter_nil]
  | @released r r' p x event releases =>
    have haccount : r'.event.accountId = r.event.accountId := by
      rw [event, releases.event]
      exact releases.account
    by_cases ha : r.event.accountId = a
    · refine Or.inr ?_
      have hfilter : [r, r'].filter (fun r => r.event.accountId = a) = [r, r'] := by
        rw [List.filter_cons_of_pos (by simpa using ha),
          List.filter_cons_of_pos (by simpa [haccount] using ha), List.filter_nil]
      rw [hfilter, List.filter_cons_of_pos (by rw [event]; rfl),
        List.filter_cons_of_pos (by rw [releases.event]; rfl), List.filter_nil]
      exact .released event releases
    · left
      rw [List.filter_cons_of_neg (by simpa using ha),
        List.filter_cons_of_neg (by simpa [haccount] using ha), List.filter_nil, List.filter_nil]
  | @captured r posted credited p rows rest q c event settles =>
    by_cases ha : p.accountId = a
    · subst ha
      refine Or.inr ?_
      have hrest : rest.filter (fun r => (holdEvent? r.event).isSome) = rest := by
        refine List.filter_eq_self.mpr fun r' hr' => ?_
        cases settles.closes with
        | whole => cases hr'
        | part hevent => rw [List.mem_singleton.mp hr', hevent]; rfl
      rw [List.filter_cons_of_pos (by rw [event]; simp [AccountEvent.accountId]), settles.order,
        List.filter_cons_of_pos (by rw [event]; rfl),
        List.filter_cons_of_pos (by rw [settles.posts]; rfl), hrest]
      have hposted : posted ∈ r :: rows :=
        List.mem_cons_of_mem r (settles.perm.mem_iff.mpr List.mem_cons_self)
      have hcredited : credited ∈ r :: rows :=
        List.mem_cons_of_mem r (settles.perm.mem_iff.mpr
          (List.mem_cons_of_mem posted List.mem_cons_self))
      refine .captured event settles.posts settles.unexpired settles.closes settles.credits
        settles.creditedAccount settles.amount
        (appended_together calls (hsub.subset hposted) (hsub.subset hcredited) ⟨?_, ?_, ?_⟩)
      · rw [hid posted hposted]
        simp
      · rw [hid posted hposted, hid credited hcredited]
      · left
        rw [settles.posts, settles.credits]
        exact ⟨rfl, rfl⟩
    · left
      have haccount : ¬ r.event.accountId = a := by
        rw [event]
        exact ha
      rw [List.filter_cons_of_neg (by simpa using haccount), settles.filter_of_ne ha]
      refine List.filter_eq_nil_iff.mpr fun r' hr' => ?_
      rw [List.mem_singleton.mp (List.mem_of_mem_filter hr'), settles.credits]
      exact Bool.false_ne_true

/-- What the clock showed when a call settled a hold, against the hold's expiry. -/
def SettledInTime (s : Store) (call : Call) : Prop :=
  match call.request.command with
  | .postHold c => ∃ r ∈ s.events, ∃ p, r.event = .holdPlaced p ∧ p.accountId = c.accountId ∧
      p.holdId = c.holdId ∧ call.clock 0 < p.expiry
  | .expireHold c => ∃ r ∈ s.events, ∃ p, r.event = .holdPlaced p ∧ p.accountId = c.accountId ∧
      p.holdId = c.holdId ∧ p.expiry ≤ call.clock 0
  | _ => True

theorem settledInTime {s : Store} (h : s.Coherent) {call : Call} (hne : appended s call ≠ []) :
    SettledInTime s call := by
  have hplaced : ∀ {a : String} {t : UUID} {hold : OpenHold}, s.openHold a t = .ok (some hold) →
      ∃ r ∈ s.events, ∃ p, r.event = .holdPlaced p ∧ p.accountId = a ∧ p.holdId = t ∧
        hold = openHoldOf p := by
    intro a t hold hfound
    obtain ⟨r, p, hset, hp, ha, rfl⟩ := h.openHold_eq_some.mp hfound
    have hmem : r ∈ s.setOf t := by
      rw [hset]
      exact List.mem_singleton.mpr rfl
    have hid := Store.setId_of_mem hmem
    rw [hp] at hid
    exact ⟨r, (s.setOf_sublist t).subset hmem, p, hp, ha, Option.some.inj hid, rfl⟩
  obtain ⟨y, hy⟩ := List.exists_mem_of_ne_nil _ hne
  obtain ⟨events, -, -, decided, -⟩ := decided_of_mem_appended h.readable hy
  rw [SettledInTime]
  cases decided with
  | deposit command | withdraw command | hold command | reversal command => rw [command]; trivial
  | postings command =>
    cases hc : call.request.command with
    | transfer | post | deposit | withdraw | hold | voidHold | revert => trivial
    | postHold | expireHold => rw [hc] at command; cases command
  | capture command found can =>
    obtain ⟨r', hr', p, hp, ha, ht, rfl⟩ := hplaced found
    rw [command]
    exact ⟨r', hr', p, hp, ha, ht, not_le.mp can.unexpired⟩
  | release command found can =>
    obtain ⟨r', hr', p, hp, ha, ht, rfl⟩ := hplaced found
    cases hc : call.request.command with
    | expireHold c =>
      rw [hc] at command
      cases command
      exact ⟨r', hr', p, hp, ha, ht, can.expired rfl⟩
    | voidHold | transfer | post | deposit | withdraw | hold | revert => trivial
    | postHold => rw [hc] at command; cases command

/-- **A hold is settled at most once.** The rows of a hold are its placement and at
most one settlement, whose capture credits the counterparty in the same call; and
no call captures a hold from its expiry on, or expires one before. -/
theorem hold_settled_once (calls : List Call) :
    (∀ a t, (storeAfter calls).holdRows a t = [] ∨
      HoldHistory calls ((storeAfter calls).holdRows a t)) ∧
    ∀ call, appended (storeAfter calls) call ≠ [] → SettledInTime (storeAfter calls) call :=
  ⟨holdHistory calls, fun _ hne => settledInTime (ledger_storeAfter calls).coherent hne⟩

end Cloudscale
