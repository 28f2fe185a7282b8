import Cloudscale.Domain.Account
import Cloudscale.Lib.DoubleEntry

/-!
# What the decisions and the fold do

One lemma for each function of the aggregate says when it succeeds and with
what: `apply_eq_ok` for a step of the fold, and a lemma `…_eq_ok` for every
decision.  The guards of a step are the structure `CanApply`, those of a leg of
a posting set `CanPost`, and those of a mirrored leg `CanMirror`.

A fold that succeeds is bookkeeping: `foldFrom_fields` reads the balance and the
held amount off as the sums of what the events move, and the version as their
number.
-/

namespace Cloudscale

open Checked Python DoubleEntry

namespace AccountEvent

/-! ### What an event moves -/

section Deltas

variable (c : CashEvent) (t : TransferLeg) (p : HoldPlaced) (r : HoldReleased) (q : HoldPosted)
  (v : ReversalLeg)

@[simp] theorem balanceDelta_deposited : (deposited c).balanceDelta = c.amount := one_mul _

@[simp] theorem balanceDelta_withdrawn : (withdrawn c).balanceDelta = -c.amount := neg_one_mul _

@[simp] theorem balanceDelta_transferDebited : (transferDebited t).balanceDelta = -t.amount :=
  neg_one_mul _

@[simp] theorem balanceDelta_transferCredited : (transferCredited t).balanceDelta = t.amount :=
  one_mul _

@[simp] theorem balanceDelta_holdPlaced : (holdPlaced p).balanceDelta = 0 := zero_mul _

@[simp] theorem balanceDelta_holdReleased : (holdReleased r).balanceDelta = 0 := zero_mul _

@[simp] theorem balanceDelta_holdPosted : (holdPosted q).balanceDelta = -q.amount := neg_one_mul _

@[simp] theorem balanceDelta_reversalDebited : (reversalDebited v).balanceDelta = -v.amount :=
  neg_one_mul _

@[simp] theorem balanceDelta_reversalCredited : (reversalCredited v).balanceDelta = v.amount :=
  one_mul _

@[simp] theorem heldDelta_deposited : (deposited c).heldDelta = 0 := zero_mul _

@[simp] theorem heldDelta_withdrawn : (withdrawn c).heldDelta = 0 := zero_mul _

@[simp] theorem heldDelta_transferDebited : (transferDebited t).heldDelta = 0 := zero_mul _

@[simp] theorem heldDelta_transferCredited : (transferCredited t).heldDelta = 0 := zero_mul _

@[simp] theorem heldDelta_holdPlaced : (holdPlaced p).heldDelta = p.amount := one_mul _

@[simp] theorem heldDelta_holdReleased : (holdReleased r).heldDelta = -r.amount := neg_one_mul _

@[simp] theorem heldDelta_holdPosted : (holdPosted q).heldDelta = -q.amount := neg_one_mul _

@[simp] theorem heldDelta_reversalDebited : (reversalDebited v).heldDelta = 0 := zero_mul _

@[simp] theorem heldDelta_reversalCredited : (reversalCredited v).heldDelta = 0 := zero_mul _

end Deltas

/-- An event that raises the balance raises it by its amount. -/
theorem balanceDelta_of_pos {e : AccountEvent} (h : 0 < e.balanceDelta) :
    e.balanceDelta = e.amount := by
  have hamount := e.amount_ok.pos
  cases e with
  | deposited c => simp [amount]
  | transferCredited t => simp [amount]
  | reversalCredited v => simp [amount]
  | withdrawn c => simp [amount] at h hamount; omega
  | transferDebited t => simp [amount] at h hamount; omega
  | holdPosted q => simp [amount] at h hamount; omega
  | reversalDebited v => simp [amount] at h hamount; omega
  | holdPlaced p => simp at h
  | holdReleased r => simp at h

end AccountEvent

namespace Account

/-! ### The fold -/

/-- The guards of one step of the fold. -/
structure CanApply (s : AccountState) (e : AccountEvent) : Prop where
  identity : s.Matches e.accountId
  version : s.version ≠ maxSignedBigint
  credit : 0 < e.balanceDelta → e.amount ≤ maxSignedBigint - s.balance
  balance : 0 ≤ s.balance + e.balanceDelta
  held_nonneg : 0 ≤ s.held + e.heldDelta
  held_le : s.held + e.heldDelta ≤ s.balance + e.balanceDelta

/-- The state after one step of the fold. -/
structure Applied (s : AccountState) (e : AccountEvent) (s' : AccountState) : Prop where
  accountId : s'.accountId = some e.accountId
  balance : s'.balance = s.balance + e.balanceDelta
  version : s'.version = s.version + 1
  held : s'.held = s.held + e.heldDelta

theorem getD_of_matches {s : AccountState} {id : String} (h : s.Matches id) :
    s.accountId.getD id = id := by
  cases hs : s.accountId with
  | none => rfl
  | some id' => exact h id' hs

/-- **One step of the fold.** -/
theorem apply_eq_ok {s s' : AccountState} {e : AccountEvent} :
    apply s e = .ok s' ↔ CanApply s e ∧ Applied s e s' := by
  have hrun : apply s e = .ok s' ↔ CanApply s e ∧
      AccountState.new (some (s.accountId.getD e.accountId)) (s.balance + e.balanceDelta)
        (s.version + 1) (s.held + e.heldDelta) = .ok s' := by
    simp only [apply, require_bind_eq_ok]
    exact ⟨fun ⟨h₁, h₂, h₃, h₄, h₅, h₆, h⟩ => ⟨⟨h₁, h₂, h₃, h₄, h₅, h₆⟩, h⟩,
      fun ⟨⟨h₁, h₂, h₃, h₄, h₅, h₆⟩, h⟩ => ⟨h₁, h₂, h₃, h₄, h₅, h₆, h⟩⟩
  rw [hrun]
  refine and_congr_right fun hcan => ?_
  rw [getD_of_matches hcan.identity, AccountState.new_eq_ok]
  exact ⟨fun ⟨h₁, h₂, h₃, h₄⟩ => ⟨h₁, h₂, h₃, h₄⟩, fun ⟨h₁, h₂, h₃, h₄⟩ => ⟨h₁, h₂, h₃, h₄⟩⟩

theorem apply_of_canApply {s : AccountState} {e : AccountEvent} (h : CanApply s e) :
    ∃ s', apply s e = .ok s' ∧ Applied s e s' := by
  have hvalid : AccountState.Valid (some e.accountId) (s.balance + e.balanceDelta) (s.version + 1)
      (s.held + e.heldDelta) := by
    have hle : s.balance + e.balanceDelta ≤ maxSignedBigint := by
      by_cases hpos : 0 < e.balanceDelta
      · have := h.credit hpos
        rw [AccountEvent.balanceDelta_of_pos hpos]
        omega
      · have := s.valid.balance_le
        omega
    have hv := s.valid.version_nonneg
    have hv' := s.valid.version_le
    have hne := h.version
    exact ⟨by simpa using e.account_ok, h.balance, hle, h.held_nonneg, h.held_le, by omega,
      by omega, by simp⟩
  have happlied : Applied s e ⟨_, _, _, _, hvalid⟩ := ⟨rfl, rfl, rfl, rfl⟩
  exact ⟨_, apply_eq_ok.mpr ⟨h, happlied⟩, happlied⟩

theorem foldFrom_nil (s : AccountState) : foldFrom s [] = .ok s := rfl

theorem foldFrom_cons (s : AccountState) (e : AccountEvent) (es : List AccountEvent) :
    foldFrom s (e :: es) = (apply s e >>= fun s' => foldFrom s' es) := by
  rw [foldFrom, List.foldlM_cons]
  rfl

theorem foldFrom_append (s : AccountState) (es fs : List AccountEvent) :
    foldFrom s (es ++ fs) = (foldFrom s es >>= fun s' => foldFrom s' fs) := by
  rw [foldFrom, List.foldlM_append]
  rfl

/-- **A fold that succeeds is bookkeeping.** -/
theorem foldFrom_fields : ∀ {es : List AccountEvent} {s s' : AccountState},
    foldFrom s es = .ok s' →
      s'.balance = s.balance + moved AccountEvent.balanceDelta es ∧
        s'.held = s.held + moved AccountEvent.heldDelta es ∧
        s'.version = s.version + es.length := by
  intro es
  induction es with
  | nil =>
    intro s s' h
    cases h
    simp
  | cons e es ih =>
    intro s s' h
    rw [foldFrom_cons] at h
    obtain ⟨t, ht, h⟩ := bind_eq_ok.mp h
    obtain ⟨-, happlied⟩ := apply_eq_ok.mp ht
    obtain ⟨hbalance, hheld, hversion⟩ := ih h
    rw [hbalance, hheld, hversion, happlied.balance, happlied.held, happlied.version, moved_cons,
      moved_cons, List.length_cons]
    push_cast
    exact ⟨by omega, by omega, by omega⟩

/-- The fold of an account's events is a state of the account. -/
theorem foldFrom_matches {a : String} : ∀ {es : List AccountEvent} {s s' : AccountState},
    s.Matches a → (∀ e ∈ es, e.accountId = a) → foldFrom s es = .ok s' → s'.Matches a := by
  intro es
  induction es with
  | nil =>
    intro s s' hs _ h
    cases h
    exact hs
  | cons e es ih =>
    intro s s' _ hes h
    rw [foldFrom_cons] at h
    obtain ⟨t, ht, h⟩ := bind_eq_ok.mp h
    obtain ⟨-, happlied⟩ := apply_eq_ok.mp ht
    refine ih ?_ (fun x hx => hes x (List.mem_cons_of_mem e hx)) h
    intro id hid
    rw [happlied.accountId, Option.mem_some_iff] at hid
    rw [← hid]
    exact hes e List.mem_cons_self

theorem unknown_matches (a : String) : AccountState.unknown.Matches a := by
  intro id hid
  cases hid

/-! ### What a state admits -/

/-- The balance, the funds or the held amount that an event needs. -/
def Covers (s : AccountState) : AccountEvent → Prop
  | .deposited e => e.amount ≤ maxSignedBigint - s.balance
  | .withdrawn e => e.amount ≤ s.available
  | .transferDebited e => e.amount ≤ s.available
  | .transferCredited e => e.amount ≤ maxSignedBigint - s.balance
  | .holdPlaced e => e.amount ≤ s.available
  | .holdReleased e => e.amount ≤ s.held
  | .holdPosted e => e.amount ≤ s.held
  | .reversalDebited e => e.amount ≤ s.available
  | .reversalCredited e => e.amount ≤ maxSignedBigint - s.balance

/-- The checks that every decision makes of an event on its account's state. -/
structure Admits (s : AccountState) (e : AccountEvent) : Prop where
  identity : s.Matches e.accountId
  version : s.version ≠ maxSignedBigint
  covers : Covers s e

/-- **An admitted event can be applied.** -/
theorem Admits.canApply {s : AccountState} {e : AccountEvent} (h : Admits s e) : CanApply s e := by
  have hamount := e.amount_ok.pos
  have hcovers := h.covers
  have hheld := s.valid.held_nonneg
  have hle := s.valid.held_le
  refine ⟨h.identity, h.version, ?_, ?_, ?_, ?_⟩
  all_goals
    cases e <;>
      simp only [Covers, AccountState.available, AccountEvent.amount] at hcovers hamount ⊢ <;>
      simp only [AccountEvent.balanceDelta_deposited, AccountEvent.balanceDelta_withdrawn,
        AccountEvent.balanceDelta_transferDebited, AccountEvent.balanceDelta_transferCredited,
        AccountEvent.balanceDelta_holdPlaced, AccountEvent.balanceDelta_holdReleased,
        AccountEvent.balanceDelta_holdPosted, AccountEvent.balanceDelta_reversalDebited,
        AccountEvent.balanceDelta_reversalCredited, AccountEvent.heldDelta_deposited,
        AccountEvent.heldDelta_withdrawn, AccountEvent.heldDelta_transferDebited,
        AccountEvent.heldDelta_transferCredited, AccountEvent.heldDelta_holdPlaced,
        AccountEvent.heldDelta_holdReleased, AccountEvent.heldDelta_holdPosted,
        AccountEvent.heldDelta_reversalDebited, AccountEvent.heldDelta_reversalCredited] <;>
      omega

theorem foldFrom_singleton {s : AccountState} {e : AccountEvent} (h : Admits s e) :
    ∃ s', foldFrom s [e] = .ok s' := by
  obtain ⟨s', hs', -⟩ := apply_of_canApply h.canApply
  exact ⟨s', by rw [foldFrom_cons, hs', ok_bind, foldFrom_nil]⟩

/-- Of events on different accounts, an account has none or one. -/
theorem filter_of_nodup {events : List AccountEvent}
    (h : (events.map AccountEvent.accountId).Nodup) (a : String) :
    events.filter (fun e => e.accountId = a) = [] ∨
      ∃ e ∈ events, e.accountId = a ∧ events.filter (fun e => e.accountId = a) = [e] := by
  have hone : (events.filter (fun e => e.accountId = a)).length ≤ 1 := by
    have hcount := List.nodup_iff_count_le_one.mp h a
    rw [List.count, List.countP_map, List.countP_eq_length_filter] at hcount
    simpa only [Function.comp_def, beq_eq_decide] using hcount
  cases hevents : events.filter (fun e => e.accountId = a) with
  | nil => exact Or.inl rfl
  | cons e more =>
    have he : e ∈ events.filter (fun e => e.accountId = a) := by simp [hevents]
    rw [hevents, List.length_cons] at hone
    have hmore : more = [] := List.length_eq_zero_iff.mp (by omega)
    exact Or.inr ⟨e, List.mem_of_mem_filter he, by simpa using (List.mem_filter.mp he).2,
      by rw [hmore]⟩

/-! ### Cash -/

def depositedOf (c : Deposit) : AccountEvent :=
  .deposited ⟨c.accountId, c.amount, c.account_ok, c.amount_ok⟩

def withdrawnOf (c : Withdraw) : AccountEvent :=
  .withdrawn ⟨c.accountId, c.amount, c.account_ok, c.amount_ok⟩

theorem decide_deposit_eq_ok {s : AccountState} {c : Deposit} {e : AccountEvent} :
    decide s (.deposit c) = .ok e ↔ e = depositedOf c ∧ Admits s e := by
  have hnew : CashEvent.new c.accountId c.amount =
      .ok ⟨c.accountId, c.amount, c.account_ok, c.amount_ok⟩ :=
    CashEvent.new_self ⟨c.accountId, c.amount, c.account_ok, c.amount_ok⟩
  simp only [decide, require_bind_eq_ok, hnew]
  constructor
  · rintro ⟨h₁, h₂, h₃, h⟩
    cases h
    exact ⟨rfl, h₁, h₂, h₃⟩
  · rintro ⟨rfl, h₁, h₂, h₃⟩
    exact ⟨h₁, h₂, h₃, rfl⟩

theorem decide_withdraw_eq_ok {s : AccountState} {c : Withdraw} {e : AccountEvent} :
    decide s (.withdraw c) = .ok e ↔ e = withdrawnOf c ∧ Admits s e := by
  have hnew : CashEvent.new c.accountId c.amount =
      .ok ⟨c.accountId, c.amount, c.account_ok, c.amount_ok⟩ :=
    CashEvent.new_self ⟨c.accountId, c.amount, c.account_ok, c.amount_ok⟩
  simp only [decide, require_bind_eq_ok, hnew]
  constructor
  · rintro ⟨h₁, h₂, h₃, h⟩
    cases h
    exact ⟨rfl, h₁, h₂, h₃⟩
  · rintro ⟨rfl, h₁, h₂, h₃⟩
    exact ⟨h₁, h₂, h₃, rfl⟩

/-! ### Postings -/

/-- The guards of one leg of a posting set. -/
structure CanPost (s : AccountState) (leg : Leg) : Prop where
  identity : s.Matches leg.accountId
  version : s.version ≠ maxSignedBigint
  funds : leg.direction = .debit → leg.amount ≤ s.available
  fits : leg.direction = .credit → leg.amount ≤ maxSignedBigint - s.balance

theorem checkPosting_eq_ok {states : States} {leg : Leg} {u : Unit} :
    checkPosting states leg = .ok u ↔
      ∃ s, states.lookup leg.accountId = some s ∧ CanPost s leg := by
  rw [checkPosting, bind_eq_ok]
  refine exists_congr fun s => and_congr getItem_eq_ok ?_
  rw [require_bind_eq_ok]
  cases hdir : leg.direction with
  | debit =>
    simp only [require_bind_eq_ok, pure_eq_ok, exists_prop, and_true]
    refine ⟨fun ⟨h₁, h₂, h₃⟩ => ⟨h₁, h₂, fun _ => h₃, fun hcredit => ?_⟩,
      fun h => ⟨h.identity, h.version, h.funds hdir⟩⟩
    rw [hdir] at hcredit
    cases hcredit
  | credit =>
    simp only [require_bind_eq_ok, pure_eq_ok, exists_prop, and_true]
    refine ⟨fun ⟨h₁, h₂, h₃⟩ => ⟨h₁, h₂, fun hdebit => ?_, fun _ => h₃⟩,
      fun h => ⟨h.identity, h.version, h.fits hdir⟩⟩
    rw [hdir] at hdebit
    cases hdebit

/-- The event is the leg's, under the transfer id. -/
inductive IsPosting (transferId : UUID) (leg : Leg) : AccountEvent → Prop
  | debit {e : TransferLeg} (direction : leg.direction = .debit)
      (account : e.accountId = leg.accountId) (amount : e.amount = leg.amount)
      (id : e.transferId = transferId) : IsPosting transferId leg (.transferDebited e)
  | credit {e : TransferLeg} (direction : leg.direction = .credit)
      (account : e.accountId = leg.accountId) (amount : e.amount = leg.amount)
      (id : e.transferId = transferId) : IsPosting transferId leg (.transferCredited e)

theorem isPosting_of_ok {anchor : String} {legs : List Leg} {transferId : UUID} {leg : Leg}
    {e : AccountEvent} (h : postingEvent anchor legs transferId leg = .ok e) :
    IsPosting transferId leg e := by
  rw [postingEvent] at h
  obtain ⟨counterparty, -, h⟩ := bind_eq_ok.mp h
  obtain ⟨t, ht, h⟩ := bind_eq_ok.mp h
  obtain ⟨haccount, hamount, hid, -⟩ := TransferLeg.new_eq_ok.mp ht
  cases hdir : leg.direction with
  | debit =>
    rw [hdir] at h
    cases h
    exact .debit hdir haccount hamount hid
  | credit =>
    rw [hdir] at h
    cases h
    exact .credit hdir haccount hamount hid

theorem IsPosting.accountId {transferId : UUID} {leg : Leg} {e : AccountEvent}
    (h : IsPosting transferId leg e) : e.accountId = leg.accountId := by
  cases h with
  | debit _ account _ _ => exact account
  | credit _ account _ _ => exact account

theorem CanPost.admits {s : AccountState} {transferId : UUID} {leg : Leg} {e : AccountEvent}
    (h : CanPost s leg) (he : IsPosting transferId leg e) : Admits s e := by
  refine ⟨he.accountId ▸ h.identity, h.version, ?_⟩
  cases he with
  | debit direction _ amount _ =>
    rw [Covers, amount]
    exact h.funds direction
  | credit direction _ amount _ =>
    rw [Covers, amount]
    exact h.fits direction

theorem decidePostings_eq_ok {states : States} {anchor : String} {legs : List Leg}
    {transferId : UUID} {events : List AccountEvent} :
    decidePostings states anchor legs transferId = .ok events ↔
      (∀ leg ∈ legs, ∃ s, states.lookup leg.accountId = some s ∧ CanPost s leg) ∧
        List.Forall₂ (fun leg e => postingEvent anchor legs transferId leg = .ok e)
          legs events := by
  rw [decidePostings, bind_eq_ok]
  constructor
  · rintro ⟨us, hus, h⟩
    refine ⟨fun leg hleg => ?_, mapM_eq_ok.mp h⟩
    obtain ⟨u, hu⟩ := exists_ok_of_mapM hus leg hleg
    exact checkPosting_eq_ok.mp hu
  · rintro ⟨hcan, h⟩
    exact ⟨_, mapM_of_forall (g := fun _ => ()) (fun leg hleg => checkPosting_eq_ok.mpr
      (hcan leg hleg)), mapM_eq_ok.mpr h⟩

theorem largest_mem {legs : List Leg} (hne : legs ≠ []) : ∃ leg ∈ legs, largest legs = some leg := by
  cases legs with
  | nil => exact absurd rfl hne
  | cons leg legs =>
    have hfold : ∀ (ls : List Leg) (best : Leg),
        ls.foldl (fun best c => if best.amount < c.amount then c else best) best ∈ best :: ls := by
      intro ls
      induction ls with
      | nil => intro best; simp
      | cons c ls ih =>
        intro best
        have hmem := ih (if best.amount < c.amount then c else best)
        rw [List.foldl_cons]
        split at hmem <;> rename_i hlt
        · rw [if_pos hlt]
          exact List.mem_cons_of_mem best hmem
        · rw [if_neg hlt]
          rcases List.mem_cons.mp hmem with h | h
          · exact List.mem_cons.mpr (Or.inl h)
          · exact List.mem_cons_of_mem best (List.mem_cons_of_mem c h)
    exact ⟨_, hfold legs leg, rfl⟩

/-- **Every leg of a valid set has a counterparty in the set**, another account. -/
theorem counterpartyFor_of_valid {anchor : String} {legs : List Leg} (h : ValidLegs anchor legs)
    {leg : Leg} (hleg : leg ∈ legs) : ∃ counterparty ∈ legs.map Leg.accountId,
      counterpartyFor anchor legs leg = .ok counterparty ∧ counterparty ≠ leg.accountId := by
  obtain ⟨anchorLeg, hanchor, haccount, hdebit⟩ := h.anchored
  rw [counterpartyFor]
  split
  next hlen =>
    obtain ⟨l₁, l₂, rfl⟩ := List.length_eq_two.mp hlen
    have hne : l₁.accountId ≠ l₂.accountId := by simpa using h.nodup
    have hfind : ∃ other ∈ [l₁, l₂], other.accountId ≠ leg.accountId := by
      rcases List.mem_pair.mp hleg with rfl | rfl
      · exact ⟨l₂, by simp, hne.symm⟩
      · exact ⟨l₁, by simp, hne⟩
    cases hother : [l₁, l₂].find? (fun other => other.accountId ≠ leg.accountId) with
    | none =>
      obtain ⟨other, hmem, hne⟩ := hfind
      exact absurd hne (by simpa using List.find?_eq_none.mp hother other hmem)
    | some other =>
    dsimp only
    exact ⟨other.accountId, List.mem_map_of_mem (List.mem_of_find?_eq_some hother), rfl,
      by simpa using List.find?_some hother⟩
  next =>
    split
    next hne => exact ⟨anchor, haccount ▸ List.mem_map_of_mem hanchor, rfl, Ne.symm hne⟩
    next heq =>
      rw [not_not] at heq
      obtain ⟨credit, hcredit, hdir⟩ := h.exists_credit
      have hne : legs.filter (fun other => other.direction = .credit) ≠ [] := by
        intro hempty
        have : credit ∈ legs.filter (fun other => other.direction = .credit) :=
          List.mem_filter.mpr ⟨hcredit, by simpa using hdir⟩
        rw [hempty] at this
        cases this
      obtain ⟨best, hbest, hlargest⟩ := largest_mem hne
      obtain ⟨hmem, hbestdir⟩ := List.mem_filter.mp hbest
      rw [hlargest]
      refine ⟨best.accountId, List.mem_map_of_mem hmem, rfl, ?_⟩
      rw [heq, ← haccount]
      intro hsame
      have := List.inj_on_of_nodup_map h.nodup hmem hanchor hsame
      rw [this, hdebit] at hbestdir
      simp at hbestdir

theorem postingEvent_of_valid {anchor : String} {legs : List Leg} (h : ValidLegs anchor legs)
    {leg : Leg} (hleg : leg ∈ legs) (transferId : UUID) :
    ∃ e, postingEvent anchor legs transferId leg = .ok e := by
  obtain ⟨counterparty, hmem, hok, hne⟩ := counterpartyFor_of_valid h hleg
  obtain ⟨other, -, rfl⟩ := List.mem_map.mp hmem
  have hnew := TransferLeg.new_self ⟨leg.accountId, leg.amount, transferId, other.accountId,
    leg.account_ok, leg.amount_ok, other.account_ok, hne⟩
  rw [postingEvent, hok, ok_bind, hnew, ok_bind]
  cases leg.direction with
  | debit => exact ⟨_, rfl⟩
  | credit => exact ⟨_, rfl⟩

/-- **A valid set whose legs can be posted is decided**, one event per leg. -/
theorem decidePostings_of_valid {states : States} {anchor : String} {legs : List Leg}
    (h : ValidLegs anchor legs)
    (hcan : ∀ leg ∈ legs, ∃ s, states.lookup leg.accountId = some s ∧ CanPost s leg)
    (transferId : UUID) : ∃ events, decidePostings states anchor legs transferId = .ok events := by
  obtain ⟨events, hevents⟩ :=
    exists_mapM_of_forall (fun leg hleg => postingEvent_of_valid h hleg transferId)
  exact ⟨events, decidePostings_eq_ok.mpr ⟨hcan, mapM_eq_ok.mp hevents⟩⟩

/-! ### Holds -/

/-- The event reserves what the command asks for, until the time to live is over. -/
structure IsPlacement (command : Hold) (holdId : UUID) (now : Datetime) (e : HoldPlaced) :
    Prop where
  accountId : e.accountId = command.accountId
  amount : e.amount = command.amount
  id : e.holdId = holdId
  counterparty : e.counterparty = command.targetAccountId
  expiry : ∃ t, now.addSeconds command.ttlSeconds = some t ∧ e.expiresAt = t.isoformat

theorem admits_holdPlaced {s : AccountState} {e : HoldPlaced} : Admits s (.holdPlaced e) ↔
    s.Matches e.accountId ∧ s.version ≠ maxSignedBigint ∧ e.amount ≤ s.available :=
  ⟨fun h => ⟨h.identity, h.version, h.covers⟩, fun ⟨h₁, h₂, h₃⟩ => ⟨h₁, h₂, h₃⟩⟩

theorem decideHold_eq_ok {s : AccountState} {command : Hold} {holdId : UUID} {now : Datetime}
    {e : HoldPlaced} : decideHold s command holdId now = .ok e ↔
      IsPlacement command holdId now e ∧ Admits s (.holdPlaced e) := by
  simp only [decideHold, require_bind_eq_ok]
  constructor
  · rintro ⟨h₁, h₂, h₃, h⟩
    split at h
    next => cases h
    next t ht =>
      obtain ⟨haccount, hamount, hid, hcounterparty, hexpires⟩ := HoldPlaced.new_eq_ok.mp h
      rw [admits_holdPlaced, haccount, hamount]
      exact ⟨⟨haccount, hamount, hid, hcounterparty, t, ht, hexpires⟩, h₁, h₂, h₃⟩
  · rintro ⟨hplaced, hadmits⟩
    obtain ⟨t, ht, hexpires⟩ := hplaced.expiry
    rw [admits_holdPlaced, hplaced.accountId, hplaced.amount] at hadmits
    obtain ⟨h₁, h₂, h₃⟩ := hadmits
    refine ⟨h₁, h₂, h₃, ?_⟩
    rw [ht]
    exact HoldPlaced.new_eq_ok.mpr
      ⟨hplaced.accountId, hplaced.amount, hplaced.id, hplaced.counterparty, hexpires⟩

/-- The part of the hold that the command captures. -/
def captureAmount (command : PostHold) (hold : OpenHold) : Int := command.amount.getD hold.amount

structure CanCapture (source target : AccountState) (hold : OpenHold) (command : PostHold)
    (now : Datetime) : Prop where
  unexpired : ¬ hold.expiredAt now
  amount : captureAmount command hold ≤ hold.amount
  sourceIdentity : source.Matches command.accountId
  targetIdentity : target.Matches hold.counterparty
  sourceVersion : source.version ≠ maxSignedBigint
  targetVersion : target.version ≠ maxSignedBigint
  covered : hold.amount ≤ source.held ∧ hold.amount ≤ source.balance
  fits : captureAmount command hold ≤ maxSignedBigint - target.balance

/-- The debit and the credit of a capture. -/
structure IsCapture (command : PostHold) (hold : OpenHold) (posted : HoldPosted)
    (credited : TransferLeg) : Prop where
  accountId : posted.accountId = command.accountId
  amount : posted.amount = captureAmount command hold
  holdId : posted.holdId = command.holdId
  counterparty : posted.counterparty = hold.counterparty
  creditedAccount : credited.accountId = hold.counterparty
  creditedAmount : credited.amount = captureAmount command hold
  transferId : credited.transferId = command.holdId
  creditedCounterparty : credited.counterparty = command.accountId

/-- What a capture leaves of the hold is released with it. -/
structure IsRest (command : PostHold) (hold : OpenHold) (released : HoldReleased) : Prop where
  accountId : released.accountId = command.accountId
  amount : released.amount = hold.amount - captureAmount command hold
  holdId : released.holdId = command.holdId
  reason : released.reason = .partialCapture

/-- The events of a capture: of the whole hold, or of a part. -/
inductive Captured (command : PostHold) (hold : OpenHold) : List AccountEvent → Prop
  | whole {posted : HoldPosted} {credited : TransferLeg}
      (capture : IsCapture command hold posted credited)
      (all : ¬ captureAmount command hold < hold.amount) :
      Captured command hold [.holdPosted posted, .transferCredited credited]
  | part {posted : HoldPosted} {credited : TransferLeg} {released : HoldReleased}
      (capture : IsCapture command hold posted credited) (rest : IsRest command hold released)
      (less : captureAmount command hold < hold.amount) :
      Captured command hold [.holdPosted posted, .transferCredited credited, .holdReleased released]

theorem decidePostHold_eq_ok {source target : AccountState} {hold : Option OpenHold}
    {command : PostHold} {now : Datetime} {events : List AccountEvent} :
    decidePostHold source target hold command now = .ok events ↔
      ∃ h, hold = some h ∧ CanCapture source target h command now ∧ Captured command h events := by
  cases hold with
  | none => exact ⟨(fun h => nomatch h), (fun ⟨_, h, _⟩ => nomatch h)⟩
  | some hold =>
    simp only [decidePostHold, require_bind_eq_ok, Option.some.injEq, exists_eq_left']
    constructor
    · rintro ⟨h₁, h₂, h₃, h₄, h₅, h₆, h₇, h₈, h⟩
      obtain ⟨posted, hposted, h⟩ := bind_eq_ok.mp h
      obtain ⟨credited, hcredited, h⟩ := bind_eq_ok.mp h
      obtain ⟨hp₁, hp₂, hp₃, hp₄⟩ := HoldPosted.new_eq_ok.mp hposted
      obtain ⟨hc₁, hc₂, hc₃, hc₄⟩ := TransferLeg.new_eq_ok.mp hcredited
      have hcapture : IsCapture command hold posted credited :=
        ⟨hp₁, hp₂, hp₃, hp₄, hc₁, hc₂, hc₃, hc₄⟩
      refine ⟨⟨h₁, h₂, h₃, h₄, h₅, h₆, h₇, h₈⟩, ?_⟩
      split at h
      next hless =>
        obtain ⟨released, hreleased, h⟩ := bind_eq_ok.mp h
        obtain ⟨hr₁, hr₂, hr₃, hr₄⟩ := HoldReleased.new_eq_ok.mp hreleased
        cases h
        exact .part hcapture ⟨hr₁, hr₂, hr₃, hr₄⟩ hless
      next hall =>
        cases h
        exact .whole hcapture hall
    · rintro ⟨hcan, hcaptured⟩
      refine ⟨hcan.unexpired, hcan.amount, hcan.sourceIdentity, hcan.targetIdentity, hcan.sourceVersion,
        hcan.targetVersion, hcan.covered, hcan.fits, ?_⟩
      cases hcaptured with
      | whole capture all =>
        refine (bind_of (HoldPosted.new_eq_ok.mpr
          ⟨capture.accountId, capture.amount, capture.holdId, capture.counterparty⟩) _).trans ?_
        refine (bind_of (TransferLeg.new_eq_ok.mpr ⟨capture.creditedAccount,
          capture.creditedAmount, capture.transferId, capture.creditedCounterparty⟩) _).trans ?_
        exact if_neg all
      | part capture rest less =>
        refine (bind_of (HoldPosted.new_eq_ok.mpr
          ⟨capture.accountId, capture.amount, capture.holdId, capture.counterparty⟩) _).trans ?_
        refine (bind_of (TransferLeg.new_eq_ok.mpr ⟨capture.creditedAccount,
          capture.creditedAmount, capture.transferId, capture.creditedCounterparty⟩) _).trans ?_
        exact (if_pos less).trans (bind_of (HoldReleased.new_eq_ok.mpr
          ⟨rest.accountId, rest.amount, rest.holdId, rest.reason⟩) _)

theorem admits_holdPosted {s : AccountState} {q : HoldPosted} : Admits s (.holdPosted q) ↔
    s.Matches q.accountId ∧ s.version ≠ maxSignedBigint ∧ q.amount ≤ s.held :=
  ⟨fun h => ⟨h.identity, h.version, h.covers⟩, fun ⟨h₁, h₂, h₃⟩ => ⟨h₁, h₂, h₃⟩⟩

theorem admits_holdReleased {s : AccountState} {e : HoldReleased} : Admits s (.holdReleased e) ↔
    s.Matches e.accountId ∧ s.version ≠ maxSignedBigint ∧ e.amount ≤ s.held :=
  ⟨fun h => ⟨h.identity, h.version, h.covers⟩, fun ⟨h₁, h₂, h₃⟩ => ⟨h₁, h₂, h₃⟩⟩

theorem admits_transferCredited {s : AccountState} {c : TransferLeg} :
    Admits s (.transferCredited c) ↔ s.Matches c.accountId ∧ s.version ≠ maxSignedBigint ∧
      c.amount ≤ maxSignedBigint - s.balance :=
  ⟨fun h => ⟨h.identity, h.version, h.covers⟩, fun ⟨h₁, h₂, h₃⟩ => ⟨h₁, h₂, h₃⟩⟩

/-- The debit and the credit of a capture can be applied. -/
theorem CanCapture.admits {source target : AccountState} {hold : OpenHold} {command : PostHold}
    {now : Datetime} {posted : HoldPosted} {credited : TransferLeg}
    (can : CanCapture source target hold command now)
    (capture : IsCapture command hold posted credited) :
    Admits source (.holdPosted posted) ∧ Admits target (.transferCredited credited) := by
  have hle := can.amount
  have hheld := can.covered.1
  rw [admits_holdPosted, admits_transferCredited, capture.accountId, capture.amount,
    capture.creditedAccount, capture.creditedAmount]
  exact ⟨⟨can.sourceIdentity, can.sourceVersion, by omega⟩, can.targetIdentity, can.targetVersion,
    can.fits⟩

theorem IsCapture.account_ne {hold : OpenHold} {command : PostHold} {posted : HoldPosted}
    {credited : TransferLeg} (h : IsCapture command hold posted credited) :
    command.accountId ≠ hold.counterparty := by
  have hne := credited.counterparty_ne
  rwa [h.creditedCounterparty, h.creditedAccount] at hne

/-- The capture of a part puts two events on the source. -/
theorem filter_part {hold : OpenHold} {command : PostHold} {posted : HoldPosted}
    {credited : TransferLeg} {released : HoldReleased}
    (capture : IsCapture command hold posted credited) (rest : IsRest command hold released)
    (a : String) :
    [AccountEvent.holdPosted posted, .transferCredited credited, .holdReleased released].filter
        (fun e => e.accountId = a) =
      if a = command.accountId then [.holdPosted posted, .holdReleased released]
      else if a = hold.counterparty then [.transferCredited credited] else [] := by
  have hne := capture.account_ne
  by_cases ha : a = command.accountId
  · simp [AccountEvent.accountId, capture.accountId, capture.creditedAccount, rest.accountId, ha,
      hne.symm]
  · by_cases hb : a = hold.counterparty
    · simp [AccountEvent.accountId, capture.accountId, capture.creditedAccount, rest.accountId, hb,
        hne, hne.symm]
    · simp [AccountEvent.accountId, capture.accountId, capture.creditedAccount, rest.accountId, ha,
        hb, Ne.symm ha, Ne.symm hb]

/-- **The source folds the debit and the rest** when it has room for two versions. -/
theorem CanCapture.foldFrom_part {source target : AccountState} {hold : OpenHold}
    {command : PostHold} {now : Datetime} {posted : HoldPosted} {credited : TransferLeg}
    {released : HoldReleased} (can : CanCapture source target hold command now)
    (capture : IsCapture command hold posted credited) (rest : IsRest command hold released)
    (hroom : source.version + 1 ≠ maxSignedBigint) :
    ∃ s, foldFrom source [.holdPosted posted, .holdReleased released] = .ok s := by
  obtain ⟨s, hs, happlied⟩ := apply_of_canApply (e := .holdPosted posted)
    (can.admits capture).1.canApply
  have hadmits : Admits s (.holdReleased released) := by
    rw [admits_holdReleased]
    refine ⟨?_, ?_, ?_⟩
    · intro id hid
      rw [happlied.accountId, Option.mem_some_iff] at hid
      rw [rest.accountId, ← capture.accountId, ← hid]
      rfl
    · rw [happlied.version]
      exact hroom
    · have hheld := can.covered.1
      rw [happlied.held, AccountEvent.heldDelta_holdPosted, capture.amount, rest.amount]
      omega
  rw [foldFrom_cons, hs, ok_bind]
  exact foldFrom_singleton hadmits

structure CanRelease (kind : ReleaseKind) (s : AccountState) (hold : OpenHold)
    (command : ReleaseCommand) (now : Datetime) : Prop where
  expired : kind = .expire → hold.expiredAt now
  identity : s.Matches command.accountId
  version : s.version ≠ maxSignedBigint
  held : hold.amount ≤ s.held

structure IsRelease (kind : ReleaseKind) (hold : OpenHold) (command : ReleaseCommand)
    (e : HoldReleased) : Prop where
  accountId : e.accountId = command.accountId
  amount : e.amount = hold.amount
  holdId : e.holdId = command.holdId
  reason : e.reason = kind.reason

theorem CanRelease.admits {kind : ReleaseKind} {s : AccountState} {hold : OpenHold}
    {command : ReleaseCommand} {now : Datetime} {e : HoldReleased}
    (can : CanRelease kind s hold command now) (release : IsRelease kind hold command e) :
    Admits s (.holdReleased e) := by
  rw [admits_holdReleased, release.accountId, release.amount]
  exact ⟨can.identity, can.version, can.held⟩

theorem decideReleaseHold_eq_ok {kind : ReleaseKind} {s : AccountState} {hold : Option OpenHold}
    {command : ReleaseCommand} {now : Datetime} {e : HoldReleased} :
    decideReleaseHold kind s hold command now = .ok e ↔
      ∃ h, hold = some h ∧ CanRelease kind s h command now ∧ IsRelease kind h command e := by
  cases hold with
  | none => exact ⟨(fun h => nomatch h), (fun ⟨_, h, _⟩ => nomatch h)⟩
  | some hold =>
    simp only [decideReleaseHold, require_bind_eq_ok, Option.some.injEq, exists_eq_left']
    constructor
    · rintro ⟨h₁, h₂, h₃, h₄, h⟩
      obtain ⟨hr₁, hr₂, hr₃, hr₄⟩ := HoldReleased.new_eq_ok.mp h
      exact ⟨⟨h₁, h₂, h₃, h₄⟩, ⟨hr₁, hr₂, hr₃, hr₄⟩⟩
    · rintro ⟨hcan, hrelease⟩
      exact ⟨hcan.expired, hcan.identity, hcan.version, hcan.held, HoldReleased.new_eq_ok.mpr
        ⟨hrelease.accountId, hrelease.amount, hrelease.holdId, hrelease.reason⟩⟩

/-! ### Reverts -/

theorem toEvent_of_movementLeg {e : AccountEvent} {leg : MovementLeg}
    (h : movementLeg? e = some leg) : leg.toEvent = e := by
  cases e <;> cases h <;> rfl

theorem MovementLeg.balanceDelta_of_received (leg : MovementLeg) (h : 0 < leg.balanceSign) :
    leg.toEvent.balanceDelta = leg.amount := by
  cases leg with
  | transferCredited t => exact one_mul _
  | reversalCredited v => exact one_mul _
  | transferDebited t => exact absurd h (show ¬ (0 : Int) < -1 by decide)
  | holdPosted q => exact absurd h (show ¬ (0 : Int) < -1 by decide)
  | reversalDebited v => exact absurd h (show ¬ (0 : Int) < -1 by decide)

theorem MovementLeg.balanceDelta_of_paid (leg : MovementLeg) (h : ¬ 0 < leg.balanceSign) :
    leg.toEvent.balanceDelta = -leg.amount := by
  cases leg with
  | transferDebited t => exact neg_one_mul _
  | holdPosted q => exact neg_one_mul _
  | reversalDebited v => exact neg_one_mul _
  | transferCredited t => exact absurd (show (0 : Int) < 1 by decide) h
  | reversalCredited v => exact absurd (show (0 : Int) < 1 by decide) h

theorem admits_reversalDebited {s : AccountState} {v : ReversalLeg} :
    Admits s (.reversalDebited v) ↔
      s.Matches v.accountId ∧ s.version ≠ maxSignedBigint ∧ v.amount ≤ s.available :=
  ⟨fun h => ⟨h.identity, h.version, h.covers⟩, fun ⟨h₁, h₂, h₃⟩ => ⟨h₁, h₂, h₃⟩⟩

theorem admits_reversalCredited {s : AccountState} {v : ReversalLeg} :
    Admits s (.reversalCredited v) ↔ s.Matches v.accountId ∧ s.version ≠ maxSignedBigint ∧
      v.amount ≤ maxSignedBigint - s.balance :=
  ⟨fun h => ⟨h.identity, h.version, h.covers⟩, fun ⟨h₁, h₂, h₃⟩ => ⟨h₁, h₂, h₃⟩⟩

/-- The event is the mirror of the leg, under the transfer id. -/
inductive IsMirror (leg : MovementLeg) (transferId reverts : UUID) : AccountEvent → Prop
  | debit {e : ReversalLeg} (received : 0 < leg.balanceSign) (account : e.accountId = leg.accountId)
      (amount : e.amount = leg.amount) (id : e.transferId = transferId)
      (counterparty : e.counterparty = leg.counterparty) (names : e.reverts = reverts) :
      IsMirror leg transferId reverts (.reversalDebited e)
  | credit {e : ReversalLeg} (paid : ¬ 0 < leg.balanceSign) (account : e.accountId = leg.accountId)
      (amount : e.amount = leg.amount) (id : e.transferId = transferId)
      (counterparty : e.counterparty = leg.counterparty) (names : e.reverts = reverts) :
      IsMirror leg transferId reverts (.reversalCredited e)

namespace IsMirror

variable {leg : MovementLeg} {transferId reverts : UUID} {e : AccountEvent}

theorem accountId (h : IsMirror leg transferId reverts e) : e.accountId = leg.accountId := by
  cases h with
  | debit _ account _ _ _ _ => exact account
  | credit _ account _ _ _ _ => exact account

theorem amount (h : IsMirror leg transferId reverts e) : e.amount = leg.amount := by
  cases h with
  | debit _ _ amount _ _ _ => exact amount
  | credit _ _ amount _ _ _ => exact amount

/-- **The mirror of a leg moves the opposite amount.** -/
theorem balanceDelta (h : IsMirror leg transferId reverts e) :
    e.balanceDelta = -leg.toEvent.balanceDelta := by
  cases h with
  | @debit e received _ amount _ _ _ =>
    rw [AccountEvent.balanceDelta_reversalDebited, amount, leg.balanceDelta_of_received received]
  | @credit e paid _ amount _ _ _ =>
    rw [AccountEvent.balanceDelta_reversalCredited, amount, leg.balanceDelta_of_paid paid, neg_neg]

theorem heldDelta (h : IsMirror leg transferId reverts e) : e.heldDelta = 0 := by
  cases h with
  | debit => exact AccountEvent.heldDelta_reversalDebited _
  | credit => exact AccountEvent.heldDelta_reversalCredited _

end IsMirror

theorem mirrorLeg_eq_ok {s : AccountState} {leg : MovementLeg} {transferId reverts : UUID}
    {e : AccountEvent} : mirrorLeg s leg transferId reverts = .ok e ↔
      IsMirror leg transferId reverts e ∧ Admits s e := by
  simp only [mirrorLeg, require_bind_eq_ok]
  constructor
  · rintro ⟨h₁, h₂, h⟩
    split at h
    next hsign =>
      obtain ⟨h₃, h⟩ := require_bind_eq_ok.mp h
      obtain ⟨v, hv, rfl⟩ := map_eq_ok.mp h
      obtain ⟨haccount, hamount, hid, hcounterparty, hnames⟩ := ReversalLeg.new_eq_ok.mp hv
      rw [admits_reversalDebited, haccount, hamount]
      exact ⟨.debit hsign haccount hamount hid hcounterparty hnames, h₁, h₂, h₃⟩
    next hsign =>
      obtain ⟨h₃, h⟩ := require_bind_eq_ok.mp h
      obtain ⟨v, hv, rfl⟩ := map_eq_ok.mp h
      obtain ⟨haccount, hamount, hid, hcounterparty, hnames⟩ := ReversalLeg.new_eq_ok.mp hv
      rw [admits_reversalCredited, haccount, hamount]
      exact ⟨.credit hsign haccount hamount hid hcounterparty hnames, h₁, h₂, h₃⟩
  · rintro ⟨hmirror, hadmits⟩
    cases hmirror with
    | debit received account amount id counterparty names =>
      rw [admits_reversalDebited, account, amount] at hadmits
      obtain ⟨h₁, h₂, h₃⟩ := hadmits
      refine ⟨h₁, h₂, (if_pos received).trans ?_⟩
      rw [require_bind_of h₃, ReversalLeg.new_eq_ok.mpr ⟨account, amount, id, counterparty, names⟩]
      rfl
    | credit paid account amount id counterparty names =>
      rw [admits_reversalCredited, account, amount] at hadmits
      obtain ⟨h₁, h₂, h₃⟩ := hadmits
      refine ⟨h₁, h₂, (if_neg paid).trans ?_⟩
      rw [require_bind_of h₃, ReversalLeg.new_eq_ok.mpr ⟨account, amount, id, counterparty, names⟩]
      rfl

/-- The set can be reverted by the command. -/
structure Revertible (legs : List MovementLeg) (command : Revert) (revertedBy : Option UUID) :
    Prop where
  ne_nil : legs ≠ []
  once : revertedBy = none
  anchored : ∃ leg ∈ legs, leg.accountId = command.accountId ∧ leg.balanceSign < 0

theorem requireRevertible_eq_ok {legs : List MovementLeg} {command : Revert}
    {revertedBy : Option UUID} {u : Unit} :
    requireRevertible legs command revertedBy = .ok u ↔ Revertible legs command revertedBy := by
  rw [requireRevertible.eq_def, require_bind_eq_ok]
  cases revertedBy with
  | some id => exact ⟨(fun ⟨_, h⟩ => nomatch h), (fun h => nomatch h.once)⟩
  | none =>
    simp only [require_bind_eq_ok, pure_eq_ok, exists_prop, and_true]
    exact ⟨fun ⟨h₁, h₂⟩ => ⟨h₁, rfl, h₂⟩, fun h => ⟨h.ne_nil, h.anchored⟩⟩

theorem decideRevert_eq_ok {states : States} {originalLegs : List AccountEvent} {command : Revert}
    {transferId : UUID} {revertedBy : Option UUID} {events : List AccountEvent} :
    decideRevert states originalLegs command transferId revertedBy = .ok events ↔
      Revertible (movementLegs originalLegs) command revertedBy ∧
        List.Forall₂ (fun leg e => ∃ s, states.lookup leg.accountId = some s ∧
          IsMirror leg transferId command.transferId e ∧ Admits s e)
          (movementLegs originalLegs) events := by
  simp only [decideRevert, bind_eq_ok, requireRevertible_eq_ok, mapM_eq_ok, getItem_eq_ok,
    mirrorLeg_eq_ok]
  exact ⟨fun ⟨_, h⟩ => h, fun h => ⟨(), h⟩⟩

end Account

end Cloudscale
