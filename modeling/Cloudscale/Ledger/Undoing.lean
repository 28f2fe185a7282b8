import Cloudscale.Ledger.Accepting

/-!
# When a set can be undone

A revert checks the mirror of each leg of its set against the state of the leg's account
(`CanMirror`).  The appends then apply the mirrors one after another (`Undoes`).  Where
every account has one leg these are the same.  Once the result of a set is pruned,
another set can come under its id; then an account can have several legs, and each of
them may fit where all of them do not.

`decideRevert` raises a bare `ValueError` for one reason only: the revert has the id of
the set that it names (`mirrorLeg_self`).
-/

namespace Cloudscale

open Checked Python Streams

namespace Account

/-! ### One leg -/

/-- The account of a leg that received has the amount to spare, and the account of a leg that
paid has room for it. -/
def Returns (balance held : Int) (leg : MovementLeg) : Prop :=
  if 0 < leg.balanceSign then leg.amount ≤ balance - held
  else leg.amount ≤ maxSignedBigint - balance

instance (balance held : Int) (leg : MovementLeg) : Decidable (Returns balance held leg) :=
  inferInstanceAs (Decidable (if 0 < leg.balanceSign then leg.amount ≤ balance - held
    else leg.amount ≤ maxSignedBigint - balance))

/-- The checks of a revert on one leg of its set. -/
structure CanMirror (s : AccountState) (leg : MovementLeg) : Prop where
  identity : s.Matches leg.accountId
  version : s.version ≠ maxSignedBigint
  returns : Returns s.balance s.held leg

section Mirror

variable {s : AccountState} {leg : MovementLeg} {transferId reverts : UUID} {e : AccountEvent}

theorem MovementLeg.amount_pos (leg : MovementLeg) : 0 < leg.amount := leg.toEvent.amount_ok.pos

theorem MovementLeg.counterparty_ok (leg : MovementLeg) :
    ValidAccountId leg.counterparty ∧ leg.counterparty ≠ leg.accountId := by
  cases leg with
  | transferDebited e | transferCredited e | holdPosted e | reversalDebited e | reversalCredited e =>
    exact ⟨e.counterparty_ok, e.counterparty_ne⟩

theorem IsMirror.admits_iff (h : IsMirror leg transferId reverts e) :
    Admits s e ↔ CanMirror s leg := by
  cases h with
  | debit received account amount =>
    rw [admits_reversalDebited, account, amount]
    exact ⟨fun ⟨h₁, h₂, h₃⟩ => ⟨h₁, h₂, (if_pos received).mpr h₃⟩,
      fun ⟨h₁, h₂, h₃⟩ => ⟨h₁, h₂, (if_pos received).mp h₃⟩⟩
  | credit paid account amount =>
    rw [admits_reversalCredited, account, amount]
    exact ⟨fun ⟨h₁, h₂, h₃⟩ => ⟨h₁, h₂, (if_neg paid).mpr h₃⟩,
      fun ⟨h₁, h₂, h₃⟩ => ⟨h₁, h₂, (if_neg paid).mp h₃⟩⟩

/-- The fold asks of a mirror what the decision asks of its leg. -/
theorem IsMirror.canApply_iff (h : IsMirror leg transferId reverts e) :
    CanApply s e ↔ CanMirror s leg := by
  refine ⟨fun hcan => ?_, fun hcan => (h.admits_iff.mpr hcan).canApply⟩
  refine ⟨h.accountId ▸ hcan.identity, hcan.version, ?_⟩
  have hheld := hcan.held_le
  have hcredit := hcan.credit
  have hpos := leg.amount_pos
  rw [h.heldDelta, h.balanceDelta] at hheld
  rw [h.balanceDelta, h.amount] at hcredit
  rw [Returns]
  split
  next received =>
    rw [leg.balanceDelta_of_received received] at hheld
    omega
  next paid =>
    rw [leg.balanceDelta_of_paid paid] at hcredit
    exact hcredit (by omega)

/-- **The mirror of a leg** is what the revert asks for, when it is another set. -/
theorem exists_mirrorLeg_iff :
    (∃ e, mirrorLeg s leg transferId reverts = .ok e) ↔ CanMirror s leg ∧ reverts ≠ transferId := by
  constructor
  · rintro ⟨e, he⟩
    obtain ⟨hmirror, hadmits⟩ := mirrorLeg_eq_ok.mp he
    refine ⟨hmirror.admits_iff.mp hadmits, ?_⟩
    cases hmirror with
    | @debit v _ _ _ id _ names | @credit v _ _ _ id _ names => exact names ▸ id ▸ v.reverts_ne
  · rintro ⟨hcan, hne⟩
    have hvalid := leg.counterparty_ok
    set v : ReversalLeg := ⟨leg.accountId, leg.amount, transferId, leg.counterparty, reverts,
      leg.toEvent.account_ok, leg.toEvent.amount_ok, hne, hvalid.1, hvalid.2⟩
    by_cases hreceived : 0 < leg.balanceSign
    · have hmirror : IsMirror leg transferId reverts (.reversalDebited v) :=
        .debit hreceived rfl rfl rfl rfl rfl
      exact ⟨_, mirrorLeg_eq_ok.mpr ⟨hmirror, hmirror.admits_iff.mpr hcan⟩⟩
    · have hmirror : IsMirror leg transferId reverts (.reversalCredited v) :=
        .credit hreceived rfl rfl rfl rfl rfl
      exact ⟨_, mirrorLeg_eq_ok.mpr ⟨hmirror, hmirror.admits_iff.mpr hcan⟩⟩

/-- **A revert of the set under its own id** raises on the first leg that it can mirror. -/
theorem mirrorLeg_self (hcan : CanMirror s leg) (t : UUID) :
    mirrorLeg s leg t t = .error (.valueError "a reversal cannot revert itself") := by
  have hnew : ReversalLeg.new leg.accountId leg.amount t leg.counterparty t =
      .error (.valueError "a reversal cannot revert itself") := by
    simp only [ReversalLeg.new, ok_bind,
      show validateAccountId leg.accountId = .ok ⟨leg.toEvent.account_ok⟩ from
        validateAccountId_of leg.toEvent.account_ok,
      show validateAmount leg.amount = .ok ⟨leg.toEvent.amount_ok⟩ from
        validateAmount_of leg.toEvent.amount_ok]
    rw [require_of_not (fun h => h rfl)]
    rfl
  have hreturns := hcan.returns
  rw [mirrorLeg, require_bind_of hcan.identity, require_bind_of hcan.version]
  rw [Returns] at hreturns
  split at hreturns
  next received =>
    have hfunds : leg.amount ≤ s.available := hreturns
    rw [if_pos received, requireFunds, require_bind_of hfunds, hnew]
    rfl
  next paid =>
    rw [if_neg paid, requireCreditFits, require_bind_of hreturns, hnew]
    rfl

end Mirror

/-! ### The legs of an account -/

/-- The mirrors of the legs apply one after another, from a version, a balance and what is held
of it. -/
def Undoes (version balance held : Int) : List MovementLeg → Prop
  | [] => True
  | leg :: legs => (version ≠ maxSignedBigint ∧ Returns balance held leg) ∧
    Undoes (version + 1) (balance - leg.toEvent.balanceDelta) held legs

instance decidableUndoes : ∀ (version balance held : Int) (legs : List MovementLeg),
    Decidable (Undoes version balance held legs)
  | _, _, _, [] => inferInstanceAs (Decidable True)
  | version, balance, held, leg :: legs =>
    have := decidableUndoes (version + 1) (balance - leg.toEvent.balanceDelta) held legs
    inferInstanceAs (Decidable ((version ≠ maxSignedBigint ∧ Returns balance held leg) ∧ _))

theorem Undoes.room : ∀ {legs : List MovementLeg} {version balance held : Int},
    Undoes version balance held legs → version ≤ maxSignedBigint →
      version + legs.length ≤ maxSignedBigint := by
  intro legs
  induction legs with
  | nil => intro version balance held _ hle; simpa using hle
  | cons leg legs ih =>
    rintro version balance held ⟨⟨hne, -⟩, h⟩ hle
    have hroom := ih h (by omega)
    rw [List.length_cons]
    push_cast
    omega

/-- **The mirrors fold just when the legs can be undone.** -/
theorem foldFrom_mirrored_iff {transferId reverts : UUID} {a : String} {legs : List MovementLeg}
    {events : List AccountEvent} (hmirrored : List.Forall₂
      (fun leg e => IsMirror leg transferId reverts e) legs events) :
    ∀ {s : AccountState}, s.Matches a → (∀ leg ∈ legs, leg.accountId = a) →
      ((∃ s', foldFrom s events = .ok s') ↔ Undoes s.version s.balance s.held legs) := by
  induction hmirrored with
  | nil => exact fun _ _ => ⟨fun _ => trivial, fun _ => ⟨_, foldFrom_nil _⟩⟩
  | @cons leg e legs events hmirror _ ih =>
    intro s hs haccount
    rw [List.forall_mem_cons] at haccount
    have hcan : CanMirror s leg ↔ s.version ≠ maxSignedBigint ∧ Returns s.balance s.held leg :=
      ⟨fun h => ⟨h.version, h.returns⟩, fun h => ⟨haccount.1 ▸ hs, h.1, h.2⟩⟩
    have hnext : ∀ {s' : AccountState}, Applied s e s' → s'.Matches a ∧
        (Undoes s'.version s'.balance s'.held legs ↔
          Undoes (s.version + 1) (s.balance - leg.toEvent.balanceDelta) s.held legs) := by
      intro s' happlied
      refine ⟨fun id hid => ?_, ?_⟩
      · rw [happlied.accountId, Option.mem_some_iff] at hid
        rw [← hid, hmirror.accountId, haccount.1]
      · rw [happlied.version, happlied.balance, happlied.held, hmirror.balanceDelta,
          hmirror.heldDelta, add_zero, ← sub_eq_add_neg]
    rw [Undoes, ← hcan, ← hmirror.canApply_iff, foldFrom_cons]
    constructor
    · rintro ⟨last, hlast⟩
      obtain ⟨s', hs', hlast⟩ := bind_eq_ok.mp hlast
      obtain ⟨happly, happlied⟩ := apply_eq_ok.mp hs'
      obtain ⟨hmatches, hundoes⟩ := hnext happlied
      exact ⟨happly, hundoes.mp ((ih hmatches haccount.2).mp ⟨last, hlast⟩)⟩
    · rintro ⟨happly, h⟩
      obtain ⟨s', hs', happlied⟩ := apply_of_canApply happly
      obtain ⟨hmatches, hundoes⟩ := hnext happlied
      obtain ⟨last, hlast⟩ := (ih hmatches haccount.2).mpr (hundoes.mpr h)
      exact ⟨last, by rw [hs', ok_bind, hlast]⟩

end Account

open Account

/-! ### The legs of a set -/

/-- The mirrors of the set apply, one after another, to the states of its accounts. -/
def Store.Undoes (s : Store) (t : UUID) : Prop :=
  ∀ a, Account.Undoes (s.account a).version (s.account a).balance (s.account a).held
    ((legsOfRows (s.setOf t)).filter (fun leg => leg.accountId = a))

section Sets

variable {s : Store} {t transferId : UUID} {events : List AccountEvent}

theorem forall₂_filter_mirrored {reverts : UUID} {legs : List MovementLeg}
    (h : List.Forall₂ (fun leg e => IsMirror leg transferId reverts e) legs events) (a : String) :
    List.Forall₂ (fun leg e => IsMirror leg transferId reverts e)
      (legs.filter (fun leg => leg.accountId = a)) (events.filter (fun e => e.accountId = a)) := by
  induction h with
  | nil => exact .nil
  | @cons leg e legs events hmirror _ ih =>
    by_cases ha : leg.accountId = a
    · rw [List.filter_cons_of_pos (by simpa using ha),
        List.filter_cons_of_pos (by simpa [hmirror.accountId] using ha)]
      exact .cons hmirror ih
    · rw [List.filter_cons_of_neg (by simpa using ha),
        List.filter_cons_of_neg (by simpa [hmirror.accountId] using ha)]
      exact ih

/-- **The mirrors of a set fold just when it can be undone.** -/
theorem absorbs_mirrored_iff (hs : s.Readable) (hmirrored : List.Forall₂
    (fun leg e => IsMirror leg transferId t e) (legsOfRows (s.setOf t)) events) :
    s.Absorbs events ↔ s.Undoes t := by
  refine forall_congr' fun a => ?_
  exact foldFrom_mirrored_iff (forall₂_filter_mirrored hmirrored a) (Store.account_matches hs a)
    fun leg hleg => of_decide_eq_true (List.mem_filter.mp hleg).2

theorem hasRoom_mirrored (hmirrored : List.Forall₂ (fun leg e => IsMirror leg transferId t e)
    (legsOfRows (s.setOf t)) events) (h : s.Undoes t) : s.HasRoom events := by
  intro a
  rw [← (forall₂_filter_mirrored hmirrored a).length_eq]
  exact (h a).room (s.account a).valid.version_le

/-- Where every account has one leg, the checks of the decision are enough. -/
theorem undoes_of_nodup (hnodup : ((legsOfRows (s.setOf t)).map MovementLeg.accountId).Nodup)
    (hcan : ∀ leg ∈ legsOfRows (s.setOf t), CanMirror (s.account leg.accountId) leg) :
    s.Undoes t := by
  intro a
  have hone : ((legsOfRows (s.setOf t)).filter (fun leg => leg.accountId = a)).length ≤ 1 := by
    have hcount := List.nodup_iff_count_le_one.mp hnodup a
    rw [List.count, List.countP_map, List.countP_eq_length_filter] at hcount
    simpa only [Function.comp_def, beq_eq_decide] using hcount
  cases hlegs : (legsOfRows (s.setOf t)).filter (fun leg => leg.accountId = a) with
  | nil => trivial
  | cons leg legs =>
    have hleg : leg ∈ (legsOfRows (s.setOf t)).filter (fun leg => leg.accountId = a) := by
      rw [hlegs]
      exact List.mem_cons_self
    obtain ⟨hmem, ha⟩ := List.mem_filter.mp hleg
    obtain rfl := of_decide_eq_true ha
    rw [hlegs, List.length_cons] at hone
    rw [List.length_eq_zero_iff.mp (by omega : legs.length = 0)]
    exact ⟨⟨(hcan leg hmem).version, (hcan leg hmem).returns⟩, trivial⟩

end Sets

end Cloudscale
