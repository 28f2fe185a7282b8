import Cloudscale.Ledger.Linked
import Cloudscale.Projection.RowOrder

/-!
# Reordering the log

What the read models make of the events of a log in another order.  On one row only
a few events of the log meet (`holdLife_log`, `oneReversal_log`,
`pairwise_legRowKey`), so the rows of holds, sets and legs are those of the log
exactly when every settlement comes after its placement and every reversal after its
set (`rows_perm_iff`).  The log itself is in order (`inOrder_log`).
-/

namespace Cloudscale

open Python Precedence

/-! ### What an event says of its row -/

def AccountEvent.Places (holdId : String) (e : AccountEvent) : Prop :=
  ∃ source target amount expiresAt,
    e.holdStatement = some (.place holdId source target amount expiresAt)

def AccountEvent.Settles (holdId : String) (e : AccountEvent) : Prop :=
  ∃ state, e.holdStatement = some (.settle holdId state)

theorem heldRow_eq_some {e : AccountEvent} {holdId : String} (h : e.heldRow = some holdId) :
    ∃ u : UUID, e.setId = some u ∧ holdId = u.str := by
  cases e with
  | holdPlaced e => exact ⟨e.holdId, rfl, (Option.some.inj h).symm⟩
  | holdPosted e => exact ⟨e.holdId, rfl, (Option.some.inj h).symm⟩
  | holdReleased e =>
    refine ⟨e.holdId, rfl, ?_⟩
    rw [AccountEvent.heldRow, AccountEvent.holdStatement] at h
    by_cases hreason : e.reason = .partialCapture
    · rw [if_pos hreason] at h
      cases h
    · rw [if_neg hreason] at h
      exact (Option.some.inj h).symm
  | _ => cases h

theorem transferEffect_fields {e : AccountEvent} {effect : TransferRowEffect}
    (h : e.transferEffect = some effect) :
    (Account.movementLeg? e).isSome ∧ (∃ u : UUID, e.setId = some u ∧ effect.transferId = u.str) ∧
      effect.reverts = e.reverts.map UUID.str ∧ effect.accountId = e.accountId := by
  cases e with
  | transferDebited e | transferCredited e | holdPosted e | reversalDebited e | reversalCredited e =>
    obtain rfl := Option.some.inj h
    exact ⟨rfl, ⟨_, rfl, rfl⟩, rfl, rfl⟩
  | _ => cases h

theorem exists_transferEffect {e : AccountEvent} (h : (Account.movementLeg? e).isSome) :
    ∃ effect, e.transferEffect = some effect := by
  cases e with
  | transferDebited e | transferCredited e | holdPosted e | reversalDebited e | reversalCredited e =>
    exact ⟨_, rfl⟩
  | _ => cases h

/-- The events on the row of a hold are on one account. -/
theorem SetShape.exists_account {rows : List EventRow} (h : SetShape rows) : ∃ a, ∀ r ∈ rows,
    r.event.heldRow ≠ none → r.event.accountId = a := by
  cases h with
  | movement legs =>
    refine ⟨"", fun r hr hrow => absurd ?_ hrow⟩
    have hleg := legs r hr
    cases hevent : r.event with
    | transferDebited | transferCredited | reversalDebited | reversalCredited => rfl
    | deposited | withdrawn | holdPlaced | holdReleased | holdPosted =>
      rw [hevent] at hleg
      cases hleg
  | @placed r p event =>
    exact ⟨r.event.accountId, fun y hy _ => by rw [List.mem_singleton.mp hy]⟩
  | @released r r' p x event releases =>
    refine ⟨p.accountId, fun y hy _ => ?_⟩
    rcases List.mem_pair.mp hy with rfl | rfl
    · rw [event]
      rfl
    · rw [releases.event]
      exact releases.account
  | @captured r posted credited p rows rest q c event settles =>
    refine ⟨p.accountId, fun y hy hrow => ?_⟩
    rcases List.mem_cons.mp hy with rfl | hy
    · rw [event]
      rfl
    rcases List.mem_cons.mp (settles.perm.mem_iff.mp hy) with rfl | hy
    · rw [settles.posts]
      exact settles.postedAccount
    rcases List.mem_cons.mp hy with rfl | hy
    · rw [settles.credits] at hrow
      exact absurd rfl hrow
    · cases settles.closes with
      | whole => cases hy
      | part hevent account =>
        rw [List.mem_singleton.mp hy, hevent]
        exact account

/-! ### The life of a hold -/

/-- The events on the row of a hold: nothing, its placement, or that and its settlement. -/
inductive HoldLife (holdId : String) : List AccountEvent → Prop
  | unused : HoldLife holdId []
  | placed {p : AccountEvent} (place : p.Places holdId) : HoldLife holdId [p]
  | settled {p x : AccountEvent} {state : String} (place : p.Places holdId)
      (settle : x.holdStatement = some (.settle holdId state)) (closed : state ≠ "open") :
      HoldLife holdId [p, x]

theorem filter_heldRow_legs {rows : List EventRow} (h : ∀ r ∈ rows, r.event.IsLeg)
    (holdId : String) :
    (rows.map EventRow.event).filter (fun e => e.heldRow = some holdId) = [] := by
  rw [List.filter_eq_nil_iff]
  intro e he
  obtain ⟨r, hr, rfl⟩ := List.mem_map.mp he
  have hleg := h r hr
  cases hevent : r.event with
  | transferDebited | transferCredited | reversalDebited | reversalCredited =>
    exact fun hrow => nomatch of_decide_eq_true hrow
  | deposited | withdrawn | holdPlaced | holdReleased | holdPosted =>
    rw [hevent] at hleg
    cases hleg

/-- **The rows of one id are the life of one hold.** -/
theorem holdLife_of_shape {t : UUID} {rows : List EventRow} (h : SetShape rows)
    (hid : ∀ r ∈ rows, r.event.setId = some t) :
    HoldLife t.str ((rows.map EventRow.event).filter (fun e => e.heldRow = some t.str)) := by
  have hplaced : ∀ {r : EventRow} {p : HoldPlaced}, r.event = .holdPlaced p → r ∈ rows →
      r.event.heldRow = some t.str ∧ r.event.Places t.str := by
    intro r p hevent hr
    have ht := hid r hr
    rw [hevent] at ht ⊢
    obtain rfl := Option.some.inj ht
    exact ⟨rfl, _, _, _, _, rfl⟩
  cases h with
  | movement legs =>
    rw [filter_heldRow_legs legs]
    exact .unused
  | placed event =>
    obtain ⟨hrow, hplaces⟩ := hplaced event List.mem_cons_self
    rw [List.map_singleton, List.filter_cons_of_pos (by simpa using hrow)]
    exact .placed hplaces
  | @released r r' p x event releases =>
    obtain ⟨hrow, hplaces⟩ := hplaced event List.mem_cons_self
    have ht := hid r' (List.mem_cons_of_mem _ List.mem_cons_self)
    have hsettle : r'.event.holdStatement = some (.settle t.str x.reason.text) := by
      rw [releases.event] at ht ⊢
      obtain rfl := Option.some.inj ht
      exact if_neg releases.reason
    have hrow' : r'.event.heldRow = some t.str := by
      rw [AccountEvent.heldRow, hsettle]
    rw [List.map_cons, List.map_singleton, List.filter_cons_of_pos (by simpa using hrow),
      List.filter_cons_of_pos (by simpa using hrow')]
    refine .settled hplaces hsettle ?_
    cases x.reason <;> decide
  | @captured r posted credited p rows rest q c event settles =>
    obtain ⟨hrow, hplaces⟩ := hplaced event List.mem_cons_self
    have hposted : posted ∈ rows := settles.perm.mem_iff.mpr List.mem_cons_self
    have ht := hid posted (List.mem_cons_of_mem _ hposted)
    have hsettle : posted.event.holdStatement = some (.settle t.str "posted") := by
      rw [settles.posts] at ht ⊢
      obtain rfl := Option.some.inj ht
      rfl
    have hrow' : posted.event.heldRow = some t.str := by
      rw [AccountEvent.heldRow, hsettle]
    have hrest : (rest.map EventRow.event).filter (fun e => e.heldRow = some t.str) = [] := by
      cases settles.closes with
      | whole => rfl
      | part hevent account amount reason =>
        rw [List.map_singleton, hevent, List.filter_cons_of_neg, List.filter_nil]
        rw [AccountEvent.heldRow, AccountEvent.holdStatement, if_pos reason]
        intro h
        cases of_decide_eq_true h
    have hcredited : credited.event.heldRow ≠ some t.str := by
      rw [settles.credits]
      intro h
      cases h
    have hperm := (settles.perm.map EventRow.event).filter (fun e => e.heldRow = some t.str)
    rw [List.map_cons, List.map_cons, List.filter_cons_of_pos (by simpa using hrow'),
      List.filter_cons_of_neg (by simpa using hcredited), hrest, List.perm_singleton] at hperm
    rw [List.map_cons, List.filter_cons_of_pos (by simpa using hrow), hperm]
    exact .settled hplaces hsettle (by decide)

/-- **The log has at most one life of a hold.** -/
theorem holdLife_log (calls : List Call) (holdId : String) :
    HoldLife holdId (((storeAfter calls).events.map EventRow.event).filter
      (fun e => e.heldRow = some holdId)) := by
  by_cases hu : ∃ u : UUID, holdId = u.str
  · obtain ⟨u, rfl⟩ := hu
    have hshape := (ledger_storeAfter calls).coherent.shapes u
    have hlife := holdLife_of_shape hshape fun r hr => Store.setId_of_mem hr
    have hfilter : (((storeAfter calls).setOf u).map EventRow.event).filter
        (fun e => e.heldRow = some u.str) =
        ((storeAfter calls).events.map EventRow.event).filter (fun e => e.heldRow = some u.str) := by
      rw [Store.setOf, List.filter_map, List.filter_map, List.filter_filter]
      refine congrArg _ (List.filter_congr fun r _ => ?_)
      by_cases hrow : r.event.heldRow = some u.str
      · obtain ⟨v, hv, hstr⟩ := heldRow_eq_some hrow
        obtain rfl := UUID.str_injective hstr
        simp [hv]
      · simp [hrow]
    rw [← hfilter]
    exact hlife
  · have hnil : ((storeAfter calls).events.map EventRow.event).filter
        (fun e => e.heldRow = some holdId) = [] := by
      rw [List.filter_eq_nil_iff]
      intro e _ he
      obtain ⟨u, -, hstr⟩ := heldRow_eq_some (of_decide_eq_true he)
      exact hu ⟨u, hstr⟩
    rw [hnil]
    exact .unused

theorem heldRow_of_settles {holdId : String} {x : AccountEvent} (h : x.Settles holdId) :
    x.heldRow = some holdId := by
  obtain ⟨state, hstate⟩ := h
  rw [AccountEvent.heldRow, hstate]

theorem heldRow_of_places {holdId : String} {p : AccountEvent} (h : p.Places holdId) :
    p.heldRow = some holdId := by
  obtain ⟨source, target, amount, expiresAt, hplace⟩ := h
  rw [AccountEvent.heldRow, hplace]

theorem not_settles_of_places {holdId : String} {p : AccountEvent} (h : p.Places holdId) :
    ¬ p.Settles holdId := by
  rintro ⟨state, hstate⟩
  obtain ⟨source, target, amount, expiresAt, hplace⟩ := h
  rw [hplace] at hstate
  cases hstate

/-- **Two orders agree on the row of a hold exactly when its settlement comes after its
placement.** -/
theorem onHold_perm_iff {holdId : String} {es fs : List AccountEvent} (hperm : fs.Perm es)
    (hlife : HoldLife holdId (es.filter (fun e => e.heldRow = some holdId))) :
    fs.foldl (AccountEvent.onHold holdId) none = es.foldl (AccountEvent.onHold holdId) none ↔
      ∀ x ∈ fs, x.Settles holdId → ∃ p, p.Places holdId ∧ Before fs p x := by
  have hfixed : ∀ row e, ¬ decide (e.heldRow = some holdId) →
      AccountEvent.onHold holdId row e = row :=
    fun row e he => onHold_of_ne (by simpa using he)
  rw [← foldl_filter_of_fixed hfixed fs, ← foldl_filter_of_fixed hfixed es]
  have hfilter := hperm.filter (fun e => decide (e.heldRow = some holdId))
  -- A settlement is among the events on the row.
  have hmem : ∀ x ∈ fs, x.Settles holdId →
      x ∈ fs.filter (fun e => decide (e.heldRow = some holdId)) := fun x hx hsettles =>
    List.mem_filter.mpr ⟨hx, by simpa using heldRow_of_settles hsettles⟩
  generalize hes : es.filter (fun e => decide (e.heldRow = some holdId)) = ess at *
  generalize hfs : fs.filter (fun e => decide (e.heldRow = some holdId)) = fss at *
  cases hlife with
  | unused =>
    rw [hfilter.eq_nil] at hmem ⊢
    exact iff_of_true rfl fun x hx hsettles => nomatch hmem x hx hsettles
  | placed place =>
    rw [List.perm_singleton.mp hfilter] at hmem ⊢
    refine iff_of_true rfl fun x hx hsettles => ?_
    rw [List.mem_singleton.mp (hmem x hx hsettles)] at hsettles
    exact absurd hsettles (not_settles_of_places place)
  | @settled p x state place settle closed =>
    have hplace := place
    obtain ⟨source, target, amount, expiresAt, hstatement⟩ := place
    rcases List.perm_pair.mp hfilter with rfl | rfl
    · refine iff_of_true rfl fun y hy hsettles => ⟨p, hplace, ?_⟩
      have hpair : Before (fs.filter (fun e => decide (e.heldRow = some holdId))) p x := by
        rw [hfs]
        exact List.Sublist.refl _
      have hbefore := (before_filter_iff.mp hpair).1
      rcases List.mem_cons.mp (hmem y hy hsettles) with rfl | hy'
      · exact absurd hsettles (not_settles_of_places hplace)
      · rwa [List.mem_singleton.mp hy']
    · rw [onHold_placed_first hstatement settle, onHold_placed_last hstatement settle]
      refine iff_of_false (fun h => closed ?_) fun h => ?_
      · rw [Option.some.injEq, HoldRow.mk.injEq] at h
        exact h.2.2.2.2.symm
      · have hx : x ∈ fs := List.mem_of_mem_filter (hfs ▸ List.mem_cons_self)
        obtain ⟨p', hp', hbefore⟩ := h x hx ⟨state, settle⟩
        have hpair : Before [x, p] p' x := by
          rw [← hfs]
          exact before_filter_iff.mpr ⟨hbefore, by simpa using heldRow_of_places hp',
            by simpa using heldRow_of_settles ⟨state, settle⟩⟩
        have heq := List.Sublist.eq_of_length hpair rfl
        rw [List.cons.injEq] at heq
        exact not_settles_of_places hp' (heq.1 ▸ ⟨state, settle⟩)

/-! ### The legs of a set -/

section Log

variable {calls : List Call}

theorem mem_log {e : AccountEvent} (h : e ∈ (storeAfter calls).events.map EventRow.event) :
    ∃ r ∈ (storeAfter calls).events, r.event = e := List.mem_map.mp h

theorem setId_of_str {e e' : AccountEvent} {t t' : UUID} (ht : e.setId = some t)
    (ht' : e'.setId = some t') (hstr : t.str = t'.str) : e.setId = e'.setId := by
  rw [ht, ht', UUID.str_injective hstr]

/-- **A set of the log has one reversal.** -/
theorem oneReversal_log (calls : List Call) (t : String) : ∃ reverts reverter,
    OneReversal t reverts reverter ((storeAfter calls).events.map EventRow.event) := by
  -- The set that the legs of the set revert.
  have hlegs : ∃ reverts, ∀ e ∈ (storeAfter calls).events.map EventRow.event, ∀ effect,
      e.transferEffect = some effect → effect.transferId = t → effect.reverts = reverts := by
    by_cases hleg : ∃ e ∈ (storeAfter calls).events.map EventRow.event, e.LegOf t
    · obtain ⟨e₀, he₀, effect₀, heffect₀, rfl⟩ := hleg
      obtain ⟨r₀, hr₀, rfl⟩ := mem_log he₀
      obtain ⟨hleg₀, ⟨u₀, hu₀, hstr₀⟩, hreverts₀, -⟩ := transferEffect_fields heffect₀
      refine ⟨effect₀.reverts, fun e he effect heffect ht => ?_⟩
      obtain ⟨r, hr, rfl⟩ := mem_log he
      obtain ⟨hleg, ⟨u, hu, hstr⟩, hreverts, -⟩ := transferEffect_fields heffect
      have hid := setId_of_str hu hu₀ (by rw [← hstr, ← hstr₀, ht])
      rw [hreverts, hreverts₀, legs_revert_one calls hr hr₀ hid hleg hleg₀]
    · exact ⟨none, fun e he effect heffect ht => absurd ⟨e, he, effect, heffect, ht⟩ hleg⟩
  -- The set that reverts the set.
  have hmarks : ∃ reverter, ∀ e ∈ (storeAfter calls).events.map EventRow.event, ∀ effect,
      e.transferEffect = some effect → effect.marksReverted = some t →
      effect.transferId = reverter := by
    by_cases hmark : ∃ e ∈ (storeAfter calls).events.map EventRow.event, e.Marks t
    · obtain ⟨e₀, he₀, effect₀, heffect₀, hmark₀⟩ := hmark
      obtain ⟨r₀, hr₀, rfl⟩ := mem_log he₀
      obtain ⟨-, ⟨u₀, hu₀, hstr₀⟩, hreverts₀, -⟩ := transferEffect_fields heffect₀
      refine ⟨effect₀.transferId, fun e he effect heffect hmark => ?_⟩
      obtain ⟨r, hr, rfl⟩ := mem_log he
      obtain ⟨-, ⟨u, hu, hstr⟩, hreverts, -⟩ := transferEffect_fields heffect
      rw [TransferRowEffect.marksReverted] at hmark₀ hmark
      rw [hreverts₀] at hmark₀
      rw [hreverts] at hmark
      obtain ⟨v₀, hv₀, hvstr₀⟩ := Option.map_eq_some_iff.mp hmark₀
      obtain ⟨v, hv, hvstr⟩ := Option.map_eq_some_iff.mp hmark
      have hsame : SameOriginal r r₀ :=
        ⟨by simp [hv], by rw [hv, hv₀, UUID.str_injective (hvstr.trans hvstr₀.symm)]⟩
      have hid := reverted_by_one calls hr hr₀ hsame
      rw [hu, hu₀, Option.some.injEq] at hid
      rw [hstr, hstr₀, hid]
    · exact ⟨"", fun e he effect heffect hmark' => absurd ⟨e, he, effect, heffect, hmark'⟩ hmark⟩
  obtain ⟨reverts, hlegs⟩ := hlegs
  obtain ⟨reverter, hmarks⟩ := hmarks
  refine ⟨reverts, reverter, hlegs, hmarks, fun e he effect heffect hmark ht => ?_⟩
  obtain ⟨r, hr, rfl⟩ := mem_log he
  obtain ⟨-, ⟨u, hu, hstr⟩, hreverts, -⟩ := transferEffect_fields heffect
  rw [TransferRowEffect.marksReverted, hreverts] at hmark
  obtain ⟨v, hv, hvstr⟩ := Option.map_eq_some_iff.mp hmark
  refine (reverses_storeAfter calls r hr v hv).apart ?_
  rw [hu, UUID.str_injective ((hstr.symm.trans ht).trans hvstr.symm)]

/-- **A mark in the log comes after a leg of its set.** -/
theorem markedAfter_log {t : String} {z : AccountEvent}
    (hz : z ∈ (storeAfter calls).events.map EventRow.event) (hmark : z.Marks t) :
    MarkedAfter t ((storeAfter calls).events.map EventRow.event) := by
  obtain ⟨effect, heffect, hmark'⟩ := id hmark
  obtain ⟨r, hr, rfl⟩ := mem_log hz
  obtain ⟨-, -, hreverts, -⟩ := transferEffect_fields heffect
  rw [TransferRowEffect.marksReverted, hreverts] at hmark'
  obtain ⟨v, hv, hvstr⟩ := Option.map_eq_some_iff.mp hmark'
  obtain ⟨x, hid, hleg, hbefore⟩ := (reverses_storeAfter calls r hr v hv).after
  obtain ⟨effect', heffect'⟩ := exists_transferEffect hleg
  obtain ⟨-, ⟨u, hu, hstr⟩, -, -⟩ := transferEffect_fields heffect'
  rw [hid, Option.some.injEq] at hu
  exact ⟨x.event, r.event, before_map_iff.mpr ⟨x, r, hbefore, rfl, rfl⟩,
    ⟨effect', heffect', by rw [hstr, ← hu, hvstr]⟩, hmark⟩

/-- **A set of the log has one leg on an account.** -/
theorem pairwise_legRowKey (calls : List Call) (key : String × String) :
    ((storeAfter calls).events.map EventRow.event).Pairwise
      (fun x y => ¬ (decide (x.legRowKey = some key) ∧ decide (y.legRowKey = some key))) := by
  have hfields : ∀ {e : AccountEvent}, e.legRowKey = some key → ∃ u : UUID, ∃ leg,
      key.1 = u.str ∧ e.setId = some u ∧ Account.movementLeg? e = some leg ∧
        leg.accountId = key.2 := by
    intro e hkey
    obtain ⟨effect, heffect, rfl⟩ := Option.map_eq_some_iff.mp hkey
    obtain ⟨hleg, ⟨u, hu, hstr⟩, -, haccount⟩ := transferEffect_fields heffect
    obtain ⟨leg, hleg⟩ := Option.isSome_iff_exists.mp hleg
    refine ⟨u, leg, hstr, hu, hleg, ?_⟩
    rw [haccount]
    cases e <;> cases hleg <;> rfl
  rw [List.pairwise_map]
  by_cases hu : ∃ u : UUID, key.1 = u.str
  · obtain ⟨u, hu⟩ := hu
    have hnodup := ((ledger_storeAfter calls).coherent.shapes u).legs_nodup
    rw [List.Nodup, legsOfRows, Account.movementLegs, List.pairwise_map, List.pairwise_filterMap,
      List.pairwise_map, Store.setOf, List.pairwise_filter] at hnodup
    refine hnodup.imp fun {x y} h hkeys => ?_
    obtain ⟨v, leg, hv, hid, hleg, haccount⟩ := hfields (of_decide_eq_true hkeys.1)
    obtain ⟨v', leg', hv', hid', hleg', haccount'⟩ := hfields (of_decide_eq_true hkeys.2)
    obtain rfl := UUID.str_injective (hu.symm.trans hv)
    obtain rfl := UUID.str_injective (hu.symm.trans hv')
    exact h (by simpa using hid) (by simpa using hid') leg hleg leg' hleg'
      (haccount.trans haccount'.symm)
  · refine List.pairwise_of_forall fun x y h => ?_
    obtain ⟨v, -, hv, -⟩ := hfields (of_decide_eq_true h.1)
    exact hu ⟨v, hv⟩

/-! ### Order -/

/-- Every settlement comes after its placement, and of every reversal some leg comes
after a leg of the set that it reverts. -/
structure InOrder (es : List AccountEvent) : Prop where
  holds : ∀ x ∈ es, ∀ holdId, x.Settles holdId → ∃ p, p.Places holdId ∧ Before es p x
  reversals : ∀ z ∈ es, ∀ t, z.Marks t → MarkedAfter t es

/-- **The rows of an order of the log are those of the log exactly when it is in order.** -/
theorem rows_perm_iff {es : List AccountEvent}
    (hperm : es.Perm ((storeAfter calls).events.map EventRow.event)) :
    ((∀ holdId, es.foldl (AccountEvent.onHold holdId) none =
        ((storeAfter calls).events.map EventRow.event).foldl (AccountEvent.onHold holdId) none) ∧
      (∀ t, es.foldl (AccountEvent.onTransfer t) none =
        ((storeAfter calls).events.map EventRow.event).foldl (AccountEvent.onTransfer t) none)) ↔
      InOrder es := by
  have hmarked : ∀ t, (∃ z ∈ es, z.Marks t) → (∃ e ∈ (storeAfter calls).events.map EventRow.event,
      e.LegOf t) ∧ MarkedAfter t ((storeAfter calls).events.map EventRow.event) := by
    rintro t ⟨z, hz, hmark⟩
    have hafter := markedAfter_log (hperm.mem_iff.mp hz) hmark
    refine ⟨?_, hafter⟩
    obtain ⟨x, z', hbefore, hx, -⟩ := hafter
    exact ⟨x, hbefore.mem_left, hx⟩
  constructor
  · rintro ⟨hholds, htransfers⟩
    refine ⟨fun x hx holdId hsettles => ?_, fun z hz t hmark => ?_⟩
    · exact (onHold_perm_iff hperm (holdLife_log calls holdId)).mp (hholds holdId) x hx hsettles
    · obtain ⟨reverts, reverter, hone⟩ := oneReversal_log calls t
      obtain ⟨hleg, hafter⟩ := hmarked t ⟨z, hz, hmark⟩
      exact ((onTransfer_perm_iff hperm hone).mp (htransfers t) hleg).mpr hafter
  · intro horder
    refine ⟨fun holdId => ?_, fun t => ?_⟩
    · exact (onHold_perm_iff hperm (holdLife_log calls holdId)).mpr fun x hx hsettles =>
        horder.holds x hx holdId hsettles
    · obtain ⟨reverts, reverter, hone⟩ := oneReversal_log calls t
      refine (onTransfer_perm_iff hperm hone).mpr fun _ => ⟨fun h => ?_, fun h => ?_⟩
      · obtain ⟨x, z, hbefore, -, hmark⟩ := h
        exact (hmarked t ⟨z, hbefore.mem_right, hmark⟩).2
      · obtain ⟨x, z, hbefore, -, hmark⟩ := h
        exact horder.reversals z (hperm.mem_iff.mpr hbefore.mem_right) t hmark

/-- The rows of the legs do not depend on the order. -/
theorem onLeg_perm {es : List AccountEvent}
    (hperm : es.Perm ((storeAfter calls).events.map EventRow.event)) (key : String × String) :
    es.foldl (AccountEvent.onLeg key) none =
      ((storeAfter calls).events.map EventRow.event).foldl (AccountEvent.onLeg key) none :=
  foldl_perm_of_pairwise (fun _ _ he => onLeg_of_ne (by simpa using he)) hperm
    (pairwise_legRowKey calls key) none

end Log

end Cloudscale
