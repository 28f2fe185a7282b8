import Cloudscale.Projection.Unparking

/-!
# The query for expired holds

`openHoldsExpiredAt` compares texts: the expiry that a row keeps against the
`isoformat` of the clock.  A hold is placed with the `isoformat` of an instant
(`stamped_log`), and these texts are ordered as the instants are, so the query
compares the instants (`HoldPlaced.Stamped.le_iff`).

The row of a hold is open exactly as long as the placement is all that the events
say of the hold (`openRow_iff`), and so is the hold that the decisions derive from
the stream (`openHold_iff`).  `expired_holds_selected` puts this together: after any
part of the log the query answers the open holds that have expired, and no others.
-/

namespace Cloudscale

open Checked Python Tables Account

/-! ### The query -/

structure ExpiredHold where
  holdId : String
  source : String
  target : String
  amount : Int
  expiresAt : String
  deriving DecidableEq

def HoldRow.answer (holdId : String) (row : HoldRow) : ExpiredHold :=
  ⟨holdId, row.source, row.target, row.amount, row.expiresAt⟩

def ReadModels.openHoldsExpiredAt {V : Type} (models : ReadModels V) (nowIso : String) :
    List ExpiredHold :=
  ((models.holds.entries.filter (fun e => e.2.state = "open" ∧ e.2.expiresAt ≤ nowIso)).map
    (fun e => e.2.answer e.1)).insertionSort (fun hold hold' => hold.expiresAt ≤ hold'.expiresAt)

theorem mem_openHoldsExpiredAt {V : Type} {models : ReadModels V} {nowIso : String}
    {answer : ExpiredHold} : answer ∈ models.openHoldsExpiredAt nowIso ↔
      ∃ holdId row, (models.holds.find holdId = some row ∧ row.state = "open") ∧
        row.expiresAt ≤ nowIso ∧ answer = row.answer holdId := by
  rw [ReadModels.openHoldsExpiredAt, (List.perm_insertionSort _ _).mem_iff, List.mem_map]
  constructor
  · rintro ⟨⟨holdId, row⟩, hmem, rfl⟩
    obtain ⟨hrow, hwhere⟩ := List.mem_filter.mp hmem
    obtain ⟨hopen, hexpired⟩ := of_decide_eq_true hwhere
    exact ⟨holdId, row, ⟨Table.mem_entries_iff.mp hrow, hopen⟩, hexpired, rfl⟩
  · rintro ⟨holdId, row, ⟨hrow, hopen⟩, hexpired, rfl⟩
    exact ⟨(holdId, row), List.mem_filter.mpr
      ⟨Table.mem_entries_iff.mpr hrow, decide_eq_true ⟨hopen, hexpired⟩⟩, rfl⟩

/-! ### Stamps -/

/-- The text of the expiry is the `isoformat` of an instant. -/
def HoldPlaced.Stamped (p : HoldPlaced) : Prop := ∃ t : Datetime, p.expiresAt = t.isoformat

/-- **The text of an expiry compares with the clock as the expiry does.** -/
theorem HoldPlaced.Stamped.le_iff {p : HoldPlaced} (h : p.Stamped) (now : Datetime) :
    p.expiresAt ≤ now.isoformat ↔ (openHoldOf p).expiredAt now := by
  obtain ⟨t, ht⟩ := h
  have hexpiry : (openHoldOf p).expiry = t := by
    refine Option.get_of_eq_some _ ?_
    show expiryOf p.expiresAt = some t
    rw [ht, expiryOf_isoformat]
  rw [OpenHold.expiredAt, hexpiry, ht, Datetime.isoformat_le_iff]

theorem stamped_of_placement {c : Hold} {holdId : UUID} {now : Datetime} {p : HoldPlaced}
    (h : IsPlacement c holdId now p) : p.Stamped := by
  obtain ⟨t, -, ht⟩ := h.expiry
  exact ⟨t, ht⟩

theorem stamped_of_decideHold {state : AccountState} {command : Hold} {holdId : UUID}
    {now : Datetime} {p : HoldPlaced} (h : decideHold state command holdId now = .ok p) :
    p.Stamped := stamped_of_placement (decideHold_eq_ok.mp h).1

/-- A placement among decided events is that of a hold command. -/
theorem stamped_of_decided {s : Store} {request : NormalizedCommand} {now : Datetime}
    {events : List AccountEvent} (h : Decided s request now events) {p : HoldPlaced}
    (hp : .holdPlaced p ∈ events) : p.Stamped := by
  cases h with
  | deposit | withdraw | release => cases List.mem_singleton.mp hp
  | postings command admits posted =>
    obtain ⟨leg, -, he⟩ := exists_of_mem_right posted _ hp
    cases isPosting_of_ok he
  | hold command placement =>
    cases List.mem_singleton.mp hp
    exact stamped_of_placement placement
  | capture command found can captured =>
    cases captured with
    | whole => simp at hp
    | part => simp at hp
  | reversal command revertible once mirrored =>
    obtain ⟨leg, -, he, -⟩ := exists_of_mem_right mirrored _ hp
    cases he

/-- **Every expiry in the log is stamped.** -/
theorem stamped_log (calls : List Call) : ∀ r ∈ (storeAfter calls).events, ∀ p,
    r.event = .holdPlaced p → p.Stamped := by
  have hstep : ∀ s call, (s.Ledger ∧ ∀ r ∈ s.events, ∀ p, r.event = .holdPlaced p → p.Stamped) →
      (next s call).Ledger ∧
        ∀ r ∈ (next s call).events, ∀ p, r.event = .holdPlaced p → p.Stamped := by
    rintro s call ⟨hledger, hstamped⟩
    refine ⟨hledger.next, fun r hr p hp => ?_⟩
    rw [next_events hledger.coherent.readable, List.mem_append] at hr
    rcases hr with hr | hr
    · exact hstamped r hr p hp
    · obtain ⟨events, -, -, decided, hmem, -⟩ :=
        decided_of_mem_appended hledger.coherent.readable hr
      rw [hp] at hmem
      exact stamped_of_decided decided hmem
  exact (Runs.run_invariant next hstep calls ⟨Store.ledger_empty, fun r hr => nomatch hr⟩).2

/-! ### Open rows -/

theorem HoldLife.upTo {holdId : String} {es fs : List AccountEvent} (h : HoldLife holdId es)
    (hstart : fs <+: es) : HoldLife holdId fs := by
  cases h with
  | unused =>
    rw [List.prefix_nil.mp hstart]
    exact .unused
  | placed place =>
    rcases List.prefix_cons_iff.mp hstart with rfl | ⟨rest, rfl, hrest⟩
    · exact .unused
    · rw [List.prefix_nil.mp hrest]
      exact .placed place
  | settled place settle closed =>
    rcases List.prefix_cons_iff.mp hstart with rfl | ⟨rest, rfl, hrest⟩
    · exact .unused
    · rcases List.prefix_cons_iff.mp hrest with rfl | ⟨last, rfl, hlast⟩
      · exact .placed place
      · rw [List.prefix_nil.mp hlast]
        exact .settled place settle closed

theorem eq_holdPlaced_of_places {holdId : String} {e : AccountEvent} (h : e.Places holdId) :
    ∃ p, e = .holdPlaced p ∧ p.holdId.str = holdId := by
  obtain ⟨source, target, amount, expiresAt, hplace⟩ := h
  cases e with
  | holdPlaced p =>
    obtain ⟨hid, -⟩ := HoldStatement.place.inj (Option.some.inj hplace)
    exact ⟨p, rfl, hid⟩
  | holdReleased x =>
    rw [AccountEvent.holdStatement] at hplace
    split at hplace <;> cases hplace
  | _ => cases hplace

/-- The placement is all that the events say of the hold. -/
def OnlyPlaced (holdId : String) (es : List AccountEvent) (p : HoldPlaced) : Prop :=
  es.filter (fun e => e.heldRow = some holdId) = [.holdPlaced p]

theorem OnlyPlaced.holdId {holdId : String} {es : List AccountEvent} {p : HoldPlaced}
    (h : OnlyPlaced holdId es p) : p.holdId.str = holdId := by
  have hmem : AccountEvent.holdPlaced p ∈ es.filter (fun e => e.heldRow = some holdId) := by
    rw [h]
    exact List.mem_singleton.mpr rfl
  exact Option.some.inj (of_decide_eq_true (List.mem_filter.mp hmem).2)

/-- **A row is open as long as the placement is all there is.** -/
theorem openRow_iff {holdId : String} {es : List AccountEvent} {row : HoldRow}
    (h : HoldLife holdId (es.filter (fun e => e.heldRow = some holdId))) :
    (es.foldl (AccountEvent.onHold holdId) none = some row ∧ row.state = "open") ↔
      ∃ p, OnlyPlaced holdId es p ∧
        row = ⟨p.accountId, p.counterparty, p.amount, p.expiresAt, "open"⟩ := by
  have hfixed : ∀ row e, ¬ Decidable.decide (e.heldRow = some holdId) →
      AccountEvent.onHold holdId row e = row :=
    fun row e he => onHold_of_ne (by simpa using he)
  rw [← Precedence.foldl_filter_of_fixed hfixed es]
  simp only [OnlyPlaced]
  generalize es.filter (fun e => e.heldRow = some holdId) = ess at h ⊢
  cases h with
  | unused => exact ⟨(fun h => nomatch h.1), fun ⟨p, hp, _⟩ => nomatch hp⟩
  | placed place =>
    obtain ⟨p, rfl, rfl⟩ := eq_holdPlaced_of_places place
    rw [List.foldl_cons, List.foldl_nil, onHold_place rfl]
    constructor
    · rintro ⟨hrow, -⟩
      exact ⟨p, rfl, (Option.some.inj hrow).symm⟩
    · rintro ⟨p', hp', rfl⟩
      cases hp'
      exact ⟨rfl, rfl⟩
  | settled place settle closed =>
    obtain ⟨source, target, amount, expiresAt, hplace⟩ := place
    rw [onHold_placed_first hplace settle]
    refine ⟨fun ⟨hrow, hopen⟩ => ?_, fun ⟨p, hp, _⟩ => nomatch hp⟩
    cases hrow
    exact absurd hopen closed

/-! ### Open holds -/

/-- A decision reads the events that change the row of the hold. -/
theorem scanHold_filter (t : UUID) : ∀ (es : List AccountEvent) (placed : Option HoldPlaced),
    scanHold t placed (es.filterMap holdEvent?) =
      scanHold t placed ((es.filter (fun e => e.heldRow = some t.str)).filterMap holdEvent?) := by
  intro es
  induction es with
  | nil => exact fun _ => rfl
  | cons e es ih =>
    intro placed
    have hstr : ∀ {id : UUID}, id.str = t.str ↔ id = t :=
      ⟨fun heq => UUID.str_injective heq, congrArg UUID.str⟩
    cases e with
    | holdPlaced p =>
      have hrow : (AccountEvent.holdPlaced p).heldRow = some p.holdId.str := rfl
      by_cases hid : p.holdId = t <;>
        simp [hrow, hstr, holdEvent?, scanHold, HoldEvent.holdId, hid, ih]
    | holdPosted q =>
      have hrow : (AccountEvent.holdPosted q).heldRow = some q.holdId.str := rfl
      by_cases hid : q.holdId = t <;>
        simp [hrow, hstr, holdEvent?, scanHold, HoldEvent.holdId, hid, ih]
    | holdReleased x =>
      by_cases hreason : x.reason = .partialCapture
      · have hrow : (AccountEvent.holdReleased x).heldRow = none := by
          rw [AccountEvent.heldRow, AccountEvent.holdStatement, if_pos hreason]
        simp [hrow, holdEvent?, scanHold, hreason, ih]
      · have hrow : (AccountEvent.holdReleased x).heldRow = some x.holdId.str := by
          rw [AccountEvent.heldRow, AccountEvent.holdStatement, if_neg hreason]
        by_cases hid : x.holdId = t <;>
          simp [hrow, hstr, holdEvent?, scanHold, HoldEvent.holdId, hid, hreason,
            ih]
    | _ => exact ih placed

/-- **In the log the events on the row of a hold are on one account.** -/
theorem exists_account_log (calls : List Call) (holdId : String) :
    ∃ a, ∀ e ∈ (storeAfter calls).events.map EventRow.event, e.heldRow = some holdId →
      e.accountId = a := by
  by_cases hu : ∃ u : UUID, holdId = u.str
  · obtain ⟨u, rfl⟩ := hu
    obtain ⟨a, ha⟩ := ((ledger_storeAfter calls).coherent.shapes u).exists_account
    refine ⟨a, fun e he hrow => ?_⟩
    obtain ⟨r, hr, rfl⟩ := List.mem_map.mp he
    obtain ⟨v, hv, hstr⟩ := heldRow_eq_some hrow
    obtain rfl := UUID.str_injective hstr
    exact ha r (List.mem_filter.mpr ⟨hr, by simpa using hv⟩) (by rw [hrow]; exact nofun)
  · refine ⟨"", fun e _ hrow => ?_⟩
    obtain ⟨u, -, hstr⟩ := heldRow_eq_some hrow
    exact absurd ⟨u, hstr⟩ hu

theorem eq_of_settles {t : UUID} {e : AccountEvent} (h : e.Settles t.str) :
    (∃ q, e = .holdPosted q ∧ q.holdId = t) ∨
      ∃ x, e = .holdReleased x ∧ x.holdId = t ∧ x.reason ≠ .partialCapture := by
  obtain ⟨state, hsettle⟩ := h
  cases e with
  | holdPosted q =>
    obtain ⟨hid, -⟩ := HoldStatement.settle.inj (Option.some.inj hsettle)
    exact Or.inl ⟨q, rfl, UUID.str_injective hid⟩
  | holdReleased x =>
    rw [AccountEvent.holdStatement] at hsettle
    split at hsettle
    next => cases hsettle
    next hreason =>
      obtain ⟨hid, -⟩ := HoldStatement.settle.inj (Option.some.inj hsettle)
      exact Or.inr ⟨x, rfl, UUID.str_injective hid, hreason⟩
  | _ => cases hsettle

theorem openHold_of_life {t : UUID} {es : List AccountEvent} {hold : OpenHold}
    (h : HoldLife t.str es) : openHoldFromEvents t (es.filterMap holdEvent?) = some hold ↔
      ∃ p, es = [.holdPlaced p] ∧ hold = openHoldOf p := by
  cases h with
  | unused => exact ⟨(fun h => by cases h), by rintro ⟨p, hp, -⟩; cases hp⟩
  | placed place =>
    obtain ⟨p, rfl, hstr⟩ := eq_holdPlaced_of_places place
    obtain rfl := UUID.str_injective hstr
    simp only [List.filterMap_cons, holdEvent?, List.filterMap_nil, openHoldFromEvents, scanHold,
      HoldEvent.holdId, ne_eq, not_true_eq_false, if_false, Option.map_some, Option.some.injEq]
    constructor
    · rintro rfl
      exact ⟨p, rfl, rfl⟩
    · rintro ⟨p', hp', rfl⟩
      cases hp'
      rfl
  | @settled p x state place settle =>
    obtain ⟨p, rfl, hstr⟩ := eq_holdPlaced_of_places place
    obtain rfl := UUID.str_injective hstr
    refine ⟨fun h => ?_, by rintro ⟨p, hp, -⟩; cases hp⟩
    rcases eq_of_settles ⟨state, settle⟩ with ⟨q, rfl, hq⟩ | ⟨y, rfl, hy, hreason⟩
    · simp [holdEvent?, openHoldFromEvents, scanHold, HoldEvent.holdId, hq] at h
    · simp [holdEvent?, openHoldFromEvents, scanHold, HoldEvent.holdId, hy, hreason] at h

/-- **A hold is open as long as the placement is all there is.** -/
theorem openHold_iff {t : UUID} {rows : List EventRow} {a : String} {hold : OpenHold}
    (h : HoldLife t.str ((rows.map EventRow.event).filter (fun e => e.heldRow = some t.str)))
    (haccount : ∃ a, ∀ e ∈ rows.map EventRow.event, e.heldRow = some t.str → e.accountId = a) :
    openHoldFromEvents t (holdEventsOn rows a) = some hold ↔
      ∃ p, OnlyPlaced t.str (rows.map EventRow.event) p ∧ p.accountId = a ∧
        hold = openHoldOf p := by
  have hscan : openHoldFromEvents t (holdEventsOn rows a) = openHoldFromEvents t
      ((((rows.map EventRow.event).filter (fun e => e.heldRow = some t.str)).filter
        (fun e => e.accountId = a)).filterMap holdEvent?) := by
    have hevents : (rows.filter (fun r => r.event.accountId = a)).map EventRow.event =
        (rows.map EventRow.event).filter (fun e => e.accountId = a) := by
      rw [List.filter_map]
      rfl
    rw [openHoldFromEvents, openHoldFromEvents, holdEventsOn, hevents, scanHold_filter,
      List.filter_comm]
  obtain ⟨b, hb⟩ := haccount
  have hsame : ∀ e ∈ (rows.map EventRow.event).filter (fun e => e.heldRow = some t.str),
      e.accountId = b := fun e he =>
    hb e (List.mem_of_mem_filter he) (of_decide_eq_true (List.mem_filter.mp he).2)
  rw [hscan]
  simp only [OnlyPlaced]
  generalize (rows.map EventRow.event).filter (fun e => e.heldRow = some t.str) = es at h hsame ⊢
  have haccount : ∀ {p}, es = [.holdPlaced p] → p.accountId = b := by
    rintro p rfl
    exact hsame _ List.mem_cons_self
  by_cases hba : b = a
  · subst hba
    rw [List.filter_eq_self.mpr fun e he => decide_eq_true (hsame e he), openHold_of_life h]
    exact exists_congr fun p => and_congr_right fun hp => (and_iff_right (haccount hp)).symm
  · rw [List.filter_eq_nil_iff.mpr fun e he => by simpa [hsame e he] using hba]
    refine ⟨(fun h => by cases h), ?_⟩
    rintro ⟨p, hp, ha, -⟩
    exact absurd ((haccount hp).symm.trans ha) hba

/-! ### The holds that the query selects -/

/-- **The query answers the open holds that have expired**, with their terms. -/
def SelectsExpired {V : Type} (rows : List EventRow) (models : ReadModels V) : Prop :=
  ∀ (now : Datetime) (answer : ExpiredHold), answer ∈ models.openHoldsExpiredAt now.isoformat ↔
    ∃ t a hold, openHoldFromEvents t (holdEventsOn rows a) = some hold ∧ hold.expiredAt now ∧
      answer = ⟨t.str, a, hold.counterparty, hold.amount, hold.expiresAt⟩

theorem selectsExpired_of_holds {V : Type} {models : ReadModels V} {calls : List Call}
    {rows : List EventRow} (hstart : rows <+: (storeAfter calls).events)
    (h : ∀ holdId, models.holds.find holdId =
      (rows.map EventRow.event).foldl (AccountEvent.onHold holdId) none) :
    SelectsExpired rows models := by
  have hlife : ∀ holdId, HoldLife holdId
      ((rows.map EventRow.event).filter (fun e => e.heldRow = some holdId)) := fun holdId =>
    (holdLife_log calls holdId).upTo ((hstart.map EventRow.event).filter _)
  have haccount : ∀ holdId, ∃ a, ∀ e ∈ rows.map EventRow.event, e.heldRow = some holdId →
      e.accountId = a := by
    intro holdId
    obtain ⟨a, ha⟩ := exists_account_log calls holdId
    exact ⟨a, fun e he => ha e ((hstart.map EventRow.event).subset he)⟩
  have hstamped : ∀ {holdId p}, OnlyPlaced holdId (rows.map EventRow.event) p → p.Stamped := by
    intro holdId p hp
    have hmem : AccountEvent.holdPlaced p ∈ rows.map EventRow.event := by
      refine List.mem_of_mem_filter (p := fun e => Decidable.decide (e.heldRow = some holdId)) ?_
      rw [hp]
      exact List.mem_singleton.mpr rfl
    obtain ⟨r, hr, hevent⟩ := List.mem_map.mp hmem
    exact stamped_log calls r (hstart.subset hr) p hevent
  intro now answer
  rw [mem_openHoldsExpiredAt]
  constructor
  · rintro ⟨holdId, row, hrow, hexpired, rfl⟩
    rw [h, openRow_iff (hlife holdId)] at hrow
    obtain ⟨p, hp, rfl⟩ := hrow
    obtain rfl := hp.holdId
    exact ⟨p.holdId, p.accountId, openHoldOf p,
      (openHold_iff (hlife _) (haccount _)).mpr ⟨p, hp, rfl, rfl⟩,
      ((hstamped hp).le_iff now).mp hexpired, rfl⟩
  · rintro ⟨t, a, hold, hfound, hexpired, rfl⟩
    obtain ⟨p, hp, rfl, rfl⟩ := (openHold_iff (hlife _) (haccount _)).mp hfound
    refine ⟨t.str, ⟨p.accountId, p.counterparty, p.amount, p.expiresAt, "open"⟩, ?_,
      ((hstamped hp).le_iff now).mpr hexpired, rfl⟩
    rw [h, openRow_iff (hlife _)]
    exact ⟨p, hp, rfl⟩

/-- **The query agrees with the decisions.** The expiry of a placed hold compares with the
clock as a text the way it does as an instant; and after any part of the log the query
of either tier answers the open holds that have expired. -/
theorem expired_holds_selected :
    (∀ (state : AccountState) (command : Hold) (holdId : UUID) (placedAt : Datetime)
      (placed : HoldPlaced), decideHold state command holdId placedAt = .ok placed →
      ∀ now : Datetime, placed.expiresAt ≤ now.isoformat ↔ (openHoldOf placed).expiredAt now) ∧
    ∀ (calls : List Call) (ds : List Delivery),
      ds.map Delivery.row <+: (storeAfter calls).events →
      SelectsExpired (ds.map Delivery.row) (projectionAfter sqliteTier ds).readModels ∧
        SelectsExpired (ds.map Delivery.row) (projectionAfter postgresTier ds).readModels := by
  refine ⟨fun _ _ _ _ _ h now => (stamped_of_decideHold h).le_iff now, fun calls ds hstart => ?_⟩
  -- The rest of the log, delivered afterwards, completes the feed.
  obtain ⟨rest, hrest⟩ := hstart
  have hlog : (ds ++ feedOf rest).map Delivery.row = (storeAfter calls).events := by
    rw [List.map_append, ← hrest, feedOf, List.map_map]
    exact congrArg _ (List.map_id rest)
  obtain ⟨hsqlite, hpostgres⟩ := applies_log hlog
  have hevents : ds.map (fun d => d.row.event) = (ds.map Delivery.row).map EventRow.event := by
    rw [List.map_map]
    rfl
  have hmodels : ∀ {V : Type} {tier : Tier V} {n : Arithmetic V}, tier.Adds n →
      Runs.Along (deliver tier) (Applies tier) .empty (ds ++ feedOf rest) →
      SelectsExpired (ds.map Delivery.row) (projectionAfter tier ds).readModels := by
    intro V tier n hadds halong
    have hproject := projectAll_projectionAfter (Runs.along_append.mp halong).1
    rw [hevents] at hproject
    exact selectsExpired_of_holds ⟨rest, hrest⟩ (projected_of_ok hadds hproject).holds
  exact ⟨hmodels sqlite_adds hsqlite, hmodels postgres_adds hpostgres⟩

/-- The instants around an expiry without a fraction have one. -/
example :
    let models := (projectionAfter sqliteTier
      (feedOf (storeAfter [deposit100, hold50 1 (by decide) .epoch 20]).events)).readModels
    let before : Datetime := ⟨1970, 1, 1, 0, 0, 59, 999999, by decide, by decide⟩
    let expiry : Datetime := ⟨1970, 1, 1, 0, 1, 0, 0, by decide, by decide⟩
    let after : Datetime := ⟨1970, 1, 1, 0, 1, 0, 1, by decide, by decide⟩
    models.openHoldsExpiredAt before.isoformat = [] ∧
      (models.openHoldsExpiredAt expiry.isoformat).length = 1 ∧
      (models.openHoldsExpiredAt after.isoformat).length = 1 := by
  decide +kernel

end Cloudscale
