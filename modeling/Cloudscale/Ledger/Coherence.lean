import Cloudscale.Ledger.Executing
import Cloudscale.Ledger.Sets

/-!
# Every call keeps the log coherent

A call appends the events of one decision.  They fold onto the states of their
accounts (`Decided.absorbs`), they carry one id (`Decided.setId`), and with what the
log has under that id they have a shape (`Decided.shape`): a new set balances on
different accounts, a capture or a release completes the placement that was open.

So a coherent store stays coherent (`Store.Coherent.executed`), provided that a
command which opens a set or a hold brings an id that the log does not have.
Where results are never deleted the id of a set is the id of a recorded result
(`Store.Ledger`), so a command id that is not refused is new.
-/

namespace Cloudscale

open Checked Python DoubleEntry Streams Account

/-! ### Reads of a coherent store -/

namespace Store.Coherent

variable {s : Store} (h : s.Coherent)

include h

theorem openHold_eq_some {a : String} {t : UUID} {hold : OpenHold} :
    s.openHold a t = .ok (some hold) ↔
      ∃ r p, s.setOf t = [r] ∧ r.event = .holdPlaced p ∧ p.accountId = a ∧ hold = openHoldOf p := by
  rw [openHold_eq h.readable, Except.ok.injEq]
  exact openHoldFromEvents_eq_some (h.shapes t) (fun r hr => setId_of_mem hr)

end Store.Coherent

/-! ### New events fold -/

section Folds

variable {s : Store} {request : NormalizedCommand} {now : Datetime} {events : List AccountEvent}

theorem absorbs_of_nodup (hnodup : (events.map AccountEvent.accountId).Nodup)
    (hadmits : ∀ e ∈ events, Admits (s.account e.accountId) e) : s.Absorbs events := by
  intro a
  rcases filter_of_nodup hnodup a with hnone | ⟨e, he, rfl, hone⟩
  · exact ⟨_, by rw [hnone, foldFrom_nil]⟩
  · rw [hone]
    exact foldFrom_singleton (hadmits e he)

theorem absorbs_singleton {e : AccountEvent} (hadmits : Admits (s.account e.accountId) e) :
    s.Absorbs [e] :=
  absorbs_of_nodup (List.nodup_singleton _) (List.forall_mem_singleton.mpr hadmits)

theorem postings_admits {legs legs' : List Leg} {anchor : String} {id : UUID}
    (hposted : List.Forall₂ (fun leg e => postingEvent anchor legs' id leg = .ok e) legs events)
    (hadmits : ∀ leg ∈ legs, CanPost (s.account leg.accountId) leg) :
    ∀ e ∈ events, Admits (s.account e.accountId) e := by
  induction hposted with
  | nil => exact fun _ h => nomatch h
  | cons he _ ih =>
    rw [List.forall_mem_cons] at hadmits ⊢
    have hposting := isPosting_of_ok he
    refine ⟨?_, ih hadmits.2⟩
    rw [hposting.accountId]
    exact hadmits.1.admits hposting

theorem mirrored_admits {legs : List MovementLeg} {id reverts : UUID}
    (hmirrored : List.Forall₂ (fun leg e => IsMirror leg id reverts e ∧
      Admits (s.account leg.accountId) e) legs events) :
    ∀ e ∈ events, Admits (s.account e.accountId) e := by
  induction hmirrored with
  | nil => exact fun _ h => nomatch h
  | cons he _ ih =>
    rw [List.forall_mem_cons]
    exact ⟨he.1.accountId ▸ he.2, ih⟩

/-- **The events of a decision fold onto the states of their accounts**, as long as a reversal
has each account once. -/
theorem Decided.absorbs (hdecided : Decided s request now events)
    (hversions : ∀ leg ∈ s.number events, leg.2 ≤ maxSignedBigint)
    (hnodup : ∀ c, request.command = .revert c → ((movementLegs ((s.setOf c.transferId).map
      EventRow.event)).map MovementLeg.accountId).Nodup) : s.Absorbs events := by
  cases hdecided with
  | deposit command admits => exact absorbs_singleton admits
  | withdraw command admits => exact absorbs_singleton admits
  | postings command admits posted =>
    refine absorbs_of_nodup ?_ (postings_admits posted admits)
    rw [accountId_of_posted posted]
    exact (AccountCommand.validLegs command).1.nodup
  | @hold c placed command placement admits =>
    refine absorbs_singleton ?_
    rw [show (AccountEvent.holdPlaced placed).accountId = c.accountId from placement.accountId]
    exact admits
  | @capture c hold events command found can captured =>
    cases captured with
    | @whole q t capture all =>
      have hq : (AccountEvent.holdPosted q).accountId = c.accountId := capture.accountId
      have ht : (AccountEvent.transferCredited t).accountId = hold.counterparty :=
        capture.creditedAccount
      refine absorbs_of_nodup ?_ ?_
      · rw [List.map_cons, List.map_singleton, hq, ht]
        simpa using capture.account_ne
      · rw [List.forall_mem_cons, List.forall_mem_singleton, hq, ht]
        exact can.admits capture
    | @part q t x capture rest less =>
      have hnumber := s.filter_number [.holdPosted q, .transferCredited t, .holdReleased x]
        c.accountId
      rw [filter_part capture rest, if_pos rfl] at hnumber
      have hlast : (AccountEvent.holdReleased x, (s.account c.accountId).version + 1 + 1) ∈
          s.number [.holdPosted q, .transferCredited t, .holdReleased x] := by
        refine List.mem_of_mem_filter (p := fun leg => leg.1.accountId = c.accountId) ?_
        rw [hnumber]
        simp
      have hle := hversions _ hlast
      intro a
      rw [filter_part capture rest]
      split
      next ha =>
        rw [ha]
        exact can.foldFrom_part capture rest (by simp only at hle; omega)
      next =>
        split
        next hb =>
          rw [hb]
          exact foldFrom_singleton (can.admits capture).2
        next => exact ⟨_, foldFrom_nil _⟩
  | @release kind c hold x command found can releases =>
    refine absorbs_singleton ?_
    rw [show (AccountEvent.holdReleased x).accountId = c.accountId from releases.accountId]
    exact can.admits releases
  | reversal command revertible once mirrored =>
    refine absorbs_of_nodup ?_ (mirrored_admits mirrored)
    rw [accountId_of_mirrored mirrored]
    exact hnodup _ command

theorem Decided.absorbs_of_coherent (hs : s.Coherent) (hdecided : Decided s request now events)
    (hversions : ∀ leg ∈ s.number events, 1 ≤ leg.2 ∧ leg.2 ≤ maxSignedBigint) :
    s.Absorbs events :=
  hdecided.absorbs (fun leg hleg => (hversions leg hleg).2) fun _ _ => (hs.shapes _).legs_nodup

theorem Decided.addressed (hdecided : Decided s request now events) :
    ∃ e ∈ events, e.accountId = request.command.accountId := by
  cases hdecided with
  | deposit command admits => exact ⟨_, List.mem_singleton.mpr rfl, by rw [command]; rfl⟩
  | withdraw command admits => exact ⟨_, List.mem_singleton.mpr rfl, by rw [command]; rfl⟩
  | postings command admits posted =>
    obtain ⟨hvalid, hanchor⟩ := AccountCommand.validLegs command
    obtain ⟨leg, hleg, haccount, -⟩ := hvalid.anchored
    have hmem : leg.accountId ∈ events.map AccountEvent.accountId := by
      rw [accountId_of_posted posted]
      exact List.mem_map_of_mem hleg
    obtain ⟨e, he, heq⟩ := List.mem_map.mp hmem
    exact ⟨e, he, by rw [heq, haccount, hanchor]⟩
  | hold command placement admits =>
    exact ⟨_, List.mem_singleton.mpr rfl, by rw [command]; exact placement.accountId⟩
  | capture command found can captured =>
    cases captured with
    | whole capture all => exact ⟨_, List.mem_cons_self, by rw [command]; exact capture.accountId⟩
    | part capture rest less =>
      exact ⟨_, List.mem_cons_self, by rw [command]; exact capture.accountId⟩
  | release command found can releases =>
    refine ⟨_, List.mem_singleton.mpr rfl, ?_⟩
    rw [AccountCommand.accountId_of_release command]
    exact releases.accountId
  | reversal command revertible once mirrored =>
    obtain ⟨leg, hleg, haccount, -⟩ := revertible.anchored
    have hmem : leg.accountId ∈ events.map AccountEvent.accountId := by
      rw [accountId_of_mirrored mirrored]
      exact List.mem_map_of_mem hleg
    obtain ⟨e, he, heq⟩ := List.mem_map.mp hmem
    exact ⟨e, he, by rw [heq, haccount, command]; rfl⟩

end Folds

/-! ### New events have a shape -/

/-- The command gives its own id to a new set or hold. -/
def AccountCommand.Opens : AccountCommand → Prop
  | .transfer _ | .post _ | .hold _ | .revert _ => True
  | _ => False

/-- The id of the events of a request. -/
def NormalizedCommand.setId (request : NormalizedCommand) : Option UUID :=
  match request.command with
  | .deposit _ | .withdraw _ => none
  | .transfer _ | .post _ | .hold _ | .revert _ => some request.commandId
  | .postHold c => some c.holdId
  | .voidHold c => some c.holdId
  | .expireHold c => some c.holdId

theorem AccountCommand.opens_of_postings {c : AccountCommand} {p : String × List Leg}
    (h : c.postings? = some p) : c.Opens := by
  cases c with
  | transfer | post => trivial
  | deposit | withdraw | hold | postHold | voidHold | expireHold | revert => cases h

theorem NormalizedCommand.setId_of_opens {request : NormalizedCommand}
    (h : request.command.Opens) : request.setId = some request.commandId := by
  rw [setId]
  cases hc : request.command with
  | transfer | post | hold | revert => rfl
  | deposit | withdraw | postHold | voidHold | expireHold => rw [hc] at h; cases h

theorem NormalizedCommand.setId_of_release {request : NormalizedCommand} {kind : ReleaseKind}
    {c : ReleaseCommand} (h : request.command.release? = some (kind, c)) :
    request.setId = some c.holdId := by
  rw [setId]
  cases hc : request.command with
  | voidHold | expireHold => rw [hc] at h; cases h; rfl
  | deposit | withdraw | transfer | post | hold | postHold | revert => rw [hc] at h; cases h

section Shapes

variable {s : Store} {request : NormalizedCommand} {now : Datetime} {eventIds : Nat → UUID}
  {events : List AccountEvent}

theorem Account.IsPosting.isLeg {id : UUID} {leg : Leg} {e : AccountEvent} (h : IsPosting id leg e) :
    e.IsLeg ∧ e.setId = some id := by
  cases h with
  | debit _ _ _ hid => exact ⟨trivial, congrArg some hid⟩
  | credit _ _ _ hid => exact ⟨trivial, congrArg some hid⟩

theorem Account.IsMirror.isLeg {id reverts : UUID} {leg : MovementLeg} {e : AccountEvent}
    (h : IsMirror leg id reverts e) :
    e.IsLeg ∧ e.setId = some id ∧ e.reverts = some reverts := by
  cases h with
  | debit _ _ _ hid _ hnames => exact ⟨trivial, congrArg some hid, congrArg some hnames⟩
  | credit _ _ _ hid _ hnames => exact ⟨trivial, congrArg some hid, congrArg some hnames⟩

/-- **The events of a decision carry one id.** -/
theorem Decided.setId (hdecided : Decided s request now events) :
    ∀ e ∈ events, e.setId = request.setId := by
  cases hdecided with
  | deposit command =>
    rw [List.forall_mem_singleton, NormalizedCommand.setId, command]
    rfl
  | withdraw command =>
    rw [List.forall_mem_singleton, NormalizedCommand.setId, command]
    rfl
  | postings command admits posted =>
    intro e he
    obtain ⟨leg, -, hleg⟩ := exists_of_mem_right posted e he
    rw [(isPosting_of_ok hleg).isLeg.2,
      NormalizedCommand.setId_of_opens (AccountCommand.opens_of_postings command)]
  | hold command placement =>
    rw [List.forall_mem_singleton, NormalizedCommand.setId, command]
    exact congrArg some placement.id
  | capture command found can captured =>
    rw [NormalizedCommand.setId, command]
    cases captured with
    | whole capture all =>
      rw [List.forall_mem_cons, List.forall_mem_singleton]
      exact ⟨congrArg some capture.holdId, congrArg some capture.transferId⟩
    | part capture rest less =>
      rw [List.forall_mem_cons, List.forall_mem_cons, List.forall_mem_singleton]
      exact ⟨congrArg some capture.holdId, congrArg some capture.transferId,
        congrArg some rest.holdId⟩
  | release command found can releases =>
    rw [List.forall_mem_singleton, NormalizedCommand.setId_of_release command]
    exact congrArg some releases.holdId
  | reversal command revertible once mirrored =>
    intro e he
    obtain ⟨leg, -, hleg, -⟩ := exists_of_mem_right mirrored e he
    rw [hleg.isLeg.2.1, NormalizedCommand.setId, command]

/-- What a list of posted legs moves is its credits less its debits. -/
theorem moved_posted {legs legs' : List Leg} {anchor : String} {id : UUID}
    (hposted : List.Forall₂ (fun leg e => postingEvent anchor legs' id leg = .ok e) legs events) :
    moved AccountEvent.balanceDelta events = legTotal .credit legs - legTotal .debit legs := by
  induction hposted with
  | nil => rfl
  | @cons leg e legs events he _ ih =>
    rw [moved_cons, ih]
    cases isPosting_of_ok he with
    | debit direction account amount id =>
      rw [AccountEvent.balanceDelta_transferDebited, amount]
      simp only [legTotal, direction, List.filter_cons_of_pos, decide_true, List.map_cons,
        List.sum_cons, reduceCtorEq, decide_false, Bool.false_eq_true, not_false_eq_true,
        List.filter_cons_of_neg]
      omega
    | credit direction account amount id =>
      rw [AccountEvent.balanceDelta_transferCredited, amount]
      simp only [legTotal, direction, List.filter_cons_of_pos, decide_true, List.map_cons,
        List.sum_cons, reduceCtorEq, decide_false, Bool.false_eq_true, not_false_eq_true,
        List.filter_cons_of_neg]
      omega

theorem moved_mirrored {legs : List MovementLeg} {id reverts : UUID}
    {P : MovementLeg → AccountEvent → Prop}
    (hmirrored : List.Forall₂ (fun leg e => IsMirror leg id reverts e ∧ P leg e) legs events) :
    moved AccountEvent.balanceDelta events =
      -moved (fun leg : MovementLeg => leg.toEvent.balanceDelta) legs := by
  induction hmirrored with
  | nil => rfl
  | cons he _ ih =>
    rw [moved_cons, moved_cons, ih, he.1.balanceDelta]
    omega

variable (request now eventIds) in
theorem perm_legRows (s : Store) (events : List AccountEvent) :
    ((legRows request now eventIds 0 (s.number events)).map EventRow.event).Perm events := by
  rw [map_event_legRows]
  exact s.map_fst_number_perm events

theorem shape_of_legs (hlegs : ∀ e ∈ events, e.IsLeg)
    (haccounts : (events.map AccountEvent.accountId).Nodup)
    (hbalanced : moved AccountEvent.balanceDelta events = 0) :
    SetShape (legRows request now eventIds 0 (s.number events)) := by
  have hperm := perm_legRows request now eventIds s events
  refine .movement (fun r hr => ?_) ?_ ?_
  · exact hlegs _ (hperm.mem_iff.mp (List.mem_map_of_mem hr))
  · have hmap := hperm.map AccountEvent.accountId
    rw [List.map_map] at hmap
    exact hmap.nodup_iff.mpr haccounts
  · have hmoved : moved AccountEvent.balanceDelta _ = moved AccountEvent.balanceDelta events :=
      moved_perm hperm
    rw [hbalanced, moved, List.map_map] at hmoved
    exact hmoved

theorem number_pair {x y : AccountEvent} (hne : x.accountId ≠ y.accountId) :
    s.number [x, y] = [(x, (s.account x.accountId).version + 1),
        (y, (s.account y.accountId).version + 1)] ∨
      s.number [x, y] = [(y, (s.account y.accountId).version + 1),
        (x, (s.account x.accountId).version + 1)] := by
  have hnumber : s.number [x, y] = sortLegs [(x, (s.account x.accountId).version + 1),
      (y, (s.account y.accountId).version + 1)] := by
    rw [Store.number, numberEach, numberEach, numberEach, Function.update_of_ne hne.symm]
  rw [hnumber]
  simp only [sortLegs, List.insertionSort_cons, List.insertionSort_nil, List.orderedInsert_nil,
    List.orderedInsert_cons]
  split
  · exact Or.inl rfl
  · exact Or.inr rfl

/-- Three events, the first and the last on one stream, sorted. -/
theorem number_triple {x y z : AccountEvent} (hne : x.accountId ≠ y.accountId)
    (heq : z.accountId = x.accountId) :
    s.number [x, y, z] = [(x, (s.account x.accountId).version + 1),
        (z, (s.account x.accountId).version + 1 + 1), (y, (s.account y.accountId).version + 1)] ∨
      s.number [x, y, z] = [(y, (s.account y.accountId).version + 1),
        (x, (s.account x.accountId).version + 1),
        (z, (s.account x.accountId).version + 1 + 1)] := by
  have hnumber : s.number [x, y, z] = sortLegs [(x, (s.account x.accountId).version + 1),
      (y, (s.account y.accountId).version + 1),
      (z, (s.account x.accountId).version + 1 + 1)] := by
    rw [Store.number, numberEach, numberEach, numberEach, numberEach,
      Function.update_of_ne hne.symm, heq, Function.update_of_ne hne, Function.update_self]
  rw [hnumber]
  simp only [sortLegs, List.insertionSort_cons, List.insertionSort_nil, List.orderedInsert_nil,
    List.orderedInsert_cons, heq]
  rcases lt_or_gt_of_ne hne with hlt | hlt
  · left
    rw [if_neg (not_le.mpr hlt), List.orderedInsert_cons, if_pos heq.ge]
  · right
    rw [if_pos hlt.le, List.orderedInsert_cons, if_neg (not_le.mpr hlt), List.orderedInsert_cons,
      if_pos heq.ge]

variable (request eventIds) in
/-- The rows of a capture settle the hold that was open. -/
theorem settles_of_captured {p : HoldPlaced} {c : PostHold} (haccount : p.accountId = c.accountId)
    (can : CanCapture (s.account c.accountId) (s.account p.counterparty) (openHoldOf p) c now)
    (captured : Captured c (openHoldOf p) events) :
    ∃ posted credited rest q t, Settles p (legRows request now eventIds 0 (s.number events))
      posted credited rest q t := by
  have hunexpired : now < p.expiry := not_le.mp can.unexpired
  have hle : captureAmount c (openHoldOf p) ≤ p.amount := can.amount
  cases captured with
  | @whole q t capture all =>
    have hall : q.amount = p.amount := by
      have hlt : ¬ captureAmount c (openHoldOf p) < p.amount := all
      rw [capture.amount]
      omega
    have hq : q.accountId = p.accountId := capture.accountId.trans haccount.symm
    have ht : t.accountId = p.counterparty := capture.creditedAccount
    have hamount : t.amount = q.amount := capture.creditedAmount.trans capture.amount.symm
    have hne : t.accountId ≠ p.accountId := ht ▸ p.counterparty_ne
    rcases number_pair (s := s) (x := .holdPosted q) (y := .transferCredited t)
      (by rw [AccountEvent.accountId, AccountEvent.accountId, hq]; exact hne.symm) with hn | hn
    · rw [hn]
      refine ⟨_, _, [], q, t, rfl, rfl, hq, ht, hamount, hunexpired, .whole hall,
        List.Perm.refl _, ?_⟩
      simp [legRows, legRow, AccountEvent.accountId, hq, hne]
    · rw [hn]
      refine ⟨_, _, [], q, t, rfl, rfl, hq, ht, hamount, hunexpired, .whole hall,
        List.Perm.swap _ _ _, ?_⟩
      simp [legRows, legRow, AccountEvent.accountId, hq, hne]
  | @part q t x capture rest less =>
    have hq : q.accountId = p.accountId := capture.accountId.trans haccount.symm
    have hx : x.accountId = p.accountId := rest.accountId.trans haccount.symm
    have ht : t.accountId = p.counterparty := capture.creditedAccount
    have hamount : t.amount = q.amount := capture.creditedAmount.trans capture.amount.symm
    have hne : t.accountId ≠ p.accountId := ht ▸ p.counterparty_ne
    have hrest : q.amount + x.amount = p.amount := by
      have hx : x.amount = p.amount - captureAmount c (openHoldOf p) := rest.amount
      rw [capture.amount, hx]
      omega
    rcases number_triple (s := s) (x := .holdPosted q) (y := .transferCredited t)
      (z := .holdReleased x)
      (by rw [AccountEvent.accountId, AccountEvent.accountId, hq]; exact hne.symm)
      (by rw [AccountEvent.accountId, AccountEvent.accountId, hq, hx]) with hn | hn
    · rw [hn]
      refine ⟨_, _, [_], q, t, rfl, rfl, hq, ht, hamount, hunexpired,
        .part rfl hx hrest rest.reason rfl, (List.Perm.swap _ _ _).cons _, ?_⟩
      simp [legRows, legRow, AccountEvent.accountId, hq, hx, hne]
    · rw [hn]
      refine ⟨_, _, [_], q, t, rfl, rfl, hq, ht, hamount, hunexpired,
        .part rfl hx hrest rest.reason rfl, List.Perm.swap _ _ _, ?_⟩
      simp [legRows, legRow, AccountEvent.accountId, hq, hx, hne]

theorem setOf_eq_nil {t : UUID} (h : ∀ r ∈ s.events, r.event.setId ≠ some t) : s.setOf t = [] :=
  List.filter_eq_nil_iff.mpr fun r hr => by simpa using h r hr

/-- **What a decision adds to its id has a shape.** -/
theorem Decided.shape (hs : s.Coherent) (hdecided : Decided s request now events)
    (hnew : request.command.Opens → ∀ r ∈ s.events, r.event.setId ≠ some request.commandId)
    {t : UUID} (ht : request.setId = some t) :
    SetShape (s.setOf t ++ legRows request now eventIds 0 (s.number events)) := by
  have hopens : request.command.Opens → t = request.commandId := by
    intro ho
    rw [NormalizedCommand.setId_of_opens ho] at ht
    exact (Option.some.inj ht).symm
  cases hdecided with
  | deposit command =>
    rw [NormalizedCommand.setId, command] at ht
    cases ht
  | withdraw command =>
    rw [NormalizedCommand.setId, command] at ht
    cases ht
  | postings command admits posted =>
    have ho := AccountCommand.opens_of_postings command
    obtain ⟨hvalid, -⟩ := AccountCommand.validLegs command
    rw [hopens ho, setOf_eq_nil (hnew ho), List.nil_append]
    refine shape_of_legs (fun e he => ?_) ?_ ?_
    · obtain ⟨leg, -, hleg⟩ := exists_of_mem_right posted e he
      exact (isPosting_of_ok hleg).isLeg.1
    · rw [accountId_of_posted posted]
      exact hvalid.nodup
    · rw [moved_posted posted, hvalid.balanced, sub_self]
  | hold command placement admits =>
    have ho : request.command.Opens := by
      rw [command]
      trivial
    rw [hopens ho, setOf_eq_nil (hnew ho), List.nil_append, Store.number_singleton]
    exact .placed rfl
  | capture command found can captured =>
    rw [NormalizedCommand.setId, command] at ht
    cases ht
    obtain ⟨r, p, hset, hp, haccount, rfl⟩ := hs.openHold_eq_some.mp found
    obtain ⟨posted, credited, rest, q, c, hsettles⟩ :=
      settles_of_captured request eventIds haccount can captured
    rw [hset]
    exact .captured hp hsettles
  | @release kind c hold x command found can releases =>
    rw [NormalizedCommand.setId_of_release command] at ht
    cases ht
    obtain ⟨r, p, hset, hp, haccount, rfl⟩ := hs.openHold_eq_some.mp found
    rw [hset, Store.number_singleton]
    refine .released hp ⟨rfl, releases.accountId.trans haccount.symm, releases.amount, ?_, ?_⟩
    · rw [releases.reason]
      cases kind <;> decide
    · intro hexpired
      rw [releases.reason] at hexpired
      cases kind with
      | void => cases hexpired
      | expire => exact can.expired rfl
  | reversal command revertible once mirrored =>
    have ho : request.command.Opens := by
      rw [command]
      trivial
    rw [hopens ho, setOf_eq_nil (hnew ho), List.nil_append]
    refine shape_of_legs (fun e he => ?_) ?_ ?_
    · obtain ⟨leg, -, hleg, -⟩ := exists_of_mem_right mirrored e he
      exact hleg.isLeg.1
    · rw [accountId_of_mirrored mirrored]
      exact (hs.shapes _).legs_nodup
    · rw [moved_mirrored mirrored]
      exact neg_eq_zero.mpr (hs.shapes _).legs_balanced

end Shapes

/-! ### Steps -/

section Steps

variable {s : Store} {request : NormalizedCommand} {now : Datetime} {eventIds : Nat → UUID}
  {events : List AccountEvent} {results : List ResultRow}

variable (s request now eventIds events) in
theorem filter_account_legRows (a : String) :
    ((legRows request now eventIds 0 (s.number events)).filter
      (fun r => r.event.accountId = a)).map (fun r => (r.event, r.seq)) =
      numberFrom (s.account a).version (events.filter (fun e => e.accountId = a)) := by
  have hlegs : (legRows request now eventIds 0 (s.number events)).map (fun r => (r.event, r.seq)) =
      s.number events := map_leg_legRows
  have hfilter := congrArg (List.filter (fun leg => leg.1.accountId = a)) hlegs
  rw [List.filter_map, s.filter_number events a] at hfilter
  exact hfilter

theorem readable_append (hs : s.Readable) (habsorbs : s.Absorbs events) :
    Store.Readable ⟨s.events ++ legRows request now eventIds 0 (s.number events), results⟩ := by
  have hstream : ∀ a, (Store.mk (s.events ++ legRows request now eventIds 0 (s.number events))
      results).streamOf a = s.streamOf a ++ (legRows request now eventIds 0
        (s.number events)).filter (fun r => r.event.accountId = a) :=
    fun a => List.filter_append _ _
  have hevents : ∀ a, (Store.mk (s.events ++ legRows request now eventIds 0 (s.number events))
      results).eventsOf a = s.eventsOf a ++ events.filter (fun e => e.accountId = a) := by
    intro a
    have hmap := congrArg (List.map Prod.fst)
      (filter_account_legRows s request now eventIds events a)
    rw [map_fst_numberFrom, List.map_map] at hmap
    rw [Store.eventsOf, hstream, List.map_append, ← hmap]
    rfl
  refine ⟨fun r hr => ?_, fun a => ?_, fun a => ?_⟩
  · rcases List.mem_append.mp hr with hr | hr
    · exact hs.current r hr
    · obtain ⟨i, leg, -, -, -, rfl⟩ := exists_of_mem_legRows hr
      rfl
  · rw [hstream, List.map_append, hs.numbered, filter_account_legRows, hevents, numberFrom_append,
      Store.account_version hs, Store.eventsOf, List.length_map, zero_add]
  · obtain ⟨st, hst⟩ := habsorbs a
    exact ⟨st, by rw [hevents, fold, foldFrom_append, show foldFrom .unknown (s.eventsOf a) =
      .ok (s.account a) from Store.fold_eventsOf hs a, ok_bind, hst]⟩

theorem setOf_append (hdecided : Decided s request now events) (t : UUID) :
    (Store.mk (s.events ++ legRows request now eventIds 0 (s.number events)) results).setOf t =
      if request.setId = some t then s.setOf t ++ legRows request now eventIds 0 (s.number events)
      else s.setOf t := by
  have hid : ∀ r ∈ legRows request now eventIds 0 (s.number events),
      r.event.setId = request.setId := fun r hr => hdecided.setId _
    ((perm_legRows _ _ _ s events).mem_iff.mp (List.mem_map_of_mem (f := EventRow.event) hr))
  have hsplit : (Store.mk (s.events ++ legRows request now eventIds 0 (s.number events))
      results).setOf t = s.setOf t ++ (legRows request now eventIds 0 (s.number events)).filter
        (fun r => r.event.setId = some t) := List.filter_append _ _
  rw [hsplit]
  split
  next ht => rw [List.filter_eq_self.mpr fun r hr => by simpa [hid r hr] using ht]
  next ht =>
    rw [List.filter_eq_nil_iff.mpr fun r hr => by simpa [hid r hr] using ht, List.append_nil]

/-- **A call keeps the log readable**, whatever it is. -/
theorem Store.Readable.next (hs : s.Readable) (call : Call) : (next s call).Readable := by
  cases hresult : (execute s call).1 with
  | error e =>
    rw [execute_error hresult]
    exact hs
  | ok r =>
    have hexecuted := executed_of_ok hs hresult
    generalize Cloudscale.next s call = s' at hexecuted ⊢
    cases hexecuted with
    | replayed | conflicted => exact hs
    | rejected => exact ⟨hs.current, hs.numbered, hs.folds⟩
    | accepted _ _ _ _ _ absorbed => exact readable_append hs absorbed

/-- A command that opens a set or a hold, has no result yet and is decided brings an
id that the log does not have. -/
def Store.Opening (s : Store) (call : Call) : Prop :=
  call.request.command.Opens →
  (∀ row ∈ s.results, row.commandId ≠ call.request.commandId) →
  call.request.command.expectedVersion = (s.account call.request.command.accountId).version →
  (∃ legs, decideLegs s.reads call.request (s.account call.request.command.accountId)
    (call.clock 0) = .ok legs) →
  ∀ r ∈ s.events, r.event.setId ≠ some call.request.commandId

/-- **A call keeps the log coherent.** -/
theorem Store.Coherent.next {call : Call} (hs : s.Coherent) (hopening : s.Opening call) :
    (next s call).Coherent := by
  cases hresult : (execute s call).1 with
  | error e =>
    rw [execute_error hresult]
    exact hs
  | ok r =>
    have hexecuted := executed_of_ok hs.readable hresult
    generalize hnext : Cloudscale.next s call = s' at hexecuted
    cases hexecuted with
    | replayed | conflicted => exact hs
    | rejected => exact ⟨⟨hs.readable.current, hs.readable.numbered, hs.readable.folds⟩, hs.shapes⟩
    | accepted fresh version decided versions fits absorbed outcome =>
      have hnew : call.request.command.Opens →
          ∀ r ∈ s.events, r.event.setId ≠ some call.request.commandId :=
        fun ho => hopening ho fresh version
          ⟨_, (decideLegs_eq_ok hs.readable).mpr ⟨_, decided, rfl⟩⟩
      refine ⟨readable_append hs.readable absorbed, fun t => ?_⟩
      rw [setOf_append decided]
      split
      next ht => exact decided.shape hs hnew ht
      next => exact hs.shapes t

end Steps

end Cloudscale
