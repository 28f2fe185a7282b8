import Cloudscale.Ledger.Accepting
import Cloudscale.Ledger.Linked

/-!
# Logs with the same streams and sets

Two stores have the same log (`Store.SameLog`) if they have the same rows, in the same
order on every stream and in every set.  The order of the whole log may differ.  All
reads of a decision answer the same on both, so what one of them accepts the other accepts
too, with the same rows (`SameLog.accepts`).

What a call appends belongs to an id that the log does not have yet, or to a hold that
is open on the account of the command (`appended_set`).  So a set that has a movement leg does
not change any more (`setOf_next`), and a reversal has a row for every leg of
its set (`mirrored_storeAfter`).
-/

namespace Cloudscale

open Checked Python Account

/-! ### The same log -/

/-- The same rows, in the same order on every stream and in every set. -/
structure Store.SameLog (s s' : Store) : Prop where
  perm : s.events.Perm s'.events
  streams : ∀ a, s.streamOf a = s'.streamOf a
  sets : ∀ t, s.setOf t = s'.setOf t

theorem Fits.perm : ∀ {rows events events' : List EventRow}, events.Perm events' →
    Fits events rows → Fits events' rows := by
  intro rows
  induction rows with
  | nil => exact fun _ _ => trivial
  | cons row rows ih =>
    rintro events events' hperm ⟨hrow, hrows⟩
    exact ⟨fun r hr => hrow r (hperm.mem_iff.mpr hr), ih (hperm.append_right [row]) hrows⟩

namespace Store.SameLog

variable {s s' : Store}

theorem refl (s : Store) : s.SameLog s := ⟨List.Perm.refl _, fun _ => rfl, fun _ => rfl⟩

theorem symm (h : s.SameLog s') : s'.SameLog s :=
  ⟨h.perm.symm, fun a => (h.streams a).symm, fun t => (h.sets t).symm⟩

theorem trans {s'' : Store} (h : s.SameLog s') (h' : s'.SameLog s'') : s.SameLog s'' :=
  ⟨h.perm.trans h'.perm, fun a => (h.streams a).trans (h'.streams a),
    fun t => (h.sets t).trans (h'.sets t)⟩

theorem append (h : s.SameLog s') (rows : List EventRow) {results results' : List ResultRow} :
    SameLog ⟨s.events ++ rows, results⟩ ⟨s'.events ++ rows, results'⟩ := by
  have hsplit : ∀ (p : EventRow → Bool), s.events.filter p = s'.events.filter p →
      (s.events ++ rows).filter p = (s'.events ++ rows).filter p := by
    intro p hp
    rw [List.filter_append, List.filter_append, hp]
  exact ⟨h.perm.append_right rows, fun a => hsplit _ (h.streams a), fun t => hsplit _ (h.sets t)⟩

section

variable (h : s.SameLog s')

include h

theorem eventsOf (a : String) : s.eventsOf a = s'.eventsOf a := by
  rw [Store.eventsOf, Store.eventsOf, h.streams]

theorem account (a : String) : s.account a = s'.account a := by
  rw [Store.account, Store.account, h.eventsOf]

theorem readable (hs : s.Readable) : s'.Readable := by
  refine ⟨fun r hr => hs.current r (h.perm.mem_iff.mpr hr), fun a => ?_, fun a => ?_⟩
  · rw [← h.streams, ← h.eventsOf]
    exact hs.numbered a
  · rw [← h.eventsOf]
    exact hs.folds a

theorem coherent (hs : s.Coherent) : s'.Coherent :=
  ⟨h.readable hs.readable, fun t => h.sets t ▸ hs.shapes t⟩

theorem openHold (hs : s.Readable) (a : String) (t : UUID) : s.openHold a t = s'.openHold a t := by
  rw [Store.openHold_eq hs, Store.openHold_eq (h.readable hs), holdEvents, holdEvents, h.sets]

theorem revertedBy_eq_none {t : UUID} (hs : s.revertedBy t = .ok none) :
    s'.revertedBy t = .ok none :=
  Store.revertedBy_eq_none.mpr fun r hr =>
    Store.revertedBy_eq_none.mp hs r (h.perm.mem_iff.mpr hr)

theorem number (events : List AccountEvent) : s.number events = s'.number events := by
  rw [Store.number, Store.number]
  simp only [h.account]

theorem absorbs {events : List AccountEvent} (habsorbs : s.Absorbs events) : s'.Absorbs events :=
  fun a => h.account a ▸ habsorbs a

/-- **What is decided on one is decided on the other.** -/
theorem decided (hs : s.Readable) {request : NormalizedCommand} {now : Datetime}
    {events : List AccountEvent} (hdecided : Decided s request now events) :
    Decided s' request now events := by
  cases hdecided with
  | deposit command admits => exact .deposit command (h.account _ ▸ admits)
  | withdraw command admits => exact .withdraw command (h.account _ ▸ admits)
  | postings command admits posted =>
    exact .postings command (fun leg hleg => h.account _ ▸ admits leg hleg) posted
  | hold command placement admits => exact .hold command placement (h.account _ ▸ admits)
  | capture command found can captured =>
    rw [h.openHold hs] at found
    rw [h.account, h.account] at can
    exact .capture command found can captured
  | release command found can releases =>
    rw [h.openHold hs] at found
    rw [h.account] at can
    exact .release command found can releases
  | reversal command revertible once mirrored =>
    rw [h.sets] at revertible mirrored
    simp only [h.account] at mirrored
    exact .reversal command revertible (h.revertedBy_eq_none once) mirrored

/-- **What one accepts the other accepts**, with the same rows. -/
theorem accepts (hs : s.Readable) {call : Call} (haccepts : Accepts s call)
    (hfresh : ∀ row ∈ s'.results, row.commandId ≠ call.request.commandId) :
    Accepts s' call ∧ appended s' call = appended s call := by
  obtain ⟨events, row, hversion, hdecided, hversions, hfits, habsorbs, hnext⟩ :=
    haccepts.appends hs
  have hdecided' := h.decided hs hdecided
  rw [h.number] at hversions hfits
  obtain ⟨r, hresult, houtcome⟩ := execute_accepts (h.readable hs) hfresh
    (hversion.trans (congrArg AccountState.version (h.account _))) hdecided' hdecided'.addressed
    hversions (hfits.perm h.perm) (h.absorbs habsorbs)
  have haccepts' : Accepts s' call := ⟨hfresh, r, hresult, houtcome⟩
  refine ⟨haccepts', ?_⟩
  obtain ⟨events', row', -, hdecided'', -, hnext'⟩ := haccepts'.decided (h.readable hs)
  have hnumber : s'.number events' = s'.number events := by
    have hlegs := (decideLegs_eq_ok (h.readable hs)).mpr ⟨events, hdecided', rfl⟩
    have hlegs' := (decideLegs_eq_ok (h.readable hs)).mpr ⟨events', hdecided'', rfl⟩
    exact Except.ok.inj (hlegs'.symm.trans hlegs)
  rw [appended_of_accepted (congrArg Store.events hnext),
    appended_of_accepted (congrArg Store.events hnext'), hnumber, h.number]

end

end Store.SameLog

/-! ### What a call appends -/

section Appending

variable {s : Store} {call : Call} {t : UUID}

/-- **What a call appends has an id that is new to the log**, or that of a hold that is open on
the account of its command. -/
theorem appended_set (hs : s.Ledger) {y : EventRow} (hy : y ∈ appended s call)
    (hid : y.event.setId = some t) : s.setOf t = [] ∨ ∃ r p, s.setOf t = [r] ∧
      r.event = .holdPlaced p ∧ p.accountId = call.request.command.accountId := by
  obtain ⟨events, fresh, -, decided, hmem, -⟩ := decided_of_mem_appended hs.coherent.readable hy
  have ht := (decided.setId _ hmem).symm.trans hid
  have hnew : call.request.command.Opens → s.setOf t = [] := by
    intro hopens
    rw [NormalizedCommand.setId_of_opens hopens] at ht
    refine setOf_eq_nil fun r hr hrid => ?_
    obtain ⟨row, hrow, heq⟩ := hs.recorded r hr t hrid
    exact fresh row hrow (heq.trans (Option.some.inj ht).symm)
  have hopen : ∀ a hold, s.openHold a t = .ok (some hold) → ∃ r p, s.setOf t = [r] ∧
      r.event = .holdPlaced p ∧ p.accountId = a := by
    intro a hold hfound
    obtain ⟨r, p, hset, hp, ha, -⟩ := hs.coherent.openHold_eq_some.mp hfound
    exact ⟨r, p, hset, hp, ha⟩
  cases decided with
  | deposit command | withdraw command =>
    rw [NormalizedCommand.setId, command] at ht
    cases ht
  | postings command => exact Or.inl (hnew (AccountCommand.opens_of_postings command))
  | hold command => exact Or.inl (hnew (by rw [command]; trivial))
  | capture command found =>
    rw [NormalizedCommand.setId, command] at ht
    cases ht
    rw [command]
    exact Or.inr (hopen _ _ found)
  | release command found =>
    rw [NormalizedCommand.setId_of_release command] at ht
    cases ht
    rw [AccountCommand.accountId_of_release command]
    exact Or.inr (hopen _ _ found)
  | reversal command => exact Or.inl (hnew (by rw [command]; trivial))

/-- An accepted call has a row on the account of its command. -/
theorem appended_addressed (hs : s.Readable) (h : Accepts s call) :
    ∃ y ∈ appended s call, y.event.accountId = call.request.command.accountId := by
  obtain ⟨events, row, -, hdecided, -, hnext⟩ := h.decided hs
  obtain ⟨e, he, haccount⟩ := hdecided.addressed
  rw [appended_of_accepted (congrArg Store.events hnext)]
  have hperm := perm_legRows call.request (call.clock 0) call.eventIds s events
  obtain ⟨y, hy, rfl⟩ := List.mem_map.mp (hperm.mem_iff.mpr he)
  exact ⟨y, hy, haccount⟩

/-- The result of an accepted call is kept under its command id. -/
theorem Accepts.results (hs : s.Readable) (h : Accepts s call) :
    ∃ row, (next s call).results = s.results ++ [row] ∧ row.commandId = call.request.commandId := by
  obtain ⟨hfresh, r, hresult, houtcome⟩ := h
  have hexecuted := executed_of_ok hs hresult
  generalize next s call = s' at hexecuted ⊢
  cases hexecuted with
  | replayed found | conflicted found =>
    rw [Store.storedResult_eq_none.mpr hfresh] at found
    cases found
  | rejected _ outcome => exact absurd houtcome outcome.1
  | accepted _ _ _ _ _ _ _ answers keeps =>
    exact ⟨_, rfl, keeps.commandId.trans answers.commandId⟩

/-- **A set that has a movement leg is final.** -/
theorem setOf_next (hs : s.Ledger) (hne : legsOfRows (s.setOf t) ≠ []) :
    (next s call).setOf t = s.setOf t := by
  have hset : (next s call).setOf t =
      s.setOf t ++ (appended s call).filter (fun r => r.event.setId = some t) := by
    rw [Store.setOf, next_events hs.coherent.readable, List.filter_append]
    rfl
  rw [hset]
  refine List.append_right_eq_self.mpr (List.filter_eq_nil_iff.mpr fun y hy hid => ?_)
  rcases appended_set hs hy (of_decide_eq_true hid) with hnil | ⟨r, p, hr, hp, -⟩
  · rw [hnil] at hne
    exact hne rfl
  · rw [hr, SetShape.legs_of_hold hp] at hne
    exact hne rfl

/-! ### Reversals have all the legs -/

/-- Every reversal of a set has a row for each of its legs. -/
def Mirrored (s : Store) : Prop :=
  ∀ x ∈ s.events, ∀ t, x.event.reverts = some t → legsOfRows (s.setOf t) ≠ [] ∧
    ∀ leg ∈ legsOfRows (s.setOf t), ∃ y ∈ s.events, y.event.reverts = some t ∧
      y.event.accountId = leg.accountId

theorem Mirrored.next (hs : s.Ledger) (h : Mirrored s) (call : Call) : Mirrored (next s call) := by
  have hevents := next_events hs.coherent.readable call
  intro x hx t ht
  rw [hevents] at hx
  rcases List.mem_append.mp hx with hx | hx
  · obtain ⟨hne, hall⟩ := h x hx t ht
    rw [setOf_next hs hne]
    refine ⟨hne, fun leg hleg => ?_⟩
    obtain ⟨y, hy, hyfields⟩ := hall leg hleg
    refine ⟨y, ?_, hyfields⟩
    rw [hevents]
    exact List.mem_append_left _ hy
  · obtain ⟨events, row, -, hdecided, -, hnext⟩ :=
      (accepts_of_mem_appended hs.coherent.readable hx).decided hs.coherent.readable
    rw [appended_of_accepted (congrArg Store.events hnext)] at hx hevents
    have hperm := perm_legRows call.request (call.clock 0) call.eventIds s events
    have hmem := hperm.mem_iff.mp (List.mem_map_of_mem (f := EventRow.event) hx)
    obtain ⟨c, hc, rfl⟩ :=
      AccountCommand.exists_of_original ((hdecided.reverts _ hmem).symm.trans ht)
    cases hdecided with
    | deposit command | withdraw command | hold command | capture command | postings command
    | release command =>
      rw [hc] at command
      cases command
    | reversal command revertible once mirrored =>
      rw [hc] at command
      cases command
      have hne : legsOfRows (s.setOf c.transferId) ≠ [] := revertible.ne_nil
      rw [setOf_next hs hne]
      refine ⟨hne, fun leg hleg => ?_⟩
      obtain ⟨e, he, hmirror, -⟩ := exists_of_mem_right mirrored.flip leg hleg
      obtain ⟨y, hy, rfl⟩ := List.mem_map.mp (hperm.mem_iff.mpr he)
      refine ⟨y, ?_, hmirror.isLeg.2.2, hmirror.accountId⟩
      rw [hevents]
      exact List.mem_append_right _ hy

/-! ### What only one command does -/

def EventRow.Closes (r : EventRow) (t : UUID) : Prop :=
  r.event.setId = some t ∧ (r.event.type = .holdReleased ∨ r.event.type = .holdPosted)

/-- The rows close one hold, or revert one set. -/
inductive Competes (x y : EventRow) : Prop
  | closing {t : UUID} (left : x.Closes t) (right : y.Closes t)
  | reverting {t : UUID} (left : x.event.reverts = some t) (right : y.event.reverts = some t)

/-- A call closes no hold, and reverts no set, that the log has closed or reverted. -/
theorem appended_competes (hs : s.Ledger) : ∀ x ∈ s.events, ∀ y ∈ appended s call,
    ¬ Competes x y := by
  rintro x hx y hy (⟨⟨hxid, hxtype⟩, hyid, -⟩ | ⟨hxt, hyt⟩)
  · have hmem : x ∈ s.setOf _ := List.mem_filter.mpr ⟨hx, decide_eq_true hxid⟩
    rcases appended_set hs hy hyid with hnil | ⟨r, p, hset, hp, -⟩
    · rw [hnil] at hmem
      cases hmem
    · rw [hset, List.mem_singleton] at hmem
      rw [hmem, hp] at hxtype
      rcases hxtype with h | h <;> cases h
  · exact appended_excludes_original hs.coherent x hx y hy
      ⟨by rw [hxt]; exact Option.some_ne_none _, hxt.trans hyt.symm⟩

/-- **A hold is closed, and a set is reverted, by one command.** -/
theorem commandId_of_competes (calls : List Call) {x y : EventRow}
    (hx : x ∈ (storeAfter calls).events) (hy : y ∈ (storeAfter calls).events) (h : Competes x y) :
    x.commandId = y.commandId := by
  have hsymm : ∀ x y : EventRow, Competes x y → Competes y x := by
    rintro x y (⟨hx, hy⟩ | ⟨hx, hy⟩)
    · exact .closing hy hx
    · exact .reverting hy hx
  obtain ⟨before, call, after, -, hx, hy⟩ :=
    appendedTogether_of hsymm (fun _ _ hs => appended_competes hs) calls hx hy h
  have hread := (ledger_storeAfter before).coherent.readable
  rw [(commandId_of_mem_appended hread hx).1, (commandId_of_mem_appended hread hy).1]

/-- **In every reachable log a reversal has a row for every leg of its set.** -/
theorem mirrored_storeAfter (calls : List Call) : Mirrored (storeAfter calls) :=
  (Runs.run_invariant next (P := fun s => s.Ledger ∧ Mirrored s)
    (fun _ call h => ⟨h.1.next, h.2.next h.1 call⟩) calls
    ⟨Store.ledger_empty, fun _ h => nomatch h⟩).2

end Appending

end Cloudscale
