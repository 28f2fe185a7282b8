import Cloudscale.Ledger.Retention
import Cloudscale.Lib.Precedence

/-!
# What the rows of the log say of each other

The uniqueness constraints of the log hold of every reachable log
(`unclashed_storeAfter`), so an event id names one row.

What one call wrote has one id and reverts one set (`appended_alike`).  So a set is
reverted by one set (`reverted_by_one`), its legs revert one set
(`legs_revert_one`), and a reversal comes after a leg of the set that it reverts
(`reverses_storeAfter`), also on its own account (`reversedOn_storeAfter`).
-/

namespace Cloudscale

open Checked Python Account Precedence

def Unclashed (rows : List EventRow) : Prop := rows.Pairwise (fun r r' => ¬ Clash r r')

theorem Unclashed.append : ∀ {rows events : List EventRow}, Unclashed events → Fits events rows →
    Unclashed (events ++ rows) := by
  intro rows
  induction rows with
  | nil =>
    intro events h _
    rw [List.append_nil]
    exact h
  | cons row rows ih =>
    rintro events h ⟨hrow, hrows⟩
    rw [List.append_cons]
    refine ih ?_ hrows
    refine List.pairwise_append.mpr ⟨h, List.pairwise_singleton _ _, fun r hr row' hrow' => ?_⟩
    rw [List.mem_singleton.mp hrow']
    exact hrow r hr

theorem Unclashed.nodup_eventIds {rows : List EventRow} (h : Unclashed rows) :
    (rows.map EventRow.eventId).Nodup := by
  rw [List.Nodup, List.pairwise_map]
  exact h.imp fun hclash heq => hclash (Or.inr heq)

theorem Unclashed.next {s : Store} (hs : s.Readable) (h : Unclashed s.events) (call : Call) :
    Unclashed (next s call).events := by
  cases hresult : (execute s call).1 with
  | error e =>
    rw [execute_error hresult]
    exact h
  | ok r =>
    have hexecuted := executed_of_ok hs hresult
    generalize Cloudscale.next s call = s' at hexecuted
    cases hexecuted with
    | replayed | conflicted | rejected => exact h
    | accepted fresh version decided versions fits => exact h.append fits

/-- **The constraints hold of every reachable log.** -/
theorem unclashed_storeAfter (calls : List Call) : Unclashed (storeAfter calls).events :=
  (Runs.run_invariant next (P := fun s => s.Ledger ∧ Unclashed s.events)
    (fun _ call h => ⟨h.1.next, h.2.next h.1.coherent.readable call⟩) calls
    ⟨Store.ledger_empty, List.Pairwise.nil⟩).2

/-! ### Reversals -/

section Reversals

variable {s : Store} {call : Call}

def AccountCommand.original : AccountCommand → Option UUID
  | .revert c => some c.transferId
  | _ => none

theorem AccountCommand.exists_of_original {command : AccountCommand} {t : UUID}
    (h : command.original = some t) : ∃ c, command = .revert c ∧ c.transferId = t := by
  cases command with
  | revert c => exact ⟨c, rfl, Option.some.inj h⟩
  | _ => cases h

/-- What a command writes reverts the set that it names, or none. -/
theorem Decided.reverts {request : NormalizedCommand} {now : Datetime} {events : List AccountEvent}
    (hdecided : Decided s request now events) : ∀ e ∈ events,
    e.reverts = request.command.original := by
  intro e he
  cases hdecided with
  | deposit command | withdraw command | hold command =>
    rw [List.mem_singleton.mp he, command]
    rfl
  | release command =>
    rw [List.mem_singleton.mp he]
    cases hc : request.command <;> rw [hc] at command <;> cases command <;> rfl
  | postings command admits posted =>
    obtain ⟨leg, -, hleg⟩ := exists_of_mem_right posted e he
    have horiginal : request.command.original = none := by
      cases hc : request.command <;> rw [hc] at command <;> cases command <;> rfl
    rw [horiginal]
    cases isPosting_of_ok hleg <;> rfl
  | capture command found can captured =>
    rw [command]
    cases captured with
    | whole =>
      simp only [List.mem_cons, List.not_mem_nil, or_false] at he
      rcases he with rfl | rfl <;> rfl
    | part =>
      simp only [List.mem_cons, List.not_mem_nil, or_false] at he
      rcases he with rfl | rfl | rfl <;> rfl
  | reversal command revertible once mirrored =>
    obtain ⟨leg, -, hleg, -⟩ := exists_of_mem_right mirrored e he
    rw [hleg.isLeg.2.2, command]
    rfl

/-- **What one call wrote has one id and reverts one set.** -/
theorem appended_alike (hs : s.Readable) {x y : EventRow} (hx : x ∈ appended s call)
    (hy : y ∈ appended s call) :
    x.event.setId = y.event.setId ∧ x.event.reverts = y.event.reverts := by
  obtain ⟨events, -, -, hdecided, hxmem, -⟩ := decided_of_mem_appended hs hx
  obtain ⟨events', -, -, hdecided', hymem, -⟩ := decided_of_mem_appended hs hy
  exact ⟨(hdecided.setId _ hxmem).trans (hdecided'.setId _ hymem).symm,
    (hdecided.reverts _ hxmem).trans (hdecided'.reverts _ hymem).symm⟩

theorem AppendedTogether.alike {calls : List Call} {x y : EventRow}
    (h : AppendedTogether calls x y) :
    x.event.setId = y.event.setId ∧ x.event.reverts = y.event.reverts := by
  obtain ⟨before, call, after, -, hx, hy⟩ := h
  exact appended_alike (ledger_storeAfter before).coherent.readable hx hy

/-- **A set is reverted by one set.** -/
theorem reverted_by_one (calls : List Call) {x y : EventRow} (hx : x ∈ (storeAfter calls).events)
    (hy : y ∈ (storeAfter calls).events) (hsame : SameOriginal x y) :
    x.event.setId = y.event.setId := by
  have htogether : AppendedTogether calls x y :=
    appendedTogether_of (fun _ _ h => h.symm)
      (fun _ _ h => appended_excludes_original h.coherent) calls hx hy hsame
  exact htogether.alike.1

theorem legs_revert_one (calls : List Call) {x y : EventRow} (hx : x ∈ (storeAfter calls).events)
    (hy : y ∈ (storeAfter calls).events) (hid : x.event.setId = y.event.setId)
    (hxleg : (movementLeg? x.event).isSome) (hyleg : (movementLeg? y.event).isSome) :
    x.event.reverts = y.event.reverts := by
  have hsome : x.event.setId ≠ none := by
    cases he : x.event with
    | deposited | withdrawn | holdPlaced | holdReleased =>
      rw [he] at hxleg
      cases hxleg
    | _ => exact fun h => nomatch h
  exact (appended_together calls hx hy ⟨hsome, hid, Or.inl ⟨hxleg, hyleg⟩⟩).alike.2

/-- A reversal comes after a leg of the set that it reverts, which is another one. -/
structure Reverses (rows : List EventRow) (z : EventRow) (t : UUID) : Prop where
  apart : z.event.setId ≠ some t
  after : ∃ x, x.event.setId = some t ∧ (movementLeg? x.event).isSome ∧ Before rows x z

theorem reverses_next (hs : s.Ledger) {z : EventRow} {t : UUID} (hz : z ∈ appended s call)
    (ht : z.event.reverts = some t) : Reverses (next s call).events z t := by
  obtain ⟨events, -, -, hdecided, hmem, -⟩ := decided_of_mem_appended hs.coherent.readable hz
  obtain ⟨c, hc, rfl⟩ := AccountCommand.exists_of_original ((hdecided.reverts _ hmem).symm.trans ht)
  cases hdecided with
  | deposit command | withdraw command | hold command | capture command | postings command
  | release command =>
    rw [hc] at command
    cases command
  | reversal command revertible once mirrored =>
    rw [hc] at command
    cases command
    obtain ⟨leg, hleg, hmirror, -⟩ := exists_of_mem_right mirrored _ hmem
    obtain ⟨e, he, hsome⟩ := List.mem_filterMap.mp hleg
    obtain ⟨x, hx, rfl⟩ := List.mem_map.mp he
    have hxmem := (s.setOf_sublist c.transferId).subset hx
    have hxleg : (movementLeg? x.event).isSome := by
      rw [hsome]
      rfl
    obtain ⟨leg', hleg', -⟩ := hmirror.isLeg.1.movementLeg
    refine ⟨fun hid => ?_, x, Store.setId_of_mem hx, hxleg, ?_⟩
    · refine appended_excludes hs.coherent (hs.opening call) x hxmem z hz
        ⟨by rw [Store.setId_of_mem hx]; simp, by rw [Store.setId_of_mem hx, hid],
          Or.inl ⟨hxleg, ?_⟩⟩
      rw [hleg']
      rfl
    · rw [next_events hs.coherent.readable]
      exact before_append_of_mem hxmem hz

/-- **Every reversal in the log comes after its set.** -/
theorem reverses_storeAfter (calls : List Call) : ∀ z ∈ (storeAfter calls).events,
    ∀ t, z.event.reverts = some t → Reverses (storeAfter calls).events z t := by
  refine (Runs.run_invariant next
    (P := fun s => s.Ledger ∧ ∀ z ∈ s.events, ∀ t, z.event.reverts = some t →
      Reverses s.events z t)
    (fun s call ⟨hs, hall⟩ => ⟨hs.next, fun z hz t ht => ?_⟩) calls
    ⟨Store.ledger_empty, (fun _ h => nomatch h)⟩).2
  have hevents := next_events hs.coherent.readable call
  rw [hevents] at hz
  rcases List.mem_append.mp hz with hz | hz
  · obtain ⟨hapart, x, hid, hleg, hbefore⟩ := hall z hz t ht
    refine ⟨hapart, x, hid, hleg, ?_⟩
    rw [hevents]
    exact hbefore.append _
  · exact reverses_next hs hz ht

theorem exists_mirrored_leg (hs : s.Ledger) {z : EventRow} {t : UUID} (hz : z ∈ appended s call)
    (ht : z.event.reverts = some t) : ∃ x ∈ s.setOf t,
      (movementLeg? x.event).isSome ∧ x.event.accountId = z.event.accountId := by
  obtain ⟨events, -, -, hdecided, hmem, -⟩ := decided_of_mem_appended hs.coherent.readable hz
  obtain ⟨c, hc, rfl⟩ := AccountCommand.exists_of_original ((hdecided.reverts _ hmem).symm.trans ht)
  cases hdecided with
  | deposit command | withdraw command | hold command | capture command | postings command
  | release command =>
    rw [hc] at command
    cases command
  | reversal command revertible once mirrored =>
    rw [hc] at command
    cases command
    obtain ⟨leg, hleg, hmirror, -⟩ := exists_of_mem_right mirrored _ hmem
    obtain ⟨e, he, hsome⟩ := List.mem_filterMap.mp hleg
    obtain ⟨x, hx, rfl⟩ := List.mem_map.mp he
    refine ⟨x, hx, by rw [hsome]; rfl, ?_⟩
    rw [hmirror.accountId]
    cases hevent : x.event <;> rw [hevent] at hsome <;> cases hsome <;> rfl

/-- A reversal comes after a leg of its set on the same account. -/
def ReversedOn (rows : List EventRow) (z : EventRow) (t : UUID) : Prop :=
  ∃ x, x.event.accountId = z.event.accountId ∧ x.event.setId = some t ∧
    (movementLeg? x.event).isSome ∧ Before rows x z

/-- **Every reversal in the log comes after its set on every account.** -/
theorem reversedOn_storeAfter (calls : List Call) : ∀ z ∈ (storeAfter calls).events,
    ∀ t, z.event.reverts = some t → ReversedOn (storeAfter calls).events z t := by
  refine (Runs.run_invariant next
    (P := fun s => s.Ledger ∧ ∀ z ∈ s.events, ∀ t, z.event.reverts = some t →
      ReversedOn s.events z t)
    (fun s call ⟨hs, hall⟩ => ⟨hs.next, fun z hz t ht => ?_⟩) calls
    ⟨Store.ledger_empty, (fun _ h => nomatch h)⟩).2
  have hevents := next_events hs.coherent.readable call
  rw [hevents] at hz ⊢
  rcases List.mem_append.mp hz with hz | hz
  · obtain ⟨x, haccount, hid, hleg, hbefore⟩ := hall z hz t ht
    exact ⟨x, haccount, hid, hleg, hbefore.append _⟩
  · obtain ⟨x, hx, hleg, haccount⟩ := exists_mirrored_leg hs hz ht
    exact ⟨x, haccount, Store.setId_of_mem hx, hleg,
      before_append_of_mem ((s.setOf_sublist t).subset hx) hz⟩

end Reversals

end Cloudscale
