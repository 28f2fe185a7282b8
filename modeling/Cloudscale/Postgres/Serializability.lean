import Cloudscale.Postgres.Commits

/-!
# Accepted commands are serialized

A transaction commits nothing new for the log, or what `execute` appends on the database
before the commit (`Commits`).  What it appends is later, by its ids, than the rows of the same
stream and of the same set, so the database stays what the accepted calls come to one
after the other (`Commits.publish`).

`serializable` is the result for every run of callers from the empty database: a commit
of an accepted result appends what the decision yields when it is run alone on the
store before the commit, and what only one command can do is done by one
(`Exclusive`).
-/

namespace Cloudscale.Postgres

open Checked Python ReadCommitted LogRow Streams DoubleEntry

/-- **What a transaction may commit.** -/
inductive Commits (db : Database EventRow) (own : Written EventRow) : Prop
  | unchanged (events : own.events = []) (kept : ∀ row ∈ own.results, ∃ r, Keeps row r)
  | accepted {call : Call} {row : ResultRow} (accepts : Accepts db.store call)
      (rows : own.events.map Prod.snd = appended db.store call) (results : own.results = [row])
      (id : row.commandId = call.request.commandId) (kept : ∃ r, Keeps row r)

theorem Ended.commits {attempt : Attempt} {db : Database EventRow} {own : Written EventRow}
    {past : List (Step EventRow)} {result : CommandResult} (h : Ended attempt (.ok result) own past)
    (hholds : serialRely.Holds db own past) : Commits db own := by
  have hexecute := h.execute_eq hholds
  have hkeeps : Keeps (resultRow attempt 1 result) result := ⟨rfl, rfl, rfl⟩
  generalize hr : (Except.ok result : Except PyError CommandResult) = r at h
  cases h with
  | failed | collided | undecided | outOfRange => cases hr
  | replayed t₀ mem events results | conflicted t₀ events results =>
    refine .unchanged events ?_
    rw [results]
    exact fun _ h => nomatch h
  | outdated ran version rejects events results | rejected ran version decides rejects events results =>
    cases hr
    refine .unchanged events ?_
    rw [results, List.forall_mem_singleton]
    exact ⟨result, hkeeps⟩
  | accepted ran version decides rows accepts results =>
    cases hr
    obtain ⟨hid, -, houtcome, -⟩ := CommandResult.new_fields accepts
    have hresult := hexecute houtcome
    refine .accepted ⟨fun row hrow => ?_, result, by rw [hresult], houtcome⟩ ?_ results hid
      ⟨result, hkeeps⟩
    · rw [← hid]
      exact hholds.owns.results (resultRow attempt 1 result)
        (by rw [results]; exact List.mem_cons_self) row hrow
    · refine (appended_of_accepted ?_).symm
      rw [next, hresult]

/-! ### Publishing -/

section Publishing

variable {db : Database EventRow} {own : Written EventRow} (hdb : Serialized db)
  (howns : Owns db own) (h : Commits db own)

include hdb howns h

/-- What is appended to a set is later than the set. -/
theorem Commits.later {t : UUID} {x r : ℕ × EventRow} (hx : x ∈ db.events) (hr : r ∈ own.events)
    (hxid : x.2.event.setId = some t) (hrid : r.2.event.setId = some t) : x.1 < r.1 := by
  cases h with
  | unchanged events =>
    rw [events] at hr
    cases hr
  | @accepted call row accepts rows =>
    have happended : r.2 ∈ appended db.store call := rows ▸ List.mem_map_of_mem hr
    have hmem : x.2 ∈ db.store.setOf t :=
      List.mem_filter.mpr ⟨List.mem_map_of_mem hx, decide_eq_true hxid⟩
    rcases appended_set hdb.ledger happended hrid with hnil | ⟨y, p, hset, hp, haccount⟩
    · rw [hnil] at hmem
      cases hmem
    · rw [hset, List.mem_singleton] at hmem
      obtain ⟨z, hz, hanchor⟩ := appended_addressed hdb.ledger.coherent.readable accepts
      rw [← rows] at hz
      obtain ⟨r', hr', rfl⟩ := List.mem_map.mp hz
      refine howns.later r hr x hx ⟨r', hr', ?_⟩
      show streamName r'.2.event.accountId = streamName x.2.event.accountId
      rw [hmem, hp, hanchor, ← haccount]
      rfl

/-- **The log after a commit** has the rows of the transaction at the end of every stream and
set. -/
theorem Commits.sameLog (results : List ResultRow) :
    (publish db own).store.SameLog ⟨db.store.events ++ own.events.map Prod.snd, results⟩ := by
  have hfilter : ∀ p : EventRow → Bool,
      (∀ x ∈ db.events, ∀ r ∈ own.events, p x.2 → p r.2 → x.1 < r.1) →
      (publish db own).store.events.filter p =
        (db.store.events ++ own.events.map Prod.snd).filter p := by
    intro p hlater
    have hrows := filter_byId hdb.numbered howns (p := fun r => p r.2) hlater
    show ((byId (db.events ++ own.events)).map Prod.snd).filter p =
      (db.events.map Prod.snd ++ own.events.map Prod.snd).filter p
    rw [← List.map_append, List.filter_map, List.filter_map, List.filter_append]
    exact congrArg (List.map Prod.snd) hrows
  refine ⟨?_, fun a => hfilter _ fun x hx r hr hxa hra => ?_,
    fun t => hfilter _ fun x hx r hr hxt hrt => ?_⟩
  · show ((byId (db.events ++ own.events)).map Prod.snd).Perm
      (db.events.map Prod.snd ++ own.events.map Prod.snd)
    rw [← List.map_append]
    exact (List.perm_insertionSort _ _).map _
  · refine howns.later r hr x hx ⟨r, hr, congrArg streamName ?_⟩
    exact (of_decide_eq_true hra).trans (of_decide_eq_true hxa).symm
  · exact h.later hdb howns hx hr (of_decide_eq_true hxt) (of_decide_eq_true hrt)

theorem Commits.setOf_eq {t : UUID} (hne : legsOfRows (db.store.setOf t) ≠ []) :
    (publish db own).store.setOf t = db.store.setOf t := by
  have hset := (h.sameLog hdb howns db.results).sets t
  rw [hset, Store.setOf, List.filter_append]
  refine List.append_right_eq_self.mpr (List.filter_eq_nil_iff.mpr fun y hy hid => ?_)
  cases h with
  | unchanged events =>
    rw [events] at hy
    cases hy
  | accepted accepts rows =>
    rw [rows] at hy
    rcases appended_set hdb.ledger hy (of_decide_eq_true hid) with hnil | ⟨r, p, hr, hp, -⟩
    · rw [hnil] at hne
      exact hne rfl
    · rw [hr, SetShape.legs_of_hold hp] at hne
      exact hne rfl

/-- **The database stays what the accepted calls come to.** -/
theorem Commits.publish : Serialized (publish db own) ∧ Extends db (publish db own) := by
  have hsame := h.sameLog hdb howns
  refine ⟨⟨hdb.numbered.publish howns, ?_⟩, Grows.publish hdb.numbered howns,
    fun t hne => h.setOf_eq hdb howns hne⟩
  obtain ⟨calls, hserial⟩ := hdb.serial
  cases h with
  | unchanged events kept =>
    refine ⟨calls, ?_, fun row hrow => ?_, fun row hrow => ?_⟩
    · have hlog := hsame db.results
      rw [events, List.map_nil, List.append_nil] at hlog
      exact hlog.trans hserial.log
    · obtain ⟨row', hrow', hid⟩ := hserial.recorded row hrow
      exact ⟨row', List.mem_append_left _ hrow', hid⟩
    · rcases List.mem_append.mp hrow with hrow | hrow
      · exact hserial.kept row hrow
      · exact kept row hrow
  | @accepted call row accepts rows results id kept =>
    have hread := hdb.ledger.coherent.readable
    have hread' := (ledger_storeAfter calls).coherent.readable
    have hfresh : ∀ row ∈ (storeAfter calls).results, row.commandId ≠ call.request.commandId := by
      intro row hrow
      obtain ⟨row', hrow', hid⟩ := hserial.recorded row hrow
      rw [← hid]
      exact accepts.1 row' hrow'
    obtain ⟨haccepts, hrows⟩ := hserial.log.accepts hread accepts hfresh
    obtain ⟨row₀, hresults, hid₀⟩ := haccepts.results hread'
    have hnext : storeAfter (calls ++ [call]) = next (storeAfter calls) call :=
      storeAfter_append calls [call]
    refine ⟨calls ++ [call], ?_, fun row' hrow' => ?_, fun row' hrow' => ?_⟩
    · have hlog := hsame db.results
      rw [rows, ← hrows] at hlog
      refine hlog.trans ?_
      have hevents : (storeAfter (calls ++ [call])).events =
          (storeAfter calls).events ++ appended (storeAfter calls) call := by
        rw [hnext]
        exact next_events hread' call
      have happend : Store.SameLog ⟨db.store.events ++ appended (storeAfter calls) call, db.results⟩
          ⟨_, (storeAfter (calls ++ [call])).results⟩ := hserial.log.append _
      rw [← hevents] at happend
      exact happend
    · rw [hnext, hresults] at hrow'
      rcases List.mem_append.mp hrow' with hrow' | hrow'
      · obtain ⟨row'', hrow'', hid⟩ := hserial.recorded row' hrow'
        exact ⟨row'', List.mem_append_left _ hrow'', hid⟩
      · refine ⟨row, List.mem_append_right _ (by rw [results]; exact List.mem_cons_self), ?_⟩
        rw [List.mem_singleton.mp hrow', hid₀, id]
    · rcases List.mem_append.mp hrow' with hrow' | hrow'
      · exact hserial.kept row' hrow'
      · rw [results, List.mem_singleton] at hrow'
        rw [hrow']
        exact kept

end Publishing

/-! ### Callers -/

theorem serial_discipline :
    Discipline serialRely Owes Clash (engine : Engine (Database EventRow) _ _ _ _) Commits where
  clash_symm := discipline.clash_symm
  clash_blank := discipline.clash_blank
  blank h := discipline.blank h.numbered
  draw op h := by
    obtain ⟨hnumbered, hgrows, howns⟩ := discipline.draw op h.numbered
    obtain ⟨calls, hserial⟩ := h.serial
    obtain ⟨heq, -⟩ := draw_eq op _
    have hlog : ∀ {db : Database EventRow} {n : ℕ}, Serial db calls →
        Serial { db with nextId := n } calls := fun h => ⟨h.log, h.recorded, h.kept⟩
    refine ⟨⟨hnumbered, calls, ?_⟩, ⟨hgrows, fun t _ => ?_⟩, howns⟩
    · show Serial (draw op _) calls
      rw [heq]
      exact hlog hserial
    · show (draw op _).store.setOf t = _
      rw [heq]
      rfl
  exec h howns howes hexec := discipline.exec h.numbered howns howes hexec
  publish h howns hcommits :=
    ⟨(hcommits.publish h howns).1, (hcommits.publish h howns).2,
      (discipline.publish h.numbered howns trivial).2.2⟩

section Callers

variable {ι : Type}

/-- How an attempt ends, and in which state. -/
def SerialEnd (attempt : Attempt) (r : Except PyError CommandResult) (db : Database EventRow)
    (own : Written EventRow) (past : List (Step EventRow)) : Prop :=
  Ended attempt r own past ∧ serialRely.Holds db own past

theorem serial_tasks : Tasks serialRely Owes engine decision (fun _ : ι => caller) Commits SerialEnd
    (fun _ _ => True) where
  wp attempt _ := by
    refine (wp_decision attempt).strengthen serialRely ?_ ?_ ?_
    · exact fun h => Serialized.numbered h
    · exact fun h => Extends.grows h
    · exact fun h => h
  settled h := h.1.commits h.2
  resume _ _ _ := trivial
  lost _ := trivial

variable [DecidableEq ι] [∀ s : Callers EventRow ι, ∀ i op, Decidable (s.Waits engine i op)]

/-- **The database is serialized in every state of a run of callers.** -/
theorem Callers.serial_run (queues : ι → List Execution) (moves : List (Move ι)) :
    Safe serialRely Owes Clash engine (fun _ => caller) SerialEnd (fun _ _ => True)
      (Callers.run (.empty : Database EventRow) queues moves) := by
  have hstart : Safe serialRely Owes Clash engine (fun _ => caller) SerialEnd (fun _ _ => True)
      (Callers.start (.empty : Database EventRow) queues) := by
    refine ⟨serialized_empty, fun _ => trivial, ?_, ?_⟩
    · exact fun _ _ _ _ hown => nomatch hown
    · exact fun _ _ _ _ _ hphase => nomatch hphase
  exact Safe.run serial_discipline serial_tasks hstart moves

/-- The session is about to commit this result, with what it has written. -/
structure Committing {Row : Type} (s : Callers Row ι) (i : ι) (attempt : Attempt) (own : Written Row)
    (result : CommandResult) : Prop where
  phase : ∃ past, (s.sessions i).phase = .running attempt past own (.pure result)

/-- What only one command can do is done by one. -/
structure Exclusive (s : Store) : Prop where
  /-- What has been spent and what is held was there. -/
  covered : ∀ a, 0 ≤ posted (fun r => r.event.accountId) (fun r => r.event.heldDelta) s.events a ∧
    posted (fun r => r.event.accountId) (fun r => r.event.heldDelta) s.events a ≤
      posted (fun r => r.event.accountId) (fun r => r.event.balanceDelta) s.events a
  /-- A hold is settled, and a set is reverted, by one command. -/
  alone : ∀ x ∈ s.events, ∀ y ∈ s.events, Competes x y → x.commandId = y.commandId
  once : (s.results.map ResultRow.commandId).Nodup

theorem Serialized.exclusive {db : Database EventRow} (h : Serialized db) : Exclusive db.store := by
  have hread := h.ledger.coherent.readable
  obtain ⟨calls, hserial⟩ := h.serial
  refine ⟨fun a => ?_, fun x hx y hy hxy => ?_, h.numbered.results⟩
  · have hvalid := (db.store.account a).valid
    rw [← Store.account_held hread, ← Store.account_balance hread]
    exact ⟨hvalid.held_nonneg, hvalid.held_le⟩
  · exact commandId_of_competes calls (hserial.log.perm.mem_iff.mp hx)
      (hserial.log.perm.mem_iff.mp hy) hxy

/-- **Accepted commands are serialized**: what commits as accepted is what the decision
comes to when it is run alone on the store before the commit. -/
theorem serializable (queues : ι → List Execution) (moves : List (Move ι)) :
    let s := Callers.run (.empty : Database EventRow) queues moves
    (∀ i attempt own result, Committing s i attempt own result → result.outcome = .accepted →
      execute s.shared.store attempt.call = (.ok result,
        ⟨s.shared.store.events ++ own.events.map Prod.snd, s.shared.results ++ own.results⟩) ∧
      (s.next (.proceed i)).shared = publish s.shared own) ∧
    (∃ calls, s.shared.store.SameLog (storeAfter calls)) ∧ Exclusive s.shared.store := by
  intro s
  have hsafe := Callers.serial_run queues moves
  have hdb : Serialized s.shared := hsafe.inv
  obtain ⟨calls, hserial⟩ := hdb.serial
  refine ⟨fun i attempt own result ⟨past, hphase⟩ haccepted => ⟨?_, ?_⟩, ⟨calls, hserial.log⟩,
    hdb.exclusive⟩
  · obtain ⟨hends, hholds⟩ := hsafe.ends hphase
    exact hends.execute_eq hholds haccepted
  · show (s.proceed engine decision (fun _ => caller) i).shared = _
    rw [State.proceed, hphase]
    rfl

end Callers

end Cloudscale.Postgres
