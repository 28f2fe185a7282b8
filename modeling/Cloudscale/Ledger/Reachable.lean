import Cloudscale.Ledger.Coherence

/-!
# Reachable stores

`Store.Ledger` is the invariant of the calls: the log is coherent, every set and
hold has the id of a recorded result, and every row of the results keeps a
result.  `ledger_storeAfter` says that it holds after every run from the empty store.

The log and the results only grow (`next_events`, `next_results`), so what is
once recorded stays.
-/

namespace Cloudscale

open Checked Python

namespace Store

/-- **The invariant of the calls**, as long as no result is deleted. -/
structure Ledger (s : Store) : Prop where
  coherent : s.Coherent
  recorded : ∀ r ∈ s.events, ∀ t, r.event.setId = some t → ∃ row ∈ s.results, row.commandId = t
  kept : ∀ row ∈ s.results, ∃ r, Keeps row r
  distinct : (s.results.map ResultRow.commandId).Nodup

theorem ledger_empty : Ledger .empty :=
  ⟨coherent_empty, (fun _ h => nomatch h), (fun _ h => nomatch h), List.nodup_nil⟩

/-- A command id without a result is new to the log. -/
theorem Ledger.opening {s : Store} (h : s.Ledger) (call : Call) : s.Opening call := by
  intro _ hfresh _ _ r hr hid
  obtain ⟨row, hrow, heq⟩ := h.recorded r hr _ hid
  exact hfresh row hrow heq

end Store

section Steps

variable {s : Store} {call : Call}

/-- The id of what a call appends is its own, or was in the log before. -/
theorem setId_of_decided {request : NormalizedCommand} {now : Datetime} {events : List AccountEvent}
    (hs : s.Coherent) (hdecided : Decided s request now events) {t : UUID}
    (ht : request.setId = some t) : t = request.commandId ∨ ∃ r ∈ s.events, r.event.setId = some t := by
  have hfound : ∀ a hold, s.openHold a t = .ok (some hold) →
      ∃ r ∈ s.events, r.event.setId = some t := by
    intro a hold hopen
    obtain ⟨r, p, hset, -⟩ := hs.openHold_eq_some.mp hopen
    have hmem : r ∈ s.setOf t := by rw [hset]; exact List.mem_singleton.mpr rfl
    exact ⟨r, (s.setOf_sublist t).subset hmem, Store.setId_of_mem hmem⟩
  cases hdecided with
  | deposit command => rw [NormalizedCommand.setId, command] at ht; cases ht
  | withdraw command => rw [NormalizedCommand.setId, command] at ht; cases ht
  | postings command =>
    rw [NormalizedCommand.setId_of_opens (AccountCommand.opens_of_postings command)] at ht
    exact Or.inl (Option.some.inj ht).symm
  | hold command => rw [NormalizedCommand.setId, command] at ht; cases ht; exact Or.inl rfl
  | capture command found =>
    rw [NormalizedCommand.setId, command] at ht
    cases ht
    exact Or.inr (hfound _ _ found)
  | release command found =>
    rw [NormalizedCommand.setId_of_release command] at ht
    cases ht
    exact Or.inr (hfound _ _ found)
  | reversal command => rw [NormalizedCommand.setId, command] at ht; cases ht; exact Or.inl rfl

theorem Store.Ledger.next (hs : s.Ledger) : (next s call).Ledger := by
  have hcoherent := hs.coherent.next (hs.opening call)
  cases hresult : (execute s call).1 with
  | error e =>
    rw [execute_error hresult]
    exact hs
  | ok r =>
    have hexecuted := executed_of_ok hs.coherent.readable hresult
    generalize hnext : Cloudscale.next s call = s' at hexecuted hcoherent
    have hkeep : ∀ {row : ResultRow}, (∀ row ∈ s.results, row.commandId ≠ call.request.commandId) →
        Answers r call.request → Keeps row r →
        (∀ row' ∈ s.results ++ [row], ∃ r, Keeps row' r) ∧
          ((s.results ++ [row]).map ResultRow.commandId).Nodup := by
      intro row hfresh hanswers hkeeps
      constructor
      · intro row' hrow'
        rcases List.mem_append.mp hrow' with hrow' | hrow'
        · exact hs.kept row' hrow'
        · rw [List.mem_singleton.mp hrow']
          exact ⟨r, hkeeps⟩
      · rw [List.map_append, List.map_singleton]
        refine hs.distinct.append (List.nodup_singleton _) ?_
        rw [List.disjoint_singleton]
        intro hmem
        obtain ⟨row', hrow', heq⟩ := List.mem_map.mp hmem
        exact hfresh row' hrow' (by rw [heq, hkeeps.commandId, hanswers.commandId])
    cases hexecuted with
    | replayed => exact hs
    | conflicted => exact hs
    | @rejected _ row fresh outcome answers keeps =>
      obtain ⟨hkept, hdistinct⟩ := hkeep fresh answers keeps
      refine ⟨hcoherent, fun r' hr' t ht => ?_, hkept, hdistinct⟩
      obtain ⟨row', hrow', hid⟩ := hs.recorded r' hr' t ht
      exact ⟨row', List.mem_append_left _ hrow', hid⟩
    | @accepted _ row events fresh version decided versions fits absorbed outcome answers keeps =>
      obtain ⟨hkept, hdistinct⟩ := hkeep fresh answers keeps
      refine ⟨hcoherent, fun r' hr' t ht => ?_, hkept, hdistinct⟩
      have hold : ∀ r' ∈ s.events, r'.event.setId = some t →
          ∃ row' ∈ s.results ++ [row], row'.commandId = t := by
        intro r' hr' ht
        obtain ⟨row', hrow', hid⟩ := hs.recorded r' hr' t ht
        exact ⟨row', List.mem_append_left _ hrow', hid⟩
      rcases List.mem_append.mp hr' with hr' | hr'
      · exact hold r' hr' ht
      · have hmem := (perm_legRows _ _ _ s events).mem_iff.mp
          (List.mem_map_of_mem (f := EventRow.event) hr')
        rw [decided.setId _ hmem] at ht
        rcases setId_of_decided hs.coherent decided ht with rfl | ⟨r'', hr'', ht''⟩
        · exact ⟨row, List.mem_append_right _ (List.mem_singleton.mpr rfl),
            by rw [keeps.commandId, answers.commandId]⟩
        · exact hold r'' hr'' ht''

end Steps

/-- The call of a command at one time, with consecutive event ids. -/
def Call.of (command : AccountCommand) (commandId : UUID) (now : Datetime)
    (firstEvent : Nat) : Call where
  request := .ofCommand command commandId commandId "issuer" "subject" (by decide) (by decide)
  clock _ := now
  eventIds k := ⟨Fin.ofNat _ (firstEvent + k)⟩

@[simp] theorem Call.of_command (command : AccountCommand) (commandId : UUID) (now : Datetime)
    (firstEvent : Nat) : (Call.of command commandId now firstEvent).request.command = command := by
  rw [Call.of, NormalizedCommand.ofCommand]

def storeAfter (calls : List Call) : Store := Runs.run next .empty calls

theorem storeAfter_append (calls calls' : List Call) :
    storeAfter (calls ++ calls') = Runs.run next (storeAfter calls) calls' :=
  Runs.run_append next Store.empty calls calls'

/-- **Every reachable store is a ledger.** -/
theorem ledger_storeAfter (calls : List Call) : (storeAfter calls).Ledger :=
  Runs.run_invariant next (fun _ _ h => h.next) calls Store.ledger_empty

/-! ### Growth -/

def appended (s : Store) (call : Call) : List EventRow := (next s call).events.drop s.events.length

theorem next_events {s : Store} (hs : s.Readable) (call : Call) :
    (next s call).events = s.events ++ appended s call := by
  have hstart : ∃ rows, (next s call).events = s.events ++ rows := by
    cases hresult : (execute s call).1 with
    | error e => exact ⟨[], by rw [execute_error hresult, List.append_nil]⟩
    | ok r =>
      have hexecuted := executed_of_ok hs hresult
      generalize next s call = s' at hexecuted
      cases hexecuted with
      | replayed | conflicted | rejected => exact ⟨[], (List.append_nil _).symm⟩
      | accepted => exact ⟨_, rfl⟩
  obtain ⟨rows, hrows⟩ := hstart
  rw [appended, hrows, List.drop_left]

theorem next_results {s : Store} (hs : s.Readable) (call : Call) :
    ∃ rows, (next s call).results = s.results ++ rows := by
  cases hresult : (execute s call).1 with
  | error e => exact ⟨[], by rw [execute_error hresult, List.append_nil]⟩
  | ok r =>
    have hexecuted := executed_of_ok hs hresult
    generalize next s call = s' at hexecuted
    cases hexecuted with
    | replayed | conflicted => exact ⟨[], (List.append_nil _).symm⟩
    | rejected | accepted => exact ⟨_, rfl⟩

theorem appended_of_accepted {s : Store} {call : Call} {rows : List EventRow}
    (h : (next s call).events = s.events ++ rows) : appended s call = rows := by
  rw [appended, h, List.drop_left]

theorem accepts_of_mem_appended {s : Store} {call : Call} (hs : s.Readable) {y : EventRow}
    (hy : y ∈ appended s call) : Accepts s call := by
  cases hresult : (execute s call).1 with
  | error e =>
    rw [appended, execute_error hresult, List.drop_length] at hy
    cases hy
  | ok r =>
    have hexecuted := executed_of_ok hs hresult
    generalize hnext : next s call = s' at hexecuted
    cases hexecuted with
    | replayed | conflicted | rejected =>
      rw [appended, hnext, List.drop_length] at hy
      cases hy
    | accepted fresh _ _ _ _ _ outcome => exact ⟨fresh, r, hresult, outcome⟩

/-! ### Sets are written by one call -/

/-- Two movement legs, or two placements, of one id. -/
def SameSet (x y : EventRow) : Prop :=
  x.event.setId ≠ none ∧ x.event.setId = y.event.setId ∧
    (((Account.movementLeg? x.event).isSome ∧ (Account.movementLeg? y.event).isSome) ∨
      (x.event.type = .holdPlaced ∧ y.event.type = .holdPlaced))

instance (x y : EventRow) : Decidable (SameSet x y) :=
  inferInstanceAs (Decidable (_ ∧ _ ∧ (_ ∧ _ ∨ _ ∧ _)))

theorem SameSet.symm {x y : EventRow} (h : SameSet x y) : SameSet y x :=
  ⟨h.2.1 ▸ h.1, h.2.1.symm, h.2.2.imp And.symm And.symm⟩

/-- **What a call appends it has decided**, at its first reading of the clock. -/
theorem decided_of_mem_appended {s : Store} {call : Call} (hs : s.Readable) {y : EventRow}
    (hy : y ∈ appended s call) : ∃ events,
      (∀ row ∈ s.results, row.commandId ≠ call.request.commandId) ∧
        call.request.command.expectedVersion =
          (s.account call.request.command.accountId).version ∧
        Decided s call.request (call.clock 0) events ∧ y.event ∈ events ∧
        y.occurredAt = call.clock 0 := by
  cases hresult : (execute s call).1 with
  | error e =>
    rw [appended, execute_error hresult, List.drop_length] at hy
    cases hy
  | ok r =>
    have hexecuted := executed_of_ok hs hresult
    generalize hnext : next s call = s' at hexecuted
    cases hexecuted with
    | replayed | conflicted | rejected =>
      rw [appended, hnext, List.drop_length] at hy
      cases hy
    | @accepted _ row events fresh version decided =>
      rw [appended_of_accepted (congrArg Store.events hnext)] at hy
      refine ⟨events, fresh, version, decided, ?_, ?_⟩
      · exact (perm_legRows _ _ _ s events).mem_iff.mp
          (List.mem_map_of_mem (f := EventRow.event) hy)
      · obtain ⟨i, leg, -, -, -, rfl⟩ := exists_of_mem_legRows hy
        rfl

/-- What a call appends has its command id, which was free. -/
theorem commandId_of_mem_appended {s : Store} {call : Call} (hs : s.Readable) {y : EventRow}
    (hy : y ∈ appended s call) :
    y.commandId = call.request.commandId ∧
      ∀ row ∈ s.results, row.commandId ≠ call.request.commandId := by
  cases hresult : (execute s call).1 with
  | error e =>
    rw [appended, execute_error hresult, List.drop_length] at hy
    cases hy
  | ok r =>
    have hexecuted := executed_of_ok hs hresult
    generalize hnext : next s call = s' at hexecuted
    cases hexecuted with
    | replayed | conflicted | rejected =>
      rw [appended, hnext, List.drop_length] at hy
      cases hy
    | accepted fresh =>
      rw [appended_of_accepted (congrArg Store.events hnext)] at hy
      obtain ⟨i, leg, -, -, -, rfl⟩ := exists_of_mem_legRows hy
      exact ⟨rfl, fresh⟩

open Account in
/-- **A call adds no leg to a set of the log**, and no placement to a hold. -/
theorem appended_excludes {s : Store} {call : Call} (hs : s.Coherent) (hopening : s.Opening call) :
    ∀ x ∈ s.events, ∀ y ∈ appended s call, ¬ SameSet x y := by
  intro x hx y hy hsame
  obtain ⟨events, fresh, version, decided, hyevent, -⟩ := decided_of_mem_appended hs.readable hy
  obtain ⟨hnone, hids, hkinds⟩ := hsame
  have hyid := decided.setId _ hyevent
  have hopens : call.request.command.Opens → False := by
    intro ho
    refine hopening ho fresh version ⟨_, (decideLegs_eq_ok hs.readable).mpr ⟨_, decided, rfl⟩⟩
      x hx ?_
    rw [hids, hyid, NormalizedCommand.setId_of_opens ho]
  -- Only a settlement is left: the log has the placement of its hold and nothing else.
  have hplaced : ∀ a t hold, s.openHold a t = .ok (some hold) →
      call.request.setId = some t → ∃ p, x.event = .holdPlaced p := by
    intro a t hold hopen ht
    obtain ⟨r, p, hset, hp, -⟩ := hs.openHold_eq_some.mp hopen
    have hmem : x ∈ s.setOf t :=
      List.mem_filter.mpr ⟨hx, by rw [hids, hyid, ht]; simp⟩
    rw [hset, List.mem_singleton] at hmem
    exact ⟨p, hmem ▸ hp⟩
  have hsettled : ∀ {p : HoldPlaced}, x.event = .holdPlaced p → y.event.type ≠ .holdPlaced →
      False := by
    intro p hp hne
    rcases hkinds with ⟨hmovement, -⟩ | ⟨-, htype⟩
    · rw [hp] at hmovement
      cases hmovement
    · exact hne htype
  cases decided with
  | deposit command =>
    rw [NormalizedCommand.setId, command] at hyid
    exact hnone (hids.trans hyid)
  | withdraw command =>
    rw [NormalizedCommand.setId, command] at hyid
    exact hnone (hids.trans hyid)
  | postings command => exact hopens (AccountCommand.opens_of_postings command)
  | hold command => exact hopens (by rw [command]; trivial)
  | capture command found can captured =>
    obtain ⟨p, hp⟩ := hplaced _ _ _ found (by rw [NormalizedCommand.setId, command])
    refine hsettled hp ?_
    cases captured with
    | whole =>
      simp only [List.mem_cons, List.not_mem_nil, or_false] at hyevent
      rcases hyevent with he | he <;> rw [he] <;> intro h <;> cases h
    | part =>
      simp only [List.mem_cons, List.not_mem_nil, or_false] at hyevent
      rcases hyevent with he | he | he <;> rw [he] <;> intro h <;> cases h
  | release command found =>
    obtain ⟨p, hp⟩ := hplaced _ _ _ found (NormalizedCommand.setId_of_release command)
    refine hsettled hp ?_
    rw [List.mem_singleton.mp hyevent]
    intro h
    cases h
  | reversal command => exact hopens (by rw [command]; trivial)

/-- One call of the run appended both rows. -/
def AppendedTogether (calls : List Call) (x y : EventRow) : Prop :=
  ∃ before call after, calls = before ++ call :: after ∧
    x ∈ appended (storeAfter before) call ∧ y ∈ appended (storeAfter before) call

/-- Rows that exclude each other across calls are the rows of one call. -/
theorem appendedTogether_of {R : EventRow → EventRow → Prop} (hsymm : ∀ x y, R x y → R y x)
    (hexcl : ∀ s call, s.Ledger → ∀ x ∈ s.events, ∀ y ∈ appended s call, ¬ R x y)
    (calls : List Call) {x y : EventRow} (hx : x ∈ (storeAfter calls).events)
    (hy : y ∈ (storeAfter calls).events) (hxy : R x y) : AppendedTogether calls x y :=
  Runs.added_together Store.events appended (P := Store.Ledger) (G := fun _ _ => True) hsymm
    (fun _ _ h _ => h.next) (fun _ call h => next_events h.coherent.readable call)
    (fun s call h _ => hexcl s call h) hxy calls Store.ledger_empty
    (Runs.along_of_forall (fun _ _ => trivial) _ _) List.not_mem_nil List.not_mem_nil hx hy

/-- **The legs of a set were appended by one call.** -/
theorem appended_together (calls : List Call) {x y : EventRow}
    (hx : x ∈ (storeAfter calls).events) (hy : y ∈ (storeAfter calls).events)
    (hsame : SameSet x y) : AppendedTogether calls x y :=
  appendedTogether_of (fun _ _ h => h.symm)
    (fun _ call h => appended_excludes h.coherent (h.opening call)) calls hx hy hsame

end Cloudscale
