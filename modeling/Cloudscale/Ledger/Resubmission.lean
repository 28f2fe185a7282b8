import Cloudscale.Ledger.Idempotency
import Cloudscale.Ledger.Outcomes

/-!
# A request that is sent again

An accepted command leaves the stream of its account past the version it expected
(`Accepts.expected_lt`), and no input takes an event away (`length_streamOf_mono`).  So
the same request is never accepted twice, whatever results are pruned in between.

The second call replays the result as long as the row is there.  Once the row is pruned
it folds the stream, which it can on every store of a run (`readable_storeThrough`), and
is refused as behind it (`execute_behind`), unless something else is stored under its id.
-/

namespace Cloudscale

open Checked Python Streams Transactions Account

/-! ### Streams grow -/

section Growth

variable {s : Store}

theorem step_grows (s : Store) (input : LedgerInput) :
    ∃ rows, (step s input).events = s.events ++ rows := by
  cases input with
  | batch cutoff policy => exact ⟨[], (List.append_nil _).symm⟩
  | call call =>
    show ∃ rows, (next s call).events = _
    cases hresult : (execute s call).1 with
    | error e => exact ⟨[], by rw [execute_error hresult, List.append_nil]⟩
    | ok r =>
      have hreturned := returned_of_ok hresult
      generalize next s call = s' at hreturned
      cases hreturned with
      | replayed | conflicted | rejected => exact ⟨[], (List.append_nil _).symm⟩
      | accepted => exact ⟨_, rfl⟩

/-- **No input takes an event away.** -/
theorem length_streamOf_mono (a : String) (inputs : List LedgerInput) (s : Store) :
    (s.streamOf a).length ≤ ((Runs.run step s inputs).streamOf a).length := by
  refine Runs.run_rel (R := fun s s' : Store => (s.streamOf a).length ≤ (s'.streamOf a).length)
    (fun _ => le_refl _) (fun _ _ _ => le_trans) (fun s input => ?_) inputs s
  obtain ⟨rows, hrows⟩ := step_grows s input
  rw [Store.streamOf, Store.streamOf, hrows, List.filter_append, List.length_append]
  exact Nat.le_add_right _ _

/-- **An accepted command leaves its stream past the version it expected.** -/
theorem Accepts.expected_lt (hs : s.Readable) {call : Call} (h : Accepts s call) :
    call.request.command.expectedVersion <
      ((next s call).streamOf call.request.command.accountId).length := by
  obtain ⟨hfresh, r, hresult, houtcome⟩ := h
  have happends : Appends s call r (next s call) := by
    rcases oneOf_of_ok hs hresult with ⟨h, -, -⟩ | ⟨-, h, -⟩ | ⟨-, -, h⟩
    · obtain ⟨row, hrow, hid⟩ := h.used
      exact absurd hid (hfresh row hrow)
    · exact absurd houtcome h.outcome.1
    · exact h
  obtain ⟨state, legs, row, hfold, hversion, -, -, hwritten, hnext⟩ := happends.appends
  rw [Store.foldStream_eq hs, Except.ok.injEq] at hfold
  subst hfold
  obtain ⟨last, hlast, -⟩ := hwritten.last
  have hpos := List.length_pos_of_mem (List.mem_of_getLast? hlast)
  have hlength : ((next s call).streamOf call.request.command.accountId).length =
      (s.streamOf call.request.command.accountId).length +
        ((legRows call.request (call.clock 0) call.eventIds 0 legs).filter
          (fun r => r.event.accountId = call.request.command.accountId)).length := by
    rw [hnext, Store.streamOf, List.filter_append, List.length_append]
    rfl
  rw [← hversion, Store.account_version hs, hlength]
  omega

end Growth

/-! ### The rows of results -/

namespace Store

/-- Every row of the results keeps one, and no two have one command id. -/
structure Filed (s : Store) : Prop where
  kept : ∀ row ∈ s.results, ∃ r, Keeps row r
  distinct : (s.results.map ResultRow.commandId).Nodup

theorem filed_empty : Filed .empty := ⟨(fun _ h => nomatch h), List.nodup_nil⟩

variable {s : Store}

theorem Filed.concat (h : s.Filed) {row : ResultRow} {r : CommandResult} (hkeeps : Keeps row r)
    (hfresh : ∀ row' ∈ s.results, row'.commandId ≠ row.commandId) (events : List EventRow) :
    Filed ⟨events, s.results ++ [row]⟩ := by
  constructor
  · intro row' hrow'
    rcases List.mem_append.mp hrow' with hrow' | hrow'
    · exact h.kept row' hrow'
    · rw [List.mem_singleton.mp hrow']
      exact ⟨r, hkeeps⟩
  · rw [List.map_append, List.map_singleton]
    refine h.distinct.append (List.nodup_singleton _) (List.disjoint_singleton.mpr fun hmem => ?_)
    obtain ⟨row', hrow', heq⟩ := List.mem_map.mp hmem
    exact hfresh row' hrow' heq

theorem Filed.step (h : s.Filed) (input : LedgerInput) : (step s input).Filed := by
  cases input with
  | batch cutoff policy =>
    exact ⟨fun row hrow => h.kept row (List.mem_of_mem_filter hrow),
      h.distinct.sublist (List.filter_sublist.map _)⟩
  | call call =>
    show (next s call).Filed
    cases hresult : (execute s call).1 with
    | error e =>
      rw [execute_error hresult]
      exact h
    | ok r =>
      have hreturned := returned_of_ok hresult
      generalize next s call = s' at hreturned
      cases hreturned with
      | replayed | conflicted => exact h
      | rejected fresh _ answers keeps =>
        refine h.concat keeps (fun row' hrow' => ?_) _
        rw [keeps.commandId, answers.commandId]
        exact fresh row' hrow'
      | accepted fresh _ _ _ _ _ result keeps =>
        refine h.concat keeps (fun row' hrow' => ?_) _
        rw [keeps.commandId, (CommandResult.new_fields result).1]
        exact fresh row' hrow'

theorem Filed.storedResult_of_mem (h : s.Filed) {row : ResultRow} (hrow : row ∈ s.results)
    {r : CommandResult} (hkeeps : Keeps row r) :
    s.storedResult row.commandId = .ok (some r) := by
  have hfind : s.results.find? (fun row' => row'.commandId = row.commandId) = some row := by
    cases hfound : s.results.find? (fun row' => row'.commandId = row.commandId) with
    | none => exact absurd (by simp) (List.find?_eq_none.mp hfound row hrow)
    | some row' =>
      have hid : row'.commandId = row.commandId := by simpa using List.find?_some hfound
      rw [List.inj_on_of_nodup_map h.distinct (List.mem_of_find?_eq_some hfound) hrow hid]
  rw [storedResult, hfind]
  show some <$> CommandResult.fromStored row.resultJson = _
  rw [hkeeps.resultJson, CommandResult.fromStored_toJson]
  rfl

/-- **What is stored under a command id is read, or there is nothing.** -/
theorem Filed.storedResult_cases (h : s.Filed) (commandId : UUID) :
    s.storedResult commandId = .ok none ∨ ∃ row ∈ s.results, ∃ r, row.commandId = commandId ∧
      Keeps row r ∧ s.storedResult commandId = .ok (some r) := by
  by_cases hrow : ∃ row ∈ s.results, row.commandId = commandId
  · obtain ⟨row, hrow, rfl⟩ := hrow
    obtain ⟨r, hkeeps⟩ := h.kept row hrow
    exact Or.inr ⟨row, hrow, r, rfl, hkeeps, h.storedResult_of_mem hrow hkeeps⟩
  · exact Or.inl (storedResult_eq_none.mpr fun row hmem hid => hrow ⟨row, hmem, hid⟩)

end Store

theorem filed_storeThrough (inputs : List LedgerInput) : (storeThrough inputs).Filed :=
  Runs.run_invariant step (fun _ input h => h.step input) inputs Store.filed_empty

/-! ### What a second call answers -/

section Answers

variable {s : Store} {call : Call}

/-- **A command whose stream has moved on is refused.** -/
theorem execute_behind {state : AccountState}
    (hfold : s.foldStream call.request.command.accountId = .ok state)
    (hversion : call.request.command.expectedVersion ≠ state.version)
    (hnone : s.storedResult call.request.commandId = .ok none) :
    ∃ r, (execute s call).1 = .ok r ∧ r.outcome = .versionConflict := by
  have hrefusal : Refusal .versionConflict "version_conflict" 409 :=
    ⟨by decide, by decide, by decide⟩
  obtain ⟨r, t, hpersisted, houtcome⟩ := persistedRejection_of hrefusal state (call.clock 0)
    (call.opened s state) (Store.storedResult_eq_none.mp hnone)
  have hrun : call.decision.run s.begin = .ok (r, t) := by
    rw [Call.decision, executeCommandDecision, run_bind_of (call.stored_begin hnone)]
    dsimp only
    rw [run_bind_of (call.fold_opened hfold), if_pos hversion, run_bind_of (call.tick_opened state)]
    exact hpersisted
  exact ⟨r, by rw [execute, hrun], houtcome⟩

/-- The request was accepted with this result before: its row is replayed as long as
it is there, and once it is pruned the answer is what is stored or a rejection. -/
structure Declines (s : Store) (call : Call) (first : CommandResult) : Prop where
  appends_nothing : (next s call).events = s.events
  replays : ∀ row ∈ s.results, Keeps row first → execute s call = (.ok first, s)
  refuses : (∀ row ∈ s.results, ¬ Keeps row first) → ∃ r, (execute s call).1 = .ok r ∧
    (s.storedResult call.request.commandId = .ok (some r) ∨ r.outcome ≠ .accepted)

theorem next_events_of_behind (hs : s.Readable)
    (hbehind : call.request.command.expectedVersion <
      (s.streamOf call.request.command.accountId).length) :
    (next s call).events = s.events ∧ ∀ r, (execute s call).1 = .ok r →
      s.storedResult call.request.commandId = .ok (some r) ∨ r.outcome ≠ .accepted := by
  cases hresult : (execute s call).1 with
  | error e =>
    rw [execute_error hresult]
    exact ⟨rfl, fun r h => nomatch h⟩
  | ok r =>
    have hreturned := returned_of_ok hresult
    generalize next s call = s' at hreturned ⊢
    cases hreturned with
    | replayed found =>
      refine ⟨rfl, fun r' h => Or.inl ?_⟩
      cases h
      exact found
    | conflicted _ _ outcome =>
      refine ⟨rfl, fun r' h => Or.inr ?_⟩
      cases h
      rw [outcome]
      exact fun h => nomatch h
    | rejected _ outcome =>
      refine ⟨rfl, fun r' h => Or.inr ?_⟩
      cases h
      exact outcome.1
    | accepted _ folded version =>
      rw [Store.foldStream_eq hs, Except.ok.injEq] at folded
      rw [version, ← folded, Store.account_version hs] at hbehind
      exact absurd hbehind (lt_irrefl _)

/-- **Every call whose command was used, or is behind its stream, returns.** -/
theorem returns_of_behind (hs : s.Readable) (hfiled : s.Filed)
    (hbehind : call.request.command.expectedVersion <
      (s.streamOf call.request.command.accountId).length) : ∃ r, (execute s call).1 = .ok r := by
  have hfold := Store.foldStream_eq hs call.request.command.accountId
  rcases hfiled.storedResult_cases call.request.commandId with hnone | ⟨_, _, r, _, _, hstored⟩
  · have hversion := Store.account_version hs call.request.command.accountId
    obtain ⟨r, hr, -⟩ := execute_behind hfold (by omega) hnone
    exact ⟨r, hr⟩
  · by_cases hhash : r.requestHash = call.request.requestHash
    · exact ⟨r, by rw [execute_replay hstored hhash]⟩
    · obtain ⟨r', hr', -⟩ := execute_conflict hfold hstored hhash
      exact ⟨r', by rw [hr']⟩

end Answers

/-- **An accepted request is never accepted again.** At any later time of a run with
retention batches the same request appends no event.  It is answered with its result as
long as the row is there, and with what is stored or a rejection once that is pruned. -/
theorem resubmission_declines (before : List LedgerInput) (call : Call) (first : CommandResult)
    (hfresh : ∀ row ∈ (storeThrough before).results, row.commandId ≠ call.request.commandId)
    (hfirst : (execute (storeThrough before) call).1 = .ok first)
    (haccepted : first.outcome = .accepted) (after : List LedgerInput) (call' : Call)
    (hsame : SameRequest call.request call'.request) :
    Declines (storeThrough (before ++ .call call :: after)) call' first := by
  have hs := readable_storeThrough (before ++ .call call :: after)
  have hfiled := filed_storeThrough (before ++ .call call :: after)
  have hbefore := readable_storeThrough before
  have hanswers : Answers first call.request := by
    have hreturned := returned_of_ok hfirst
    generalize next (storeThrough before) call = s' at hreturned
    cases hreturned with
    | replayed found => rw [Store.storedResult_eq_none.mpr hfresh] at found; cases found
    | conflicted found => rw [Store.storedResult_eq_none.mpr hfresh] at found; cases found
    | rejected _ _ answers => exact answers
    | accepted _ _ _ _ _ _ result =>
      obtain ⟨hid, hhash, -⟩ := CommandResult.new_fields result
      exact ⟨hid, hhash⟩
  have hbehind : call'.request.command.expectedVersion <
      ((storeThrough (before ++ .call call :: after)).streamOf
        call'.request.command.accountId).length := by
    rw [hsame.command_eq]
    refine lt_of_lt_of_le (Accepts.expected_lt hbefore ⟨hfresh, first, hfirst, haccepted⟩) ?_
    have hrun : storeThrough (before ++ .call call :: after) =
        Runs.run step (next (storeThrough before) call) after := Runs.run_append step _ _ _
    rw [hrun]
    exact_mod_cast length_streamOf_mono _ after _
  generalize storeThrough (before ++ .call call :: after) = s at hs hfiled hbehind ⊢
  obtain ⟨hevents, hdeclined⟩ := next_events_of_behind hs hbehind
  refine ⟨hevents, fun row hrow hkeeps => ?_, fun _ => ?_⟩
  · refine execute_replay ?_ (hanswers.requestHash.trans hsame.requestHash_eq.symm)
    rw [hsame.commandId_eq, ← hanswers.commandId, ← hkeeps.commandId]
    exact hfiled.storedResult_of_mem hrow hkeeps
  · obtain ⟨r, hr⟩ := returns_of_behind hs hfiled hbehind
    exact ⟨r, hr, hdeclined r hr⟩

/-- A transfer from the first account to the second, under command id 2. -/
def transfer (amount expectedVersion : Int) (ha : ValidAmount amount)
    (hv : ValidExpectedVersion expectedVersion) (now : Datetime) (firstEvent : Nat) : Call :=
  .of (.transfer ⟨"alice", "bob", amount, expectedVersion, validAccountId_alice,
    validAccountId_bob, alice_ne_bob, ha, hv⟩) ⟨2⟩ now firstEvent

/-- A transfer is pruned, its command id is used by another, and the same transfer is sent
again: a conflict of command ids. -/
theorem resubmission_declines_transfer : ∃ first,
    Declines (storeThrough ([.call deposit100] ++
      .call (transfer 60 1 (by decide) (by decide) .epoch 20) ::
        [.batch (dayAfterEpoch 1) ⟨5000, by decide⟩,
          .call (transfer 40 2 (by decide) (by decide) (dayAfterEpoch 8) 30)]))
      (transfer 60 1 (by decide) (by decide) .epoch 20) first := by
  obtain ⟨hfresh, first, hfirst, haccepted⟩ : Accepts (storeThrough [.call deposit100])
      (transfer 60 1 (by decide) (by decide) .epoch 20) := by decide +kernel
  refine ⟨first, resubmission_declines [.call deposit100] _ first hfresh hfirst haccepted _ _ ?_⟩
  exact ⟨_, _, _, _, _, _, normalizeCommand_of _ _ _ _ _, normalizeCommand_of _ _ _ _ _⟩

end Cloudscale
