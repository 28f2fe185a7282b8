import Cloudscale.Ledger.Reachable

/-!
# Idempotency

A call that is answered, and not with a conflict, leaves its result under its
command id (`storedResult_next`), and there it stays (`storedResult_run`).  A
later call with that id finds the result: with the hash of the first request it
is answered with the stored result (`execute_replay`), with another hash it is a
conflict (`execute_conflict`), and either way the store is as before.
-/

namespace Cloudscale

open Checked Python Transactions

/-- The two requests are normalized from one command, under one id, issuer and
subject; only the correlation ids may differ. -/
def SameRequest (request request' : NormalizedCommand) : Prop :=
  ∃ command commandId issuer subject correlationId correlationId',
    normalizeCommand command commandId correlationId issuer subject = .ok request ∧
      normalizeCommand command commandId correlationId' issuer subject = .ok request'

/-- SHA-256 tells the two payloads apart, if they differ. -/
def CollisionFree (payload payload' : List Nat) : Prop :=
  commandRequestHash payload = commandRequestHash payload' → payload = payload'

theorem SameRequest.commandId_eq {request request' : NormalizedCommand}
    (h : SameRequest request request') : request'.commandId = request.commandId := by
  obtain ⟨_, _, _, _, _, _, hfirst, hlater⟩ := h
  rw [(normalizeCommand_eq_ok.mp hfirst).2.1, (normalizeCommand_eq_ok.mp hlater).2.1]

theorem SameRequest.command_eq {request request' : NormalizedCommand}
    (h : SameRequest request request') : request'.command = request.command := by
  obtain ⟨_, _, _, _, _, _, hfirst, hlater⟩ := h
  rw [(normalizeCommand_eq_ok.mp hfirst).1, (normalizeCommand_eq_ok.mp hlater).1]

theorem SameRequest.requestHash_eq {request request' : NormalizedCommand}
    (h : SameRequest request request') : request'.requestHash = request.requestHash := by
  obtain ⟨_, _, _, _, _, _, hfirst, hlater⟩ := h
  have hpayload := (normalizeCommand_eq_ok.mp hlater).2.2.2.2.2
  rw [(normalizeCommand_eq_ok.mp hfirst).2.2.2.2.2] at hpayload
  rw [request.hash_ok, request'.hash_ok, Except.ok.inj hpayload]

theorem NormalizedCommand.requestHash_ne {request request' : NormalizedCommand}
    (hne : request'.canonicalPayload ≠ request.canonicalPayload)
    (hfree : CollisionFree request'.canonicalPayload request.canonicalPayload) :
    request.requestHash ≠ request'.requestHash := by
  rw [request.hash_ok, request'.hash_ok]
  exact fun heq => hne (hfree heq.symm)

/-! ### One call -/

section Calls

variable {s : Store} {call : Call} {r : CommandResult}

/-- **The same hash is answered with the stored result.** -/
theorem execute_replay (hstored : s.storedResult call.request.commandId = .ok (some r))
    (hsame : r.requestHash = call.request.requestHash) : execute s call = (.ok r, s) := by
  have hrun : call.decision.run s.begin = .ok (r, s.begin) := by
    rw [Call.decision, executeCommandDecision,
      run_bind_of (call.stored_begin hstored)]
    dsimp only
    rw [if_pos hsame]
    rfl
  rw [execute, hrun]
  rfl

/-- **Another hash is a conflict.** -/
theorem execute_conflict {state : AccountState}
    (hfold : s.foldStream call.request.command.accountId = .ok state)
    (hstored : s.storedResult call.request.commandId = .ok (some r))
    (hdifferent : r.requestHash ≠ call.request.requestHash) :
    ∃ r', execute s call = (.ok r', s) ∧ r'.outcome = .commandIdConflict := by
  have hrefusal : Refusal .commandIdConflict "command_id_conflict" 409 :=
    ⟨by decide, by decide, by decide⟩
  obtain ⟨r', hrejection⟩ := rejection_of hrefusal call.request state (call.clock 0)
  have hrun : call.decision.run s.begin = .ok (r', call.opened s state) := by
    rw [Call.decision, executeCommandDecision,
      run_bind_of (call.stored_begin hstored)]
    dsimp only
    rw [if_neg hdifferent, run_bind_of (call.fold_opened hfold), run_bind_of (call.tick_opened state)]
    exact run_ofExcept_of hrejection _
  exact ⟨r', by rw [execute, hrun]; rfl, (CommandResult.new_fields hrejection).2.2.1⟩

/-- The row that keeps a result reads back as the result. -/
theorem storedResult_of_keeps {commandId : UUID} {rows : List ResultRow} {row : ResultRow}
    (hfresh : ∀ row ∈ rows, row.commandId ≠ commandId) (hid : row.commandId = commandId)
    (hkeeps : Keeps row r) (events : List EventRow) :
    Store.storedResult ⟨events, rows ++ [row]⟩ commandId = .ok (some r) := by
  have hfind : (rows ++ [row]).find? (fun row => row.commandId = commandId) = some row := by
    rw [List.find?_append, List.find?_eq_none.mpr (fun row hrow => by simpa using hfresh row hrow),
      Option.none_or]
    exact List.find?_cons_of_pos (by simpa using hid)
  rw [Store.storedResult, hfind]
  show some <$> CommandResult.fromStored row.resultJson = _
  rw [hkeeps.resultJson, CommandResult.fromStored_toJson]
  rfl

/-- **An answer other than a conflict is left under the command id.** -/
theorem storedResult_next (hs : s.Readable) (h : (execute s call).1 = .ok r)
    (hanswer : r.outcome ≠ .commandIdConflict) :
    (next s call).storedResult call.request.commandId = .ok (some r) ∧
      r.requestHash = call.request.requestHash := by
  have hexecuted := executed_of_ok hs h
  generalize next s call = s' at hexecuted
  cases hexecuted with
  | replayed found same => exact ⟨found, same⟩
  | conflicted _ _ outcome => exact absurd outcome hanswer
  | rejected fresh _ answers keeps | accepted fresh _ _ _ _ _ _ answers keeps =>
    exact ⟨storedResult_of_keeps fresh (keeps.commandId.trans answers.commandId) keeps _,
      answers.requestHash⟩

end Calls

/-! ### Runs -/

/-- A stored result is found however the log and the results grow. -/
theorem storedResult_mono {s s' : Store} {commandId : UUID} {r : CommandResult}
    (hgrow : ∃ rows, s'.results = s.results ++ rows)
    (h : s.storedResult commandId = .ok (some r)) : s'.storedResult commandId = .ok (some r) := by
  obtain ⟨rows, hrows⟩ := hgrow
  rw [Store.storedResult] at h ⊢
  rw [hrows, List.find?_append]
  cases hfind : s.results.find? (fun row => row.commandId = commandId) with
  | none =>
    rw [hfind] at h
    cases h
  | some row =>
    rw [hfind] at h
    exact h

/-- **A stored result stays under its command id.** -/
theorem storedResult_run {commandId : UUID} {r : CommandResult} : ∀ (calls : List Call)
    {s : Store}, s.Readable → s.storedResult commandId = .ok (some r) →
    (Runs.run next s calls).storedResult commandId = .ok (some r) := by
  intro calls
  induction calls with
  | nil => intro s _ h; exact h
  | cons call calls ih =>
    intro s hs h
    exact ih (hs.next call) (storedResult_mono (next_results hs call) h)

/-- **Commands are idempotent.** Once a request has been answered, and not with a
conflict, the same request is answered with the same result, whatever was called
in between, and another payload under its command id with a conflict.  Neither
changes the store. -/
theorem commands_idempotent (before : List Call) (call : Call) (r : CommandResult)
    (hfirst : (execute (storeAfter before) call).1 = .ok r)
    (hanswer : r.outcome ≠ .commandIdConflict) (mid : List Call) (call' : Call) :
    (SameRequest call.request call'.request →
      ∃ r', execute (storeAfter (before ++ call :: mid)) call' =
        (.ok r', storeAfter (before ++ call :: mid)) ∧ r'.toJson = r.toJson) ∧
      (call'.request.commandId = call.request.commandId →
        call'.request.canonicalPayload ≠ call.request.canonicalPayload →
        CollisionFree call'.request.canonicalPayload call.request.canonicalPayload →
        ∃ r', execute (storeAfter (before ++ call :: mid)) call' =
          (.ok r', storeAfter (before ++ call :: mid)) ∧ r'.outcome = .commandIdConflict) := by
  have hs := ledger_storeAfter before
  obtain ⟨hstored, hhash⟩ := storedResult_next hs.coherent.readable hfirst hanswer
  have hlater : (storeAfter (before ++ call :: mid)).storedResult call.request.commandId =
      .ok (some r) := by
    rw [storeAfter, Runs.run_append, Runs.run_cons]
    exact storedResult_run mid hs.next.coherent.readable hstored
  constructor
  · intro hsame
    refine ⟨r, execute_replay ?_ (hhash.trans hsame.requestHash_eq.symm), rfl⟩
    rw [hsame.commandId_eq]
    exact hlater
  · intro hid hpayload hfree
    refine execute_conflict (r := r)
      (Store.foldStream_eq (ledger_storeAfter _).coherent.readable _) ?_ ?_
    · rw [hid]
      exact hlater
    · rw [hhash]
      exact NormalizedCommand.requestHash_ne hpayload hfree

/-- A deposit is answered a second time, after a withdrawal, as it was the first time. -/
theorem commands_idempotent_deposit :
    let deposit := Call.of (.deposit ⟨"alice", 100, 0, by decide, by decide, by decide⟩) ⟨1⟩
      .epoch 10
    let withdraw := Call.of (.withdraw ⟨"alice", 30, 1, by decide, by decide, by decide⟩) ⟨2⟩
      .epoch 20
    ∃ r, (execute (storeAfter []) deposit).1 = .ok r ∧ r.outcome = .accepted ∧
      ∃ r', execute (storeAfter [deposit, withdraw]) deposit =
        (.ok r', storeAfter [deposit, withdraw]) ∧ r'.toJson = r.toJson := by
  intro deposit withdraw
  obtain ⟨r, hr, haccepted⟩ : ∃ r, (execute (storeAfter []) deposit).1 = .ok r ∧
      r.outcome = .accepted := by decide +kernel
  refine ⟨r, hr, haccepted, (commands_idempotent [] deposit r hr ?_ [withdraw] deposit).1 ?_⟩
  · rw [haccepted]
    decide
  · exact ⟨_, _, _, _, _, _, normalizeCommand_of _ _ _ _ _, normalizeCommand_of _ _ _ _ _⟩

end Cloudscale
