import Cloudscale.Entrypoints.Http.Executor
import Cloudscale.Ledger.Idempotency
import Cloudscale.Ledger.Outcomes

/-!
# Retries under faults

A fault can hide a commit that took effect, and the next attempt then finds its own
result under its command id.  So of the attempts of one `CommandExecutor.execute` at
most one takes effect, and the others leave the store as it is
(`applied_at_most_once`): as long as none has, the store is what the other callers make
of it (`NoEffect`), and once one has, every later attempt is a replay (`OneEffect`).
All that is needed of the store is that it can be read.

On a store whose results were never pruned the events under one command id were
appended by one call, whoever sent them (`together_of_commandId`).
-/

namespace Cloudscale

open Checked Python

/-! ### One call for each command id -/

section Commands

variable {s : Store} {call : Call}

/-- Every event has the command id of a stored result. -/
def Store.Claimed (s : Store) : Prop :=
  ∀ x ∈ s.events, ∃ row ∈ s.results, row.commandId = x.commandId

theorem Store.Claimed.next (hs : s.Ledger) (h : s.Claimed) (call : Call) :
    (next s call).Claimed := by
  cases hresult : (execute s call).1 with
  | error e =>
    rw [execute_error hresult]
    exact h
  | ok r =>
    have hexecuted := executed_of_ok hs.coherent.readable hresult
    generalize Cloudscale.next s call = s' at hexecuted
    have hold : ∀ {row : ResultRow}, ∀ x ∈ s.events,
        ∃ row' ∈ s.results ++ [row], row'.commandId = x.commandId := by
      intro row x hx
      obtain ⟨row', hrow', hid⟩ := h x hx
      exact ⟨row', List.mem_append_left _ hrow', hid⟩
    cases hexecuted with
    | replayed | conflicted => exact h
    | rejected => exact hold
    | @accepted _ row _ _ _ _ _ _ _ _ answers keeps =>
      intro x hx
      rcases List.mem_append.mp hx with hx | hx
      · exact hold x hx
      · obtain ⟨i, leg, -, -, -, rfl⟩ := exists_of_mem_legRows hx
        exact ⟨row, List.mem_append_right _ List.mem_cons_self,
          keeps.commandId.trans answers.commandId⟩

/-- **The events of one command id were appended by one call.** -/
theorem together_of_commandId (calls : List Call) {x y : EventRow}
    (hx : x ∈ (storeAfter calls).events) (hy : y ∈ (storeAfter calls).events)
    (hsame : x.commandId = y.commandId) : AppendedTogether calls x y := by
  refine Runs.added_together Store.events appended (P := fun s => s.Ledger ∧ s.Claimed)
    (G := fun _ _ => True) (R := fun x y => x.commandId = y.commandId) (fun _ _ h => h.symm)
    (fun s call h _ => ⟨h.1.next, h.2.next h.1 call⟩)
    (fun s call h => next_events h.1.coherent.readable call) (fun s call h _ x hx y hy hxy => ?_)
    hsame calls ⟨Store.ledger_empty, fun _ h => nomatch h⟩
    (Runs.along_of_forall (fun _ _ => trivial) _ _) List.not_mem_nil List.not_mem_nil hx hy
  obtain ⟨hid, hfree⟩ := commandId_of_mem_appended h.1.coherent.readable hy
  obtain ⟨row, hrow, hclaim⟩ := h.2 x hx
  exact hfree row hrow (hclaim.trans (hxy.trans hid))

/-- A call leaves the store as it is, or it takes effect and its result is stored. -/
theorem effect_cases (hs : s.Readable) (call : Call) :
    (next s call = s ∧ ∀ r, (execute s call).1 = .ok r →
      s.storedResult call.request.commandId = .ok (some r) ∨ r.outcome = .commandIdConflict) ∨
    ((∀ row ∈ s.results, row.commandId ≠ call.request.commandId) ∧
      ∃ first, (execute s call).1 = .ok first ∧ first.requestHash = call.request.requestHash ∧
        (next s call).storedResult call.request.commandId = .ok (some first)) := by
  cases hresult : (execute s call).1 with
  | error e => exact Or.inl ⟨execute_error hresult, fun r h => nomatch h⟩
  | ok r =>
    have hexecuted := executed_of_ok hs hresult
    generalize hnext : next s call = s' at hexecuted
    have hstored : r.outcome ≠ .commandIdConflict → r.requestHash = call.request.requestHash ∧
        (next s call).storedResult call.request.commandId = .ok (some r) :=
      fun houtcome => (storedResult_next hs hresult houtcome).symm
    rw [hnext] at hstored
    cases hexecuted with
    | replayed found =>
      refine Or.inl ⟨rfl, fun r' h => Or.inl ?_⟩
      cases h
      exact found
    | conflicted _ _ outcome =>
      refine Or.inl ⟨rfl, fun r' h => Or.inr ?_⟩
      cases h
      exact outcome
    | rejected fresh outcome => exact Or.inr ⟨fresh, r, rfl, hstored outcome.2⟩
    | accepted fresh _ _ _ _ _ outcome =>
      refine Or.inr ⟨fresh, r, rfl, hstored ?_⟩
      rw [outcome]
      exact fun h => nomatch h

end Commands

/-! ### One attempt -/

section Attempts

variable {T : Type} {command : AccountCommand} {commandId : UUID} {principal : Principal}
  {meetings : ℕ → Meeting T}

/-- What the others call before and between the first `n` attempts. -/
def othersOf (meetings : ℕ → Meeting T) (n : ℕ) : List Call :=
  (List.range n).flatMap (fun k => (meetings k).others)

theorem othersOf_succ (meetings : ℕ → Meeting T) (n : ℕ) :
    othersOf meetings (n + 1) = othersOf meetings n ++ (meetings n).others := by
  rw [othersOf, List.range_succ, List.flatMap_append, List.flatMap_singleton]
  rfl

/-- The call that an attempt makes of the command. -/
def Requests (command : AccountCommand) (commandId : UUID) (principal : Principal) (call : Call) :
    Prop :=
  ∃ correlationId, normalizeCommand command commandId correlationId principal.issuer
    principal.subject = .ok call.request

theorem Requests.commandId_eq {call : Call} (h : Requests command commandId principal call) :
    call.request.commandId = commandId := by
  obtain ⟨_, h⟩ := h
  exact (normalizeCommand_eq_ok.mp h).2.1

theorem Requests.same {call call' : Call} (h : Requests command commandId principal call)
    (h' : Requests command commandId principal call') :
    SameRequest call.request call'.request := by
  obtain ⟨correlationId, h⟩ := h
  obtain ⟨correlationId', h'⟩ := h'
  exact ⟨_, _, _, _, _, _, h, h'⟩

/-- No attempt has taken effect: the store is what the others have made of it. -/
def NoEffect (s₀ : Store) (others : List Call) (s : Store) : Prop := s = Runs.run next s₀ others

/-- One attempt has taken effect, once, among the calls of the others, and its result is
stored. -/
structure OneEffect (command : AccountCommand) (commandId : UUID) (principal : Principal)
    (s₀ : Store) (others : List Call) (s : Store) (first : CommandResult) : Prop where
  once : ∃ pre call post, others = pre ++ post ∧ Requests command commandId principal call ∧
    (∀ row ∈ (Runs.run next s₀ pre).results, row.commandId ≠ commandId) ∧
    (execute (Runs.run next s₀ pre) call).1 = .ok first ∧
    first.requestHash = call.request.requestHash ∧ s = Runs.run next s₀ (pre ++ call :: post)
  stored : s.storedResult commandId = .ok (some first)

/-- **An attempt that does not find its result** leaves the store, or takes effect. -/
theorem serviceUnderFaults_cases (command : AccountCommand) (commandId : UUID)
    (principal : Principal) {s : Store} (hs : s.Readable) (attempt : Attempt) (faults : Faults) :
    ((serviceUnderFaults command commandId principal.issuer principal.subject attempt faults
        s).2 = s ∧
      ∀ r, (serviceUnderFaults command commandId principal.issuer principal.subject attempt faults
        s).1 = .ok r → s.storedResult commandId = .ok (some r) ∨ r.outcome = .commandIdConflict) ∨
    ∃ first, OneEffect command commandId principal s []
        (serviceUnderFaults command commandId principal.issuer principal.subject attempt faults
          s).2 first ∧
      ∀ r, (serviceUnderFaults command commandId principal.issuer principal.subject attempt faults
        s).1 = .ok r → r = first := by
  rw [serviceUnderFaults]
  cases hrequest : normalizeCommand command commandId attempt.correlationId principal.issuer
    principal.subject with
  | error e => exact Or.inl ⟨rfl, fun r h => nomatch h⟩
  | ok request =>
    dsimp only
    set call := attempt.call request with hcall
    have hown : Requests command commandId principal call := ⟨_, hrequest⟩
    have hid := hown.commandId_eq
    rcases executeUnderFaults_cases faults s call with hsame | hlost | hunheard
    · rw [hsame]
      rcases effect_cases hs call with ⟨hnext, hreply⟩ | ⟨hfresh, first, hfirst, hhash, hstored⟩
      · rw [hid] at hreply
        exact Or.inl ⟨hnext, hreply⟩
      · rw [hid] at hfresh hstored
        refine Or.inr ⟨first, ⟨⟨[], call, [], rfl, hown, hfresh, hfirst, hhash, rfl⟩, hstored⟩,
          fun r hr => ?_⟩
        rw [hfirst] at hr
        exact (Except.ok.inj hr).symm
    · rw [hlost]
      exact Or.inl ⟨rfl, fun r h => nomatch h⟩
    · rw [hunheard]
      rcases effect_cases hs call with ⟨hnext, -⟩ | ⟨hfresh, first, hfirst, hhash, hstored⟩
      · exact Or.inl ⟨hnext, fun r h => nomatch h⟩
      · rw [hid] at hfresh hstored
        exact Or.inr ⟨first, ⟨⟨[], call, [], rfl, hown, hfresh, hfirst, hhash, rfl⟩, hstored⟩,
          fun r h => nomatch h⟩

/-- **An attempt that finds its result replays it.** -/
theorem serviceUnderFaults_replay {s s₀ : Store} {others : List Call} {first : CommandResult}
    (h : OneEffect command commandId principal s₀ others s first) (attempt : Attempt)
    (faults : Faults) :
    (serviceUnderFaults command commandId principal.issuer principal.subject attempt faults
        s).2 = s ∧
      ∀ r, (serviceUnderFaults command commandId principal.issuer principal.subject attempt faults
        s).1 = .ok r → r = first := by
  obtain ⟨pre, call, post, -, hown, -, -, hhash, -⟩ := h.once
  rw [serviceUnderFaults]
  cases hrequest : normalizeCommand command commandId attempt.correlationId principal.issuer
    principal.subject with
  | error e => exact ⟨rfl, fun r h => by cases h⟩
  | ok request =>
    dsimp only
    have hown' : Requests command commandId principal (attempt.call request) := ⟨_, hrequest⟩
    have hreplay : execute s (attempt.call request) = (.ok first, s) := by
      refine execute_replay ?_ (hhash.trans (hown.same hown').requestHash_eq.symm)
      rw [hown'.commandId_eq]
      exact h.stored
    rcases executeUnderFaults_cases faults s (attempt.call request) with hsame | hlost | hunheard
    · rw [hsame, hreplay]
      exact ⟨rfl, fun r hr => (Except.ok.inj hr).symm⟩
    · rw [hlost]
      exact ⟨rfl, fun r h => by cases h⟩
    · rw [hunheard, next, hreplay]
      exact ⟨rfl, fun r h => by cases h⟩

theorem OneEffect.append {s s₀ : Store} {others : List Call} {first : CommandResult}
    (h : OneEffect command commandId principal s₀ others s first) (hs : s.Readable)
    (more : List Call) :
    OneEffect command commandId principal s₀ (others ++ more) (Runs.run next s more) first := by
  obtain ⟨pre, call, post, rfl, hown, hfresh, hfirst, hhash, rfl⟩ := h.once
  refine ⟨⟨pre, call, post ++ more, List.append_assoc _ _ _, hown, hfresh, hfirst, hhash, ?_⟩,
    storedResult_run more hs h.stored⟩
  rw [← Runs.run_append, List.append_assoc, List.cons_append]

theorem OneEffect.prepend {s s₀ : Store} {others : List Call} {first : CommandResult}
    (h : OneEffect command commandId principal (Runs.run next s₀ others) [] s first) :
    OneEffect command commandId principal s₀ others s first := by
  obtain ⟨pre, call, post, hnil, hown, hfresh, hfirst, hhash, rfl⟩ := h.once
  obtain ⟨rfl, rfl⟩ := List.append_eq_nil_iff.mp hnil.symm
  exact ⟨⟨others, call, [], (List.append_nil _).symm, hown, hfresh, hfirst, hhash,
    (Runs.run_append next _ _ _).symm⟩, h.stored⟩

/-- What the attempts up to some number have come to: the store, and the answer of the
last of them. -/
def Attempted {ε : Type} (command : AccountCommand) (commandId : UUID) (principal : Principal)
    (s₀ : Store) (others : List Call) (answer : Except ε CommandResult) (s : Store) : Prop :=
  (NoEffect s₀ others s ∧ ∀ r, answer = .ok r →
    s.storedResult commandId = .ok (some r) ∨ r.outcome = .commandIdConflict) ∨
  ∃ first, OneEffect command commandId principal s₀ others s first ∧
    ∀ r, answer = .ok r → r = first

theorem Attempted.mapError {ε ε' : Type} {s s₀ : Store} {others : List Call}
    {answer : Except ε CommandResult}
    (h : Attempted command commandId principal s₀ others answer s) (f : ε → ε') :
    Attempted command commandId principal s₀ others (answer.mapError f) s := by
  have hok : ∀ r, answer.mapError f = .ok r → answer = .ok r := by
    intro r hr
    cases answer with
    | error e => cases hr
    | ok a =>
      cases hr
      rfl
  rcases h with ⟨hnone, hreply⟩ | ⟨first, hone, hreply⟩
  · exact Or.inl ⟨hnone, fun r hr => hreply r (hok r hr)⟩
  · exact Or.inr ⟨first, hone, fun r hr => hreply r (hok r hr)⟩

/-- The store comes from calls, of which at most one is the command's. -/
theorem Attempted.exists_run {ε : Type} {s s₀ : Store} {others : List Call}
    {answer : Except ε CommandResult}
    (h : Attempted command commandId principal s₀ others answer s) :
    ∃ calls, s = Runs.run next s₀ calls := by
  rcases h with ⟨hnone, -⟩ | ⟨first, hone, -⟩
  · exact ⟨others, hnone⟩
  · obtain ⟨pre, call, post, -, -, -, -, -, hrun⟩ := hone.once
    exact ⟨pre ++ call :: post, hrun⟩

variable [AddCommGroup T] [LinearOrder T] (config : BreakerConfig T PyError)

theorem Attempted.attemptOnce {ε : Type} {s₀ : Store} (hs₀ : s₀.Readable) {others : List Call}
    {answer : Except ε CommandResult} {w : Serving T}
    (h : Attempted command commandId principal s₀ others answer w.store) (meeting : Meeting T) :
    Attempted command commandId principal s₀ (others ++ meeting.others)
      (attemptOnce config command commandId principal meeting w).1
      (attemptOnce config command commandId principal meeting w).2.store := by
  have hreadable : ∀ (calls : List Call) {s : Store}, s.Readable → (Runs.run next s calls).Readable :=
    fun calls _ h => Runs.run_invariant next (fun _ call h => h.next call) calls h
  rw [Cloudscale.attemptOnce]
  dsimp only
  rcases h with ⟨hnone, -⟩ | ⟨first, hone, -⟩
  · have hstore : Runs.run next w.store meeting.others =
        Runs.run next s₀ (others ++ meeting.others) := by
      rw [hnone, Runs.run_append]
    rw [hstore]
    split
    next => exact Or.inl ⟨rfl, fun r h => nomatch h⟩
    next =>
      refine Attempted.mapError ?_ _
      rcases serviceUnderFaults_cases command commandId principal (hreadable _ hs₀) meeting.attempt
        meeting.faults with ⟨hsame, hreply⟩ | ⟨first, hone, hreply⟩
      · refine Or.inl ⟨hsame, fun r hr => ?_⟩
        dsimp only
        rw [hsame]
        exact hreply r hr
      · exact Or.inr ⟨first, hone.prepend, hreply⟩
  · obtain ⟨pre, call, post, -, -, -, -, -, hrun⟩ := hone.once
    have hw : w.store.Readable := by
      rw [hrun]
      exact hreadable _ hs₀
    have hmore := hone.append hw meeting.others
    split
    next => exact Or.inr ⟨first, hmore, fun r h => nomatch h⟩
    next =>
      refine Attempted.mapError ?_ _
      obtain ⟨hsame, hreply⟩ := serviceUnderFaults_replay hmore meeting.attempt meeting.faults
      refine Or.inr ⟨first, ?_, hreply⟩
      rw [hsame]
      exact hmore

/-- **A command is applied at most once**, whatever faults hit the attempts of one
`execute`, whatever others call in between and whatever the breaker does.  The store is
what the others make of it, with at most one call of the command among theirs; an
answer is the result of that call, or a result that is stored under the command id, or
a conflict.  If no results were pruned before, all events of one command id were
appended by one call. -/
theorem applied_at_most_once {s : Store} (hs : s.Readable) (breaker : CircuitBreaker T)
    (command : AccountCommand) (commandId : UUID) (principal : Principal) (policy : RetryPolicy)
    (meetings : ℕ → Meeting T) :
    let out := commandExecutor config command commandId principal policy meetings ⟨s, breaker⟩
    ∃ n ≤ policy.maxAttempts,
      Attempted command commandId principal s (othersOf meetings n) out.1 out.2.store ∧
      ∃ calls, out.2.store = Runs.run next s calls ∧ ∀ before, s = storeAfter before →
        ∀ x ∈ out.2.store.events, ∀ y ∈ out.2.store.events, x.commandId = y.commandId →
          AppendedTogether (before ++ calls) x y := by
  intro out
  have hstep : ∀ (k : ℕ) (w : Serving T) r w',
      (∃ answer : Except (AttemptError T) CommandResult, Attempted command commandId principal
        s (othersOf meetings k) answer w.store) →
      attemptOnce config command commandId principal (meetings k) w = (r, w') →
      Attempted command commandId principal s (othersOf meetings (k + 1)) r w'.store := by
    rintro k w r w' ⟨answer, hw⟩ hresult
    have hmore := hw.attemptOnce config hs (meetings k)
    rw [hresult, ← othersOf_succ] at hmore
    exact hmore
  obtain ⟨n, hn, hattempted⟩ := callWithRetry_rule AttemptError.retryable
    (fun k => attemptOnce config command commandId principal (meetings k)) policy
    (I := fun k w => ∃ answer : Except (AttemptError T) CommandResult,
      Attempted command commandId principal s (othersOf meetings k) answer w.store)
    (Q := fun k answer w => Attempted command commandId principal s (othersOf meetings k) answer
      w.store)
    (fun k w e w' hw hresult => ⟨.error e, hstep k w _ w' hw hresult⟩) hstep (s := ⟨s, breaker⟩)
    ⟨.error (.raised .operationalError), Or.inl ⟨rfl, fun r h => nomatch h⟩⟩
  have hout : Attempted command commandId principal s (othersOf meetings n) out.1 out.2.store :=
    hattempted.mapError unavailable
  obtain ⟨calls, hcalls⟩ := hout.exists_run
  refine ⟨n, hn, hout, calls, hcalls, ?_⟩
  rintro before rfl x hx y hy hsame
  rw [hcalls, ← storeAfter_append] at hx hy
  exact together_of_commandId _ hx hy hsame

/-- A deposit on a store whose results were pruned, where the commit of the first attempt is not
heard of. -/
theorem applied_at_most_once_deposit :
    let fund := Call.of (.deposit ⟨"alice", 100, 0, by decide, by decide, by decide⟩) ⟨1⟩ .epoch 10
    let s := storeThrough [.call fund, .batch (dayAfterEpoch 1) ⟨5000, by decide⟩]
    let deposit : AccountCommand := .deposit ⟨"alice", 50, 1, by decide, by decide, by decide⟩
    let principal : Principal := ⟨"issuer", "subject", ["alice"], []⟩
    let config : BreakerConfig ℤ PyError := ⟨3, 30, transientErrors, by decide, by decide⟩
    let meetings : ℕ → Meeting ℤ := fun k => ⟨[], id, k, k,
      ⟨⟨Fin.ofNat _ (30 + k)⟩, fun _ => .epoch, fun n => ⟨Fin.ofNat _ (20 + k + n)⟩⟩,
      ⟨false, fun _ => false, if k = 0 then .unheard else .done⟩, id, k⟩
    s.results = [] ∧ ∃ out, commandExecutor config deposit ⟨2⟩ principal ⟨2, by decide⟩ meetings
      ⟨s, CircuitBreaker.initial⟩ = out ∧
        ∃ n ≤ 2, Attempted deposit ⟨2⟩ principal s (othersOf meetings n) out.1 out.2.store := by
  intro fund s deposit principal config meetings
  have hpruned : s.results = [] := by decide +kernel
  have hread : s.Readable := readable_storeThrough _
  obtain ⟨n, hn, hattempted, -⟩ := applied_at_most_once config hread CircuitBreaker.initial deposit
    ⟨2⟩ principal ⟨2, by decide⟩ meetings
  exact ⟨hpruned, _, rfl, n, hn, hattempted⟩

end Attempts

end Cloudscale
