import Cloudscale.Adapters.CommandUnitOfWork
import Cloudscale.Application.RelatedStorages

/-!
# The unit of work under faults

Any statement of an attempt may raise a transient error, `BEGIN IMMEDIATE` and the
commit too; a commit that raises may have taken effect.  `executeUnderFaults` is
`execute` with such faults: whatever is raised before the commit is rolled back.

A storage operation is one statement or several (a fold looks for a snapshot first,
an append inserts an event and its envelope), so an operation can be hit before its
effect and after it.  The statements are numbered through the attempt, and the
numbering goes on when an exception is caught.

`executeUnderFaults_cases`: an attempt under faults does what it does without them,
or raises the transient error and leaves the store as it was, or as the commit made it.
-/

namespace Cloudscale

open Checked Python Transactions Relational

/-- What becomes of a commit: it is done, it raises and nothing is committed, or it raises
after it took effect. -/
inductive CommitFault
  | done
  | lost
  | unheard
  deriving DecidableEq

structure Faults where
  begins : Bool
  statements : ℕ → Bool
  commit : CommitFault

/-- A transaction with the number of its next statement, which no exception takes back. -/
abbrev FaultyTransaction := StateT TrackedSession (ExceptT PyError (StateM ℕ))

namespace Faults

def statement (faults : Faults) : FaultyTransaction Unit := fun t n =>
  (if faults.statements n then .error .operationalError else .ok ((), t), n + 1)

def lift {α : Type} (x : TrackedTransaction α) : FaultyTransaction α := fun t n => (x t, n)

/-- An operation of the storage, hit before its effect or after it. -/
def operation {α : Type} (faults : Faults) (x : TrackedTransaction α) : FaultyTransaction α := do
  faults.statement
  let a ← lift x
  faults.statement
  pure a

def storage (faults : Faults) (call : Call) : CommandDecisionStorage FaultyTransaction where
  storedResult commandId := faults.operation (call.storage.storedResult commandId)
  foldStream accountId := faults.operation (call.storage.foldStream accountId)
  openHold accountId holdId := faults.operation (call.storage.openHold accountId holdId)
  legsOf transferId := faults.operation (call.storage.legsOf transferId)
  revertedBy transferId := faults.operation (call.storage.revertedBy transferId)
  appendEvent envelope event := faults.operation (call.storage.appendEvent envelope event)
  persistResult result := faults.operation (call.storage.persistResult result)

def decision (faults : Faults) (call : Call) : FaultyTransaction CommandResult :=
  executeCommandDecision (faults.storage call) call.request (lift (Call.onSession call.tick))
    (lift (Call.onSession call.eventIdFactory))

end Faults

/-- `execute`, with faults. -/
def executeUnderFaults (faults : Faults) (s : Store) (call : Call) :
    Except PyError CommandResult × Store :=
  if faults.begins then (.error .operationalError, s)
  else
    match (faults.decision call s.begin 0).1 with
    | .error e => (.error e, s)
    | .ok (result, t) =>
      match faults.commit with
      | .done => (.ok result, t.store)
      | .lost => (.error .operationalError, s)
      | .unheard => (.error .operationalError, t.store)

/-! ### An attempt without faults, or a transient error -/

/-- The computation raises the transient error, or does what the other does. -/
def Falters {α : Type} (x : FaultyTransaction α) (y : TrackedTransaction α) : Prop :=
  ∀ t n, (x t n).1 = .error .operationalError ∨ (x t n).1 = y t

section Falters

variable {α : Type} {x : FaultyTransaction α} {y : TrackedTransaction α}

theorem falters_lift (y : TrackedTransaction α) : Falters (Faults.lift y) y := fun _ _ => Or.inr rfl

theorem Falters.bind {β : Type} {f : α → FaultyTransaction β} {g : α → TrackedTransaction β}
    (h : Falters x y) (hf : ∀ a, Falters (f a) (g a)) : Falters (x >>= f) (y >>= g) := by
  intro t n
  have hx : (x >>= f) t n =
      ExceptT.bindCont (fun p => f p.1 p.2) (x t n).1 (x t n).2 := rfl
  have hy : (y >>= g) t = y t >>= fun p => g p.1 p.2 := rfl
  rw [hx, hy]
  rcases h t n with hfault | hsame
  · rw [hfault]
    exact Or.inl rfl
  · rw [hsame]
    cases y t with
    | error e => exact Or.inr rfl
    | ok p => exact hf p.1 p.2 _

theorem attempt_run (t : TrackedSession) (n : ℕ) :
    (attempt domainErrorOf x t n).1 = match (x t n).1 with
      | .ok p => .ok (.inl p.1, p.2)
      | .error e => match domainErrorOf e with
        | some d => .ok (.inr d, t)
        | none => .error e := by
  rcases hresult : x t n with ⟨r, n'⟩
  have hmap : (Sum.inl <$> x : FaultyTransaction (α ⊕ DomainError)) t n =
      (r.map (fun p => (Sum.inl p.1, p.2)), n') := by
    show ExceptT.bindCont (m := StateM ℕ) _ (x t n).1 (x t n).2 = _
    rw [hresult]
    cases r <;> rfl
  simp only [attempt, tryCatch, tryCatchThe, MonadExceptOf.tryCatch, ExceptT.tryCatch, bind,
    StateT.bind, ExceptT.mk, hmap]
  cases r with
  | ok p => rfl
  | error e =>
    simp only [Except.map]
    cases domainErrorOf e <;> rfl

theorem Falters.attempt (h : Falters x y) :
    Falters (attempt domainErrorOf x) (attempt domainErrorOf y) := by
  intro t n
  rw [attempt_run]
  rcases h t n with hfault | hsame
  · rw [hfault]
    exact Or.inl rfl
  · rw [hsame]
    refine Or.inr ?_
    cases hy : y t with
    | ok p => exact (run_attempt_ok hy).symm
    | error e =>
      show _ = (Transactions.attempt domainErrorOf y).run t
      rw [run_attempt_error hy]
      dsimp only
      cases domainErrorOf e <;> rfl

/-- **Faltering is kept by what a decision is built from.** -/
theorem falters_respects : Respects domainErrorOf @Falters where
  pure _ := fun _ _ => Or.inr rfl
  bind := Falters.bind
  throw _ := fun _ _ => Or.inr rfl
  attempt := Falters.attempt

theorem falters_operation (faults : Faults) (y : TrackedTransaction α) :
    Falters (faults.operation y) y := by
  have hstatement : Falters faults.statement (pure ()) := by
    intro t n
    show (if faults.statements n then _ else _) = _ ∨ (if faults.statements n then _ else _) = _
    cases faults.statements n
    · exact Or.inr rfl
    · exact Or.inl rfl
  have hfollows : Falters (faults.operation y)
      (pure () >>= fun _ => y >>= fun a => pure () >>= fun _ => pure a) :=
    hstatement.bind fun _ => (falters_lift y).bind fun a =>
      hstatement.bind fun _ => falters_respects.pure a
  have hy : (pure () >>= fun _ => y >>= fun a => pure () >>= fun _ => pure a) = y := by
    simp only [pure_bind, bind_pure]
  rwa [hy] at hfollows

theorem falters_decision (faults : Faults) (call : Call) :
    Falters (faults.decision call) call.decision := by
  refine executeCommandDecision_related falters_respects ⟨?_, ?_, ?_, ?_, ?_⟩
    falters_respects.toComposes ⟨?_, ?_⟩ falters_respects.bind id (falters_lift _) (falters_lift _) _
  all_goals intros; exact falters_operation faults _

end Falters

/-- **What an attempt comes to under faults**: what it comes to without them; or a transient
error and the store as it was; or a transient error after a commit that took effect. -/
theorem executeUnderFaults_cases (faults : Faults) (s : Store) (call : Call) :
    executeUnderFaults faults s call = execute s call ∨
      executeUnderFaults faults s call = (.error .operationalError, s) ∨
      executeUnderFaults faults s call = (.error .operationalError, next s call) := by
  rw [executeUnderFaults]
  split
  next => exact Or.inr (Or.inl rfl)
  next =>
    rcases falters_decision faults call s.begin 0 with hfault | hsame
    · rw [hfault]
      exact Or.inr (Or.inl rfl)
    · have hrun : call.decision s.begin = call.decision.run s.begin := rfl
      rw [hsame, hrun, next, execute]
      cases call.decision.run s.begin with
      | error e => exact Or.inl rfl
      | ok p =>
        cases faults.commit with
        | done => exact Or.inl rfl
        | lost => exact Or.inr (Or.inl rfl)
        | unheard => exact Or.inr (Or.inr rfl)

end Cloudscale
