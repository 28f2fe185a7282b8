import Cloudscale.Lib.Runs
import Cloudscale.Lib.Transactions
import Mathlib.Data.Fintype.Basic
import Mathlib.Logic.Function.Basic

/-!
# Transactions under read committed

Sessions run transactions on a database, statement by statement and in any order.
A statement sees what was committed before it and what its own transaction wrote;
what a transaction wrote is published when it commits.  A statement can wait for
what another transaction wrote, and it can draw from sequences, which no rollback
gives back.  A transaction that raises is rolled back, and so is one whose connection
is lost.

The statements of one transaction see different states of the database.  `WP` says
what a program guarantees all the same, by rely and guarantee: between any two
statements the database may grow (`Rely`), and at each of its statements the program
owes something (`Owes`) that keeps its writes apart from those of the others.  The
rules `wp_perform` and `wp_bind` follow the program, and `safe_next` carries what
every program guarantees through the steps of all sessions.
-/

namespace ReadCommitted

open Transactions

/-- The statements of a database: `σ` is what all sessions share, `ω` what one
transaction wrote. -/
structure Engine (σ ω ε Op : Type) (Res : Op → Type) where
  /-- Nothing is written. -/
  blank : ω
  exec : ∀ op, σ → ω → Except ε (Res op × ω)
  /-- What a statement takes from the sequences. -/
  draw : Op → σ → σ
  /-- The statement waits for the end of a transaction that wrote this. -/
  waits : Op → ω → Bool
  publish : σ → ω → σ

/-- A program of statements.  What it does next may depend on the answer. -/
inductive Prog {Op : Type} (Res : Op → Type) (ε α : Type)
  | pure (a : α)
  | throw (e : ε)
  | call (op : Op) (next : Except ε (Res op) → Prog Res ε α)

namespace Prog

variable {Op : Type} {Res : Op → Type} {ε α β : Type}

def bind (p : Prog Res ε α) (f : α → Prog Res ε β) : Prog Res ε β :=
  match p with
  | .pure a => f a
  | .throw e => .throw e
  | .call op next => .call op fun r => (next r).bind f

def handle (p : Prog Res ε α) (f : ε → Prog Res ε α) : Prog Res ε α :=
  match p with
  | .pure a => .pure a
  | .throw e => f e
  | .call op next => .call op fun r => (next r).handle f

instance : Monad (Prog Res ε) where
  pure := .pure
  bind := .bind

instance : MonadExcept ε (Prog Res ε) where
  throw := .throw
  tryCatch := .handle

/-- A program with a state of its own; an error that is handled takes the state back. -/
instance {τ : Type} : MonadExcept ε (StateT τ (Prog Res ε)) where
  throw e := fun _ => .throw e
  tryCatch x f := fun t => (x t).handle fun e => f e t

def ofReply : Except ε α → Prog Res ε α
  | .ok a => .pure a
  | .error e => .throw e

/-- One statement; an error of the statement is raised. -/
def perform (op : Op) : Prog Res ε (Res op) := .call op ofReply

/-- The program runs statements of one kind. -/
def Only (p : Op → Prop) : Prog Res ε α → Prop
  | .pure _ | .throw _ => True
  | .call op next => p op ∧ ∀ r, (next r).Only p

end Prog

/-- A statement of a transaction: what its transaction had written, and what it saw. -/
structure Entry (σ ω Op : Type) where
  op : Op
  own : ω
  seen : σ

/-- What a session does next, and how it goes on after an answer. -/
structure Worker (τ κ ε α : Type) where
  next : τ → Option κ
  resume : τ → Except ε α → τ
  /-- The error of a connection that is lost. -/
  lost : ε

inductive Phase (σ ω : Type) {Op : Type} (Res : Op → Type) (ε κ α : Type)
  | idle
  | running (task : κ) (past : List (Entry σ ω Op)) (own : ω) (program : Prog Res ε α)

structure Session (σ ω : Type) {Op : Type} (Res : Op → Type) (ε τ κ α : Type) where
  locals : τ
  phase : Phase σ ω Res ε κ α

structure State (σ ω : Type) {Op : Type} (Res : Op → Type) (ε ι τ κ α : Type) where
  shared : σ
  sessions : ι → Session σ ω Res ε τ κ α

/-- A session takes its next step, or its connection is lost. -/
inductive Move (ι : Type)
  | proceed (i : ι)
  | lose (i : ι)

variable {σ ω ε Op : Type} {Res : Op → Type}

/-- What a transaction has written after a statement. -/
def ownAfter {op : Op} (own : ω) : Except ε (Res op × ω) → ω
  | .ok (_, own') => own'
  | .error _ => own

/-- What a session has written and not published. -/
def Phase.own? {κ α : Type} : Phase σ ω Res ε κ α → Option ω
  | .idle => none
  | .running _ _ own _ => some own

/-! ### Steps -/

section Steps

variable {ι τ κ α : Type} [DecidableEq ι] (E : Engine σ ω ε Op Res)
  (program : κ → Prog Res ε α) (worker : ι → Worker τ κ ε α)

namespace State

variable (s : State σ ω Res ε ι τ κ α) (i : ι)

def become (session : Session σ ω Res ε τ κ α) : State σ ω Res ε ι τ κ α :=
  { s with sessions := Function.update s.sessions i session }

/-- The statement has to wait for the transaction of another session. -/
def Waits (op : Op) : Prop :=
  ∃ j, j ≠ i ∧ (s.sessions j).phase.own?.any (E.waits op) = true

instance [Fintype ι] (op : Op) : Decidable (s.Waits E i op) :=
  inferInstanceAs (Decidable (∃ j, j ≠ i ∧ _))

/-- The session's transaction has ended, with this result. -/
def ended (result : Except ε α) : State σ ω Res ε ι τ κ α :=
  s.become i ⟨(worker i).resume (s.sessions i).locals result, .idle⟩

def perform (task : κ) (past : List (Entry σ ω Op)) (own : ω) (op : Op)
    (next : Except ε (Res op) → Prog Res ε α) : State σ ω Res ε ι τ κ α :=
  let reply := E.exec op s.shared own
  { shared := E.draw op s.shared
    sessions := Function.update s.sessions i ⟨(s.sessions i).locals,
      .running task (past ++ [⟨op, own, s.shared⟩]) (ownAfter own reply)
        (next (reply.map Prod.fst))⟩ }

variable [∀ s : State σ ω Res ε ι τ κ α, ∀ i op, Decidable (s.Waits E i op)]

def proceed : State σ ω Res ε ι τ κ α :=
  match (s.sessions i).phase with
  | .idle =>
    match (worker i).next (s.sessions i).locals with
    | none => s
    | some task => s.become i ⟨(s.sessions i).locals, .running task [] E.blank (program task)⟩
  | .running _ _ own (.pure a) =>
    { s.ended worker i (.ok a) with shared := E.publish s.shared own }
  | .running _ _ _ (.throw e) => s.ended worker i (.error e)
  | .running task past own (.call op next) =>
    if s.Waits E i op then s else s.perform E i task past own op next

def lose : State σ ω Res ε ι τ κ α :=
  match (s.sessions i).phase with
  | .idle => s
  | .running _ _ _ _ => s.ended worker i (.error (worker i).lost)

def next : Move ι → State σ ω Res ε ι τ κ α
  | .proceed i => s.proceed E program worker i
  | .lose i => s.lose worker i

end State

/-- A program that nobody interrupts: its end, what is shared then, and what it has written. -/
def Prog.alone : Prog Res ε α → σ → ω → Except ε α × σ × ω
  | .pure a, s, own => (.ok a, s, own)
  | .throw e, s, own => (.error e, s, own)
  | .call op next, s, own =>
    (next ((E.exec op s own).map Prod.fst)).alone (E.draw op s) (ownAfter own (E.exec op s own))

def transact (p : Prog Res ε α) (s : σ) : Except ε α × σ :=
  match p.alone E s E.blank with
  | (.ok a, s, own) => (.ok a, E.publish s own)
  | (.error e, s, _) => (.error e, s)

variable {E}

theorem alone_perform_bind {op : Op} {f : Res op → Prog Res ε α} {s : σ} {own own' : ω} {a : Res op}
    (h : E.exec op s own = .ok (a, own')) :
    (Prog.perform op >>= f).alone E s own = (f a).alone E (E.draw op s) own' := by
  change Prog.alone E (.call op fun r => (Prog.ofReply r).bind f) s own = _
  rw [Prog.alone, h]
  rfl

theorem transact_of {p : Prog Res ε α} {s t : σ} {own : ω} {a : α}
    (h : p.alone E s E.blank = (.ok a, t, own)) : transact E p s = (.ok a, E.publish t own) := by
  rw [transact, h]

end Steps

/-! ### What a program guarantees -/

/-- What a program may rely on: an invariant of what is shared, how it grows while the
program waits, and what holds of what the program itself has written. -/
structure Rely (σ ω : Type) where
  Inv : σ → Prop
  Grows : σ → σ → Prop
  Owns : σ → ω → Prop
  refl : ∀ s, Grows s s
  trans : ∀ {s t u}, Grows s t → Grows t u → Grows s u

/-- What a program may rely on in a state: it has seen earlier ones, in their order. -/
structure Rely.Holds (rely : Rely σ ω) (s : σ) (own : ω) (past : List (Entry σ ω Op)) : Prop where
  inv : rely.Inv s
  owns : rely.Owns s own
  seen : ∀ e ∈ past, rely.Inv e.seen ∧ rely.Grows e.seen s
  ordered : past.Pairwise (fun e e' => rely.Grows e.seen e'.seen)

section WP

variable (E : Engine σ ω ε Op Res) (rely : Rely σ ω) (Owes : Op → σ → ω → Prop) {α β : Type}

/-- The program ends, wherever it ends, in a way that meets `Q`, and meets what it owes at
each of its statements, however the database grows in between. -/
def WP (Q : Except ε α → σ → ω → List (Entry σ ω Op) → Prop) :
    Prog Res ε α → σ → ω → List (Entry σ ω Op) → Prop
  | .pure a, s, own, past => ∀ t, rely.Grows s t → rely.Holds t own past → Q (.ok a) t own past
  | .throw e, s, own, past => ∀ t, rely.Grows s t → rely.Holds t own past →
      Q (.error e) t own past
  | .call op next, s, own, past => ∀ t, rely.Grows s t → rely.Holds t own past →
      Owes op t own ∧ WP Q (next ((E.exec op t own).map Prod.fst)) (E.draw op t)
        (ownAfter own (E.exec op t own)) (past ++ [⟨op, own, t⟩])

variable {E rely Owes} {Q Q' : Except ε α → σ → ω → List (Entry σ ω Op) → Prop}

theorem WP.grows {p : Prog Res ε α} {s t : σ} {own : ω} {past : List (Entry σ ω Op)}
    (h : WP E rely Owes Q p s own past) (hgrows : rely.Grows s t) :
    WP E rely Owes Q p t own past := by
  cases p <;> exact fun u hu => h u (rely.trans hgrows hu)

/-- It is enough to look at the states in which the program goes on. -/
theorem wp_of_later {p : Prog Res ε α} {s : σ} {own : ω} {past : List (Entry σ ω Op)}
    (h : ∀ t, rely.Grows s t → rely.Holds t own past → WP E rely Owes Q p t own past) :
    WP E rely Owes Q p s own past := by
  cases p <;> exact fun t ht hholds => h t ht hholds t (rely.refl t) hholds

theorem wp_pure {a : α} {s : σ} {own : ω} {past : List (Entry σ ω Op)}
    (h : ∀ t, rely.Grows s t → rely.Holds t own past → Q (.ok a) t own past) :
    WP E rely Owes Q (pure a) s own past := h

theorem wp_throw {e : ε} {s : σ} {own : ω} {past : List (Entry σ ω Op)}
    (h : ∀ t, rely.Grows s t → rely.Holds t own past → Q (.error e) t own past) :
    WP E rely Owes Q (throw e : Prog Res ε α) s own past := h

theorem WP.mono (hQ : ∀ r t own past, Q r t own past → Q' r t own past) {p : Prog Res ε α} :
    ∀ {s : σ} {own : ω} {past : List (Entry σ ω Op)},
    WP E rely Owes Q p s own past → WP E rely Owes Q' p s own past := by
  induction p with
  | pure a => exact fun h t ht hholds => hQ _ _ _ _ (h t ht hholds)
  | throw e => exact fun h t ht hholds => hQ _ _ _ _ (h t ht hholds)
  | call op next ih =>
    intro s own past h t ht hholds
    obtain ⟨howes, hnext⟩ := h t ht hholds
    exact ⟨howes, ih _ hnext⟩

theorem Rely.Holds.imp {rely' : Rely σ ω} (hInv : ∀ {s}, rely'.Inv s → rely.Inv s)
    (hGrows : ∀ {s t}, rely'.Grows s t → rely.Grows s t)
    (hOwns : ∀ {s own}, rely'.Owns s own → rely.Owns s own) {s : σ} {own : ω}
    {past : List (Entry σ ω Op)} (h : rely'.Holds s own past) : rely.Holds s own past :=
  ⟨hInv h.inv, hOwns h.owns, fun e he => ⟨hInv (h.seen e he).1, hGrows (h.seen e he).2⟩,
    h.ordered.imp fun hgrows => hGrows hgrows⟩

/-- **What a program guarantees it guarantees to those who keep to more**, and it ends in a state
that they keep to. -/
theorem WP.strengthen (rely' : Rely σ ω) (hInv : ∀ {s}, rely'.Inv s → rely.Inv s)
    (hGrows : ∀ {s t}, rely'.Grows s t → rely.Grows s t)
    (hOwns : ∀ {s own}, rely'.Owns s own → rely.Owns s own) {p : Prog Res ε α} :
    ∀ {s : σ} {own : ω} {past : List (Entry σ ω Op)}, WP E rely Owes Q p s own past →
    WP E rely' Owes (fun r t own past => Q r t own past ∧ rely'.Holds t own past) p s own past := by
  induction p with
  | pure a => exact fun h t ht hholds => ⟨h t (hGrows ht) (hholds.imp hInv hGrows hOwns), hholds⟩
  | throw e => exact fun h t ht hholds => ⟨h t (hGrows ht) (hholds.imp hInv hGrows hOwns), hholds⟩
  | call op next ih =>
    intro s own past h t ht hholds
    obtain ⟨howes, hnext⟩ := h t (hGrows ht) (hholds.imp hInv hGrows hOwns)
    exact ⟨howes, ih _ hnext⟩

/-! ### Rules -/

/-- How the rest of a program starts after a first part has ended. -/
def Then (Q : Except ε β → σ → ω → List (Entry σ ω Op) → Prop) (E : Engine σ ω ε Op Res)
    (rely : Rely σ ω) (Owes : Op → σ → ω → Prop) (f : α → Prog Res ε β) :
    Except ε α → σ → ω → List (Entry σ ω Op) → Prop
  | .ok a, s, own, past => WP E rely Owes Q (f a) s own past
  | .error e, s, own, past => Q (.error e) s own past

/-- **A sequence guarantees what its second part does**, from where the first one ends. -/
theorem wp_bind {Q : Except ε β → σ → ω → List (Entry σ ω Op) → Prop} {f : α → Prog Res ε β}
    {p : Prog Res ε α} : ∀ {s : σ} {own : ω} {past : List (Entry σ ω Op)},
    WP E rely Owes (Then Q E rely Owes f) p s own past → WP E rely Owes Q (p >>= f) s own past := by
  induction p with
  | pure a => exact fun h => wp_of_later h
  | throw e => exact fun h => h
  | call op next ih =>
    intro s own past h t ht hholds
    obtain ⟨howes, hnext⟩ := h t ht hholds
    exact ⟨howes, ih _ hnext⟩

theorem wp_perform {op : Op} {Q : Except ε (Res op) → σ → ω → List (Entry σ ω Op) → Prop} {s : σ}
    {own : ω} {past : List (Entry σ ω Op)}
    (h : ∀ t, rely.Grows s t → rely.Holds t own past → Owes op t own ∧
      ∀ u, rely.Grows (E.draw op t) u →
        rely.Holds u (ownAfter own (E.exec op t own)) (past ++ [⟨op, own, t⟩]) →
        Q ((E.exec op t own).map Prod.fst) u (ownAfter own (E.exec op t own))
          (past ++ [⟨op, own, t⟩])) :
    WP E rely Owes Q (Prog.perform op) s own past := by
  intro t ht hholds
  obtain ⟨howes, hend⟩ := h t ht hholds
  refine ⟨howes, ?_⟩
  cases hresult : E.exec op t own with
  | ok a =>
    rw [hresult] at hend
    exact hend
  | error e =>
    rw [hresult] at hend
    exact hend

/-- **An attempt** turns an error that is handled into a value. -/
theorem wp_attempt {δ : Type} {handled : ε → Option δ}
    {Q : Except ε (α ⊕ δ) → σ → ω → List (Entry σ ω Op) → Prop} {p : Prog Res ε α} :
    ∀ {s : σ} {own : ω} {past : List (Entry σ ω Op)},
    WP E rely Owes (fun r s own past => match r with
      | .ok a => Q (.ok (.inl a)) s own past
      | .error e => match handled e with
        | some d => Q (.ok (.inr d)) s own past
        | none => Q (.error e) s own past) p s own past →
    WP E rely Owes Q (attempt handled p) s own past := by
  induction p with
  | pure a => exact fun h => h
  | throw e =>
    intro s own past h
    show WP E rely Owes Q (match handled e with
      | some d => (pure (.inr d) : Prog Res ε (α ⊕ δ))
      | none => throw e) s own past
    cases hd : handled e with
    | some d =>
      intro t ht hholds
      have hend := h t ht hholds
      simp only [hd] at hend
      exact hend
    | none =>
      intro t ht hholds
      have hend := h t ht hholds
      simp only [hd] at hend
      exact hend
  | call op next ih =>
    intro s own past h t ht hholds
    obtain ⟨howes, hnext⟩ := h t ht hholds
    exact ⟨howes, ih _ hnext⟩

theorem wp_ofExcept {x : Except ε α} {s : σ} {own : ω} {past : List (Entry σ ω Op)}
    (h : ∀ t, rely.Grows s t → rely.Holds t own past → Q x t own past) :
    WP E rely Owes Q (MonadExcept.ofExcept x : Prog Res ε α) s own past := by
  cases x <;> exact h

end WP

/-! ### Programs of statements of one kind -/

section Only

variable {p : Op → Prop} {α β : Type}

theorem only_true (x : Prog Res ε α) : x.Only fun _ => True := by
  induction x with
  | pure | throw => trivial
  | call op next ih => exact ⟨trivial, ih⟩

theorem only_bind {f : α → Prog Res ε β} {x : Prog Res ε α} (hx : x.Only p)
    (hf : ∀ a, (f a).Only p) : (x >>= f).Only p := by
  induction x with
  | pure a => exact hf a
  | throw e => trivial
  | call op next ih => exact ⟨hx.1, fun r => ih r (hx.2 r)⟩

theorem only_attempt {δ : Type} {handled : ε → Option δ} {x : Prog Res ε α} (hx : x.Only p) :
    (attempt handled x).Only p := by
  induction x with
  | pure a => trivial
  | throw e =>
    show (match handled e with
      | some d => (pure (.inr d) : Prog Res ε (α ⊕ δ))
      | none => throw e).Only p
    cases handled e <;> trivial
  | call op next ih => exact ⟨hx.1, fun r => ih r (hx.2 r)⟩

theorem only_perform {op : Op} (h : p op) : (Prog.perform op : Prog Res ε (Res op)).Only p := by
  refine ⟨h, fun r => ?_⟩
  cases r <;> trivial

theorem only_ofExcept {x : Except ε α} : (MonadExcept.ofExcept x : Prog Res ε α).Only p := by
  cases x <;> trivial

variable {E : Engine σ ω ε Op Res} {rely : Rely σ ω} {Owes Owes' : Op → σ → ω → Prop}
  {Q : Except ε α → σ → ω → List (Entry σ ω Op) → Prop} {I : ω → Prop}

/-- **What statements of one kind leave alone, a program of them leaves alone**, and it owes what
is owed by such statements. -/
theorem WP.only (hexec : ∀ {op s own reply own'}, p op → I own →
      E.exec op s own = .ok (reply, own') → I own')
    (howes : ∀ {op s own}, p op → I own → Owes op s own → Owes' op s own) {x : Prog Res ε α} :
    ∀ {s : σ} {own : ω} {past : List (Entry σ ω Op)}, WP E rely Owes Q x s own past → x.Only p →
    I own → WP E rely Owes' (fun r t own past => Q r t own past ∧ I own) x s own past := by
  induction x with
  | pure a => exact fun h _ hI t ht hholds => ⟨h t ht hholds, hI⟩
  | throw e => exact fun h _ hI t ht hholds => ⟨h t ht hholds, hI⟩
  | call op next ih =>
    intro s own past h honly hI t ht hholds
    obtain ⟨hop, hnext⟩ := h t ht hholds
    refine ⟨howes honly.1 hI hop, ih _ hnext (honly.2 _) ?_⟩
    cases hresult : E.exec op t own with
    | ok answer => exact hexec honly.1 hI hresult
    | error e => exact hI

end Only

/-! ### What the sessions keep -/

section Safe

variable {ι τ κ α : Type} [DecidableEq ι] {E : Engine σ ω ε Op Res}
  {program : κ → Prog Res ε α} {worker : ι → Worker τ κ ε α}
  (rely : Rely σ ω) (Owes : Op → σ → ω → Prop) (clash : ω → ω → Prop)

/-- Why what a program relies on holds: what the sessions have written does not clash, a
statement that is owed and does not wait keeps it so, and a transaction that is settled
can be published. -/
structure Discipline (E : Engine σ ω ε Op Res) (Settled : σ → ω → Prop) : Prop where
  clash_symm : ∀ {own own'}, clash own own' → clash own' own
  clash_blank : ∀ own, ¬ clash E.blank own
  blank : ∀ {s}, rely.Inv s → rely.Owns s E.blank
  draw : ∀ {s} op, rely.Inv s → rely.Inv (E.draw op s) ∧ rely.Grows s (E.draw op s) ∧
    ∀ {own}, rely.Owns s own → rely.Owns (E.draw op s) own
  exec : ∀ {s op own own' reply}, rely.Inv s → rely.Owns s own → Owes op s own →
    E.exec op s own = .ok (reply, own') → rely.Owns (E.draw op s) own' ∧
      ∀ {other}, rely.Owns s other → ¬ clash own other → E.waits op other = false →
        ¬ clash own' other
  publish : ∀ {s own}, rely.Inv s → rely.Owns s own → Settled s own →
    rely.Inv (E.publish s own) ∧ rely.Grows s (E.publish s own) ∧
      ∀ {other}, rely.Owns s other → ¬ clash own other → rely.Owns (E.publish s own) other

/-- How the transactions of a task end, and what their results make of a session. -/
structure Tasks (E : Engine σ ω ε Op Res) (program : κ → Prog Res ε α)
    (worker : ι → Worker τ κ ε α) (Settled : σ → ω → Prop)
    (Ends : κ → Except ε α → σ → ω → List (Entry σ ω Op) → Prop) (Told : ι → τ → Prop) : Prop where
  wp : ∀ {s} task, rely.Inv s → WP E rely Owes (Ends task) (program task) s E.blank []
  settled : ∀ {task a s own past}, Ends task (.ok a) s own past → Settled s own
  resume : ∀ {i l task r s own past}, Told i l → (worker i).next l = some task →
    Ends task r s own past → Told i ((worker i).resume l r)
  lost : ∀ {i l}, Told i l → Told i ((worker i).resume l (.error (worker i).lost))

/-- What a session is doing keeps to its task. -/
structure Keeping (E : Engine σ ω ε Op Res) (worker : Worker τ κ ε α)
    (Ends : κ → Except ε α → σ → ω → List (Entry σ ω Op) → Prop) (s : σ)
    (locals : τ) (task : κ) (past : List (Entry σ ω Op)) (own : ω) (rest : Prog Res ε α) :
    Prop where
  holds : rely.Holds s own past
  next : worker.next locals = some task
  wp : WP E rely Owes (Ends task) rest s own past

/-- **The invariant of the sessions.** -/
structure Safe (E : Engine σ ω ε Op Res) (worker : ι → Worker τ κ ε α)
    (Ends : κ → Except ε α → σ → ω → List (Entry σ ω Op) → Prop) (Told : ι → τ → Prop)
    (s : State σ ω Res ε ι τ κ α) : Prop where
  inv : rely.Inv s.shared
  told : ∀ i, Told i (s.sessions i).locals
  apart : ∀ i j, i ≠ j → ∀ own ∈ (s.sessions i).phase.own?, ∀ own' ∈ (s.sessions j).phase.own?,
    ¬ clash own own'
  keeping : ∀ i task past own rest, (s.sessions i).phase = .running task past own rest →
    Keeping rely Owes E (worker i) Ends s.shared (s.sessions i).locals task past own rest

variable {rely Owes clash} {Settled : σ → ω → Prop}
  {Ends : κ → Except ε α → σ → ω → List (Entry σ ω Op) → Prop} {Told : ι → τ → Prop}
  {s : State σ ω Res ε ι τ κ α}

omit [DecidableEq ι] in
theorem Safe.ends (h : Safe rely Owes clash E worker Ends Told s) {i : ι} {task : κ}
    {past : List (Entry σ ω Op)} {own : ω} {a : α}
    (hphase : (s.sessions i).phase = .running task past own (.pure a)) :
    Ends task (.ok a) s.shared own past := by
  have hkeeping := h.keeping i task past own _ hphase
  exact hkeeping.wp s.shared (rely.refl _) hkeeping.holds

omit [DecidableEq ι] in
theorem Safe.owes (h : Safe rely Owes clash E worker Ends Told s) {i : ι} {task : κ}
    {past : List (Entry σ ω Op)} {own : ω} {op : Op} {next : Except ε (Res op) → Prog Res ε α}
    (hphase : (s.sessions i).phase = .running task past own (.call op next)) :
    Owes op s.shared own := by
  have hkeeping := h.keeping i task past own _ hphase
  exact (hkeeping.wp s.shared (rely.refl _) hkeeping.holds).1

/-- One session moves and what is shared grows: the others go on keeping to their tasks. -/
theorem Safe.become (h : Safe rely Owes clash E worker Ends Told s) {i : ι} {t : σ}
    {session : Session σ ω Res ε τ κ α} (hinv : rely.Inv t) (hgrows : rely.Grows s.shared t)
    (hothers : ∀ j, j ≠ i → ∀ other ∈ (s.sessions j).phase.own?, rely.Owns t other)
    (htold : Told i session.locals)
    (hapart : ∀ own ∈ session.phase.own?, ∀ j, j ≠ i → ∀ other ∈ (s.sessions j).phase.own?,
      ¬ clash own other) (hsymm : ∀ {own own'}, clash own own' → clash own' own)
    (hkeeping : ∀ task past own rest, session.phase = .running task past own rest →
      Keeping rely Owes E (worker i) Ends t session.locals task past own rest) :
    Safe rely Owes clash E worker Ends Told
      ⟨t, Function.update s.sessions i session⟩ := by
  refine ⟨hinv, fun j => ?_, fun j k hne own hown own' hown' => ?_, fun j task past own rest hj => ?_⟩
  · by_cases hj : j = i
    · subst hj
      simpa using htold
    · simpa [Function.update_of_ne hj] using h.told j
  · dsimp only at hown hown'
    by_cases hj : j = i
    · subst hj
      rw [Function.update_of_ne hne.symm] at hown'
      rw [Function.update_self] at hown
      exact hapart own hown k hne.symm own' hown'
    · rw [Function.update_of_ne hj] at hown
      by_cases hk : k = i
      · subst hk
        rw [Function.update_self] at hown'
        exact fun hclash => hapart own' hown' j hj own hown (hsymm hclash)
      · rw [Function.update_of_ne hk] at hown'
        exact h.apart j k hne own hown own' hown'
  · dsimp only at hj ⊢
    by_cases hji : j = i
    · subst hji
      rw [Function.update_self] at hj ⊢
      exact hkeeping task past own rest hj
    · rw [Function.update_of_ne hji] at hj ⊢
      have hold := h.keeping j task past own rest hj
      refine ⟨⟨hinv, hothers j hji own ?_, fun e he => ?_, hold.holds.ordered⟩, hold.next,
        hold.wp.grows hgrows⟩
      · rw [hj]
        rfl
      · exact ⟨(hold.holds.seen e he).1, rely.trans (hold.holds.seen e he).2 hgrows⟩

omit [DecidableEq ι] in
theorem Safe.owns (h : Safe rely Owes clash E worker Ends Told s) (j : ι) {other : ω}
    (hother : other ∈ (s.sessions j).phase.own?) : rely.Owns s.shared other := by
  cases hphase : (s.sessions j).phase with
  | idle =>
    rw [hphase] at hother
    cases hother
  | running task past own rest =>
    rw [hphase] at hother
    cases hother
    exact (h.keeping j task past _ rest hphase).holds.owns

section Step

variable (hd : Discipline rely Owes clash E Settled)

include hd

theorem Safe.rolledBack (h : Safe rely Owes clash E worker Ends Told s) {i : ι}
    {result : Except ε α} (htold : Told i ((worker i).resume (s.sessions i).locals result)) :
    Safe rely Owes clash E worker Ends Told (s.ended worker i result) :=
  h.become h.inv (rely.refl _) (fun j _ _ hother => h.owns j hother) htold
    (fun _ hown => nomatch hown) hd.clash_symm (fun _ _ _ _ hphase => nomatch hphase)

variable (ht : Tasks rely Owes E program worker Settled Ends Told)
  [∀ s : State σ ω Res ε ι τ κ α, ∀ i op, Decidable (s.Waits E i op)]

include ht

/-- **A step of one session keeps the invariant of all.** -/
theorem Safe.next (h : Safe rely Owes clash E worker Ends Told s) (move : Move ι) :
    Safe rely Owes clash E worker Ends Told (s.next E program worker move) := by
  have htold := h.told
  cases move with
  | lose i =>
    show Safe rely Owes clash E worker Ends Told (s.lose worker i)
    rw [State.lose]
    split
    next => exact h
    next => exact h.rolledBack hd (ht.lost (htold i))
  | proceed i =>
    show Safe rely Owes clash E worker Ends Told (s.proceed E program worker i)
    rw [State.proceed]
    split
    next hidle =>
      split
      next => exact h
      next task htask =>
        refine h.become h.inv (rely.refl _) (fun j _ _ hother => h.owns j hother) (htold i)
          (fun own hown j _ other _ => ?_) hd.clash_symm fun _ _ _ _ hphase => ?_
        · cases hown
          exact hd.clash_blank other
        · cases hphase
          exact ⟨⟨h.inv, hd.blank h.inv, (fun _ he => nomatch he), List.Pairwise.nil⟩, htask,
            ht.wp task h.inv⟩
    next task past own a hphase =>
      have hends := h.ends hphase
      have hown : own ∈ (s.sessions i).phase.own? := by
        rw [hphase]
        rfl
      obtain ⟨hinv, hgrows, hothers⟩ := hd.publish h.inv (h.owns i hown) (ht.settled hends)
      refine h.become hinv hgrows (fun j hj other hother => ?_)
        (ht.resume (htold i) (h.keeping i _ _ _ _ hphase).next hends)
        (fun _ hown => nomatch hown) hd.clash_symm (fun _ _ _ _ hphase => nomatch hphase)
      exact hothers (h.owns j hother) (h.apart i j hj.symm own hown other hother)
    next task past own e hphase =>
      have hkeeping := h.keeping i _ _ _ _ hphase
      have hends := hkeeping.wp s.shared (rely.refl _) hkeeping.holds
      exact h.rolledBack hd (ht.resume (htold i) hkeeping.next hends)
    next task past own op rest hphase =>
      split
      next => exact h
      next hwaits =>
        have hkeeping := h.keeping i _ _ _ _ hphase
        have hown : own ∈ (s.sessions i).phase.own? := by
          rw [hphase]
          rfl
        obtain ⟨howes, hwp⟩ := hkeeping.wp s.shared (rely.refl _) hkeeping.holds
        obtain ⟨hinv, hgrows, hdraw⟩ := hd.draw op h.inv
        have hfree : ∀ j, j ≠ i → ∀ other ∈ (s.sessions j).phase.own?, E.waits op other = false := by
          intro j hj other hother
          by_contra hwait
          refine hwaits ⟨j, hj, ?_⟩
          rw [hother, Option.any_some]
          simpa using hwait
        have hafter : rely.Owns (E.draw op s.shared) (ownAfter own (E.exec op s.shared own)) ∧
            ∀ j, j ≠ i → ∀ other ∈ (s.sessions j).phase.own?,
              ¬ clash (ownAfter own (E.exec op s.shared own)) other := by
          cases hexec : E.exec op s.shared own with
          | error e =>
            exact ⟨hdraw hkeeping.holds.owns, fun j hj other => h.apart i j hj.symm own hown other⟩
          | ok p =>
            obtain ⟨howns, hclash⟩ := hd.exec h.inv hkeeping.holds.owns howes hexec
            exact ⟨howns, fun j hj other hother => hclash (h.owns j hother)
              (h.apart i j hj.symm own hown other hother) (hfree j hj other hother)⟩
        refine h.become hinv hgrows (fun j _ _ hother => hdraw (h.owns j hother)) (htold i)
          (fun _ hafter' => ?_) hd.clash_symm fun _ _ _ _ hphase' => ?_
        · cases hafter'
          exact hafter.2
        · cases hphase'
          refine ⟨⟨hinv, hafter.1, fun e he => ?_, ?_⟩, hkeeping.next, hwp⟩
          · rcases List.mem_append.mp he with he | he
            · exact ⟨(hkeeping.holds.seen e he).1, rely.trans (hkeeping.holds.seen e he).2 hgrows⟩
            · rw [List.mem_singleton.mp he]
              exact ⟨h.inv, hgrows⟩
          · refine List.pairwise_append.mpr ⟨hkeeping.holds.ordered, List.pairwise_singleton _ _,
              fun e he e' he' => ?_⟩
            rw [List.mem_singleton.mp he']
            exact (hkeeping.holds.seen e he).2

/-- **Every state of a run meets the invariant.** -/
theorem Safe.run (h : Safe rely Owes clash E worker Ends Told s) (moves : List (Move ι)) :
    Safe rely Owes clash E worker Ends Told
      (Runs.run (fun s move => s.next E program worker move) s moves) :=
  Runs.run_invariant _ (fun _ move h => h.next hd ht move) moves h

theorem Safe.grows_next (h : Safe rely Owes clash E worker Ends Told s) (move : Move ι) :
    rely.Grows s.shared (s.next E program worker move).shared := by
  cases move with
  | lose i =>
    show rely.Grows s.shared (s.lose worker i).shared
    rw [State.lose]
    split <;> exact rely.refl _
  | proceed i =>
    show rely.Grows s.shared (s.proceed E program worker i).shared
    rw [State.proceed]
    split
    next => split <;> exact rely.refl _
    next task past own a hphase =>
      exact (hd.publish h.inv (h.keeping i _ _ _ _ hphase).holds.owns
        (ht.settled (h.ends hphase))).2.1
    next => exact rely.refl _
    next task past own op rest hphase =>
      split
      next => exact rely.refl _
      next => exact (hd.draw op h.inv).2.1

theorem Safe.grows_run (h : Safe rely Owes clash E worker Ends Told s) (moves : List (Move ι)) :
    rely.Grows s.shared (Runs.run (fun s move => s.next E program worker move) s moves).shared := by
  induction moves generalizing s with
  | nil => exact rely.refl _
  | cons move moves ih => exact rely.trans (h.grows_next hd ht move) (ih (h.next hd ht move))

/-- **What a session knows of what is shared it goes on knowing**: growth and its own answers
keep it. -/
theorem Safe.knows_next {Knows : ι → σ → τ → Prop}
    (hgrows : ∀ {i s t l}, rely.Inv s → rely.Inv t → rely.Grows s t → Knows i s l → Knows i t l)
    (hresume : ∀ {i s l task r own past}, Knows i s l → (worker i).next l = some task →
      Ends task r s own past → Knows i s ((worker i).resume l r))
    (hlost : ∀ {i s l}, Knows i s l → Knows i s ((worker i).resume l (.error (worker i).lost)))
    (h : Safe rely Owes clash E worker Ends Told s)
    (hknows : ∀ i, Knows i s.shared (s.sessions i).locals) (move : Move ι) (i : ι) :
    Knows i (s.next E program worker move).shared
      ((s.next E program worker move).sessions i).locals := by
  -- Every session but the one that moves has its locals as before.
  have hbecome : ∀ (j : ι) (t : σ) (session : Session σ ω Res ε τ κ α), rely.Inv t →
      rely.Grows s.shared t → Knows j s.shared session.locals →
      Knows i t ((Function.update s.sessions j session) i).locals := by
    intro j t session hinv ht hsession
    by_cases hij : i = j
    · subst hij
      rw [Function.update_self]
      exact hgrows h.inv hinv ht hsession
    · rw [Function.update_of_ne hij]
      exact hgrows h.inv hinv ht (hknows i)
  cases move with
  | lose j =>
    show Knows i (s.lose worker j).shared ((s.lose worker j).sessions i).locals
    rw [State.lose]
    split
    next => exact hknows i
    next => exact hbecome j _ _ h.inv (rely.refl _) (hlost (hknows j))
  | proceed j =>
    show Knows i (s.proceed E program worker j).shared
      ((s.proceed E program worker j).sessions i).locals
    rw [State.proceed]
    split
    next =>
      split
      next => exact hknows i
      next => exact hbecome j _ _ h.inv (rely.refl _) (hknows j)
    next task past own a hphase =>
      have hkeeping := h.keeping j _ _ _ _ hphase
      have hpublish := hd.publish h.inv hkeeping.holds.owns (ht.settled (h.ends hphase))
      exact hbecome j _ _ hpublish.1 hpublish.2.1
        (hresume (hknows j) hkeeping.next (h.ends hphase))
    next task past own e hphase =>
      have hkeeping := h.keeping j _ _ _ _ hphase
      exact hbecome j _ _ h.inv (rely.refl _)
        (hresume (hknows j) hkeeping.next (hkeeping.wp s.shared (rely.refl _) hkeeping.holds))
    next task past own op rest hphase =>
      split
      next => exact hknows i
      next => exact hbecome j _ _ (hd.draw op h.inv).1 (hd.draw op h.inv).2.1 (hknows j)

end Step

end Safe

end ReadCommitted
