import Cloudscale.Lib.Runs
import Mathlib.Logic.Function.Basic

/-!
# Sessions on one database

Any number of sessions run their scripts on the rows of one database, statement by
statement and in any order.  A script reads rows outside a transaction, or runs a
transaction that commits an answer or raises; what was raised is rescued by the
rest of the script.  The changes of a transaction are pending until it commits,
and the rows that it changed are locked until it ends.  A statement that meets the
lock of another session waits; one that would change nothing (`idle`) takes no lock
and waits for none.

A database is locked row by row, or as a whole: that is the choice of `lock`.

What a run of the sessions leaves is what its transactions leave one after the
other in the order of their commits (`consistent_run`), where a statement that was idle
may have seen another row than it finds in that order.  The induction on a run of
sessions is made here once; what holds of the rows follows by induction on the
transactions that committed (`Serial`).

Where it counts why a script rescued an error, `Explained` says more: each error was raised
by its transaction on rows of the past, and what happened to the rows since is a relation
that every commit keeps.
-/

namespace Sessions

/-- The rows of a database, at most one under each key. -/
abbrev Rows {K : Type} (V : K → Type) : Type := ∀ k, Option (V k)

/-- The statements of a database and what they lock. -/
structure Database (K : Type) (V : K → Type) (S ε Λ : Type) where
  /-- The key of the row that a statement is about. -/
  key : S → K
  /-- What a statement makes of its row. -/
  run : ∀ st, Option (V (key st)) → Except ε (Option (V (key st)))
  /-- The statement leaves such a row alone and does not lock it. -/
  idle : ∀ st, Option (V (key st)) → Bool
  run_idle : ∀ st row, idle st row = true → run st row = .ok row
  /-- What is locked when the row of a key is changed. -/
  lock : K → Λ

variable {K : Type} {V : K → Type} {S ε Λ : Type}

/-- The statements of a transaction.  What comes next may depend on the row that a
statement found. -/
inductive Program (db : Database K V S ε Λ) (α : Type)
  | commit (answer : α)
  | raise (error : ε)
  | execute (st : S) (next : Option (V (db.key st)) → Program db α)

/-- What a session does, transaction after transaction. -/
inductive Script (db : Database K V S ε Λ) (α : Type)
  | answer (a : α)
  | raised (error : ε)
  | select (k : K) (next : Option (V k) → Script db α)
  | transaction (body : Program db α) (rescue : ε → Script db α)

/-- The changes of a transaction that has not ended. -/
abbrev Pending (V : K → Type) : Type := ∀ k, Option (Option (V k))

def view (rows : Rows V) (pending : Pending V) : Rows V := fun k => (pending k).getD (rows k)

inductive Session (db : Database K V S ε Λ) (α : Type)
  | ready (script : Script db α)
  | writing (pending : Pending V) (program : Program db α) (rescue : ε → Script db α)
  | lost

/-- The database with its sessions, and the answers that were committed in their order. -/
structure State (db : Database K V S ε Λ) (ι α : Type) where
  rows : Rows V
  locks : Λ → Option ι
  sessions : ι → Session db α
  history : List (ι × α)

/-- A session takes its next step, or is lost with what it has pending. -/
inductive Move (ι : Type)
  | proceed (i : ι)
  | lose (i : ι)

/-- Statements one after the other, whatever rows they find. -/
def Program.sequence {db : Database K V S ε Λ} {α : Type} (statements : List S)
    (program : Program db α) : Program db α :=
  statements.foldr (fun st rest => .execute st fun _ => rest) program

variable {db : Database K V S ε Λ} {ι α : Type}

/-! ### Steps -/

namespace State

variable [DecidableEq K] [DecidableEq Λ] [DecidableEq ι] (s : State db ι α) (i : ι)

/-- The locks without those of a session. -/
def released : Λ → Option ι := fun l => if s.locks l = some i then none else s.locks l

/-- The session goes on, without a transaction. -/
def leave (session : Session db α) : State db ι α :=
  { s with locks := s.released i, sessions := Function.update s.sessions i session }

def become (session : Session db α) : State db ι α :=
  { s with sessions := Function.update s.sessions i session }

/-- The statement has to wait for the transaction of another session. -/
def waits (st : S) (row : Option (V (db.key st))) : Bool :=
  !db.idle st row && (s.locks (db.lock (db.key st))).any (· ≠ i)

/-- The statement runs on the row that the transaction sees. -/
def execute (pending : Pending V) (st : S) (next : Option (V (db.key st)) → Program db α)
    (rescue : ε → Script db α) : State db ι α :=
  let row := view s.rows pending (db.key st)
  if db.idle st row then s.become i (.writing pending (next row) rescue)
  else if s.waits i st row then s
  else
    match db.run st row with
    | .error e => s.leave i (.ready (rescue e))
    | .ok row' =>
      { s with
        locks := Function.update s.locks (db.lock (db.key st)) (some i)
        sessions := Function.update s.sessions i
          (.writing (Function.update pending (db.key st) (some row')) (next row) rescue) }

/-- The transaction ends and its changes can be seen. -/
def commit (pending : Pending V) (a : α) : State db ι α :=
  { s.leave i (.ready (.answer a)) with
    rows := view s.rows pending
    history := s.history ++ [(i, a)] }

def proceed : State db ι α :=
  match s.sessions i with
  | .ready (.select k next) => s.become i (.ready (next (s.rows k)))
  | .ready (.transaction body rescue) => s.become i (.writing (fun _ => none) body rescue)
  | .writing pending (.commit a) _ => s.commit i pending a
  | .writing _ (.raise e) rescue => s.leave i (.ready (rescue e))
  | .writing pending (.execute st next) rescue => s.execute i pending st next rescue
  | _ => s

/-- A call that has ended is not lost. -/
def lose : State db ι α :=
  match s.sessions i with
  | .ready (.answer _) => s
  | .ready (.raised _) => s
  | _ => s.leave i .lost

def next : Move ι → State db ι α
  | .proceed i => s.proceed i
  | .lose i => s.lose i

def start (rows : Rows V) (scripts : ι → Script db α) : State db ι α :=
  ⟨rows, fun _ => none, fun i => .ready (scripts i), []⟩

end State

/-! ### What is left of a script -/

/-- What is left of a script when some rows were read and some errors rescued.  The
rows that were read are of databases with a property `P`. -/
inductive Follows (P : Rows V → Prop) (script : Script db α) : Script db α → Prop
  | refl : Follows P script script
  | select {k : K} {next : Option (V k) → Script db α} {rows : Rows V} (hrows : P rows)
      (h : Follows P script (.select k next)) : Follows P script (next (rows k))
  | rescue {body : Program db α} {rescue : ε → Script db α} (e : ε)
      (h : Follows P script (.transaction body rescue)) : Follows P script (rescue e)

section Follows

variable {P : Rows V → Prop}

theorem follows_answer {a : α} {script : Script db α} (h : Follows P (.answer a) script) :
    script = .answer a := by
  induction h with
  | refl => rfl
  | select _ _ ih => cases ih
  | rescue _ _ ih => cases ih

theorem follows_raised {e : ε} {script : Script db α} (h : Follows P (.raised e) script) :
    script = .raised e := by
  induction h with
  | refl => rfl
  | select _ _ ih => cases ih
  | rescue _ _ ih => cases ih

theorem follows_select {k : K} {next : Option (V k) → Script db α} {script : Script db α}
    (h : Follows P (.select k next) script) :
    script = .select k next ∨ ∃ rows, P rows ∧ Follows P (next (rows k)) script := by
  induction h with
  | refl => exact Or.inl rfl
  | select hrows _ ih =>
    rcases ih with ih | ⟨rows, hrow, ih⟩
    · cases ih
      exact Or.inr ⟨_, hrows, .refl⟩
    · exact Or.inr ⟨rows, hrow, .select hrows ih⟩
  | rescue e _ ih =>
    rcases ih with ih | ⟨rows, hrow, ih⟩
    · cases ih
    · exact Or.inr ⟨rows, hrow, .rescue e ih⟩

theorem follows_transaction {body : Program db α} {rescue : ε → Script db α} {script : Script db α}
    (h : Follows P (.transaction body rescue) script) :
    script = .transaction body rescue ∨ ∃ e, Follows P (rescue e) script := by
  induction h with
  | refl => exact Or.inl rfl
  | select hrows _ ih =>
    rcases ih with ih | ⟨e, ih⟩
    · cases ih
    · exact Or.inr ⟨e, .select hrows ih⟩
  | rescue e _ ih =>
    rcases ih with ih | ⟨e', ih⟩
    · cases ih
      exact Or.inr ⟨e, .refl⟩
    · exact Or.inr ⟨e', .rescue e ih⟩

theorem Follows.mono {P' : Rows V → Prop} {script left : Script db α} (h : Follows P script left)
    (hP : ∀ rows, P rows → P' rows) : Follows P' script left := by
  induction h with
  | refl => exact .refl
  | select hrows _ ih => exact .select (hP _ hrows) ih
  | rescue e _ ih => exact .rescue e ih

end Follows

variable [DecidableEq K]

theorem view_update (rows : Rows V) (pending : Pending V) (k : K) (row : Option (V k)) :
    view rows (Function.update pending k (some row)) = Function.update (view rows pending) k row := by
  funext l
  unfold view
  by_cases hl : l = k
  · subst hl
    rw [Function.update_self, Function.update_self, Option.getD_some]
  · rw [Function.update_of_ne hl, Function.update_of_ne hl]

/-! ### A session alone -/

/-- A transaction on rows that no other session changes. -/
def Program.alone : Program db α → Rows V → Except ε (α × Rows V)
  | .commit a, rows => .ok (a, rows)
  | .raise e, _ => .error e
  | .execute st next, rows =>
    match db.run st (rows (db.key st)) with
    | .error e => .error e
    | .ok row' => (next (rows (db.key st))).alone (Function.update rows (db.key st) row')

/-- A script on rows that no other session changes. -/
def Script.alone : Script db α → Rows V → Except ε α × Rows V
  | .answer a, rows => (.ok a, rows)
  | .raised e, rows => (.error e, rows)
  | .select k next, rows => (next (rows k)).alone rows
  | .transaction body rescue, rows =>
    match body.alone rows with
    | .ok (a, rows') => (.ok a, rows')
    | .error e => (rescue e).alone rows

theorem alone_execute {st : S} {rows : Rows V} {row' : Option (V (db.key st))}
    (hrun : db.run st (rows (db.key st)) = .ok row')
    (next : Option (V (db.key st)) → Program db α) :
    (Program.execute st next).alone rows =
      (next (rows (db.key st))).alone (Function.update rows (db.key st) row') := by
  rw [Program.alone, hrun]

theorem alone_transaction (body : Program db α) (rescue : ε → Script db α) (rows : Rows V) :
    (Script.transaction body rescue).alone rows =
      match body.alone rows with
      | .ok (a, rows') => (.ok a, rows')
      | .error e => (rescue e).alone rows := by
  rw [Script.alone]

/-- Statements one after the other, on rows that no other session changes. -/
def Database.executeAll (db : Database K V S ε Λ) (sts : List S) (rows : Rows V) :
    Except ε (Rows V) :=
  sts.foldlM (fun rows st =>
    (db.run st (rows (db.key st))).map (Function.update rows (db.key st))) rows

theorem executeAll_cons (db : Database K V S ε Λ) (st : S) (sts : List S) (rows : Rows V) :
    db.executeAll (st :: sts) rows =
      (db.run st (rows (db.key st))).map (Function.update rows (db.key st)) >>= db.executeAll sts :=
  rfl

theorem alone_sequence (sts : List S) (rest : Program db α) (rows : Rows V) :
    (Program.sequence sts rest).alone rows = db.executeAll sts rows >>= rest.alone := by
  induction sts generalizing rows with
  | nil => rfl
  | cons st sts ih =>
    rw [executeAll_cons]
    show (match db.run st (rows (db.key st)) with
      | .error e => Except.error e
      | .ok row' => (Program.sequence sts rest).alone (Function.update rows (db.key st) row')) = _
    cases db.run st (rows (db.key st)) with
    | error e => rfl
    | ok row' => exact ih _

/-! ### Transactions in the order of their commits -/

/-- What is asked of the rows that the statements of a transaction find. -/
abbrev Finds (db : Database K V S ε Λ) : Type := ∀ st, Option (V (db.key st)) → Prop

/-- A transaction that runs on its own and commits.  An idle statement may have seen
another row. -/
inductive Run (fits : Finds db) : Program db α → Rows V → Rows V → α → Prop
  | commit (rows : Rows V) (a : α) : Run fits (.commit a) rows rows a
  | idle {st : S} {next : Option (V (db.key st)) → Program db α} {rows rows' : Rows V} {a : α}
      (row : Option (V (db.key st))) (hidle : db.idle st row = true) (hfits : fits st row)
      (hnext : Run fits (next row) rows rows' a) : Run fits (.execute st next) rows rows' a
  | step {st : S} {next : Option (V (db.key st)) → Program db α} {rows rows' : Rows V} {a : α}
      {row' : Option (V (db.key st))} (hrun : db.run st (rows (db.key st)) = .ok row')
      (hfits : fits st (rows (db.key st)))
      (hnext : Run fits (next (rows (db.key st))) (Function.update rows (db.key st) row') rows' a) :
      Run fits (.execute st next) rows rows' a

inductive Executes (fits : Finds db) : List S → Rows V → Rows V → Prop
  | nil (rows : Rows V) : Executes fits [] rows rows
  | idle {st : S} {sts : List S} {rows rows' : Rows V} (row : Option (V (db.key st)))
      (hidle : db.idle st row = true) (hfits : fits st row) (h : Executes fits sts rows rows') :
      Executes fits (st :: sts) rows rows'
  | step {st : S} {sts : List S} {rows rows' : Rows V} {row' : Option (V (db.key st))}
      (hrun : db.run st (rows (db.key st)) = .ok row') (hfits : fits st (rows (db.key st)))
      (h : Executes fits sts (Function.update rows (db.key st) row') rows') :
      Executes fits (st :: sts) rows rows'

/-- A transaction runs the statements it begins with, then the rest. -/
theorem run_sequence {fits : Finds db} {program : Program db α} {rows' : Rows V} {a : α} :
    ∀ {sts : List S} {rows : Rows V}, Run fits (.sequence sts program) rows rows' a →
      ∃ between, Executes fits sts rows between ∧ Run fits program between rows' a := by
  intro sts
  induction sts with
  | nil => exact fun h => ⟨_, .nil _, h⟩
  | cons st sts ih =>
    intro rows h
    cases h with
    | idle row hidle hfits hnext =>
      obtain ⟨between, hsts, hrest⟩ := ih hnext
      exact ⟨between, .idle row hidle hfits hsts, hrest⟩
    | step hrun hfits hnext =>
      obtain ⟨between, hsts, hrest⟩ := ih hnext
      exact ⟨between, .step hrun hfits hsts, hrest⟩

theorem executes_singleton {fits : Finds db} {st : S} {rows rows' : Rows V}
    (h : Executes fits [st] rows rows') :
    (rows' = rows ∧ ∃ row, db.idle st row = true) ∨
      ∃ row', db.run st (rows (db.key st)) = .ok row' ∧ fits st (rows (db.key st)) ∧
        rows' = Function.update rows (db.key st) row' := by
  cases h with
  | idle row hidle _ h =>
    cases h
    exact Or.inl ⟨rfl, row, hidle⟩
  | step hrun hfits h =>
    cases h
    exact Or.inr ⟨_, hrun, hfits, rfl⟩

theorem executes_frame {fits : Finds db} {sts : List S} {rows rows' : Rows V} {k : K}
    (h : Executes fits sts rows rows') (hk : ∀ st ∈ sts, db.key st ≠ k) : rows' k = rows k := by
  induction h with
  | nil => rfl
  | idle row _ _ _ ih => exact ih fun st hst => hk st (List.mem_cons_of_mem _ hst)
  | @step st sts rows rows' row' _ _ _ ih =>
    rw [ih fun st hst => hk st (List.mem_cons_of_mem _ hst),
      Function.update_of_ne (Ne.symm (hk st List.mem_cons_self))]

/-- The rows after transactions of the scripts, each alone, in an order. -/
inductive Serial (P : Rows V → Prop) (fits : Finds db) (scripts : ι → Script db α)
    (rows₀ : Rows V) : List (ι × α) → Rows V → Prop
  | start : Serial P fits scripts rows₀ [] rows₀
  | commit {history : List (ι × α)} {rows rows' : Rows V} {i : ι} {a : α} {body : Program db α}
      {rescue : ε → Script db α} (h : Serial P fits scripts rows₀ history rows)
      (hrows : P rows) (hbody : Follows P (scripts i) (.transaction body rescue))
      (hrun : Run fits body rows rows' a) :
      Serial P fits scripts rows₀ (history ++ [(i, a)]) rows'

/-! ### What a script does -/

/-- Whatever a script commits is related to the rows before. -/
def Does (P : Rows V → Prop) (fits : Finds db) (script : Script db α)
    (Q : Rows V → Rows V → α → Prop) : Prop :=
  ∀ ⦃body rescue rows rows' a⦄, Follows P script (.transaction body rescue) → P rows →
    Run fits body rows rows' a → Q rows rows' a

section Rules

variable {P : Rows V → Prop} {fits : Finds db} {Q : Rows V → Rows V → α → Prop}

theorem does_answer (a : α) : Does P fits (.answer a) Q := by
  intro body rescue rows rows' b h
  cases follows_answer h

theorem does_raised (e : ε) : Does P fits (.raised e) Q := by
  intro body rescue rows rows' b h
  cases follows_raised h

theorem does_select {k : K} {next : Option (V k) → Script db α}
    (h : ∀ rows, P rows → Does P fits (next (rows k)) Q) : Does P fits (.select k next) Q := by
  intro body rescue rows rows' a hfollows
  rcases follows_select hfollows with heq | ⟨read, hread, hnext⟩
  · cases heq
  · exact h read hread hnext

theorem does_transaction {body : Program db α} {rescue : ε → Script db α}
    (hbody : ∀ rows rows' a, P rows → Run fits body rows rows' a → Q rows rows' a)
    (hrescue : ∀ e, Does P fits (rescue e) Q) : Does P fits (.transaction body rescue) Q := by
  intro body' rescue' rows rows' a hfollows
  rcases follows_transaction hfollows with heq | ⟨e, hnext⟩
  · cases heq
    exact hbody rows rows' a
  · exact hrescue e hnext

theorem Does.mono {P' : Rows V → Prop} {Q' : Rows V → Rows V → α → Prop} {script : Script db α}
    (h : Does P fits script Q) (hP : ∀ rows, P' rows → P rows)
    (hQ : ∀ rows rows' a, P' rows → Q rows rows' a → Q' rows rows' a) : Does P' fits script Q' :=
  fun _ _ _ _ _ hbody hrows hrun =>
    hQ _ _ _ hrows (h (hbody.mono hP) (hP _ hrows) hrun)

theorem Does.and {Q' : Rows V → Rows V → α → Prop} {script : Script db α}
    (h : Does P fits script Q) (h' : Does P fits script Q') :
    Does P fits script fun rows rows' a => Q rows rows' a ∧ Q' rows rows' a :=
  fun _ _ _ _ _ hbody hrows hrun => ⟨h hbody hrows hrun, h' hbody hrows hrun⟩

end Rules

/-- Where a transaction stands that began with a body. -/
inductive Within (fits : Finds db) (rows : Rows V) (body : Program db α) :
    Pending V → Program db α → Prop
  | start : Within fits rows body (fun _ => none) body
  | idle {pending : Pending V} {st : S} {next : Option (V (db.key st)) → Program db α}
      (row : Option (V (db.key st))) (h : Within fits rows body pending (.execute st next))
      (hidle : db.idle st row = true) (hfits : fits st row) :
      Within fits rows body pending (next row)
  | step {pending : Pending V} {st : S} {next : Option (V (db.key st)) → Program db α}
      {row' : Option (V (db.key st))} (h : Within fits rows body pending (.execute st next))
      (hrun : db.run st (view rows pending (db.key st)) = .ok row')
      (hfits : fits st (view rows pending (db.key st))) :
      Within fits rows body (Function.update pending (db.key st) (some row'))
        (next (view rows pending (db.key st)))

namespace Within

variable {fits : Finds db} {rows rows' : Rows V} {body program : Program db α} {pending : Pending V}

/-- **What a transaction has left to do completes what it did.** -/
theorem completes (h : Within fits rows body pending program) {a : α} :
    Run fits program (view rows pending) rows' a → Run fits body rows rows' a := by
  induction h with
  | start => exact id
  | idle row _ hidle hfits ih => exact fun hrun => ih (.idle row hidle hfits hrun)
  | step _ hstep hfits ih =>
    intro hrun
    rw [view_update] at hrun
    exact ih (.step hstep hfits hrun)

theorem of_rows (h : Within fits rows body pending program)
    (hrows : ∀ k, (pending k).isSome → rows' k = rows k) :
    Within fits rows' body pending program := by
  induction h with
  | start => exact .start
  | idle row _ hidle hfits ih => exact .idle row (ih hrows) hidle hfits
  | @step pending st next row' _ hstep hfits ih =>
    have hchanged : ∀ k, (pending k).isSome → rows' k = rows k := by
      intro k hk
      refine hrows k ?_
      by_cases hkey : k = db.key st
      · subst hkey
        rw [Function.update_self]
        rfl
      · rw [Function.update_of_ne hkey]
        exact hk
    have hrow : view rows' pending (db.key st) = view rows pending (db.key st) := by
      unfold view
      rw [hrows (db.key st) (by rw [Function.update_self]; rfl)]
    have hdone : Within fits rows' body (Function.update pending (db.key st) (some row'))
        (next (view rows' pending (db.key st))) :=
      (ih hchanged).step (by rw [hrow]; exact hstep) (by rw [hrow]; exact hfits)
    rw [hrow] at hdone
    exact hdone

end Within

/-! ### Runs of the sessions -/

def Stands (P : Rows V → Prop) (fits : Finds db) (script : Script db α) (rows : Rows V)
    (locks : Λ → Option ι) (history : List (ι × α)) (i : ι) : Session db α → Prop
  | .ready left => Follows P script left ∨ ∃ a, left = .answer a ∧ (i, a) ∈ history
  | .writing pending program rescue =>
    (∃ body, Follows P script (.transaction body rescue) ∧ Within fits rows body pending program) ∧
      ∀ k, (pending k).isSome → locks (db.lock k) = some i
  | .lost => True

/-- **The invariant of a run.**  The rows are those of the transactions that committed,
and a transaction that goes on holds the locks of the rows that it changed. -/
structure Consistent (P : Rows V → Prop) (fits : Finds db) (scripts : ι → Script db α)
    (rows₀ : Rows V) (s : State db ι α) : Prop where
  serial : Serial P fits scripts rows₀ s.history s.rows
  kept : P s.rows
  stands : ∀ i, Stands P fits (scripts i) s.rows s.locks s.history i (s.sessions i)
  answers : ∀ i a, (i, a) ∈ s.history → s.sessions i = .ready (.answer a)

/-- A statement that does not wait finds a row that fits. -/
def Session.Fitting [DecidableEq Λ] [DecidableEq ι] (fits : Finds db) (s : State db ι α) (i : ι) :
    Session db α → Prop
  | .writing pending (.execute st _) _ =>
    s.waits i st (view s.rows pending (db.key st)) = false →
      fits st (view s.rows pending (db.key st))
  | _ => True

def Fitting [DecidableEq Λ] [DecidableEq ι] (fits : Finds db) (s : State db ι α) : Move ι → Prop
  | .proceed i => (s.sessions i).Fitting fits s i
  | .lose _ => True

instance [DecidableEq Λ] [DecidableEq ι] (fits : Finds db) [∀ st row, Decidable (fits st row)]
    (s : State db ι α) (i : ι) : ∀ session : Session db α, Decidable (session.Fitting fits s i)
  | .writing _ (.execute st _) _ => inferInstanceAs (Decidable (_ = _ → fits st _))
  | .writing _ (.commit _) _ => isTrue trivial
  | .writing _ (.raise _) _ => isTrue trivial
  | .ready _ => isTrue trivial
  | .lost => isTrue trivial

instance [DecidableEq Λ] [DecidableEq ι] (fits : Finds db) [∀ st row, Decidable (fits st row)]
    (s : State db ι α) : ∀ m, Decidable (Fitting fits s m)
  | .proceed i => inferInstanceAs (Decidable ((s.sessions i).Fitting fits s i))
  | .lose _ => isTrue trivial

omit [DecidableEq K] in
theorem Session.fitting_true [DecidableEq Λ] [DecidableEq ι] (s : State db ι α) (i : ι) :
    ∀ session : Session db α, session.Fitting (fun _ _ => True) s i
  | .writing _ (.execute _ _) _ => fun _ => trivial
  | .writing _ (.commit _) _ => trivial
  | .writing _ (.raise _) _ => trivial
  | .ready _ => trivial
  | .lost => trivial

omit [DecidableEq K] in
theorem fitting_true [DecidableEq Λ] [DecidableEq ι] (s : State db ι α) :
    ∀ m, Fitting (fun _ _ => True) s m
  | .proceed i => (s.sessions i).fitting_true s i
  | .lose _ => trivial

theorem consistent_start {P : Rows V → Prop} (fits : Finds db) (scripts : ι → Script db α)
    {rows : Rows V} (hrows : P rows) : Consistent P fits scripts rows (State.start rows scripts) :=
  ⟨.start, hrows, fun _ => Or.inl .refl, fun _ _ h => nomatch h⟩

variable {P : Rows V → Prop} {fits : Finds db} {scripts : ι → Script db α} {rows₀ : Rows V}
  {s : State db ι α}

theorem Stands.of_locks {script : Script db α} {rows : Rows V} {locks locks' : Λ → Option ι}
    {history : List (ι × α)} {i : ι} {session : Session db α}
    (h : Stands P fits script rows locks history i session)
    (hlocks : ∀ l, locks l = some i → locks' l = some i) :
    Stands P fits script rows locks' history i session := by
  cases session with
  | ready left => exact h
  | writing pending program rescue => exact ⟨h.1, fun k hk => hlocks _ (h.2 k hk)⟩
  | lost => trivial

/-- **What a transaction commits is what it does alone on the committed rows.** -/
theorem run_of_writing (h : Consistent P fits scripts rows₀ s) {i : ι} {pending : Pending V} {a : α}
    {rescue : ε → Script db α} (hi : s.sessions i = .writing pending (.commit a) rescue) :
    ∃ body, Follows P (scripts i) (.transaction body rescue) ∧
      Run fits body s.rows (view s.rows pending) a := by
  have hstands := h.stands i
  rw [hi] at hstands
  obtain ⟨⟨body, hbody, hwithin⟩, -⟩ := hstands
  exact ⟨body, hbody, hwithin.completes (.commit _ a)⟩

/-- What a session answered it committed, or it answered without a transaction. -/
theorem answer_of_ready (h : Consistent P fits scripts rows₀ s) {i : ι} {a : α}
    (hi : s.sessions i = .ready (.answer a)) :
    (i, a) ∈ s.history ∨ Follows P (scripts i) (.answer a) := by
  have hstands := h.stands i
  rw [hi] at hstands
  rcases hstands with hfollows | ⟨b, hb, hmem⟩
  · exact Or.inr hfollows
  · cases hb
    exact Or.inl hmem

variable [DecidableEq ι]

omit [DecidableEq K] in
theorem released_of_ne {i j : ι} (hj : j ≠ i) {l : Λ} (hl : s.locks l = some j) :
    s.released i l = some j := by
  unfold State.released
  rw [if_neg (by rw [hl]; simpa using hj), hl]

/-- A session that has not answered goes on and keeps its hands off the others' locks. -/
theorem Consistent.update (h : Consistent P fits scripts rows₀ s) {i : ι}
    (hopen : ∀ a, s.sessions i ≠ .ready (.answer a)) {session : Session db α}
    {locks : Λ → Option ι} (hlocks : ∀ j, j ≠ i → ∀ l, s.locks l = some j → locks l = some j)
    (hnew : Stands P fits (scripts i) s.rows locks s.history i session) :
    Consistent P fits scripts rows₀
      { s with locks := locks, sessions := Function.update s.sessions i session } := by
  refine ⟨h.serial, h.kept, fun j => ?_, fun j a ha => ?_⟩
  · show Stands P fits (scripts j) s.rows locks s.history j (Function.update s.sessions i session j)
    by_cases hj : j = i
    · subst hj
      rw [Function.update_self]
      exact hnew
    · rw [Function.update_of_ne hj]
      exact (h.stands j).of_locks (hlocks j hj)
  · have hanswered := h.answers j a ha
    have hj : j ≠ i := fun hj => hopen a (hj ▸ hanswered)
    show Function.update s.sessions i session j = _
    rw [Function.update_of_ne hj]
    exact hanswered

theorem consistent_become (h : Consistent P fits scripts rows₀ s) {i : ι}
    (hopen : ∀ a, s.sessions i ≠ .ready (.answer a)) {session : Session db α}
    (hnew : Stands P fits (scripts i) s.rows s.locks s.history i session) :
    Consistent P fits scripts rows₀ (s.become i session) :=
  h.update hopen (fun _ _ _ hl => hl) hnew

theorem consistent_commit (hkeep : ∀ i, Does P fits (scripts i) fun _ rows' _ => P rows')
    (h : Consistent P fits scripts rows₀ s) {i : ι} {pending : Pending V} {a : α}
    {rescue : ε → Script db α} (hi : s.sessions i = .writing pending (.commit a) rescue) :
    Consistent P fits scripts rows₀ (s.commit i pending a) := by
  obtain ⟨body, hbody, hrun⟩ := run_of_writing h hi
  have hlocked := h.stands i
  rw [hi] at hlocked
  refine ⟨h.serial.commit h.kept hbody hrun, hkeep i hbody h.kept hrun, fun j => ?_,
    fun j b hb => ?_⟩
  · show Stands P fits (scripts j) (view s.rows pending) (s.released i) (s.history ++ [(i, a)]) j
      (Function.update s.sessions i (.ready (.answer a)) j)
    by_cases hj : j = i
    · subst hj
      rw [Function.update_self]
      exact Or.inr ⟨a, rfl, by simp⟩
    · rw [Function.update_of_ne hj]
      have hstands := h.stands j
      cases hsession : s.sessions j with
      | ready left =>
        rw [hsession] at hstands
        exact hstands.imp_right fun ⟨b, hb, hmem⟩ => ⟨b, hb, List.mem_append_left _ hmem⟩
      | lost => trivial
      | writing others program rescue' =>
        rw [hsession] at hstands
        obtain ⟨⟨body', hbody', hwithin⟩, hlocks⟩ := hstands
        refine ⟨⟨body', hbody', hwithin.of_rows fun k hk => ?_⟩,
          fun k hk => released_of_ne hj (hlocks k hk)⟩
        -- The row is locked by the other transaction, so this one has not changed it.
        have hnone : pending k = none := by
          by_contra hsome
          have hmine := hlocked.2 k (Option.isSome_iff_ne_none.mpr hsome)
          rw [hlocks k hk] at hmine
          exact hj (Option.some.inj hmine)
        unfold view
        rw [hnone, Option.getD_none]
  · show Function.update s.sessions i (.ready (.answer a)) j = _
    rcases List.mem_append.mp hb with hb | hb
    · have hanswered := h.answers j b hb
      have hj : j ≠ i := by
        rintro rfl
        rw [hi] at hanswered
        cases hanswered
      rw [Function.update_of_ne hj]
      exact hanswered
    · cases List.mem_singleton.mp hb
      rw [Function.update_self]

theorem consistent_leave (h : Consistent P fits scripts rows₀ s) {i : ι}
    (hopen : ∀ a, s.sessions i ≠ .ready (.answer a)) {session : Session db α}
    (hnew : Stands P fits (scripts i) s.rows (s.released i) s.history i session) :
    Consistent P fits scripts rows₀ (s.leave i session) :=
  h.update hopen (fun _ hj _ hl => released_of_ne hj hl) hnew

variable [DecidableEq Λ]

theorem consistent_execute (h : Consistent P fits scripts rows₀ s) {i : ι} {pending : Pending V}
    {st : S} {next : Option (V (db.key st)) → Program db α} {rescue : ε → Script db α}
    (hi : s.sessions i = .writing pending (.execute st next) rescue)
    (hfits : s.waits i st (view s.rows pending (db.key st)) = false →
      fits st (view s.rows pending (db.key st))) :
    Consistent P fits scripts rows₀ (s.execute i pending st next rescue) := by
  have hopen : ∀ a, s.sessions i ≠ .ready (.answer a) := fun a ha => by rw [hi] at ha; cases ha
  have hstands := h.stands i
  rw [hi] at hstands
  obtain ⟨⟨body, hbody, hwithin⟩, hlocked⟩ := hstands
  unfold State.execute
  by_cases hidle : db.idle st (view s.rows pending (db.key st)) = true
  · rw [if_pos hidle]
    have hgo := hfits (by unfold State.waits; rw [hidle]; rfl)
    exact consistent_become h hopen ⟨⟨body, hbody, .idle _ hwithin hidle hgo⟩, hlocked⟩
  · rw [if_neg hidle]
    by_cases hwaits : s.waits i st (view s.rows pending (db.key st)) = true
    · rw [if_pos hwaits]
      exact h
    · rw [if_neg hwaits]
      cases hrun : db.run st (view s.rows pending (db.key st)) with
      | error e => exact consistent_leave h hopen (Or.inl (.rescue e hbody))
      | ok row' =>
        have hfree : ∀ j, j ≠ i → s.locks (db.lock (db.key st)) ≠ some j := by
          intro j hj hl
          apply hwaits
          unfold State.waits
          rw [Bool.not_eq_true] at hidle
          rw [hidle, hl]
          simpa using hj
        refine h.update hopen (fun j hj l hl => ?_) ⟨⟨body, hbody, ?_⟩, fun k hk => ?_⟩
        · by_cases hkey : l = db.lock (db.key st)
          · exact absurd (hkey ▸ hl) (hfree j hj)
          · rw [Function.update_of_ne hkey]
            exact hl
        · exact .step hwithin hrun (hfits (Bool.not_eq_true _ ▸ hwaits))
        · by_cases hlock : db.lock k = db.lock (db.key st)
          · rw [hlock, Function.update_self]
          · rw [Function.update_of_ne hlock]
            refine hlocked k ?_
            have hkey : k ≠ db.key st := fun hkey => hlock (by rw [hkey])
            rw [Function.update_of_ne hkey] at hk
            exact hk

/-- **Every step keeps the invariant.** -/
theorem consistent_next (hkeep : ∀ i, Does P fits (scripts i) fun _ rows' _ => P rows')
    (h : Consistent P fits scripts rows₀ s) (m : Move ι) (hfits : Fitting fits s m) :
    Consistent P fits scripts rows₀ (s.next m) := by
  cases m with
  | lose i =>
    show Consistent P fits scripts rows₀ (s.lose i)
    unfold State.lose
    split
    next => exact h
    next => exact h
    next hsession _ => exact consistent_leave h hsession trivial
  | proceed i =>
    show Consistent P fits scripts rows₀ (s.proceed i)
    have hstands := h.stands i
    simp only [Fitting] at hfits
    unfold State.proceed
    cases hi : s.sessions i with
    | lost => exact h
    | ready left =>
      rw [hi] at hstands
      cases left with
      | answer a => exact h
      | raised e => exact h
      | select k next =>
        have hopen : ∀ a, s.sessions i ≠ .ready (.answer a) := fun a ha => by rw [hi] at ha; cases ha
        rcases hstands with hfollows | ⟨a, ha, -⟩
        · exact consistent_become h hopen (Or.inl (.select h.kept hfollows))
        · cases ha
      | transaction body rescue =>
        have hopen : ∀ a, s.sessions i ≠ .ready (.answer a) := fun a ha => by rw [hi] at ha; cases ha
        rcases hstands with hfollows | ⟨a, ha, -⟩
        · exact consistent_become h hopen ⟨⟨body, hfollows, .start⟩, fun k hk => nomatch hk⟩
        · cases ha
    | writing pending program rescue =>
      rw [hi] at hstands hfits
      have hopen : ∀ a, s.sessions i ≠ .ready (.answer a) := fun a ha => by rw [hi] at ha; cases ha
      obtain ⟨⟨body, hbody, -⟩, -⟩ := id hstands
      cases program with
      | commit a => exact consistent_commit hkeep h hi
      | raise e => exact consistent_leave h hopen (Or.inl (.rescue e hbody))
      | execute st next => exact consistent_execute h hi hfits

/-- **A run of the sessions is serial.** -/
theorem consistent_run (hkeep : ∀ i, Does P fits (scripts i) fun _ rows' _ => P rows')
    (hrows : P rows₀) (moves : List (Move ι))
    (hfits : Runs.Along State.next (Fitting fits) (State.start rows₀ scripts) moves) :
    Consistent P fits scripts rows₀ (Runs.run State.next (State.start rows₀ scripts) moves) :=
  Runs.run_invariant_along (P := Consistent P fits scripts rows₀)
    (fun _ m h hm => consistent_next hkeep h m hm) moves (consistent_start fits scripts hrows) hfits

/-! ### What was raised -/

/-- A transaction that runs on its own and raises. -/
inductive Fails (fits : Finds db) : Program db α → Rows V → ε → Prop
  | raise (rows : Rows V) (e : ε) : Fails fits (.raise e) rows e
  | refuse {st : S} {next : Option (V (db.key st)) → Program db α} {rows : Rows V} {e : ε}
      (hrun : db.run st (rows (db.key st)) = .error e) : Fails fits (.execute st next) rows e
  | idle {st : S} {next : Option (V (db.key st)) → Program db α} {rows : Rows V} {e : ε}
      (row : Option (V (db.key st))) (hidle : db.idle st row = true) (hfits : fits st row)
      (hnext : Fails fits (next row) rows e) : Fails fits (.execute st next) rows e
  | step {st : S} {next : Option (V (db.key st)) → Program db α} {rows : Rows V} {e : ε}
      {row' : Option (V (db.key st))} (hrun : db.run st (rows (db.key st)) = .ok row')
      (hfits : fits st (rows (db.key st)))
      (hnext : Fails fits (next (rows (db.key st))) (Function.update rows (db.key st) row') e) :
      Fails fits (.execute st next) rows e

omit [DecidableEq ι] [DecidableEq Λ] in
/-- Where a transaction raises that begins with statements: at one of them, or later. -/
theorem fails_sequence {program : Program db α} {e : ε} :
    ∀ {sts : List S} {rows : Rows V}, Fails fits (.sequence sts program) rows e →
      (∃ st ∈ sts, ∃ row, db.run st row = .error e) ∨
        ∃ between, Executes fits sts rows between ∧ Fails fits program between e := by
  intro sts
  induction sts with
  | nil => exact fun h => Or.inr ⟨_, .nil _, h⟩
  | cons st sts ih =>
    intro rows h
    cases h with
    | refuse hrun => exact Or.inl ⟨st, List.mem_cons_self, _, hrun⟩
    | idle row hidle hfits hnext =>
      rcases ih hnext with ⟨st', hst', hrefuses⟩ | ⟨between, hsts, hrest⟩
      · exact Or.inl ⟨st', List.mem_cons_of_mem _ hst', hrefuses⟩
      · exact Or.inr ⟨between, .idle row hidle hfits hsts, hrest⟩
    | step hrun hfits hnext =>
      rcases ih hnext with ⟨st', hst', hrefuses⟩ | ⟨between, hsts, hrest⟩
      · exact Or.inl ⟨st', List.mem_cons_of_mem _ hst', hrefuses⟩
      · exact Or.inr ⟨between, .step hrun hfits hsts, hrest⟩

omit [DecidableEq ι] [DecidableEq Λ] in
theorem Within.fails {rows : Rows V} {body program : Program db α} {pending : Pending V}
    (h : Within fits rows body pending program) {e : ε} :
    Fails fits program (view rows pending) e → Fails fits body rows e := by
  induction h with
  | start => exact id
  | idle row _ hidle hfits ih => exact fun hfail => ih (.idle row hidle hfits hfail)
  | step _ hstep hfits ih =>
    intro hfail
    rw [view_update] at hfail
    exact ih (.step hstep hfits hfail)

/-- What is left of a script, where each error that was rescued was raised by its transaction
on rows of the past. -/
inductive Traced (past : Rows V → Prop) (fits : Finds db) (script : Script db α) :
    Script db α → Prop
  | refl : Traced past fits script script
  | select {k : K} {next : Option (V k) → Script db α} {rows : Rows V} (hrows : past rows)
      (h : Traced past fits script (.select k next)) : Traced past fits script (next (rows k))
  | rescue {body : Program db α} {rescue : ε → Script db α} {rows : Rows V} {e : ε}
      (hrows : past rows) (h : Traced past fits script (.transaction body rescue))
      (hfail : Fails fits body rows e) : Traced past fits script (rescue e)

section Traced

variable {past past' : Rows V → Prop} {script left : Script db α}

omit [DecidableEq ι] [DecidableEq Λ] in
theorem Traced.mono (h : Traced past fits script left) (hpast : ∀ rows, past rows → past' rows) :
    Traced past' fits script left := by
  induction h with
  | refl => exact .refl
  | select hrows _ ih => exact .select (hpast _ hrows) ih
  | rescue hrows _ hfail ih => exact .rescue (hpast _ hrows) ih hfail

omit [DecidableEq ι] [DecidableEq Λ] in
theorem Traced.follows (h : Traced past fits script left) (hpast : ∀ rows, past rows → P rows) :
    Follows P script left := by
  induction h with
  | refl => exact .refl
  | select hrows _ ih => exact .select (hpast _ hrows) ih
  | rescue _ _ _ ih => exact .rescue _ ih

omit [DecidableEq ι] [DecidableEq Λ] in
theorem traced_raised {e : ε} (h : Traced past fits (.raised e) left) : left = .raised e := by
  induction h with
  | refl => rfl
  | select _ _ ih => cases ih
  | rescue _ _ _ ih => cases ih

omit [DecidableEq ι] [DecidableEq Λ] in
theorem traced_transaction {body : Program db α} {rescue : ε → Script db α}
    (h : Traced past fits (.transaction body rescue) left) :
    left = .transaction body rescue ∨
      ∃ rows e, past rows ∧ Fails fits body rows e ∧ Traced past fits (rescue e) left := by
  induction h with
  | refl => exact Or.inl rfl
  | select hrows _ ih =>
    rcases ih with ih | ⟨rows, e, hpast, hfail, ih⟩
    · cases ih
    · exact Or.inr ⟨rows, e, hpast, hfail, .select hrows ih⟩
  | rescue hrows _ hfail ih =>
    rcases ih with ih | ⟨rows, e, hpast, hfail', ih⟩
    · cases ih
      exact Or.inr ⟨_, _, hrows, hfail, .refl⟩
    · exact Or.inr ⟨rows, e, hpast, hfail', .rescue hrows ih hfail⟩

end Traced

/-- The rows of the past, when `later` relates the rows before a commit to those after. -/
abbrev Past (P : Rows V → Prop) (later : Rows V → Rows V → Prop) (now : Rows V) : Rows V → Prop :=
  fun rows => P rows ∧ later rows now

/-- **Where every session stands, with what it was raised**, and what every entry of the
history committed. -/
structure Explained (P : Rows V → Prop) (later : Rows V → Rows V → Prop) (fits : Finds db)
    (scripts : ι → Script db α) (s : State db ι α) : Prop where
  ready : ∀ i left, s.sessions i = .ready left →
    Traced (Past P later s.rows) fits (scripts i) left ∨ ∃ a, left = .answer a ∧ (i, a) ∈ s.history
  writing : ∀ i pending program rescue, s.sessions i = .writing pending program rescue →
    ∃ body, Traced (Past P later s.rows) fits (scripts i) (.transaction body rescue) ∧
      Within fits s.rows body pending program
  committed : ∀ i a, (i, a) ∈ s.history → ∃ body rescue before after,
    Traced (Past P later before) fits (scripts i) (.transaction body rescue) ∧ P before ∧
      Run fits body before after a ∧ later after s.rows

section Explained

variable {later : Rows V → Rows V → Prop}

omit [DecidableEq ι] [DecidableEq Λ] in
theorem explained_start (later : Rows V → Rows V → Prop) (fits : Finds db) (scripts : ι → Script db α)
    (rows : Rows V) : Explained P later fits scripts (State.start rows scripts) := by
  refine ⟨fun i left hi => ?_, (fun _ _ _ _ hi => nomatch hi), fun _ _ h => nomatch h⟩
  cases hi
  exact Or.inl .refl

omit [DecidableEq ι] [DecidableEq Λ] in
/-- What a script does, every entry of the history that is its own has done. -/
theorem Explained.does (h : Explained P later fits scripts s) {i : ι} {a : α}
    (hmem : (i, a) ∈ s.history) {Q : Rows V → Rows V → α → Prop} (hdoes : Does P fits (scripts i) Q) :
    ∃ before after, Q before after a ∧ later after s.rows := by
  obtain ⟨body, rescue, before, after, htraced, hbefore, hrun, hafter⟩ := h.committed i a hmem
  exact ⟨before, after, hdoes (htraced.follows fun _ hrows => hrows.1) hbefore hrun, hafter⟩

omit [DecidableEq Λ] in
theorem Explained.update (h : Explained P later fits scripts s) {i : ι} {session : Session db α}
    {locks : Λ → Option ι}
    (hready : ∀ left, session = .ready left → Traced (Past P later s.rows) fits (scripts i) left)
    (hwriting : ∀ pending program rescue, session = .writing pending program rescue →
      ∃ body, Traced (Past P later s.rows) fits (scripts i) (.transaction body rescue) ∧
        Within fits s.rows body pending program) :
    Explained P later fits scripts
      { s with locks := locks, sessions := Function.update s.sessions i session } := by
  refine ⟨fun j left hj => ?_, fun j pending program rescue hj => ?_, h.committed⟩
  · by_cases hji : j = i
    · subst hji
      exact Or.inl (hready left ((Function.update_self j session s.sessions).symm.trans hj))
    · exact h.ready j left ((Function.update_of_ne hji session s.sessions).symm.trans hj)
  · by_cases hji : j = i
    · subst hji
      exact hwriting _ _ _ ((Function.update_self j session s.sessions).symm.trans hj)
    · exact h.writing j _ _ _ ((Function.update_of_ne hji session s.sessions).symm.trans hj)

omit [DecidableEq Λ] in
theorem Explained.goOn (h : Explained P later fits scripts s) {i : ι} {left : Script db α}
    {locks : Λ → Option ι} (hleft : Traced (Past P later s.rows) fits (scripts i) left) :
    Explained P later fits scripts
      { s with locks := locks, sessions := Function.update s.sessions i (.ready left) } :=
  h.update (fun _ hready => by cases hready; exact hleft) fun _ _ _ hwriting => nomatch hwriting

omit [DecidableEq Λ] in
theorem Explained.write (h : Explained P later fits scripts s) {i : ι} {body program : Program db α}
    {pending : Pending V} {rescue : ε → Script db α} {locks : Λ → Option ι}
    (hbody : Traced (Past P later s.rows) fits (scripts i) (.transaction body rescue))
    (hwithin : Within fits s.rows body pending program) :
    Explained P later fits scripts
      { s with
        locks := locks
        sessions := Function.update s.sessions i (.writing pending program rescue) } :=
  h.update (fun _ hready => nomatch hready) fun _ _ _ hwriting => by
    cases hwriting
    exact ⟨body, hbody, hwithin⟩

omit [DecidableEq Λ] in
theorem explained_commit (hrefl : ∀ rows, later rows rows)
    (htrans : ∀ {a b c}, later a b → later b c → later a c)
    (hlater : ∀ i, Does P fits (scripts i) fun rows rows' _ => later rows rows')
    (hs : Consistent P fits scripts rows₀ s) (h : Explained P later fits scripts s) {i : ι}
    {pending : Pending V} {a : α} {rescue : ε → Script db α}
    (hi : s.sessions i = .writing pending (.commit a) rescue) :
    Explained P later fits scripts (s.commit i pending a) := by
  obtain ⟨body, hbody, hwithin⟩ := h.writing i _ _ _ hi
  have hrun : Run fits body s.rows (view s.rows pending) a := hwithin.completes (.commit _ a)
  have hstep : later s.rows (view s.rows pending) := by
    obtain ⟨body', hfollows, hrun'⟩ := run_of_writing hs hi
    exact hlater i hfollows hs.kept hrun'
  have hpast : ∀ rows, Past P later s.rows rows → Past P later (view s.rows pending) rows :=
    fun rows hrows => ⟨hrows.1, htrans hrows.2 hstep⟩
  refine ⟨fun j left hj => ?_, fun j others program rescue' hj => ?_, fun j b hb => ?_⟩
  · by_cases hji : j = i
    · subst hji
      cases (Function.update_self j _ s.sessions).symm.trans hj
      exact Or.inr ⟨a, rfl, List.mem_append_right _ List.mem_cons_self⟩
    · have hj' := (Function.update_of_ne hji _ s.sessions).symm.trans hj
      exact (h.ready j left hj').imp (fun htraced => htraced.mono hpast)
        fun ⟨b, hb, hmem⟩ => ⟨b, hb, List.mem_append_left _ hmem⟩
  · by_cases hji : j = i
    · subst hji
      cases (Function.update_self j _ s.sessions).symm.trans hj
    · have hj' := (Function.update_of_ne hji _ s.sessions).symm.trans hj
      obtain ⟨body', hbody', hwithin'⟩ := h.writing j _ _ _ hj'
      have hstands := hs.stands j
      rw [hj'] at hstands
      have hlocked := hs.stands i
      rw [hi] at hlocked
      refine ⟨body', hbody'.mono hpast, hwithin'.of_rows fun k hk => ?_⟩
      -- The row is locked by the other transaction, so this one has not changed it.
      have hnone : pending k = none := by
        by_contra hsome
        have hmine := hlocked.2 k (Option.isSome_iff_ne_none.mpr hsome)
        rw [hstands.2 k hk] at hmine
        exact hji (Option.some.inj hmine)
      show view s.rows pending k = s.rows k
      unfold view
      rw [hnone, Option.getD_none]
  · rcases List.mem_append.mp hb with hold | hnew
    · obtain ⟨body', rescue', before, after, htraced, hbefore, hrun', hafter⟩ := h.committed j b hold
      exact ⟨body', rescue', before, after, htraced, hbefore, hrun', htrans hafter hstep⟩
    · cases List.mem_singleton.mp hnew
      exact ⟨body, rescue, s.rows, _, hbody, hs.kept, hrun, hrefl _⟩

theorem explained_execute (hs : Consistent P fits scripts rows₀ s)
    (hrefl : ∀ rows, later rows rows) (h : Explained P later fits scripts s) {i : ι}
    {pending : Pending V} {st : S} {next : Option (V (db.key st)) → Program db α}
    {rescue : ε → Script db α} (hi : s.sessions i = .writing pending (.execute st next) rescue)
    (hfits : s.waits i st (view s.rows pending (db.key st)) = false →
      fits st (view s.rows pending (db.key st))) :
    Explained P later fits scripts (s.execute i pending st next rescue) := by
  obtain ⟨body, hbody, hwithin⟩ := h.writing i _ _ _ hi
  unfold State.execute
  by_cases hidle : db.idle st (view s.rows pending (db.key st)) = true
  · rw [if_pos hidle]
    have hgo := hfits (by unfold State.waits; rw [hidle]; rfl)
    exact h.write hbody (.idle _ hwithin hidle hgo)
  · rw [if_neg hidle]
    by_cases hwaits : s.waits i st (view s.rows pending (db.key st)) = true
    · rw [if_pos hwaits]
      exact h
    · rw [if_neg hwaits]
      cases hrun : db.run st (view s.rows pending (db.key st)) with
      | error e =>
        exact h.goOn (.rescue ⟨hs.kept, hrefl _⟩ hbody (hwithin.fails (.refuse hrun)))
      | ok row' => exact h.write hbody (.step hwithin hrun (hfits (Bool.not_eq_true _ ▸ hwaits)))

theorem rows_next (s : State db ι α) (m : Move ι) :
    (s.next m).rows = s.rows ∨ ∃ i pending a rescue, m = .proceed i ∧
      s.sessions i = .writing pending (.commit a) rescue ∧
      (s.next m).rows = view s.rows pending := by
  cases m with
  | lose i =>
    refine Or.inl ?_
    show (s.lose i).rows = s.rows
    unfold State.lose
    split <;> rfl
  | proceed i =>
    have hnext : s.next (.proceed i) = s.proceed i := rfl
    rw [hnext]
    cases hi : s.sessions i with
    | lost => exact Or.inl (by unfold State.proceed; rw [hi])
    | ready left => exact Or.inl (by unfold State.proceed; rw [hi]; cases left <;> rfl)
    | writing pending program rescue =>
      cases program with
      | commit a =>
        refine Or.inr ⟨i, pending, a, rescue, rfl, hi, ?_⟩
        unfold State.proceed
        rw [hi]
        rfl
      | raise e => exact Or.inl (by unfold State.proceed; rw [hi]; rfl)
      | execute st next =>
        refine Or.inl ?_
        unfold State.proceed
        rw [hi]
        show (s.execute i pending st next rescue).rows = s.rows
        unfold State.execute
        dsimp only
        split
        · rfl
        · split
          · rfl
          · split <;> rfl

/-- **Every step explains itself.** -/
theorem explained_next (hrefl : ∀ rows, later rows rows)
    (htrans : ∀ {a b c}, later a b → later b c → later a c)
    (hlater : ∀ i, Does P fits (scripts i) fun rows rows' _ => later rows rows')
    (hs : Consistent P fits scripts rows₀ s) (h : Explained P later fits scripts s) (m : Move ι)
    (hfits : Fitting fits s m) : Explained P later fits scripts (s.next m) := by
  cases m with
  | lose i =>
    show Explained P later fits scripts (s.lose i)
    unfold State.lose
    split
    next => exact h
    next => exact h
    next => exact h.update (fun _ hready => nomatch hready) fun _ _ _ hwriting => nomatch hwriting
  | proceed i =>
    show Explained P later fits scripts (s.proceed i)
    simp only [Fitting] at hfits
    unfold State.proceed
    cases hi : s.sessions i with
    | lost => exact h
    | ready left =>
      cases left with
      | answer a => exact h
      | raised e => exact h
      | select k next =>
        rcases h.ready i _ hi with htraced | ⟨a, ha, -⟩
        · exact h.goOn (.select ⟨hs.kept, hrefl _⟩ htraced)
        · cases ha
      | transaction body rescue =>
        rcases h.ready i _ hi with htraced | ⟨a, ha, -⟩
        · exact h.write htraced .start
        · cases ha
    | writing pending program rescue =>
      rw [hi] at hfits
      cases program with
      | commit a => exact explained_commit hrefl htrans hlater hs h hi
      | raise e =>
        obtain ⟨body, hbody, hwithin⟩ := h.writing i _ _ _ hi
        exact h.goOn (.rescue ⟨hs.kept, hrefl _⟩ hbody (hwithin.fails (.raise _ e)))
      | execute st next => exact explained_execute hs hrefl h hi hfits

end Explained

end Sessions
