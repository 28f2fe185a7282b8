import Cloudscale.Lib.Sessions

/-!
# One connection whose transactions stay open

A connection runs scripts of `Sessions` alone on its database.  Any of its statements can
raise a transient fault, and so can a commit.  Neither that nor an error of a statement ends
the transaction: what it has written so far stays pending, and the connection sees it in
whatever it runs next.  A transaction ends with a commit, or with the rollback in front of a
rescue.

`execute_sequence` says what becomes of statements one after the other: all of them are
committed, or the first of them are pending.
-/

namespace Connections

open Sessions

variable {K : Type} {V : K → Type} {S ε Λ α : Type}

/-- The committed rows, and those of a transaction that is open. -/
structure Connection (V : K → Type) where
  rows : Rows V
  pending : Option (Rows V)

namespace Connection

variable (c : Connection V)

def seen : Rows V := c.pending.getD c.rows

def write (rows : Rows V) : Connection V := ⟨c.rows, some rows⟩

def commit : Connection V := ⟨c.seen, none⟩

def rollback : Connection V := ⟨c.rows, none⟩

@[simp] theorem seen_rollback : c.rollback.seen = c.rows := rfl

end Connection

/-- What a connection meets: the fault, the errors that are rescued, and the statements
that raise the fault, by their number. -/
structure Conditions (ε : Type) where
  busy : ε
  rescued : ε → Bool
  faults : ℕ → Bool

variable [DecidableEq K] (db : Database K V S ε Λ) (on : Conditions ε)

/-- The statements of a transaction, from a number on. -/
def execute : Program db α → ℕ → Connection V → Except ε α × ℕ × Connection V
  | .commit a, n, c => if on.faults n then (.error on.busy, n + 1, c) else (.ok a, n + 1, c.commit)
  | .raise e, n, c => (.error e, n, c)
  | .execute st next, n, c =>
    if on.faults n then (.error on.busy, n + 1, c.write c.seen)
    else
      match db.run st (c.seen (db.key st)) with
      | .error e => (.error e, n + 1, c.write c.seen)
      | .ok row => execute (next (c.seen (db.key st))) (n + 1)
          (c.write (Function.update c.seen (db.key st) row))

/-- A script, from a number on.  An error that is not rescued leaves the transaction open. -/
def run : Script db α → ℕ → Connection V → Except ε α × ℕ × Connection V
  | .answer a, n, c => (.ok a, n, c)
  | .raised e, n, c => (.error e, n, c)
  | .select k next, n, c =>
    if on.faults n then (.error on.busy, n + 1, c) else run (next (c.seen k)) (n + 1) c
  | .transaction body rescue, n, c =>
    match execute db on body n c with
    | (.ok a, n', c') => (.ok a, n', c')
    | (.error e, n', c') =>
      if on.rescued e then run (rescue e) n' c'.rollback else (.error e, n', c')

variable {db on}

/-! ### Statements one after the other -/

theorem executeAll_append (sts sts' : List S) (rows : Rows V) :
    db.executeAll (sts ++ sts') rows = db.executeAll sts rows >>= db.executeAll sts' :=
  List.foldlM_append

theorem executeAll_cons_ok {st : S} {sts : List S} {rows rows' : Rows V} :
    db.executeAll (st :: sts) rows = .ok rows' ↔
      ∃ row, db.run st (rows (db.key st)) = .ok row ∧
        db.executeAll sts (Function.update rows (db.key st) row) = .ok rows' := by
  rw [executeAll_cons]
  cases hrun : db.run st (rows (db.key st)) with
  | error e => exact ⟨(fun h => nomatch h), fun ⟨_, h, _⟩ => nomatch h⟩
  | ok row => exact ⟨fun h => ⟨row, rfl, h⟩, fun ⟨_, hrow, h⟩ => Except.ok.inj hrow ▸ h⟩

theorem executeAll_frame {k : K} : ∀ {sts : List S} {rows rows' : Rows V},
    db.executeAll sts rows = .ok rows' → (∀ st ∈ sts, db.key st ≠ k) → rows' k = rows k := by
  intro sts
  induction sts with
  | nil =>
    intro rows rows' h _
    cases h
    rfl
  | cons st sts ih =>
    intro rows rows' h hk
    obtain ⟨row, -, h⟩ := executeAll_cons_ok.mp h
    rw [ih h fun st' hst => hk st' (List.mem_cons_of_mem _ hst),
      Function.update_of_ne (Ne.symm (hk st List.mem_cons_self))]

theorem executeAll_row {k : K} : ∀ {sts : List S} {rows₁ rows₂ rows₁' rows₂' : Rows V},
    db.executeAll sts rows₁ = .ok rows₁' → db.executeAll sts rows₂ = .ok rows₂' →
    rows₁ k = rows₂ k → rows₁' k = rows₂' k := by
  intro sts
  induction sts with
  | nil =>
    intro rows₁ rows₂ rows₁' rows₂' h₁ h₂ h
    cases h₁
    cases h₂
    exact h
  | cons st sts ih =>
    intro rows₁ rows₂ rows₁' rows₂' h₁ h₂ h
    obtain ⟨row₁, hrun₁, h₁⟩ := executeAll_cons_ok.mp h₁
    obtain ⟨row₂, hrun₂, h₂⟩ := executeAll_cons_ok.mp h₂
    refine ih h₁ h₂ ?_
    by_cases hk : k = db.key st
    · subst hk
      rw [h] at hrun₁
      rw [Function.update_self, Function.update_self]
      exact Except.ok.inj (hrun₁.symm.trans hrun₂)
    · rw [Function.update_of_ne hk, Function.update_of_ne hk, h]

/-- How statements end that are committed at last, when they are counted from a number on:
with the answer, or some of them are pending. -/
inductive Sequenced (db : Database K V S ε Λ) (on : Conditions ε) (a : α) (sts : List S) (n : ℕ)
    (c : Connection V) : Except ε α → Connection V → Prop
  | committed {rows : Rows V} (hall : db.executeAll sts c.seen = .ok rows)
      (hquiet : ∀ m ≤ sts.length, on.faults (n + m) = false) :
      Sequenced db on a sts n c (.ok a) ⟨rows, none⟩
  | faulted (done left : List S) {c' : Connection V} (hsts : sts = done ++ left)
      (hdone : db.executeAll done c.seen = .ok c'.seen) (hrows : c'.rows = c.rows)
      (hfault : on.faults (n + done.length) = true)
      (hbefore : ∀ m < done.length, on.faults (n + m) = false) :
      Sequenced db on a sts n c (.error on.busy) c'
  | failed (done left : List S) {st : S} {e : ε} {c' : Connection V}
      (hsts : sts = done ++ st :: left) (hdone : db.executeAll done c.seen = .ok c'.seen)
      (hrows : c'.rows = c.rows) (hrun : db.run st (c'.seen (db.key st)) = .error e) :
      Sequenced db on a sts n c (.error e) c'

theorem Sequenced.cons {a : α} {st : S} {sts : List S} {n : ℕ} {c : Connection V}
    {row : Option (V (db.key st))} (hrun : db.run st (c.seen (db.key st)) = .ok row)
    (hn : on.faults n = false) {result : Except ε α} {c' : Connection V}
    (h : Sequenced db on a sts (n + 1) (c.write (Function.update c.seen (db.key st) row)) result c') :
    Sequenced db on a (st :: sts) n c result c' := by
  cases h with
  | committed hall hquiet =>
    refine .committed (executeAll_cons_ok.mpr ⟨row, hrun, hall⟩) fun m hm => ?_
    cases m with
    | zero => exact hn
    | succ m =>
      rw [Nat.add_comm m, ← Nat.add_assoc]
      exact hquiet m (Nat.le_of_succ_le_succ hm)
  | faulted done left hsts hdone hrows hfault hbefore =>
    refine .faulted (st :: done) left (by rw [hsts]; rfl)
      (executeAll_cons_ok.mpr ⟨row, hrun, hdone⟩) hrows ?_ fun m hm => ?_
    · rw [List.length_cons, Nat.add_comm done.length, ← Nat.add_assoc]
      exact hfault
    · cases m with
      | zero => exact hn
      | succ m =>
        rw [Nat.add_comm m, ← Nat.add_assoc]
        exact hbefore m (Nat.lt_of_succ_lt_succ hm)
  | failed done left hsts hdone hrows hrun' =>
    exact .failed (st :: done) left (by rw [hsts]; rfl)
      (executeAll_cons_ok.mpr ⟨row, hrun, hdone⟩) hrows hrun'

variable (db on) in
/-- **What becomes of statements one after the other.** -/
theorem execute_sequence (a : α) : ∀ (sts : List S) (n : ℕ) (c : Connection V),
    Sequenced db on a sts n c (execute db on (.sequence sts (.commit a)) n c).1
      (execute db on (.sequence sts (.commit a)) n c).2.2 := by
  intro sts
  induction sts with
  | nil =>
    intro n c
    show Sequenced db on a [] n c (if on.faults n then _ else _ : Except ε α × ℕ × Connection V).1
      (if on.faults n then _ else _ : Except ε α × ℕ × Connection V).2.2
    split
    next hfault => exact .faulted [] [] rfl rfl rfl hfault fun _ h => nomatch h
    next hquiet =>
      refine .committed rfl fun m hm => ?_
      rw [Nat.le_zero.mp hm]
      exact Bool.eq_false_iff.mpr hquiet
  | cons st sts ih =>
    intro n c
    have hstep : execute db on (.sequence (st :: sts) (.commit a)) n c =
        if on.faults n then (.error on.busy, n + 1, c.write c.seen)
        else
          match db.run st (c.seen (db.key st)) with
          | .error e => (.error e, n + 1, c.write c.seen)
          | .ok row => execute db on (.sequence sts (.commit a)) (n + 1)
              (c.write (Function.update c.seen (db.key st) row)) := rfl
    rw [hstep]
    split
    next hfault =>
      exact .faulted [] (st :: sts) rfl rfl rfl hfault fun _ h => nomatch h
    next hn =>
      cases hrun : db.run st (c.seen (db.key st)) with
      | error e => exact .failed [] sts rfl rfl rfl hrun
      | ok row => exact (ih (n + 1) _).cons hrun (Bool.not_eq_true _ ▸ hn)

end Connections
