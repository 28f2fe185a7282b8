import Cloudscale.Entrypoints.Retention
import Cloudscale.Ledger.Holds

/-!
# Ids across retention

A run whose inputs are calls and retention batches.  Pruning is a run of batches
(`pruneResults_run`), and a batch takes no event away, so the log stays coherent as
long as every call meets `Store.Opening`: a set or a hold that a call would open,
under an id without a stored result, has an id that the log does not know.
Then the ids of the log stay apart (`ids_apart_across_retention`).

Nothing in the code makes a call meet the condition once the result is pruned.
-/

namespace Cloudscale

open Checked Python Account

/-- A call, or one batch of the retention job. -/
inductive LedgerInput
  | call (call : Call)
  | batch (cutoff : Datetime) (policy : RetentionPolicy)

def step (s : Store) : LedgerInput → Store
  | .call call => next s call
  | .batch cutoff policy => (s.resultsBatch cutoff policy).2

/-- What an input appended to the log. -/
def added (s : Store) : LedgerInput → List EventRow
  | .call call => appended s call
  | .batch _ _ => []

/-- A call opens no set and no hold under an id of the log. -/
def KeepsIds (s : Store) : LedgerInput → Prop
  | .call call => s.Opening call
  | .batch _ _ => True

def storeThrough (inputs : List LedgerInput) : Store := Runs.run step .empty inputs

theorem storeThrough_append (inputs inputs' : List LedgerInput) :
    storeThrough (inputs ++ inputs') = Runs.run step (storeThrough inputs) inputs' :=
  Runs.run_append step Store.empty inputs inputs'

/-- One call of the run appended both rows. -/
def AddedTogether (inputs : List LedgerInput) (x y : EventRow) : Prop :=
  ∃ before call after, inputs = before ++ .call call :: after ∧
    x ∈ appended (storeThrough before) call ∧ y ∈ appended (storeThrough before) call

/-! ### Pruning is a run of batches -/

theorem batched_run {cutoff : Datetime} {policy : RetentionPolicy} : ∀ (fuel : Nat)
    {report report' : RetentionReport} {s s' : Store},
    batched (·.resultsBatch cutoff policy) fuel report s = some (report', s') →
    ∃ n, s' = Runs.run step s (List.replicate n (.batch cutoff policy)) := by
  intro fuel
  induction fuel with
  | zero => intro _ _ _ _ h; cases h
  | succ fuel ih =>
    intro report report' s s' h
    rw [batched] at h
    dsimp only at h
    split at h
    next =>
      cases h
      exact ⟨1, rfl⟩
    next =>
      obtain ⟨n, hn⟩ := ih h
      exact ⟨n + 1, hn⟩

/-- **A retention prune is a run of batches.** -/
theorem pruneResults_run {cutoff : Datetime} {policy : RetentionPolicy} {report : RetentionReport}
    {s s' : Store} (h : pruneResults cutoff policy s = some (report, s')) :
    ∃ n, s' = Runs.run step s (List.replicate n (.batch cutoff policy)) :=
  batched_run _ h

/-! ### One input -/

section Steps

variable {s : Store} {input : LedgerInput}

theorem Store.Coherent.of_events {s' : Store} (h : s.Coherent) (hevents : s'.events = s.events) :
    s'.Coherent := by
  obtain ⟨events, results⟩ := s'
  cases hevents
  exact ⟨⟨h.readable.current, h.readable.numbered, h.readable.folds⟩, h.shapes⟩

theorem coherent_step (h : s.Coherent) (hkeeps : KeepsIds s input) : (step s input).Coherent := by
  cases input with
  | call call => exact h.next hkeeps
  | batch cutoff policy => exact h.of_events rfl

theorem Store.Readable.step (h : s.Readable) (input : LedgerInput) : (step s input).Readable := by
  cases input with
  | call call => exact h.next call
  | batch cutoff policy => exact ⟨h.current, h.numbered, h.folds⟩

theorem step_events (h : s.Readable) : (step s input).events = s.events ++ added s input := by
  cases input with
  | call call => exact next_events h call
  | batch cutoff policy => exact (List.append_nil _).symm

theorem added_excludes (h : s.Coherent) (hkeeps : KeepsIds s input) :
    ∀ x ∈ s.events, ∀ y ∈ added s input, ¬ SameSet x y := by
  cases input with
  | call call => exact appended_excludes h hkeeps
  | batch cutoff policy => exact fun _ _ _ hy => nomatch hy

def SameOriginal (x y : EventRow) : Prop :=
  x.event.reverts ≠ none ∧ x.event.reverts = y.event.reverts

theorem SameOriginal.symm {x y : EventRow} (h : SameOriginal x y) : SameOriginal y x :=
  ⟨h.2 ▸ h.1, h.2.symm⟩

/-- What reverts a set was decided when nothing in the log did. -/
theorem Decided.once {request : NormalizedCommand} {now : Datetime} {events : List AccountEvent}
    (hdecided : Decided s request now events) {e : AccountEvent} (he : e ∈ events) {t : UUID}
    (ht : e.reverts = some t) : s.revertedBy t = .ok none := by
  cases hdecided with
  | deposit | withdraw | hold | release =>
    rw [List.mem_singleton.mp he] at ht
    cases ht
  | postings command admits posted =>
    obtain ⟨leg, -, hleg⟩ := exists_of_mem_right posted e he
    cases isPosting_of_ok hleg <;> cases ht
  | capture command found can captured =>
    cases captured with
    | whole =>
      simp only [List.mem_cons, List.not_mem_nil, or_false] at he
      rcases he with rfl | rfl <;> cases ht
    | part =>
      simp only [List.mem_cons, List.not_mem_nil, or_false] at he
      rcases he with rfl | rfl | rfl <;> cases ht
  | reversal command revertible once mirrored =>
    obtain ⟨leg, -, hleg, -⟩ := exists_of_mem_right mirrored e he
    rw [hleg.isLeg.2.2] at ht
    cases ht
    exact once

theorem appended_excludes_original (h : s.Coherent) {call : Call} :
    ∀ x ∈ s.events, ∀ y ∈ appended s call, ¬ SameOriginal x y := by
  intro x hx y hy hsame
  obtain ⟨events, -, -, decided, hevent, -⟩ := decided_of_mem_appended h.readable hy
  obtain ⟨t, ht⟩ := Option.ne_none_iff_exists'.mp hsame.1
  have honce := decided.once hevent (hsame.2 ▸ ht)
  rw [Store.revertedBy_eq_none] at honce
  exact honce x hx ht

theorem added_excludes_original (h : s.Coherent) :
    ∀ x ∈ s.events, ∀ y ∈ added s input, ¬ SameOriginal x y := by
  cases input with
  | batch cutoff policy => exact fun _ _ _ hy => nomatch hy
  | call call => exact appended_excludes_original h

end Steps

/-! ### Runs -/

theorem coherent_storeThrough (inputs : List LedgerInput)
    (h : Runs.Along step KeepsIds .empty inputs) : (storeThrough inputs).Coherent :=
  Runs.run_invariant_along (fun _ _ hs hgood => coherent_step hs hgood) inputs
    Store.coherent_empty h

/-- Rows that exclude each other across inputs are the rows of one call. -/
theorem addedTogether_of {R : EventRow → EventRow → Prop} (hsymm : ∀ x y, R x y → R y x)
    (hexcl : ∀ s input, s.Coherent → KeepsIds s input → ∀ x ∈ s.events, ∀ y ∈ added s input, ¬ R x y)
    {inputs : List LedgerInput} (h : Runs.Along step KeepsIds .empty inputs) {x y : EventRow}
    (hx : x ∈ (storeThrough inputs).events) (hy : y ∈ (storeThrough inputs).events)
    (hxy : R x y) : AddedTogether inputs x y := by
  obtain ⟨before, input, after, rfl, hxadded, hyadded⟩ :=
    Runs.added_together Store.events added (P := Store.Coherent) hsymm
      (fun _ _ hs hgood => coherent_step hs hgood) (fun _ _ hs => step_events hs.readable) hexcl hxy inputs
      Store.coherent_empty h List.not_mem_nil List.not_mem_nil hx hy
  cases input with
  | call call => exact ⟨before, call, after, rfl, hxadded, hyadded⟩
  | batch cutoff policy => cases hxadded

/-- **The ids of the log are apart**: no read merges what two calls wrote, and
what is held can be released. -/
structure IdsApart (inputs : List LedgerInput) : Prop where
  sets : ∀ x ∈ (storeThrough inputs).events, ∀ y ∈ (storeThrough inputs).events,
    SameSet x y → AddedTogether inputs x y
  reversals : ∀ x ∈ (storeThrough inputs).events, ∀ y ∈ (storeThrough inputs).events,
    SameOriginal x y → AddedTogether inputs x y
  legs : ∀ t, (storeThrough inputs).legsOf t =
      .ok (((storeThrough inputs).setOf t).map EventRow.event) ∧
    ((legsOfRows ((storeThrough inputs).setOf t)).map MovementLeg.accountId).Nodup
  holds : ∀ a t hold, (storeThrough inputs).openHold a t = .ok (some hold) →
    ∃ r p, (storeThrough inputs).setOf t = [r] ∧ r.event = .holdPlaced p ∧ p.accountId = a ∧
      hold = openHoldOf p
  held : ∀ a, ((storeThrough inputs).account a).held =
    ∑ t ∈ (storeThrough inputs).holdIds a, (storeThrough inputs).openAmount a t
  releasable : ∀ (c : VoidHold) (hold : OpenHold) (now : Datetime),
    (storeThrough inputs).openHold c.accountId c.holdId = .ok (some hold) →
    ((storeThrough inputs).account c.accountId).version ≠ maxSignedBigint →
    ∃ released, decideReleaseHold .void ((storeThrough inputs).account c.accountId) (some hold) c
      now = .ok released

/-- **Ids stay apart across retention** in every run whose calls open no set and no
hold under an id that the log has. -/
theorem ids_apart_across_retention (inputs : List LedgerInput)
    (h : Runs.Along step KeepsIds .empty inputs) : IdsApart inputs := by
  have hs := coherent_storeThrough inputs h
  constructor
  case sets =>
    intro x hx y hy hsame
    exact addedTogether_of (fun _ _ h => h.symm) (fun _ _ hs hgood => added_excludes hs hgood) h hx
      hy hsame
  case reversals =>
    intro x hx y hy hsame
    exact addedTogether_of (fun _ _ h => h.symm) (fun _ _ hs _ => added_excludes_original hs) h hx
      hy hsame
  case legs => exact fun t => ⟨Store.legsOf_eq hs.readable t, (hs.shapes t).legs_nodup⟩
  case holds => exact fun a t hold hopen => hs.openHold_eq_some.mp hopen
  case held => exact hs.held_eq_sum_open
  case releasable =>
    intro c hold now hfound hversion
    obtain ⟨released, -, -, hok⟩ := hs.decideReleaseHold_of .void hfound
      (fun hkind => nomatch hkind) hversion
    exact ⟨released, hok⟩

/-! ### Calls of two accounts -/

theorem validAccountId_alice : ValidAccountId "alice" := by decide

theorem validAccountId_bob : ValidAccountId "bob" := by decide

theorem alice_ne_bob : "alice" ≠ "bob" := by decide

theorem validAmount_fifty : ValidAmount 50 := by decide

theorem validAmount_hundred : ValidAmount 100 := by decide

theorem validExpectedVersion_zero : ValidExpectedVersion 0 := by decide

theorem validExpectedVersion_one : ValidExpectedVersion 1 := by decide

theorem validExpectedVersion_two : ValidExpectedVersion 2 := by decide

theorem minute_pos : (1 : Int) ≤ 60 := by decide

/-- Midnight, a number of days after the first of January 1970. -/
def dayAfterEpoch (day : Nat) (h : day < 31 := by decide) : Datetime :=
  ⟨1970, 1, 1 + day, 0, 0, 0, 0, ⟨by decide, by decide, by omega, by
    rw [show daysInMonth 1970 1 = 31 from rfl]; omega⟩, Datetime.epoch.time_ok⟩

def deposit100 : Call :=
  .of (.deposit ⟨"alice", 100, 0, validAccountId_alice, validAmount_hundred,
    validExpectedVersion_zero⟩) ⟨1⟩ .epoch 10

/-- A hold of 50 on the first account, at a version and a time. -/
def hold50 (expectedVersion : Int) (h : ValidExpectedVersion expectedVersion) (now : Datetime)
    (firstEvent : Nat) : Call :=
  .of (.hold ⟨"alice", "bob", 50, expectedVersion, 60, validAccountId_alice, validAccountId_bob,
    alice_ne_bob, validAmount_fifty, h, minute_pos⟩) ⟨2⟩ now firstEvent

def void50 : Call :=
  .of (.voidHold ⟨"alice", ⟨2⟩, 2, validAccountId_alice, validExpectedVersion_two⟩) ⟨3⟩ .epoch 30

/-- The result of a hold is pruned and its id not used again. -/
theorem ids_apart_hold :
    IdsApart [.call deposit100, .call (hold50 1 (by decide) .epoch 20),
      .batch (dayAfterEpoch 1) ⟨5000, by decide⟩] := by
  refine ids_apart_across_retention _ ⟨(fun h => nomatch h), fun _ _ _ _ => ?_, trivial,
    trivial⟩
  decide +kernel

/-- **An id is used again once its result is pruned**: a hold is placed and voided,
and a week later placed again under the same command id.  The log has two
placements of one id, and the funds of the second stay held for ever: there is no
open hold to release. -/
theorem hold_id_used_twice :
    let inputs : List LedgerInput := [.call deposit100, .call (hold50 1 (by decide) .epoch 20),
      .call void50, .batch (dayAfterEpoch 1) ⟨5000, by decide⟩,
      .call (hold50 3 (by decide) (dayAfterEpoch 8) 40)]
    (∃ x ∈ (storeThrough inputs).events, ∃ y ∈ (storeThrough inputs).events,
        SameSet x y ∧ x.occurredAt ≠ y.occurredAt) ∧
      ((storeThrough inputs).account "alice").held = 50 ∧
      (∀ t ∈ (storeThrough inputs).holdIds "alice", (storeThrough inputs).openAmount "alice" t = 0) ∧
      ¬ IdsApart inputs := by
  intro inputs
  have hheld : ((storeThrough inputs).account "alice").held = 50 := by decide +kernel
  have hopen : ∀ t ∈ (storeThrough inputs).holdIds "alice",
      (storeThrough inputs).openAmount "alice" t = 0 := by decide +kernel
  refine ⟨by decide +kernel, hheld, hopen, fun hapart => ?_⟩
  have hsum := hapart.held "alice"
  rw [Finset.sum_eq_zero hopen, hheld] at hsum
  exact absurd hsum (by decide)

end Cloudscale
