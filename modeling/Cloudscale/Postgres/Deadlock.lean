import Cloudscale.Postgres.Attempts
import Mathlib.Data.Int.ConditionallyCompleteOrder
import Mathlib.Data.Prod.Lex
import Mathlib.Logic.Relation

/-!
# Attempts do not wait for each other in a circle

An attempt waits at a statement for a key that another open attempt has.  An attempt
that has taken a command id, or the lock of the relay, takes no other key
(`WaitsFor.version`), and nobody waits for the row of a snapshot.  What is left are the
versions of streams, and each attempt takes them in one order (`Before`), so what is waited
for grows along every chain (`awaited_lt`).

Event ids are drawn afresh for every insert, so they are not counted as keys.
-/

namespace Cloudscale.Postgres

open ReadCommitted LogRow

/-- A relation along which a measure grows, as long as it goes on, has no cycle. -/
theorem not_transGen_self {α β : Type} [Preorder β] {r : α → α → Prop} {f : α → β}
    (h : ∀ i j k, r i j → r j k → f i < f j) (i : α) : ¬ Relation.TransGen r i i := by
  have hchain : ∀ {j}, Relation.TransGen r i j → ∀ k, r j k → f i < f j := by
    intro j hij
    induction hij with
    | single hfirst => exact fun k hk => h _ _ _ hfirst hk
    | tail _ hlast ih => exact fun k hk => (ih _ hlast).trans (h _ _ _ hlast hk)
  intro hcycle
  obtain ⟨k, hk, -⟩ := Relation.TransGen.head'_iff.mp hcycle
  exact lt_irrefl _ (hchain hcycle k hk)

variable {Row : Type} [LogRow Row] {ι : Type}

/-- The keys that attempts have in common: versions of streams, rows of snapshots, command ids. -/
def Key.IsShared : Key → Prop
  | .event _ => False
  | _ => True

instance : DecidablePred Key.IsShared := fun k => by
  cases k <;> unfold Key.IsShared <;> infer_instance

/-- The session is at this statement, and has written this. -/
structure At (s : Callers Row ι) (i : ι) (op : Statement Row) (own : Written Row) : Prop where
  phase : ∃ attempt past rest, (s.sessions i).phase = .running attempt past own (.call op rest)

/-- **The wait-for graph**: one session is at a statement for a key that the other one has. -/
def WaitsFor (s : Callers Row ι) (i j : ι) : Prop :=
  i ≠ j ∧ ∃ op own, At s i op own ∧ ∃ k ∈ op.keys, k.IsShared ∧
    ∃ own' ∈ (s.sessions j).phase.own?, k ∈ own'.keys

/-- The version that a session is about to take, before everything else. -/
def awaited (s : Callers Row ι) (i : ι) : WithTop (String ×ₗ Int) :=
  match (s.sessions i).phase with
  | .running _ _ _ (.call (.insertEvent _ row) _) => ((toLex (stream row, seq row) : String ×ₗ Int) : WithTop _)
  | _ => ⊤

/-- The keys that a session is about to take. -/
def keysAhead (s : Callers Row ι) (i : ι) : List Key :=
  match (s.sessions i).phase with
  | .running _ _ _ (.call op _) => op.keys
  | _ => []

theorem waitsFor_of_keysAhead {s : Callers Row ι} {i j : ι} (hne : i ≠ j)
    (h : ∃ k ∈ keysAhead s i, k.IsShared ∧ ∃ own ∈ (s.sessions j).phase.own?, k ∈ own.keys) :
    WaitsFor s i j := by
  obtain ⟨k, hk, hheld⟩ := h
  rw [keysAhead] at hk
  split at hk
  next attempt past own op rest hphase =>
    exact ⟨hne, op, own, ⟨attempt, past, rest, hphase⟩, k, hk, hheld⟩
  next => cases hk

omit [LogRow Row] in
theorem At.own_mem {s : Callers Row ι} {i : ι} {op : Statement Row} {own : Written Row}
    (h : At s i op own) : own ∈ (s.sessions i).phase.own? := by
  obtain ⟨attempt, past, rest, hphase⟩ := h.phase
  rw [hphase]
  rfl

section Waiting

variable {s : Callers Row ι} (hs : s.Sound) {i j k : ι}

include hs

theorem At.owes {op : Statement Row} {own : Written Row} (h : At s i op own) :
    Owes op s.shared own := by
  obtain ⟨attempt, past, rest, hphase⟩ := h.phase
  exact hs.owes hphase

/-- A session that waits has no key but versions, event ids and rows of snapshots. -/
theorem WaitsFor.unheld (h : WaitsFor s i j) {own : Written Row}
    (hown : own ∈ (s.sessions i).phase.own?) : own.results = [] ∧ own.relaying = false := by
  obtain ⟨-, op, own', hat, k, hk, -⟩ := h
  cases Option.some.inj (hown.symm.trans hat.own_mem)
  exact (hat.owes hs).unheld (List.ne_nil_of_mem hk)

/-- **What is waited for, if its holder waits too, is a version** of a row that the holder has
written. -/
theorem WaitsFor.version (h : WaitsFor s i j) (hwaits : WaitsFor s j k) :
    ∃ id row own, At s i (.insertEvent id row) own ∧ ∃ own' ∈ (s.sessions j).phase.own?,
      ∃ r ∈ own'.events, stream r.2 = stream row ∧ seq r.2 = seq row := by
  obtain ⟨hne, op, own, hat, key, hkey, hshared, own', hown', hmem⟩ := h
  obtain ⟨hresults, hrelaying⟩ := hwaits.unheld hs hown'
  rw [Written.keys, hresults, hrelaying] at hmem
  cases op with
  | insertEvent id row =>
    refine ⟨id, row, own, hat, own', hown', ?_⟩
    have hversion : key = .version (stream row) (seq row) := by
      simp only [Statement.keys, List.mem_cons, List.not_mem_nil, or_false] at hkey
      rcases hkey with rfl | rfl
      · rfl
      · cases hshared
    subst hversion
    simpa using hmem
  | writeSnapshot name =>
    -- Both have rows on the stream, so they would have a version in common.
    rw [List.mem_singleton.mp hkey] at hmem
    have hsnapshot : name ∈ own'.snapshots := by simpa using hmem
    obtain ⟨r, hr, hstream⟩ := (hat.owes hs).snapshot name rfl
    obtain ⟨r', hr', hstream'⟩ := (hs.owns j hown').snapshots name hsnapshot
    refine absurd (hstream.trans hstream'.symm) ?_
    exact apart_of_not_clash (hs.owns i hat.own_mem) (hs.owns j hown')
      (hs.apart i j hne own hat.own_mem own' hown') hr hr'
  | insertResult row =>
    rw [List.mem_singleton.mp hkey] at hmem
    simp at hmem
  | lockRelay =>
    rw [List.mem_singleton.mp hkey] at hmem
    simp at hmem
  | storedResult | foldStream | openHold | legsOf | revertedBy | reading | issue | nextId | nextSeq
  | pending | head | insertOutbox | markPublished | feed => cases hkey

/-- **What is waited for grows along a chain.** -/
theorem awaited_lt (h : WaitsFor s i j) (hwaits : WaitsFor s j k) : awaited s i < awaited s j := by
  obtain ⟨id, row, own, ⟨attempt, past, rest, hphase⟩, own₁, hown₁, r, hr, hstream, hseq⟩ :=
    h.version hs hwaits
  obtain ⟨-, op, own', hat, -⟩ := hwaits
  cases Option.some.inj (hown₁.symm.trans hat.own_mem)
  obtain ⟨attempt', past', rest', hphase'⟩ := hat.phase
  rw [awaited, awaited, hphase, hphase']
  dsimp only
  split
  next id' row' _ heq =>
    cases heq
    have hbefore := (((hat.owes hs).inserts id' row' rfl).last r hr).2
    rw [WithTop.coe_lt_coe, Prod.Lex.toLex_lt_toLex, ← hstream, ← hseq]
    exact hbefore
  next => exact WithTop.coe_lt_top _

end Waiting

variable [DecidableEq ι] [∀ s : Callers Row ι, ∀ i op, Decidable (s.Waits engine i op)]

/-- **Attempts do not wait for each other in a circle**, in any state of any run. -/
theorem wait_for_acyclic {db : Database Row} (hdb : Numbered db) (queues : ι → List Execution)
    (moves : List (Move ι)) (i : ι) :
    ¬ Relation.TransGen (WaitsFor (Callers.run db queues moves)) i i :=
  not_transGen_self (fun _ _ _ h hwaits => awaited_lt (Callers.sound_run hdb queues moves) h hwaits) i

/-- **Two deposits on one account**: the first caller has written its row, and the second one,
which has come to its own, waits for it, and for nobody who waits for the second. -/
theorem wait_for_acyclic_deposits :
    let deposit (i : Fin 2) : Execution :=
      { request := .ofCommand (.deposit ⟨"alice", 100, 0, by decide, by decide, by decide⟩)
          ⟨Fin.ofNat _ i⟩ ⟨Fin.ofNat _ i⟩ "issuer" "subject" (by decide) (by decide)
        clock := fun _ _ => .epoch
        eventIds := fun _ _ => ⟨Fin.ofNat _ (10 + i)⟩
        snapshotDue := fun _ _ => false }
    let moves : List (Move (Fin 2)) :=
      List.replicate 7 (.proceed 0) ++ List.replicate 6 (.proceed 1)
    let s : Callers EventRow (Fin 2) := Callers.run .empty (fun i => [deposit i]) moves
    WaitsFor s 1 0 ∧ ¬ Relation.TransGen (WaitsFor s) 1 1 := by
  intro deposit moves s
  exact ⟨waitsFor_of_keysAhead (by decide) (by decide +kernel),
    wait_for_acyclic numbered_empty _ moves 1⟩

end Cloudscale.Postgres
