import Mathlib.Data.List.Basic
import Mathlib.Data.Nat.Notation
import Mathlib.Order.Lattice

/-!
# Polling a log by an offset

A consumer keeps its place in a log of entries with positions.  A round of `poll`
reads the next entries behind the place, at most `limit` of them, and handles each
in turn; an entry that cannot be handled stops the consumer, and a round that reads
nothing ends it.

`poll_ends` is the rule of the loop, for a handler that moves the place to the entry
it has handled: more rounds than there are entries behind the place are enough, the
entries are handled in the order of the log, and none is left out before the one that
stops the consumer.
-/

namespace Polling

variable {α P σ ε : Type} [LinearOrder P] (position : α → P) (place : σ → P)
  (handle : α → σ → Except ε Unit × σ)

def pending (log : List α) (after : P) : List α :=
  log.filter fun a => decide (after < position a)

def readAfter (log : List α) (after : P) (limit : ℕ) : List α :=
  (pending position log after).take limit

/-- Handle the entries in turn, until one stops the consumer. -/
def handleEach : List α → σ → Except ε Unit × σ
  | [], s => (.ok (), s)
  | a :: as, s =>
    match handle a s with
    | (.ok (), s') => handleEach as s'
    | (.error stop, s') => (.error stop, s')

/-- Poll the log until a read is empty or an entry stops the consumer. -/
def poll (log : List α) (limit : ℕ) : ℕ → σ → Option (Except ε Unit × σ)
  | 0, _ => none
  | rounds + 1, s =>
    match readAfter position log (place s) limit with
    | [] => some (.ok (), s)
    | a :: as =>
      match handleEach handle (a :: as) s with
      | (.ok (), s') => poll log limit rounds s'
      | (.error stop, s') => some (.error stop, s')

/-- The entries are handled one after the other, none of them stops the consumer. -/
inductive HandledAll : List α → σ → σ → Prop
  | nil (s : σ) : HandledAll [] s s
  | cons {a : α} {as : List α} {s s₁ s₂ : σ} (first : handle a s = (.ok (), s₁))
      (others : HandledAll as s₁ s₂) : HandledAll (a :: as) s s₂

variable {position place handle}

namespace HandledAll

theorem append {as bs : List α} {s s₁ s₂ : σ} (h : HandledAll handle as s s₁)
    (h' : HandledAll handle bs s₁ s₂) : HandledAll handle (as ++ bs) s s₂ := by
  induction h with
  | nil s => exact h'
  | cons first _ ih => exact .cons first (ih h')

/-- An invariant of the handled entries holds after all of them. -/
theorem induct {I : List α → σ → Prop}
    (hstep : ∀ as a s s', I as s → handle a s = (.ok (), s') → I (as ++ [a]) s')
    {as : List α} {s s' : σ} (h : HandledAll handle as s s') :
    ∀ {before : List α}, I before s → I (before ++ as) s' := by
  induction h with
  | nil s =>
    intro before hs
    rwa [List.append_nil]
  | @cons a as s s₁ s₂ first _ ih =>
    intro before hs
    have hnext := ih (hstep before a s s₁ hs first)
    rwa [List.append_assoc, List.singleton_append] at hnext

end HandledAll

variable (handle) in
theorem handleEach_cases (as : List α) (s : σ) :
    (∃ s', HandledAll handle as s s' ∧ handleEach handle as s = (.ok (), s')) ∨
      ∃ done a rest s₁ stop s', as = done ++ a :: rest ∧ HandledAll handle done s s₁ ∧
        handle a s₁ = (.error stop, s') ∧ handleEach handle as s = (.error stop, s') := by
  induction as generalizing s with
  | nil => exact Or.inl ⟨s, .nil s, rfl⟩
  | cons a as ih =>
    rw [handleEach]
    rcases hhandle : handle a s with ⟨⟨⟩ | ⟨⟩, s₁⟩
    case error stop => exact Or.inr ⟨[], a, as, s, stop, s₁, rfl, .nil s, hhandle, rfl⟩
    case ok =>
      rcases ih s₁ with ⟨s', hall, hrun⟩ | ⟨done, b, rest, s₂, stop, s', has, hdone, hstop, hrun⟩
      · exact Or.inl ⟨s', .cons hhandle hall, hrun⟩
      · exact Or.inr ⟨a :: done, b, rest, s₂, stop, s', by rw [has, List.cons_append],
          .cons hhandle hdone, hstop, hrun⟩

/-! ### The place follows the entries -/

/-- The log is in the order of its positions. -/
def Ordered (position : α → P) (log : List α) : Prop :=
  log.Pairwise fun a b => position a < position b

/-- The position of the last entry of a list, or the place before it. -/
def lastPosition (position : α → P) (before : P) (as : List α) : P :=
  (as.getLast?.map position).getD before

omit [LinearOrder P] in
theorem lastPosition_concat (before : P) (as : List α) (a : α) :
    lastPosition position before (as ++ [a]) = position a := by
  rw [lastPosition, List.getLast?_concat]
  rfl

variable (position place handle) in
/-- A handled entry, which lies behind the place, becomes the place. -/
def Advances : Prop :=
  ∀ a s s', place s < position a → handle a s = (.ok (), s') → place s' = position a

theorem Ordered.tail {a : α} {as : List α} (h : Ordered position (a :: as)) :
    Ordered position as ∧ ∀ b ∈ as, position a < position b := by
  obtain ⟨hfirst, htail⟩ := List.pairwise_cons.mp h
  exact ⟨htail, hfirst⟩

theorem place_of_handledAll (hadvances : Advances position place handle) {as : List α} {s s' : σ}
    (h : HandledAll handle as s s') (hordered : Ordered position as)
    (hbehind : ∀ a ∈ as, place s < position a) :
    place s' = lastPosition position (place s) as := by
  induction h with
  | nil s => rfl
  | @cons a as s s₁ s₂ first others ih =>
    obtain ⟨htail, hlater⟩ := hordered.tail
    have hplace := hadvances a s s₁ (hbehind a List.mem_cons_self) first
    rw [ih htail fun b hb => hplace ▸ hlater b hb, hplace]
    cases as with
    | nil => rfl
    | cons b as =>
      rw [lastPosition, lastPosition, List.getLast?_cons_cons, List.getLast?_eq_some_getLast
        (List.cons_ne_nil b as)]
      rfl

theorem ordered_pending {log : List α} (hlog : Ordered position log) (after : P) :
    Ordered position (pending position log after) := hlog.filter _

theorem lt_of_mem_pending {log : List α} {after : P} {a : α}
    (h : a ∈ pending position log after) : after < position a :=
  of_decide_eq_true (List.mem_filter.mp h).2

/-- Behind the last of the first pending entries there are the others. -/
theorem pending_lastPosition {log done rest : List α} {after : P} (hlog : Ordered position log)
    (hpending : pending position log after = done ++ rest) :
    pending position log (lastPosition position after done) = rest := by
  rcases List.eq_nil_or_concat' done with rfl | ⟨done, a, rfl⟩
  · exact hpending
  · rw [lastPosition_concat]
    have hordered := ordered_pending hlog after
    rw [hpending, List.append_assoc] at hordered
    obtain ⟨_, hrest, hcross⟩ := List.pairwise_append.mp hordered
    obtain ⟨hlater, _⟩ := List.pairwise_cons.mp hrest
    have hafter : after < position a :=
      lt_of_mem_pending (hpending ▸ List.mem_append_left _ List.mem_concat_self)
    have htwice : pending position log (position a) =
        pending position (pending position log after) (position a) := by
      rw [pending, pending, pending, List.filter_filter]
      refine List.filter_congr fun b _ => ?_
      by_cases hb : position a < position b
      · rw [decide_eq_true hb, decide_eq_true (lt_trans hafter hb), Bool.and_self]
      · rw [decide_eq_false hb, Bool.false_and]
    have hdone : ∀ b ∈ done, ¬ decide (position a < position b) = true := by
      intro b hb
      have hlt := hcross b hb a List.mem_cons_self
      exact fun h => absurd (of_decide_eq_true h) (lt_asymm hlt)
    have hself : ¬ decide (position a < position a) = true := fun h =>
      lt_irrefl _ (of_decide_eq_true h)
    have hall : rest.filter (fun b => decide (position a < position b)) = rest :=
      List.filter_eq_self.mpr fun b hb => decide_eq_true (hlater b hb)
    rw [htwice, hpending, List.append_assoc, pending, List.filter_append,
      List.filter_eq_nil_iff.mpr hdone, List.nil_append, List.singleton_append,
      List.filter_cons_of_neg (p := fun b => decide (position a < position b)) hself, hall]

/-- The next pending entry lies behind the last of those before it. -/
theorem lastPosition_lt {log done rest : List α} {a : α} {after : P} (hlog : Ordered position log)
    (hpending : pending position log after = done ++ a :: rest) :
    lastPosition position after done < position a := by
  have hrest := pending_lastPosition hlog hpending
  exact lt_of_mem_pending (hrest ▸ List.mem_cons_self)

/-! ### The rule of the loop -/

/-- How a consumer ends that has handled some of the pending entries: nothing is left, or
the next entry has stopped it. -/
inductive Ends (handle : α → σ → Except ε Unit × σ) (s : σ) : List α → Except ε Unit × σ → Prop
  | drained : Ends handle s [] (.ok (), s)
  | stopped {a : α} {rest : List α} {stop : ε} {s' : σ} (last : handle a s = (.error stop, s')) :
      Ends handle s (a :: rest) (.error stop, s')

/-- **Polling ends**, and what it has handled are the first pending entries in order. -/
theorem poll_ends {log : List α} {limit : ℕ} (hlog : Ordered position log) (hlimit : 1 ≤ limit)
    (hadvances : Advances position place handle) (s : σ) :
    ∃ ending, (∀ rounds, (pending position log (place s)).length < rounds →
        poll position place handle log limit rounds s = some ending) ∧
      ∃ done rest s₁, pending position log (place s) = done ++ rest ∧
        HandledAll handle done s s₁ ∧ place s₁ = lastPosition position (place s) done ∧
        Ends handle s₁ rest ending := by
  induction hn : (pending position log (place s)).length using Nat.strongRecOn
    generalizing s with
  | ind n ih =>
    have hsplit := List.take_append_drop limit (pending position log (place s))
    cases hbatch : readAfter position log (place s) limit with
    | nil =>
      have hnone : pending position log (place s) = [] := by
        rcases List.take_eq_nil_iff.mp hbatch with hzero | hnil
        · omega
        · exact hnil
      refine ⟨(.ok (), s), fun rounds hrounds => ?_, [], [], s, hnone, .nil s, rfl, .drained⟩
      obtain ⟨rounds, rfl⟩ := Nat.exists_eq_add_of_lt hrounds
      rw [poll, hbatch]
    | cons a as =>
      have hpending : pending position log (place s) =
          (a :: as) ++ (pending position log (place s)).drop limit := by
        rw [← hbatch]
        exact hsplit.symm
      have hfollows : ∀ {done rest : List α} {s₁ : σ}, pending position log (place s) = done ++ rest →
          HandledAll handle done s s₁ → place s₁ = lastPosition position (place s) done := by
        intro done rest s₁ hdone hall
        have hordered := ordered_pending hlog (place s)
        rw [hdone] at hordered
        exact place_of_handledAll hadvances hall (List.pairwise_append.mp hordered).1
          fun b hb => lt_of_mem_pending (hdone ▸ List.mem_append_left _ hb)
      rcases handleEach_cases handle (a :: as) s with
        ⟨s₁, hall, hrun⟩ | ⟨done, b, rest, s₁, stop, s', hbatches, hdone, hstop, hrun⟩
      · have hplace := hfollows hpending hall
        have hrest : pending position log (place s₁) =
            (pending position log (place s)).drop limit := by
          rw [hplace]
          exact pending_lastPosition hlog hpending
        have hfewer : (pending position log (place s₁)).length < n := by
          have hlength := congrArg List.length hpending
          rw [List.length_append, List.length_cons, ← hrest, hn] at hlength
          omega
        obtain ⟨ending, hpoll, done, rest, s₂, hdone, hhandled, hlast, hends⟩ :=
          ih _ hfewer s₁ rfl
        have hwhole : pending position log (place s) = (a :: as ++ done) ++ rest := by
          rw [List.append_assoc, ← hdone, hrest]
          exact hpending
        refine ⟨ending, fun rounds hrounds => ?_, a :: as ++ done, rest, s₂, hwhole,
          hall.append hhandled, hfollows hwhole (hall.append hhandled), hends⟩
        obtain ⟨rounds, rfl⟩ := Nat.exists_eq_add_of_lt hrounds
        rw [poll, hbatch]
        dsimp only
        rw [hrun]
        exact hpoll _ (by omega)
      · have hwhole : pending position log (place s) =
            done ++ b :: (rest ++ (pending position log (place s)).drop limit) := by
          rw [← List.cons_append, ← List.append_assoc, ← hbatches]
          exact hpending
        refine ⟨(.error stop, s'), fun rounds hrounds => ?_, done, _, s₁, hwhole, hdone,
          hfollows hwhole hdone, .stopped hstop⟩
        obtain ⟨rounds, rfl⟩ := Nat.exists_eq_add_of_lt hrounds
        rw [poll, hbatch]
        dsimp only
        rw [hrun]

end Polling
