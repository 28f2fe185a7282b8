import Cloudscale.Resilience.CircuitBreaker
import Mathlib.Algebra.Order.Group.Unbundled.Basic
import Mathlib.Tactic.Linarith

/-!
# What a trip and a probe are good for

A call that was admitted before a trip can end after it.  `record` does not look
at when the call was admitted: a success closes the breaker whatever its state
is, and a failure of a half-open breaker trips it.

* `tripped_stays_open`: as long as no success is recorded on an open breaker, a
  trip keeps every call out for the whole window.  `open_breaker_closes` is the
  other run: a late success closes the breaker, and a call is admitted at once.
* `one_probe_iff`: there is one probe at a time, and it alone decides, exactly
  if no other call records its outcome while a probe runs.
  `two_probes_in_flight` is the other run.
-/

namespace Cloudscale

open Runs

namespace CircuitBreaker

variable {T ε : Type} {b : CircuitBreaker T}

@[simp] theorem trip_state (now : T) : (trip now : CircuitBreaker T).state = .opened := rfl

@[simp] theorem trip_openedAt (now : T) : (trip now : CircuitBreaker T).openedAt = now := rfl

@[simp] theorem recordSuccess_state : b.recordSuccess.state = .closed := rfl

variable [AddCommGroup T] [LinearOrder T] {config : BreakerConfig T ε}

theorem record_of_failure {ending : Ending ε} (h : isFailure config ending = true) (now : T) :
    b.record config ending now = b.recordFailure config now := by
  rw [record, if_pos h]

theorem record_of_success {ending : Ending ε} (h : isFailure config ending = false) (now : T) :
    b.record config ending now = b.recordSuccess := by
  rw [record, h]; rfl

theorem recordFailure_cases (config : BreakerConfig T ε) (b : CircuitBreaker T) (now : T) :
    (b.failureTrips config = true ∧ b.recordFailure config now = trip now) ∨
      (b.failureTrips config = false ∧ b.state ≠ .halfOpen ∧
        b.recordFailure config now =
          { b with consecutiveFailures := b.consecutiveFailures + 1 }) := by
  unfold recordFailure
  cases h : b.failureTrips config with
  | true => exact Or.inl ⟨rfl, rfl⟩
  | false =>
    refine Or.inr ⟨rfl, fun hs => ?_, rfl⟩
    rw [failureTrips, decide_eq_false_iff_not] at h
    exact h (Or.inl hs)

theorem record_leaves_halfOpen (hb : b.state = .halfOpen) (ending : Ending ε) (now : T) :
    (b.record config ending now).state ≠ .halfOpen := by
  cases hf : isFailure config ending with
  | false =>
    rw [record_of_success hf, recordSuccess_state]
    exact fun h => nomatch h
  | true =>
    rw [record_of_failure hf]
    rcases recordFailure_cases config b now with ⟨_, h⟩ | ⟨_, hne, _⟩
    · rw [h, trip_state]
      exact fun h => nomatch h
    · exact absurd hb hne

theorem promote_cases (config : BreakerConfig T ε) (b : CircuitBreaker T) (now : T) :
    (b.state = .opened ∧ b.promoteIfResetElapsed config now =
        { b with state := .halfOpen, probeInFlight := false }) ∨
      b.promoteIfResetElapsed config now = b := by
  unfold promoteIfResetElapsed
  split
  · rename_i h
    exact Or.inl ⟨h.1, rfl⟩
  · exact Or.inr rfl

theorem promote_of_halfOpen (config : BreakerConfig T ε) (hb : b.state = .halfOpen) (now : T) :
    b.promoteIfResetElapsed config now = b := by
  rcases promote_cases config b now with ⟨hopen, _⟩ | h
  · rw [hb] at hopen
    exact nomatch hopen
  · exact h

/-- What `_admit` does: it lets a call in while the breaker is closed, it lets a probe
in, or it refuses. -/
theorem admission_cases (config : BreakerConfig T ε) (b : CircuitBreaker T) (now later : T) :
    ((b.promoteIfResetElapsed config now).state = .closed ∧
        b.admission config now later = (.ok (), b.promoteIfResetElapsed config now)) ∨
      ((b.promoteIfResetElapsed config now).state = .halfOpen ∧
        (b.promoteIfResetElapsed config now).probeInFlight = false ∧
        b.admission config now later =
          (.ok (), { b.promoteIfResetElapsed config now with probeInFlight := true })) ∨
      ∃ e, b.admission config now later = (.error e, b.promoteIfResetElapsed config now) := by
  unfold admission
  by_cases hc : (b.promoteIfResetElapsed config now).state = .closed
  · exact Or.inl ⟨hc, by simp only [if_pos hc]⟩
  · by_cases hh : (b.promoteIfResetElapsed config now).state = .halfOpen ∧
        (b.promoteIfResetElapsed config now).probeInFlight = false
    · exact Or.inr (Or.inl ⟨hh.1, hh.2, by simp only [if_neg hc, if_pos hh]⟩)
    · exact Or.inr (Or.inr ⟨_, by simp only [if_neg hc, if_neg hh]; rfl⟩)

/-! ### Before the window has passed -/

section Window

variable [IsOrderedAddMonoid T] {t now : T}

theorem promote_of_early (ht : t ≤ b.openedAt) (hnow : now < t + config.resetTimeoutSeconds) :
    b.promoteIfResetElapsed config now = b := by
  rw [promoteIfResetElapsed, if_neg]
  rintro ⟨_, hreset⟩
  have hle : config.resetTimeoutSeconds ≤ now - t := hreset.trans (sub_le_sub_left ht now)
  have hlt : now - t < config.resetTimeoutSeconds := sub_lt_iff_lt_add'.mpr hnow
  exact absurd hle (not_le.mpr hlt)

theorem admission_of_early (hb : b.state = .opened) (ht : t ≤ b.openedAt)
    (hnow : now < t + config.resetTimeoutSeconds) (later : T) :
    ∃ e, b.admission config now later = (.error e, b) := by
  have hpromote := promote_of_early ht hnow
  rcases admission_cases config b now later with h | h | h
  · rw [hpromote, hb] at h
    exact nomatch h.1
  · rw [hpromote, hb] at h
    exact nomatch h.1
  · rwa [hpromote] at h

end Window

end CircuitBreaker

open CircuitBreaker

namespace Callers

variable {T ε ι : Type} [AddCommGroup T] [LinearOrder T] [DecidableEq ι]
  {config : BreakerConfig T ε} {s : Callers T ι}

/-! ### What a section does -/

theorem enter_of_operating {i : ι} {probe : Bool} (h : s.calls i = .operating probe) (d : T) :
    s.enter config i d = s := by
  rw [enter, h]

theorem record_of_idle {i : ι} (h : s.calls i = .idle) (ending : Ending ε) :
    s.record config i ending = s := by
  rw [record, h]

theorem record_of_operating {i : ι} {probe : Bool} (h : s.calls i = .operating probe)
    (ending : Ending ε) :
    s.record config i ending =
      { s with
        breaker := s.breaker.record config ending s.clock
        calls := Function.update s.calls i .idle } := by
  rw [record, h]

theorem enter_of_idle (config : BreakerConfig T ε) {i : ι} (h : s.calls i = .idle) (d : T) :
    ((s.breaker.promoteIfResetElapsed config s.clock).state = .closed ∧ s.enter config i d =
        ⟨s.breaker.promoteIfResetElapsed config s.clock, s.clock + d,
          Function.update s.calls i (.operating false)⟩) ∨
      ((s.breaker.promoteIfResetElapsed config s.clock).state = .halfOpen ∧
        (s.breaker.promoteIfResetElapsed config s.clock).probeInFlight = false ∧
        s.enter config i d =
          ⟨{ s.breaker.promoteIfResetElapsed config s.clock with probeInFlight := true },
            s.clock + d, Function.update s.calls i (.operating true)⟩) ∨
      s.enter config i d =
        ⟨s.breaker.promoteIfResetElapsed config s.clock, s.clock + d, s.calls⟩ := by
  rcases admission_cases config s.breaker s.clock (s.clock + d) with
    ⟨hstate, hadmit⟩ | ⟨hstate, hflag, hadmit⟩ | ⟨e, hadmit⟩
  · refine Or.inl ⟨hstate, ?_⟩
    simp only [enter, h, hadmit, hstate]
    rfl
  · refine Or.inr (Or.inl ⟨hstate, hflag, ?_⟩)
    simp only [enter, h, hadmit, hstate]
    rfl
  · refine Or.inr (Or.inr ?_)
    simp only [enter, h, hadmit]

/-! ### A trip lasts -/

/-- A call that was admitted before the trip reports that all is well. -/
def lateSuccess (config : BreakerConfig T ε) (s : Callers T ι) : Section T ε ι → Bool
  | .record i ending =>
    match s.calls i with
    | .idle => false
    | .operating _ => !isFailure config ending && decide (s.breaker.state = .opened)
  | _ => false

/-- No success is recorded on an open breaker. -/
structure NoLateSuccess (config : BreakerConfig T ε) (s : Callers T ι)
    (sections : List (Section T ε ι)) : Prop where
  along : Along (next config) (fun s m => lateSuccess config s m = false) s sections

/-- Since `t` the breaker has not let anybody in. -/
structure Shut (config : BreakerConfig T ε) (t : T) (s : Callers T ι) : Prop where
  since : t ≤ s.clock
  opened : s.clock < t + config.resetTimeoutSeconds →
    s.breaker.state = .opened ∧ t ≤ s.breaker.openedAt

theorem clock_trips {m : Section T ε ι} (h : s.trips config m = true) :
    (next config s m).breaker.state = .opened ∧
      (next config s m).breaker.openedAt = s.clock ∧ (next config s m).clock = s.clock := by
  cases m with
  | record i ending =>
    simp only [trips] at h
    cases hi : s.calls i with
    | idle => rw [hi] at h; exact nomatch h
    | operating probe =>
      rw [hi, Bool.and_eq_true] at h
      have hrecord : s.breaker.recordFailure config s.clock = trip s.clock := by
        rw [recordFailure, if_pos h.2]
      simp only [next, record_of_operating hi, record_of_failure h.1, hrecord, trip_state,
        trip_openedAt, and_self]
  | elapse d => exact nomatch h
  | enter i d => exact nomatch h
  | observe => exact nomatch h

theorem shut_of_trips {m : Section T ε ι} (h : s.trips config m = true) :
    Shut config s.clock (next config s m) := by
  obtain ⟨hstate, hat, hclock⟩ := clock_trips h
  exact ⟨hclock.ge, fun _ => ⟨hstate, hat.ge⟩⟩

theorem Shut.record {t : T} (h : Shut config t s) {i : ι} {ending : Ending ε}
    (hlate : lateSuccess config s (.record i ending) = false) :
    Shut config t (s.record config i ending) := by
  cases hi : s.calls i with
  | idle => rwa [record_of_idle hi]
  | operating probe =>
    rw [record_of_operating hi]
    refine ⟨h.since, fun hlt => ?_⟩
    obtain ⟨hstate, hat⟩ := h.opened hlt
    have hfailure : isFailure config ending = true := by
      simpa [lateSuccess, hi, hstate] using hlate
    rw [record_of_failure hfailure]
    rcases recordFailure_cases config s.breaker s.clock with
      ⟨_, htrip⟩ | ⟨_, _, hcount⟩
    · rw [htrip]
      exact ⟨rfl, h.since⟩
    · rw [hcount]
      exact ⟨hstate, hat⟩

section Window

variable [IsOrderedAddMonoid T] {t : T}

omit [DecidableEq ι] in
theorem Shut.elapsed (h : Shut config t s) {b : CircuitBreaker T} {calls : ι → Calling} {d : T}
    (hd : 0 ≤ d) (hb : s.clock < t + config.resetTimeoutSeconds → b = s.breaker) :
    Shut config t ⟨b, s.clock + d, calls⟩ := by
  have hle : s.clock ≤ s.clock + d := le_add_of_nonneg_right hd
  refine ⟨h.since.trans hle, fun hlt => ?_⟩
  rw [hb (hle.trans_lt hlt)]
  exact h.opened (hle.trans_lt hlt)

theorem Shut.enter (h : Shut config t s) (i : ι) {d : T} (hd : 0 ≤ d) :
    Shut config t (s.enter config i d) := by
  cases hi : s.calls i with
  | operating probe => rwa [enter_of_operating hi]
  | idle =>
    have hb : s.clock < t + config.resetTimeoutSeconds →
        (s.breaker.admission config s.clock (s.clock + d)).2 = s.breaker := by
      intro hlt
      obtain ⟨hstate, hat⟩ := h.opened hlt
      obtain ⟨e, he⟩ := admission_of_early hstate hat hlt (s.clock + d)
      rw [he]
    simp only [Callers.enter, hi]
    exact h.elapsed hd hb

theorem shut_next {m : Section T ε ι} (h : Shut config t s) (hlate : lateSuccess config s m = false) :
    Shut config t (next config s m) := by
  cases m with
  | elapse d => exact h.elapsed d.2 fun _ => rfl
  | enter i d => exact h.enter i d.2
  | record i ending => exact h.record hlate
  | observe =>
    have hb : s.clock < t + config.resetTimeoutSeconds →
        s.breaker.promoteIfResetElapsed config s.clock = s.breaker :=
      fun hlt => promote_of_early (h.opened hlt).2 hlt
    refine ⟨h.since, fun hlt => ?_⟩
    simp only [next]
    rw [hb hlt]
    exact h.opened hlt

omit [DecidableEq ι] in
theorem Shut.not_admits (h : Shut config t s) (hlt : s.clock < t + config.resetTimeoutSeconds)
    (i : ι) : s.admits config i = false := by
  cases hi : s.calls i with
  | operating probe => simp only [admits, hi]
  | idle =>
    obtain ⟨hstate, hat⟩ := h.opened hlt
    obtain ⟨e, he⟩ := admission_of_early hstate hat hlt s.clock
    simp only [admits, hi, he]
    rfl

/-- **A trip keeps every call out for the whole window**, if no success is recorded on
an open breaker. -/
theorem tripped_stays_open (config : BreakerConfig T ε) (now : T)
    (before after : List (Section T ε ι)) (m : Section T ε ι) (i : ι)
    (hgood : NoLateSuccess config (start now) (before ++ m :: after))
    (htrips : (run (next config) (start now) before).trips config m = true)
    (hadmits : (run (next config) (start now) (before ++ m :: after)).admits config i = true) :
    (run (next config) (start now) before).clock + config.resetTimeoutSeconds ≤
      (run (next config) (start now) (before ++ m :: after)).clock := by
  rw [run_append, run_cons] at hadmits ⊢
  have hafter := (along_append.mp hgood.along).2.2
  have hshut := run_invariant_along (fun _ _ => shut_next) after (shut_of_trips htrips) hafter
  by_contra hlt
  rw [hshut.not_admits (not_le.mp hlt) i] at hadmits
  exact nomatch hadmits

end Window

/-- One failure trips the breaker, for thirty seconds. -/
def oneFailure : BreakerConfig ℤ Unit := ⟨1, 30, fun _ => true, le_rfl, by decide⟩

/-- Two callers are admitted, the first one fails, and the second one succeeds. -/
def lateSection : List (Section ℤ Unit ℕ) :=
  [.enter 0 ⟨0, le_rfl⟩, .enter 1 ⟨0, le_rfl⟩]

theorem tripped_stays_open_at_thirty :
    (run (next oneFailure) (start 0) lateSection).clock + oneFailure.resetTimeoutSeconds ≤
      (run (next oneFailure) (start 0)
        (lateSection ++ .record 0 (.raised ()) :: [.elapse ⟨30, by decide⟩])).clock :=
  tripped_stays_open oneFailure 0 lateSection [.elapse ⟨30, by decide⟩] (.record 0 (.raised ())) 2
    ⟨by decide⟩ (by decide) (by decide)

/-- **A late success closes the breaker**, and a call is admitted as soon as it has
tripped. -/
theorem open_breaker_closes :
    (run (next oneFailure) (start 0) lateSection).trips oneFailure
        (.record (0 : ℕ) (.raised ())) = true ∧
      (run (next oneFailure) (start 0)
        (lateSection ++ .record 0 (.raised ()) :: [.record 1 .returned])).admits oneFailure 2 =
          true ∧
      ¬ (run (next oneFailure) (start 0) lateSection).clock + oneFailure.resetTimeoutSeconds ≤
        (run (next oneFailure) (start 0)
          (lateSection ++ .record 0 (.raised ()) :: [.record 1 .returned])).clock := by
  decide

/-! ### One probe at a time -/

/-- At most one operation runs that was admitted as a probe. -/
def OneProbe (s : Callers T ι) : Prop := ∀ i j, s.Probing i → s.Probing j → i = j

/-- While a probe runs, nothing but its own outcome moves the breaker out of the
half-open state. -/
def ProbeDecides (config : BreakerConfig T ε) (s : Callers T ι) (m : Section T ε ι) : Prop :=
  s.breaker.state = .halfOpen → (∃ i, s.Probing i) →
    (next config s m).breaker.state ≠ .halfOpen → ∃ i ending, s.Probing i ∧ m = .record i ending

/-- A call that is no probe ends while a probe runs. -/
def StrayOutcome (s : Callers T ι) : Section T ε ι → Prop
  | .record i _ => s.calls i = .operating false ∧ ∃ j, s.Probing j
  | _ => False

/-- While a probe runs, no other call records its outcome. -/
structure NoStrayOutcome (config : BreakerConfig T ε) (s : Callers T ι)
    (sections : List (Section T ε ι)) : Prop where
  along : Along (next config) (fun s m => ¬ s.StrayOutcome m) s sections

/-- A probe runs only while the breaker is half-open and has its flag up. -/
structure Guarded (s : Callers T ι) : Prop where
  halfOpen : ∀ i, s.Probing i → s.breaker.state = .halfOpen ∧ s.breaker.probeInFlight = true
  one : s.OneProbe

omit [AddCommGroup T] [LinearOrder T] [DecidableEq ι] in
theorem guarded_of_none (h : ∀ i, ¬ s.Probing i) : Guarded s :=
  ⟨fun i hi => absurd hi (h i), fun i _ hi => absurd hi (h i)⟩

omit [LinearOrder T] [DecidableEq ι] in
theorem guarded_start (now : T) : Guarded (start now : Callers T ι) :=
  guarded_of_none fun _ h => Calling.noConfusion h

omit [DecidableEq ι] in
theorem Guarded.promote (config : BreakerConfig T ε) (h : Guarded s) (now : T) (clock : T) :
    Guarded ⟨s.breaker.promoteIfResetElapsed config now, clock, s.calls⟩ := by
  rcases promote_cases config s.breaker now with ⟨hopen, hb⟩ | hb
  · refine guarded_of_none fun i hi => ?_
    have hhalf := (h.halfOpen i hi).1
    rw [hopen] at hhalf
    exact nomatch hhalf
  · rw [hb]
    exact ⟨h.halfOpen, h.one⟩

theorem probing_update {calls : ι → Calling} {i j : ι} {call : Calling}
    (h : Function.update calls i call j = .operating true) :
    (j = i ∧ call = .operating true) ∨ (j ≠ i ∧ calls j = .operating true) := by
  by_cases hji : j = i
  · subst hji
    exact Or.inl ⟨rfl, by rwa [Function.update_self] at h⟩
  · exact Or.inr ⟨hji, by rwa [Function.update_of_ne hji] at h⟩

theorem Guarded.enter (h : Guarded s) (i : ι) (d : T) : Guarded (s.enter config i d) := by
  cases hi : s.calls i with
  | operating probe => rwa [enter_of_operating hi]
  | idle =>
    have hpromoted := h.promote config s.clock (s.clock + d)
    rcases enter_of_idle config hi d with
      ⟨_, hs⟩ | ⟨hhalf, hflag, hs⟩ | hs
    · have hold : ∀ j, (s.enter config i d).Probing j → s.Probing j := by
        intro j hj
        rw [hs] at hj
        rcases probing_update hj with ⟨_, h⟩ | ⟨_, h⟩
        · exact nomatch h
        · exact h
      refine ⟨fun j hj => ?_, fun j k hj hk => h.one j k (hold j hj) (hold k hk)⟩
      rw [hs]
      exact hpromoted.halfOpen j (hold j hj)
    · -- The flag is down, so nobody is probing and the caller is the only one.
      have hnone : ∀ j, ¬ s.Probing j := by
        intro j hj
        have hup := (hpromoted.halfOpen j hj).2
        rw [hflag] at hup
        exact nomatch hup
      have honly : ∀ j, (s.enter config i d).Probing j → j = i := by
        intro j hj
        rw [hs] at hj
        rcases probing_update hj with ⟨h, _⟩ | ⟨_, h⟩
        · exact h
        · exact absurd h (hnone j)
      refine ⟨fun j _ => ?_, fun j k hj hk => (honly j hj).trans (honly k hk).symm⟩
      rw [hs]
      exact ⟨hhalf, rfl⟩
    · rw [hs]
      exact hpromoted

theorem Guarded.record (h : Guarded s) {i : ι} {ending : Ending ε}
    (hstray : ¬ s.StrayOutcome (.record i ending)) : Guarded (s.record config i ending) := by
  cases hi : s.calls i with
  | idle => rwa [record_of_idle hi]
  | operating probe =>
    rw [record_of_operating hi]
    refine guarded_of_none fun j hj => ?_
    rcases probing_update hj with ⟨_, h⟩ | ⟨hji, hj⟩
    · exact nomatch h
    · cases probe with
      | false => exact hstray ⟨hi, j, hj⟩
      | true => exact hji (h.one j i hj hi)

theorem guarded_next {m : Section T ε ι} (h : Guarded s) (hstray : ¬ s.StrayOutcome m) :
    Guarded (next config s m) := by
  cases m with
  | elapse d => exact ⟨h.halfOpen, h.one⟩
  | enter i d => exact h.enter i d
  | record i ending => exact h.record hstray
  | observe => exact h.promote config s.clock s.clock

theorem decides_of_not_stray {m : Section T ε ι} (hstray : ¬ s.StrayOutcome m) :
    ProbeDecides config s m := by
  rintro hhalf ⟨i, hprobing⟩ hleaves
  have hpromote := promote_of_halfOpen config hhalf s.clock
  cases m with
  | elapse d => exact absurd hhalf hleaves
  | observe =>
    simp only [next, hpromote] at hleaves
    exact absurd hhalf hleaves
  | enter j d =>
    refine absurd ?_ hleaves
    simp only [next]
    cases hj : s.calls j with
    | operating probe => rwa [enter_of_operating hj]
    | idle =>
      rcases enter_of_idle config hj d with ⟨_, hs⟩ | ⟨_, _, hs⟩ | hs <;>
        rw [hs, hpromote] <;> exact hhalf
  | record j ending =>
    cases hj : s.calls j with
    | idle =>
      simp only [next, record_of_idle hj] at hleaves
      exact absurd hhalf hleaves
    | operating probe =>
      cases probe with
      | true => exact ⟨j, ending, hj, rfl⟩
      | false => exact absurd ⟨hj, i, hprobing⟩ hstray

theorem Guarded.not_stray {m : Section T ε ι} (h : Guarded s) (hdecides : ProbeDecides config s m) :
    ¬ s.StrayOutcome m := by
  cases m with
  | elapse d => exact id
  | enter i d => exact id
  | observe => exact id
  | record i ending =>
    rintro ⟨hi, j, hj⟩
    have hhalf := (h.halfOpen j hj).1
    obtain ⟨k, ending', hk, hm⟩ := hdecides hhalf ⟨j, hj⟩ (by
      simp only [next, record_of_operating hi]
      exact record_leaves_halfOpen hhalf ending s.clock)
    have hik : i = k := by injection hm
    subst hik
    rw [Probing, hi] at hk
    exact nomatch hk

theorem Guarded.along (sections : List (Section T ε ι)) :
    ∀ {s : Callers T ι}, Guarded s →
      (∀ before m after, sections = before ++ m :: after →
        ProbeDecides config (run (next config) s before) m) →
      Along (next config) (fun s m => ¬ s.StrayOutcome m) s sections := by
  induction sections with
  | nil => intro _ _ _; trivial
  | cons m ms ih =>
    intro s h hdecides
    have hstray := h.not_stray (hdecides [] m ms rfl)
    refine ⟨hstray, ih (guarded_next h hstray) fun before m' after hms => ?_⟩
    exact hdecides (m :: before) m' after (by rw [hms, List.cons_append])

/-- **One probe runs at a time, and while it runs it alone decides, exactly if no other
call records its outcome meanwhile.** -/
theorem one_probe_iff (config : BreakerConfig T ε) (now : T) (sections : List (Section T ε ι)) :
    ((∀ before after, sections = before ++ after →
        (run (next config) (start now) before).OneProbe) ∧
      ∀ before m after, sections = before ++ m :: after →
        ProbeDecides config (run (next config) (start now) before) m) ↔
      NoStrayOutcome config (start now) sections := by
  constructor
  · rintro ⟨_, hdecides⟩
    exact ⟨Guarded.along sections (guarded_start now) hdecides⟩
  · rintro ⟨halong⟩
    have hguarded : ∀ before after, sections = before ++ after →
        Guarded (run (next config) (start now) before) := by
      rintro before after rfl
      exact run_invariant_along (fun _ _ => guarded_next) before (guarded_start now)
        (along_append.mp halong).1
    refine ⟨fun before after h => (hguarded before after h).one, ?_⟩
    rintro before m after rfl
    exact decides_of_not_stray (along_append.mp halong).2.1

/-- A caller is admitted while the breaker is closed, and fails after another caller's
failure, when a probe has begun: the breaker trips again, and after the window a second probe
begins while the first one runs. -/
def strayFailure : List (Section ℤ Unit ℕ) :=
  [.enter 0 ⟨0, le_rfl⟩, .enter 1 ⟨0, le_rfl⟩, .record 0 (.raised ()), .elapse ⟨30, by decide⟩,
    .enter 2 ⟨0, le_rfl⟩, .record 1 (.raised ()), .elapse ⟨30, by decide⟩, .enter 3 ⟨0, le_rfl⟩]

theorem two_probes_in_flight :
    (run (next oneFailure) (start 0) strayFailure).Probing 2 ∧
      (run (next oneFailure) (start 0) strayFailure).Probing 3 := by
  decide

end Callers

end Cloudscale
