import Cloudscale.Processes.ResilientConsumer
import Mathlib.Data.List.Induction
import Mathlib.Logic.Relation

/-!
# What a run of the consumer settles

`run_accounts` is about every run: on a feed in order, with any store that keeps the
contract, any readings of the clock and anything that other threads do to the breaker.
The loop ends; it has settled the first of the pending events in order, each by an
attempt that returned or by a dead letter (`SettledAs`), and the offset is the position of
the last of them.  It returns when nothing is left, or it halts at an event that the
breaker refuses: the attempts on it, if any, raised (`AttemptsRaised`).

One attempt is inverted once (`applyUnderBreaker_cases`), the retries follow from the rule
of their loop (`deliver_cases`), and the loop over the feed from `Polling.poll_ends`.
-/

namespace Cloudscale

open Checked Python Relation

/-! ### The position of an event -/

theorem upcastSteps_nil {eventType : String} {k : ℕ} {version : Int} {event current : Dict}
    (h : upcastSteps [] eventType k version event = .ok current) : current = event := by
  cases k with
  | zero =>
    cases h
    rfl
  | succ k => cases h

theorem upcast_registered {event current : Dict}
    (h : upcast currentSchemaVersions registeredSteps event = .ok current) :
    ∃ version, current = setItem "schema_version" (.int version) event := by
  rw [upcast] at h
  dsimp only at h
  split at h
  next eventType htype =>
    split at h
    next => cases h
    next target htarget =>
      split at h
      next => cases h
      next version hversion =>
        split at h
        next => cases h
        next =>
          split at h
          next => cases h
          next =>
            obtain ⟨stepped, hsteps, h⟩ := bind_eq_ok.mp h
            cases h
            exact ⟨target, by rw [upcastSteps_nil hsteps]⟩
  next => cases h

theorem positionOf_upcast {event current : Dict}
    (h : upcast currentSchemaVersions registeredSteps event = .ok current) :
    positionOf current = positionOf event := by
  obtain ⟨version, rfl⟩ := upcast_registered h
  rw [positionOf, positionOf, lookup_setItem, if_neg (by decide)]

/-! ### The breaker refuses -/

/-- The breaker lets nobody in: it is open, or a probe of the half-open breaker is running. -/
def CircuitBreaker.Refusing {T : Type} (b : CircuitBreaker T) : Prop :=
  b.state = .opened ∨ b.state = .halfOpen ∧ b.probeInFlight = true

theorem CircuitBreaker.refusing_of_admission {T ε : Type} [AddCommGroup T] [LinearOrder T]
    {config : BreakerConfig T ε} {b b' : CircuitBreaker T} {now later : T}
    {refusal : CircuitOpenError T}
    (h : b.admission config now later = (.error refusal, b')) : b'.Refusing := by
  rw [admission] at h
  split at h
  next => cases h
  next hclosed =>
    split at h
    next => cases h
    next hprobe =>
      obtain ⟨-, rfl⟩ := Prod.mk.injEq _ _ _ _ ▸ h
      cases hstate : (b.promoteIfResetElapsed config now).state with
      | closed => exact absurd hstate hclosed
      | opened => exact Or.inl hstate
      | halfOpen =>
        refine Or.inr ⟨hstate, ?_⟩
        rw [← Bool.not_eq_false]
        exact fun hflag => hprobe ⟨hstate, hflag⟩

/-! ### The counters -/

namespace Counts

/-- The counters of a list of settlements. -/
def of (settlements : List Settlement) : Counts :=
  ⟨settlements.count .applied, settlements.count .duplicate, settlements.count .deadLettered⟩

theorem total_of (settlements : List Settlement) :
    (of settlements).applied + (of settlements).duplicates + (of settlements).deadLettered =
      settlements.length := by
  induction settlements with
  | nil => rfl
  | cons settlement settlements ih =>
    simp only [of, List.count_cons, List.length_cons] at ih ⊢
    cases settlement <;> simp <;> omega

theorem foldl_add_zero (settlements : List Settlement) :
    settlements.foldl add zero = of settlements := by
  induction settlements using List.reverseRecOn with
  | nil => rfl
  | append_singleton settlements settlement ih =>
    rw [List.foldl_append, ih]
    cases settlement <;> simp [add, of, List.count_append]

end Counts

namespace ResilientConsumer

variable {σ T ε : Type} [AddCommGroup T] [LinearOrder T] (c : ResilientConsumer σ T ε)
  (around : Surroundings T)

/-! ### Attempts -/

/-- An attempt to apply the event raised, which took the store from one state to another. -/
def AttemptRaised (event : Dict) (p p' : σ) : Prop :=
  ∃ current e, upcast currentSchemaVersions registeredSteps event = .ok current ∧
    c.projection.apply current p = (.error e, p')

/-- Some attempts to apply the event raised, and none returned. -/
def AttemptsRaised (event : Dict) : σ → σ → Prop := ReflTransGen (c.AttemptRaised event)

def AttemptReturned (event : Dict) (mutated : Bool) (p p' : σ) : Prop :=
  ∃ current, upcast currentSchemaVersions registeredSteps event = .ok current ∧
    c.projection.apply current p = (.ok mutated, p')

variable {c}

theorem AttemptsRaised.lastId_eq {event : Dict} {p p' : σ} (h : c.AttemptsRaised event p p') :
    c.projection.lastId p' = c.projection.lastId p := by
  induction h with
  | refl => rfl
  | tail _ last ih =>
    obtain ⟨current, e, -, happly⟩ := last
    rw [c.projection.apply_keeps _ _ _ _ happly, ih]

theorem AttemptReturned.lastId_eq {event : Dict} {mutated : Bool} {p p' : σ}
    (h : c.AttemptReturned event mutated p p') (hbehind : c.projection.lastId p < positionOf event) :
    c.projection.lastId p' = positionOf event := by
  obtain ⟨current, hcurrent, happly⟩ := h
  rw [← positionOf_upcast hcurrent] at hbehind ⊢
  exact c.projection.apply_advances _ _ _ _ hbehind happly

/-- How an attempt on an event, or a delivery of it, ends. -/
inductive Delivered (c : ResilientConsumer σ T ε) (event : Dict) (p : σ) :
    Except (Raised T ε) Bool → Consumption σ T → Prop
  | returned {mutated : Bool} {p₁ : σ} {s : Consumption σ T} (raised : c.AttemptsRaised event p p₁)
      (last : c.AttemptReturned event mutated p₁ s.projection) : Delivered c event p (.ok mutated) s
  | refused {refusal : CircuitOpenError T} {s : Consumption σ T}
      (raised : c.AttemptsRaised event p s.projection) (refusing : s.breaker.Refusing) :
      Delivered c event p (.error (.circuitOpen refusal)) s
  | raised {e : ε} {s : Consumption σ T} (raised : c.AttemptsRaised event p s.projection) :
      Delivered c event p (.error (.error e)) s

/-- **What one attempt does**, after others have raised. -/
theorem applyUnderBreaker_cases {event : Dict} {p : σ} {s s' : Consumption σ T}
    {result : Except (Raised T ε) Bool} (hraised : c.AttemptsRaised event p s.projection)
    (h : c.applyUnderBreaker around event s = (result, s')) : Delivered c event p result s' := by
  rw [applyUnderBreaker] at h
  cases hcurrent : upcast currentSchemaVersions registeredSteps event with
  | error e =>
    rw [hcurrent] at h
    cases h
    exact .raised hraised
  | ok current =>
    rw [hcurrent] at h
    dsimp only at h
    rw [call] at h
    dsimp only at h
    rcases hadmission : (around.others s.readings s.breaker).admission c.breaker
      (around.clock s.readings) (around.clock (s.readings + 1)) with ⟨refusal | _, b⟩
    · rw [hadmission] at h
      cases h
      exact .refused hraised (CircuitBreaker.refusing_of_admission hadmission)
    · rw [hadmission] at h
      dsimp only at h
      rcases happly : c.projection.apply current s.projection with ⟨e | mutated, p'⟩
      · rw [happly] at h
        cases h
        exact .raised (hraised.tail ⟨current, e, hcurrent, happly⟩)
      · rw [happly] at h
        cases h
        exact .returned hraised ⟨current, hcurrent, happly⟩

/-- **What the attempts on an event come to.** -/
theorem deliver_cases (event : Dict) (s : Consumption σ T) :
    Delivered c event s.projection (c.deliver around event s).1 (c.deliver around event s).2 := by
  have hretry : ∀ (k : ℕ) (s₁ : Consumption σ T) e s₂,
      c.AttemptsRaised event s.projection s₁.projection →
      c.applyUnderBreaker around event s₁ = (.error e, s₂) →
      c.AttemptsRaised event s.projection s₂.projection := by
    intro k s₁ e s₂ hraised happly
    cases applyUnderBreaker_cases around hraised happly with
    | refused hraised' _ => exact hraised'
    | raised hraised' => exact hraised'
  obtain ⟨n, -, hdelivered⟩ := callWithRetry_rule c.retryable
    (fun _ => c.applyUnderBreaker around event) c.retryPolicy hretry
    (Q := fun _ result s' => Delivered c event s.projection result s')
    (fun _ _ _ _ hraised happly => applyUnderBreaker_cases around hraised happly)
    (ReflTransGen.refl : c.AttemptsRaised event s.projection s.projection)
  exact hdelivered

/-! ### Settling an event -/

/-- The error and the number of attempts that an event is parked with: a transient error
has used up the budget, any other one is the event's own. -/
def ParkedWith (c : ResilientConsumer σ T ε) (e : ε) (attempts : ℕ) : Prop :=
  (c.retryable (.error e) = true ∧ attempts = c.retryPolicy.maxAttempts) ∨
    (c.retryable (.error e) = false ∧ c.isException e = true ∧ attempts = 1)

/-- The event is settled, which takes the store from one state to another: attempts raised,
and then one returned or the event was parked. -/
inductive SettledAs (c : ResilientConsumer σ T ε) (event : Dict) : Settlement → σ → σ → Prop
  | returned {mutated : Bool} {p p₁ p' : σ} (raised : c.AttemptsRaised event p p₁)
      (last : c.AttemptReturned event mutated p₁ p') :
      SettledAs c event (if mutated then .applied else .duplicate) p p'
  | parked {new : Bool} {e : ε} {attempts : ℕ} {p p₁ p' : σ}
      (raised : c.AttemptsRaised event p p₁) (poison : ParkedWith c e attempts)
      (last : c.projection.deadLetter event e attempts p₁ = (.ok new, p')) :
      SettledAs c event (if new then .deadLettered else .duplicate) p p'

/-- The events are settled one after the other. -/
inductive SettledInOrder (c : ResilientConsumer σ T ε) : List (Dict × Settlement) → σ → σ → Prop
  | nil (p : σ) : SettledInOrder c [] p p
  | cons {event : Dict} {settlement : Settlement} {settled : List (Dict × Settlement)}
      {p p₁ p' : σ} (first : SettledAs c event settlement p p₁)
      (others : SettledInOrder c settled p₁ p') :
      SettledInOrder c ((event, settlement) :: settled) p p'

/-- An event at which the loop is left is not settled: the breaker refused it, or an error
was raised that `run` does not catch. -/
inductive StoppedAt (c : ResilientConsumer σ T ε) (event : Dict) (p : σ) :
    Stop T ε → Consumption σ T → Prop
  | halted {refusal : CircuitOpenError T} {s : Consumption σ T}
      (raised : c.AttemptsRaised event p s.projection) (refusing : s.breaker.Refusing) :
      StoppedAt c event p (.halted refusal) s
  | uncaught {e : ε} {s : Consumption σ T} (raised : c.AttemptsRaised event p s.projection)
      (fatal : c.isException e = false) : StoppedAt c event p (.raised e) s
  | notParked {e error : ε} {attempts : ℕ} {p₁ : σ} {s : Consumption σ T}
      (raised : c.AttemptsRaised event p p₁)
      (last : c.projection.deadLetter event error attempts p₁ = (.error e, s.projection)) :
      StoppedAt c event p (.raised e) s

theorem SettledAs.lastId_eq {event : Dict} {settlement : Settlement} {p p' : σ}
    (h : SettledAs c event settlement p p') (hbehind : c.projection.lastId p < positionOf event) :
    c.projection.lastId p' = positionOf event := by
  cases h with
  | returned raised last => exact last.lastId_eq (by rwa [raised.lastId_eq])
  | parked raised _ last =>
    exact c.projection.deadLetter_advances _ _ _ _ _ _ (by rwa [raised.lastId_eq]) last

theorem StoppedAt.lastId_eq {event : Dict} {p : σ} {stop : Stop T ε} {s : Consumption σ T}
    (h : StoppedAt c event p stop s) : c.projection.lastId s.projection = c.projection.lastId p := by
  cases h with
  | halted raised _ => exact raised.lastId_eq
  | uncaught raised _ => exact raised.lastId_eq
  | notParked raised last =>
    rw [c.projection.deadLetter_keeps _ _ _ _ _ _ last, raised.lastId_eq]

theorem park_cases {event : Dict} {p : σ} {e : ε} {attempts : ℕ} {s : Consumption σ T}
    (hraised : c.AttemptsRaised event p s.projection) (hpoison : ParkedWith c e attempts) :
    (∃ settlement, (c.park event e attempts s).1 = .ok settlement ∧
      SettledAs c event settlement p (c.park event e attempts s).2.projection) ∨
    ∃ stop, (c.park event e attempts s).1 = .error stop ∧
      StoppedAt c event p stop (c.park event e attempts s).2 := by
  rw [park]
  rcases hpark : c.projection.deadLetter event e attempts s.projection with ⟨e' | new, p'⟩
  · exact Or.inr ⟨.raised e', rfl, .notParked hraised hpark⟩
  · exact Or.inl ⟨_, rfl, .parked hraised hpoison hpark⟩

/-- **What the loop does with one event.** -/
theorem settle_cases (event : Dict) (s : Consumption σ T) :
    (∃ settlement, (c.settle around event s).1 = .ok settlement ∧
      SettledAs c event settlement s.projection (c.settle around event s).2.projection) ∨
    ∃ stop, (c.settle around event s).1 = .error stop ∧
      StoppedAt c event s.projection stop (c.settle around event s).2 := by
  have hdelivered := deliver_cases (c := c) around event s
  rw [settle]
  rcases hresult : c.deliver around event s with ⟨result, s'⟩
  rw [hresult] at hdelivered
  cases hdelivered with
  | returned raised last => exact Or.inl ⟨_, rfl, .returned raised last⟩
  | refused raised refusing => exact Or.inr ⟨_, rfl, .halted raised refusing⟩
  | @raised e _ raised =>
    dsimp only
    by_cases hretryable : c.retryable (.error e) = true
    · rw [if_pos hretryable]
      exact park_cases raised (Or.inl ⟨hretryable, rfl⟩)
    · rw [if_neg hretryable]
      rw [Bool.not_eq_true] at hretryable
      by_cases hexception : c.isException e = true
      · rw [if_pos hexception]
        exact park_cases raised (Or.inr ⟨hretryable, hexception, rfl⟩)
      · rw [if_neg hexception]
        rw [Bool.not_eq_true] at hexception
        exact Or.inr ⟨_, rfl, .uncaught raised hexception⟩

/-! ### The loop -/

/-- The events are settled in turn, as the loop over a batch settles them. -/
theorem handle_of_ok {event : Dict} {s s' : Counts × Consumption σ T}
    (h : c.handle around event s = (.ok (), s')) :
    ∃ settlement, SettledAs c event settlement s.2.projection s'.2.projection ∧
      s'.1 = s.1.add settlement := by
  rw [handle] at h
  rcases hsettle : c.settle around event s.2 with ⟨stop | settlement, s₁⟩
  · rw [hsettle] at h
    cases h
  · rw [hsettle] at h
    cases h
    rcases settle_cases (c := c) around event s.2 with ⟨settlement', hresult, hsettled⟩ | ⟨_, hresult, _⟩
    · rw [hsettle] at hresult hsettled
      cases hresult
      exact ⟨settlement, hsettled, rfl⟩
    · rw [hsettle] at hresult
      cases hresult

theorem handle_of_error {event : Dict} {s s' : Counts × Consumption σ T} {stop : Stop T ε}
    (h : c.handle around event s = (.error stop, s')) :
    StoppedAt c event s.2.projection stop s'.2 ∧ s'.1 = s.1 := by
  rw [handle] at h
  rcases hsettle : c.settle around event s.2 with ⟨stop' | settlement, s₁⟩
  · rw [hsettle] at h
    cases h
    rcases settle_cases (c := c) around event s.2 with ⟨_, hresult, _⟩ | ⟨stop', hresult, hstopped⟩
    · rw [hsettle] at hresult
      cases hresult
    · rw [hsettle] at hresult hstopped
      cases hresult
      exact ⟨hstopped, rfl⟩
  · rw [hsettle] at h
    cases h

theorem handle_advances : Polling.Advances positionOf c.lastId (c.handle around) := by
  intro event s s' hbehind h
  obtain ⟨settlement, hsettled, -⟩ := handle_of_ok around h
  exact hsettled.lastId_eq hbehind

theorem settledInOrder_of {events : List Dict} {s s' : Counts × Consumption σ T}
    (h : Polling.HandledAll (c.handle around) events s s') :
    ∃ settled, settled.map Prod.fst = events ∧
      SettledInOrder c settled s.2.projection s'.2.projection ∧
      s'.1 = (settled.map Prod.snd).foldl Counts.add s.1 := by
  induction h with
  | nil s => exact ⟨[], rfl, .nil _, rfl⟩
  | @cons event events s s₁ s₂ first _ ih =>
    obtain ⟨settlement, hsettled, hcounts⟩ := handle_of_ok around first
    obtain ⟨settled, hevents, horder, hrest⟩ := ih
    refine ⟨(event, settlement) :: settled, by rw [List.map_cons, hevents], .cons hsettled horder, ?_⟩
    rw [hrest, hcounts]
    rfl

/-- What a run has done that ends so: it has settled these events of the feed, which took the
store to `p`, and left the others. -/
structure Accounts (c : ResilientConsumer σ T ε) (feed : EventFeed) (s : Consumption σ T)
    (ending : Except ε (ConsumerReport T)) (s' : Consumption σ T)
    (settled : List (Dict × Settlement)) (rest : List Dict) (p : σ) : Prop where
  inFeed : Polling.pending positionOf feed.events (c.projection.lastId s.projection) =
    settled.map Prod.fst ++ rest
  inOrder : SettledInOrder c settled s.projection p
  offset : c.projection.lastId s'.projection =
    Polling.lastPosition positionOf (c.projection.lastId s.projection) (settled.map Prod.fst)
  counted : ∀ report, ending = .ok report →
    report.applied = (settled.map Prod.snd).count .applied ∧
    report.duplicates = (settled.map Prod.snd).count .duplicate ∧
    report.deadLettered = (settled.map Prod.snd).count .deadLettered ∧
    report.applied + report.duplicates + report.deadLettered = settled.length
  drained : ∀ report, ending = .ok report → report.halted = false → rest = [] ∧ s'.projection = p
  halted : ∀ report, ending = .ok report → report.halted = true → ∃ event later,
    rest = event :: later ∧ s'.breaker.Refusing ∧ c.AttemptsRaised event p s'.projection ∧
      c.projection.lastId s'.projection < positionOf event
  raised : ∀ e, ending = .error e → ∃ event later,
    rest = event :: later ∧ StoppedAt c event p (.raised e) s' ∧
      c.projection.lastId s'.projection < positionOf event

/-- **A run of the consumer ends, and accounts for every event.** -/
theorem run_accounts (c : ResilientConsumer σ T ε) (around : Surroundings T) (feed : EventFeed)
    (s : Consumption σ T) :
    ∃ ending s', (∀ rounds, feed.events.length < rounds →
        c.run around feed rounds s = some (ending, s')) ∧
      ∃ settled rest p, Accounts c feed s ending s' settled rest p := by
  obtain ⟨ending, hpoll, done, rest, ⟨counts, s₁⟩, hpending, hhandled, hplace, hends⟩ :=
    Polling.poll_ends feed.ordered c.one_le_batch (handle_advances around) (Counts.zero, s)
  obtain ⟨settled, rfl, horder, hcounts⟩ := settledInOrder_of around hhandled
  rw [Counts.foldl_add_zero] at hcounts
  dsimp only at hcounts horder hplace
  have hlength : (Polling.pending positionOf feed.events (c.lastId (Counts.zero, s))).length ≤
      feed.events.length := List.length_filter_le _ _
  refine ⟨(conclude ending).1, (conclude ending).2, fun rounds hrounds => ?_, settled, rest,
    s₁.projection, ?_⟩
  · rw [run, hpoll rounds (hlength.trans_lt hrounds)]
    rfl
  have hsum := Counts.total_of (settled.map Prod.snd)
  rw [List.length_map] at hsum
  cases hends with
  | drained =>
    refine ⟨hpending, horder, hplace, ?_, fun _ _ _ => ⟨rfl, rfl⟩, ?_, fun _ h => nomatch h⟩
    · intro report hreport
      cases hreport
      subst hcounts
      exact ⟨rfl, rfl, rfl, hsum⟩
    · intro report hreport hhalted
      cases hreport
      cases hhalted
  | @stopped event later stop s' last =>
    obtain ⟨hstopped, hsame⟩ := handle_of_error around last
    have hoffset := hstopped.lastId_eq
    have hbehind : c.projection.lastId s'.2.projection < positionOf event := by
      rw [hoffset]
      exact hplace.trans_lt (Polling.lastPosition_lt feed.ordered hpending)
    cases stop with
    | halted refusal =>
      refine ⟨hpending, horder, hoffset.trans hplace, ?_, ?_, ?_, fun _ h => nomatch h⟩
      · intro report hreport
        cases hreport
        rw [hsame, hcounts]
        exact ⟨rfl, rfl, rfl, hsum⟩
      · intro report hreport hrunning
        cases hreport
        cases hrunning
      · intro report _ _
        cases hstopped with
        | halted raised refusing => exact ⟨event, later, rfl, refusing, raised, hbehind⟩
    | raised e =>
      refine ⟨hpending, horder, hoffset.trans hplace, (fun _ h => nomatch h), (fun _ h => nomatch h),
        (fun _ h => nomatch h), fun e' hraised => ?_⟩
      cases hraised
      exact ⟨event, later, rfl, hstopped, hbehind⟩

/-! ### Two runs -/

/-- A consumer with three attempts for an event and a breaker that opens on two failures. -/
def consumerOn {σ : Type} (projection : DeadLetteringProjection σ PyError) :
    ResilientConsumer σ ℤ PyError where
  projection := projection
  retryPolicy := ⟨3, by decide⟩
  breaker := ⟨2, 60, fun e => e == .operationalError, by decide, by decide⟩
  retryable
    | .circuitOpen _ => false
    | .error e => e == .operationalError
  isException _ := true
  raises e := e
  batch := 1
  one_le_batch := Nat.one_pos

/-- A store that fails a number of times before it applies anything. -/
def flakyProjection : DeadLetteringProjection (Int × ℕ) PyError where
  lastId := Prod.fst
  apply
    | event, (_, 0) => (.ok true, (positionOf event, 0))
    | _, (lastId, faults + 1) => (.error .operationalError, (lastId, faults))
  deadLetter event _ _ p := (.ok true, (positionOf event, p.2))
  apply_advances := by
    rintro event ⟨lastId, _ | faults⟩ mutated p' _ h
    · cases h
      rfl
    · cases h
  apply_keeps := by
    rintro event ⟨lastId, _ | faults⟩ e p' h
    · cases h
    · cases h
      rfl
  deadLetter_advances := by
    rintro event error attempts p new p' _ h
    cases h
    rfl
  deadLetter_keeps := by
    rintro event error attempts p e p' h
    cases h

/-- A deposit and an event of an unknown type. -/
def twoEvents : EventFeed where
  events := [
    [("id", .int 4), ("event_id", .str "a"), ("type", .str "Deposited"), ("account_id", .str "alice"),
      ("amount", .int 5), ("schema_version", .int 1)],
    [("id", .int 9), ("event_id", .str "b"), ("type", .str "Minted"), ("account_id", .str "alice"),
      ("amount", .int 5), ("schema_version", .int 1)]]
  ordered := by
    simp [Polling.Ordered, positionOf, intOf]

/-- The clock stands still, and nobody else uses the breaker. -/
def alone : Surroundings ℤ := ⟨fun _ => 0, fun _ b => b⟩

example : ((consumerOn (DeadLetterStore.projection sqliteTier .epoch)).run alone twoEvents 3
    ⟨⟨.empty, .empty⟩, .initial, 0⟩).map (fun r => (r.1, r.2.projection.lastId)) =
      some (.ok ⟨1, 0, 1, false, none⟩, 9) := by
  decide +kernel

example : ((consumerOn flakyProjection).run alone twoEvents 3 ⟨(0, 2), .initial, 0⟩).map
    (fun r => (r.1, r.2.projection)) = some (.ok ⟨0, 0, 0, true, some ⟨60⟩⟩, (0, 0)) := by
  decide +kernel

end ResilientConsumer

end Cloudscale
