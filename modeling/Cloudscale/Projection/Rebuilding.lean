import Cloudscale.Ledger.Serial
import Cloudscale.Processes.Consuming
import Cloudscale.Projection.Feeds
import Cloudscale.Scripts.RestoreDrill

/-!
# Rebuilding the read models

A consumer that nobody disturbs applies every event of a feed of the log at its first attempt,
and its breaker stays closed (`drain_applied`).

What it comes to has the rows that any other feed of the log has left, the balances are
the folds, and the holds that are open are those that the log leaves open: the drill
passes (`passes_of_feeds`).
-/

namespace Cloudscale

open Checked Python Tables SqliteInteger DoubleEntry Deliveries Precedence

/-! ### The consumer -/

section Draining

variable {V : Type} {tier : Tier V} {T : Type} [AddCommGroup T] [LinearOrder T]

def undisturbed (clock : ℕ → T) : Surroundings T := ⟨clock, fun _ b => b⟩

theorem callWithRetry_of_ok {σ ε α : Type} {retryable : ε → Bool}
    {operation : ℕ → σ → Except ε α × σ} (policy : RetryPolicy) {s s' : σ} {a : α}
    (h : operation 0 s = (.ok a, s')) :
    callWithRetry retryable operation policy s = (.ok a, s') := by
  rw [callWithRetry]
  cases policy.maxAttempts - 1 with
  | zero => exact h
  | succ retries => rw [attemptsFrom, h]

/-- A row in the current shape is read as it is. -/
theorem upcast_stored {r : EventRow} (id : Int)
    (h : r.schemaVersion = currentSchemaVersion r.event.type) :
    upcast currentSchemaVersions registeredSteps (r.stored id).dict = .ok (r.stored id).dict := by
  have htype : (r.stored id).dict.lookup "type" = some (.str r.event.type.text) := by
    rw [StoredEvent.lookup_dict]
    rfl
  have hversion : (r.stored id).dict.lookup "schema_version" =
      some (.int (currentSchemaVersion r.event.type)) := by
    rw [StoredEvent.lookup_dict, ← h]
    rfl
  rw [upcast_current htype hversion, setItem_of_lookup hversion]

/-- The consumer has applied these deliveries, and its breaker is closed. -/
structure AppliedAll (tier : Tier V) (before : List Delivery)
    (s : Counts × Consumption (DeadLetterStore V) T) : Prop where
  counts : s.1 = ⟨before.length, 0, 0⟩
  store : s.2.projection = ⟨projectionAfter tier before, .empty⟩
  closed : s.2.breaker.state = .closed

variable {c : ResilientConsumer (DeadLetterStore V) T PyError} {now : Datetime}
  (hstore : c.projection = DeadLetterStore.projection tier now) (clock : ℕ → T)

include hstore

/-- **One more event is applied at the first attempt.** -/
theorem AppliedAll.handle {before : List Delivery} {s : Counts × Consumption (DeadLetterStore V) T}
    (h : AppliedAll tier before s) {d : Delivery}
    (hcurrent : d.row.schemaVersion = currentSchemaVersion d.row.event.type)
    (happlies : Applies tier (projectionAfter tier before) d) :
    ∃ s', c.handle (undisturbed clock) d.event s = (.ok (), s') ∧ AppliedAll tier (before ++ [d]) s' := by
  obtain ⟨counts, p, breaker, readings⟩ := s
  obtain ⟨rfl, rfl, hclosed⟩ := h
  have happly : c.projection.apply d.event ⟨projectionAfter tier before, .empty⟩ =
      (.ok true, ⟨projectionAfter tier (before ++ [d]), .empty⟩) := by
    rw [hstore]
    have hnext : projectionAfter tier (before ++ [d]) = deliver tier (projectionAfter tier before) d :=
      Runs.run_concat _ _ _ _
    rw [hnext]
    exact Prod.ext happlies rfl
  have hadmission : breaker.admission c.breaker (clock readings) (clock (readings + 1)) =
      (.ok (), breaker) := by
    have hsame : breaker.promoteIfResetElapsed c.breaker (clock readings) = breaker := by
      rw [CircuitBreaker.promoteIfResetElapsed, if_neg]
      rw [hclosed]
      rintro ⟨h, -⟩
      cases h
    rw [CircuitBreaker.admission, hsame]
    exact if_pos hclosed
  have hattempt : c.applyUnderBreaker (undisturbed clock) d.event
      ⟨⟨projectionAfter tier before, .empty⟩, breaker, readings⟩ =
        (.ok true, ⟨⟨projectionAfter tier (before ++ [d]), .empty⟩, breaker.recordSuccess, readings + 3⟩) := by
    rw [ResilientConsumer.applyUnderBreaker, Delivery.event, upcast_stored _ hcurrent]
    simp only [ResilientConsumer.call, undisturbed, hadmission]
    rw [Delivery.event] at happly
    simp only [happly]
    rfl
  have hdeliver : c.deliver (undisturbed clock) d.event
      ⟨⟨projectionAfter tier before, .empty⟩, breaker, readings⟩ = _ :=
    callWithRetry_of_ok c.retryPolicy hattempt
  refine ⟨(⟨before.length + 1, 0, 0⟩,
    ⟨⟨projectionAfter tier (before ++ [d]), .empty⟩, breaker.recordSuccess, readings + 3⟩), ?_, ?_⟩
  · rw [ResilientConsumer.handle, ResilientConsumer.settle, hdeliver]
    rfl
  · refine ⟨?_, rfl, rfl⟩
    rw [List.length_append]
    rfl

theorem AppliedAll.handledAll : ∀ {ds before : List Delivery}
    {s s' : Counts × Consumption (DeadLetterStore V) T}, AppliedAll tier before s →
    Polling.HandledAll (c.handle (undisturbed clock)) (ds.map Delivery.event) s s' →
    (∀ d ∈ ds, d.row.schemaVersion = currentSchemaVersion d.row.event.type) →
    Runs.Along (deliver tier) (Applies tier) (projectionAfter tier before) ds →
    AppliedAll tier (before ++ ds) s' := by
  intro ds
  induction ds with
  | nil =>
    intro before s s' h hall _ _
    cases hall
    rwa [List.append_nil]
  | cons d ds ih =>
    rintro before s s' h hall hcurrent ⟨happlies, halong⟩
    rw [List.map_cons] at hall
    cases hall with
    | @cons _ _ _ s₁ _ first others =>
      rw [List.forall_mem_cons] at hcurrent
      obtain ⟨s₂, hs₂, hnext⟩ := h.handle hstore clock hcurrent.1 happlies
      obtain rfl : s₁ = s₂ := (Prod.mk.inj (first.symm.trans hs₂)).2
      rw [List.append_cons]
      refine ih hnext others hcurrent.2 ?_
      rwa [projectionAfter, Runs.run_concat]

omit hstore in
theorem positionOf_event (d : Delivery) : positionOf d.event = d.logId := by
  rw [positionOf, Delivery.event, StoredEvent.lookup_dict]
  rfl

omit hstore in
/-- A run that finds nothing behind its offset leaves everything as it is. -/
theorem run_nothing {feed : EventFeed} {s : Consumption (DeadLetterStore V) T}
    {around : Surroundings T} {rounds : ℕ} (hrounds : 0 < rounds)
    (h : Polling.pending positionOf feed.events (c.projection.lastId s.projection) = []) :
    c.run around feed rounds s = some (.ok ⟨0, 0, 0, false, none⟩, s) := by
  obtain ⟨rounds, rfl⟩ := Nat.exists_eq_add_of_lt hrounds
  have hread : Polling.readAfter positionOf feed.events (c.lastId (Counts.zero, s)) c.batch = [] := by
    rw [Polling.readAfter]
    exact (congrArg (List.take c.batch) h).trans List.take_nil
  rw [ResilientConsumer.run, Nat.zero_add, Polling.poll, hread]
  rfl

variable {feed : EventFeed} {ds : List Delivery} (hfeed : feed.events = ds.map Delivery.event)
  (hpositive : ∀ d ∈ ds, 0 < d.logId)
  (hcurrent : ∀ d ∈ ds, d.row.schemaVersion = currentSchemaVersion d.row.event.type)
  (hlog : Runs.Along (deliver tier) (Applies tier) .empty ds)

include hfeed hpositive hcurrent hlog

/-- **A run on a fresh store applies the feed.** -/
theorem run_applied {breaker : CircuitBreaker T} {readings : ℕ} (hclosed : breaker.state = .closed) :
    ∃ s', (∀ rounds, feed.events.length < rounds →
        c.run (undisturbed clock) feed rounds ⟨⟨.empty, .empty⟩, breaker, readings⟩ =
          some (.ok ⟨ds.length, 0, 0, false, none⟩, s')) ∧
      s'.projection = ⟨projectionAfter tier ds, .empty⟩ ∧
      Polling.pending positionOf feed.events (c.projection.lastId s'.projection) = [] := by
  set s : Counts × Consumption (DeadLetterStore V) T :=
    (Counts.zero, ⟨⟨.empty, .empty⟩, breaker, readings⟩) with hs
  obtain ⟨ending, hpoll, done, rest, s₁, hpending, hhandled, hplace, hends⟩ :=
    Polling.poll_ends feed.ordered c.one_le_batch
      (ResilientConsumer.handle_advances (c := c) (undisturbed clock)) s
  have hall : Polling.pending positionOf feed.events (c.lastId s) = ds.map Delivery.event := by
    have hlast : c.lastId s = 0 := by
      rw [ResilientConsumer.lastId, hs, hstore]
      rfl
    rw [hlast, ← hfeed, Polling.pending, List.filter_eq_self]
    intro event hevent
    rw [hfeed] at hevent
    obtain ⟨d, hd, rfl⟩ := List.mem_map.mp hevent
    rw [positionOf_event]
    exact decide_eq_true (hpositive d hd)
  have hrest := Polling.pending_lastPosition feed.ordered hpending
  rw [← hplace] at hrest
  rw [hall] at hpending hpoll
  obtain ⟨ds₁, ds₂, rfl, rfl, rfl⟩ := List.map_eq_append_iff.mp hpending
  obtain ⟨hfirst, hsecond⟩ := Runs.along_append.mp hlog
  have hstart : AppliedAll tier [] s := ⟨rfl, rfl, hclosed⟩
  have happlied : AppliedAll tier ds₁ s₁ :=
    hstart.handledAll hstore clock hhandled
      (fun d hd => hcurrent d (List.mem_append_left _ hd)) hfirst
  cases hds : ds₂ with
  | nil =>
    subst hds
    rw [List.map_nil] at hends hrest
    cases hends with
    | drained =>
      rw [List.append_nil] at hpoll ⊢
      refine ⟨s₁.2, fun rounds hrounds => ?_, happlied.store, hrest⟩
      rw [hfeed, List.append_nil] at hrounds
      rw [ResilientConsumer.run, hpoll rounds hrounds]
      show some (Except.ok (ResilientConsumer.report s₁.1 none), s₁.2) = _
      rw [happlied.counts]
      rfl
  | cons d ds' =>
    subst hds
    rw [List.map_cons] at hends
    cases hends with
    | stopped last =>
      obtain ⟨s₂, hs₂, -⟩ := happlied.handle hstore clock
        (hcurrent d (List.mem_append_right _ List.mem_cons_self)) hsecond.1
      cases last.symm.trans hs₂

/-- **The consumer of a drill applies the feed**, and a second run finds nothing. -/
theorem drain_applied {breaker : CircuitBreaker T} {readings : ℕ} (hclosed : breaker.state = .closed) :
    ∃ s', (∀ rounds runs, feed.events.length < rounds → 2 ≤ runs →
        drain c (undisturbed clock) feed rounds runs ⟨0, 0, 0, false, none⟩
            ⟨⟨.empty, .empty⟩, breaker, readings⟩ =
          some (.ok ⟨ds.length, 0, 0, false, none⟩, s')) ∧
      s'.projection = ⟨projectionAfter tier ds, .empty⟩ := by
  obtain ⟨s', hrun, hprojection, hpending⟩ :=
    run_applied hstore clock hfeed hpositive hcurrent hlog hclosed
  refine ⟨s', fun rounds runs hrounds hruns => ?_, hprojection⟩
  obtain ⟨runs, rfl⟩ := Nat.exists_eq_add_of_le hruns
  have hagain : c.run (undisturbed clock) feed rounds s' = some (.ok ⟨0, 0, 0, false, none⟩, s') :=
    run_nothing (by omega) hpending
  rw [Nat.add_comm, drain, hrun rounds hrounds]
  dsimp only
  by_cases hnil : ds.length = 0
  · rw [if_pos (Or.inr ⟨hnil, rfl⟩), hnil]
    rfl
  · rw [if_neg (by simpa using hnil), drain, hagain]
    dsimp only
    rw [if_pos (Or.inr ⟨rfl, rfl⟩)]
    simp [ConsumerReport.add]

end Draining

/-! ### Open holds -/

section OpenHolds

def OpensHold (holdId : String) (r : EventRow) : Prop := ∃ p, r.event = .holdPlaced p ∧ p.holdId.str = holdId

/-- The row posts or releases the hold, or a part of it. -/
def ClosesHold (holdId : String) (r : EventRow) : Prop :=
  (∃ q, r.event = .holdPosted q ∧ q.holdId.str = holdId) ∨
    ∃ x, r.event = .holdReleased x ∧ x.holdId.str = holdId

theorem closing_types : EventType.holdPosted.text ≠ "HoldPlaced" ∧
    EventType.holdReleased.text ≠ "HoldPlaced" := by
  decide

theorem mem_holdRows {rows : List EventRow} {row : String × String} : row ∈ holdRows rows ↔
    ∃ r ∈ rows, (OpensHold row.2 r ∧ row.1 = "HoldPlaced") ∨
      (ClosesHold row.2 r ∧ row.1 = r.event.type.text ∧ row.1 ≠ "HoldPlaced") := by
  obtain ⟨type, holdId⟩ := row
  rw [holdRows, List.mem_filterMap]
  constructor
  · rintro ⟨r, hr, hrow⟩
    obtain ⟨hr, htype⟩ := List.mem_filter.mp hr
    obtain ⟨id, hid, hpair⟩ := Option.map_eq_some_iff.mp hrow
    obtain ⟨rfl, rfl⟩ := Prod.mk.inj hpair
    have htransfer : (eventRowFields r.event).transferId = some id := hid
    refine ⟨r, hr, ?_⟩
    cases hevent : r.event with
    | holdPlaced p =>
      rw [hevent] at htransfer
      exact Or.inl ⟨⟨p, hevent, Option.some.inj htransfer⟩, rfl⟩
    | holdPosted q =>
      rw [hevent] at htransfer
      exact Or.inr ⟨Or.inl ⟨q, hevent, Option.some.inj htransfer⟩, rfl, closing_types.1⟩
    | holdReleased x =>
      rw [hevent] at htransfer
      exact Or.inr ⟨Or.inr ⟨x, hevent, Option.some.inj htransfer⟩, rfl, closing_types.2⟩
    | deposited | withdrawn | transferDebited | transferCredited | reversalDebited
    | reversalCredited =>
      rw [hevent] at htype
      simp [AccountEvent.type, EventType.text, holdEventTypes] at htype
  · rintro ⟨r, hr, hrow⟩
    have hfields : ∀ {t : EventType} {id : UUID}, r.event.type = t → t.text ∈ holdEventTypes →
        r.event.setId = some id → type = t.text → id.str = holdId →
        ∃ r ∈ rows.filter (fun r => r.event.type.text ∈ holdEventTypes),
          r.fields.transferId.map (r.event.type.text, ·) = some (type, holdId) := by
      intro t id ht hmem hid htype hstr
      refine ⟨r, List.mem_filter.mpr ⟨hr, by rw [ht]; exact decide_eq_true hmem⟩, ?_⟩
      have htransfer : r.fields.transferId = some holdId := by
        show (eventRowFields r.event).transferId = _
        rw [AccountEvent.fields_transferId, hid, ← hstr]
        rfl
      rw [htransfer, ht, htype]
      rfl
    rcases hrow with ⟨⟨p, hevent, hstr⟩, htype⟩ | ⟨⟨q, hevent, hstr⟩ | ⟨x, hevent, hstr⟩, htype, -⟩
    · exact hfields (t := .holdPlaced) (by rw [hevent]; rfl) (by decide) (by rw [hevent]; rfl) htype hstr
    · rw [hevent] at htype
      exact hfields (t := .holdPosted) (by rw [hevent]; rfl) (by decide) (by rw [hevent]; rfl) htype hstr
    · rw [hevent] at htype
      exact hfields (t := .holdReleased) (by rw [hevent]; rfl) (by decide) (by rw [hevent]; rfl) htype hstr

/-- **The holds that a log leaves open.** -/
theorem mem_openHoldsFromRows {rows : List EventRow} {holdId : String} :
    holdId ∈ openHoldsFromRows (holdRows rows) ↔
      (∃ r ∈ rows, OpensHold holdId r) ∧ ¬ ∃ r ∈ rows, ClosesHold holdId r := by
  have hplaced : holdId ∈ ((holdRows rows).filter (fun r => r.1 = "HoldPlaced")).map Prod.snd ↔
      ∃ r ∈ rows, OpensHold holdId r := by
    rw [List.mem_map]
    constructor
    · rintro ⟨row, hrow, rfl⟩
      obtain ⟨hrow, htype⟩ := List.mem_filter.mp hrow
      obtain ⟨r, hr, ⟨hopens, -⟩ | ⟨-, -, hne⟩⟩ := mem_holdRows.mp hrow
      · exact ⟨r, hr, hopens⟩
      · exact absurd (of_decide_eq_true htype) hne
    · rintro ⟨r, hr, hopens⟩
      exact ⟨("HoldPlaced", holdId), List.mem_filter.mpr
        ⟨mem_holdRows.mpr ⟨r, hr, Or.inl ⟨hopens, rfl⟩⟩, by simp⟩, rfl⟩
  have hclosed : holdId ∈ ((holdRows rows).filter (fun r => r.1 ≠ "HoldPlaced")).map Prod.snd ↔
      ∃ r ∈ rows, ClosesHold holdId r := by
    rw [List.mem_map]
    constructor
    · rintro ⟨row, hrow, rfl⟩
      obtain ⟨hrow, htype⟩ := List.mem_filter.mp hrow
      obtain ⟨r, hr, ⟨-, heq⟩ | ⟨hcloses, -⟩⟩ := mem_holdRows.mp hrow
      · exact absurd heq (of_decide_eq_true htype)
      · exact ⟨r, hr, hcloses⟩
    · rintro ⟨r, hr, hcloses⟩
      have hne : r.event.type.text ≠ "HoldPlaced" := by
        rcases hcloses with ⟨q, hevent, -⟩ | ⟨x, hevent, -⟩ <;> rw [hevent]
        · exact closing_types.1
        · exact closing_types.2
      exact ⟨(r.event.type.text, holdId), List.mem_filter.mpr
        ⟨mem_holdRows.mpr ⟨r, hr, Or.inr ⟨hcloses, rfl, hne⟩⟩, by simpa using hne⟩, rfl⟩
  rw [openHoldsFromRows, List.mem_filter, hplaced, decide_eq_true_iff, hclosed]

theorem SetShape.exists_posted {rows : List EventRow} (h : SetShape rows) {r : EventRow}
    (hr : r ∈ rows) {x : HoldReleased} (hevent : r.event = .holdReleased x)
    (hreason : x.reason = .partialCapture) : ∃ r' ∈ rows, ∃ q, r'.event = .holdPosted q := by
  cases h with
  | movement legs =>
    have hleg := legs r hr
    rw [hevent] at hleg
    cases hleg
  | placed event =>
    rw [List.mem_singleton.mp hr, event] at hevent
    cases hevent
  | released event releases =>
    rcases List.mem_pair.mp hr with rfl | rfl
    · rw [event] at hevent
      cases hevent
    · rw [releases.event] at hevent
      cases hevent
      exact absurd hreason releases.reason
  | captured event settles =>
    exact ⟨_, List.mem_cons_of_mem _ (settles.perm.mem_iff.mpr List.mem_cons_self), _, settles.posts⟩

section Log

variable {calls : List Call} {holdId : String}

/-- The events on the row of the hold. -/
def onRow (calls : List Call) (holdId : String) : List AccountEvent :=
  ((storeAfter calls).events.map EventRow.event).filter (fun e => e.heldRow = some holdId)

theorem mem_onRow {r : EventRow} (hr : r ∈ (storeAfter calls).events)
    (hrow : r.event.heldRow = some holdId) : r.event ∈ onRow calls holdId :=
  List.mem_filter.mpr ⟨List.mem_map_of_mem hr, decide_eq_true hrow⟩

theorem OpensHold.places {r : EventRow} (h : OpensHold holdId r) : r.event.Places holdId := by
  obtain ⟨p, hevent, rfl⟩ := h
  rw [hevent]
  exact ⟨_, _, _, _, rfl⟩

theorem ClosesHold.exists_settles {r : EventRow} (h : ClosesHold holdId r)
    (hr : r ∈ (storeAfter calls).events) : ∃ e ∈ onRow calls holdId, e.Settles holdId := by
  rcases h with ⟨q, hevent, rfl⟩ | ⟨x, hevent, rfl⟩
  · have hsettles : r.event.Settles q.holdId.str := ⟨"posted", by rw [hevent]; rfl⟩
    exact ⟨_, mem_onRow hr (heldRow_of_settles hsettles), hsettles⟩
  · by_cases hreason : x.reason = .partialCapture
    · have hid : r.event.setId = some x.holdId := by rw [hevent]; rfl
      obtain ⟨r', hr', q, hevent'⟩ :=
        ((ledger_storeAfter calls).coherent.shapes x.holdId).exists_posted
          (List.mem_filter.mpr ⟨hr, decide_eq_true hid⟩) hevent hreason
      have hid' := Store.setId_of_mem hr'
      rw [hevent'] at hid'
      have hsettles : r'.event.Settles x.holdId.str := by
        refine ⟨"posted", ?_⟩
        rw [hevent', ← Option.some.inj hid']
        rfl
      exact ⟨_, mem_onRow (((storeAfter calls).setOf_sublist _).subset hr')
        (heldRow_of_settles hsettles), hsettles⟩
    · have hsettles : r.event.Settles x.holdId.str := by
        refine ⟨x.reason.text, ?_⟩
        rw [hevent, AccountEvent.holdStatement, if_neg hreason]
      exact ⟨_, mem_onRow hr (heldRow_of_settles hsettles), hsettles⟩

theorem exists_opensHold {e : AccountEvent} (he : e ∈ onRow calls holdId) (h : e.Places holdId) :
    ∃ r ∈ (storeAfter calls).events, OpensHold holdId r := by
  obtain ⟨r, hr, rfl⟩ := mem_log (List.mem_of_mem_filter he)
  obtain ⟨source, target, amount, expiresAt, hplace⟩ := h
  refine ⟨r, hr, ?_⟩
  cases hevent : r.event with
  | holdPlaced p =>
    rw [hevent] at hplace
    exact ⟨p, hevent, (HoldStatement.place.inj (Option.some.inj hplace)).1⟩
  | holdReleased x =>
    rw [hevent, AccountEvent.holdStatement] at hplace
    split at hplace <;> cases hplace
  | deposited | withdrawn | transferDebited | transferCredited | reversalDebited | reversalCredited
  | holdPosted =>
    rw [hevent] at hplace
    cases hplace

theorem exists_closesHold {e : AccountEvent} (he : e ∈ onRow calls holdId) (h : e.Settles holdId) :
    ∃ r ∈ (storeAfter calls).events, ClosesHold holdId r := by
  obtain ⟨r, hr, rfl⟩ := mem_log (List.mem_of_mem_filter he)
  obtain ⟨state, hsettle⟩ := h
  refine ⟨r, hr, ?_⟩
  cases hevent : r.event with
  | holdPosted q =>
    rw [hevent] at hsettle
    exact Or.inl ⟨q, hevent, (HoldStatement.settle.inj (Option.some.inj hsettle)).1⟩
  | holdReleased x =>
    rw [hevent, AccountEvent.holdStatement] at hsettle
    split at hsettle
    next => cases hsettle
    next => exact Or.inr ⟨x, hevent, (HoldStatement.settle.inj (Option.some.inj hsettle)).1⟩
  | deposited | withdrawn | transferDebited | transferCredited | reversalDebited | reversalCredited
  | holdPlaced =>
    rw [hevent] at hsettle
    cases hsettle

/-- **A hold is open in the read model exactly when the log leaves it open.** -/
theorem open_iff (calls : List Call) (holdId : String) :
    (∃ row, ((storeAfter calls).events.map EventRow.event).foldl (AccountEvent.onHold holdId) none =
        some row ∧ row.state = "open") ↔
      holdId ∈ openHoldsFromRows (holdRows (storeAfter calls).events) := by
  have hfold : ((storeAfter calls).events.map EventRow.event).foldl (AccountEvent.onHold holdId) none =
      (onRow calls holdId).foldl (AccountEvent.onHold holdId) none :=
    (foldl_filter_of_fixed (fun row e he => onHold_of_ne (by simpa using he)) _ _).symm
  have hopens : ∀ r ∈ (storeAfter calls).events, OpensHold holdId r → r.event ∈ onRow calls holdId :=
    fun r hr h => mem_onRow hr (heldRow_of_places h.places)
  have hcloses : ∀ r ∈ (storeAfter calls).events, ClosesHold holdId r →
      ∃ e ∈ onRow calls holdId, e.Settles holdId := fun r hr h => h.exists_settles hr
  have hopened : ∀ e ∈ onRow calls holdId, e.Places holdId →
      ∃ r ∈ (storeAfter calls).events, OpensHold holdId r := fun e he h => exists_opensHold he h
  have hclosed : ∀ e ∈ onRow calls holdId, e.Settles holdId →
      ∃ r ∈ (storeAfter calls).events, ClosesHold holdId r := fun e he h => exists_closesHold he h
  rw [hfold, mem_openHoldsFromRows]
  have hlife : HoldLife holdId (onRow calls holdId) := holdLife_log calls holdId
  generalize onRow calls holdId = events at *
  cases hlife with
  | unused =>
    refine iff_of_false ?_ ?_
    · rintro ⟨row, hrow, -⟩
      cases hrow
    · rintro ⟨⟨r, hr, h⟩, -⟩
      cases hopens r hr h
  | placed place =>
    refine iff_of_true ?_ ⟨hopened _ List.mem_cons_self place, ?_⟩
    · obtain ⟨source, target, amount, expiresAt, hplace⟩ := place
      refine ⟨⟨source, target, amount, expiresAt, "open"⟩, ?_, rfl⟩
      rw [List.foldl_cons, List.foldl_nil, onHold_place hplace]
      rfl
    · rintro ⟨r, hr, h⟩
      obtain ⟨e, he, hsettles⟩ := hcloses r hr h
      rw [List.mem_singleton.mp he] at hsettles
      exact not_settles_of_places place hsettles
  | @settled p x state place settle closed =>
    refine iff_of_false ?_ fun h => h.2 ?_
    · rintro ⟨row, hrow, hopen⟩
      obtain ⟨source, target, amount, expiresAt, hplace⟩ := place
      rw [onHold_placed_first hplace settle, Option.some.injEq] at hrow
      rw [← hrow] at hopen
      exact closed hopen
    · exact hclosed x (List.mem_cons_of_mem _ List.mem_cons_self) ⟨state, settle⟩

end Log

end OpenHolds

/-! ### The comparison -/

section Comparison

/-- A feed of a log is a feed of every log with its streams. -/
theorem AtLeastOnce.sameLog {s s' : Store} (h : s.SameLog s') {ds : List Delivery}
    (hds : AtLeastOnce s.events ds) : AtLeastOnce s'.events ds := by
  refine ⟨fun d hd => h.perm.mem_iff.mp (hds.logged d hd), fun a => ?_⟩
  rw [hds.ordered a]
  exact h.streams a

/-- What a store of a tier is after a feed of the log. -/
structure Projects {V : Type} (tier : Tier V) (s : Store) (ds : List Delivery) : Prop where
  projected : projectAll tier .empty (eventsOf ds) = .ok (projectionAfter tier ds).readModels
  balances : ∀ a, ((projectionAfter tier ds).readModels.balances.find a).map (BalanceRow.toInts tier) =
    balanceRow (s.eventsOf a)
  applies : (ds.map Delivery.eventId).Nodup → Runs.Along (deliver tier) (Applies tier) .empty ds

/-- **Both tiers project a feed.** -/
theorem projects_of_feed {s : Store} (hs : s.Readable) {ds : List Delivery}
    (h : AtLeastOnce s.events ds) : Projects sqliteTier s ds ∧ Projects postgresTier s ds := by
  have hprojected := hasProjected_projectionAfter fun fs hfs => h.inBounds hs hfs
  have hevents : ∀ a, eventsOn (firsts Delivery.eventId ds) a = s.eventsOf a := fun a => by
    rw [eventsOn_eq, h.ordered a]
    rfl
  have hpostgres : ∀ a, (projectionAfter postgresTier ds).readModels.balances.find a =
      balanceRow (s.eventsOf a) := fun a => by
    rw [← hevents]
    exact hprojected.balances a
  have happlies : (ds.map Delivery.eventId).Nodup →
      Runs.Along (deliver sqliteTier) (Applies sqliteTier) .empty ds ∧
        Runs.Along (deliver postgresTier) (Applies postgresTier) .empty ds := fun hnodup =>
    applies_of_bounds hnodup fun fs hfs =>
      h.inBounds hs (by rwa [firsts_of_nodup hnodup])
  refine ⟨⟨hprojected.sqlite, fun a => ?_, fun hnodup => (happlies hnodup).1⟩,
    ⟨hprojected.postgres, fun a => ?_, fun hnodup => (happlies hnodup).2⟩⟩
  · rw [hprojected.same.balances, hpostgres]
    cases balanceRow (s.eventsOf a) <;> rfl
  · rw [hpostgres]
    cases balanceRow (s.eventsOf a) <;> rfl

theorem exists_foldAll {s : Store} (hs : s.Readable) (accounts : List String) : ∃ folds,
    foldAll s accounts = .ok folds ∧
      ∀ a, folds.find a = if a ∈ accounts then some (s.account a).tuple else none := by
  have hfold : ∀ (accounts : List String) (folds : Table String (BalanceRow Int)), ∃ folds',
      accounts.foldlM (fun folds a => do
        let state ← s.foldStream a
        pure (folds.put a state.tuple)) folds = (.ok folds' : Except PyError _) ∧
      ∀ a, folds'.find a = if a ∈ accounts then some (s.account a).tuple else folds.find a := by
    intro accounts
    induction accounts with
    | nil => exact fun folds => ⟨folds, rfl, fun a => rfl⟩
    | cons b accounts ih =>
      intro folds
      obtain ⟨folds', hfolds', hfind⟩ := ih (folds.put b (s.account b).tuple)
      refine ⟨folds', ?_, fun a => ?_⟩
      · rw [List.foldlM_cons, Store.foldStream_eq hs]
        exact hfolds'
      · rw [hfind, Table.find_put]
        by_cases ha : a ∈ accounts
        · rw [if_pos ha, if_pos (List.mem_cons_of_mem _ ha)]
        · rw [if_neg ha]
          by_cases hb : a = b
          · rw [if_pos hb, if_pos (hb ▸ List.mem_cons_self), hb]
          · rw [if_neg hb, if_neg (by simp [ha, hb])]
  exact hfold accounts .empty

theorem balanceRow_eventsOf {s : Store} (hs : s.Readable) (a : String) : balanceRow (s.eventsOf a) =
    if a ∈ (logFacts s.events).accounts then some (s.account a).tuple else none := by
  have hmem : a ∈ (logFacts s.events).accounts ↔ s.eventsOf a ≠ [] := by
    rw [logFacts, List.mem_dedup, List.mem_map, Store.eventsOf, Store.streamOf, Ne, List.map_eq_nil_iff,
      List.filter_eq_nil_iff]
    simp
  obtain ⟨hbalance, hheld, hversion⟩ := Account.foldFrom_fields (Store.fold_eventsOf hs a)
  by_cases hnil : s.eventsOf a = []
  · rw [if_neg (by simpa [hmem] using hnil), balanceRow, if_pos hnil]
  · rw [if_pos (hmem.mpr hnil), balanceRow, if_neg hnil, AccountState.tuple, hbalance, hheld, hversion]
    simp [AccountState.unknown]

/-- **The ids that a store has claimed** are those of the deliveries. -/
theorem keys_projectionAfter {V : Type} {tier : Tier V} {ds : List Delivery}
    (h : Runs.Along (deliver tier) (Applies tier) .empty ds) :
    (projectionAfter tier ds).processedEvents.entries.map Prod.fst =
      ds.map fun d => d.eventId.str := by
  induction ds using List.reverseRecOn with
  | nil => rfl
  | append_singleton ds d ih =>
    obtain ⟨hbefore, happlies, -⟩ := Runs.along_append.mp h
    obtain ⟨hnew, models, hmodels⟩ := apply_stored_eq_true happlies
    have hnext : (projectionAfter tier (ds ++ [d])).processedEvents =
        (projectionAfter tier ds).processedEvents.put d.eventId.str () := by
      rw [projectionAfter, Runs.run_concat, deliver, Delivery.event, apply_stored_new hnew hmodels]
      rfl
    have hfree : d.eventId.str ∉ (projectionAfter tier ds).processedEvents.entries.map Prod.fst := by
      intro hmem
      obtain ⟨⟨k, u⟩, hentry, rfl⟩ := List.mem_map.mp hmem
      have hfound := Table.mem_entries_iff.mp hentry
      exact hnew (Option.isSome_iff_exists.mpr ⟨u, hfound⟩)
    rw [hnext]
    show (Table.putEntry _ _ _).map Prod.fst = _
    rw [Table.keys_putEntry, if_neg hfree, ih hbefore, List.map_append]
    rfl

theorem mem_openHoldIds {p : ReadModelSnapshot} {holdId : String} : holdId ∈ p.openHoldIds ↔
    ∃ row, p.holds.find holdId = some row ∧ row.state = "open" := by
  rw [ReadModelSnapshot.openHoldIds, List.mem_map]
  constructor
  · rintro ⟨⟨id, row⟩, hentry, rfl⟩
    obtain ⟨hentry, hopen⟩ := List.mem_filter.mp hentry
    exact ⟨row, Table.mem_entries_iff.mp hentry, of_decide_eq_true hopen⟩
  · rintro ⟨row, hfind, hopen⟩
    exact ⟨(holdId, row), List.mem_filter.mpr ⟨Table.mem_entries_iff.mpr hfind, decide_eq_true hopen⟩,
      rfl⟩

/-- **The drill passes** for the log of some calls: the dump has the read models of a feed, with
any dead letters, and the rebuilt ones are those of a feed that delivers every event once. -/
theorem passes_of_feeds {V T : Type} {tier : Tier V} {n : Arithmetic V} (hadds : tier.Adds n)
    {s : Store} {calls : List Call} (hlog : s.SameLog (storeAfter calls)) {ds ds' : List Delivery}
    (h : AtLeastOnce s.events ds) (hprojects : Projects tier s ds)
    (hnodup : (ds.map Delivery.eventId).Nodup) (h' : AtLeastOnce s.events ds')
    (hprojects' : Projects tier s ds') (letters : Table String DeadLetter)
    {folds : Table String (BalanceRow Int)}
    (hfolds : ∀ a, folds.find a = balanceRow (s.eventsOf a)) {drained : ConsumerReport T}
    (hdrained : drained.halted = false) :
    Passes (logFacts s.events) (DeadLetterStore.snapshot tier ⟨projectionAfter tier ds', letters⟩) folds
      drained (DeadLetterStore.snapshot tier ⟨projectionAfter tier ds, .empty⟩) := by
  have hfeed := h.sameLog hlog
  have hstreams := hfeed.streamsOf
  have hsame := sameReadModels_of_feeds hfeed (h'.sameLog hlog) hadds hprojects.projected
    hprojects'.projected
  have hbalances : (DeadLetterStore.snapshot tier ⟨projectionAfter tier ds, .empty⟩).balances.SameRows
      folds := fun a => by
    rw [hfolds]
    exact (Table.find_map _ _ _).trans (hprojects.balances a)
  have hdump : (DeadLetterStore.snapshot tier ⟨projectionAfter tier ds, .empty⟩).balances.SameRows
      (DeadLetterStore.snapshot tier ⟨projectionAfter tier ds', letters⟩).balances := fun a =>
    ((Table.find_map _ _ _).trans (hprojects.balances a)).trans
      ((Table.find_map _ _ _).trans (hprojects'.balances a)).symm
  refine ⟨hdrained, hbalances, hdump, hsame.holds, ⟨hsame.transfers, hsame.transferLegs⟩, ⟨?_, ?_⟩,
    fun holdId => ?_, ?_, List.nil_subset _⟩
  · exact (hdump.perm.map fun e => e.2.balance).sum_eq.symm
  · exact (hbalances.perm.map fun e => e.2.balance).sum_eq
  · have hrow : (projectionAfter tier ds).readModels.holds.find holdId = _ :=
      (projected_of_ok hadds hprojects.projected).holds holdId
    rw [((rows_perm_iff hstreams.perm).mpr (inOrder_of_streams hstreams)).1 holdId] at hrow
    have hmem : ∀ P : EventRow → Prop, (∃ r ∈ (storeAfter calls).events, P r) ↔ ∃ r ∈ s.events, P r :=
      fun P => exists_congr fun r => and_congr_left' hlog.perm.mem_iff.symm
    rw [mem_openHoldIds, logFacts, mem_openHoldsFromRows, ← hmem, ← hmem, ← mem_openHoldsFromRows,
      ← open_iff, ← hrow]
    rfl
  · have hlength := hstreams.perm.length_eq
    rw [eventsOf, firsts_of_nodup hnodup, List.length_map, List.length_map, ← hlog.perm.length_eq]
      at hlength
    have hkeys := congrArg List.length (keys_projectionAfter (hprojects.applies hnodup))
    rw [List.length_map, List.length_map, hlength] at hkeys
    exact hkeys

end Comparison

end Cloudscale
