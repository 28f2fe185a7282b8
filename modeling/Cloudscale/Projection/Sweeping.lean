import Cloudscale.Ledger.Accepting
import Cloudscale.Scripts.SweepHolds

/-!
# What a sweep leaves

A turn of the sweep appends the release of its hold (`CanExpire.written`) or nothing
at all (`events_of_not_canExpire`), and which of the two is decided before the turn:
a result under the expiry id of the hold is in the way, whatever that result says.
`Ready` is what all turns together need of the store before the sweep, and
`sweep_progress_iff` says that the sweep makes progress exactly then.

The id is the same for every sweep and a result is never overwritten, so one lost race
is in the way of all sweeps to come (`no_progress_of_result`).
-/

namespace Cloudscale

open Checked Python Tables Account

/-! ### Read models that have caught up -/

/-- The table of holds says what the log says. -/
def Store.CaughtUp {V : Type} (s : Store) (models : ReadModels V) : Prop :=
  ∀ holdId, models.holds.find holdId =
    (s.events.map EventRow.event).foldl (AccountEvent.onHold holdId) none

/-- The read models of a consumer that has handled the whole log have caught up. -/
theorem caughtUp_projectionAfter {calls : List Call} {ds : List Delivery}
    (h : ds.map Delivery.row = (storeAfter calls).events) :
    (storeAfter calls).CaughtUp (projectionAfter sqliteTier ds).readModels ∧
      (storeAfter calls).CaughtUp (projectionAfter postgresTier ds).readModels := by
  obtain ⟨hsqlite, hpostgres⟩ := applies_log h
  have hevents : ds.map (fun d => d.row.event) = (storeAfter calls).events.map EventRow.event := by
    rw [← h, List.map_map]
    rfl
  have hsqlite' := projectAll_projectionAfter hsqlite
  have hpostgres' := projectAll_projectionAfter hpostgres
  rw [hevents] at hsqlite' hpostgres'
  exact ⟨(projected_of_ok sqlite_adds hsqlite').holds,
    (projected_of_ok postgres_adds hpostgres').holds⟩

/-- The events of one id are all that a decision reads of the hold. -/
theorem openHoldFromEvents_setOf (s : Store) (t : UUID) (a : String) :
    openHoldFromEvents t (holdEventsOn s.events a) =
      openHoldFromEvents t (holdEventsOn (s.setOf t) a) := by
  have hid : ∀ r : EventRow, r.event.heldRow = some t.str → r.event.setId = some t := by
    intro r hrow
    obtain ⟨u, hu, hstr⟩ := heldRow_eq_some hrow
    rw [hu, UUID.str_injective hstr]
  have hrows : ((s.setOf t).filter (fun r => r.event.accountId = a)).filter
      (fun r => r.event.heldRow = some t.str) =
      (s.events.filter (fun r => r.event.accountId = a)).filter
        (fun r => r.event.heldRow = some t.str) := by
    rw [Store.setOf, List.filter_filter, List.filter_filter, List.filter_filter]
    refine List.filter_congr fun r _ => ?_
    by_cases hrow : r.event.heldRow = some t.str
    · simp [hrow, hid r hrow]
    · simp [hrow]
  have hscan : ∀ rows : List EventRow, openHoldFromEvents t (holdEventsOn rows a) =
      openHoldFromEvents t ((((rows.filter (fun r => r.event.accountId = a)).filter
        (fun r => r.event.heldRow = some t.str)).map EventRow.event).filterMap holdEvent?) := by
    intro rows
    rw [openHoldFromEvents, openHoldFromEvents, holdEventsOn, scanHold_filter, List.filter_map]
    rfl
  rw [hscan, hscan, hrows]

theorem expiredAt_iff {p : HoldPlaced} {now : Datetime} : (openHoldOf p).expiredAt now ↔
    ∀ expiry, expiryOf p.expiresAt = some expiry → expiry ≤ now := by
  have hsome : expiryOf p.expiresAt = some (openHoldOf p).expiry := (Option.some_get _).symm
  constructor
  · intro h expiry hexpiry
    rw [← Option.some.inj (hsome.symm.trans hexpiry)]
    exact h
  · exact fun h => h _ hsome

/-! ### Holds that wait for the sweep, and holds that it has released -/

/-- The answer is about a hold of which the log has the placement only. -/
def Waiting (s : Store) (hold : ExpiredHold) : Prop :=
  ∃ t r p, hold.holdId = t.str ∧ s.setOf t = [r] ∧ r.event = .holdPlaced p ∧
    p.accountId = hold.source ∧ p.expiresAt = hold.expiresAt

/-- The answer is about a hold of which the log has the placement and the expiry. -/
def Expired (s : Store) (hold : ExpiredHold) : Prop :=
  ∃ t r p r' x, hold.holdId = t.str ∧ s.setOf t = [r, r'] ∧ r.event = .holdPlaced p ∧
    r'.event = .holdReleased x ∧ x.reason = .expired

/-- **What the query answers is waiting**, and every open hold that has expired is answered. -/
theorem mem_openHoldsExpiredAt_of_caughtUp {V : Type} {models : ReadModels V} {calls : List Call}
    (h : (storeAfter calls).CaughtUp models) (now : Datetime) :
    (∀ hold ∈ models.openHoldsExpiredAt now.isoformat, Waiting (storeAfter calls) hold ∧
      ∀ expiry, expiryOf hold.expiresAt = some expiry → expiry ≤ now) ∧
    ∀ a t hold, (storeAfter calls).openHold a t = .ok (some hold) → hold.expiredAt now →
      ∃ answer ∈ models.openHoldsExpiredAt now.isoformat, answer.holdId = t.str := by
  have hselects : SelectsExpired (storeAfter calls).events models :=
    selectsExpired_of_holds List.prefix_rfl h
  have hcoherent := (ledger_storeAfter calls).coherent
  have hread : ∀ a t hold, openHoldFromEvents t (holdEventsOn (storeAfter calls).events a) =
      some hold ↔ (storeAfter calls).openHold a t = .ok (some hold) := by
    intro a t hold
    rw [openHoldFromEvents_setOf, Store.openHold_eq hcoherent.readable, Except.ok.injEq]
    rfl
  refine ⟨fun answer hanswer => ?_, fun a t hold hopen hexpired => ?_⟩
  · obtain ⟨t, a, hold, hfound, hexpired, rfl⟩ := (hselects now answer).mp hanswer
    obtain ⟨r, p, hset, hp, ha, rfl⟩ := hcoherent.openHold_eq_some.mp ((hread a t hold).mp hfound)
    exact ⟨⟨t, r, p, rfl, hset, hp, ha, rfl⟩, expiredAt_iff.mp hexpired⟩
  · exact ⟨_, (hselects now _).mpr ⟨t, a, hold, (hread a t hold).mpr hopen, hexpired, rfl⟩, rfl⟩

theorem nodup_openHoldsExpiredAt {V : Type} (models : ReadModels V) (nowIso : String) :
    ((models.openHoldsExpiredAt nowIso).map ExpiredHold.holdId).Nodup := by
  have hperm := (List.perm_insertionSort
    (fun hold hold' : ExpiredHold => hold.expiresAt ≤ hold'.expiresAt)
    ((models.holds.entries.filter (fun e => e.2.state = "open" ∧ e.2.expiresAt ≤ nowIso)).map
      (fun e => e.2.answer e.1))).map ExpiredHold.holdId
  rw [ReadModels.openHoldsExpiredAt, hperm.nodup_iff, List.map_map]
  exact models.holds.nodup.sublist (List.filter_sublist.map _)

/-! ### One turn -/

/-- Nothing is in the way of the release: the expiry id has no result yet, the stream has
room, the clock of the unit of work has reached the expiry, and the event id is new. -/
structure CanExpire (s : Store) (hold : ExpiredHold) (turn : SweepTurn) : Prop where
  unused : ∀ row ∈ s.results, row.commandId ≠ expiryCommandId hold.holdId
  room : (s.account hold.source).version ≠ maxSignedBigint
  due : ∀ expiry, expiryOf hold.expiresAt = some expiry → expiry ≤ turn.clock 0
  newId : ∀ r ∈ s.events, r.eventId ≠ turn.eventIds 0

/-- The call that a turn makes for a hold. -/
structure IsExpiry (s : Store) (hold : ExpiredHold) (turn : SweepTurn) (t : UUID)
    (c : ExpireHold) (call : Call) : Prop where
  holdId : hold.holdId = t.str
  command : call.request.command = .expireHold c
  accountId : c.accountId = hold.source
  id : c.holdId = t
  version : c.expectedVersion = (s.account hold.source).version
  commandId : call.request.commandId = expiryCommandId hold.holdId
  clock : call.clock = turn.clock
  eventIds : call.eventIds = turn.eventIds

section Turn

variable {s : Store} {hold : ExpiredHold} {turn : SweepTurn}

/-- **A turn is a call**: an `ExpireHold` at the version that the source folds to. -/
theorem Waiting.sweepHold_eq (hs : s.Readable) (h : Waiting s hold) (turn : SweepTurn) :
    ∃ t c call, IsExpiry s hold turn t c call ∧ sweepHold s hold turn = execute s call := by
  obtain ⟨t, r, p, hid, -, -, hsource, -⟩ := h
  have haccount : ValidAccountId hold.source := hsource ▸ p.account_ok
  have hversion : ValidExpectedVersion (s.account hold.source).version :=
    ⟨(s.account hold.source).valid.version_nonneg, (s.account hold.source).valid.version_le⟩
  obtain ⟨request, hrequest⟩ : ∃ request, request = NormalizedCommand.ofCommand
      (.expireHold ⟨hold.source, t, _, haccount, hversion⟩) (expiryCommandId hold.holdId)
      turn.correlationId "cloudscale" sweeperSubject (by decide) (by decide) := ⟨_, rfl⟩
  have hnormalized : expiryRequest hold (s.account hold.source).version turn.correlationId =
      .ok request := by
    simp only [expiryRequest, uuidOfText, hid, UUID.ofText_str, ok_bind, ReleaseCommand.new,
      validateAccountId_of haccount, validateExpectedVersion_of hversion, pure_eq_ok]
    rw [hrequest, hid]
    exact normalizeCommand_of _ _ _ _ _
  refine ⟨t, ⟨hold.source, t, _, haccount, hversion⟩, ⟨request, turn.clock, turn.eventIds⟩,
    ⟨hid, by rw [hrequest]; rfl, rfl, rfl, rfl, by rw [hrequest]; rfl, rfl, rfl⟩, ?_⟩
  rw [sweepHold, Store.foldStream_eq hs]
  dsimp only
  rw [executeExpiry, hnormalized]

theorem Waiting.ledger_sweepHold (hs : s.Ledger) (h : Waiting s hold) (turn : SweepTurn) :
    (sweepHold s hold turn).2.Ledger := by
  obtain ⟨t, c, call, -, heq⟩ := h.sweepHold_eq hs.coherent.readable turn
  rw [heq]
  exact hs.next

/-- The store after a turn has the release and its result. -/
structure ExpiryWritten (s s' : Store) (hold : ExpiredHold) (turn : SweepTurn) (r : EventRow)
    (x : HoldReleased) : Prop where
  events : s'.events = s.events ++ [r]
  results : ∃ row, s'.results = s.results ++ [row] ∧ row.commandId = expiryCommandId hold.holdId
  eventId : r.eventId = turn.eventIds 0
  event : r.event = .holdReleased x
  holdId : hold.holdId = x.holdId.str
  accountId : x.accountId = hold.source
  reason : x.reason = .expired

/-- What an expiry appends is the release of its hold, and nothing was in the way. -/
theorem IsExpiry.appended (hs : s.Ledger) {t : UUID} {c : ExpireHold} {call : Call}
    (h : IsExpiry s hold turn t c call) (hwaiting : Waiting s hold) :
    (next s call).events = s.events ∨
      (CanExpire s hold turn ∧ ∃ r' x, ExpiryWritten s (next s call) hold turn r' x) := by
  cases hresult : (execute s call).1 with
  | error e => exact Or.inl (by rw [execute_error hresult])
  | ok result =>
    have hexecuted := executed_of_ok hs.coherent.readable hresult
    generalize next s call = s' at hexecuted ⊢
    cases hexecuted with
    | replayed | conflicted | rejected => exact Or.inl rfl
    | @accepted _ row events fresh version decided versions fits absorbed outcome answers keeps =>
      refine Or.inr ?_
      have hnewIds := (fits_legRows hs.coherent.readable events).mp fits
      cases decided with
      | @release kind c' found released command opened can releases =>
        rw [h.command] at command
        cases command
        obtain ⟨t', r, p, hid, hset, hp, -, hexpires⟩ := hwaiting
        obtain rfl := UUID.str_injective (h.holdId.symm.trans hid)
        obtain ⟨r₁, p₁, hset₁, hp₁, -, rfl⟩ := hs.coherent.openHold_eq_some.mp opened
        rw [h.id, hset] at hset₁
        cases hset₁
        obtain rfl := AccountEvent.holdPlaced.inj (hp.symm.trans hp₁)
        refine ⟨⟨h.commandId ▸ fresh, h.accountId ▸ can.version, ?_, fun r hr => ?_⟩, ?_⟩
        · have hexpired : (openHoldOf p).expiredAt (call.clock 0) := can.expired rfl
          rw [expiredAt_iff, hexpires, h.clock] at hexpired
          exact hexpired
        · rw [← h.eventIds]
          exact hnewIds.unused 0 Nat.one_pos r hr
        · refine ⟨_, released, by rw [Store.number_singleton]; rfl, ⟨row, rfl, ?_⟩, ?_, rfl, ?_,
            releases.accountId.trans h.accountId, releases.reason⟩
          · rw [keeps.commandId, answers.commandId, h.commandId]
          · exact congrFun h.eventIds 0
          · rw [releases.holdId, h.id, hid]
      | deposit command | withdraw command | hold command | capture command
      | reversal command => rw [h.command] at command; cases command
      | postings command => rw [h.command] at command; cases command

/-- **A turn changes the rows of its own hold alone.** -/
theorem Waiting.setOf_sweepHold (hs : s.Ledger) (h : Waiting s hold) (turn : SweepTurn) {t : UUID}
    (hne : hold.holdId ≠ t.str) : (sweepHold s hold turn).2.setOf t = s.setOf t := by
  obtain ⟨u, c, call, hexpiry, heq⟩ := h.sweepHold_eq hs.coherent.readable turn
  rw [heq]
  show (next s call).setOf t = s.setOf t
  rcases hexpiry.appended hs h with hevents | ⟨-, r', x, hwritten⟩
  · rw [Store.setOf, hevents]
    rfl
  · rw [Store.setOf, hwritten.events, List.filter_append, List.filter_cons_of_neg,
      List.filter_nil, List.append_nil]
    · rfl
    · rw [hwritten.event, decide_eq_true_eq]
      intro hset
      obtain rfl := Option.some.inj hset
      exact hne hwritten.holdId

/-- **A turn with nothing in the way writes the release of its hold.** -/
theorem CanExpire.written (hs : s.Ledger) (hwaiting : Waiting s hold)
    (h : CanExpire s hold turn) : (∃ result, (sweepHold s hold turn).1 = .ok result) ∧
      ∃ r' x, ExpiryWritten s (sweepHold s hold turn).2 hold turn r' x := by
  obtain ⟨t, c, call, hexpiry, heq⟩ := hwaiting.sweepHold_eq hs.coherent.readable turn
  obtain ⟨t', r, p, hid, hset, hp, hsource, hexpires⟩ := hwaiting
  obtain rfl := UUID.str_injective (hexpiry.holdId.symm.trans hid)
  have hopen : s.openHold c.accountId c.holdId = .ok (some (openHoldOf p)) :=
    hs.coherent.openHold_eq_some.mpr ⟨r, p, by rw [hexpiry.id, hset], hp,
      hsource.trans hexpiry.accountId.symm, rfl⟩
  have hdue : (openHoldOf p).expiredAt (call.clock 0) := by
    rw [expiredAt_iff, hexpiry.clock, hexpires]
    exact h.due
  have hanswered : Answered s call := answered_expiry hs.coherent hexpiry.command
    (hexpiry.commandId ▸ h.unused) (by rw [hexpiry.version, hexpiry.accountId])
    (by rw [hexpiry.accountId]; exact h.room) hopen hdue (hexpiry.eventIds ▸ h.newId)
  have haccepts : Accepts s call := ⟨hexpiry.commandId ▸ h.unused, hanswered⟩
  obtain ⟨events, row, -, hdecided, -, hnext⟩ := haccepts.decided hs.coherent.readable
  have hsome : (next s call).events ≠ s.events := by
    intro heq
    obtain ⟨e, he, -⟩ := hdecided.addressed
    have hmem := (perm_legRows call.request (call.clock 0) call.eventIds s events).mem_iff.mpr he
    rw [hnext] at heq
    rw [List.append_right_eq_self.mp heq] at hmem
    cases hmem
  obtain ⟨result, hresult, -⟩ := hanswered
  rw [heq]
  exact ⟨⟨result, hresult⟩, ((hexpiry.appended hs ⟨t, r, p, hid, hset, hp, hsource,
    hexpires⟩).resolve_left hsome).2⟩

theorem ExpiryWritten.expired {s' : Store} {r' : EventRow} {x : HoldReleased}
    (h : ExpiryWritten s s' hold turn r' x) (hwaiting : Waiting s hold) : Expired s' hold := by
  obtain ⟨t, r, p, hid, hset, hp, -⟩ := hwaiting
  obtain rfl := UUID.str_injective (h.holdId.symm.trans hid)
  have hself : r'.event.setId = some x.holdId := by rw [h.event]; rfl
  refine ⟨_, r, p, r', x, h.holdId, ?_, hp, h.event, h.reason⟩
  rw [Store.setOf, h.events, List.filter_append, List.filter_cons_of_pos (by simpa using hself),
    List.filter_nil]
  exact congrArg (· ++ [r']) hset

/-- **A turn with something in the way appends nothing.** -/
theorem events_of_not_canExpire (hs : s.Ledger) (hwaiting : Waiting s hold)
    (h : ¬ CanExpire s hold turn) : (sweepHold s hold turn).2.events = s.events := by
  obtain ⟨t, c, call, hexpiry, heq⟩ := hwaiting.sweepHold_eq hs.coherent.readable turn
  rw [heq]
  exact (hexpiry.appended hs hwaiting).resolve_right fun happended => h happended.1

theorem Waiting.congr {s' : Store} (h : Waiting s hold)
    (heq : ∀ t : UUID, hold.holdId = t.str → s'.setOf t = s.setOf t) : Waiting s' hold := by
  obtain ⟨t, r, p, hid, hset, hrest⟩ := h
  exact ⟨t, r, p, hid, (heq t hid).trans hset, hrest⟩

theorem Expired.congr {s' : Store} (h : Expired s hold)
    (heq : ∀ t : UUID, hold.holdId = t.str → s'.setOf t = s.setOf t) : Expired s' hold := by
  obtain ⟨t, r, p, r', x, hid, hset, hrest⟩ := h
  exact ⟨t, r, p, r', x, hid, (heq t hid).trans hset, hrest⟩

end Turn

/-! ### The whole sweep -/

/-- Nothing is in the way of any of the holds, read off the store before the sweep: no
expiry id has a result, no two are the same, the streams have room for all releases,
every clock reading is at or after the expiry, and the event ids are new. -/
structure Ready (turns : ExpiredHold → SweepTurn) (s : Store) (holds : List ExpiredHold) :
    Prop where
  unused : ∀ hold ∈ holds, ∀ row ∈ s.results, row.commandId ≠ expiryCommandId hold.holdId
  distinct : (holds.map fun hold => expiryCommandId hold.holdId).Nodup
  room : ∀ a, a ∈ holds.map ExpiredHold.source →
    (s.account a).version + (holds.map ExpiredHold.source).count a ≤ maxSignedBigint
  due : ∀ hold ∈ holds, ∀ expiry, expiryOf hold.expiresAt = some expiry →
    expiry ≤ (turns hold).clock 0
  newIds : ∀ hold ∈ holds, ∀ r ∈ s.events, r.eventId ≠ (turns hold).eventIds 0
  distinctIds : (holds.map fun hold => (turns hold).eventIds 0).Nodup

theorem Ready.canExpire {turns : ExpiredHold → SweepTurn} {s : Store} {hold : ExpiredHold}
    {holds : List ExpiredHold} (h : Ready turns s (hold :: holds)) :
    CanExpire s hold (turns hold) := by
  refine ⟨h.unused hold List.mem_cons_self, ?_, h.due hold List.mem_cons_self,
    h.newIds hold List.mem_cons_self⟩
  have hroom := h.room hold.source List.mem_cons_self
  rw [List.map_cons, List.count_cons_self] at hroom
  omega

/-- The first turn takes its part of what the sweep needs. -/
theorem ready_cons_iff {turns : ExpiredHold → SweepTurn} {s s' : Store} {hold : ExpiredHold}
    {holds : List ExpiredHold} (hs : s.Ledger) (hs' : s'.Ledger) {r : EventRow} {x : HoldReleased}
    (h : ExpiryWritten s s' hold (turns hold) r x) :
    Ready turns s (hold :: holds) ↔ CanExpire s hold (turns hold) ∧ Ready turns s' holds := by
  obtain ⟨row, hresults, hrow⟩ := h.results
  have hversion : ∀ a, (s'.account a).version =
      (s.account a).version + if hold.source = a then 1 else 0 := by
    intro a
    rw [Store.account_version hs.coherent.readable, Store.account_version hs'.coherent.readable,
      Store.streamOf, Store.streamOf, h.events, List.filter_append]
    have haccount : r.event.accountId = hold.source := by rw [h.event]; exact h.accountId
    by_cases ha : hold.source = a <;> simp [haccount, ha]
  have hmax := (s.account hold.source).valid.version_le
  constructor
  · intro hready
    obtain ⟨hdistinct, hdistinct'⟩ := List.nodup_cons.mp hready.distinct
    obtain ⟨hids, hids'⟩ := List.nodup_cons.mp hready.distinctIds
    have hroom := hready.room
    simp only [List.map_cons, List.count_cons, beq_iff_eq] at hroom
    refine ⟨hready.canExpire, fun hold' hmem row' hrow' => ?_, hdistinct', fun a ha => ?_,
      fun hold' hmem => hready.due hold' (List.mem_cons_of_mem _ hmem),
      fun hold' hmem r' hr' => ?_, hids'⟩
    · rw [hresults, List.mem_append, List.mem_singleton] at hrow'
      rcases hrow' with hrow' | rfl
      · exact hready.unused hold' (List.mem_cons_of_mem _ hmem) row' hrow'
      · rw [hrow]
        exact fun heq => hdistinct (List.mem_map.mpr ⟨hold', hmem, heq.symm⟩)
    · have := hroom a (List.mem_cons_of_mem _ ha)
      rw [hversion]
      split <;> split at this <;> omega
    · rw [h.events, List.mem_append, List.mem_singleton] at hr'
      rcases hr' with hr' | rfl
      · exact hready.newIds hold' (List.mem_cons_of_mem _ hmem) r' hr'
      · rw [h.eventId]
        exact fun heq => hids (List.mem_map.mpr ⟨hold', hmem, heq.symm⟩)
  · rintro ⟨hcan, hready⟩
    refine ⟨List.forall_mem_cons.mpr ⟨hcan.unused, fun hold' hmem row' hrow' => ?_⟩,
      List.nodup_cons.mpr ⟨fun hmem => ?_, hready.distinct⟩, fun a ha => ?_,
      List.forall_mem_cons.mpr ⟨hcan.due, hready.due⟩,
      List.forall_mem_cons.mpr ⟨hcan.newId, fun hold' hmem r' hr' => ?_⟩,
      List.nodup_cons.mpr ⟨fun hmem => ?_, hready.distinctIds⟩⟩
    · exact hready.unused hold' hmem row' (hresults ▸ List.mem_append_left _ hrow')
    · obtain ⟨hold', hmem', heq⟩ := List.mem_map.mp hmem
      exact hready.unused hold' hmem' row (hresults ▸ List.mem_append_right _ List.mem_cons_self)
        (hrow.trans heq.symm)
    · have hroom := hready.room a
      rw [hversion] at hroom
      rw [List.map_cons, List.count_cons]
      simp only [beq_iff_eq]
      by_cases hother : a ∈ holds.map ExpiredHold.source
      · have := hroom hother
        split <;> split at this <;> omega
      · have hself : a = hold.source := by
          rw [List.map_cons, List.mem_cons] at ha
          exact ha.resolve_right hother
        have hne := hcan.room
        rw [List.count_eq_zero.mpr hother, hself, if_pos rfl]
        omega
    · exact hready.newIds hold' hmem r' (h.events ▸ List.mem_append_left _ hr')
    · obtain ⟨hold', hmem', heq⟩ := List.mem_map.mp hmem
      exact hready.newIds hold' hmem' r (h.events ▸ List.mem_append_right _ List.mem_cons_self)
        (h.eventId.trans heq.symm)

/-- What the loop makes of holds that wait: all are released, or one still waits. -/
structure Swept (turns : ExpiredHold → SweepTurn) (holds : List ExpiredHold) (s s' : Store) :
    Prop where
  ledger : s'.Ledger
  frame : ∀ t : UUID, (∀ hold ∈ holds, hold.holdId ≠ t.str) → s'.setOf t = s.setOf t
  expired : Ready turns s holds → ∀ hold ∈ holds, Expired s' hold
  waiting : ¬ Ready turns s holds → ∃ hold ∈ holds, Waiting s' hold

theorem sweepEach_swept (turns : ExpiredHold → SweepTurn) :
    ∀ (holds : List ExpiredHold) (counts : Nat × Nat) {s : Store}, s.Ledger →
      (∀ hold ∈ holds, Waiting s hold) → (holds.map ExpiredHold.holdId).Nodup →
      Swept turns holds s (sweepEach turns holds counts s).2 := by
  intro holds
  induction holds with
  | nil =>
    intro counts s hs _ _
    have hready : Ready turns s [] := ⟨by simp, by simp, by simp, by simp, by simp, by simp⟩
    exact ⟨hs, fun _ _ => rfl, fun _ => by simp, fun h => absurd hready h⟩
  | cons hold holds ih =>
    intro counts s hs hwaiting hnodup
    obtain ⟨expired, skipped⟩ := counts
    obtain ⟨hself, hrest⟩ := List.forall_mem_cons.mp hwaiting
    obtain ⟨hnew, hnodup⟩ := List.nodup_cons.mp hnodup
    have hother : ∀ hold' ∈ holds, ∀ t : UUID, hold'.holdId = t.str → hold.holdId ≠ t.str := by
      intro hold' hmem t ht heq
      exact hnew (heq.trans ht.symm ▸ List.mem_map_of_mem hmem)
    have hledger := hself.ledger_sweepHold hs (turns hold)
    have hturn := fun t => hself.setOf_sweepHold hs (turns hold) (t := t)
    have hkept : ¬ CanExpire s hold (turns hold) →
        Waiting (sweepHold s hold (turns hold)).2 hold := by
      intro hhindered
      refine hself.congr fun t _ => ?_
      rw [Store.setOf, events_of_not_canExpire hs hself hhindered]
      rfl
    cases hresult : (sweepHold s hold (turns hold)).1 with
    | error e =>
      have hend : (sweepEach turns (hold :: holds) (expired, skipped) s).2 =
          (sweepHold s hold (turns hold)).2 := by
        rw [sweepEach]
        generalize sweepHold s hold (turns hold) = outcome at hresult
        obtain ⟨result, s'⟩ := outcome
        cases hresult
        rfl
      have hhindered : ¬ CanExpire s hold (turns hold) := by
        intro hcan
        obtain ⟨⟨result, hok⟩, -⟩ := hcan.written hs hself
        rw [hresult] at hok
        cases hok
      rw [hend]
      exact ⟨hledger, fun t ht => hturn t (ht hold List.mem_cons_self),
        fun hready => absurd hready.canExpire hhindered,
        fun _ => ⟨hold, List.mem_cons_self, hkept hhindered⟩⟩
    | ok result =>
      obtain ⟨counts, hend⟩ : ∃ counts,
          (sweepEach turns (hold :: holds) (expired, skipped) s).2 =
            (sweepEach turns holds counts (sweepHold s hold (turns hold)).2).2 := by
        rw [sweepEach]
        generalize sweepHold s hold (turns hold) = outcome at hresult
        obtain ⟨result', s'⟩ := outcome
        cases hresult
        dsimp only
        split
        · exact ⟨_, rfl⟩
        · exact ⟨_, rfl⟩
      have hswept := ih counts hledger
        (fun hold' hmem => (hrest hold' hmem).congr fun t ht => hturn t (hother hold' hmem t ht))
        hnodup
      have hlater : ∀ t : UUID, hold.holdId = t.str →
          (sweepEach turns holds counts (sweepHold s hold (turns hold)).2).2.setOf t =
            (sweepHold s hold (turns hold)).2.setOf t := fun t ht =>
        hswept.frame t fun hold' hmem heq => hother hold' hmem t heq ht
      rw [hend]
      refine ⟨hswept.ledger, fun t ht => ?_, fun hready => ?_, fun hnot => ?_⟩
      · rw [List.forall_mem_cons] at ht
        rw [hswept.frame t ht.2, hturn t ht.1]
      · obtain ⟨-, r', x, hwritten⟩ := hready.canExpire.written hs hself
        rw [List.forall_mem_cons]
        exact ⟨(hwritten.expired hself).congr hlater,
          hswept.expired ((ready_cons_iff hs hledger hwritten).mp hready).2⟩
      · by_cases hcan : CanExpire s hold (turns hold)
        · obtain ⟨-, r', x, hwritten⟩ := hcan.written hs hself
          obtain ⟨hold', hmem, hwaits⟩ := hswept.waiting fun hready =>
            hnot ((ready_cons_iff hs hledger hwritten).mpr ⟨hcan, hready⟩)
          exact ⟨hold', List.mem_cons_of_mem _ hmem, hwaits⟩
        · exact ⟨hold, List.mem_cons_self, (hkept hcan).congr hlater⟩

/-- The event ends a hold because its time is over. -/
def AccountEvent.expires (t : UUID) : AccountEvent → Bool
  | .holdReleased x => x.holdId = t ∧ x.reason = .expired
  | _ => false

/-- **The sweep has made progress**: no open hold is past its expiry, and each that was
has exactly one release, as expired. -/
structure Progress (now : Datetime) (s s' : Store) : Prop where
  none_left : ∀ a t hold, s'.openHold a t = .ok (some hold) → ¬ hold.expiredAt now
  released_once : ∀ a t hold, s.openHold a t = .ok (some hold) → hold.expiredAt now →
    ∃ r, s'.events.filter (fun r => r.event.expires t) = [r]

theorem Expired.released_once {s : Store} {hold : ExpiredHold} (h : Expired s hold) {t : UUID}
    (hid : hold.holdId = t.str) : ∃ r, s.events.filter (fun r => r.event.expires t) = [r] := by
  obtain ⟨u, r, p, r', x, hu, hset, hp, hr', hreason⟩ := h
  obtain rfl := UUID.str_injective (hu.symm.trans hid)
  have hmem : r' ∈ s.setOf u := by rw [hset]; simp
  have hx : x.holdId = u := by
    have hself := Store.setId_of_mem hmem
    rw [hr'] at hself
    exact Option.some.inj hself
  have hfilter : s.events.filter (fun r => r.event.expires u) =
      (s.setOf u).filter (fun r => r.event.expires u) := by
    rw [Store.setOf, List.filter_filter]
    refine List.filter_congr fun y _ => ?_
    cases hy : y.event <;> simp [AccountEvent.expires, AccountEvent.setId]
    intro hid _
    exact hid
  refine ⟨r', ?_⟩
  rw [hfilter, hset, List.filter_cons_of_neg, List.filter_cons_of_pos, List.filter_nil]
  · simp [hr', AccountEvent.expires, hx, hreason]
  · simp [hp, AccountEvent.expires]

section Sweep

variable {V : Type} {models : ReadModels V} {calls : List Call}
  (h : (storeAfter calls).CaughtUp models) (now : Datetime) (turns : ExpiredHold → SweepTurn)
include h

/-- What a sweep makes of the holds that its query answers. -/
theorem sweep_swept : Swept turns (models.openHoldsExpiredAt now.isoformat) (storeAfter calls)
    (sweep models now turns (storeAfter calls)).2 :=
  sweepEach_swept turns _ (0, 0) (ledger_storeAfter calls)
    (fun hold hmem => ((mem_openHoldsExpiredAt_of_caughtUp h now).1 hold hmem).1)
    (nodup_openHoldsExpiredAt models _)

/-- A hold that still waits is open and past its expiry. -/
theorem not_progress_of_not_ready
    (hnot : ¬ Ready turns (storeAfter calls) (models.openHoldsExpiredAt now.isoformat)) :
    ¬ Progress now (storeAfter calls) (sweep models now turns (storeAfter calls)).2 := by
  intro hprogress
  have hswept := sweep_swept h now turns
  obtain ⟨hold, hmem, t, r, p, hid, hset, hp, ha, hexpires⟩ := hswept.waiting hnot
  refine hprogress.none_left p.accountId t (openHoldOf p)
    (hswept.ledger.coherent.openHold_eq_some.mpr ⟨r, p, hset, hp, rfl, rfl⟩) ?_
  rw [expiredAt_iff, hexpires]
  exact ((mem_openHoldsExpiredAt_of_caughtUp h now).1 hold hmem).2

/-- All answers are released, and what is past its expiry is among the answers. -/
theorem Ready.progress
    (hready : Ready turns (storeAfter calls) (models.openHoldsExpiredAt now.isoformat)) :
    Progress now (storeAfter calls) (sweep models now turns (storeAfter calls)).2 := by
  have hswept := sweep_swept h now turns
  obtain ⟨-, hall⟩ := mem_openHoldsExpiredAt_of_caughtUp h now
  refine ⟨fun a t hold hopen hexpired => ?_, fun a t hold hopen hexpired => ?_⟩
  · obtain ⟨r, p, hset, hp, ha, rfl⟩ := hswept.ledger.coherent.openHold_eq_some.mp hopen
    by_cases hanswered : ∃ answer ∈ models.openHoldsExpiredAt now.isoformat, answer.holdId = t.str
    · obtain ⟨answer, hmem, hid⟩ := hanswered
      obtain ⟨u, r₁, p₁, r₂, x, hu, hset', -⟩ := hswept.expired hready answer hmem
      obtain rfl := UUID.str_injective (hu.symm.trans hid)
      rw [hset] at hset'
      cases hset'
    · push Not at hanswered
      rw [hswept.frame t hanswered] at hset
      have hopen' : (storeAfter calls).openHold a t = .ok (some (openHoldOf p)) :=
        (ledger_storeAfter calls).coherent.openHold_eq_some.mpr ⟨r, p, hset, hp, ha, rfl⟩
      obtain ⟨answer, hmem, hid⟩ := hall a t _ hopen' hexpired
      exact hanswered answer hmem hid
  · obtain ⟨answer, hmem, hid⟩ := hall a t hold hopen hexpired
    exact (hswept.expired hready answer hmem).released_once hid

end Sweep

/-- Read models that have handled the rows. -/
def modelsOf (rows : List EventRow) : ReadModels SqliteInteger.SqliteNumber :=
  (projectionAfter sqliteTier (feedOf rows)).readModels

theorem caughtUp_modelsOf {ι : Type} [DecidableEq ι] (moves : List (SweepMove ι)) :
    (Sweeping.storeAfter moves).CaughtUp (modelsOf (Sweeping.storeAfter moves).events) := by
  obtain ⟨calls, hcalls⟩ := Sweeping.exists_calls moves
  rw [hcalls]
  refine (caughtUp_projectionAfter ?_).1
  rw [feedOf, List.map_map]
  exact List.map_id _

/-- **A sweep makes progress exactly when no turn finds anything in the way**, after any
moves of clients and sweepers, when the read model has caught up. -/
theorem sweep_progress_iff {ι V : Type} [DecidableEq ι] (moves : List (SweepMove ι))
    (models : ReadModels V) (h : (Sweeping.storeAfter moves).CaughtUp models) (now : Datetime)
    (turns : ExpiredHold → SweepTurn) :
    Progress now (Sweeping.storeAfter moves) (sweep models now turns (Sweeping.storeAfter moves)).2 ↔
      Ready turns (Sweeping.storeAfter moves) (models.openHoldsExpiredAt now.isoformat) := by
  obtain ⟨calls, hcalls⟩ := Sweeping.exists_calls moves
  rw [hcalls] at h ⊢
  refine ⟨fun hprogress => ?_, Ready.progress h now turns⟩
  by_contra hnot
  exact not_progress_of_not_ready h now turns hnot hprogress

def holdPlacedMoves : List (SweepMove Unit) :=
  [.call deposit100, .call (hold50 1 validExpectedVersion_one .epoch 20)]

/-- What the surroundings return a day later. -/
def turnADayLater (firstEvent : Nat) : SweepTurn :=
  ⟨⟨7⟩, fun _ => dayAfterEpoch 1, fun k => ⟨Fin.ofNat _ (firstEvent + k)⟩⟩

theorem sweep_progress_iff_placed :
    Progress (dayAfterEpoch 1) (Sweeping.storeAfter holdPlacedMoves)
        (sweep (modelsOf (Sweeping.storeAfter holdPlacedMoves).events) (dayAfterEpoch 1)
          (fun _ => turnADayLater 40) (Sweeping.storeAfter holdPlacedMoves)).2 ↔
      Ready (fun _ => turnADayLater 40) (Sweeping.storeAfter holdPlacedMoves)
        ((modelsOf (Sweeping.storeAfter holdPlacedMoves).events).openHoldsExpiredAt
          (dayAfterEpoch 1).isoformat) :=
  sweep_progress_iff holdPlacedMoves _ (caughtUp_modelsOf holdPlacedMoves) _ _

/-! ### A lost race -/

theorem results_subset {ι : Type} [DecidableEq ι] (moves later : List (SweepMove ι)) :
    (Sweeping.storeAfter moves).results ⊆ (Sweeping.storeAfter (moves ++ later)).results := by
  obtain ⟨calls, hcalls⟩ := Sweeping.exists_calls moves
  obtain ⟨calls', hcalls'⟩ := Sweeping.store_run later (Runs.run Sweeping.next .start moves)
  have hstore : Sweeping.storeAfter (moves ++ later) =
      Runs.run next (Sweeping.storeAfter moves) calls' := by
    rw [Sweeping.storeAfter, Runs.run_append]
    exact hcalls'
  rw [hstore]
  refine (Runs.run_invariant next (P := fun s => s.Ledger ∧
    (Sweeping.storeAfter moves).results ⊆ s.results) ?_ calls' ⟨?_, fun _ h => h⟩).2
  · rintro s call ⟨hs, hsubset⟩
    obtain ⟨rows, hrows⟩ := next_results hs.coherent.readable call
    exact ⟨hs.next, hrows ▸ fun _ h => List.mem_append_left _ (hsubset h)⟩
  · rw [hcalls]
    exact ledger_storeAfter calls

/-- **A result under the expiry id is in the way for ever**: as long as the hold stays
open no sweep makes progress, however late it runs. -/
theorem no_progress_of_result {ι V : Type} [DecidableEq ι] (moves later : List (SweepMove ι))
    {row : ResultRow} (hrow : row ∈ (Sweeping.storeAfter moves).results) {a : String} {t : UUID}
    (hid : row.commandId = expiryCommandId t.str) {hold : OpenHold}
    (hopen : (Sweeping.storeAfter (moves ++ later)).openHold a t = .ok (some hold))
    {now : Datetime} (hexpired : hold.expiredAt now) {models : ReadModels V}
    (h : (Sweeping.storeAfter (moves ++ later)).CaughtUp models)
    (turns : ExpiredHold → SweepTurn) :
    ¬ Progress now (Sweeping.storeAfter (moves ++ later))
      (sweep models now turns (Sweeping.storeAfter (moves ++ later))).2 := by
  have hsubset := results_subset moves later hrow
  obtain ⟨calls, hcalls⟩ := Sweeping.exists_calls (moves ++ later)
  rw [hcalls] at h hopen hsubset ⊢
  refine not_progress_of_not_ready h now turns fun hready => ?_
  obtain ⟨answer, hmem, hanswer⟩ :=
    (mem_openHoldsExpiredAt_of_caughtUp h now).2 a t hold hopen hexpired
  exact hready.unused answer hmem row hsubset (hanswer ▸ hid)

/-- The hold of `hold50`. -/
def placedHold : OpenHold :=
  ⟨⟨2⟩, 50, "bob", "1970-01-01T00:01:00+00:00", ⟨by decide, by decide +kernel⟩⟩

def depositAgain : Call :=
  .of (.deposit ⟨"alice", 50, 2, validAccountId_alice, validAmount_fifty,
    validExpectedVersion_two⟩) ⟨9⟩ .epoch 30

/-- A deposit commits between the sweeper's read of the version and its command. -/
def lostRace : List (SweepMove Unit) :=
  holdPlacedMoves ++ [.query () [⟨placedHold.holdId.str, "alice", "bob", 50, placedHold.expiresAt⟩],
    .fold (), .call depositAgain, .execute () (turnADayLater 40)]

/-- **One lost race blocks the sweep**: the version conflict is persisted under the expiry
id, and whatever the surroundings return the next sweep leaves the hold. -/
theorem lost_race_blocks_sweep :
    (Sweeping.storeAfter lostRace).CaughtUp (modelsOf (Sweeping.storeAfter lostRace).events) ∧
      (Sweeping.storeAfter lostRace).openHold "alice" ⟨2⟩ = .ok (some placedHold) ∧
      placedHold.expiredAt (dayAfterEpoch 1) ∧
      ∀ turns, ¬ Progress (dayAfterEpoch 1) (Sweeping.storeAfter lostRace)
        (sweep (modelsOf (Sweeping.storeAfter lostRace).events) (dayAfterEpoch 1) turns
          (Sweeping.storeAfter lostRace)).2 := by
  have hrow : ∃ row ∈ (Sweeping.storeAfter lostRace).results,
      row.commandId = expiryCommandId (⟨2⟩ : UUID).str := by decide +kernel
  have hopen : (Sweeping.storeAfter lostRace).openHold "alice" ⟨2⟩ = .ok (some placedHold) := by
    decide +kernel
  have hexpired : placedHold.expiredAt (dayAfterEpoch 1) := by decide +kernel
  obtain ⟨row, hmem, hid⟩ := hrow
  refine ⟨caughtUp_modelsOf lostRace, hopen, hexpired, fun turns => ?_⟩
  exact no_progress_of_result lostRace [] hmem hid hopen hexpired (caughtUp_modelsOf lostRace) turns

end Cloudscale
