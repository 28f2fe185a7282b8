import Cloudscale.Ledger.Tracking

/-!
# What a call does to the store

`legRows` are the rows that a decision appends, and `Fits` says that the
constraints of the log let them in; `appendLegs_run` and `appendLegs_of_fits` are
the two directions of the loop that appends them.

`Executed` lists the ways in which a call returns: the stored result is replayed,
the command id is refused, a rejection is persisted, or the decided events are
appended with their result.  `executed_of_ok` is the inversion, `execute_error`
the rollback, and `execute_accepts` the other direction for the accepted case.
-/

namespace Cloudscale

open Checked Python Streams Transactions

/-! ### Rows -/

def legRow (request : NormalizedCommand) (now : Datetime) (eventId : UUID)
    (leg : AccountEvent × Int) : EventRow where
  eventId := eventId
  seq := leg.2
  event := leg.1
  schemaVersion := currentSchemaVersion leg.1.type
  occurredAt := now
  correlationId := request.correlationId
  causationId := request.commandId
  commandId := request.commandId

/-- The rows of the legs, from the `n`-th event id on. -/
def legRows (request : NormalizedCommand) (now : Datetime) (eventIds : Nat → UUID) :
    Nat → List (AccountEvent × Int) → List EventRow
  | _, [] => []
  | n, leg :: legs =>
    legRow request now (eventIds n) leg :: legRows request now eventIds (n + 1) legs

section Rows

variable {request : NormalizedCommand} {now : Datetime} {eventIds : Nat → UUID}

theorem map_leg_legRows : ∀ {n : Nat} {legs : List (AccountEvent × Int)},
    (legRows request now eventIds n legs).map (fun r => (r.event, r.seq)) = legs := by
  intro n legs
  induction legs generalizing n with
  | nil => rfl
  | cons leg legs ih => rw [legRows, List.map_cons, ih]; rfl

theorem map_event_legRows {n : Nat} {legs : List (AccountEvent × Int)} :
    (legRows request now eventIds n legs).map EventRow.event = legs.map Prod.fst := by
  have hlegs : (legRows request now eventIds n legs).map (fun r => (r.event, r.seq)) = legs :=
    map_leg_legRows
  have hmap := congrArg (List.map Prod.fst) hlegs
  rwa [List.map_map] at hmap

theorem exists_of_mem_legRows : ∀ {n : Nat} {legs : List (AccountEvent × Int)} {r : EventRow},
    r ∈ legRows request now eventIds n legs →
      ∃ i leg, n ≤ i ∧ i < n + legs.length ∧ leg ∈ legs ∧ r = legRow request now (eventIds i) leg := by
  intro n legs
  induction legs generalizing n with
  | nil => intro r hr; cases hr
  | cons leg legs ih =>
    intro r hr
    rw [List.length_cons]
    rcases List.mem_cons.mp hr with rfl | hr
    · exact ⟨n, leg, le_rfl, by omega, List.mem_cons_self, rfl⟩
    · obtain ⟨i, leg', hle, hlt, hmem, rfl⟩ := ih hr
      exact ⟨i, leg', by omega, by omega, List.mem_cons_of_mem leg hmem, rfl⟩

end Rows

/-- Two rows that a uniqueness constraint of the log excludes. -/
def Clash (r r' : EventRow) : Prop := (r.stream = r'.stream ∧ r.seq = r'.seq) ∨ r.eventId = r'.eventId

/-- The log takes the rows, one after the other. -/
def Fits : List EventRow → List EventRow → Prop
  | _, [] => True
  | events, row :: rows => (∀ r ∈ events, ¬ Clash r row) ∧ Fits (events ++ [row]) rows

theorem fits_of_pairwise : ∀ {rows events : List EventRow},
    (∀ r ∈ events, ∀ row ∈ rows, ¬ Clash r row) → rows.Pairwise (fun r r' => ¬ Clash r r') →
      Fits events rows := by
  intro rows
  induction rows with
  | nil => intro events _ _; trivial
  | cons row rows ih =>
    intro events hevents hrows
    obtain ⟨hrow, hrows⟩ := List.pairwise_cons.mp hrows
    refine ⟨fun r hr => hevents r hr row List.mem_cons_self, ih (fun r hr row' hrow' => ?_) hrows⟩
    rcases List.mem_append.mp hr with hr | hr
    · exact hevents r hr row' (List.mem_cons_of_mem row hrow')
    · rw [List.mem_singleton.mp hr]
      exact hrow row' hrow'

theorem Store.appendEvent_eq_ok {s s' : Store} {row : EventRow} :
    s.appendEvent row = .ok s' ↔
      (∀ r ∈ s.events, ¬ Clash r row) ∧ s' = { s with events := s.events ++ [row] } := by
  rw [appendEvent]
  split
  next hclash =>
    obtain ⟨r, hr, hrow⟩ := hclash
    exact ⟨(fun h => nomatch h), fun h => absurd hrow (h.1 r hr)⟩
  next hclash =>
    push Not at hclash
    rw [Except.ok.injEq, eq_comm]
    refine ⟨fun h => ⟨fun r hr hrow => ?_, h⟩, fun h => h.2⟩
    obtain ⟨hseq, hid⟩ := hclash r hr
    rcases hrow with ⟨hstream, hrow⟩ | hrow
    · exact hseq hstream hrow
    · exact hid hrow

theorem Store.persistResult_eq_ok {s s' : Store} {row : ResultRow} :
    s.persistResult row = .ok s' ↔
      (∀ r ∈ s.results, r.commandId ≠ row.commandId) ∧
        s' = { s with results := s.results ++ [row] } := by
  rw [persistResult]
  split
  next hused =>
    obtain ⟨r, hr, hrow⟩ := hused
    exact ⟨(fun h => nomatch h), fun h => absurd hrow (h.1 r hr)⟩
  next hused =>
    push Not at hused
    rw [Except.ok.injEq, eq_comm]
    exact ⟨fun h => ⟨hused, h⟩, fun h => h.2⟩

/-! ### Postings of a result -/

theorem mem_setPosting_self (p : Posting) : ∀ ps : List Posting, p ∈ setPosting p ps := by
  intro ps
  induction ps with
  | nil => exact List.mem_singleton.mpr rfl
  | cons q ps ih =>
    rw [setPosting]
    split
    · exact List.mem_cons_self
    · exact List.mem_cons_of_mem q ih

theorem mem_setPosting_of_ne {p q : Posting} (hne : q.accountId ≠ p.accountId) :
    ∀ {ps : List Posting}, q ∈ ps → q ∈ setPosting p ps := by
  intro ps
  induction ps with
  | nil => intro hq; cases hq
  | cons x ps ih =>
    intro hq
    rw [setPosting]
    split
    next hx =>
      rcases List.mem_cons.mp hq with rfl | hq
      · exact absurd hx hne
      · exact List.mem_cons_of_mem p hq
    next =>
      rcases List.mem_cons.mp hq with rfl | hq
      · exact List.mem_cons_self
      · exact List.mem_cons_of_mem x (ih hq)

theorem map_accountId_setPosting (p : Posting) : ∀ ps : List Posting,
    (setPosting p ps).map Posting.accountId =
      if p.accountId ∈ ps.map Posting.accountId then ps.map Posting.accountId
      else ps.map Posting.accountId ++ [p.accountId] := by
  intro ps
  induction ps with
  | nil => rfl
  | cons q ps ih =>
    rw [setPosting]
    by_cases hq : q.accountId = p.accountId
    · rw [if_pos hq, if_pos (by simp [hq])]
      simp [hq]
    · rw [if_neg hq, List.map_cons, List.map_cons, ih]
      by_cases hp : p.accountId ∈ ps.map Posting.accountId
      · rw [if_pos hp, if_pos (List.mem_cons_of_mem _ hp)]
      · rw [if_neg hp, if_neg]
        · rfl
        · rw [List.mem_cons, not_or]
          exact ⟨Ne.symm hq, hp⟩

theorem nodup_setPosting {p : Posting} {ps : List Posting}
    (h : (ps.map Posting.accountId).Nodup) : ((setPosting p ps).map Posting.accountId).Nodup := by
  rw [map_accountId_setPosting]
  split
  next => exact h
  next hp => exact h.append (List.nodup_singleton _) (by simpa using hp)

/-- The postings name each account once, and the last envelope on the addressed
stream is the posting of that stream. -/
structure Addresses (accountId : String) (postings : List Posting)
    (addressed : Option EventEnvelope) : Prop where
  nodup : (postings.map Posting.accountId).Nodup
  posted : ∀ envelope ∈ addressed, ∃ p ∈ postings, p.accountId = accountId ∧
    p.eventId = envelope.eventId ∧ p.committedVersion = envelope.streamVersion

/-- What the loop makes of its postings, with one leg more. -/
theorem Addresses.setPosting {anchor : String} {postings : List Posting}
    {addressed : Option EventEnvelope} (h : Addresses anchor postings addressed)
    {envelope : EventEnvelope} {posting : Posting} {event : AccountEvent}
    (haccount : posting.accountId = event.accountId) (hevent : posting.eventId = envelope.eventId)
    (hversion : posting.committedVersion = envelope.streamVersion) :
    Addresses anchor (setPosting posting postings)
      (if event.accountId = anchor then some envelope else addressed) := by
  refine ⟨nodup_setPosting h.nodup, fun env henv => ?_⟩
  split at henv
  next hself =>
    cases henv
    exact ⟨posting, mem_setPosting_self posting postings, haccount.trans hself, hevent, hversion⟩
  next hother =>
    obtain ⟨p, hp, hpaccount, hfields⟩ := h.posted env henv
    refine ⟨p, mem_setPosting_of_ne ?_ hp, hpaccount, hfields⟩
    rw [hpaccount, haccount]
    exact Ne.symm hother

/-! ### Appending -/

section Appending

variable {call : Call} {request : NormalizedCommand} {now : Datetime}

/-- **Appending adds the rows of the legs**, with versions in range. -/
theorem appendLegs_run : ∀ {legs : List (AccountEvent × Int)} {postings : List Posting}
    {addressed : Option EventEnvelope} {session session' : Session}
    {p : List Posting × Option EventEnvelope},
    (appendLegs call.logStorage request now call.eventIdFactory legs postings addressed).run session =
      .ok (p, session') →
    (∀ leg ∈ legs, 1 ≤ leg.2 ∧ leg.2 ≤ maxSignedBigint) ∧
      Fits session.store.events (legRows request now call.eventIds session.issued legs) ∧
      session'.store.events =
        session.store.events ++ legRows request now call.eventIds session.issued legs ∧
      session'.store.results = session.store.results ∧ session'.readings = session.readings := by
  intro legs
  induction legs with
  | nil =>
    intro postings addressed session session' p h
    obtain ⟨-, rfl⟩ := run_pure_eq_ok.mp h
    exact ⟨(fun _ h => nomatch h), trivial, (List.append_nil _).symm, rfl, rfl⟩
  | cons leg legs ih =>
    obtain ⟨event, version⟩ := leg
    intro postings addressed session session' p h
    rw [appendLegs] at h
    obtain ⟨eventId, session₁, hid, h⟩ := run_bind_eq_ok.mp h
    cases hid
    obtain ⟨envelope, session₂, hlift, h⟩ := run_bind_eq_ok.mp h
    obtain ⟨henvelope, rfl⟩ := run_ofExcept_eq_ok.mp hlift
    obtain ⟨u, session₃, happend, h⟩ := run_bind_eq_ok.mp h
    obtain ⟨store, hstore, hsession⟩ := bind_eq_ok.mp happend
    obtain ⟨hclash, rfl⟩ := Store.appendEvent_eq_ok.mp hstore
    cases hsession
    obtain ⟨posting, session₄, hposting, h⟩ := run_bind_eq_ok.mp h
    obtain ⟨-, rfl⟩ := run_ofExcept_eq_ok.mp hposting
    have hwraps := EventEnvelope.fromDomainEvent_wraps henvelope
    have hrow : EventRow.ofEnvelope envelope event =
        legRow request now (call.eventIds session.issued) (event, version) := by
      rw [EventRow.ofEnvelope, hwraps.eventId, hwraps.streamVersion, hwraps.schemaVersion,
        hwraps.occurredAt, hwraps.correlationId, hwraps.causationId, hwraps.commandId]
      rfl
    rw [hrow] at hclash h
    obtain ⟨hversions, hfits, hevents, hresults, hreadings⟩ := ih h
    refine ⟨?_, ⟨hclash, hfits⟩, ?_, hresults, hreadings⟩
    · rw [List.forall_mem_cons]
      exact ⟨hwraps.streamVersion ▸ envelope.stream_version_ok, hversions⟩
    · rw [hevents, List.append_assoc]
      rfl

/-- **Legs that fit are appended**, and the last one on the addressed stream is found. -/
theorem appendLegs_of_fits : ∀ {legs : List (AccountEvent × Int)} {postings : List Posting}
    {addressed : Option EventEnvelope} {session : Session},
    (∀ leg ∈ legs, 1 ≤ leg.2 ∧ leg.2 ≤ maxSignedBigint) →
    Fits session.store.events (legRows request now call.eventIds session.issued legs) →
    Addresses request.command.accountId postings addressed →
    ((∃ leg ∈ legs, leg.1.accountId = request.command.accountId) ∨ addressed.isSome) →
    ∃ postings' envelope session',
      (appendLegs call.logStorage request now call.eventIdFactory legs postings addressed).run session =
        .ok ((postings', some envelope), session') ∧
      Addresses request.command.accountId postings' (some envelope) := by
  intro legs
  induction legs with
  | nil =>
    intro postings addressed session _ _ haddresses hfound
    rcases hfound with ⟨leg, hleg, -⟩ | hfound
    · cases hleg
    · obtain ⟨envelope, rfl⟩ := Option.isSome_iff_exists.mp hfound
      exact ⟨postings, envelope, session, rfl, haddresses⟩
  | cons leg legs ih =>
    obtain ⟨event, version⟩ := leg
    intro postings addressed session hversions hfits haddresses hfound
    rw [List.forall_mem_cons] at hversions
    obtain ⟨hversion, hversions⟩ := hversions
    obtain ⟨hclash, hfits⟩ := hfits
    obtain ⟨envelope, henvelope⟩ : ∃ envelope, EventEnvelope.fromDomainEvent event
        (call.eventIds session.issued) version now request.correlationId request.commandId
        request.commandId = .ok envelope := EventEnvelope.fromDomainEvent_of hversion
    have hwraps := EventEnvelope.fromDomainEvent_wraps henvelope
    set posting : Posting := ⟨event.accountId, envelope.eventId, version, event.account_ok,
      hversion⟩ with hposting
    have hrow : EventRow.ofEnvelope envelope event =
        legRow request now (call.eventIds session.issued) (event, version) := by
      rw [EventRow.ofEnvelope, hwraps.eventId, hwraps.streamVersion, hwraps.schemaVersion,
        hwraps.occurredAt, hwraps.correlationId, hwraps.causationId, hwraps.commandId]
      rfl
    set session' : Session :=
      ⟨{ session.store with events := session.store.events ++
        [legRow request now (call.eventIds session.issued) (event, version)] },
        session.readings, session.issued + 1⟩ with hsession
    have happend : (call.logStorage.appendEvent envelope event).run
        { session with issued := session.issued + 1 } = .ok ((), session') := by
      show (session.store.appendEvent (EventRow.ofEnvelope envelope event) >>= _) = _
      rw [hrow, Store.appendEvent_eq_ok.mpr ⟨hclash, rfl⟩, ok_bind]
      rfl
    have haddresses' : Addresses request.command.accountId (setPosting posting postings)
        (if event.accountId = request.command.accountId then some envelope else addressed) :=
      haddresses.setPosting rfl rfl hwraps.streamVersion.symm
    have hfound' : (∃ leg ∈ legs, leg.1.accountId = request.command.accountId) ∨
        (if event.accountId = request.command.accountId then some envelope
          else addressed).isSome := by
      split
      next => exact Or.inr rfl
      next hother =>
        rcases hfound with ⟨leg, hleg, haccount⟩ | hfound
        · rcases List.mem_cons.mp hleg with rfl | hleg
          · exact absurd haccount hother
          · exact Or.inl ⟨leg, hleg, haccount⟩
        · exact Or.inr hfound
    obtain ⟨postings', env, session'', hrun, hresult⟩ :=
      @ih _ _ session' hversions hfits haddresses' hfound'
    refine ⟨postings', env, session'', ?_, hresult⟩
    rw [appendLegs]
    rw [run_bind_of (show call.eventIdFactory.run session =
      .ok (call.eventIds session.issued, { session with issued := session.issued + 1 }) from rfl),
      run_bind_of (run_ofExcept_of henvelope _), run_bind_of happend,
      run_bind_of (run_ofExcept_of posting.new_self _)]
    exact hrun

end Appending

/-! ### Results -/

theorem Store.storedResult_eq_none {s : Store} {commandId : UUID} :
    s.storedResult commandId = .ok none ↔ ∀ row ∈ s.results, row.commandId ≠ commandId := by
  rw [storedResult]
  cases hrow : s.results.find? (fun row => row.commandId = commandId) with
  | none =>
    refine ⟨fun _ row hmem hid => ?_, fun _ => rfl⟩
    exact List.find?_eq_none.mp hrow row hmem (by simpa using hid)
  | some row =>
    refine ⟨fun h => ?_, fun h => ?_⟩
    · obtain ⟨r, -, hr⟩ := map_eq_ok.mp h
      cases hr
    · exact absurd (by simpa using List.find?_some hrow) (h row (List.mem_of_find?_eq_some hrow))

structure Keeps (row : ResultRow) (r : CommandResult) : Prop where
  commandId : row.commandId = r.commandId
  requestHash : row.requestHash = r.requestHash
  resultJson : row.resultJson = r.toJson

/-- The result is an answer to the request. -/
structure Answers (r : CommandResult) (request : NormalizedCommand) : Prop where
  commandId : r.commandId = request.commandId
  requestHash : r.requestHash = request.requestHash

theorem persistResult_run {call : Call} {r : CommandResult} {session session' : Session} {u : Unit}
    (h : (call.persistResult r).run session = .ok (u, session')) :
    (∀ row ∈ session.store.results, row.commandId ≠ r.commandId) ∧
      ∃ row, Keeps row r ∧
        session'.store = ⟨session.store.events, session.store.results ++ [row]⟩ := by
  rw [Call.persistResult] at h
  obtain ⟨createdAt, session₁, htick, h⟩ := run_bind_eq_ok.mp h
  cases htick
  obtain ⟨store, hstore, h⟩ := bind_eq_ok.mp h
  cases h
  obtain ⟨hfresh, rfl⟩ := Store.persistResult_eq_ok.mp hstore
  exact ⟨hfresh, ⟨r.commandId, r.requestHash, r.toJson, call.clock session.readings⟩,
    ⟨rfl, rfl, rfl⟩, rfl⟩

theorem persistResult_of {call : Call} {r : CommandResult} {session : Session}
    (h : ∀ row ∈ session.store.results, row.commandId ≠ r.commandId) :
    ∃ session', (call.persistResult r).run session = .ok ((), session') := by
  have htick : call.tick.run session =
      .ok (call.clock session.readings, { session with readings := session.readings + 1 }) := rfl
  rw [Call.persistResult, run_bind_of htick]
  have hstore : session.store.persistResult
      ⟨r.commandId, r.requestHash, r.toJson, call.clock session.readings⟩ = .ok _ :=
    Store.persistResult_eq_ok.mpr ⟨h, rfl⟩
  exact ⟨_, bind_of hstore _⟩

/-- The answers of a decision that is refused. -/
structure Refusal (outcome : CommandOutcome) (errorCode : String) (httpStatus : Int) : Prop where
  outcome_ne : outcome ≠ .accepted
  code_ne : errorCode ≠ ""
  status : 400 ≤ httpStatus ∧ httpStatus < 500

theorem rejection_of {outcome : CommandOutcome} {errorCode : String} {httpStatus : Int}
    (h : Refusal outcome errorCode httpStatus) (request : NormalizedCommand) (s : AccountState)
    (createdAt : Datetime) :
    ∃ r, rejection request outcome errorCode httpStatus s.version createdAt = .ok r := by
  refine CommandResult.new_of request.command.account_ok request.command.version_ok
    ⟨s.valid.version_nonneg, s.valid.version_le⟩ ?_ (by simp) (by simpa using h.code_ne) ?_
  · have := h.status
    omega
  · rw [OutcomeFields, if_neg h.outcome_ne]
    exact ⟨rfl, rfl, by simp, h.status, rfl⟩

theorem refusal_rejectionFor (error : DomainError) :
    Refusal (rejectionFor error).1 error.code (rejectionFor error).2 := by
  refine ⟨?_, error.kind.code_ne_empty, ?_⟩ <;> rw [rejectionFor] <;> split <;> decide

theorem rejectionFor_ne_conflict (error : DomainError) :
    (rejectionFor error).1 ≠ .commandIdConflict := by
  rw [rejectionFor]
  split <;> decide

/-! ### Executing -/

/-- **The ways in which a call returns**, with the store it leaves. -/
inductive Executed (s : Store) (call : Call) : CommandResult → Store → Prop
  | replayed {r : CommandResult}
      (found : s.storedResult call.request.commandId = .ok (some r))
      (same : r.requestHash = call.request.requestHash) : Executed s call r s
  | conflicted {stored r : CommandResult}
      (found : s.storedResult call.request.commandId = .ok (some stored))
      (different : stored.requestHash ≠ call.request.requestHash)
      (outcome : r.outcome = .commandIdConflict) : Executed s call r s
  | rejected {r : CommandResult} {row : ResultRow}
      (fresh : ∀ row ∈ s.results, row.commandId ≠ call.request.commandId)
      (outcome : r.outcome ≠ .accepted ∧ r.outcome ≠ .commandIdConflict)
      (answers : Answers r call.request) (keeps : Keeps row r) :
      Executed s call r ⟨s.events, s.results ++ [row]⟩
  | accepted {r : CommandResult} {row : ResultRow} {events : List AccountEvent}
      (fresh : ∀ row ∈ s.results, row.commandId ≠ call.request.commandId)
      (version : call.request.command.expectedVersion =
        (s.account call.request.command.accountId).version)
      (decided : Decided s call.request (call.clock 0) events)
      (versions : ∀ leg ∈ s.number events, 1 ≤ leg.2 ∧ leg.2 ≤ maxSignedBigint)
      (fits : Fits s.events
        (legRows call.request (call.clock 0) call.eventIds 0 (s.number events)))
      (absorbed : s.Absorbs events) (outcome : r.outcome = .accepted)
      (answers : Answers r call.request) (keeps : Keeps row r) :
      Executed s call r
        ⟨s.events ++ legRows call.request (call.clock 0) call.eventIds 0 (s.number events),
          s.results ++ [row]⟩

section Executing

variable {s : Store} {call : Call}

theorem execute_error {e : PyError} (h : (execute s call).1 = .error e) : next s call = s := by
  rw [next]
  rw [execute] at h ⊢
  split
  next hrun => rw [hrun] at h; cases h
  next => rfl

theorem persistedRejection_run {outcome : CommandOutcome} {errorCode : String}
    {httpStatus currentVersion : Int} {createdAt : Datetime} {t t' : TrackedSession}
    {r : CommandResult}
    (h : (persistedRejection call.storage call.request outcome errorCode httpStatus currentVersion
      createdAt).run t = .ok (r, t')) :
    r.outcome = outcome ∧ Answers r call.request ∧ ∃ row, Keeps row r ∧
      t'.store = ⟨t.store.events, t.store.results ++ [row]⟩ := by
  rw [persistedRejection] at h
  obtain ⟨result, t₁, hlift, hrest⟩ := run_bind_eq_ok.mp h
  obtain ⟨hresult, rfl⟩ := run_ofExcept_eq_ok.mp hlift
  obtain ⟨hid, hhash, houtcome, -⟩ := CommandResult.new_fields hresult
  obtain ⟨u, t₂, hpersist, hpure⟩ := run_bind_eq_ok.mp hrest
  obtain ⟨rfl, rfl⟩ := run_pure_eq_ok.mp hpure
  obtain ⟨session, hwrite, rfl⟩ := Call.onSession_eq_ok.mp hpersist
  exact ⟨houtcome, ⟨hid, hhash⟩, (persistResult_run hwrite).2⟩

theorem persistedRejection_of {outcome : CommandOutcome} {errorCode : String} {httpStatus : Int}
    (h : Refusal outcome errorCode httpStatus) (state : AccountState) (createdAt : Datetime)
    (t : TrackedSession)
    (hfresh : ∀ row ∈ t.store.results, row.commandId ≠ call.request.commandId) :
    ∃ r t', (persistedRejection call.storage call.request outcome errorCode httpStatus
      state.version createdAt).run t = .ok (r, t') ∧ r.outcome = outcome := by
  obtain ⟨r, hrejection⟩ := rejection_of h call.request state createdAt
  obtain ⟨hid, -, houtcome, -⟩ := CommandResult.new_fields hrejection
  obtain ⟨session', hpersist⟩ : ∃ session', (call.persistResult r).run t.session =
      .ok ((), session') := persistResult_of fun row hrow => by rw [hid]; exact hfresh row hrow
  refine ⟨r, t.setSession session', ?_, houtcome⟩
  rw [persistedRejection, run_bind_of (run_ofExcept_of hrejection _)]
  exact run_bind_of (Call.onSession_of hpersist)

/-- **How a call returns, step by step**: what it read, decided and appended, and the
store it leaves.  Nothing is asked of the store. -/
inductive Returned (s : Store) (call : Call) : CommandResult → Store → Prop
  | replayed {r : CommandResult}
      (found : s.storedResult call.request.commandId = .ok (some r))
      (same : r.requestHash = call.request.requestHash) : Returned s call r s
  | conflicted {stored r : CommandResult}
      (found : s.storedResult call.request.commandId = .ok (some stored))
      (different : stored.requestHash ≠ call.request.requestHash)
      (outcome : r.outcome = .commandIdConflict) : Returned s call r s
  | rejected {r : CommandResult} {row : ResultRow}
      (fresh : ∀ row ∈ s.results, row.commandId ≠ call.request.commandId)
      (outcome : r.outcome ≠ .accepted ∧ r.outcome ≠ .commandIdConflict)
      (answers : Answers r call.request) (keeps : Keeps row r) :
      Returned s call r ⟨s.events, s.results ++ [row]⟩
  | accepted {r : CommandResult} {row : ResultRow} {state : AccountState}
      {legs : List (AccountEvent × Int)} {postings : List Posting} {addressed : EventEnvelope}
      {session : Session}
      (fresh : ∀ row ∈ s.results, row.commandId ≠ call.request.commandId)
      (folded : s.foldStream call.request.command.accountId = .ok state)
      (version : call.request.command.expectedVersion = state.version)
      (decided : decideLegs s.reads call.request state (call.clock 0) = .ok legs)
      (appended : (appendLegs call.logStorage call.request (call.clock 0) call.eventIdFactory legs []
        none).run ⟨s, 1, 0⟩ = .ok ((postings, some addressed), session))
      (taken : s.Takes legs)
      (result : CommandResult.new call.request.commandId call.request.requestHash .accepted
        call.request.command.accountId call.request.command.expectedVersion state.version
        (some addressed.streamVersion) (some addressed.eventId) call.request.correlationId none 201
        (call.clock 0) postings = .ok r) (keeps : Keeps row r) :
      Returned s call r
        ⟨s.events ++ legRows call.request (call.clock 0) call.eventIds 0 legs, s.results ++ [row]⟩

/-- The transaction of a new command id, once it has folded its stream and read the clock. -/
def Call.opened (s : Store) (call : Call) (state : AccountState) : TrackedSession :=
  (s.begin.track call.request.command.accountId state).setSession ⟨s, 1, 0⟩

theorem reading_opened {state : AccountState}
    (h : s.foldStream call.request.command.accountId = .ok state) :
    Reading s (call.opened s state) :=
  ((reading_begin s).track h).setSession rfl

theorem knows_opened (state : AccountState) :
    (call.opened s state).Knows call.request.command.accountId :=
  TrackedSession.knows_track.mpr (Or.inl rfl)

theorem Call.stored_begin (call : Call) {stored : Option CommandResult}
    (h : s.storedResult call.request.commandId = .ok stored) :
    (call.storage.storedResult call.request.commandId).run s.begin = .ok (stored, s.begin) :=
  (Call.storedResult_eq_ok call).mpr ⟨h, rfl⟩

theorem Call.fold_opened (call : Call) {state : AccountState}
    (h : s.foldStream call.request.command.accountId = .ok state) :
    (call.storage.foldStream call.request.command.accountId).run s.begin =
      .ok (state, s.begin.track call.request.command.accountId state) :=
  Call.foldStream_eq_ok.mpr ⟨h, rfl⟩

theorem Call.tick_opened (call : Call) (state : AccountState) :
    (Call.onSession call.tick).run (s.begin.track call.request.command.accountId state) =
      .ok (call.clock 0, call.opened s state) := rfl

/-- What is done once the legs are appended. -/
def Call.conclude (call : Call) (state : AccountState) :
    List Posting × Option EventEnvelope → TrackedTransaction CommandResult
  | (_, none) => throw (.runtimeError "command produced no leg on its addressed stream")
  | (postings, some addressed) => do
    let result ← MonadExcept.ofExcept (CommandResult.new call.request.commandId
      call.request.requestHash .accepted call.request.command.accountId
      call.request.command.expectedVersion state.version (some addressed.streamVersion)
      (some addressed.eventId) call.request.correlationId none 201 (call.clock 0) postings)
    call.storage.persistResult result
    pure result

theorem returned_of_ok {r : CommandResult} (h : (execute s call).1 = .ok r) :
    Returned s call r (next s call) := by
  have hrun : ∃ t, call.decision.run s.begin = .ok (r, t) ∧ next s call = t.store := by
    rw [next]
    rw [execute] at h ⊢
    split at h
    next r' t hrun =>
      cases h
      exact ⟨t, hrun, rfl⟩
    next => cases h
  obtain ⟨t, hrun, hnext⟩ := hrun
  rw [hnext]
  rw [Call.decision, executeCommandDecision] at hrun
  obtain ⟨stored, t₁, hread, hrun⟩ := run_bind_eq_ok.mp hrun
  obtain ⟨hstored, rfl⟩ := (Call.storedResult_eq_ok call).mp hread
  cases stored with
  | some stored =>
    dsimp only at hrun
    split at hrun
    next hsame =>
      obtain ⟨rfl, rfl⟩ := run_pure_eq_ok.mp hrun
      exact .replayed hstored hsame
    next hdifferent =>
      obtain ⟨current, t₂, hfold, hrun⟩ := run_bind_eq_ok.mp hrun
      obtain ⟨-, rfl⟩ := Call.foldStream_eq_ok.mp hfold
      obtain ⟨createdAt, t₃, htick, hrun⟩ := run_bind_eq_ok.mp hrun
      cases htick
      obtain ⟨hnew, rfl⟩ := run_ofExcept_eq_ok.mp hrun
      exact .conflicted hstored hdifferent (CommandResult.new_fields hnew).2.2.1
  | none =>
    have hfresh := Store.storedResult_eq_none.mp hstored
    dsimp only at hrun
    obtain ⟨state, t₂, hfold, hrun⟩ := run_bind_eq_ok.mp hrun
    obtain ⟨hfolded, rfl⟩ := Call.foldStream_eq_ok.mp hfold
    split at hrun
    next =>
      obtain ⟨createdAt, t₃, htick, hrun⟩ := run_bind_eq_ok.mp hrun
      cases htick
      obtain ⟨houtcome, hanswers, row, hkeeps, hstore⟩ := persistedRejection_run hrun
      rw [hstore]
      exact .rejected hfresh (by rw [houtcome]; decide) hanswers hkeeps
    next hversion =>
      rw [not_not] at hversion
      obtain ⟨now, t₃, htick, hrun⟩ := run_bind_eq_ok.mp hrun
      cases htick
      obtain ⟨decision, t₄, hdecision, hrun⟩ := run_bind_eq_ok.mp hrun
      cases decision with
      | inr error =>
        obtain ⟨e, -, -, rfl⟩ := run_attempt_inr.mp hdecision
        obtain ⟨houtcome, hanswers, row, hkeeps, hstore⟩ := persistedRejection_run hrun
        rw [hstore]
        refine .rejected hfresh ?_ hanswers hkeeps
        rw [houtcome]
        exact ⟨(refusal_rejectionFor error).outcome_ne, rejectionFor_ne_conflict error⟩
      | inl legs =>
        obtain ⟨hlegs, hdecides⟩ := decideLegs_run_ok call (reading_opened hfolded)
          (knows_opened state) (run_attempt_inl.mp hdecision)
        obtain ⟨⟨postings, addressed⟩, t₅, happend, hrun⟩ := run_bind_eq_ok.mp hrun
        obtain ⟨hlog, happlies⟩ := appendLegs_iff.mp ⟨t₅, happend, rfl⟩
        rw [hdecides.session] at hlog
        have htaken := (Store.takes_iff hdecides.reading hdecides.knows).mpr happlies
        obtain ⟨-, -, hevents, hresults, -⟩ := appendLegs_run hlog
        cases addressed with
        | none => cases hrun
        | some addressed =>
          obtain ⟨result, t₆, hlift, hrest⟩ := run_bind_eq_ok.mp hrun
          obtain ⟨hresult, rfl⟩ := run_ofExcept_eq_ok.mp hlift
          obtain ⟨u, t₇, hpersist, hpure⟩ := run_bind_eq_ok.mp hrest
          obtain ⟨rfl, rfl⟩ := run_pure_eq_ok.mp hpure
          obtain ⟨session, hwrite, rfl⟩ := Call.onSession_eq_ok.mp hpersist
          obtain ⟨-, row, hkeeps, hstore⟩ := persistResult_run hwrite
          rw [hevents, hresults] at hstore
          rw [show (t₆.setSession session).store = session.store from rfl, hstore]
          exact .accepted hfresh hfolded hversion hlegs hlog htaken hresult hkeeps

/-- **Every call that returns does one of four things.** -/
theorem executed_of_ok (hs : s.Readable) {r : CommandResult} (h : (execute s call).1 = .ok r) :
    Executed s call r (next s call) := by
  have hreturned := returned_of_ok h
  generalize next s call = s' at hreturned ⊢
  cases hreturned with
  | replayed found same => exact .replayed found same
  | conflicted found different outcome => exact .conflicted found different outcome
  | rejected fresh outcome answers keeps => exact .rejected fresh outcome answers keeps
  | accepted fresh folded version decided appended taken result keeps =>
    rw [Store.foldStream_eq hs, Except.ok.injEq] at folded
    subst folded
    obtain ⟨events, hdecided, rfl⟩ := (decideLegs_eq_ok hs).mp decided
    obtain ⟨hversions, hfits, -⟩ := appendLegs_run appended
    obtain ⟨hid, hhash, houtcome, -⟩ := CommandResult.new_fields result
    exact .accepted fresh version hdecided hversions hfits ((Store.takes_number hs).mp taken)
      houtcome ⟨hid, hhash⟩ keeps

/-- **A new command id at the current version of its stream**: what is decided is rejected, or
appended and concluded. -/
theorem decision_run {state : AccountState}
    (hfresh : ∀ row ∈ s.results, row.commandId ≠ call.request.commandId)
    (hfold : s.foldStream call.request.command.accountId = .ok state)
    (hversion : call.request.command.expectedVersion = state.version) :
    call.decision.run s.begin = (attempt domainErrorOf (decideLegs call.storage.toCommandReads
      call.request state (call.clock 0)) >>= fun
        | .inr error => persistedRejection call.storage call.request (rejectionFor error).1
            error.code (rejectionFor error).2 state.version (call.clock 0)
        | .inl legs => appendLegs call.storage call.request (call.clock 0)
            (Call.onSession call.eventIdFactory) legs [] none >>= call.conclude state).run
      (call.opened s state) := by
  rw [Call.decision, executeCommandDecision,
    run_bind_of (call.stored_begin (Store.storedResult_eq_none.mpr hfresh))]
  dsimp only
  rw [run_bind_of (call.fold_opened hfold), if_neg (not_not_intro hversion)]
  refine (run_bind_of (call.tick_opened state)).trans ?_
  refine congrArg (fun k => StateT.run (_ >>= k) _) (funext fun d => ?_)
  cases d with
  | inr error => rfl
  | inl legs =>
    refine congrArg (_ >>= ·) (funext fun p => ?_)
    obtain ⟨postings, addressed⟩ := p
    cases addressed <;> rfl

/-- **Decided events that fit and fold are accepted.** -/
theorem execute_accepts (hs : s.Readable) {events : List AccountEvent}
    (hfresh : ∀ row ∈ s.results, row.commandId ≠ call.request.commandId)
    (hversion : call.request.command.expectedVersion =
      (s.account call.request.command.accountId).version)
    (hdecided : Decided s call.request (call.clock 0) events)
    (haddressed : ∃ e ∈ events, e.accountId = call.request.command.accountId)
    (hversions : ∀ leg ∈ s.number events, 1 ≤ leg.2 ∧ leg.2 ≤ maxSignedBigint)
    (hfits : Fits s.events
      (legRows call.request (call.clock 0) call.eventIds 0 (s.number events)))
    (habsorbed : s.Absorbs events) :
    ∃ r, (execute s call).1 = .ok r ∧ r.outcome = .accepted := by
  have hfold := Store.foldStream_eq hs call.request.command.accountId
  obtain ⟨t, hlegs, hdecides⟩ := decideLegs_run_of call (reading_opened hfold) (knows_opened _)
    ((decideLegs_eq_ok hs).mpr ⟨events, hdecided, rfl⟩)
  have hfound : ∃ leg ∈ s.number events, leg.1.accountId = call.request.command.accountId := by
    obtain ⟨e, he, haccount⟩ := haddressed
    obtain ⟨leg, hleg, rfl⟩ := List.mem_map.mp ((s.map_fst_number_perm events).mem_iff.mpr he)
    exact ⟨leg, hleg, haccount⟩
  obtain ⟨postings, envelope, session, hlog, haddresses⟩ : ∃ postings envelope session,
      (appendLegs call.logStorage call.request (call.clock 0) call.eventIdFactory (s.number events)
        [] none).run ⟨s, 1, 0⟩ = .ok ((postings, some envelope), session) ∧
      Addresses call.request.command.accountId postings (some envelope) :=
    appendLegs_of_fits hversions hfits ⟨List.nodup_nil, by simp⟩ (Or.inl hfound)
  obtain ⟨-, -, hevents, hresults, -⟩ := appendLegs_run hlog
  obtain ⟨t', happend, rfl⟩ := appendLegs_iff.mpr ⟨by rw [hdecides.session]; exact hlog,
    (Store.takes_iff hdecides.reading hdecides.knows).mp ((Store.takes_number hs).mpr habsorbed)⟩
  obtain ⟨p, hp, haccount, hevent, hcommitted⟩ := haddresses.posted envelope rfl
  have hstate := (s.account call.request.command.accountId).valid
  have hfields : OutcomeFields .accepted call.request.command.accountId
      (some envelope.streamVersion) (some envelope.eventId) none 201 postings := by
    rw [OutcomeFields, if_pos rfl]
    exact ⟨rfl, by decide, haddresses.nodup, p, hp, haccount, by rw [hevent], by rw [hcommitted]⟩
  obtain ⟨r, hr⟩ : ∃ r, CommandResult.new call.request.commandId call.request.requestHash .accepted
      call.request.command.accountId call.request.command.expectedVersion
      (s.account call.request.command.accountId).version (some envelope.streamVersion)
      (some envelope.eventId) call.request.correlationId none 201 (call.clock 0) postings = .ok r :=
    CommandResult.new_of call.request.command.account_ok call.request.command.version_ok
      ⟨hstate.version_nonneg, hstate.version_le⟩ (by decide)
      (by simpa using envelope.stream_version_ok) (by simp) hfields
  obtain ⟨hid, -, houtcome, -⟩ := CommandResult.new_fields hr
  obtain ⟨session', hpersist⟩ : ∃ session', (call.persistResult r).run t'.session =
      .ok ((), session') := persistResult_of (by rw [hresults, hid]; exact hfresh)
  have hrun : call.decision.run s.begin = .ok (r, t'.setSession session') := by
    rw [decision_run hfresh hfold hversion, run_bind_of (run_attempt_ok hlegs)]
    dsimp only
    rw [run_bind_of happend, Call.conclude]
    rw [run_bind_of (run_ofExcept_of hr _)]
    exact run_bind_of (Call.onSession_of hpersist)
  exact ⟨r, by rw [execute, hrun], houtcome⟩

/-- The call is accepted, and not the replay of an earlier one. -/
def Accepts (s : Store) (call : Call) : Prop :=
  (∀ row ∈ s.results, row.commandId ≠ call.request.commandId) ∧
    ∃ r, (execute s call).1 = .ok r ∧ r.outcome = .accepted

instance : Decidable (Accepts s call) :=
  inferInstanceAs (Decidable (_ ∧ ∃ r, (execute s call).1 = .ok r ∧ r.outcome = .accepted))

/-- What an accepted call has decided and written, and that it fitted. -/
theorem Accepts.appends (hs : s.Readable) (h : Accepts s call) : ∃ events row,
    call.request.command.expectedVersion = (s.account call.request.command.accountId).version ∧
      Decided s call.request (call.clock 0) events ∧
      (∀ leg ∈ s.number events, 1 ≤ leg.2 ∧ leg.2 ≤ maxSignedBigint) ∧
      Fits s.events (legRows call.request (call.clock 0) call.eventIds 0 (s.number events)) ∧
      s.Absorbs events ∧ next s call =
        ⟨s.events ++ legRows call.request (call.clock 0) call.eventIds 0 (s.number events),
          s.results ++ [row]⟩ := by
  obtain ⟨hfresh, r, hresult, houtcome⟩ := h
  have hexecuted := executed_of_ok hs hresult
  generalize next s call = s' at hexecuted ⊢
  cases hexecuted with
  | replayed found => rw [Store.storedResult_eq_none.mpr hfresh] at found; cases found
  | conflicted found => rw [Store.storedResult_eq_none.mpr hfresh] at found; cases found
  | rejected _ outcome => exact absurd houtcome outcome.1
  | accepted _ version decided versions fits absorbed =>
    exact ⟨_, _, version, decided, versions, fits, absorbed, rfl⟩

theorem Accepts.decided (hs : s.Readable) (h : Accepts s call) : ∃ events row,
    call.request.command.expectedVersion = (s.account call.request.command.accountId).version ∧
      Decided s call.request (call.clock 0) events ∧
      (∀ leg ∈ s.number events, 1 ≤ leg.2 ∧ leg.2 ≤ maxSignedBigint) ∧
      next s call =
        ⟨s.events ++ legRows call.request (call.clock 0) call.eventIds 0 (s.number events),
          s.results ++ [row]⟩ := by
  obtain ⟨events, row, hversion, hdecided, hversions, -, -, hnext⟩ := h.appends hs
  exact ⟨events, row, hversion, hdecided, hversions, hnext⟩

end Executing

end Cloudscale
