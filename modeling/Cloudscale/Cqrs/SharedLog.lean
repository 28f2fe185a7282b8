import Cloudscale.Cqrs.Memo
import Cloudscale.Ledger.Outcomes
import Cloudscale.Projection.Effects

/-!
# Two command paths on one log

The legacy handler and the typed calls write into one table of events
(`SharedLog.next`), each call by itself.  The legacy guard compares a withdrawal
with the balance, and a deposit with nothing; the domain fold wants what is held
to stay covered, and the balance to fit.

`shared_log_foldable_iff`: every stream folds in every state of a run exactly if
there was room for every event that a legacy call got in (`HasRoom`).
`reserved_funds_withdrawn` is a run in which there was not.
-/

namespace Cloudscale.Cqrs

open Checked Python Runs Streams Account

/-! ### The shared log -/

/-- The columns of an envelope.  A legacy row has no envelope, and nothing reads them. -/
structure EnvelopeColumns where
  occurredAt : Datetime
  correlationId : UUID
  causationId : UUID
  commandId : UUID

/-- A call of the legacy handler, with the event id that its append draws. -/
structure LegacyCall where
  command : Json
  eventId : UUID
  envelope : EnvelopeColumns

inductive SharedInput
  | legacy (call : LegacyCall)
  | typed (call : Call)

/-- The memo of the legacy handler, and the store. -/
structure SharedLog where
  folds : Folds
  store : Store

def storedRows : Int → List EventRow → EventLog
  | _, [] => []
  | id, r :: rows => r.stored id :: storedRows (id + 1) rows

/-- The table of events as the legacy store reads it. -/
def tableOf (s : Store) : EventLog := storedRows 1 s.events

/-- A row of the table as the unit of work keeps it. -/
def rowOfStored (envelope : EnvelopeColumns) (row : StoredEvent) : Option EventRow :=
  match UUID.ofText row.eventId, legacyEventToDomain (rowToEvent row) with
  | some eventId, .ok event => some
    { eventId := eventId
      seq := row.seq
      event := event
      schemaVersion := row.schemaVersion
      occurredAt := envelope.occurredAt
      correlationId := envelope.correlationId
      causationId := envelope.causationId
      commandId := envelope.commandId }
  | _, _ => none

/-- The store with the rows that a legacy call has added to the table. -/
def extendStore (s : Store) (envelope : EnvelopeColumns) (log : EventLog) : Store :=
  { s with events := s.events ++ (log.drop s.events.length).filterMap (rowOfStored envelope) }

namespace LegacyCall

def alone (call : LegacyCall) : Round := ⟨call.command, call.eventId.str, [], [], []⟩

end LegacyCall

namespace SharedLog

def start : SharedLog := ⟨[], .empty⟩

def next (state : SharedLog) : SharedInput → SharedLog
  | .typed call => { state with store := Cloudscale.next state.store call }
  | .legacy call =>
    let after := (handle memoized (state.folds, tableOf state.store) call.alone).2
    ⟨after.1, extendStore state.store call.envelope after.2⟩

end SharedLog

/-! ### The table of a store -/

theorem map_filter_storedRows {β : Type} {f : StoredEvent → β} {g : EventRow → β}
    (hfg : ∀ r id, f (r.stored id) = g r) (stream : String) : ∀ (rows : List EventRow) (id : Int),
    ((storedRows id rows).rows stream).map f =
      (rows.filter (fun r => r.stream = stream)).map g := by
  intro rows
  induction rows with
  | nil => intro id; rfl
  | cons r rows ih =>
    intro id
    have hcons : storedRows id (r :: rows) = [r.stored id] ++ storedRows (id + 1) rows := rfl
    rw [hcons, EventLog.rows_append, List.map_append, ih, EventLog.rows_singleton]
    by_cases hr : r.stream = stream
    · rw [if_pos (show (r.stored id).stream = stream from hr), List.map_singleton, hfg,
        List.filter_cons_of_pos (by simpa using hr)]
      rfl
    · rw [if_neg (show ¬ (r.stored id).stream = stream from hr),
        List.filter_cons_of_neg (by simpa using hr)]
      rfl

theorem length_storedRows : ∀ (rows : List EventRow) (id : Int),
    (storedRows id rows).length = rows.length := by
  intro rows
  induction rows with
  | nil => intro _; rfl
  | cons r rows ih => intro id; rw [storedRows, List.length_cons, List.length_cons, ih]

theorem exists_of_mem_storedRows : ∀ {rows : List EventRow} {id : Int} {e : StoredEvent},
    e ∈ storedRows id rows → ∃ r ∈ rows, ∃ i, e = r.stored i := by
  intro rows
  induction rows with
  | nil => intro id e he; cases he
  | cons r rows ih =>
    intro id e he
    rcases List.mem_cons.mp he with rfl | he
    · exact ⟨r, List.mem_cons_self, id, rfl⟩
    · obtain ⟨r', hr', i, hi⟩ := ih he
      exact ⟨r', List.mem_cons_of_mem r hr', i, hi⟩

section Table

variable {s : Store}

theorem filter_stream (s : Store) (a : String) :
    s.events.filter (fun r => r.stream = streamName a) = s.streamOf a :=
  List.filter_congr fun r _ => by simp only [r.stream_eq_iff]

theorem length_rows_tableOf (s : Store) (a : String) :
    ((tableOf s).rows (streamName a)).length = (s.streamOf a).length := by
  have hmap := map_filter_storedRows (f := StoredEvent.seq) (g := EventRow.seq) (fun _ _ => rfl)
    (streamName a) s.events 1
  rw [filter_stream] at hmap
  have hlength := congrArg List.length hmap
  rwa [List.length_map, List.length_map] at hlength

/-- Rows of the current shapes, and every stream numbered from one on; a stream need not fold. -/
structure Ordered (s : Store) : Prop where
  current : ∀ r ∈ s.events, r.schemaVersion = currentSchemaVersion r.event.type
  numbered : ∀ a, (s.streamOf a).map (fun r => (r.event, r.seq)) = numberFrom 0 (s.eventsOf a)

/-- A stream that is numbered is read in the order of its rows. -/
theorem Ordered.bySeq_streamOf (h : Ordered s) (a : String) :
    Store.bySeq (s.streamOf a) = s.streamOf a := by
  have hpair : (numberFrom 0 (s.eventsOf a)).Pairwise (fun p q => p.2 < q.2) :=
    pairwise_numberFrom
  rw [← h.numbered a, List.pairwise_map] at hpair
  exact List.Pairwise.insertionSort_eq (hpair.imp fun hlt => le_of_lt hlt)

theorem Ordered.foldStream_eq (h : Ordered s) (a : String) :
    s.foldStream a = Account.fold (s.eventsOf a) := by
  have hfilter : s.events.filter (fun r => r.stream = streamName a) = s.streamOf a :=
    List.filter_congr fun r _ => by simp only [r.stream_eq_iff]
  rw [Store.foldStream, hfilter, h.bySeq_streamOf, Store.decodeRows_of_current fun r hr =>
    h.current r ((s.streamOf_sublist a).subset hr), ok_bind, Store.eventsOf]

theorem numbered_tableOf (h : Ordered s) : (tableOf s).Numbered := by
  intro stream
  cases hrows : (tableOf s).rows stream with
  | nil => rfl
  | cons e rows =>
    have he : e ∈ (tableOf s).rows stream := by
      rw [hrows]
      exact List.mem_cons_self
    obtain ⟨he, hstream⟩ := List.mem_filter.mp he
    obtain ⟨r, -, i, rfl⟩ := exists_of_mem_storedRows he
    have hname : streamName r.event.accountId = stream := of_decide_eq_true hstream
    rw [← hrows, ← hname, length_rows_tableOf, ← Store.map_seq (h.numbered _), tableOf,
      map_filter_storedRows (f := StoredEvent.seq) (g := EventRow.seq) (fun _ _ => rfl),
      filter_stream]

theorem tableOf_append (s : Store) (rows : List EventRow) (results : List ResultRow) :
    tableOf ⟨s.events ++ rows, results⟩ =
      tableOf s ++ storedRows (s.events.length + 1) rows := by
  have happend : ∀ (es : List EventRow) (id : Int),
      storedRows id (es ++ rows) = storedRows id es ++ storedRows (id + es.length) rows := by
    intro es
    induction es with
    | nil => intro id; simp [storedRows]
    | cons r es ih =>
      intro id
      have hid : id + 1 + (es.length : Int) = id + ((r :: es).length : Int) := by
        rw [List.length_cons]
        omega
      rw [List.cons_append, storedRows, ih, hid, storedRows, List.cons_append]
  rw [tableOf, tableOf, happend, add_comm (1 : Int)]

theorem nextId_tableOf (s : Store) : (tableOf s).nextId = s.events.length + 1 := by
  have hids : ∀ (rows : List EventRow) (v : Int),
      (storedRows (v + 1) rows).map StoredEvent.id = consecutive v rows.length := by
    intro rows
    induction rows with
    | nil => intro v; rfl
    | cons r rows ih =>
      intro v
      rw [storedRows, List.map_cons, ih, List.length_cons, consecutive_cons]
      rfl
  rw [EventLog.nextId, tableOf, ← zero_add (1 : Int), hids, max?_consecutive, zero_add]

end Table

/-! ### What a legacy call adds -/

namespace CommandType

def eventType : CommandType → EventType
  | .deposit => .deposited
  | .withdraw => .withdrawn

/-- The typed event of a legacy call. -/
def event : CommandType → CashEvent → AccountEvent
  | .deposit => .deposited
  | .withdraw => .withdrawn

end CommandType

/-- The call passes the checks of the handler and of the store. -/
structure Appends (log : EventLog) (call : LegacyCall) (ctype : CommandType) (a : String)
    (n : Int) : Prop where
  checked : ∃ command, checkCommand call.command = .ok (ctype, a, command) ∧
    commandAmount command = .ok n
  guarded : ctype = .withdraw →
    n ≤ (BalanceProjection.rebuild (log.events (streamName a))).balance
  bound : n ≤ maxSignedBigint
  room : ((log.rows (streamName a)).length : Int) < maxSignedBigint
  fresh : ∀ e ∈ log, e.eventId ≠ call.eventId.str

theorem Appends.unique {log : EventLog} {call : LegacyCall} {ctype ctype' : CommandType}
    {a a' : String} {n n' : Int} (h : Appends log call ctype a n)
    (h' : Appends log call ctype' a' n') : ctype = ctype' ∧ a = a' ∧ n = n' := by
  obtain ⟨command, hcheck, hn⟩ := h.checked
  obtain ⟨command', hcheck', hn'⟩ := h'.checked
  rw [hcheck] at hcheck'
  cases hcheck'
  rw [hn] at hn'
  cases hn'
  exact ⟨rfl, rfl, rfl⟩

def legacyRow (log : EventLog) (call : LegacyCall) (ctype : CommandType) (a : String) (n : Int) :
    StoredEvent :=
  rowOf log.nextId ((log.rows (streamName a)).length + 1) (streamName a) call.eventId.str
    (cashEvent ctype.eventType.text a n)

section Alone

variable {log : EventLog} {call : LegacyCall}

theorem checkCommand_account {command : Json} {ctype : CommandType} {a : String} {members : Dict}
    (h : checkCommand command = .ok (ctype, a, members)) : a ≠ "" := by
  cases command with
  | obj command | oddObj command =>
    obtain ⟨ctype', -, h⟩ := bind_eq_ok.mp h
    obtain ⟨a', haccount, h⟩ := bind_eq_ok.mp h
    cases h
    unfold commandAccount at haccount
    split at haccount
    · split at haccount
      · cases haccount
      · rename_i hne
        cases haccount
        exact hne
    · cases haccount
  | null | bool | int | float | str | surrogates | arr => cases h

theorem commandAmount_pos {command : Dict} {n : Int} (h : commandAmount command = .ok n) :
    0 < n := by
  unfold commandAmount at h
  split at h
  · split at h
    · cases h
    · cases h
      omega
  · cases h

theorem dispatch_event (hlog : log.Numbered) {ctype : CommandType} {a : String} {command : Dict}
    {event : Dict} : (dispatch replaying () log ctype a command).event = .ok event ↔
      ∃ n, commandAmount command = .ok n ∧ event = cashEvent ctype.eventType.text a n ∧
        (ctype = .withdraw →
          n ≤ (BalanceProjection.rebuild (log.events (streamName a))).balance) := by
  cases ctype with
  | deposit =>
    simp only [dispatch, handleDeposit, map_eq_ok]
    constructor
    · rintro ⟨n, hn, rfl⟩
      exact ⟨n, hn, rfl, fun h => nomatch h⟩
    · rintro ⟨n, hn, rfl, -⟩
      exact ⟨n, hn, rfl⟩
  | withdraw =>
    simp only [dispatch, handleWithdraw]
    cases commandAmount command with
    | error e =>
      constructor
      · intro h
        cases h
      · rintro ⟨_, h, _⟩
        cases h
    | ok n =>
      simp only [replaying_currentState hlog]
      constructor
      · intro h
        split at h
        · cases h
        · rename_i hle
          exact ⟨n, rfl, (Except.ok.inj h).symm, fun _ => not_lt.mp hle⟩
      · rintro ⟨m, hm, rfl, hle⟩
        cases hm
        rw [if_neg (not_lt.mpr (hle trivial))]
        rfl

theorem append_alone (hlog : log.Numbered) {ctype : CommandType} {a : String} {n : Int}
    (hpos : 0 < n) : (∃ seq log', log.append log (streamName a)
        (cashEvent ctype.eventType.text a n) call.eventId.str = .ok (seq, log')) ↔
      n ≤ maxSignedBigint ∧ ((log.rows (streamName a)).length : Int) < maxSignedBigint ∧
        ∀ e ∈ log, e.eventId ≠ call.eventId.str := by
  have hname : streamName a ≠ "" := by
    intro h
    have hlength := congrArg String.length h
    simp [streamName] at hlength
  have hrow : (rowOf log.nextId (log.nextSeq (streamName a)) (streamName a) call.eventId.str
      (cashEvent ctype.eventType.text a n)).schemaVersion = currentSchemaVersion ctype.eventType := by
    cases ctype <;> rfl
  have hsmall : ∀ t : EventType, SqliteInteger.InRange (currentSchemaVersion t) := by
    intro t
    cases t <;> decide
  have hmax := maxSignedBigint_eq
  constructor
  · rintro ⟨seq, log', h⟩
    rw [EventLog.append, if_neg hname] at h
    obtain ⟨inserted, hinsert, -⟩ := bind_eq_ok.mp h
    obtain ⟨hseq, hamount, -, hfree, -⟩ := EventLog.insert_eq_ok.mp hinsert
    have hbound : SqliteInteger.InRange n := hamount n rfl
    have hroom : SqliteInteger.InRange (log.nextSeq (streamName a)) := hseq
    rw [EventLog.nextSeq_eq hlog] at hroom
    refine ⟨?_, ?_, fun e he hid => hfree e he (Or.inr hid)⟩
    · have := hbound.2
      omega
    · have := hroom.2
      omega
  · rintro ⟨hbound, hroom, hfresh⟩
    refine ⟨log.nextSeq (streamName a), log ++ [rowOf log.nextId (log.nextSeq (streamName a))
      (streamName a) call.eventId.str (cashEvent ctype.eventType.text a n)], ?_⟩
    rw [EventLog.append, if_neg hname]
    refine bind_eq_ok.mpr ⟨_, EventLog.insert_eq_ok.mpr ⟨?_, ?_, ?_, ?_, rfl⟩, rfl⟩
    · show SqliteInteger.InRange (log.nextSeq (streamName a))
      rw [EventLog.nextSeq_eq hlog]
      exact ⟨by omega, by omega⟩
    · intro m hm
      obtain rfl : n = m := Option.some.inj hm
      exact ⟨by omega, by omega⟩
    · rw [hrow]
      exact hsmall _
    · rintro e he (⟨hstream, hseq⟩ | hid)
      · have hmem : e ∈ log.rows (streamName a) :=
          List.mem_filter.mpr ⟨he, decide_eq_true hstream⟩
        have hmem' := List.mem_map_of_mem (f := StoredEvent.seq) hmem
        rw [hlog, mem_consecutive] at hmem'
        have hnext : e.seq = log.nextSeq (streamName a) := hseq
        rw [EventLog.nextSeq_eq hlog] at hnext
        omega
      · exact hfresh e he hid

/-- **A legacy call adds its event if it passes every check, and nothing otherwise.** -/
theorem handle_alone {folds : Folds} (haligned : Folds.Aligned folds log) (hlog : log.Numbered)
    (call : LegacyCall) :
    (∃ ctype a n, Appends log call ctype a n ∧
        (handle memoized (folds, log) call.alone).2.2 = log ++ [legacyRow log call ctype a n]) ∨
      ((∀ ctype a n, ¬ Appends log call ctype a n) ∧
        (handle memoized (folds, log) call.alone).2.2 = log) := by
  rw [(handle_eq haligned hlog call.alone).2.1]
  simp only [handle, LegacyCall.alone, List.foldl_nil]
  cases hcheck : checkCommand call.command with
  | error e =>
    refine Or.inr ⟨fun ctype a n h => ?_, rfl⟩
    obtain ⟨command, hok, -⟩ := h.checked
    rw [hcheck] at hok
    cases hok
  | ok checked =>
    obtain ⟨ctype, a, command⟩ := checked
    have hsame : ∀ {ctype' a' n}, Appends log call ctype' a' n →
        ctype' = ctype ∧ a' = a ∧ commandAmount command = .ok n := by
      intro ctype' a' n h
      obtain ⟨command', hok, hn⟩ := h.checked
      rw [hcheck] at hok
      cases hok
      exact ⟨rfl, rfl, hn⟩
    simp only
    cases hevent : (dispatch replaying () log ctype a command).event with
    | error e =>
      refine Or.inr ⟨fun ctype' a' n h => ?_, rfl⟩
      obtain ⟨rfl, rfl, hn⟩ := hsame h
      rw [(dispatch_event hlog).mpr ⟨n, hn, rfl, h.guarded⟩] at hevent
      cases hevent
    | ok event =>
      obtain ⟨n, hn, rfl, hguard⟩ := (dispatch_event hlog).mp hevent
      have hpos := commandAmount_pos hn
      simp only
      cases happend : log.append log (streamName a) (cashEvent ctype.eventType.text a n)
          call.eventId.str with
      | error e =>
        refine Or.inr ⟨fun ctype' a' n' h => ?_, rfl⟩
        obtain ⟨rfl, rfl, hn'⟩ := hsame h
        rw [hn] at hn'
        cases hn'
        obtain ⟨seq, log', hok⟩ := (append_alone hlog hpos).mpr ⟨h.bound, h.room, h.fresh⟩
        rw [happend] at hok
        cases hok
      | ok appended =>
        obtain ⟨seq, log'⟩ := appended
        obtain ⟨hbound, hroom, hfresh⟩ := (append_alone hlog hpos).mp ⟨seq, log', happend⟩
        obtain ⟨hseq, hlog', -⟩ := EventLog.append_eq_ok hlog hlog (List.prefix_refl log) happend
        refine Or.inl ⟨ctype, a, n, ⟨⟨command, hcheck, hn⟩, hguard, hbound, hroom, hfresh⟩, ?_⟩
        rw [legacyRow, ← hseq]
        exact hlog'

end Alone

/-! ### Rooms -/

/-- There is room for the event on its account. -/
def HasRoom (s : Store) (ctype : CommandType) (a : String) (n : Int) : Prop :=
  match ctype with
  | .deposit => (s.account a).balance + n ≤ maxSignedBigint
  | .withdraw => n ≤ (s.account a).available

/-- If a legacy call gets its event in, then there is room for it. -/
def Roomy (state : SharedLog) : SharedInput → Prop
  | .typed _ => True
  | .legacy call => ∀ ctype a n, Appends (tableOf state.store) call ctype a n →
      HasRoom state.store ctype a n

/-- Every stream folds, to a state within its bounds. -/
def Foldable (s : Store) : Prop :=
  ∀ a, ∃ st, s.foldStream a = .ok st ∧ 0 ≤ st.held ∧ st.held ≤ st.balance ∧
    st.balance ≤ maxSignedBigint

/-- What the calls keep as long as there is room. -/
structure Sound (state : SharedLog) : Prop where
  ledger : state.store.Ledger
  aligned : Folds.Aligned state.folds (tableOf state.store)

theorem sound_start : Sound .start := ⟨Store.ledger_empty, Folds.aligned_nil _⟩

theorem Sound.ordered {state : SharedLog} (h : Sound state) : Ordered state.store :=
  ⟨h.ledger.coherent.readable.current, h.ledger.coherent.readable.numbered⟩

theorem Sound.foldable {state : SharedLog} (h : Sound state) : Foldable state.store := by
  intro a
  refine ⟨_, Store.foldStream_eq h.ledger.coherent.readable a, ?_⟩
  have hvalid := (state.store.account a).valid
  exact ⟨hvalid.held_nonneg, hvalid.held_le, hvalid.balance_le⟩

section Row

variable {s : Store} {call : LegacyCall} {ctype : CommandType} {a : String} {n : Int}

theorem Appends.row (h : Appends (tableOf s) call ctype a n) :
    ∃ (e : CashEvent) (r : EventRow), e.accountId = a ∧ e.amount = n ∧ r.event = ctype.event e ∧
      r.schemaVersion = currentSchemaVersion ctype.eventType ∧
      r.seq = (s.streamOf a).length + 1 ∧
      rowOfStored call.envelope (legacyRow (tableOf s) call ctype a n) = some r ∧
      r.stored (s.events.length + 1) = legacyRow (tableOf s) call ctype a n := by
  obtain ⟨command, hcheck, hamount⟩ := h.checked
  have hdecode : legacyEventToDomain (rowToEvent (legacyRow (tableOf s) call ctype a n)) =
      .ok (ctype.event ⟨a, n, checkCommand_account hcheck, commandAmount_pos hamount, h.bound⟩) := by
    cases ctype <;>
      exact legacyEventToDomain_of ⟨rfl, rfl, rfl, (fun _ h => nomatch h), (fun _ h => nomatch h),
        (fun _ h => nomatch h), (fun _ h => nomatch h), (fun _ h => nomatch h)⟩
  have hid : UUID.ofText (legacyRow (tableOf s) call ctype a n).eventId = some call.eventId :=
    UUID.ofText_str call.eventId
  have hversion : (legacyRow (tableOf s) call ctype a n).schemaVersion =
      currentSchemaVersion ctype.eventType := by
    cases ctype <;> rfl
  refine ⟨_, _, rfl, rfl, rfl, hversion, ?_, by rw [rowOfStored, hid, hdecode], ?_⟩
  · rw [← length_rows_tableOf]
    rfl
  · rw [legacyRow, nextId_tableOf]
    cases ctype <;> rfl

end Row

/-! ### Steps -/

section Steps

variable {s : Store} {r : EventRow}

theorem streamOf_concat (s : Store) (r : EventRow) (b : String) :
    (Store.mk (s.events ++ [r]) s.results).streamOf b =
      s.streamOf b ++ if r.event.accountId = b then [r] else [] := by
  have happend : (Store.mk (s.events ++ [r]) s.results).streamOf b =
      s.streamOf b ++ [r].filter (fun r => r.event.accountId = b) := List.filter_append _ _
  rw [happend, List.filter_singleton]
  by_cases hb : r.event.accountId = b <;> simp [hb]

theorem eventsOf_concat (s : Store) (r : EventRow) (b : String) :
    (Store.mk (s.events ++ [r]) s.results).eventsOf b =
      s.eventsOf b ++ if r.event.accountId = b then [r.event] else [] := by
  rw [Store.eventsOf, streamOf_concat, List.map_append, ← Store.eventsOf]
  by_cases hb : r.event.accountId = b <;> simp [hb]

theorem ordered_concat (h : Ordered s)
    (hcurrent : r.schemaVersion = currentSchemaVersion r.event.type)
    (hseq : r.seq = (s.streamOf r.event.accountId).length + 1) :
    Ordered (Store.mk (s.events ++ [r]) s.results) := by
  refine ⟨fun r' hr' => ?_, fun b => ?_⟩
  · rcases List.mem_append.mp hr' with hr' | hr'
    · exact h.current r' hr'
    · rw [List.mem_singleton.mp hr']
      exact hcurrent
  · rw [streamOf_concat, eventsOf_concat, List.map_append, h.numbered b, numberFrom_append]
    by_cases hb : r.event.accountId = b
    · subst hb
      rw [if_pos rfl, if_pos rfl, List.map_singleton, numberFrom_cons, numberFrom_nil, hseq,
        Store.eventsOf, List.length_map, zero_add]
    · rw [if_neg hb, if_neg hb]
      rfl

/-- **A row more on a stream is a step more of its fold.** -/
theorem fold_concat (h : s.Readable) (r : EventRow) (b : String) :
    Account.fold ((Store.mk (s.events ++ [r]) s.results).eventsOf b) =
      if r.event.accountId = b then apply (s.account b) r.event else .ok (s.account b) := by
  have hfold : foldFrom .unknown (s.eventsOf b) = .ok (s.account b) := Store.fold_eventsOf h b
  rw [eventsOf_concat, Account.fold, foldFrom_append, hfold, ok_bind]
  by_cases hb : r.event.accountId = b
  · rw [if_pos hb, if_pos hb, foldFrom_cons]
    cases apply (s.account b) r.event <;> rfl
  · rw [if_neg hb, if_neg hb, foldFrom_nil]

theorem setOf_concat (hset : r.event.setId = none) (t : UUID) :
    (Store.mk (s.events ++ [r]) s.results).setOf t = s.setOf t := by
  have happend : (Store.mk (s.events ++ [r]) s.results).setOf t =
      s.setOf t ++ [r].filter (fun r => r.event.setId = some t) := List.filter_append _ _
  rw [happend, List.filter_cons_of_neg (by simp [hset]), List.filter_nil, List.append_nil]

/-- A row of cash that is admitted keeps the log a ledger. -/
theorem ledger_concat (h : s.Ledger) (hset : r.event.setId = none)
    (hcurrent : r.schemaVersion = currentSchemaVersion r.event.type)
    (hseq : r.seq = (s.streamOf r.event.accountId).length + 1)
    (hadmits : Admits (s.account r.event.accountId) r.event) :
    (Store.mk (s.events ++ [r]) s.results).Ledger := by
  have hreadable := h.coherent.readable
  have hordered := ordered_concat ⟨hreadable.current, hreadable.numbered⟩ hcurrent hseq
  refine ⟨⟨⟨hordered.current, hordered.numbered, fun b => ?_⟩, fun t => ?_⟩, fun r' hr' t ht => ?_,
    h.kept, h.distinct⟩
  · rw [fold_concat hreadable]
    by_cases hb : r.event.accountId = b
    · subst hb
      obtain ⟨st, happly, -⟩ := apply_of_canApply hadmits.canApply
      exact ⟨st, by rw [if_pos rfl, happly]⟩
    · exact ⟨_, by rw [if_neg hb]⟩
  · rw [setOf_concat hset]
    exact h.coherent.shapes t
  · rcases List.mem_append.mp hr' with hr' | hr'
    · exact h.recorded r' hr' t ht
    · rw [List.mem_singleton.mp hr', hset] at ht
      cases ht

/-- A row of cash that is not admitted spoils its stream. -/
theorem not_foldable_concat (h : s.Readable)
    (hcurrent : r.schemaVersion = currentSchemaVersion r.event.type)
    (hseq : r.seq = (s.streamOf r.event.accountId).length + 1)
    (happly : ∀ st, apply (s.account r.event.accountId) r.event ≠ .ok st) :
    ¬ Foldable (Store.mk (s.events ++ [r]) s.results) := by
  intro hfoldable
  obtain ⟨st, hst, -⟩ := hfoldable r.event.accountId
  rw [(ordered_concat ⟨h.current, h.numbered⟩ hcurrent hseq).foldStream_eq, fold_concat h,
    if_pos rfl] at hst
  exact happly st hst

end Steps

section Room

variable {s : Store} {ctype : CommandType} {e : CashEvent}

theorem event_type (ctype : CommandType) (e : CashEvent) : (ctype.event e).type = ctype.eventType := by
  cases ctype <;> rfl

theorem event_accountId (ctype : CommandType) (e : CashEvent) :
    (ctype.event e).accountId = e.accountId := by
  cases ctype <;> rfl

theorem event_setId (ctype : CommandType) (e : CashEvent) : (ctype.event e).setId = none := by
  cases ctype <;> rfl

/-- **The fold takes a cash event exactly if there is room for it.** -/
theorem apply_event (h : s.Readable)
    (hversion : ((s.streamOf e.accountId).length : Int) < maxSignedBigint) :
    (HasRoom s ctype e.accountId e.amount → Admits (s.account e.accountId) (ctype.event e)) ∧
      (¬ HasRoom s ctype e.accountId e.amount →
        ∀ st, apply (s.account e.accountId) (ctype.event e) ≠ .ok st) := by
  have hmatches := Store.account_matches h e.accountId
  have hcount := Store.account_version h e.accountId
  constructor
  · intro hroom
    refine ⟨by rwa [event_accountId], by omega, ?_⟩
    cases ctype with
    | deposit =>
      show e.amount ≤ maxSignedBigint - (s.account e.accountId).balance
      have : (s.account e.accountId).balance + e.amount ≤ maxSignedBigint := hroom
      omega
    | withdraw => exact hroom
  · intro hroom st happly
    obtain ⟨hcan, -⟩ := apply_eq_ok.mp happly
    refine hroom ?_
    cases ctype with
    | deposit =>
      have hpos : 0 < (AccountEvent.deposited e).balanceDelta := by
        rw [AccountEvent.balanceDelta_deposited]
        exact e.amount_ok.pos
      have hle : e.amount ≤ maxSignedBigint - (s.account e.accountId).balance := hcan.credit hpos
      show (s.account e.accountId).balance + e.amount ≤ maxSignedBigint
      omega
    | withdraw =>
      have hheld := hcan.held_le
      rw [CommandType.event, AccountEvent.heldDelta_withdrawn,
        AccountEvent.balanceDelta_withdrawn] at hheld
      show e.amount ≤ (s.account e.accountId).balance - (s.account e.accountId).held
      omega

end Room

/-! ### Runs -/

section Run

variable {state : SharedLog}

/-- **What a legacy call makes of the store**: the store keeps all that the call left in the
table. -/
theorem Sound.legacy (h : Sound state) (call : LegacyCall) :
    tableOf (state.next (.legacy call)).store =
        (handle memoized (state.folds, tableOf state.store) call.alone).2.2 ∧
      ((∃ ctype a n, Appends (tableOf state.store) call ctype a n ∧
        ∃ (e : CashEvent) (r : EventRow), e.accountId = a ∧ e.amount = n ∧
          r.event = ctype.event e ∧ r.schemaVersion = currentSchemaVersion r.event.type ∧
          r.seq = (state.store.streamOf r.event.accountId).length + 1 ∧
          (state.next (.legacy call)).store =
            ⟨state.store.events ++ [r], state.store.results⟩) ∨
      ((∀ ctype a n, ¬ Appends (tableOf state.store) call ctype a n) ∧
        (state.next (.legacy call)).store = state.store)) := by
  have hlength : (tableOf state.store).length = state.store.events.length :=
    length_storedRows _ _
  rcases handle_alone h.aligned (numbered_tableOf h.ordered) call with
    ⟨ctype, a, n, happends, hlog⟩ | ⟨hnone, hlog⟩
  · obtain ⟨e, r, haccount, hamount, hevent, hversion, hseq, hrow, hstored⟩ := happends.row
    have hstore : (state.next (.legacy call)).store =
        ⟨state.store.events ++ [r], state.store.results⟩ := by
      simp only [SharedLog.next, extendStore, hlog]
      rw [← hlength, List.drop_left, List.filterMap_cons_some hrow, List.filterMap_nil]
    refine ⟨?_, Or.inl ⟨ctype, a, n, happends, e, r, haccount, hamount, hevent, ?_, ?_, hstore⟩⟩
    · rw [hstore, tableOf_append, hlog, storedRows, storedRows, hstored]
    · rw [hversion, hevent, event_type]
    · rw [hseq, hevent, event_accountId, haccount]
  · have hstore : (state.next (.legacy call)).store = state.store := by
      simp only [SharedLog.next, extendStore, hlog]
      rw [← hlength, List.drop_length, List.filterMap_nil, List.append_nil]
    exact ⟨by rw [hstore, hlog], Or.inr ⟨hnone, hstore⟩⟩

theorem Sound.aligned_next (h : Sound state) (input : SharedInput) :
    Folds.Aligned (state.next input).folds (tableOf (state.next input).store) := by
  cases input with
  | typed call =>
    have hevents := next_events h.ledger.coherent.readable call
    have hstore : Cloudscale.next state.store call = ⟨state.store.events ++
        appended state.store call, (Cloudscale.next state.store call).results⟩ := by
      rw [← hevents]
    refine h.aligned.grown ?_
    show tableOf state.store <+: tableOf (Cloudscale.next state.store call)
    rw [hstore, tableOf_append]
    exact List.prefix_append _ _
  | legacy call =>
    rw [(h.legacy call).1]
    exact (handle_eq h.aligned (numbered_tableOf h.ordered) call.alone).2.2.1

/-- **A call for which there is room keeps the state sound.** -/
theorem Sound.next (h : Sound state) {input : SharedInput} (hroomy : Roomy state input) :
    Sound (state.next input) := by
  refine ⟨?_, h.aligned_next input⟩
  cases input with
  | typed call => exact h.ledger.next
  | legacy call =>
    rcases (h.legacy call).2 with
      ⟨ctype, a, n, happends, e, r, rfl, rfl, hevent, hversion, hseq, hstore⟩ | ⟨-, hstore⟩
    · have hroom := hroomy ctype _ _ happends
      have hcount := happends.room
      rw [length_rows_tableOf] at hcount
      have hadmits := (apply_event h.ledger.coherent.readable hcount).1 hroom
      rw [hstore]
      refine ledger_concat h.ledger (by rw [hevent, event_setId]) hversion hseq ?_
      rwa [hevent, event_accountId]
    · rw [hstore]
      exact h.ledger

/-- **A legacy event for which there is no room spoils its stream.** -/
theorem Sound.not_foldable (h : Sound state) {input : SharedInput} (hroomy : ¬ Roomy state input) :
    ¬ Foldable (state.next input).store := by
  cases input with
  | typed call => exact absurd trivial hroomy
  | legacy call =>
    rcases (h.legacy call).2 with
      ⟨ctype, a, n, happends, e, r, rfl, rfl, hevent, hversion, hseq, hstore⟩ | ⟨hnone, -⟩
    · have hroom : ¬ HasRoom state.store ctype e.accountId e.amount := by
        intro hroom
        refine hroomy fun ctype' a' n' happends' => ?_
        obtain ⟨rfl, rfl, rfl⟩ := happends.unique happends'
        exact hroom
      have hcount := happends.room
      rw [length_rows_tableOf] at hcount
      rw [hstore]
      refine not_foldable_concat h.ledger.coherent.readable hversion hseq ?_
      rw [hevent, event_accountId]
      exact (apply_event h.ledger.coherent.readable hcount).2 hroom
    · exact absurd (fun ctype a n happends => absurd happends (hnone ctype a n)) hroomy

/-- There was room for every event that a legacy call got in. -/
structure RoomyRun (state : SharedLog) (inputs : List SharedInput) : Prop where
  along : Along SharedLog.next Roomy state inputs

theorem Sound.along (inputs : List SharedInput) : ∀ {state : SharedLog}, Sound state →
    (∀ before after, inputs = before ++ after → Foldable (run SharedLog.next state before).store) →
      Along SharedLog.next Roomy state inputs := by
  induction inputs with
  | nil => intro _ _ _; trivial
  | cons input inputs ih =>
    intro state h hfoldable
    have hroomy : Roomy state input := by
      by_contra hroomy
      exact h.not_foldable hroomy (hfoldable [input] inputs rfl)
    refine ⟨hroomy, ih (h.next hroomy) fun before after hinputs => ?_⟩
    exact hfoldable (input :: before) after (by rw [hinputs, List.cons_append])

/-- **The two command paths can share a log exactly if every legacy event has room**: in every
state of a run every stream folds, to a state within its bounds, if and only if each legacy
withdrawal that passed the legacy guard was covered by what is not held, and each legacy
deposit fitted. -/
theorem shared_log_foldable_iff (inputs : List SharedInput) :
    (∀ before after, inputs = before ++ after →
        Foldable (run SharedLog.next .start before).store) ↔ RoomyRun .start inputs := by
  constructor
  · intro h
    exact ⟨Sound.along inputs sound_start h⟩
  · rintro ⟨halong⟩ before after rfl
    have hsound : Sound (run SharedLog.next .start before) :=
      run_invariant_along (P := Sound) (fun _ _ h hroomy => h.next hroomy) before sound_start
        (along_append.mp halong).1
    exact hsound.foldable

/-- A deposit of 100, a hold of 80, and a legacy withdrawal of 50: the balance covers it, what is
not held does not. -/
def withdrawsReserved : List SharedInput :=
  [.typed (Call.of (.deposit ⟨"alice", 100, 0, validAccountId_alice, validAmount_hundred,
      validExpectedVersion_zero⟩) ⟨1⟩ .epoch 10),
    .typed (Call.of (.hold ⟨"alice", "bob", 80, 1, 60, validAccountId_alice, validAccountId_bob,
      alice_ne_bob, by decide, validExpectedVersion_one, minute_pos⟩) ⟨2⟩ .epoch 20),
    .legacy ⟨.obj [("type", .str "Withdraw"), ("account_id", .str "alice"), ("amount", .int 50)],
      ⟨30⟩, ⟨.epoch, ⟨3⟩, ⟨3⟩, ⟨3⟩⟩⟩]

/-- **A legacy withdrawal takes what is held**, and the stream does not fold any more. -/
theorem reserved_funds_withdrawn :
    ¬ ∀ before after, withdrawsReserved = before ++ after →
      Foldable (run SharedLog.next .start before).store := by
  intro h
  obtain ⟨st, hst, -⟩ := h withdrawsReserved [] (List.append_nil _).symm "alice"
  have hnone : ((run SharedLog.next .start withdrawsReserved).store.foldStream "alice").toOption =
      none := by
    decide +kernel
  rw [hst] at hnone
  cases hnone

end Run

end Cloudscale.Cqrs
