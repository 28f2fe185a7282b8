import Cloudscale.Cqrs.Commands
import Cloudscale.Lib.Streams

/-!
# The memo is a replay

Every append takes the next number of its stream, so the streams of a log are
numbered from one on (`Numbered`), whoever appends.  The memo of a stream is the
fold of some first part of it (`Aligned`): appends of others leave it behind, a
catch-up folds the rest (`Aligned.currentState`), and a handler that has just
appended the next event folds exactly that one (`Aligned.recordAppend`).

`memo_eq_replay`: a handler with the memo answers, and sees, what a handler sees
that replays the stream on every call.
-/

namespace Cloudscale.Cqrs

open Streams

/-! ### Numbered logs -/

theorem max?_consecutive (n : Nat) : (consecutive 0 n).max?.getD 0 = n := by
  cases n with
  | zero => rfl
  | succ n =>
    have hmax : (consecutive 0 (n + 1)).max? = some ((n + 1 : Nat) : Int) := by
      rw [List.max?_eq_some_iff]
      refine ⟨mem_consecutive.mpr ⟨by omega, by omega⟩, fun k hk => ?_⟩
      exact (mem_consecutive.mp hk).2.trans (zero_add _).le
    rw [hmax, Option.getD_some]

namespace EventLog

variable {log log' seen : EventLog} {stream : String}

/-- Every stream is numbered from one on, in the order of its rows. -/
def Numbered (log : EventLog) : Prop :=
  ∀ stream, (log.rows stream).map StoredEvent.seq = consecutive 0 (log.rows stream).length

theorem numbered_nil : Numbered [] := fun _ => rfl

theorem nextSeq_eq (h : log.Numbered) (stream : String) :
    log.nextSeq stream = (log.rows stream).length + 1 := by
  rw [nextSeq, h stream, max?_consecutive]

theorem rows_append (log rest : EventLog) (stream : String) :
    EventLog.rows (log ++ rest) stream = log.rows stream ++ EventLog.rows rest stream :=
  List.filter_append log rest

theorem rows_singleton (row : StoredEvent) (stream : String) :
    EventLog.rows [row] stream = if row.stream = stream then [row] else [] := by
  by_cases h : row.stream = stream
  · rw [if_pos h]
    exact List.filter_cons_of_pos (by simpa using h)
  · rw [if_neg h]
    exact List.filter_cons_of_neg (by simpa using h)

theorem rows_grown (h : log <+: log') (stream : String) : log.rows stream <+: log'.rows stream :=
  h.filter _

theorem insert_eq_ok {row : StoredEvent} : log.insert row = .ok log' ↔
    SqliteInteger.InRange row.seq ∧ (∀ n ∈ row.amount, SqliteInteger.InRange n) ∧
      SqliteInteger.InRange row.schemaVersion ∧
      (∀ r ∈ log, ¬ ((r.stream = row.stream ∧ r.seq = row.seq) ∨ r.eventId = row.eventId)) ∧
      log' = log ++ [row] := by
  unfold insert
  constructor
  · intro h
    split at h
    · cases h
    · rename_i hbound
      push Not at hbound
      split at h
      · cases h
      · rename_i hclash
        exact ⟨hbound.1, hbound.2.1, hbound.2.2, fun r hr hsame => hclash ⟨r, hr, hsame⟩,
          (Except.ok.inj h).symm⟩
  · rintro ⟨hseq, hamount, hversion, hfree, rfl⟩
    rw [if_neg, if_neg]
    · rintro ⟨r, hr, hsame⟩
      exact hfree r hr hsame
    · rintro (h | ⟨n, hn, h⟩ | h)
      · exact h hseq
      · exact h (hamount n hn)
      · exact h hversion

theorem numbered_concat (h : log.Numbered) {row : StoredEvent}
    (hseq : row.seq = (log.rows row.stream).length + 1) : Numbered (log ++ [row]) := by
  intro stream
  rw [rows_append, rows_singleton]
  by_cases hstream : row.stream = stream
  · subst hstream
    rw [if_pos rfl, List.map_append, List.length_append, h row.stream]
    rw [List.length_singleton, consecutive_concat, List.map_singleton, hseq, zero_add, Nat.cast_succ]
  · rw [if_neg hstream, List.append_nil]
    exact h stream

/-- **An append takes the next number of its stream**, also when others have appended
since it read the last one: then the number is taken, and it fails. -/
theorem append_eq_ok (hseen : seen.Numbered) (hlog : log.Numbered) (hgrown : seen <+: log)
    {event : Dict} {eventId : String} {seq : Int}
    (h : seen.append log stream event eventId = .ok (seq, log')) :
    seq = (log.rows stream).length + 1 ∧
      log' = log ++ [rowOf log.nextId seq stream eventId event] ∧ log'.Numbered := by
  unfold append at h
  split at h
  · cases h
  · obtain ⟨inserted, hinsert, hpure⟩ := Checked.bind_eq_ok.mp h
    obtain ⟨rfl, rfl⟩ := Prod.mk.inj (Except.ok.inj hpure)
    obtain ⟨-, -, -, hfree, hrow⟩ := insert_eq_ok.mp hinsert
    have hle := (rows_grown hgrown stream).length_le
    have hseq : seen.nextSeq stream = (log.rows stream).length + 1 := by
      rw [nextSeq_eq hseen]
      by_contra hne
      have htaken : ((seen.rows stream).length : Int) + 1 ∈
          (log.rows stream).map StoredEvent.seq := by
        rw [hlog stream]
        exact mem_consecutive.mpr ⟨by omega, by omega⟩
      obtain ⟨r, hr, hrseq⟩ := List.mem_map.mp htaken
      obtain ⟨hr, hstream⟩ := List.mem_filter.mp hr
      refine hfree r hr (Or.inl ⟨of_decide_eq_true hstream, ?_⟩)
      rw [hrseq]
      exact (nextSeq_eq hseen stream).symm
    refine ⟨hseq, hrow, ?_⟩
    rw [hrow]
    exact numbered_concat hlog hseq

theorem foreign_append (h : log.Numbered) (f : Foreign) :
    (f.append log).Numbered ∧ log <+: f.append log := by
  unfold Foreign.append
  split
  · rename_i happend
    obtain ⟨_, hlog, hnumbered⟩ := append_eq_ok h h (List.prefix_refl log) happend
    exact ⟨hnumbered, hlog ▸ List.prefix_append _ _⟩
  · exact ⟨h, List.prefix_refl log⟩

theorem foldl_foreign (fs : List Foreign) : ∀ {log : EventLog}, log.Numbered →
    (fs.foldl Foreign.append log).Numbered ∧ log <+: fs.foldl Foreign.append log := by
  induction fs with
  | nil => intro log h; exact ⟨h, List.prefix_refl log⟩
  | cons f fs ih =>
    intro log h
    obtain ⟨hnumbered, hgrown⟩ := foreign_append h f
    obtain ⟨hall, hrest⟩ := ih hnumbered
    exact ⟨hall, hgrown.trans hrest⟩

/-! ### Reading a stream from some number on -/

theorem filter_seq : ∀ {rows : List StoredEvent} {v : Int} {n : Nat},
    rows.map StoredEvent.seq = consecutive v rows.length →
      rows.filter (fun e => v + n < e.seq) = rows.drop n := by
  intro rows
  induction rows with
  | nil => intro v n _; simp
  | cons e rows ih =>
    intro v n h
    rw [List.map_cons, List.length_cons, consecutive_cons] at h
    obtain ⟨hseq, hrest⟩ := List.cons_eq_cons.mp h
    cases n with
    | zero =>
      rw [List.filter_cons_of_pos (by simp [hseq]), List.drop_zero]
      refine congrArg (e :: ·) (List.filter_eq_self.mpr fun e' he' => ?_)
      have hmem : e'.seq ∈ consecutive (v + 1) rows.length := hrest ▸ List.mem_map_of_mem he'
      have hlt := (mem_consecutive.mp hmem).1
      simp only [decide_eq_true_eq]
      omega
    | succ n =>
      rw [List.filter_cons_of_neg (by simp [hseq]), List.drop_succ_cons, ← ih hrest]
      refine List.filter_congr fun e' _ => decide_eq_decide.mpr ?_
      rw [Nat.cast_succ]
      omega

/-- The events of a stream, as the store hands them out. -/
def events (log : EventLog) (stream : String) : List Dict := (log.rows stream).map rowToEvent

theorem readAfter_eq (h : log.Numbered) (stream : String) (n : Nat) :
    log.readAfter stream n = .ok ((log.events stream).drop n) := by
  have hfilter : log.filter (fun e => e.stream = stream ∧ (n : Int) < e.seq) =
      (log.rows stream).drop n := by
    have hseq := filter_seq (h stream) (n := n)
    rw [← hseq, rows, List.filter_filter]
    refine List.filter_congr fun e _ => ?_
    simp only [Bool.decide_and, zero_add, Bool.and_comm]
  have hsorted : ((log.rows stream).drop n).Pairwise (fun e e' => e.seq ≤ e'.seq) := by
    have hall : ((log.rows stream).map StoredEvent.seq).Pairwise (· ≤ ·) := by
      rw [h stream]
      exact (pairwise_consecutive 0 _).imp le_of_lt
    exact (List.pairwise_map.mp hall).sublist (List.drop_sublist n _)
  rw [readAfter, if_neg (by omega), hfilter, hsorted.insertionSort_eq, events, List.map_drop]

end EventLog

/-! ### The memo -/

open BalanceProjection

namespace Folds

variable {folds : Folds} {log log' : EventLog}

theorem get_setItem (folds : Folds) (stream stream' : String) (fold : Int × BalanceState) :
    Folds.get (setItem stream fold folds) stream' =
      if stream' = stream then fold else folds.get stream' := by
  rw [get, lookup_setItem]
  by_cases h : stream' = stream
  · rw [if_pos h, if_pos h, Option.getD_some]
  · rw [if_neg h, if_neg h, get]

/-- What is remembered of a stream is the fold of its first events. -/
def FoldOf (log : EventLog) (stream : String) (fold : Int × BalanceState) : Prop :=
  ∃ n : Nat, n ≤ (log.events stream).length ∧ fold = ((n : Int), rebuild ((log.events stream).take n))

def Aligned (folds : Folds) (log : EventLog) : Prop := ∀ stream, FoldOf log stream (folds.get stream)

theorem aligned_nil (log : EventLog) : Aligned [] log := fun _ => ⟨0, Nat.zero_le _, rfl⟩

theorem Aligned.grown (h : Aligned folds log) (hgrown : log <+: log') : Aligned folds log' := by
  intro stream
  obtain ⟨n, hn, hfold⟩ := h stream
  have hprefix : log.events stream <+: log'.events stream :=
    (EventLog.rows_grown hgrown stream).map rowToEvent
  refine ⟨n, hn.trans hprefix.length_le, ?_⟩
  rw [hfold]
  obtain ⟨rest, hrest⟩ := hprefix
  rw [← hrest, List.take_append_of_le_length hn]

theorem Aligned.set (h : Aligned folds log) {stream : String} {fold : Int × BalanceState}
    (hfold : FoldOf log stream fold) : Aligned (setItem stream fold folds) log := by
  intro stream'
  rw [get_setItem]
  by_cases hstream : stream' = stream
  · rw [if_pos hstream, hstream]
    exact hfold
  · rw [if_neg hstream]
    exact h stream'

/-- The loop folds the events, and ends at the number of the last one. -/
theorem catchUp_eq : ∀ {rows : List StoredEvent} {v : Int} {state : BalanceState},
    rows.map StoredEvent.seq = consecutive v rows.length →
      catchUp (v, state) (rows.map rowToEvent) =
        (v + rows.length, (rows.map rowToEvent).foldl apply state) := by
  intro rows
  induction rows with
  | nil => intro v state _; simp [catchUp]
  | cons e rows ih =>
    intro v state h
    rw [List.map_cons, List.length_cons, consecutive_cons] at h
    obtain ⟨hseq, hrest⟩ := List.cons_eq_cons.mp h
    have hstep : catchUp (v, state) ((e :: rows).map rowToEvent) =
        catchUp (v + 1, apply state (rowToEvent e)) (rows.map rowToEvent) := by
      rw [← hseq]
      rfl
    rw [hstep, ih hrest, List.map_cons, List.foldl_cons, List.length_cons]
    refine Prod.ext ?_ rfl
    push_cast
    omega

/-- **A caught-up memo holds the replay of the whole stream.** -/
theorem Aligned.currentState (h : Aligned folds log) (hlog : log.Numbered) (stream : String) :
    ∃ folds', folds.currentState log stream = .ok (rebuild (log.events stream), folds') ∧
      Aligned folds' log := by
  obtain ⟨n, hn, hfold⟩ := h stream
  have hrows : ((log.rows stream).drop n).map StoredEvent.seq =
      consecutive n ((log.rows stream).drop n).length := by
    have hlen : n ≤ (log.rows stream).length := by
      rwa [EventLog.events, List.length_map] at hn
    rw [List.map_drop, hlog stream, drop_consecutive 0 hlen, zero_add, List.length_drop]
  have hcatch : catchUp (folds.get stream) ((log.events stream).drop n) =
      (((log.events stream).length : Int), rebuild (log.events stream)) := by
    rw [hfold, EventLog.events, ← List.map_drop, catchUp_eq hrows]
    refine Prod.ext ?_ ?_
    · rw [EventLog.events, List.length_map] at hn
      simp only [List.length_drop, List.length_map]
      omega
    · simp only [rebuild]
      rw [← List.foldl_append, List.map_drop, List.take_append_drop]
  refine ⟨setItem stream (catchUp (folds.get stream) ((log.events stream).drop n)) folds, ?_, ?_⟩
  · rw [Folds.currentState, hfold, EventLog.readAfter_eq hlog, Checked.ok_bind, ← hfold, hcatch]
    rfl
  · refine h.set ⟨(log.events stream).length, le_rfl, ?_⟩
    rw [hcatch, List.take_length]

/-- The projection reads the same in the event and in the row it becomes. -/
theorem apply_stamped (state : BalanceState) (id seq : Int) (stream eventId type accountId : String)
    (amount : Int) :
    apply state (setItem "seq" (.int seq) (cashEvent type accountId amount)) =
      apply state (rowToEvent (rowOf id seq stream eventId (cashEvent type accountId amount))) :=
  rfl

/-- **The memo advances by the event just appended**, or stays behind. -/
theorem Aligned.recordAppend (h : Aligned folds log) {id : Int} {stream eventId type accountId : String}
    {amount : Int} :
    Aligned
      (folds.recordAppend stream (cashEvent type accountId amount) ((log.rows stream).length + 1))
      (log ++ [rowOf id ((log.rows stream).length + 1) stream eventId
        (cashEvent type accountId amount)]) := by
  set row := rowOf id ((log.rows stream).length + 1) stream eventId
    (cashEvent type accountId amount) with hrow
  have hstream : row.stream = stream := rfl
  have hgrown := h.grown (List.prefix_append log [row])
  obtain ⟨n, hn, hfold⟩ := h stream
  have hlength : (log.events stream).length = (log.rows stream).length := List.length_map _
  have hevents : EventLog.events (log ++ [row]) stream = log.events stream ++ [rowToEvent row] := by
    rw [EventLog.events, EventLog.rows_append, EventLog.rows_singleton, if_pos hstream,
      List.map_append]
    rfl
  unfold Folds.recordAppend
  by_cases hnext : ((log.rows stream).length : Int) + 1 = (folds.get stream).1 + 1
  · rw [if_pos hnext]
    have hall : n = (log.events stream).length := by
      rw [hfold] at hnext
      omega
    refine hgrown.set ⟨n + 1, ?_, ?_⟩
    · rw [hevents, List.length_append, List.length_singleton]
      omega
    · have htake : (log.events stream ++ [rowToEvent row]).take (n + 1) =
          log.events stream ++ [rowToEvent row] :=
        List.take_of_length_le (by rw [List.length_append, List.length_singleton, hall])
      rw [apply_stamped _ id _ stream eventId, hfold, hevents, htake, hall, List.take_length,
        hlength, rebuild, rebuild, List.foldl_append]
      rfl
  · rw [if_neg hnext]
    exact hgrown

end Folds

/-! ### The handlers -/

section Handlers

variable {folds : Folds} {log : EventLog}

theorem replaying_currentState (hlog : log.Numbered) (stream : String) :
    replaying.currentState () log stream = .ok (rebuild (log.events stream), ()) := by
  have hread := EventLog.readAfter_eq hlog stream 0
  rw [List.drop_zero, Nat.cast_zero] at hread
  show log.readAfter stream 0 >>= _ = _
  rw [hread]
  rfl

/-- The memoized handler comes to what the replaying one comes to. -/
structure Agrees (log : EventLog) (d : Decision Folds) (d' : Decision Unit) : Prop where
  seen : d.seen = d'.seen
  event : d.event = d'.event
  cash : ∀ event, d.event = .ok event →
    ∃ type accountId amount, event = cashEvent type accountId amount
  aligned : Folds.Aligned d.memo log

theorem agrees_deposit (h : Folds.Aligned folds log) (accountId : String) (command : Dict) :
    Agrees log (handleDeposit folds accountId command) (handleDeposit () accountId command) := by
  refine ⟨rfl, rfl, fun event hevent => ?_, h⟩
  obtain ⟨amount, _, hevent⟩ := Checked.map_eq_ok.mp hevent
  exact ⟨_, _, amount, hevent.symm⟩

theorem agrees_withdraw (h : Folds.Aligned folds log) (hlog : log.Numbered) (accountId : String)
    (command : Dict) :
    Agrees log (handleWithdraw memoized folds log accountId command)
      (handleWithdraw replaying () log accountId command) := by
  unfold handleWithdraw
  cases commandAmount command with
  | error e => exact ⟨rfl, rfl, (fun _ hevent => nomatch hevent), h⟩
  | ok amount =>
    obtain ⟨folds', hmemo, haligned⟩ := h.currentState hlog (streamName accountId)
    have hreplay := replaying_currentState hlog (streamName accountId)
    have hmemo' : memoized.currentState folds log (streamName accountId) =
        .ok (rebuild (log.events (streamName accountId)), folds') := hmemo
    simp only [hmemo', hreplay]
    refine ⟨rfl, rfl, fun event hevent => ?_, haligned⟩
    split at hevent
    · cases hevent
    · exact ⟨_, _, amount, (Except.ok.inj hevent).symm⟩

theorem agrees_dispatch (h : Folds.Aligned folds log) (hlog : log.Numbered) (ctype : CommandType)
    (accountId : String) (command : Dict) :
    Agrees log (dispatch memoized folds log ctype accountId command)
      (dispatch replaying () log ctype accountId command) := by
  cases ctype with
  | deposit => exact agrees_deposit h accountId command
  | withdraw => exact agrees_withdraw h hlog accountId command

/-- **One call**: both handlers see and answer the same, and leave the same log. -/
theorem handle_eq (h : Folds.Aligned folds log) (hlog : log.Numbered) (round : Round) :
    (handle memoized (folds, log) round).1 = (handle replaying ((), log) round).1 ∧
      (handle memoized (folds, log) round).2.2 = (handle replaying ((), log) round).2.2 ∧
      Folds.Aligned (handle memoized (folds, log) round).2.1
        (handle memoized (folds, log) round).2.2 ∧
      (handle memoized (folds, log) round).2.2.Numbered := by
  obtain ⟨hseen, hgrown⟩ := EventLog.foldl_foreign round.before hlog
  obtain ⟨happending, hgrown'⟩ := EventLog.foldl_foreign round.between hseen
  obtain ⟨hinserting, hgrown''⟩ := EventLog.foldl_foreign round.racing happending
  have hlate : round.before.foldl Foreign.append log <+: _ := hgrown'.trans hgrown''
  unfold handle
  cases hcheck : checkCommand round.command with
  | error e => exact ⟨rfl, rfl, h.grown (hgrown.trans hlate), hinserting⟩
  | ok checked =>
    obtain ⟨ctype, accountId, command⟩ := checked
    have hagrees := agrees_dispatch (h.grown hgrown) hseen ctype accountId command
    simp only
    generalize dispatch memoized folds _ ctype accountId command = d at hagrees ⊢
    generalize dispatch replaying () _ ctype accountId command = d' at hagrees ⊢
    rw [← hagrees.seen, ← hagrees.event]
    cases hevent : d.event with
    | error e => exact ⟨rfl, rfl, hagrees.aligned.grown hlate, hinserting⟩
    | ok event =>
      simp only
      cases happend : EventLog.append _ _ (streamName accountId) event round.eventId with
      | error e => exact ⟨rfl, rfl, hagrees.aligned.grown hlate, hinserting⟩
      | ok appended =>
        obtain ⟨seq, appended⟩ := appended
        obtain ⟨type, a, amount, rfl⟩ := hagrees.cash event hevent
        obtain ⟨hseq, hlog', hnumbered⟩ :=
          EventLog.append_eq_ok happending hinserting hgrown'' happend
        refine ⟨rfl, rfl, ?_, hnumbered⟩
        rw [hlog', hseq]
        exact (hagrees.aligned.grown hlate).recordAppend

theorem handleAll_eq (rounds : List Round) : ∀ {folds : Folds} {log : EventLog},
    Folds.Aligned folds log → log.Numbered →
      handleAll memoized (folds, log) rounds = handleAll replaying ((), log) rounds := by
  induction rounds with
  | nil => intro folds log _ _; rfl
  | cons round rounds ih =>
    intro folds log h hlog
    obtain ⟨hreply, hsame, haligned, hnumbered⟩ := handle_eq h hlog round
    have hrest := ih haligned hnumbered
    have hmemo : (handle memoized (folds, log) round).2 =
        ((handle memoized (folds, log) round).2.1, (handle memoized (folds, log) round).2.2) := rfl
    have hreplay : (handle replaying ((), log) round).2 =
        ((), (handle memoized (folds, log) round).2.2) := by
      rw [hsame]
    simp only [handleAll]
    rw [hreply, hmemo, hreplay, hrest]

end Handlers

/-- **The memoized guard is a full replay**: over every sequence of calls, with appends of
other writers at any point, a handler with the memo sees the same state at each withdrawal,
answers the same and leaves the same log as a handler that replays the stream on every
call. -/
theorem memo_eq_replay (rounds : List Round) :
    handleAll memoized ([], []) rounds = handleAll replaying ((), []) rounds :=
  handleAll_eq rounds (Folds.aligned_nil []) EventLog.numbered_nil

end Cloudscale.Cqrs
