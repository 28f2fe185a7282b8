import Cloudscale.Ledger.Coherence
import Cloudscale.Postgres.Attempts

/-!
# The database as a store

`Database.store` are the rows of the log by their ids, with the results.  A transaction
that has written nothing reads what the unit of work of a `Store` reads (`foldStream_seen`,
`openHold_seen`, `legsOf_seen`, `revertedBy_seen`).

So if what an attempt has read would be answered the same by one state (`Agrees`), the attempt
comes to what `execute` comes to on the store of that state (`Agrees.execute_accepted`).
-/

namespace Cloudscale.Postgres

open Checked Python ReadCommitted LogRow Transactions Account

/-- The log in the order of its ids, and the results. -/
def Database.store (db : Database EventRow) : Store := ⟨db.events.map Prod.snd, db.results⟩

/-! ### Reads -/

section Reads

variable {db : Database EventRow} {own : Written EventRow} (hdb : Numbered db)
  (hnil : own.events = [])

include hdb hnil

theorem foldStream_seen (a : String) : foldStream (db.seen own) a = db.store.foldStream a := by
  rw [seen_of_nil hdb hnil]
  rfl

theorem openHold_seen (a : String) (t : UUID) :
    openHold (db.seen own) a t = db.store.openHold a t := by
  have hfilter : (db.events.map Prod.snd).filter (fun r : EventRow => LogRow.stream r = streamName a ∧
      transferId r = some t.str ∧ isHold r = true) =
      (db.events.map Prod.snd).filter (fun r => r.stream = streamName a ∧
        r.fields.transferId = some t.str ∧ r.event.type ∈ Store.holdTypes) :=
    List.filter_congr fun r _ => decide_eq_decide.mpr
      (and_congr_right fun _ => and_congr_right fun _ => decide_eq_true_iff)
  rw [openHold, seen_of_nil hdb hnil, hfilter]
  rfl

theorem legsOf_seen (t : UUID) : legsOf (db.seen own) t = db.store.legsOf t := by
  rw [seen_of_nil hdb hnil]
  rfl

theorem revertedBy_seen (t : UUID) : revertedBy (db.seen own) t = db.store.revertedBy t := by
  have hrows : (db.events.map Prod.snd).filter (fun r : EventRow => reverts r = some t.str) =
      db.store.events.filter (fun r => r.fields.reverts = some t.str) := rfl
  rw [revertedBy, Store.revertedBy, seen_of_nil hdb hnil, hrows]
  cases (db.store.events.filter (fun r => r.fields.reverts = some t.str)).head? <;> rfl

theorem exists_of_isRead (hread : db.store.Readable) {op : Statement EventRow} (hop : op.IsRead) :
    ∃ a, exec op db own = .ok (a, own) := by
  cases op with
  | foldStream a =>
    refine ⟨db.store.account a, ?_⟩
    rw [exec, foldStream_seen hdb hnil, Store.foldStream_eq hread]
    rfl
  | openHold a t =>
    refine ⟨openHoldFromEvents t (db.store.holdEvents a t), ?_⟩
    rw [exec, openHold_seen hdb hnil, Store.openHold_eq hread]
    rfl
  | legsOf t =>
    refine ⟨(db.store.setOf t).map EventRow.event, ?_⟩
    rw [exec, legsOf_seen hdb hnil, Store.legsOf_eq hread]
    rfl
  | revertedBy t =>
    refine ⟨(db.store.events.find? (fun r => r.event.reverts = some t)).bind (·.event.setId), ?_⟩
    rw [exec, revertedBy_seen hdb hnil, Store.revertedBy_eq]
    rfl
  | storedResult | reading | issue | nextId | insertEvent | writeSnapshot | insertResult | nextSeq
  | lockRelay | pending | head | insertOutbox | markPublished | feed => cases hop

end Reads

/-! ### Decisions on one store -/

/-- The statement would be answered the same by this state. -/
def Stable (db : Database EventRow) (step : Step EventRow) : Prop :=
  exec step.op db step.own = exec step.op step.seen step.own

theorem map_own_inj {α : Type} {own : Written EventRow} {x y : Except PyError α}
    (h : x.map (·, own) = y.map (·, own)) : x = y := by
  cases x <;> cases y <;> cases h <;> rfl

section Deciding

variable {db : Database EventRow} {own : Written EventRow} (hdb : Numbered db)
  (hnil : own.events = [])

include hdb hnil

theorem foldStream_of_stable {t : Database EventRow} {a : String} {r : Except PyError AccountState}
    (h : Stable db ⟨.foldStream a, own, t⟩) (hfold : foldStream (t.seen own) a = r) :
    db.store.foldStream a = r := by
  rw [← foldStream_seen hdb hnil, ← hfold]
  exact map_own_inj h

theorem openHold_of_stable {t : Database EventRow} {a : String} {id : UUID}
    {r : Except PyError (Option OpenHold)} (h : Stable db ⟨.openHold a id, own, t⟩)
    (hopen : openHold (t.seen own) a id = r) : db.store.openHold a id = r := by
  rw [← openHold_seen hdb hnil, ← hopen]
  exact map_own_inj h

theorem legsOf_of_stable {t : Database EventRow} {id : UUID} {r : Except PyError (List AccountEvent)}
    (h : Stable db ⟨.legsOf id, own, t⟩) (hlegs : legsOf (t.seen own) id = r) :
    db.store.legsOf id = r := by
  rw [← legsOf_seen hdb hnil, ← hlegs]
  exact map_own_inj h

theorem revertedBy_of_stable {t : Database EventRow} {id : UUID} {r : Except PyError (Option UUID)}
    (h : Stable db ⟨.revertedBy id, own, t⟩) (hreverted : revertedBy (t.seen own) id = r) :
    db.store.revertedBy id = r := by
  rw [← revertedBy_seen hdb hnil, ← hreverted]
  exact map_own_inj h

theorem FoldedOthers.foldOthers_eq {states states' : States} {as : List String}
    {more : List (Step EventRow)} {r : Except PyError States}
    (h : FoldedOthers own states as more r) : (∀ step ∈ more, Stable db step) → r = .ok states' →
      foldOthers db.store.reads states as = .ok states' := by
  induction h with
  | done states => exact fun _ hr => hr
  | known known _ ih =>
    intro hstable hr
    rw [foldOthers, if_pos known]
    exact ih hstable hr
  | folded t unknown fold _ ih =>
    intro hstable hr
    rw [List.forall_mem_cons] at hstable
    have hfold := foldStream_of_stable hdb hnil hstable.1 fold
    rw [foldOthers, if_neg unknown]
    exact (congrArg (· >>= _) hfold).trans (ih hstable.2 hr)
  | failed =>
    intro _ hr
    cases hr

/-- **A decision whose reads one state would answer the same decides what is decided there.** -/
theorem Chose.decideLegs_eq (hread : db.store.Readable) {request : NormalizedCommand}
    {state : AccountState} {now : Datetime} {more : List (Step EventRow)}
    {r : Except PyError (List (AccountEvent × Int))} (h : Chose own request state now more r)
    (hstable : ∀ step ∈ more, Stable db step) : decideLegs db.store.reads request state now = r := by
  cases h with
  | failed only step mem error =>
    obtain ⟨hown, hop⟩ := only step mem
    obtain ⟨a, ha⟩ := exists_of_isRead hdb hnil hread hop
    have hsame := hstable step mem
    rw [Stable, error, hown, ha] at hsame
    cases hsame
  | deposit command | withdraw command | hold command =>
    rw [decideLegs, command]
    exact ofExcept_eq_self _
  | @postings anchor legs _ states command folded =>
    have hfolded := folded.foldOthers_eq hdb hnil hstable rfl
    have hlegs : postingsLegs db.store.reads anchor legs state request.commandId =
        (Account.decidePostings states anchor legs request.commandId >>= numberLegs states) := by
      rw [postingsLegs, hfolded, ok_bind, ofExcept_eq_self]
    cases hc : request.command with
    | transfer c | post c =>
      rw [hc] at command
      cases command
      rw [decideLegs, hc]
      exact hlegs
    | deposit | withdraw | hold | postHold | voidHold | expireHold | revert =>
      rw [hc] at command
      cases command
  | @capture c hold _ states t command opened folded =>
    rw [List.forall_mem_cons] at hstable
    have hopened : db.store.reads.openHold c.accountId c.holdId = .ok hold :=
      openHold_of_stable hdb hnil hstable.1 opened
    have hfolded := folded.foldOthers_eq hdb hnil hstable.2 rfl
    rw [decideLegs, command]
    show postHoldLegs db.store.reads state c now = _
    rw [postHoldLegs, hopened, ok_bind]
    cases hold with
    | none => exact (congrArg (· >>= _) hfolded).trans (ofExcept_eq_self _)
    | some hold => exact (congrArg (· >>= _) hfolded).trans (ofExcept_eq_self _)
  | @release kind c hold t command opened =>
    have hopened : db.store.reads.openHold c.accountId c.holdId = .ok hold :=
      openHold_of_stable hdb hnil (hstable _ List.mem_cons_self) opened
    have hlegs : releaseLegs db.store.reads kind c state now = (do
        let released ← decideReleaseHold kind state hold c now
        pure [(.holdReleased released, state.version + 1)]) := by
      rw [releaseLegs, hopened, ok_bind, ofExcept_eq_self]
    cases hc : request.command with
    | voidHold v | expireHold v =>
      rw [hc] at command
      cases command
      rw [decideLegs, hc]
      exact hlegs
    | deposit | withdraw | transfer | post | hold | postHold | revert =>
      rw [hc] at command
      cases command
  | @reversal c original more states reverter t t' command legs folded reverted =>
    rw [List.forall_mem_append, List.forall_mem_cons, List.forall_mem_singleton] at hstable
    obtain ⟨⟨hlegs, hmore⟩, hreverted⟩ := hstable
    have hlegs' : db.store.reads.legsOf c.transferId = .ok original :=
      legsOf_of_stable hdb hnil hlegs legs
    have hfolded := folded.foldOthers_eq hdb hnil hmore rfl
    have hreverted' : db.store.reads.revertedBy c.transferId = .ok reverter :=
      revertedBy_of_stable hdb hnil hreverted reverted
    rw [decideLegs, command]
    show revertLegs db.store.reads c state request.commandId = _
    rw [revertLegs, hlegs', ok_bind, hfolded, ok_bind, hreverted', ok_bind, ofExcept_eq_self]

end Deciding

/-! ### Execution on one store -/

/-- **Legs whose rows fit are appended** as they were. -/
theorem LegRows.run {call : Call} {now : Datetime} {n : ℕ} {legs : List (AccountEvent × Int)}
    {rows : List EventRow} {p p' : List Posting × Option EventEnvelope}
    (h : LegRows call now n legs p rows p') : ∀ {session : Session}, session.issued = n →
      Fits session.store.events rows →
      (appendLegs call.logStorage call.request now call.eventIdFactory legs p.1 p.2).run session =
        .ok (p', ⟨⟨session.store.events ++ rows, session.store.results⟩, session.readings,
          n + legs.length⟩) := by
  induction h with
  | nil n p =>
    intro session hissued _
    rw [appendLegs, List.append_nil]
    subst hissued
    rfl
  | @cons n leg legs envelope posting rows postings addressed p wraps posts rest ih =>
    intro session hissued hfits
    subst hissued
    obtain ⟨hclash, hfits⟩ := hfits
    set session' : Session := ⟨⟨session.store.events ++ [EventRow.ofEnvelope envelope leg.1],
      session.store.results⟩, session.readings, session.issued + 1⟩
    have hstore : session.store.appendEvent (EventRow.ofEnvelope envelope leg.1) =
        .ok session'.store := Store.appendEvent_eq_ok.mpr ⟨hclash, rfl⟩
    have happend : (call.logStorage.appendEvent envelope leg.1).run
        { session with issued := session.issued + 1 } = .ok ((), session') := bind_of hstore _
    have hrest := @ih session' rfl hfits
    rw [appendLegs, run_bind_of (show call.eventIdFactory.run session =
        .ok (call.eventIds session.issued, { session with issued := session.issued + 1 }) from rfl),
      run_bind_of (run_ofExcept_of wraps _), run_bind_of happend,
      run_bind_of (run_ofExcept_of posts _)]
    refine hrest.trans ?_
    rw [List.length_cons, List.append_assoc, Nat.add_right_comm, Nat.add_assoc]
    rfl

/-- What an attempt has read is what this state has. -/
structure Agrees (attempt : Attempt) (state : AccountState) (more : List (Step EventRow))
    (db : Database EventRow) : Prop where
  fresh : ∀ row ∈ db.results, row.commandId ≠ attempt.call.request.commandId
  folded : db.store.foldStream attempt.call.request.command.accountId = .ok state
  stable : ∀ step ∈ more, Stable db step

section Execution

variable {attempt : Attempt} {state : AccountState} {more : List (Step EventRow)}
  {db : Database EventRow} {result : CommandResult}

theorem persistResult_run_of {call : Call} {r : CommandResult} {session : Session}
    (h : ∀ row ∈ session.store.results, row.commandId ≠ r.commandId) :
    (call.persistResult r).run session = .ok ((), ⟨⟨session.store.events, session.store.results ++
      [⟨r.commandId, r.requestHash, r.toJson, call.clock session.readings⟩]⟩, session.readings + 1,
      session.issued⟩) := by
  have htick : call.tick.run session =
      .ok (call.clock session.readings, { session with readings := session.readings + 1 }) := rfl
  rw [Call.persistResult, run_bind_of htick]
  exact bind_of (Store.persistResult_eq_ok.mpr ⟨h, rfl⟩) _

/-- **A decision that is accepted** is accepted as it would be alone, with the same rows. -/
theorem Agrees.execute_accepted (h : Agrees attempt state more db) (hdb : Numbered db)
    (hs : db.store.Coherent) {legs : List (AccountEvent × Int)} {rows : List EventRow}
    {postings : List Posting} {addressed : EventEnvelope}
    (hversion : attempt.call.request.command.expectedVersion = state.version)
    (hdecides : Decides attempt state more (.ok legs))
    (hrows : LegRows attempt.call (attempt.call.clock 0) 0 legs ([], none) rows
      (postings, some addressed)) (hfits : Fits db.store.events rows)
    (haccepts : CommandResult.new attempt.call.request.commandId attempt.call.request.requestHash
      .accepted attempt.call.request.command.accountId attempt.call.request.command.expectedVersion
      state.version (some addressed.streamVersion) (some addressed.eventId)
      attempt.call.request.correlationId none 201 (attempt.call.clock 0) postings = .ok result) :
    execute db.store attempt.call =
      (.ok result, ⟨db.store.events ++ rows, db.results ++ [resultRow attempt 1 result]⟩) := by
  have hlegs := hdecides.decideLegs_eq hdb rfl hs.readable h.stable
  have hlog := @LegRows.run _ _ _ _ _ _ _ hrows ⟨db.store, 1, 0⟩ rfl hfits
  -- The log is coherent, so the legs apply to the folds of the transaction.
  have htakes : db.store.Takes legs := by
    have hstate := h.folded
    rw [Store.foldStream_eq hs.readable, Except.ok.injEq] at hstate
    rw [← hstate] at hlegs
    obtain ⟨events, hdecided, rfl⟩ := (decideLegs_eq_ok hs.readable).mp hlegs
    exact (Store.takes_number hs.readable).mpr
      (hdecided.absorbs_of_coherent hs (appendLegs_run hlog).1)
  obtain ⟨t, hread, hdecided⟩ :=
    decideLegs_run_of attempt.call (reading_opened h.folded) (knows_opened _) hlegs
  obtain ⟨t', happend, hsession⟩ := appendLegs_iff.mpr ⟨by rw [hdecided.session]; exact hlog,
    (Store.takes_iff hdecided.reading hdecided.knows).mp htakes⟩
  obtain ⟨session, hpersist, hstore⟩ : ∃ session, (attempt.call.persistResult result).run
      t'.session = .ok ((), session) ∧ session.store =
        ⟨db.store.events ++ rows, db.results ++ [resultRow attempt 1 result]⟩ := by
    refine ⟨_, persistResult_run_of ?_, by rw [hsession]; rfl⟩
    rw [hsession, (CommandResult.new_fields haccepts).1]
    exact h.fresh
  have hrun : attempt.call.decision.run db.store.begin = .ok (result, t'.setSession session) := by
    rw [decision_run h.fresh h.folded hversion, run_bind_of (run_attempt_ok hread)]
    dsimp only
    rw [run_bind_of happend, Call.conclude, run_bind_of (run_ofExcept_of haccepts _)]
    exact run_bind_of (Call.onSession_of hpersist)
  rw [execute, hrun, ← hstore]
  rfl

end Execution

end Cloudscale.Postgres
