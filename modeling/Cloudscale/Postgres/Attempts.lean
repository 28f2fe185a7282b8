import Cloudscale.Postgres.Executing

/-!
# How an attempt ends

`Ended` lists the ways in which an attempt ends: it replays a result or refuses the command
id, persists a rejection, appends its legs with their result, or raises; each with the
statements that it ran and what these answered.  `wp_decision` says that these are all, whatever
other transactions commit in between, and that the attempt has met what it owes.

What the attempt read of a stream is no later than what is there when it writes
(`Known.behind`).
-/

namespace Cloudscale.Postgres

open Checked Python ReadCommitted LogRow Streams Account

variable {Row : Type} [LogRow Row]

/-! ### What was read of a stream -/

theorem version_of_fold {db : Database Row} {own : Written Row} (hdb : Numbered db)
    (hnil : own.events = []) {a : String} {state : AccountState}
    (h : foldStream (db.seen own) a = .ok state) : state.version = db.count (streamName a) := by
  obtain ⟨events, hevents, hfold⟩ := bind_eq_ok.mp h
  have hlength := (mapM_eq_ok.mp hevents).length_eq
  have hversion := (foldFrom_fields hfold).2.2
  have hfilter : (db.events.map Prod.snd).filter (fun r => stream r = streamName a) =
      (onStream db.events (streamName a)).map Prod.snd := by
    rw [onStream, List.filter_map]
    rfl
  rw [seen_of_nil hdb hnil, bySeq, List.length_insertionSort, hfilter, List.length_map] at hlength
  rw [hversion, ← hlength]
  exact zero_add _

/-- **The states of a decision are not ahead of the streams.** -/
theorem Known.behind {own own' : Written Row} {anchor : String} {state : AccountState}
    {more past : List (Step Row)} {states : States} {t t₁ : Database Row}
    (h : Known own anchor state more states) (hholds : rely.Holds t own' past)
    (hmore : ∀ step ∈ more, step ∈ past) (hnil : own.events = [])
    (hfolded : foldStream (t₁.seen .nothing) anchor = .ok state)
    (hanchor : ⟨.foldStream anchor, .nothing, t₁⟩ ∈ past) {events : List AccountEvent}
    {legs : List (AccountEvent × Int)} (hlegs : numberLegs states events = .ok legs) :
    Behind (versionIn states) t.nextId legs t := by
  have hread : ∀ {u : Database Row}, Numbered u → Grows u t → ∀ {own₀ : Written Row},
      own₀.events = [] → ∀ {a : String} {st : AccountState}, foldStream (u.seen own₀) a = .ok st →
        0 ≤ st.version ∧ st.version ≤ t.count (streamName a) := by
    intro u hu hgrows own₀ hnil₀ a st hfold
    rw [version_of_fold hu hnil₀ hfold]
    exact ⟨Int.natCast_nonneg _, by exact_mod_cast hgrows.count_le _⟩
  intro leg hleg
  have hevent : leg.1 ∈ events :=
    (mem_events_of_numberLegs hlegs).mem_iff.mp (List.mem_map_of_mem hleg)
  obtain ⟨st, hst⟩ := Option.isSome_iff_exists.mp ((numberLegs_eq_ok hlegs).2 leg.1 hevent)
  have hversion : versionIn states leg.1.accountId = st.version := by
    rw [versionIn, hst]
    rfl
  have hbounds : 0 ≤ st.version ∧ st.version ≤ t.count (streamName leg.1.accountId) := by
    rcases h.folded _ _ hst with ⟨heq, rfl⟩ | ⟨u, hmem, hfold⟩
    · obtain ⟨hinv, hgrows⟩ := hholds.seen _ hanchor
      rw [heq]
      exact hread hinv hgrows rfl hfolded
    · obtain ⟨hinv, hgrows⟩ := hholds.seen _ (hmore _ hmem)
      exact hread hinv hgrows hnil hfold
  rw [hversion]
  exact ⟨hbounds.1, hbounds.2, fun _ x hx _ => hholds.inv.drawn x hx⟩

/-! ### Results -/

section Results

variable {attempt : Attempt} {db : Database Row} {own : Written Row} {past : List (Step Row)}

def resultRow (attempt : Attempt) (n : ℕ) (result : CommandResult) : ResultRow :=
  ⟨result.commandId, result.requestHash, result.toJson, attempt.call.clock n⟩

/-- What has been written with a result. -/
def Persisted (attempt : Attempt) (own : Written Row) (past : List (Step Row))
    (result : CommandResult) (own' : Written Row) (past' : List (Step Row)) : Prop :=
  own' = { own with readings := own.readings + 1 }.withResult (resultRow attempt own.readings result) ∧
    ∃ more, past' = past ++ more ∧ ∀ step ∈ more, Wrote own' step

theorem wp_persistResult {result : CommandResult} (hresults : own.results = [])
    (hrelaying : own.relaying = false) :
    Guarantees (fun r _ own' past' => match r with
      | .ok _ => Persisted attempt own past result own' past'
      | .error e => e = .integrityError) (persistResult attempt result) db own past := by
  refine wp_bind (wp_clock rfl fun t u hu => ?_)
  set row := resultRow attempt own.readings result
  refine wp_statement fun t' ht' _ => ⟨⟨fun _ => ⟨hresults, hrelaying⟩, (fun _ _ h => nomatch h),
    (fun _ h => nomatch h), (fun h => nomatch h)⟩, fun a own' hexec v _ _ => ?_,
    fun e herror v => insertResult_error herror⟩
  have hinsert : t'.insertResult { own with readings := own.readings + 1 } row = .ok (a, own') := hexec
  obtain ⟨-, rfl⟩ := insertResult_eq_ok.mp hinsert
  refine ⟨rfl, _, List.append_assoc _ _ _, ?_⟩
  rw [List.singleton_append, List.forall_mem_cons, List.forall_mem_singleton]
  exact ⟨trivial, List.mem_append_right _ List.mem_cons_self, hexec⟩

theorem wp_persistedRejection {request : NormalizedCommand} {outcome : CommandOutcome}
    {errorCode : String} {httpStatus : Int} {state : AccountState} {createdAt : Datetime}
    (h : Refusal outcome errorCode httpStatus) (hresults : own.results = [])
    (hrelaying : own.relaying = false) :
    Guarantees (fun r _ own' past' => match r with
      | .ok result => (rejection request outcome errorCode httpStatus state.version createdAt = .ok result) ∧
        Persisted attempt own past result own' past'
      | .error e => e = .integrityError)
      (persistedRejection (boundStorage attempt) request outcome errorCode httpStatus state.version
        createdAt) db own past := by
  obtain ⟨result, hresult⟩ := rejection_of h request state createdAt
  refine wp_bind (wp_ofExcept fun t _ _ => ?_)
  rw [hresult]
  refine wp_bind ((wp_persistResult hresults hrelaying).mono fun r u own' past' hend => ?_)
  cases r with
  | error e => exact hend
  | ok _ => exact wp_of_later fun _ _ _ => wp_pure fun _ _ _ => ⟨rfl, hend⟩

end Results

/-! ### Attempts -/

/-- What an attempt has written after its first reading of the clock. -/
def read1 : Written Row := { Written.nothing with readings := 1 }

section

variable (attempt : Attempt)

/-- The statements of an attempt on a new command id: it finds no result, folds its account,
reads its clock, reads more and then writes. -/
inductive Ran (state : AccountState) (more : List (Step Row)) (own : Written Row) :
    List (Step Row) → Prop
  | intro {wrote : List (Step Row)} (t₀ t₁ t₂ : Database Row)
      (fresh : ∀ row ∈ t₀.results, row.commandId ≠ attempt.call.request.commandId)
      (folded : foldStream (t₁.seen .nothing) attempt.call.request.command.accountId = .ok state)
      (writes : ∀ step ∈ wrote, Wrote own step) :
      Ran state more own ([⟨.storedResult attempt.call.request.commandId, .nothing, t₀⟩,
        ⟨.foldStream attempt.call.request.command.accountId, .nothing, t₁⟩,
        ⟨.reading, .nothing, t₂⟩] ++ more ++ wrote)

/-- Of these reads a decision comes to its legs or to an error. -/
abbrev Decides (state : AccountState) (more : List (Step Row))
    (r : Except PyError (List (AccountEvent × Int))) : Prop :=
  Chose read1 attempt.call.request state (attempt.call.clock 0) more r

/-- **The ways in which an attempt ends.** -/
inductive Ended : Except PyError CommandResult → Written Row → List (Step Row) → Prop
  | failed {own : Written Row} {past : List (Step Row)} {e : PyError} (step : Step Row)
      (mem : step ∈ past) (error : exec step.op step.seen step.own = .error e) :
      Ended (.error e) own past
  | collided {own : Written Row} {past : List (Step Row)} : Ended (.error .integrityError) own past
  | undecided {own : Written Row} {past : List (Step Row)} {state : AccountState}
      {more : List (Step Row)} {e : PyError} (ran : Ran attempt state more own past)
      (decides : Decides attempt state more (.error e)) (handled : domainErrorOf e = none) :
      Ended (.error e) own past
  | outOfRange {own : Written Row} {past : List (Step Row)} {state : AccountState}
      {more : List (Step Row)} {legs : List (AccountEvent × Int)} {leg : AccountEvent × Int}
      {e : PyError} (decides : Decides attempt state more (.ok legs)) (mem : leg ∈ legs)
      (range : ¬ (1 ≤ leg.2 ∧ leg.2 ≤ maxSignedBigint)) : Ended (.error e) own past
  | replayed {own : Written Row} {past : List (Step Row)} {stored : CommandResult}
      (t₀ : Database Row) (mem : ⟨.storedResult attempt.call.request.commandId, .nothing, t₀⟩ ∈ past)
      (events : own.events = []) (results : own.results = [])
      (found : Store.storedResult ⟨[], t₀.results⟩ attempt.call.request.commandId =
        .ok (some stored)) (same : stored.requestHash = attempt.call.request.requestHash) :
      Ended (.ok stored) own past
  | conflicted {own : Written Row} {past : List (Step Row)} {stored result : CommandResult}
      (t₀ : Database Row) (events : own.events = []) (results : own.results = [])
      (found : Store.storedResult ⟨[], t₀.results⟩ attempt.call.request.commandId =
        .ok (some stored)) (different : stored.requestHash ≠ attempt.call.request.requestHash)
      (outcome : result.outcome = .commandIdConflict) : Ended (.ok result) own past
  | outdated {own : Written Row} {past : List (Step Row)} {state : AccountState}
      {result : CommandResult} (ran : Ran attempt state [] own past)
      (version : attempt.call.request.command.expectedVersion ≠ state.version)
      (rejects : rejection attempt.call.request .versionConflict "version_conflict" 409 state.version
        (attempt.call.clock 0) = .ok result)
      (events : own.events = []) (results : own.results = [resultRow attempt 1 result]) :
      Ended (.ok result) own past
  | rejected {own : Written Row} {past : List (Step Row)} {state : AccountState}
      {more : List (Step Row)} {error : DomainError} {result : CommandResult}
      (ran : Ran attempt state more own past)
      (version : attempt.call.request.command.expectedVersion = state.version)
      (decides : Decides attempt state more (.error (.domain error)))
      (rejects : rejection attempt.call.request (rejectionFor error).1 error.code
        (rejectionFor error).2 state.version (attempt.call.clock 0) = .ok result)
      (events : own.events = []) (results : own.results = [resultRow attempt 1 result]) :
      Ended (.ok result) own past
  | accepted {own : Written Row} {past : List (Step Row)} {state : AccountState}
      {more : List (Step Row)} {legs : List (AccountEvent × Int)} {postings : List Posting}
      {addressed : EventEnvelope} {result : CommandResult}
      (ran : Ran attempt state more own past)
      (version : attempt.call.request.command.expectedVersion = state.version)
      (decides : Decides attempt state more (.ok legs))
      (rows : LegRows attempt.call (attempt.call.clock 0) 0 legs ([], none) (own.events.map Prod.snd)
        (postings, some addressed))
      (accepts : CommandResult.new attempt.call.request.commandId attempt.call.request.requestHash
        .accepted attempt.call.request.command.accountId
        attempt.call.request.command.expectedVersion state.version (some addressed.streamVersion)
        (some addressed.eventId) attempt.call.request.correlationId none 201 (attempt.call.clock 0)
        postings = .ok result)
      (results : own.results = [resultRow attempt 1 result]) : Ended (.ok result) own past

end

/-- **An attempt ends in one of these ways**, and meets what it owes. -/
theorem wp_decision (attempt : Attempt) {db : Database Row} :
    Guarantees (fun r _ own past => Ended attempt r own past) (decision attempt) db .nothing [] := by
  have hread : ∀ t₀ : Database Row, Store.storedResult ⟨[], t₀.results ++ (.nothing : Written Row).results⟩
      attempt.call.request.commandId =
        Store.storedResult ⟨[], t₀.results⟩ attempt.call.request.commandId := by
    intro t₀
    rw [Written.nothing, List.append_nil]
  refine wp_bind (wp_read (fun _ _ => rfl) rfl fun t₀ u₀ => ?_)
  rw [hread]
  cases hstored : Store.storedResult ⟨[], t₀.results⟩ attempt.call.request.commandId with
  | error e =>
    refine Ended.failed _ List.mem_cons_self ?_
    exact congrArg (Except.map _) ((hread t₀).trans hstored)
  | ok stored =>
    cases stored with
    | some stored =>
      show Guarantees _ (if _ then _ else _) _ _ _
      split
      next hsame =>
        exact wp_pure fun _ _ _ => .replayed t₀ List.mem_cons_self rfl rfl hstored hsame
      next hdifferent =>
        refine wp_bind (wp_read (fun _ _ => rfl) rfl fun t₁ u₁ => ?_)
        cases hfold : foldStream (t₁.seen .nothing) attempt.call.request.command.accountId with
        | error e =>
          exact Ended.failed _ (List.mem_append_right _ List.mem_cons_self)
            (congrArg (Except.map _) hfold)
        | ok current =>
          refine wp_bind (wp_clock (n := 0) rfl fun t₂ u₂ _ => wp_ofExcept fun _ _ _ => ?_)
          have hrefusal : Refusal .commandIdConflict "command_id_conflict" 409 :=
            ⟨by decide, by decide, by decide⟩
          obtain ⟨result, hresult⟩ := rejection_of hrefusal attempt.call.request current
            (attempt.call.clock 0)
          rw [hresult]
          exact .conflicted t₀ rfl rfl hstored hdifferent (CommandResult.new_fields hresult).2.2.1
    | none =>
      have hfresh := Store.storedResult_eq_none.mp hstored
      refine wp_bind (wp_read (fun _ _ => rfl) rfl fun t₁ u₁ => ?_)
      cases hfold : foldStream (t₁.seen .nothing) attempt.call.request.command.accountId with
      | error e =>
        exact Ended.failed _ (List.mem_append_right _ List.mem_cons_self)
          (congrArg (Except.map _) hfold)
      | ok state =>
        show Guarantees _ (if _ then _ else _) _ _ _
        split
        next hversion =>
          refine wp_bind (wp_clock (n := 0) rfl fun t₂ u₂ _ => ?_)
          have hrefusal : Refusal .versionConflict "version_conflict" 409 :=
            ⟨by decide, by decide, by decide⟩
          refine (wp_persistedRejection hrefusal rfl rfl).mono fun r u own past hend => ?_
          cases r with
          | error e =>
            cases hend
            exact .collided
          | ok result =>
            obtain ⟨hresult, rfl, wrote, rfl, hwrote⟩ := hend
            exact .outdated (.intro t₀ t₁ t₂ hfresh hfold hwrote) hversion hresult rfl rfl
        next hversion =>
          rw [not_not] at hversion
          refine wp_bind (wp_clock (n := 0) rfl fun t₂ u₂ _ => ?_)
          set opening : List (Step Row) := [⟨.storedResult attempt.call.request.commandId, .nothing, t₀⟩,
            ⟨.foldStream attempt.call.request.command.accountId, .nothing, t₁⟩,
            ⟨.reading, .nothing, t₂⟩] with hopening
          show Guarantees _ (Transactions.attempt domainErrorOf (decideLegs
            (boundStorage attempt).toCommandReads attempt.call.request state (attempt.call.clock 0)) >>= _)
            u₂ read1 opening
          refine wp_bind (wp_attempt (wp_decideLegs.mono fun r u own past hreads => ?_))
          obtain ⟨rfl, more, rfl, hdecides⟩ := hreads
          have hran : ∀ {own : Written Row} {wrote : List (Step Row)},
              (∀ step ∈ wrote, Wrote own step) → Ran attempt state more own (opening ++ more ++ wrote) :=
            fun hwrote => .intro t₀ t₁ t₂ hfresh hfold hwrote
          cases r with
          | error e =>
            dsimp only
            cases hhandled : domainErrorOf e with
            | none =>
              have hnone : Ran attempt state more read1 (opening ++ more ++ []) :=
                hran fun _ h => nomatch h
              rw [List.append_nil] at hnone
              exact Ended.undecided hnone hdecides hhandled
            | some error =>
              have hdomain : e = .domain error := by
                cases e <;> cases hhandled
                rfl
              refine (wp_persistedRejection (refusal_rejectionFor error) rfl rfl).mono
                fun r u own past hend => ?_
              cases r with
              | error e =>
                cases hend
                exact .collided
              | ok result =>
                obtain ⟨hresult, rfl, wrote, rfl, hwrote⟩ := hend
                exact .rejected (hran hwrote) hversion (hdomain ▸ hdecides) hresult rfl rfl
          | ok legs =>
            obtain ⟨states, events, hnumbers⟩ := hdecides.numbers
            have hplanned := planned_of_numberLegs hnumbers.numbered
            refine wp_of_later fun v _ hholds => wp_bind ?_
            have hbehind : Behind (versionIn states) v.nextId legs v :=
              hnumbers.known.behind hholds (fun _ h => List.mem_append_right _ h) rfl hfold
                (List.mem_append_left _ (by simp [hopening])) hnumbers.numbered
            have hwriting : Writing v.nextId [] (read1 : Written Row) :=
              ⟨rfl, (fun _ h => nomatch h), rfl, rfl⟩
            refine (wp_appendLegs hplanned legs [] [] none rfl hwriting hbehind le_rfl
              ⟨List.nodup_nil, fun _ h => nomatch h⟩).mono fun r w own past hend => ?_
            cases r with
            | error e =>
              rcases (show e = .integrityError ∨ ∃ leg ∈ legs, _ from hend) with rfl | ⟨leg, hleg, hrange⟩
              · exact Ended.collided
              · exact Ended.outOfRange hdecides hleg hrange
            | ok p =>
              obtain ⟨postings, addressed⟩ := p
              obtain ⟨hwriting, -, ⟨⟨rows, hrows, hmap⟩, -, hreadings, wrote, rfl, hwrote⟩, haddresses,
                hsome⟩ := hend
              obtain ⟨e, he, haccount⟩ := hnumbers.addressed
              have haddressed : addressed.isSome := by
                refine hsome (Or.inl ?_)
                obtain ⟨leg, hleg, rfl⟩ := List.mem_map.mp
                  ((mem_events_of_numberLegs hnumbers.numbered).mem_iff.mpr he)
                exact ⟨leg, hleg, haccount⟩
              obtain ⟨envelope, rfl⟩ := Option.isSome_iff_exists.mp haddressed
              obtain ⟨p, hp, hpaccount, hpevent, hpversion⟩ := haddresses.posted envelope rfl
              obtain ⟨result, hresult⟩ : ∃ r, CommandResult.new attempt.call.request.commandId
                  attempt.call.request.requestHash .accepted attempt.call.request.command.accountId
                  attempt.call.request.command.expectedVersion state.version
                  (some envelope.streamVersion) (some envelope.eventId)
                  attempt.call.request.correlationId none 201 (attempt.call.clock 0) postings = .ok r := by
                refine CommandResult.new_of attempt.call.request.command.account_ok
                  attempt.call.request.command.version_ok
                  ⟨state.valid.version_nonneg, state.valid.version_le⟩ (by decide)
                  (by simpa using envelope.stream_version_ok) (by simp) ?_
                rw [OutcomeFields, if_pos rfl]
                exact ⟨rfl, by decide, haddresses.nodup, p, hp, hpaccount, by rw [hpevent],
                  by rw [hpversion]⟩
              refine wp_bind (wp_ofExcept fun _ _ _ => ?_)
              rw [hresult]
              refine wp_bind ((wp_persistResult hwriting.results hwriting.relaying).mono
                fun r x own' past' hend => ?_)
              cases r with
              | error e =>
                cases hend
                exact .collided
              | ok _ =>
                refine wp_of_later fun _ _ _ => wp_pure fun _ _ _ => ?_
                obtain ⟨rfl, last, rfl, hlast⟩ := hend
                rw [List.append_assoc]
                refine .accepted (hran fun step hstep => ?_) hversion hdecides ?_ hresult ?_
                · rcases List.mem_append.mp hstep with hstep | hstep
                  · exact (hwrote step hstep).mono (fun _ h => h) fun _ h => List.mem_append_left _ h
                  · exact hlast step hstep
                · have hall : own.events.map Prod.snd = rows := hmap
                  show LegRows _ _ 0 legs _ (own.events.map Prod.snd) _
                  rw [hall]
                  exact hrows
                · show own.results ++ [resultRow attempt own.readings result] = _
                  rw [hwriting.results, hreadings, List.nil_append]
                  rfl

/-! ### Callers -/

section Callers

variable {ι : Type}

theorem callers_tasks : Tasks rely Owes (engine : Engine (Database Row) _ _ _ _) decision (fun _ : ι => caller)
    (fun _ _ => True) (fun attempt r _ own past => Ended attempt r own past) (fun _ _ => True) where
  wp attempt _ := wp_decision attempt
  settled _ := trivial
  resume _ _ _ := trivial
  lost _ := trivial

abbrev Callers.Sound (s : Callers Row ι) : Prop :=
  Safe rely Owes Clash engine (fun _ => caller)
    (fun attempt r _ own past => Ended attempt r own past) (fun _ _ => True) s

variable [DecidableEq ι] [∀ s : Callers Row ι, ∀ i op, Decidable (s.Waits engine i op)]

/-- **Callers keep to what they owe**, in every state of a run. -/
theorem Callers.sound_run {db : Database Row} (hdb : Numbered db) (queues : ι → List Execution)
    (moves : List (Move ι)) : Callers.Sound (Callers.run db queues moves) := by
  have hstart : Callers.Sound (Callers.start db queues) := by
    refine ⟨hdb, fun _ => trivial, ?_, ?_⟩
    · exact fun _ _ _ _ hown => nomatch hown
    · exact fun _ _ _ _ _ hphase => nomatch hphase
  exact Safe.run discipline callers_tasks hstart moves

end Callers

end Cloudscale.Postgres
