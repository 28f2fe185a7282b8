import Cloudscale.Application.RelatedStorages
import Cloudscale.Ledger.Deciding

/-!
# What a transaction tracks

Until a transaction appends, its tracker has folds of the log (`Reading`), and the
operations of the unit of work read what those on the log read (`relatedReads`).  By the
time the legs of a command are decided, every stream that they are on was folded
(`knows_decided`).

Appending the legs is appending them to the log, provided that they apply, one after the
other, to the states of their streams (`appendLegs_iff`).  Nothing is asked of the store.
-/

namespace Cloudscale

open Checked Python Tables Transactions Relational

/-! ### Operations -/

namespace TrackedSession

variable {t t' : TrackedSession}

@[simp] theorem session_setSession (t : TrackedSession) (session : Session) :
    (t.setSession session).session = session := rfl

@[simp] theorem states_setSession (t : TrackedSession) (session : Session) :
    (t.setSession session).states = t.states := rfl

@[simp] theorem session_track (t : TrackedSession) (a : String) (state : AccountState) :
    (t.track a state).session = t.session := rfl

@[simp] theorem find_track (t : TrackedSession) (a b : String) (state : AccountState) :
    (t.track a state).states.find b = if b = a then some state else t.states.find b :=
  Table.find_put _ _ _ _

theorem knows_track {a b : String} {state : AccountState} :
    (t.track a state).Knows b ↔ b = a ∨ t.Knows b := by
  rw [Knows, find_track]
  split
  next h => exact ⟨fun _ => Or.inl h, fun _ => rfl⟩
  next h => exact (or_iff_right h).symm

/-- **After an append** a state that is known has moved on. -/
theorem afterAppend_eq_ok {event : AccountEvent} :
    t.afterAppend event = .ok t' ↔ (t.states.find event.accountId = none ∧ t' = t) ∨
      ∃ prior state, t.states.find event.accountId = some prior ∧
        Account.apply prior event = .ok state ∧ t' = t.track event.accountId state := by
  rw [afterAppend]
  cases hprior : t.states.find event.accountId with
  | none =>
    refine ⟨fun h => Or.inl ⟨rfl, (Except.ok.inj h).symm⟩, fun h => ?_⟩
    rcases h with ⟨-, rfl⟩ | ⟨_, _, hnone, -⟩
    · rfl
    · cases hnone
  | some prior =>
    simp only [Option.some.injEq, reduceCtorEq, false_and, false_or, bind_eq_ok, pure_eq_ok,
      Except.ok.injEq]
    constructor
    · rintro ⟨state, hstate, rfl⟩
      exact ⟨prior, state, rfl, hstate, rfl⟩
    · rintro ⟨_, state, rfl, hstate, rfl⟩
      exact ⟨state, hstate, rfl⟩

theorem session_afterAppend {event : AccountEvent} (h : t.afterAppend event = .ok t') :
    t'.session = t.session := by
  rcases afterAppend_eq_ok.mp h with ⟨-, rfl⟩ | ⟨_, _, -, -, rfl⟩ <;> rfl

end TrackedSession

namespace Call

variable {t t' : TrackedSession}

theorem onSession_eq_ok {α : Type} {x : Transaction α} {a : α} :
    (onSession x).run t = .ok (a, t') ↔
      ∃ session, x.run t.session = .ok (a, session) ∧ t' = t.setSession session :=
  run_zoom_eq_ok

theorem onSession_of {α : Type} {x : Transaction α} {a : α} {session : Session}
    (h : x.run t.session = .ok (a, session)) :
    (onSession x).run t = .ok (a, t.setSession session) :=
  run_zoom_of h

/-- A read of the log leaves the transaction as it is. -/
theorem onSession_read_eq_ok {α : Type} {f : Store → Except PyError α} {a : α} :
    (onSession (read f)).run t = .ok (a, t') ↔ f t.store = .ok a ∧ t' = t := by
  rw [onSession_eq_ok]
  constructor
  · rintro ⟨session, hread, rfl⟩
    obtain ⟨h, rfl⟩ := run_query_eq_ok.mp hread
    exact ⟨h, rfl⟩
  · rintro ⟨h, rfl⟩
    exact ⟨_, run_query_of h, rfl⟩

theorem storedResult_eq_ok (call : Call) {id : UUID} {stored : Option CommandResult} :
    (call.storage.storedResult id).run t = .ok (stored, t') ↔
      t.store.storedResult id = .ok stored ∧ t' = t :=
  onSession_read_eq_ok (f := (·.storedResult id))

theorem foldStream_eq_ok {a : String} {state : AccountState} :
    (foldStream a).run t = .ok (state, t') ↔
      t.store.foldStream a = .ok state ∧ t' = t.track a state := by
  refine bind_eq_ok.trans ⟨fun ⟨_, hfold, h⟩ => ?_, fun ⟨hfold, h⟩ => ⟨state, hfold, ?_⟩⟩
  · cases h
    exact ⟨hfold, rfl⟩
  · rw [h]
    rfl

theorem appendEvent_eq_ok {envelope : EventEnvelope} {event : AccountEvent} {u : Unit} :
    (appendEvent envelope event).run t = .ok (u, t') ↔
      ∃ session, (insertEvent envelope event).run t.session = .ok ((), session) ∧
        (t.setSession session).afterAppend event = .ok t' := by
  rw [appendEvent, run_bind_eq_ok]
  constructor
  · rintro ⟨_, t₁, hinsert, hafter⟩
    obtain ⟨session, hsession, rfl⟩ := onSession_eq_ok.mp hinsert
    obtain ⟨t₂, ht₂, h⟩ := bind_eq_ok.mp hafter
    cases h
    exact ⟨session, hsession, ht₂⟩
  · rintro ⟨session, hsession, hafter⟩
    exact ⟨(), _, onSession_of hsession, bind_of hafter _⟩

end Call

/-! ### Reading -/

/-- The transaction has only read: what it knows are folds of the log. -/
structure Reading (s : Store) (t : TrackedSession) : Prop where
  store : t.store = s
  folded : ∀ a state, t.states.find a = some state → s.foldStream a = .ok state

theorem reading_begin (s : Store) : Reading s s.begin := ⟨rfl, fun _ _ h => nomatch h⟩

section Reading

variable {s : Store} {t : TrackedSession}

theorem Reading.track (ht : Reading s t) {a : String} {state : AccountState}
    (h : s.foldStream a = .ok state) : Reading s (t.track a state) := by
  refine ⟨ht.store, fun b st hb => ?_⟩
  rw [TrackedSession.find_track] at hb
  split at hb
  next heq =>
    cases hb
    rw [heq]
    exact h
  next => exact ht.folded b st hb

theorem Reading.setSession (ht : Reading s t) {session : Session} (h : session.store = s) :
    Reading s (t.setSession session) :=
  ⟨h, ht.folded⟩

theorem read_follows {α : Type} (f : Store → Except PyError α) (t : TrackedSession) :
    Follows TrackedSession.session (Call.read f) (Call.onSession (Call.read f)) t
      fun _ t' => t' = t := by
  refine follows_zoom (fun _ => rfl) fun a session hrun => ?_
  obtain ⟨-, rfl⟩ := run_query_eq_ok.mp hrun
  rfl

theorem foldStream_follows (call : Call) (ht : Reading s t) (a : String) :
    Follows TrackedSession.session (call.logStorage.foldStream a) (Call.foldStream a) t
      fun state t' => Reading s t' ∧ t' = t.track a state := by
  refine ⟨fun state session hrun => ?_, fun e hrun => ?_⟩
  · obtain ⟨hfold, rfl⟩ := run_query_eq_ok.mp hrun
    have hfolded : s.foldStream a = .ok state := by rw [← ht.store]; exact hfold
    exact ⟨_, Call.foldStream_eq_ok.mpr ⟨hfold, rfl⟩, rfl, ht.track hfolded, rfl⟩
  · have hfold : t.store.foldStream a = .error e := by
      cases hfold : t.store.foldStream a with
      | ok state =>
        rw [show (call.logStorage.foldStream a).run t.session = .ok (state, t.session) from
          run_query_of hfold] at hrun
        cases hrun
      | error e' =>
        have hquery : (call.logStorage.foldStream a).run t.session =
            (t.store.foldStream a).map (·, t.session) := rfl
        rw [hquery, hfold] at hrun
        cases hrun
        rfl
    show (t.store.foldStream a >>= _) = _
    rw [hfold]
    rfl

theorem relatedReads (call : Call) (s : Store) :
    RelatedReads (fun {α : Type} (x : Transaction α) (y : TrackedTransaction α) =>
      ∀ t, Reading s t → Follows TrackedSession.session x y t fun _ t' => Reading s t')
    call.logStorage.toCommandReads call.storage.toCommandReads where
  storedResult id _ ht := (read_follows (·.storedResult id) _).mono fun _ _ h => h ▸ ht
  foldStream a _ ht := (foldStream_follows call ht a).mono fun _ _ h => h.1
  openHold a id _ ht := (read_follows (·.openHold a id) _).mono fun _ _ h => h ▸ ht
  legsOf id _ ht := (read_follows (·.legsOf id) _).mono fun _ _ h => h ▸ ht
  revertedBy id _ ht := (read_follows (·.revertedBy id) _).mono fun _ _ h => h ▸ ht

/-- **The legs of a decision are those on the log.** -/
theorem decideLegs_follows (call : Call) (request : NormalizedCommand) (state : AccountState)
    (now : Datetime) (ht : Reading s t) :
    Follows TrackedSession.session
      (decideLegs call.logStorage.toCommandReads request state now)
      (decideLegs call.storage.toCommandReads request state now) t fun _ t' => Reading s t' :=
  decideLegs_related (respects_follows domainErrorOf (Reading s)) (relatedReads call s) request
    state now t ht

end Reading

/-! ### Every append follows a fold -/

section Knowing

variable (call : Call) {request : NormalizedCommand} {state : AccountState} {t t' : TrackedSession}

theorem knows_foldOthers : ∀ {accountIds : List String} {states states' : States}
    {t t' : TrackedSession},
    (foldOthers call.storage.toCommandReads states accountIds).run t = .ok (states', t') →
    (∀ a, (states.lookup a).isSome → t.Knows a) →
    ∀ a, (states'.lookup a).isSome → t'.Knows a := by
  intro accountIds
  induction accountIds with
  | nil =>
    intro states states' t t' h hknows
    obtain ⟨rfl, rfl⟩ := run_pure_eq_ok.mp h
    exact hknows
  | cons accountId accountIds ih =>
    intro states states' t t' h hknows
    rw [foldOthers] at h
    split at h
    next => exact ih h hknows
    next =>
      obtain ⟨state, t₁, hfold, h⟩ := run_bind_eq_ok.mp h
      obtain ⟨-, rfl⟩ := Call.foldStream_eq_ok.mp hfold
      refine ih h fun a ha => TrackedSession.knows_track.mpr ?_
      rw [List.lookup_append] at ha
      by_cases hid : a = accountId
      · exact Or.inl hid
      · refine Or.inr (hknows a ?_)
        rwa [lookup_cons_ite, if_neg hid, List.lookup_nil, Option.or_none] at ha

theorem knows_onSession {α : Type} {x : Transaction α} {a : α} {b : String}
    (h : (Call.onSession x).run t = .ok (a, t')) : t'.Knows b ↔ t.Knows b := by
  obtain ⟨session, -, rfl⟩ := Call.onSession_eq_ok.mp h
  exact Iff.rfl

/-- The streams of the states that a decision starts its folds with. -/
theorem knows_anchor {a : String} (state : AccountState) (hanchor : t.Knows a) :
    ∀ b, ([(a, state)].lookup b).isSome → t.Knows b := by
  intro b hb
  rw [lookup_cons_ite] at hb
  split at hb
  next hid => exact hid ▸ hanchor
  next => cases hb

/-- One event on the stream that a command is addressed to. -/
theorem knows_single {e : AccountEvent} {v : Int} {a : String} (haccount : e.accountId = a)
    (hanchor : t.Knows a) : ∀ leg ∈ [(e, v)], t.Knows leg.1.accountId := by
  rw [List.forall_mem_singleton]
  show t.Knows e.accountId
  rwa [haccount]

/-- **Every append follows a fold**: the transaction has folded each stream that the legs of
its command are on. -/
theorem knows_decided {now : Datetime} {legs : List (AccountEvent × Int)}
    (h : (decideLegs call.storage.toCommandReads request state now).run t = .ok (legs, t'))
    (hanchor : t.Knows request.command.accountId) : ∀ leg ∈ legs, t'.Knows leg.1.accountId := by
  have hpostings : ∀ {a : String} {ls : List Leg} {id : UUID}, t.Knows a →
      (postingsLegs call.storage.toCommandReads a ls state id).run t = .ok (legs, t') →
      ∀ leg ∈ legs, t'.Knows leg.1.accountId := by
    intro a ls id ha h
    obtain ⟨states, t₁, hothers, h⟩ := run_bind_eq_ok.mp h
    obtain ⟨hlegs, rfl⟩ := run_ofExcept_eq_ok.mp h
    obtain ⟨events, -, hnumber⟩ := bind_eq_ok.mp hlegs
    exact fun leg hleg => knows_foldOthers call hothers (knows_anchor state ha) _
      (known_of_numberLegs hnumber leg hleg)
  have hrelease : ∀ {kind : Account.ReleaseKind} {c : ReleaseCommand}, t.Knows c.accountId →
      (releaseLegs call.storage.toCommandReads kind c state now).run t = .ok (legs, t') →
      ∀ leg ∈ legs, t'.Knows leg.1.accountId := by
    intro kind c ha h
    obtain ⟨hold, t₁, hopen, h⟩ := run_bind_eq_ok.mp h
    obtain ⟨hlegs, rfl⟩ := run_ofExcept_eq_ok.mp h
    obtain ⟨released, hreleased, hlegs⟩ := bind_eq_ok.mp hlegs
    cases hlegs
    obtain ⟨_, -, -, hreleases⟩ := Account.decideReleaseHold_eq_ok.mp hreleased
    exact knows_single hreleases.accountId ((knows_onSession hopen).mpr ha)
  rw [decideLegs] at h
  cases hc : request.command with
  | transfer c | post c =>
    simp only [hc] at h hanchor
    exact hpostings hanchor h
  | voidHold c | expireHold c =>
    simp only [hc] at h hanchor
    exact hrelease hanchor h
  | deposit c | withdraw c =>
    simp only [hc] at h hanchor
    obtain ⟨hlegs, rfl⟩ := run_ofExcept_eq_ok.mp h
    obtain ⟨e, he, hlegs⟩ := bind_eq_ok.mp hlegs
    cases hlegs
    first
      | obtain ⟨rfl, -⟩ := Account.decide_deposit_eq_ok.mp he
      | obtain ⟨rfl, -⟩ := Account.decide_withdraw_eq_ok.mp he
    exact knows_single rfl hanchor
  | hold c =>
    simp only [hc] at h hanchor
    obtain ⟨hlegs, rfl⟩ := run_ofExcept_eq_ok.mp h
    obtain ⟨placed, hplaced, hlegs⟩ := bind_eq_ok.mp hlegs
    cases hlegs
    obtain ⟨hplacement, -⟩ := Account.decideHold_eq_ok.mp hplaced
    exact knows_single hplacement.accountId hanchor
  | postHold c =>
    simp only [hc] at h hanchor
    obtain ⟨hold, t₁, hopen, h⟩ := run_bind_eq_ok.mp h
    obtain ⟨states, t₂, hothers, h⟩ := run_bind_eq_ok.mp h
    obtain ⟨hlegs, rfl⟩ := run_ofExcept_eq_ok.mp h
    obtain ⟨target, -, hlegs⟩ := bind_eq_ok.mp hlegs
    obtain ⟨events, -, hnumber⟩ := bind_eq_ok.mp hlegs
    exact fun leg hleg => knows_foldOthers call hothers
      (knows_anchor state ((knows_onSession hopen).mpr hanchor)) _
      (known_of_numberLegs hnumber leg hleg)
  | revert c =>
    simp only [hc] at h hanchor
    obtain ⟨original, t₁, hlegsOf, h⟩ := run_bind_eq_ok.mp h
    obtain ⟨states, t₂, hothers, h⟩ := run_bind_eq_ok.mp h
    obtain ⟨revertedBy, t₃, hreverted, h⟩ := run_bind_eq_ok.mp h
    obtain ⟨hlegs, rfl⟩ := run_ofExcept_eq_ok.mp h
    obtain ⟨events, -, hnumber⟩ := bind_eq_ok.mp hlegs
    exact fun leg hleg => (knows_onSession hreverted).mpr (knows_foldOthers call hothers
      (knows_anchor state ((knows_onSession hlegsOf).mpr hanchor)) _
      (known_of_numberLegs hnumber leg hleg))

/-- The transaction has decided the legs, and only read for it. -/
structure Decides (s : Store) (legs : List (AccountEvent × Int)) (t t' : TrackedSession) : Prop where
  session : t'.session = t.session
  reading : Reading s t'
  knows : ∀ leg ∈ legs, t'.Knows leg.1.accountId

variable {s : Store} {now : Datetime} {legs : List (AccountEvent × Int)} (ht : Reading s t)

include ht

theorem decideLegs_run_ok (hanchor : t.Knows request.command.accountId)
    (h : (decideLegs call.storage.toCommandReads request state now).run t = .ok (legs, t')) :
    decideLegs s.reads request state now = .ok legs ∧ Decides s legs t t' := by
  obtain ⟨hlog, ht'⟩ := (decideLegs_follows call request state now ht).of_ok h
  rw [decideLegs_storage] at hlog
  obtain ⟨hlegs, hsession⟩ := run_query_eq_ok.mp hlog
  rw [show t.session.store = s from ht.store] at hlegs
  exact ⟨hlegs, hsession, ht', knows_decided call h hanchor⟩

theorem decideLegs_run_of (hanchor : t.Knows request.command.accountId)
    (h : decideLegs s.reads request state now = .ok legs) :
    ∃ t', (decideLegs call.storage.toCommandReads request state now).run t = .ok (legs, t') ∧
      Decides s legs t t' := by
  have hlog : (decideLegs call.logStorage.toCommandReads request state now).run t.session =
      .ok (legs, t.session) := by
    rw [decideLegs_storage]
    refine run_query_of ?_
    rwa [show t.session.store = s from ht.store]
  obtain ⟨t', hrun, -⟩ := (decideLegs_follows call request state now ht).ok _ _ hlog
  exact ⟨t', hrun, (decideLegs_run_ok call ht hanchor hrun).2⟩

theorem decideLegs_run_error {e : PyError} (h : decideLegs s.reads request state now = .error e) :
    (decideLegs call.storage.toCommandReads request state now).run t = .error e := by
  refine (decideLegs_follows call request state now ht).error e ?_
  rw [decideLegs_storage]
  show (decideLegs t.session.store.reads request state now).map (·, t.session) = _
  rw [show t.session.store = s from ht.store, h]
  rfl

end Knowing

/-! ### Appending -/

/-- The events of the legs on an account. -/
def legEvents (legs : List (AccountEvent × Int)) (a : String) : List AccountEvent :=
  (legs.filter (fun leg => leg.1.accountId = a)).map Prod.fst

theorem legEvents_cons (e : AccountEvent) (v : Int) (legs : List (AccountEvent × Int)) (a : String) :
    legEvents ((e, v) :: legs) a =
      if e.accountId = a then e :: legEvents legs a else legEvents legs a := by
  rw [legEvents, List.filter_cons]
  by_cases ha : e.accountId = a
  · rw [if_pos ha, if_pos (by simpa using ha)]
    rfl
  · rw [if_neg ha, if_neg (by simpa using ha)]
    rfl

namespace TrackedSession

/-- The legs apply, one after the other, to the states that the transaction knows. -/
def Applies (t : TrackedSession) (legs : List (AccountEvent × Int)) : Prop :=
  ∀ a state, t.states.find a = some state →
    ∃ state', Account.foldFrom state (legEvents legs a) = .ok state'

variable {t : TrackedSession}

theorem applies_nil : t.Applies [] := fun _ state _ => ⟨state, rfl⟩

/-- **The first leg is taken, and the others apply after it.** -/
theorem applies_cons_iff {e : AccountEvent} {v : Int} {legs : List (AccountEvent × Int)} :
    t.Applies ((e, v) :: legs) ↔ ∃ t', t.afterAppend e = .ok t' ∧ t'.Applies legs := by
  have hother : ∀ {a : String}, ¬ a = e.accountId →
      legEvents ((e, v) :: legs) a = legEvents legs a :=
    fun ha => by rw [legEvents_cons, if_neg (Ne.symm ha)]
  cases hprior : t.states.find e.accountId with
  | none =>
    have hne : ∀ {a : String} {state : AccountState}, t.states.find a = some state →
        ¬ a = e.accountId := by
      rintro _ _ hstate rfl
      rw [hprior] at hstate
      cases hstate
    constructor
    · intro h
      refine ⟨t, afterAppend_eq_ok.mpr (Or.inl ⟨hprior, rfl⟩), fun a state hstate => ?_⟩
      rw [← hother (hne hstate)]
      exact h a state hstate
    · rintro ⟨t', hafter, h⟩ a state hstate
      rw [hother (hne hstate)]
      rcases afterAppend_eq_ok.mp hafter with ⟨-, rfl⟩ | ⟨_, _, hsome, -⟩
      · exact h a state hstate
      · rw [hprior] at hsome
        cases hsome
  | some prior =>
    have hself : legEvents ((e, v) :: legs) e.accountId = e :: legEvents legs e.accountId := by
      rw [legEvents_cons, if_pos rfl]
    constructor
    · intro h
      obtain ⟨last, hlast⟩ := h e.accountId prior hprior
      rw [hself, Account.foldFrom_cons] at hlast
      obtain ⟨state, hstate, hlast⟩ := bind_eq_ok.mp hlast
      refine ⟨_, afterAppend_eq_ok.mpr (Or.inr ⟨prior, state, hprior, hstate, rfl⟩),
        fun a st hst => ?_⟩
      rw [find_track] at hst
      split at hst
      next heq =>
        cases hst
        exact ⟨last, heq ▸ hlast⟩
      next hne =>
        rw [← hother hne]
        exact h a st hst
    · rintro ⟨t', hafter, h⟩ a st hst
      rcases afterAppend_eq_ok.mp hafter with ⟨hnone, -⟩ | ⟨prior', state, hprior', hstate, rfl⟩
      · rw [hprior] at hnone
        cases hnone
      · by_cases ha : a = e.accountId
        · subst ha
          rw [hprior'] at hst
          cases hst
          obtain ⟨last, hlast⟩ := h e.accountId state (by rw [find_track, if_pos rfl])
          exact ⟨last, by rw [hself, Account.foldFrom_cons, hstate, ok_bind, hlast]⟩
        · rw [hother ha]
          exact h a st (by rw [find_track, if_neg ha, hst])

end TrackedSession

/-- **Appending is appending to the log**, as long as the legs apply. -/
theorem appendLegs_iff {call : Call} {request : NormalizedCommand} {now : Datetime} :
    ∀ {legs : List (AccountEvent × Int)} {postings : List Posting}
      {addressed : Option EventEnvelope} {t : TrackedSession} {session : Session}
      {p : List Posting × Option EventEnvelope},
    (∃ t', (appendLegs call.storage request now (Call.onSession call.eventIdFactory) legs postings
      addressed).run t = .ok (p, t') ∧ t'.session = session) ↔
    (appendLegs call.logStorage request now call.eventIdFactory legs postings addressed).run
      t.session = .ok (p, session) ∧ t.Applies legs := by
  intro legs
  induction legs with
  | nil =>
    intro postings addressed t session p
    constructor
    · rintro ⟨t', hrun, rfl⟩
      obtain ⟨rfl, rfl⟩ := run_pure_eq_ok.mp hrun
      exact ⟨rfl, TrackedSession.applies_nil⟩
    · rintro ⟨hrun, -⟩
      obtain ⟨rfl, rfl⟩ := run_pure_eq_ok.mp hrun
      exact ⟨t, rfl, rfl⟩
  | cons leg legs ih =>
    obtain ⟨event, version⟩ := leg
    intro postings addressed t session p
    -- what applies depends on the tracker alone, which the log does not change
    have hcons : ∀ session' : Session, t.Applies ((event, version) :: legs) ↔
        ∃ t', (t.setSession session').afterAppend event = .ok t' ∧ t'.Applies legs :=
      fun session' => @TrackedSession.applies_cons_iff (t.setSession session') event version legs
    rw [appendLegs, appendLegs]
    constructor
    · rintro ⟨t', hrun, hsession⟩
      obtain ⟨eventId, t₁, hissued, hrun₁⟩ := run_bind_eq_ok.mp hrun
      obtain ⟨session₁, hid, rfl⟩ := Call.onSession_eq_ok.mp hissued
      obtain ⟨envelope, t₂, hwrap, hrun₂⟩ := run_bind_eq_ok.mp hrun₁
      obtain ⟨henvelope, rfl⟩ := run_ofExcept_eq_ok.mp hwrap
      obtain ⟨u, t₃, happend, hrun₃⟩ := run_bind_eq_ok.mp hrun₂
      obtain ⟨session₃, hinsert, hafter⟩ := Call.appendEvent_eq_ok.mp happend
      obtain ⟨posting, t₄, hpost, hrun₄⟩ := run_bind_eq_ok.mp hrun₃
      obtain ⟨hposting, rfl⟩ := run_ofExcept_eq_ok.mp hpost
      obtain ⟨hlog, happlies⟩ := ih.mp ⟨t', hrun₄, hsession⟩
      rw [TrackedSession.session_afterAppend hafter] at hlog
      refine ⟨?_, (hcons session₃).mpr ⟨t₄, hafter, happlies⟩⟩
      have hinserted : (call.logStorage.appendEvent envelope event).run session₁ =
          .ok ((), session₃) := hinsert
      rw [run_bind_of hid, run_bind_of (run_ofExcept_of henvelope _), run_bind_of hinserted,
        run_bind_of (run_ofExcept_of hposting _)]
      exact hlog
    · rintro ⟨hrun, happlies⟩
      obtain ⟨eventId, session₁, hid, hrun₁⟩ := run_bind_eq_ok.mp hrun
      obtain ⟨envelope, session₂, hwrap, hrun₂⟩ := run_bind_eq_ok.mp hrun₁
      obtain ⟨henvelope, rfl⟩ := run_ofExcept_eq_ok.mp hwrap
      obtain ⟨u, session₃, hinsert, hrun₃⟩ := run_bind_eq_ok.mp hrun₂
      obtain ⟨posting, session₄, hpost, hrun₄⟩ := run_bind_eq_ok.mp hrun₃
      obtain ⟨hposting, rfl⟩ := run_ofExcept_eq_ok.mp hpost
      obtain ⟨t₃, hafter, happlies⟩ := (hcons session₄).mp happlies
      have hsession := TrackedSession.session_afterAppend hafter
      obtain ⟨t', hrest, hend⟩ := ih.mpr ⟨by rw [hsession]; exact hrun₄, happlies⟩
      refine ⟨t', ?_, hend⟩
      have happend : (call.storage.appendEvent envelope event).run (t.setSession session₂) =
          .ok ((), t₃) := Call.appendEvent_eq_ok.mpr ⟨session₄, hinsert, hafter⟩
      rw [run_bind_of (Call.onSession_of hid), run_bind_of (run_ofExcept_of henvelope _),
        run_bind_of happend, run_bind_of (run_ofExcept_of hposting _)]
      exact hrest

/-! ### A decision and what it appends -/

namespace Store

/-- The legs apply, one after the other, to the folds of their streams. -/
def Takes (s : Store) (legs : List (AccountEvent × Int)) : Prop :=
  ∀ leg ∈ legs, ∃ state state', s.foldStream leg.1.accountId = .ok state ∧
    Account.foldFrom state (legEvents legs leg.1.accountId) = .ok state'

variable {s : Store} {t : TrackedSession} {legs : List (AccountEvent × Int)}

/-- On streams that were folded, the legs apply to what was folded. -/
theorem takes_iff (ht : Reading s t) (hknows : ∀ leg ∈ legs, t.Knows leg.1.accountId) :
    s.Takes legs ↔ t.Applies legs := by
  constructor
  · intro h a state hstate
    by_cases hmem : ∃ leg ∈ legs, leg.1.accountId = a
    · obtain ⟨leg, hleg, rfl⟩ := hmem
      obtain ⟨state₁, state', hfold, happly⟩ := h leg hleg
      rw [ht.folded _ _ hstate] at hfold
      cases hfold
      exact ⟨state', happly⟩
    · have hnone : legEvents legs a = [] := by
        rw [legEvents, List.filter_eq_nil_iff.mpr fun leg hleg => by
          simpa using fun heq => hmem ⟨leg, hleg, heq⟩]
        rfl
      exact ⟨state, by rw [hnone, Account.foldFrom_nil]⟩
  · intro h leg hleg
    obtain ⟨state, hstate⟩ := Option.isSome_iff_exists.mp (hknows leg hleg)
    obtain ⟨state', happly⟩ := h _ _ hstate
    exact ⟨state, state', ht.folded _ _ hstate, happly⟩

/-- The events fold onto the states of their accounts. -/
def Absorbs (s : Store) (events : List AccountEvent) : Prop :=
  ∀ a, ∃ state, Account.foldFrom (s.account a) (events.filter (fun e => e.accountId = a)) = .ok state

theorem legEvents_number (s : Store) (events : List AccountEvent) (a : String) :
    legEvents (s.number events) a = events.filter (fun e => e.accountId = a) := by
  rw [legEvents, s.filter_number, Streams.map_fst_numberFrom]

theorem takes_number (hs : s.Readable) {events : List AccountEvent} :
    s.Takes (s.number events) ↔ s.Absorbs events := by
  constructor
  · intro h a
    cases hevents : events.filter (fun e => e.accountId = a) with
    | nil => exact ⟨_, Account.foldFrom_nil _⟩
    | cons e es =>
      have hfirst : e ∈ events.filter (fun e => e.accountId = a) := by
        rw [hevents]
        exact List.mem_cons_self
      obtain ⟨hmem, ha⟩ := List.mem_filter.mp hfirst
      obtain rfl := of_decide_eq_true ha
      obtain ⟨leg, hleg, rfl⟩ := List.mem_map.mp ((s.map_fst_number_perm events).mem_iff.mpr hmem)
      obtain ⟨state, state', hfold, happly⟩ := h leg hleg
      rw [foldStream_eq hs] at hfold
      cases hfold
      rw [legEvents_number, hevents] at happly
      exact ⟨state', happly⟩
  · intro h leg hleg
    obtain ⟨state', happly⟩ := h leg.1.accountId
    exact ⟨_, state', foldStream_eq hs _, by rw [legEvents_number, happly]⟩

end Store

end Cloudscale
