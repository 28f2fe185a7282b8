import Cloudscale.Ledger.Authorization
import Cloudscale.Ledger.Reverts
import Cloudscale.Ledger.Undoing

/-!
# Authorization of a revert

The route of a revert reads the legs of the set, authorizes the accounts that
received, and then has the command executed, which reads the set again.  What the
check has read is still there then.  What it has not read are the credits under the id
that commit in between (`credited_run`).  There are three ways to one: the set was
a hold, which is captured; the route has read it in the middle of the transaction
that writes it (`Store.amid`); or its result is pruned and its id used again.
Without the last two only a capture joins a set (`Credits.captures`).

`revert_debits_authorized_iff` says that this is the only way in which a revert
debits an account that its principal is not authorized on.
-/

namespace Cloudscale

open Checked Python Account

/-! ### Who is credited under an id -/

/-- The command credits the account under the id of a set: it captures the hold of that id, or
is a posting set or a revert under it. -/
inductive Credits (s : Store) (request : NormalizedCommand) (t : UUID) (a : String) : Prop
  | capture {c : PostHold} {hold : OpenHold} (command : request.command = .postHold c)
      (names : c.holdId = t) (found : s.openHold c.accountId c.holdId = .ok (some hold))
      (account : hold.counterparty = a) : Credits s request t a
  | postings {anchor : String} {legs : List Leg} {leg : Leg}
      (command : request.command.postings? = some (anchor, legs)) (names : request.commandId = t)
      (mem : leg ∈ legs) (direction : leg.direction = .credit) (account : leg.accountId = a) :
      Credits s request t a
  | reversal {c : Revert} {leg : MovementLeg} (command : request.command = .revert c)
      (names : request.commandId = t) (mem : leg ∈ legsOfRows (s.setOf c.transferId))
      (paid : ¬ 0 < leg.balanceSign) (account : leg.accountId = a) : Credits s request t a

section Credited

variable {s : Store} {request : NormalizedCommand} {now : Datetime} {events : List AccountEvent}
  {t : UUID} {a : String}

/-- A decided event that credits under the id is a credit of the command. -/
theorem Decided.credits (h : Decided s request now events) {e : AccountEvent} (he : e ∈ events)
    (hid : e.setId = some t) (hreceived : 0 < e.balanceSign) : Credits s request t e.accountId := by
  cases h with
  | deposit | withdraw =>
    rw [List.mem_singleton.mp he] at hid
    cases hid
  | hold | release =>
    rw [List.mem_singleton.mp he] at hreceived
    exact absurd hreceived (lt_irrefl 0)
  | postings command admits posted =>
    obtain ⟨leg, hleg, hposting⟩ := exists_of_mem_right posted e he
    cases isPosting_of_ok hposting with
    | debit => exact absurd hreceived (show ¬ (0 : Int) < -1 by decide)
    | credit direction account _ id =>
      exact .postings command (id ▸ Option.some.inj hid) hleg direction account.symm
  | @capture c hold _ command found can captured =>
    have hcredited : ∀ {posted : HoldPosted} {credited : TransferLeg},
        IsCapture c hold posted credited → e = .transferCredited credited →
        Credits s request t e.accountId := by
      rintro posted credited capture rfl
      exact .capture command (capture.transferId ▸ Option.some.inj hid) found
        capture.creditedAccount.symm
    cases captured with
    | whole capture =>
      rcases List.mem_pair.mp he with rfl | rfl
      · exact absurd hreceived (show ¬ (0 : Int) < -1 by decide)
      · exact hcredited capture rfl
    | part capture =>
      simp only [List.mem_cons, List.not_mem_nil, or_false] at he
      rcases he with rfl | rfl | rfl
      · exact absurd hreceived (show ¬ (0 : Int) < -1 by decide)
      · exact hcredited capture rfl
      · exact absurd hreceived (lt_irrefl 0)
  | reversal command revertible once mirrored =>
    obtain ⟨leg, hleg, hmirror, -⟩ := exists_of_mem_right mirrored e he
    cases hmirror with
    | debit => exact absurd hreceived (show ¬ (0 : Int) < -1 by decide)
    | credit paid account _ id =>
      exact .reversal command (id ▸ Option.some.inj hid) hleg paid account.symm

/-- A command that credits the account has an event that does. -/
theorem Decided.exists_credit (h : Decided s request now events) (hcredits : Credits s request t a) :
    ∃ e ∈ events, e.setId = some t ∧ e.accountId = a ∧ 0 < e.balanceSign := by
  have hone : (0 : Int) < 1 := by decide
  cases hcredits with
  | @capture c hold command names found account =>
    cases h with
    | capture command' found' can captured =>
      rw [command] at command'
      cases command'
      rw [found] at found'
      cases found'
      cases captured with
      | whole capture | part capture =>
        exact ⟨.transferCredited _, by simp, congrArg some (capture.transferId.trans names),
          capture.creditedAccount.trans account, hone⟩
    | postings command' | release command' =>
      rw [command] at command'
      cases command'
    | deposit command' | withdraw command' | hold command' | reversal command' =>
      rw [command] at command'
      cases command'
  | postings command names mem direction account =>
    cases h with
    | postings command' admits posted =>
      rw [command] at command'
      cases command'
      obtain ⟨e, he, hposting⟩ := exists_of_mem_right posted.flip _ mem
      have hposting := isPosting_of_ok hposting
      refine ⟨e, he, hposting.isLeg.2.trans (congrArg some names),
        hposting.accountId.trans account, ?_⟩
      cases hposting with
      | debit debit => rw [direction] at debit; cases debit
      | credit => exact hone
    | release command' =>
      rw [AccountCommand.release_of_postings command] at command'
      cases command'
    | deposit command' | withdraw command' | hold command' | capture command'
    | reversal command' =>
      rw [command'] at command
      cases command
  | reversal command names mem paid account =>
    cases h with
    | reversal command' revertible once mirrored =>
      rw [command] at command'
      cases command'
      obtain ⟨e, he, hmirror, -⟩ := exists_of_mem_right mirrored.flip _ mem
      refine ⟨e, he, hmirror.isLeg.2.1.trans (congrArg some names),
        hmirror.accountId.trans account, ?_⟩
      cases hmirror with
      | debit received => exact absurd received paid
      | credit => exact hone
    | postings command' | release command' =>
      rw [command] at command'
      cases command'
    | deposit command' | withdraw command' | hold command' | capture command' =>
      rw [command] at command'
      cases command'

/-- Without retention, what joins a set that is there is a capture. -/
theorem Credits.captures {call : Call} (h : Credits s call.request t a) (hs : s.Ledger)
    (haccepts : Accepts s call) (hset : s.setOf t ≠ []) :
    ∃ c hold, call.request.command = .postHold c ∧ c.holdId = t ∧
      s.openHold c.accountId t = .ok (some hold) ∧ hold.counterparty = a := by
  have hrecorded : call.request.commandId ≠ t := by
    rintro rfl
    obtain ⟨r, hr⟩ := List.exists_mem_of_ne_nil _ hset
    obtain ⟨row, hrow, heq⟩ :=
      hs.recorded r ((s.setOf_sublist _).subset hr) _ (Store.setId_of_mem hr)
    exact haccepts.1 row hrow heq
  cases h with
  | capture command names found account => exact ⟨_, _, command, names, names ▸ found, account⟩
  | postings _ names => exact absurd names hrecorded
  | reversal _ names => exact absurd names hrecorded

/-- **What joins a set** in a run comes from a command that credits under its id. -/
theorem credited_run (hs : s.Readable) (mid : List LedgerInput) {r : EventRow}
    (hr : r ∈ (Runs.run step s mid).setOf t) (hreceived : 0 < r.event.balanceSign) :
    r ∈ s.setOf t ∨ ∃ earlier call later, mid = earlier ++ .call call :: later ∧
      Accepts (Runs.run step s earlier) call ∧
      Credits (Runs.run step s earlier) call.request t r.event.accountId := by
  obtain ⟨hmem, hid⟩ := List.mem_filter.mp hr
  rcases Runs.mem_entries_run (P := Store.Readable) (G := fun _ _ => True)
    (fun _ input h _ => h.step input) (fun _ _ h => step_events h) mid hs
    (Runs.along_of_forall (fun _ _ => trivial) mid s) hmem with
    hold | ⟨earlier, input, later, hmid, hadded⟩
  · exact Or.inl (List.mem_filter.mpr ⟨hold, hid⟩)
  · right
    have hearlier : (Runs.run step s earlier).Readable :=
      Runs.run_invariant step (fun _ input h => h.step input) earlier hs
    cases input with
    | batch => cases hadded
    | call call =>
      obtain ⟨events, -, -, hdecided, hevent, -⟩ := decided_of_mem_appended hearlier hadded
      exact ⟨earlier, call, later, hmid, accepts_of_mem_appended hearlier hadded,
        hdecided.credits hevent (of_decide_eq_true hid) hreceived⟩

/-- A command that credits under the id has its credit in the set from then on. -/
theorem mem_setOf_of_credits (hs : s.Readable) {call : Call} (haccepts : Accepts s call)
    (hcredits : Credits s call.request t a) (later : List LedgerInput) :
    ∃ r ∈ (Runs.run step (next s call) later).setOf t,
      r.event.accountId = a ∧ 0 < r.event.balanceSign := by
  obtain ⟨events, row, -, hdecided, -, hnext⟩ := haccepts.decided hs
  obtain ⟨e, he, hid, haccount, hreceived⟩ := hdecided.exists_credit hcredits
  obtain ⟨r, hr, rfl⟩ := List.mem_map.mp ((perm_legRows call.request (call.clock 0) call.eventIds s
    events).mem_iff.mpr he)
  have hmem : r ∈ (next s call).events := by
    rw [hnext]
    exact List.mem_append_right _ hr
  have hlater := Runs.mem_run_of_mem_added (P := Store.Readable) (G := fun _ _ => True)
    (fun _ input h _ => h.step input) (fun _ _ h => step_events h) later (hs.next call)
    (Runs.along_of_forall (fun _ _ => trivial) later _) hmem
  exact ⟨r, List.mem_filter.mpr ⟨hlater, decide_eq_true hid⟩, haccount, hreceived⟩

end Credited

/-! ### What a revert debits -/

/-- What the log has more than before takes from the account. -/
def Debits (s s' : Store) (a : String) : Prop :=
  ∃ r ∈ s'.events.drop s.events.length, r.event.accountId = a ∧ r.event.balanceDelta < 0

section Debited

variable {s : Store} {t : UUID} {a : String}

/-- The rows of a set that received are its legs that did. -/
theorem exists_received_iff :
    (∃ leg ∈ legsOfRows (s.setOf t), leg.accountId = a ∧ 0 < leg.balanceSign) ↔
      ∃ r ∈ s.setOf t, r.event.accountId = a ∧ 0 < r.event.balanceSign := by
  constructor
  · rintro ⟨leg, hleg, haccount, hreceived⟩
    obtain ⟨e, he, hsome⟩ := List.mem_filterMap.mp hleg
    obtain ⟨r, hr, rfl⟩ := List.mem_map.mp he
    rw [MovementLeg.accountId, toEvent_of_movementLeg hsome] at haccount
    rw [MovementLeg.balanceSign, toEvent_of_movementLeg hsome] at hreceived
    exact ⟨r, hr, haccount, hreceived⟩
  · rintro ⟨r, hr, haccount, hreceived⟩
    cases hleg : movementLeg? r.event with
    | none =>
      have hzero := balanceDelta_of_movementLeg_none (Store.setId_of_mem hr) hleg
      exact absurd hzero (mul_pos hreceived r.event.amount_ok.pos).ne'
    | some leg =>
      refine ⟨leg, List.mem_filterMap.mpr ⟨r.event, List.mem_map_of_mem hr, hleg⟩, ?_, ?_⟩
      · rw [MovementLeg.accountId, toEvent_of_movementLeg hleg, haccount]
      · rw [MovementLeg.balanceSign, toEvent_of_movementLeg hleg]
        exact hreceived

theorem Account.IsMirror.debits_iff {leg : MovementLeg} {id reverts : UUID} {e : AccountEvent}
    (h : IsMirror leg id reverts e) : e.balanceDelta < 0 ↔ 0 < leg.balanceSign := by
  have hpos := leg.amount_pos
  rw [h.balanceDelta]
  by_cases hreceived : 0 < leg.balanceSign
  · rw [leg.balanceDelta_of_received hreceived]
    exact iff_of_true (by omega) hreceived
  · rw [leg.balanceDelta_of_paid hreceived]
    exact iff_of_false (by omega) hreceived

/-- **A revert debits the accounts that received.** -/
theorem RevertsSet.debits_iff {call : Call} (hs : s.Readable) (h : RevertsSet s call t) :
    Debits s (next s call) a ↔
      ∃ r ∈ s.setOf t, r.event.accountId = a ∧ 0 < r.event.balanceSign := by
  obtain ⟨events, row, hnext, -, -, -, hmirrored⟩ := h.rows hs
  rw [← exists_received_iff]
  constructor
  · rintro ⟨r, hr, rfl, hdebits⟩
    rw [hnext, List.drop_left] at hr
    obtain ⟨leg, hleg, hmirror, -⟩ := exists_of_mem_right hmirrored r.event
      ((perm_legRows _ _ _ s events).mem_iff.mp (List.mem_map_of_mem (f := EventRow.event) hr))
    exact ⟨leg, hleg, hmirror.accountId.symm, hmirror.debits_iff.mp hdebits⟩
  · rintro ⟨leg, hleg, rfl, hreceived⟩
    obtain ⟨e, he, hmirror, -⟩ := exists_of_mem_right hmirrored.flip leg hleg
    obtain ⟨r, hr, rfl⟩ := List.mem_map.mp ((perm_legRows call.request (call.clock 0) call.eventIds
      s events).mem_iff.mpr he)
    refine ⟨r, ?_, hmirror.accountId, hmirror.debits_iff.mpr hreceived⟩
    rw [hnext, List.drop_left]
    exact hr

end Debited

/-! ### Accepting a revert -/

structure RevertGuards (s : Store) (call : Call) (c : Revert) : Prop where
  fresh : ∀ row ∈ s.results, row.commandId ≠ call.request.commandId
  version : c.expectedVersion = (s.account c.accountId).version
  revertible : Revertible (legsOfRows (s.setOf c.transferId)) c none
  once : s.revertedBy c.transferId = .ok none
  other : c.transferId ≠ call.request.commandId
  can : ∀ leg ∈ legsOfRows (s.setOf c.transferId), CanMirror (s.account leg.accountId) leg
  undoes : s.Undoes c.transferId
  newIds : s.NewIds call.eventIds (legsOfRows (s.setOf c.transferId)).length

/-- **A revert is accepted just when it is replayed or every guard holds.** -/
theorem answered_revert_iff {s : Store} {call : Call} (hs : s.Readable) {c : Revert}
    (hcommand : call.request.command = .revert c) :
    Answered s call ↔ Replays s call ∨ RevertGuards s call c := by
  constructor
  · rintro ⟨r, hresult, houtcome⟩
    have hexecuted := executed_of_ok hs hresult
    generalize next s call = s' at hexecuted
    cases hexecuted with
    | replayed found same => exact Or.inl ⟨r, found, same, houtcome⟩
    | conflicted _ _ outcome =>
      rw [outcome] at houtcome
      cases houtcome
    | rejected _ outcome => exact absurd houtcome outcome.1
    | accepted fresh version decided versions fits absorbed =>
      right
      rw [hcommand] at version
      have hnew := (fits_legRows hs _).mp fits
      cases decided with
      | reversal command revertible once mirrored =>
        rw [hcommand] at command
        cases command
        have hmirrors : ∀ leg ∈ legsOfRows (s.setOf c.transferId),
            CanMirror (s.account leg.accountId) leg ∧
              c.transferId ≠ call.request.commandId := by
          intro leg hleg
          obtain ⟨e, -, he⟩ := exists_of_mem_right mirrored.flip leg hleg
          exact exists_mirrorLeg_iff.mp ⟨e, mirrorLeg_eq_ok.mpr he⟩
        obtain ⟨leg, hleg⟩ := List.exists_mem_of_ne_nil _ revertible.ne_nil
        refine ⟨fresh, version, revertible, once, (hmirrors leg hleg).2,
          fun leg hleg => (hmirrors leg hleg).1,
          (absorbs_mirrored_iff hs (mirrored.imp fun _ _ h => h.1)).mp absorbed, ?_⟩
        rwa [show (legsOfRows (s.setOf c.transferId)).length = _ from mirrored.length_eq]
      | deposit command | withdraw command | hold command | capture command | postings command
      | release command =>
        rw [hcommand] at command
        cases command
  · rintro (⟨r, hstored, hsame, houtcome⟩ | hguards)
    · exact ⟨r, by rw [execute_replay hstored hsame], houtcome⟩
    · obtain ⟨events, hevents⟩ := exists_mapM_of_forall fun leg hleg =>
        exists_mirrorLeg_iff.mpr ⟨hguards.can leg hleg, hguards.other⟩
      have hmirrored : List.Forall₂ (fun leg e => IsMirror leg call.request.commandId c.transferId e ∧
          Admits (s.account leg.accountId) e) (legsOfRows (s.setOf c.transferId)) events :=
        (mapM_eq_ok.mp hevents).imp fun leg e he => mirrorLeg_eq_ok.mp he
      have hmirrors := hmirrored.imp fun _ _ h => h.1
      refine accepts_of_decided hs hguards.fresh (by rw [hcommand]; exact hguards.version)
        (.reversal hcommand hguards.revertible hguards.once hmirrored)
        (hasRoom_mirrored hmirrors hguards.undoes)
        ((absorbs_mirrored_iff hs hmirrors).mpr hguards.undoes) ?_
      rw [← hmirrored.length_eq]
      exact hguards.newIds

/-! ### The check of the route -/

section Check

variable {registry : Option OwnerOf} {principal : Principal} {accountId : String} {t : UUID}
  {request : RevertRequest}

theorem authorizeDebited_eq_ok {legs : List AccountEvent} {u : Unit} :
    authorizeDebited registry principal legs = .ok u ↔
      ∀ leg ∈ legs, 0 < leg.balanceSign → mayRead registry principal leg.accountId := by
  induction legs with
  | nil => exact ⟨fun _ _ h => (nomatch h), fun _ => rfl⟩
  | cons leg legs ih =>
    rw [List.forall_mem_cons, authorizeDebited]
    split
    next hsign =>
      rw [bind_eq_ok]
      simp only [authorizeAccount_eq_ok, ih, hsign, true_imp_iff]
      exact ⟨fun ⟨_, h⟩ => h, fun h => ⟨(), h⟩⟩
    next hsign => simp only [ih, hsign, false_imp_iff, true_and]

structure LegsPass (registry : Option OwnerOf) (principal : Principal) (legs : List AccountEvent) :
    Prop where
  party : adminScope ∈ principal.scopes ∨ ∃ leg ∈ legs, mayRead registry principal leg.accountId
  received : ∀ leg ∈ legs, 0 < leg.balanceSign → mayRead registry principal leg.accountId

/-- **What the check of a revert passes**, on the legs that it reads. -/
theorem revertCommand_eq_ok {s : Store} {command : AccountCommand} :
    revertCommand registry principal accountId t request s = .ok command ↔
      mayRead registry principal accountId ∧
        (∃ legs, s.legsOf t = .ok legs ∧ LegsPass registry principal legs) ∧
        ∃ c, Revert.new accountId t request.expectedVersion = .ok c ∧ .revert c = command := by
  rw [revertCommand]
  cases s.legsOf t with
  | error e =>
    refine ⟨fun h => ?_, fun ⟨_, ⟨_, h, _⟩, _⟩ => nomatch h⟩
    obtain ⟨_, _, h⟩ := bind_eq_ok.mp h
    cases h
  | ok legs =>
    rw [show (Except.ok legs : Except PyError _).mapError RouteError.raised = .ok legs from rfl,
      ok_bind, bind_eq_ok]
    constructor
    · rintro ⟨_, hanchor, h⟩
      obtain ⟨hparty, h⟩ := require_bind_eq_ok.mp h
      obtain ⟨_, hreceived, h⟩ := bind_eq_ok.mp h
      obtain ⟨c, hc, rfl⟩ := map_eq_ok.mp h
      exact ⟨authorizeAccount_eq_ok.mp hanchor,
        ⟨legs, rfl, hparty, authorizeDebited_eq_ok.mp hreceived⟩, c, asBadRequest_eq_ok.mp hc, rfl⟩
    · rintro ⟨hanchor, ⟨_, heq, hpass⟩, c, hc, rfl⟩
      cases heq
      exact ⟨(), authorizeAccount_eq_ok.mpr hanchor, require_bind_eq_ok.mpr ⟨hpass.party,
        bind_eq_ok.mpr ⟨(), authorizeDebited_eq_ok.mpr hpass.received,
          map_eq_ok.mpr ⟨c, asBadRequest_eq_ok.mpr hc, rfl⟩⟩⟩⟩

/-- A read outside the lock has at least the committed legs. -/
theorem mem_of_legsOf_amid {s : Store} (hs : s.Readable) {pending : List EventRow}
    {legs : List AccountEvent} (h : (s.amid pending).legsOf t = .ok legs) :
    ∀ r ∈ s.setOf t, r.event ∈ legs := by
  intro r hr
  obtain ⟨hmem, hid⟩ := List.mem_filter.mp hr
  have hread : r ∈ (s.amid pending).events.filter (fun r => r.fields.transferId = some t.str) := by
    refine List.mem_filter.mpr ⟨List.mem_append_left _ hmem, ?_⟩
    simpa only [r.transferId_eq_iff] using hid
  obtain ⟨e, he, hdecoded⟩ := exists_of_mem_right (mapM_eq_ok.mp h).flip r hread
  have hself : decodeRow r.dict = .ok r.event := by
    rw [EventRow.dict, hs.current r hmem]
    exact decodeRow_rowDict r.event
  rw [hself] at hdecoded
  exact Except.ok.inj hdecoded ▸ he

end Check

/-! ### Between the check and the command -/

/-- **What a revert request needs to be accepted**: the check of the route passes on
the set as it is read, and every guard holds on the store it is executed on. -/
structure RevertAcceptable (registry : Option OwnerOf) (principal : Principal) (accountId : String)
    (t : UUID) (request : RevertRequest) (attempt : Attempt) (readFrom executeOn : Store) :
    Prop where
  anchor : mayRead registry principal accountId
  legs : ∃ legs, readFrom.legsOf t = .ok legs ∧ LegsPass registry principal legs
  command : ∃ c normalized, Revert.new accountId t request.expectedVersion = .ok c ∧
    normalizeCommand (.revert c) request.commandId attempt.correlationId principal.issuer
      principal.subject = .ok normalized ∧
    RevertGuards executeOn (attempt.call normalized) c

/-- A command that commits in between credits, under the id of the set, an account that the
principal may not act on. -/
def CreditsStranger (registry : Option OwnerOf) (principal : Principal) (t : UUID)
    (before mid : List LedgerInput) : Prop :=
  ∃ earlier call later, mid = earlier ++ .call call :: later ∧
    Accepts (storeThrough (before ++ earlier)) call ∧
    ∃ a, Credits (storeThrough (before ++ earlier)) call.request t a ∧
      ¬ mayRead registry principal a

/-- **When an accepted revert debits only authorized accounts**, whatever was pending
when its legs were read and whatever commits before it is executed: unless it is
acceptable and a command in between credits, under the id of its set, an account that
the principal may not act on. -/
theorem revert_debits_authorized_iff (before mid : List LedgerInput) (pending : List EventRow)
    (registry : Option OwnerOf) (principal : Principal) (accountId : String) (t : UUID)
    (request : RevertRequest) (attempt : Attempt) :
    (Accepted (postRevert registry principal accountId t request attempt
        ((storeThrough before).amid pending) (storeThrough (before ++ mid))) →
      ∀ a, Debits (storeThrough (before ++ mid)) (postRevert registry principal accountId t request
          attempt ((storeThrough before).amid pending) (storeThrough (before ++ mid))).2 a →
        mayRead registry principal a) ↔
    ¬ (RevertAcceptable registry principal accountId t request attempt
        ((storeThrough before).amid pending) (storeThrough (before ++ mid)) ∧
      CreditsStranger registry principal t before mid) := by
  have hlater := readable_storeThrough (before ++ mid)
  constructor
  · rintro hproperty ⟨⟨hanchor, hlegs, c, normalized, hc, hnormalized, hguards⟩,
      earlier, call, later, rfl, haccepts, a, hcredits, hstranger⟩
    have hcommand : (attempt.call normalized).request.command = .revert c :=
      (normalizeCommand_eq_ok.mp hnormalized).1
    have hcheck := revertCommand_eq_ok.mpr ⟨hanchor, hlegs, c, hc, rfl⟩
    have hanswered := (answered_revert_iff hlater hcommand).mpr (Or.inr hguards)
    refine hstranger (hproperty
      (accepted_answer_iff.mpr ⟨_, _, hcheck, hnormalized, hanswered⟩) a ?_)
    rw [postRevert, answer_store hcheck hnormalized,
      RevertsSet.debits_iff hlater ⟨⟨hguards.fresh, hanswered⟩, c, hcommand,
        (Revert.new_fields hc).2.1⟩]
    have hmem := mem_setOf_of_credits (readable_storeThrough _) haccepts hcredits later
    rw [← List.append_assoc, storeThrough_append]
    exact hmem
  · intro hcondition haccepted a hdebited
    obtain ⟨command, normalized, hcheck, hnormalized, hanswered⟩ := accepted_answer_iff.mp haccepted
    rw [postRevert, answer_store hcheck hnormalized] at hdebited
    obtain ⟨hanchor, ⟨legs, hread, hpass⟩, c, hc, rfl⟩ := revertCommand_eq_ok.mp hcheck
    have hcommand : (attempt.call normalized).request.command = .revert c :=
      (normalizeCommand_eq_ok.mp hnormalized).1
    rcases (answered_revert_iff hlater hcommand).mp hanswered with
      ⟨r, hstored, hsame, -⟩ | hguards
    · -- A replay writes nothing.
      obtain ⟨r, hr, -⟩ := hdebited
      rw [next, execute_replay hstored hsame, List.drop_length] at hr
      cases hr
    · rw [RevertsSet.debits_iff hlater ⟨⟨hguards.fresh, hanswered⟩, c, hcommand,
        (Revert.new_fields hc).2.1⟩] at hdebited
      obtain ⟨r, hr, rfl, hreceived⟩ := hdebited
      rw [storeThrough_append] at hr
      rcases credited_run (readable_storeThrough before) mid hr hreceived with
        hold | ⟨earlier, call, later, hmid, haccepts, hcredits⟩
      · exact hpass.received _ (mem_of_legsOf_amid (readable_storeThrough before) hread r hold)
          hreceived
      · by_contra hstranger
        rw [← storeThrough_append] at haccepts hcredits
        exact hcondition ⟨⟨hanchor, ⟨legs, hread, hpass⟩, c, normalized, hc, hnormalized, hguards⟩,
          earlier, call, later, hmid, haccepts, _, hcredits, hstranger⟩

/-- **A clawback**: the payer of a hold asks for a revert while the hold is open and
has it executed after the payee's capture.  The payee is debited, on whose account
the payer may not act. -/
theorem revert_debits_payee_of_capture :
    let deposit := Call.of (.deposit ⟨"alice", 100, 0, by decide, by decide, by decide⟩) ⟨1⟩
      .epoch 10
    let hold := Call.of (.hold ⟨"alice", "bob", 50, 1, 60, by decide, by decide, by decide,
      by decide, by decide, by decide⟩) ⟨2⟩ .epoch 20
    let capture := Call.of (.postHold ⟨"alice", ⟨2⟩, 2, none, by decide, by decide, by decide⟩) ⟨3⟩
      .epoch 30
    let principal : Principal := ⟨"issuer", "alice", ["alice"], []⟩
    let attempt : Attempt := ⟨⟨4⟩, fun _ => .epoch, fun k => ⟨Fin.ofNat _ (40 + k)⟩⟩
    let readFrom := storeAfter [deposit, hold]
    let executeOn := storeAfter [deposit, hold, capture]
    let result := postRevert none principal "alice" ⟨2⟩ ⟨⟨4⟩, 3⟩ attempt readFrom executeOn
    Accepted result ∧ adminScope ∉ principal.scopes ∧ ¬ mayRead none principal "bob" ∧
      (executeOn.account "bob").balance = 50 ∧ (result.2.account "bob").balance = 0 := by
  refine ⟨by decide +kernel, by decide, by decide, by decide +kernel, by decide +kernel⟩

end Cloudscale
