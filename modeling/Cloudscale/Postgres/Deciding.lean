import Cloudscale.Adapters.Postgres.CommandUnitOfWork
import Cloudscale.Ledger.Deciding
import Cloudscale.Postgres.Numbering

/-!
# What a decision reads

On PostgreSQL every read of a decision sees a state of its own.  `Chose` lists the
ways in which a decision comes to its legs, or raises: one constructor for each kind of
command, with the statements it ran, what they answered and what was computed from the
answers.  `wp_decideLegs` says that there are no others, whatever other transactions
commit in between.
-/

namespace Cloudscale.Postgres

open Checked Python ReadCommitted LogRow Account

variable {Row : Type} [LogRow Row]

/-- A statement that was run: what its transaction had written, and what it saw. -/
abbrev Step (Row : Type) : Type := Entry (Database Row) (Written Row) (Statement Row)

/-- What a program guarantees, whatever other transactions commit. -/
abbrev Guarantees {α : Type}
    (Q : Except PyError α → Database Row → Written Row → List (Step Row) → Prop) :
    Program Row α → Database Row → Written Row → List (Step Row) → Prop :=
  WP engine rely Owes Q

/-! ### Statements that only read -/

theorem Owes.of_keys_nil {op : Statement Row} (h : op.keys = []) (db : Database Row)
    (own : Written Row) : Owes op db own := by
  refine ⟨fun hne => absurd h hne, ?_, ?_, ?_⟩
  · rintro id row rfl
    cases h
  · rintro name rfl
    cases h
  · rintro rfl
    cases h

/-- **One statement**: what is owed, and how it goes on. -/
theorem wp_statement {op : Statement Row}
    {Q : Except PyError op.Res → Database Row → Written Row → List (Step Row) → Prop}
    {s : Database Row} {own : Written Row} {past : List (Step Row)}
    (h : ∀ t, Grows s t → rely.Holds t own past → Owes op t own ∧
      (∀ a own', exec op t own = .ok (a, own') → ∀ u, Grows t u →
        rely.Holds u own' (past ++ [⟨op, own, t⟩]) → Q (.ok a) u own' (past ++ [⟨op, own, t⟩])) ∧
      ∀ e, exec op t own = .error e → ∀ u, Q (.error e) u own (past ++ [⟨op, own, t⟩])) :
    Guarantees Q (perform op) s own past := by
  refine wp_perform fun t ht hholds => ?_
  obtain ⟨howes, hok, herror⟩ := h t ht hholds
  refine ⟨howes, fun u hu hholds' => ?_⟩
  have hgrows : Grows t u := (draw_keeps op hholds.inv).2.1.trans hu
  change rely.Holds u (ownAfter own (exec op t own)) _ at hholds'
  show Q ((exec op t own).map Prod.fst) u (ownAfter own (exec op t own)) _
  cases hexec : exec op t own with
  | ok p =>
    rw [hexec] at hholds'
    exact hok p.1 p.2 hexec u hgrows hholds'
  | error e => exact herror e hexec u

/-- **A read** answers from the state that it sees, and leaves what is written. -/
theorem wp_read {op : Statement Row} {x : Database Row → Written Row → Except PyError op.Res}
    (hexec : ∀ db own, exec op db own = (x db own).map (·, own)) (hkeys : op.keys = [])
    {Q : Except PyError op.Res → Database Row → Written Row → List (Step Row) → Prop}
    {s : Database Row} {own : Written Row} {past : List (Step Row)}
    (h : ∀ t u, Q (x t own) u own (past ++ [⟨op, own, t⟩])) :
    Guarantees Q (perform op) s own past := by
  refine wp_statement fun t _ _ => ?_
  have hend := h t
  have hresult := hexec t own
  cases hx : x t own with
  | ok b =>
    rw [hx] at hend hresult
    refine ⟨Owes.of_keys_nil hkeys t own, fun a own' hok u _ _ => ?_,
      fun e herror => nomatch herror.symm.trans hresult⟩
    cases hok.symm.trans hresult
    exact hend u
  | error e' =>
    rw [hx] at hend hresult
    refine ⟨Owes.of_keys_nil hkeys t own, (fun a own' hok => nomatch hok.symm.trans hresult),
      fun e herror u => ?_⟩
    cases herror.symm.trans hresult
    exact hend u

def Statement.IsRead : Statement Row → Prop
  | .foldStream _ | .openHold _ _ | .legsOf _ | .revertedBy _ => True
  | _ => False

/-- The statements only read, for a transaction that has written this. -/
def OnlyReads (own : Written Row) (more : List (Step Row)) : Prop :=
  ∀ step ∈ more, step.own = own ∧ step.op.IsRead

/-! ### Folds -/

/-- The folds of the streams that are not known yet, and what came of them. -/
inductive FoldedOthers (own : Written Row) :
    States → List String → List (Step Row) → Except PyError States → Prop
  | done (states : States) : FoldedOthers own states [] [] (.ok states)
  | known {states : States} {a : String} {as : List String} {more : List (Step Row)}
      {r : Except PyError States} (known : (states.lookup a).isSome)
      (rest : FoldedOthers own states as more r) : FoldedOthers own states (a :: as) more r
  | folded {states : States} {a : String} {as : List String} {more : List (Step Row)}
      {r : Except PyError States} {state : AccountState} (t : Database Row)
      (unknown : ¬ (states.lookup a).isSome) (fold : foldStream (t.seen own) a = .ok state)
      (rest : FoldedOthers own (states ++ [(a, state)]) as more r) :
      FoldedOthers own states (a :: as) (⟨.foldStream a, own, t⟩ :: more) r
  | failed {states : States} {a : String} {as : List String} {e : PyError} (t : Database Row)
      (fold : foldStream (t.seen own) a = .error e) :
      FoldedOthers own states (a :: as) [⟨.foldStream a, own, t⟩] (.error e)

/-- What is done adds these statements, and writes nothing. -/
def Reads {α : Type} (P : List (Step Row) → Except PyError α → Prop) (own : Written Row)
    (past : List (Step Row)) (r : Except PyError α) (own' : Written Row)
    (past' : List (Step Row)) : Prop :=
  own' = own ∧ ∃ more, past' = past ++ more ∧ P more r

theorem FoldedOthers.onlyReads {own : Written Row} {states : States} {as : List String}
    {more : List (Step Row)} {r : Except PyError States} (h : FoldedOthers own states as more r) :
    OnlyReads own more := by
  induction h with
  | done => exact fun _ h => nomatch h
  | known _ _ ih => exact ih
  | folded t _ _ _ ih => exact List.forall_mem_cons.mpr ⟨⟨rfl, trivial⟩, ih⟩
  | failed => exact List.forall_mem_singleton.mpr ⟨rfl, trivial⟩

section Folds

variable {attempt : Attempt}

theorem wp_foldOthers {own : Written Row} : ∀ (accountIds : List String) (states : States)
    {s : Database Row} {past : List (Step Row)},
    Guarantees (fun r _ own' past' =>
        Reads (FoldedOthers own states accountIds) own past r own' past')
      (foldOthers (boundStorage attempt).toCommandReads states accountIds) s own past := by
  intro accountIds
  induction accountIds with
  | nil => exact fun states s past => wp_pure fun t _ _ => ⟨rfl, [], by simp, .done states⟩
  | cons a as ih =>
    intro states s past
    rw [foldOthers]
    split
    next hknown =>
      refine (ih states).mono fun r t own' past' hreads => ?_
      obtain ⟨rfl, more, rfl, hfolded⟩ := hreads
      exact ⟨rfl, more, rfl, .known hknown hfolded⟩
    next hunknown =>
      refine wp_bind (wp_read (fun _ _ => rfl) rfl fun t u => ?_)
      cases hfold : foldStream (t.seen own) a with
      | error e => exact ⟨rfl, _, rfl, .failed t hfold⟩
      | ok state =>
        refine (ih _).mono fun r t' own' past' hreads => ?_
        obtain ⟨rfl, more, rfl, hfolded⟩ := hreads
        exact ⟨rfl, _, List.append_assoc _ _ _, .folded t hunknown hfold hfolded⟩

end Folds

/-! ### Decisions -/

def targetOf (c : PostHold) : Option OpenHold → String
  | some hold => hold.counterparty
  | none => c.accountId

/-- **The ways to the legs of a command**, with the statements that were run. -/
inductive Chose (own : Written Row) (request : NormalizedCommand) (state : AccountState)
    (now : Datetime) : List (Step Row) → Except PyError (List (AccountEvent × Int)) → Prop
  | failed {more : List (Step Row)} {e : PyError} (only : OnlyReads own more) (step : Step Row)
      (mem : step ∈ more) (error : exec step.op step.seen step.own = .error e) :
      Chose own request state now more (.error e)
  | deposit {c : Deposit} (command : request.command = .deposit c) :
      Chose own request state now [] (do
        let event ← Account.decide state (.deposit c)
        pure [(event, state.version + 1)])
  | withdraw {c : Withdraw} (command : request.command = .withdraw c) :
      Chose own request state now [] (do
        let event ← Account.decide state (.withdraw c)
        pure [(event, state.version + 1)])
  | hold {c : Hold} (command : request.command = .hold c) :
      Chose own request state now [] (do
        let placed ← decideHold state c request.commandId now
        pure [(.holdPlaced placed, state.version + 1)])
  | postings {anchor : String} {legs : List Leg} {more : List (Step Row)} {states : States}
      (command : request.command.postings? = some (anchor, legs))
      (folded : FoldedOthers own [(anchor, state)] (legs.map Leg.accountId) more (.ok states)) :
      Chose own request state now more (do
        let events ← decidePostings states anchor legs request.commandId
        numberLegs states events)
  | capture {c : PostHold} {hold : Option OpenHold} {more : List (Step Row)} {states : States}
      (t : Database Row) (command : request.command = .postHold c)
      (opened : openHold (t.seen own) c.accountId c.holdId = .ok hold)
      (folded : FoldedOthers own [(c.accountId, state)]
        (if hold.isSome then [targetOf c hold] else []) more (.ok states)) :
      Chose own request state now (⟨.openHold c.accountId c.holdId, own, t⟩ :: more) (do
        let target ← getItem states (targetOf c hold)
        let events ← decidePostHold state target hold c now
        numberLegs states events)
  | release {kind : ReleaseKind} {c : ReleaseCommand} {hold : Option OpenHold} (t : Database Row)
      (command : request.command.release? = some (kind, c))
      (opened : openHold (t.seen own) c.accountId c.holdId = .ok hold) :
      Chose own request state now [⟨.openHold c.accountId c.holdId, own, t⟩] (do
        let released ← decideReleaseHold kind state hold c now
        pure [(.holdReleased released, state.version + 1)])
  | reversal {c : Revert} {original : List AccountEvent} {more : List (Step Row)}
      {states : States} {reverter : Option UUID} (t t' : Database Row)
      (command : request.command = .revert c)
      (legs : legsOf (t.seen own) c.transferId = .ok original)
      (folded : FoldedOthers own [(c.accountId, state)] (original.map AccountEvent.accountId) more
        (.ok states))
      (reverted : revertedBy (t'.seen own) c.transferId = .ok reverter) :
      Chose own request state now (⟨.legsOf c.transferId, own, t⟩ :: more ++
          [⟨.revertedBy c.transferId, own, t'⟩]) (do
        let events ← decideRevert states original c request.commandId reverter
        numberLegs states events)

theorem FoldedOthers.failing {own : Written Row} {states : States} {as : List String}
    {more : List (Step Row)} {r : Except PyError States} (h : FoldedOthers own states as more r)
    {e : PyError} (hr : r = .error e) :
    ∃ step ∈ more, exec step.op step.seen step.own = .error e := by
  induction h with
  | done => cases hr
  | known _ _ ih => exact ih hr
  | folded t _ _ _ ih =>
    obtain ⟨step, hstep, herror⟩ := ih hr
    exact ⟨step, List.mem_cons_of_mem _ hstep, herror⟩
  | failed t fold =>
    cases hr
    exact ⟨_, List.mem_cons_self, congrArg (Except.map _) fold⟩

section Decisions

variable {attempt : Attempt} {request : NormalizedCommand} {own : Written Row}
  {state : AccountState} {now : Datetime}

theorem wp_postingsLegs {anchor : String} {legs : List Leg}
    (hcommand : request.command.postings? = some (anchor, legs)) {s : Database Row}
    {past : List (Step Row)} :
    Guarantees (fun r _ own' past' => Reads (Chose own request state now) own past r own' past')
      (postingsLegs (boundStorage attempt).toCommandReads anchor legs state request.commandId)
      s own past := by
  refine wp_bind ((wp_foldOthers _ _).mono fun r t own' past' hreads => ?_)
  obtain ⟨rfl, more, rfl, hfolded⟩ := hreads
  cases r with
  | error e =>
    obtain ⟨step, hstep, herror⟩ := hfolded.failing rfl
    exact ⟨rfl, more, rfl, .failed hfolded.onlyReads step hstep herror⟩
  | ok states => exact wp_ofExcept fun u _ _ => ⟨rfl, more, rfl, .postings hcommand hfolded⟩

theorem wp_postHoldLegs {c : PostHold} (hcommand : request.command = .postHold c)
    {s : Database Row} {past : List (Step Row)} :
    Guarantees (fun r _ own' past' => Reads (Chose own request state now) own past r own' past')
      (postHoldLegs (boundStorage attempt).toCommandReads state c now) s own past := by
  refine wp_bind (wp_read (fun _ _ => rfl) rfl fun t u => ?_)
  cases hopened : openHold (t.seen own) c.accountId c.holdId with
  | error e =>
    exact ⟨rfl, _, rfl, .failed (List.forall_mem_singleton.mpr ⟨rfl, trivial⟩) _ List.mem_cons_self
      (congrArg (Except.map _) hopened)⟩
  | ok hold =>
    refine wp_bind ((wp_foldOthers _ _).mono fun r t' own' past' hreads => ?_)
    obtain ⟨rfl, more, rfl, hfolded⟩ := hreads
    cases r with
    | error e =>
      obtain ⟨step, hstep, herror⟩ := hfolded.failing rfl
      exact ⟨rfl, _, List.append_assoc _ _ _, .failed
        (List.forall_mem_cons.mpr ⟨⟨rfl, trivial⟩, hfolded.onlyReads⟩) step
        (List.mem_cons_of_mem _ hstep) herror⟩
    | ok states =>
      exact wp_ofExcept fun u _ _ =>
        ⟨rfl, _, List.append_assoc _ _ _, .capture t hcommand hopened hfolded⟩

theorem wp_releaseLegs {kind : ReleaseKind} {c : ReleaseCommand}
    (hcommand : request.command.release? = some (kind, c)) {s : Database Row}
    {past : List (Step Row)} :
    Guarantees (fun r _ own' past' => Reads (Chose own request state now) own past r own' past')
      (releaseLegs (boundStorage attempt).toCommandReads kind c state now) s own past := by
  refine wp_bind (wp_read (fun _ _ => rfl) rfl fun t u => ?_)
  cases hopened : openHold (t.seen own) c.accountId c.holdId with
  | error e =>
    exact ⟨rfl, _, rfl, .failed (List.forall_mem_singleton.mpr ⟨rfl, trivial⟩) _ List.mem_cons_self
      (congrArg (Except.map _) hopened)⟩
  | ok hold => exact wp_ofExcept fun u _ _ => ⟨rfl, _, rfl, .release t hcommand hopened⟩

theorem wp_revertLegs {c : Revert} (hcommand : request.command = .revert c) {s : Database Row}
    {past : List (Step Row)} :
    Guarantees (fun r _ own' past' => Reads (Chose own request state now) own past r own' past')
      (revertLegs (boundStorage attempt).toCommandReads c state request.commandId) s own past := by
  refine wp_bind (wp_read (fun _ _ => rfl) rfl fun t u => ?_)
  cases hlegs : legsOf (t.seen own) c.transferId with
  | error e =>
    exact ⟨rfl, _, rfl, .failed (List.forall_mem_singleton.mpr ⟨rfl, trivial⟩) _ List.mem_cons_self
      (congrArg (Except.map _) hlegs)⟩
  | ok original =>
    refine wp_bind ((wp_foldOthers _ _).mono fun r u' own' past' hreads => ?_)
    obtain ⟨rfl, more, rfl, hfolded⟩ := hreads
    cases r with
    | error e =>
      obtain ⟨step, hstep, herror⟩ := hfolded.failing rfl
      exact ⟨rfl, _, List.append_assoc _ _ _, .failed
        (List.forall_mem_cons.mpr ⟨⟨rfl, trivial⟩, hfolded.onlyReads⟩) step
        (List.mem_cons_of_mem _ hstep) herror⟩
    | ok states =>
      refine wp_bind (wp_read (fun _ _ => rfl) rfl fun t' u => ?_)
      have hpast : past ++ [⟨.legsOf c.transferId, own', t⟩] ++ more ++
          [⟨.revertedBy c.transferId, own', t'⟩] = past ++ (⟨.legsOf c.transferId, own', t⟩ :: more ++
            [⟨.revertedBy c.transferId, own', t'⟩]) := by
        simp
      cases hreverted : revertedBy (t'.seen own') c.transferId with
      | error e =>
        have honly : OnlyReads own' (⟨.legsOf c.transferId, own', t⟩ :: more ++
            [⟨.revertedBy c.transferId, own', t'⟩]) :=
          List.forall_mem_append.mpr ⟨List.forall_mem_cons.mpr ⟨⟨rfl, trivial⟩, hfolded.onlyReads⟩,
            List.forall_mem_singleton.mpr ⟨rfl, trivial⟩⟩
        exact ⟨rfl, _, hpast, .failed honly _ (List.mem_append_right _ List.mem_cons_self)
          (congrArg (Except.map _) hreverted)⟩
      | ok reverter =>
        exact wp_ofExcept fun _ _ _ => ⟨rfl, _, hpast, .reversal t t' hcommand hlegs hfolded hreverted⟩

/-- **A decision comes to its legs in one of these ways.** -/
theorem wp_decideLegs {s : Database Row} {past : List (Step Row)} :
    Guarantees (fun r _ own' past' => Reads (Chose own request state now) own past r own' past')
      (decideLegs (boundStorage attempt).toCommandReads request state now) s own past := by
  rw [decideLegs]
  cases hcommand : request.command with
  | transfer c | post c => exact wp_postingsLegs (by rw [hcommand]; rfl)
  | postHold c => exact wp_postHoldLegs hcommand
  | voidHold c | expireHold c => exact wp_releaseLegs (by rw [hcommand]; rfl)
  | revert c => exact wp_revertLegs hcommand
  | hold c => exact wp_ofExcept fun t _ _ => ⟨rfl, [], by simp, .hold hcommand⟩
  | deposit c => exact wp_ofExcept fun t _ _ => ⟨rfl, [], by simp, .deposit hcommand⟩
  | withdraw c => exact wp_ofExcept fun t _ _ => ⟨rfl, [], by simp, .withdraw hcommand⟩

end Decisions

/-! ### The states that legs are numbered from -/

/-- The states of a decision are that of its own account and those that it folded. -/
structure Known (own : Written Row) (anchor : String) (state : AccountState)
    (more : List (Step Row)) (states : States) : Prop where
  self : states.lookup anchor = some state
  folded : ∀ a st, states.lookup a = some st → (a = anchor ∧ st = state) ∨
    ∃ t, ⟨.foldStream a, own, t⟩ ∈ more ∧ foldStream (t.seen own) a = .ok st

theorem known_singleton (own : Written Row) (anchor : String) (state : AccountState) :
    Known own anchor state [] [(anchor, state)] := by
  refine ⟨by rw [Tables.lookup_cons_ite, if_pos rfl], fun a st ha => Or.inl ?_⟩
  rw [Tables.lookup_cons_ite] at ha
  split at ha
  next heq => exact ⟨heq, (Option.some.inj ha).symm⟩
  next => cases ha

theorem Known.cons {own : Written Row} {anchor : String} {state : AccountState}
    {more : List (Step Row)} {states : States} (h : Known own anchor state more states)
    (front back : List (Step Row)) : Known own anchor state (front ++ more ++ back) states := by
  refine ⟨h.self, fun a st ha => (h.folded a st ha).imp_right ?_⟩
  rintro ⟨t, ht, hfold⟩
  exact ⟨t, List.mem_append_left _ (List.mem_append_right _ ht), hfold⟩

theorem FoldedOthers.known_of {own : Written Row} {anchor : String} {state : AccountState}
    {states states' : States} {as : List String} {more : List (Step Row)}
    {r : Except PyError States} (h : FoldedOthers own states as more r) :
    r = .ok states' → ∀ {before : List (Step Row)}, Known own anchor state before states →
      Known own anchor state (before ++ more) states' ∧
        (∀ a, (states.lookup a).isSome ∨ a ∈ as → (states'.lookup a).isSome) := by
  induction h with
  | done states =>
    intro hr before hstates
    cases hr
    rw [List.append_nil]
    exact ⟨hstates, fun a ha => ha.resolve_right List.not_mem_nil⟩
  | @known states a as more r hknown _ ih =>
    intro hr before hstates
    obtain ⟨hall, hsome⟩ := ih hr hstates
    refine ⟨hall, fun b hb => hsome b ?_⟩
    rcases hb with hb | hb
    · exact Or.inl hb
    · rcases List.mem_cons.mp hb with rfl | hb
      · exact Or.inl hknown
      · exact Or.inr hb
  | @folded states a as more r st t hunknown fold _ ih =>
    intro hr before hstates
    have hstates' : Known own anchor state (before ++ [⟨.foldStream a, own, t⟩])
        (states ++ [(a, st)]) := by
      refine ⟨?_, fun b sb hb => ?_⟩
      · rw [List.lookup_append, hstates.self]
        rfl
      · rw [List.lookup_append] at hb
        rcases Option.or_eq_some_iff.mp hb with hb | ⟨-, hb⟩
        · refine (hstates.folded b sb hb).imp_right ?_
          rintro ⟨u, hu, hfold⟩
          exact ⟨u, List.mem_append_left _ hu, hfold⟩
        · rw [Tables.lookup_cons_ite] at hb
          split at hb
          next heq =>
            cases hb
            subst heq
            exact Or.inr ⟨t, List.mem_append_right _ List.mem_cons_self, fold⟩
          next => cases hb
    obtain ⟨hall, hsome⟩ := ih hr hstates'
    rw [List.append_assoc] at hall
    refine ⟨hall, fun b hb => hsome b ?_⟩
    rw [List.lookup_append, Option.isSome_or]
    rcases hb with hb | hb
    · exact Or.inl (by rw [hb, Bool.true_or])
    · rcases List.mem_cons.mp hb with rfl | hb
      · refine Or.inl ?_
        rw [Tables.lookup_cons_ite, if_pos rfl, Option.isSome_some, Bool.or_true]
      · exact Or.inr hb
  | failed => exact fun hr => nomatch hr

/-- The legs are events numbered from known states, and one is on the account itself. -/
structure Numbers (own : Written Row) (anchor : String) (state : AccountState)
    (more : List (Step Row)) (states : States) (events : List AccountEvent)
    (legs : List (AccountEvent × Int)) : Prop where
  known : Known own anchor state more states
  numbered : numberLegs states events = .ok legs
  addressed : ∃ e ∈ events, e.accountId = anchor

theorem numbers_singleton (own : Written Row) {state : AccountState} {event : AccountEvent}
    {anchor : String} (h : event.accountId = anchor) :
    Numbers own anchor state [] [(anchor, state)] [event] [(event, state.version + 1)] := by
  refine ⟨known_singleton own anchor state, ?_, event, List.mem_singleton.mpr rfl, h⟩
  have hlookup : [(anchor, state)].lookup event.accountId = some state := by
    rw [h, Tables.lookup_cons_ite, if_pos rfl]
  rw [numberLegs, numberEvents_eq (fun _ => state.version), ok_bind]
  · rfl
  · intro e he
    rw [List.mem_singleton.mp he, lookup_versions, hlookup]
    rfl

theorem accountId_of_decideRevert {states : States} {original : List AccountEvent} {c : Revert}
    {transferId : UUID} {reverter : Option UUID} {events : List AccountEvent}
    (h : decideRevert states original c transferId reverter = .ok events) :
    events.map AccountEvent.accountId = (movementLegs original).map MovementLeg.accountId := by
  have hmirrored : List.Forall₂ (fun leg e => IsMirror leg transferId c.transferId e ∧
      Admits ((states.lookup leg.accountId).getD .unknown) e) (movementLegs original) events := by
    refine (decideRevert_eq_ok.mp h).2.imp ?_
    rintro leg e ⟨st, hst, hmirror, hadmits⟩
    refine ⟨hmirror, ?_⟩
    rw [hst]
    exact hadmits
  exact accountId_of_mirrored hmirrored

/-- **The legs of a decision are numbered from the states that it has read.** -/
theorem Chose.numbers {own : Written Row} {request : NormalizedCommand} {state : AccountState}
    {now : Datetime} {more : List (Step Row)} {legs : List (AccountEvent × Int)}
    (h : Chose own request state now more (.ok legs)) :
    ∃ states events, Numbers own request.command.accountId state more states events legs := by
  generalize hr : (Except.ok legs : Except PyError _) = r at h
  cases h with
  | failed => cases hr
  | @deposit c command =>
    obtain ⟨event, hevent, hlegs⟩ := bind_eq_ok.mp hr.symm
    obtain ⟨rfl, -⟩ := decide_deposit_eq_ok.mp hevent
    cases hlegs
    exact ⟨_, _, numbers_singleton own (by rw [command]; rfl)⟩
  | @withdraw c command =>
    obtain ⟨event, hevent, hlegs⟩ := bind_eq_ok.mp hr.symm
    obtain ⟨rfl, -⟩ := decide_withdraw_eq_ok.mp hevent
    cases hlegs
    exact ⟨_, _, numbers_singleton own (by rw [command]; rfl)⟩
  | @hold c command =>
    obtain ⟨placed, hplaced, hlegs⟩ := bind_eq_ok.mp hr.symm
    obtain ⟨hplacement, -⟩ := decideHold_eq_ok.mp hplaced
    cases hlegs
    exact ⟨_, _, numbers_singleton own (by rw [command]; exact hplacement.accountId)⟩
  | @postings anchor postings more states command folded =>
    obtain ⟨events, hevents, hlegs⟩ := bind_eq_ok.mp hr.symm
    obtain ⟨hvalid, hanchor⟩ := AccountCommand.validLegs command
    have hposted := (decidePostings_eq_ok.mp hevents).2
    obtain ⟨hknown, -⟩ := folded.known_of rfl (known_singleton own anchor state)
    obtain ⟨leg, hleg, haccount, -⟩ := hvalid.anchored
    have hmem : leg.accountId ∈ events.map AccountEvent.accountId := by
      rw [accountId_of_posted hposted]
      exact List.mem_map_of_mem hleg
    obtain ⟨e, he, heq⟩ := List.mem_map.mp hmem
    exact ⟨states, events, hanchor ▸ hknown, hlegs, e, he, by rw [heq, haccount, hanchor]⟩
  | @capture c hold more states t command opened folded =>
    obtain ⟨target, -, hrest⟩ := bind_eq_ok.mp hr.symm
    obtain ⟨events, hevents, hlegs⟩ := bind_eq_ok.mp hrest
    obtain ⟨hold, rfl, -, hcaptured⟩ := decidePostHold_eq_ok.mp hevents
    obtain ⟨hknown, -⟩ := folded.known_of rfl (known_singleton own c.accountId state)
    have haddressed : ∃ e ∈ events, e.accountId = request.command.accountId := by
      rw [command]
      cases hcaptured with
      | whole capture all => exact ⟨_, List.mem_cons_self, capture.accountId⟩
      | part capture rest less => exact ⟨_, List.mem_cons_self, capture.accountId⟩
    have hmore := hknown.cons [⟨.openHold c.accountId c.holdId, own, t⟩] []
    rw [List.append_nil] at hmore
    rw [command] at haddressed ⊢
    exact ⟨states, events, hmore, hlegs, haddressed⟩
  | @release kind c hold t command opened =>
    obtain ⟨released, hreleased, hlegs⟩ := bind_eq_ok.mp hr.symm
    obtain ⟨hold, rfl, -, hreleases⟩ := decideReleaseHold_eq_ok.mp hreleased
    cases hlegs
    have haccount := AccountCommand.accountId_of_release command
    have hsingle : Numbers own request.command.accountId state [] [(_, state)]
        [.holdReleased released] [(.holdReleased released, state.version + 1)] :=
      numbers_singleton own (haccount ▸ hreleases.accountId)
    refine ⟨_, _, ?_, hsingle.numbered, hsingle.addressed⟩
    exact hsingle.known.cons [⟨.openHold c.accountId c.holdId, own, t⟩] []
  | @reversal c original more states reverter t t' command legs' folded reverted =>
    obtain ⟨events, hevents, hlegs⟩ := bind_eq_ok.mp hr.symm
    have hrevertible := (decideRevert_eq_ok.mp hevents).1
    obtain ⟨hknown, -⟩ := folded.known_of rfl (known_singleton own c.accountId state)
    obtain ⟨leg, hleg, haccount, -⟩ := hrevertible.anchored
    have hmem : leg.accountId ∈ events.map AccountEvent.accountId := by
      rw [accountId_of_decideRevert hevents]
      exact List.mem_map_of_mem hleg
    obtain ⟨e, he, heq⟩ := List.mem_map.mp hmem
    rw [command]
    exact ⟨states, events, hknown.cons [⟨.legsOf c.transferId, own, t⟩] _, hlegs, e, he,
      heq.trans haccount⟩

end Cloudscale.Postgres
