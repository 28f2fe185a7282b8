import Cloudscale.Application.CommandExecution
import Cloudscale.Lib.Relational

/-!
# One decision over two storages

`executeCommandDecision` is generic in the monad of its storage.  If a relation
between the computations of two monads is kept by what the decision is built from,
and relates the operations of two storages, then it relates the two runs of the
decision (`executeCommandDecision_related`).  What one storage does, step by step, is
so compared with what another does, and the decision itself is read once.

Only the reads are under a `try`, and they come before the writes.  So a relation of the writes
need not be kept by one, and that of a whole decision is kept by a read before it.
-/

namespace Cloudscale

open Python Transactions Relational

section

variable {m m' : Type → Type} [Monad m] [MonadExcept PyError m] [Monad m'] [MonadExcept PyError m']
  (R : ∀ {α : Type}, m α → m' α → Prop)

structure RelatedReads (reads : CommandReads m) (reads' : CommandReads m') : Prop where
  storedResult : ∀ t, R (reads.storedResult t) (reads'.storedResult t)
  foldStream : ∀ a, R (reads.foldStream a) (reads'.foldStream a)
  openHold : ∀ a t, R (reads.openHold a t) (reads'.openHold a t)
  legsOf : ∀ t, R (reads.legsOf t) (reads'.legsOf t)
  revertedBy : ∀ t, R (reads.revertedBy t) (reads'.revertedBy t)

structure RelatedWrites (storage : CommandDecisionStorage m)
    (storage' : CommandDecisionStorage m') : Prop where
  appendEvent : ∀ envelope event,
    R (storage.appendEvent envelope event) (storage'.appendEvent envelope event)
  persistResult : ∀ result, R (storage.persistResult result) (storage'.persistResult result)

variable {R}

/-! ### Deciding -/

section Reads

variable (hR : Respects domainErrorOf @R)

variable {reads : CommandReads m} {reads' : CommandReads m'} (hreads : RelatedReads R reads reads')

include hR hreads

theorem foldOthers_related : ∀ (accountIds : List String) (states : States),
    R (foldOthers reads states accountIds) (foldOthers reads' states accountIds) := by
  intro accountIds
  induction accountIds with
  | nil => exact fun states => hR.pure states
  | cons accountId accountIds ih =>
    intro states
    rw [foldOthers, foldOthers]
    refine related_ite (fun _ => ih states) fun _ => ?_
    exact hR.bind (hreads.foldStream accountId) fun state => ih _

theorem postingsLegs_related (anchor : String) (legs : List Leg) (state : AccountState)
    (commandId : UUID) : R (postingsLegs reads anchor legs state commandId)
      (postingsLegs reads' anchor legs state commandId) :=
  hR.bind (foldOthers_related hR hreads _ _) fun _ => hR.ofExcept _

theorem postHoldLegs_related (state : AccountState) (command : PostHold) (now : Datetime) :
    R (postHoldLegs reads state command now) (postHoldLegs reads' state command now) := by
  refine hR.bind (hreads.openHold _ _) fun hold => ?_
  exact hR.bind (foldOthers_related hR hreads _ _) fun _ => hR.ofExcept _

theorem revertLegs_related (command : Revert) (state : AccountState) (commandId : UUID) :
    R (revertLegs reads command state commandId) (revertLegs reads' command state commandId) := by
  refine hR.bind (hreads.legsOf _) fun original => ?_
  refine hR.bind (foldOthers_related hR hreads _ _) fun states => ?_
  exact hR.bind (hreads.revertedBy _) fun _ => hR.ofExcept _

theorem releaseLegs_related (kind : Account.ReleaseKind) (command : ReleaseCommand)
    (state : AccountState) (now : Datetime) :
    R (releaseLegs reads kind command state now) (releaseLegs reads' kind command state now) :=
  hR.bind (hreads.openHold _ _) fun _ => hR.ofExcept _

theorem decideLegs_related (request : NormalizedCommand) (state : AccountState) (now : Datetime) :
    R (decideLegs reads request state now) (decideLegs reads' request state now) := by
  rw [decideLegs, decideLegs]
  cases request.command with
  | transfer c | post c => exact postingsLegs_related hR hreads _ _ _ _
  | postHold c => exact postHoldLegs_related hR hreads _ _ _
  | voidHold c | expireHold c => exact releaseLegs_related hR hreads _ _ _ _
  | revert c => exact revertLegs_related hR hreads _ _ _
  | hold c | deposit c | withdraw c => exact hR.ofExcept _

end Reads

/-! ### Executing -/

variable {storage : CommandDecisionStorage m} {storage' : CommandDecisionStorage m'}

section Writes

variable {W : ∀ {α : Type}, m α → m' α → Prop} (hW : Composes PyError @W)
  (hwrites : RelatedWrites W storage storage')

include hW hwrites

theorem persistedRejection_related (request : NormalizedCommand) (outcome : CommandOutcome)
    (errorCode : String) (httpStatus currentVersion : Int) (createdAt : Datetime) :
    W (persistedRejection storage request outcome errorCode httpStatus currentVersion createdAt)
      (persistedRejection storage' request outcome errorCode httpStatus currentVersion
        createdAt) := by
  refine hW.bind (hW.ofExcept _) fun result => ?_
  exact hW.bind (hwrites.persistResult result) fun _ => hW.pure result

theorem appendLegs_related {ids : m UUID} {ids' : m' UUID} (hids : W ids ids')
    (request : NormalizedCommand) (now : Datetime) : ∀ (legs : List (AccountEvent × Int))
    (postings : List Posting) (addressed : Option EventEnvelope),
    W (appendLegs storage request now ids legs postings addressed)
      (appendLegs storage' request now ids' legs postings addressed) := by
  intro legs
  induction legs with
  | nil => exact fun postings addressed => hW.pure _
  | cons leg legs ih =>
    intro postings addressed
    refine hW.bind hids fun eventId => hW.bind (hW.ofExcept _) fun envelope => ?_
    refine hW.bind (hwrites.appendEvent envelope leg.1) fun _ => ?_
    exact hW.bind (hW.ofExcept _) fun posting => ih _ _

end Writes

/-- **Related storages decide alike**: a decision reads first and writes then, and is related as
its reads and its writes are. -/
theorem executeCommandDecision_related (hR : Respects domainErrorOf @R)
    (hreads : RelatedReads R storage.toCommandReads storage'.toCommandReads)
    {W : ∀ {α : Type}, m α → m' α → Prop} (hW : Composes PyError @W)
    (hwrites : RelatedWrites W storage storage') {D : ∀ {α : Type}, m α → m' α → Prop}
    (hread : ∀ {α β : Type} {x : m α} {y : m' α} {f : α → m β} {g : α → m' β},
      R x y → (∀ a, D (f a) (g a)) → D (x >>= f) (y >>= g))
    (hwrite : ∀ {α : Type} {x : m α} {y : m' α}, W x y → D x y) {clock : m Datetime}
    {clock' : m' Datetime} {ids : m UUID} {ids' : m' UUID} (hclock : R clock clock')
    (hids : W ids ids') (request : NormalizedCommand) :
    D (executeCommandDecision storage request clock ids)
      (executeCommandDecision storage' request clock' ids') := by
  refine hread (hreads.storedResult _) fun stored => ?_
  cases stored with
  | some stored =>
    refine related_ite (fun _ => hwrite (hW.pure stored)) fun _ => ?_
    refine hread (hreads.foldStream _) fun current => ?_
    exact hread hclock fun createdAt => hwrite (hW.ofExcept _)
  | none =>
    refine hread (hreads.foldStream _) fun state => ?_
    refine related_ite (fun _ => ?_) fun _ => hread hclock fun occurredAt => ?_
    · refine hread hclock fun createdAt => ?_
      exact hwrite (persistedRejection_related hW hwrites _ _ _ _ _ _)
    have hlegs := decideLegs_related hR hreads request state occurredAt
    refine hread (hR.attempt hlegs) fun decided => hwrite ?_
    cases decided with
    | inr error => exact persistedRejection_related hW hwrites _ _ _ _ _ _
    | inl legs =>
      refine hW.bind (appendLegs_related hW hwrites hids request occurredAt legs [] none)
        fun appended => ?_
      obtain ⟨postings, addressed⟩ := appended
      cases addressed with
      | none => exact hW.throw _
      | some addressed =>
        refine hW.bind (hW.ofExcept _) fun result => ?_
        exact hW.bind (hwrites.persistResult result) fun _ => hW.pure result

end

end Cloudscale
