import Cloudscale.Entrypoints.Http.Commands
import Cloudscale.Ledger.Accepting
import Cloudscale.Ledger.Outcomes

/-!
# Who may debit whom

A route answers with an accepted result just when its check passes and the store
accepts the command (`accepted_answer_iff`).  The route of a posting set checks one
account, the one in the path.  The set may debit others, and then nothing but the
guards of the ledger stands in the way (`postings_debits_authorized_iff`).
-/

namespace Cloudscale

open Checked Python Account

/-- The route has answered with an accepted result. -/
def Accepted (result : Except RouteError CommandResponse × Store) : Prop :=
  ∃ response, result.1 = .ok response ∧ response.outcome = .accepted

instance (result : Except RouteError CommandResponse × Store) : Decidable (Accepted result) :=
  inferInstanceAs (Decidable (∃ response, result.1 = .ok response ∧ response.outcome = .accepted))

section Routes

variable {registry : Option OwnerOf} {principal : Principal} {accountId : String} {s : Store}
  {attempt : Attempt}

/-- **A route accepts just when its check passes and the store accepts the command.** -/
theorem accepted_answer_iff {commandId : UUID} {check : Except RouteError AccountCommand} :
    Accepted (answer registry principal commandId check attempt s) ↔
      ∃ command request, check = .ok command ∧
        normalizeCommand command commandId attempt.correlationId principal.issuer
          principal.subject = .ok request ∧ Answered s (attempt.call request) := by
  rw [Accepted]
  cases check with
  | error e => exact ⟨(fun ⟨_, h, _⟩ => nomatch h), (fun ⟨_, _, h, _⟩ => nomatch h)⟩
  | ok command =>
    simp only [answer, Except.ok.injEq, exists_and_left, exists_eq_left', serviceExecute]
    cases hrequest : normalizeCommand command commandId attempt.correlationId principal.issuer
      principal.subject with
    | error e => exact ⟨(fun ⟨_, h, _⟩ => nomatch h), (fun ⟨_, h, _⟩ => nomatch h)⟩
    | ok request =>
      simp only [Except.ok.injEq, exists_eq_left', Answered]
      cases hexecute : execute s (attempt.call request) with
      | mk result s' =>
        cases result with
        | error e => exact ⟨(fun ⟨_, h, _⟩ => nomatch h), (fun ⟨_, h, _⟩ => nomatch h)⟩
        | ok r =>
          constructor
          · rintro ⟨response, hresponse, houtcome⟩
            cases hresponse
            exact ⟨r, rfl, houtcome⟩
          · rintro ⟨r', hr', houtcome⟩
            cases hr'
            exact ⟨_, rfl, houtcome⟩

theorem answer_store {commandId : UUID} {check : Except RouteError AccountCommand}
    {command : AccountCommand} {request : NormalizedCommand} (hcheck : check = .ok command)
    (hrequest : normalizeCommand command commandId attempt.correlationId principal.issuer
      principal.subject = .ok request) :
    (answer registry principal commandId check attempt s).2 = next s (attempt.call request) := by
  rw [hcheck, next]
  simp only [answer, serviceExecute, hrequest]
  cases execute s (attempt.call request) with
  | mk result s' => cases result <;> rfl

theorem asBadRequest_eq_ok {α : Type} {x : Except PyError α} {a : α} :
    asBadRequest x = .ok a ↔ x = .ok a := by
  cases x with
  | ok b => exact ⟨fun h => congrArg _ (Except.ok.inj h), fun h => congrArg _ (Except.ok.inj h)⟩
  | error e => cases e <;> exact ⟨(fun h => nomatch h), (fun h => nomatch h)⟩

theorem postingsCommand_eq_ok {request : PostingsRequest} {command : AccountCommand} :
    postingsCommand registry principal accountId request = .ok command ↔
      mayRead registry principal accountId ∧ ∃ post, request.post accountId = .ok post ∧
        .post post = command := by
  simp only [postingsCommand, bind_eq_ok, authorizeAccount_eq_ok, map_eq_ok, asBadRequest_eq_ok]
  exact ⟨fun ⟨_, h⟩ => h, fun h => ⟨(), h⟩⟩

/-- **What a posting request needs to be accepted**: an anchor the principal is
authorized on, valid legs, and a store that replays or accepts the set. -/
structure PostingsAcceptable (registry : Option OwnerOf) (principal : Principal)
    (accountId : String) (request : PostingsRequest) (attempt : Attempt) (s : Store) : Prop where
  anchor : mayRead registry principal accountId
  legs : ∃ post normalized, request.post accountId = .ok post ∧
    normalizeCommand (.post post) request.commandId attempt.correlationId principal.issuer
      principal.subject = .ok normalized ∧
    (Replays s (attempt.call normalized) ∨
      PostingGuards s (attempt.call normalized) post.legs)

/-- **A posting request is accepted just when it is acceptable.** -/
theorem accepted_postings_iff (hs : s.Readable) {request : PostingsRequest} :
    Accepted (postPostings registry principal accountId request attempt s) ↔
      PostingsAcceptable registry principal accountId request attempt s := by
  have hanswered : ∀ {post : Post} {normalized : NormalizedCommand},
      normalizeCommand (.post post) request.commandId attempt.correlationId principal.issuer
        principal.subject = .ok normalized →
      (Answered s (attempt.call normalized) ↔ Replays s (attempt.call normalized) ∨
        PostingGuards s (attempt.call normalized) post.legs) := by
    intro post normalized hnormalized
    have hpostings : (attempt.call normalized).request.command.postings? =
        some (post.accountId, post.legs) := by
      rw [show (attempt.call normalized).request.command = .post post from
        (normalizeCommand_eq_ok.mp hnormalized).1]
      rfl
    exact answered_postings_iff hs hpostings
  rw [postPostings, accepted_answer_iff]
  constructor
  · rintro ⟨command, normalized, hcheck, hnormalized, hresult⟩
    obtain ⟨hanchor, post, hpost, rfl⟩ := postingsCommand_eq_ok.mp hcheck
    exact ⟨hanchor, post, normalized, hpost, hnormalized, (hanswered hnormalized).mp hresult⟩
  · rintro ⟨hanchor, post, normalized, hpost, hnormalized, hguards⟩
    exact ⟨_, normalized, postingsCommand_eq_ok.mpr ⟨hanchor, post, hpost, rfl⟩, hnormalized,
      (hanswered hnormalized).mpr hguards⟩

end Routes

/-- The principal is authorized on every account that the legs of a request debit. -/
def DebitsAuthorized (registry : Option OwnerOf) (principal : Principal)
    (request : PostingsRequest) : Prop :=
  ∀ leg ∈ request.postings, leg.direction = .debit → mayRead registry principal leg.accountId

/-- **When an accepted posting set debits only authorized accounts**: just when all
its debit legs are authorized, or one of the guards refuses it. -/
theorem postings_debits_authorized_iff (inputs : List LedgerInput) (registry : Option OwnerOf)
    (principal : Principal) (accountId : String) (request : PostingsRequest) (attempt : Attempt) :
    (Accepted (postPostings registry principal accountId request attempt (storeThrough inputs)) →
      DebitsAuthorized registry principal request) ↔
    DebitsAuthorized registry principal request ∨
      ¬ PostingsAcceptable registry principal accountId request attempt (storeThrough inputs) := by
  rw [accepted_postings_iff (readable_storeThrough inputs), imp_iff_or_not]

/-- **A decorative debit**: who may act on one account alone debits it by one and a
second account by 99, and has the hundred credited to a third. -/
theorem postings_debit_foreign_account :
    let fund := Call.of (.deposit ⟨"alice", 99, 0, by decide, by decide, by decide⟩) ⟨1⟩ .epoch 10
    let own := Call.of (.deposit ⟨"mallory", 1, 0, by decide, by decide, by decide⟩) ⟨2⟩ .epoch 20
    let principal : Principal := ⟨"issuer", "mallory", ["mallory"], []⟩
    let request : PostingsRequest := ⟨⟨3⟩,
      [⟨"mallory", 1, .debit⟩, ⟨"alice", 99, .debit⟩, ⟨"cash", 100, .credit⟩], 1⟩
    let attempt : Attempt := ⟨⟨3⟩, fun _ => .epoch, fun k => ⟨Fin.ofNat _ (30 + k)⟩⟩
    Accepted (postPostings none principal "mallory" request attempt (storeAfter [fund, own])) ∧
      (((postPostings none principal "mallory" request attempt (storeAfter [fund, own])).2).account
        "alice").balance = 0 ∧
      adminScope ∉ principal.scopes ∧ ¬ mayRead none principal "alice" ∧
      ¬ DebitsAuthorized none principal request := by
  intro fund own principal request attempt
  have hforeign : ¬ mayRead none principal "alice" := by decide
  refine ⟨by decide +kernel, by decide +kernel, by decide, hforeign, fun hauthorized => ?_⟩
  exact hforeign (hauthorized ⟨"alice", 99, .debit⟩ (by simp [request]) rfl)

end Cloudscale
