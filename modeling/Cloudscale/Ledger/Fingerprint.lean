import Cloudscale.Ledger.Idempotency
import Cloudscale.Lib.JsonRoundtrip

/-!
# The fingerprint of a command

The canonical payload of a command names its type, its claims and every field.
The writer of canonical texts separates documents, so what a key finds in the
payload is what it finds in the document (`find_of_payload`), and the fields that a
type adds determine the rest of the command (`fields_injective`).

Two requests with one hash are then one intent, as far as SHA-256 tells their
payloads apart, and another intent under a used command id is a conflict.
-/

namespace Cloudscale

open Checked Python

/-! ### Documents -/

/-- The member of `postings` that is a leg. -/
def legDocument (leg : Leg) : Json :=
  .obj [("account_id", .str leg.accountId), ("amount", .int leg.amount),
    ("direction", .str leg.direction.text)]

theorem plain_legDocument (leg : Leg) : Json.Plain none (legDocument leg) := by
  refine .obj (by simp) (fun m hm => ?_)
  simp only [List.mem_cons, List.not_mem_nil, or_false] at hm
  rcases hm with rfl | rfl | rfl
  · exact .str _
  · exact .int (Json.fits_none _)
  · exact .str _

theorem plain_commandSpecificFields (command : AccountCommand) :
    ∀ m ∈ commandSpecificFields command, Json.Plain none m.2 := by
  cases command with
  | deposit c | withdraw c =>
    exact List.forall_mem_singleton.mpr (.int (Json.fits_none _))
  | voidHold c | expireHold c | revert c =>
    exact List.forall_mem_singleton.mpr (.str _)
  | transfer c =>
    simp only [commandSpecificFields, List.forall_mem_cons]
    exact ⟨.int (Json.fits_none _), .str _, fun _ h => nomatch h⟩
  | hold c =>
    simp only [commandSpecificFields, List.forall_mem_cons]
    exact ⟨.int (Json.fits_none _), .str _, .int (Json.fits_none _), fun _ h => nomatch h⟩
  | postHold c =>
    simp only [commandSpecificFields, List.forall_mem_cons]
    refine ⟨.str _, ?_, fun _ h => nomatch h⟩
    cases c.amount with
    | none => exact .null
    | some a => exact .int (Json.fits_none a)
  | post c =>
    refine List.forall_mem_singleton.mpr (.arr fun v hv => ?_)
    obtain ⟨leg, -, rfl⟩ := List.mem_map.mp hv
    exact plain_legDocument leg

theorem plain_normalizedFields (command : AccountCommand) (issuer subject : String) :
    Json.Plain none (.obj (normalizedFields command issuer subject)) := by
  refine .obj ?_ ?_
  · cases command <;> simp [normalizedFields, commandSpecificFields]
  · rw [normalizedFields, List.forall_mem_append]
    refine ⟨?_, plain_commandSpecificFields command⟩
    simp only [List.forall_mem_cons]
    exact ⟨.str _, .int (Json.fits_none _), .str _, .int (Json.fits_none _), .str _, .str _,
      fun _ h => nomatch h⟩

theorem legDocument_injective {leg leg' : Leg}
    (h : (legDocument leg).sortKeys = (legDocument leg').sortKeys) : leg = leg' := by
  have hfind := Json.lookup_of_sortKeys_eq (plain_legDocument leg) (plain_legDocument leg') h
  have haccount := hfind "account_id"
  have hamount := hfind "amount"
  have hdirection := hfind "direction"
  simp [List.lookup_cons, Json.sortKeys] at haccount hamount hdirection
  obtain ⟨a, n, d, _, _⟩ := leg
  obtain ⟨a', n', d', _, _⟩ := leg'
  simp only at haccount hamount hdirection
  subst haccount hamount
  cases d <;> cases d' <;> simp [Direction.text] at hdirection ⊢

/-! ### Payloads -/

def SameIntent (command command' : AccountCommand) (issuer subject issuer' subject' : String) :
    Prop := command = command' ∧ issuer = issuer' ∧ subject = subject'

section Payloads

variable {command command' : AccountCommand} {issuer subject issuer' subject' : String}

/-- What a key finds in the document is what it finds in the payload. -/
theorem find_of_payload {payload : List Nat}
    (h : canonicalCommandPayload command issuer subject = .ok payload)
    (h' : canonicalCommandPayload command' issuer' subject' = .ok payload) (k : String) :
    ((normalizedFields command issuer subject).lookup k).map Json.sortKeys =
      ((normalizedFields command' issuer' subject').lookup k).map Json.sortKeys := by
  have hpayload := (canonicalCommandPayload_eq_ok.mp h).2.2
  rw [(canonicalCommandPayload_eq_ok.mp h').2.2] at hpayload
  have hplain := plain_normalizedFields command issuer subject
  have hplain' := plain_normalizedFields command' issuer' subject'
  exact Json.lookup_of_sortKeys_eq hplain hplain'
    (Json.canonical_injective hplain hplain' (utf8_injective hpayload.symm)) k

/-- A key that a type adds is found among what the type adds. -/
theorem lookup_normalizedFields (command : AccountCommand) (issuer subject : String) {k : String}
    (hk : k ∉ ["account_id", "expected_version", "issuer",
    "schema_version", "subject", "type"]) :
    (normalizedFields command issuer subject).lookup k = (commandSpecificFields command).lookup k := by
  simp only [List.mem_cons, List.not_mem_nil, or_false, not_or, ← beq_eq_false_iff_ne] at hk
  simp only [normalizedFields, List.cons_append, List.nil_append, List.lookup_cons, hk]

end Payloads

/-! ### Commands of one type -/

inductive SameType : AccountCommand → AccountCommand → Prop
  | deposit (c c' : Deposit) : SameType (.deposit c) (.deposit c')
  | withdraw (c c' : Withdraw) : SameType (.withdraw c) (.withdraw c')
  | transfer (c c' : Transfer) : SameType (.transfer c) (.transfer c')
  | post (c c' : Post) : SameType (.post c) (.post c')
  | hold (c c' : Hold) : SameType (.hold c) (.hold c')
  | postHold (c c' : PostHold) : SameType (.postHold c) (.postHold c')
  | voidHold (c c' : VoidHold) : SameType (.voidHold c) (.voidHold c')
  | expireHold (c c' : ExpireHold) : SameType (.expireHold c) (.expireHold c')
  | revert (c c' : Revert) : SameType (.revert c) (.revert c')

theorem sameType_of_typeName {command command' : AccountCommand}
    (h : command.typeName = command'.typeName) : SameType command command' := by
  cases command <;> cases command' <;> first
    | constructor
    | simp [AccountCommand.typeName] at h

/-- Two commands of one class with the same members are one. -/
theorem SameType.eq {command command' : AccountCommand} (htype : SameType command command')
    (haccount : command.accountId = command'.accountId)
    (hversion : command.expectedVersion = command'.expectedVersion)
    (hspecific : ∀ k, ((commandSpecificFields command).lookup k).map Json.sortKeys =
      ((commandSpecificFields command').lookup k).map Json.sortKeys) : command = command' := by
  cases htype with
  | deposit c c' | withdraw c c' =>
    have hamount : c.amount = c'.amount := by
      simpa [commandSpecificFields, List.lookup_cons, Json.sortKeys] using hspecific "amount"
    cases c
    cases c'
    simp_all [AccountCommand.accountId, AccountCommand.expectedVersion]
  | transfer c c' =>
    have hamount : c.amount = c'.amount := by
      simpa [commandSpecificFields, List.lookup_cons, Json.sortKeys] using hspecific "amount"
    have htarget : c.targetAccountId = c'.targetAccountId := by
      simpa [commandSpecificFields, List.lookup_cons, Json.sortKeys] using hspecific "target_account_id"
    cases c
    cases c'
    simp_all [AccountCommand.accountId, AccountCommand.expectedVersion]
  | hold c c' =>
    have hamount : c.amount = c'.amount := by
      simpa [commandSpecificFields, List.lookup_cons, Json.sortKeys] using hspecific "amount"
    have htarget : c.targetAccountId = c'.targetAccountId := by
      simpa [commandSpecificFields, List.lookup_cons, Json.sortKeys] using hspecific "target_account_id"
    have httl : c.ttlSeconds = c'.ttlSeconds := by
      simpa [commandSpecificFields, List.lookup_cons, Json.sortKeys] using hspecific "ttl_seconds"
    cases c
    cases c'
    simp_all [AccountCommand.accountId, AccountCommand.expectedVersion]
  | postHold c c' =>
    have hhold : c.holdId = c'.holdId := by
      apply UUID.str_injective
      simpa [commandSpecificFields, List.lookup_cons, Json.sortKeys] using hspecific "hold_id"
    have hamount : c.amount = c'.amount := by
      have hfind := hspecific "amount"
      cases hn : c.amount <;> cases hn' : c'.amount <;>
        simp_all [commandSpecificFields, List.lookup_cons, Json.sortKeys]
    cases c
    cases c'
    simp_all [AccountCommand.accountId, AccountCommand.expectedVersion]
  | voidHold c c' | expireHold c c' =>
    have hhold : c.holdId = c'.holdId := by
      apply UUID.str_injective
      simpa [commandSpecificFields, List.lookup_cons, Json.sortKeys] using hspecific "hold_id"
    cases c
    cases c'
    simp_all [AccountCommand.accountId, AccountCommand.expectedVersion]
  | revert c c' =>
    have htransfer : c.transferId = c'.transferId := by
      apply UUID.str_injective
      simpa [commandSpecificFields, List.lookup_cons, Json.sortKeys] using hspecific "transfer_id"
    cases c
    cases c'
    simp_all [AccountCommand.accountId, AccountCommand.expectedVersion]
  | post c c' =>
    have hpostings : c.postings = c'.postings := by
      have hfind : (c.postings.map legDocument).map Json.sortKeys =
          (c'.postings.map legDocument).map Json.sortKeys := by
        have hfound := hspecific "postings"
        simp only [commandSpecificFields, List.lookup_cons, beq_self_eq_true, Option.map_some,
          Json.sortKeys, Json.sortItems_eq, Option.some.injEq, Json.arr.injEq] at hfound
        exact hfound
      rw [List.map_map, List.map_map] at hfind
      exact List.map_injective_iff.mpr (fun _ _ h => legDocument_injective h) hfind
    cases c
    cases c'
    simp_all [AccountCommand.accountId, AccountCommand.expectedVersion]

section Fingerprints

variable {command command' : AccountCommand} {issuer subject issuer' subject' : String}

/-- **One payload, one intent.** -/
theorem sameIntent_of_payload {payload : List Nat}
    (h : canonicalCommandPayload command issuer subject = .ok payload)
    (h' : canonicalCommandPayload command' issuer' subject' = .ok payload) :
    SameIntent command command' issuer subject issuer' subject' := by
  have hfind := find_of_payload h h'
  have haccount := hfind "account_id"
  have hversion := hfind "expected_version"
  have hissuer := hfind "issuer"
  have hsubject := hfind "subject"
  have htype := hfind "type"
  simp [normalizedFields, List.lookup_cons, Json.sortKeys] at haccount hversion hissuer hsubject htype
  refine ⟨(sameType_of_typeName htype).eq haccount hversion fun k => ?_, hissuer, hsubject⟩
  by_cases hk : k ∈ ["account_id", "expected_version", "issuer", "schema_version", "subject", "type"]
  · have hnone : ∀ c : AccountCommand, (commandSpecificFields c).lookup k = none := by
      intro c
      simp only [List.mem_cons, List.not_mem_nil, or_false] at hk
      rcases hk with rfl | rfl | rfl | rfl | rfl | rfl <;> cases c <;> rfl
    rw [hnone, hnone]
  · rw [← lookup_normalizedFields command issuer subject hk, hfind k,
      lookup_normalizedFields command' issuer' subject' hk]

/-- **Another intent under a used command id is a conflict.** -/
theorem conflict_of_intent {commandId correlationId correlationId' : UUID}
    {call call' : Call}
    (hcall : normalizeCommand command commandId correlationId issuer subject = .ok call.request)
    (hcall' : normalizeCommand command' commandId correlationId' issuer' subject' =
      .ok call'.request)
    (hfree : CollisionFree call.request.canonicalPayload call'.request.canonicalPayload)
    (hother : ¬ SameIntent command command' issuer subject issuer' subject')
    (before mid : List Call) {r : CommandResult}
    (hfirst : (execute (storeAfter before) call).1 = .ok r)
    (hanswer : r.outcome ≠ .commandIdConflict) :
    ∃ r', execute (storeAfter (before ++ call :: mid)) call' =
      (.ok r', storeAfter (before ++ call :: mid)) ∧ r'.outcome = .commandIdConflict := by
  have hs := ledger_storeAfter before
  obtain ⟨hstored, hhash⟩ := storedResult_next hs.coherent.readable hfirst hanswer
  obtain ⟨-, hid, -, -, -, hpayload⟩ := normalizeCommand_eq_ok.mp hcall
  obtain ⟨-, hid', -, -, -, hpayload'⟩ := normalizeCommand_eq_ok.mp hcall'
  have hlater : (storeAfter (before ++ call :: mid)).storedResult call'.request.commandId =
      .ok (some r) := by
    rw [hid', ← hid, storeAfter_append, Runs.run_cons]
    exact storedResult_run mid hs.next.coherent.readable hstored
  refine execute_conflict (Store.foldStream_eq (ledger_storeAfter _).coherent.readable _) hlater ?_
  rw [hhash, call.request.hash_ok, call'.request.hash_ok]
  intro heq
  have hsame := hfree heq
  rw [hsame] at hpayload
  exact hother (sameIntent_of_payload hpayload hpayload')

end Fingerprints

/-- **The command fingerprint is injective.** -/
theorem fingerprint_injective (command command' : AccountCommand)
    (issuer subject issuer' subject' : String) :
    (∀ payload, canonicalCommandPayload command issuer subject = .ok payload →
      canonicalCommandPayload command' issuer' subject' = .ok payload →
        SameIntent command command' issuer subject issuer' subject') ∧
    (∀ (commandId commandId' correlationId correlationId' : UUID)
      (request request' : NormalizedCommand),
      normalizeCommand command commandId correlationId issuer subject = .ok request →
      normalizeCommand command' commandId' correlationId' issuer' subject' = .ok request' →
      CollisionFree request.canonicalPayload request'.canonicalPayload →
      request.requestHash = request'.requestHash →
        SameIntent command command' issuer subject issuer' subject') ∧
    ∀ (commandId correlationId correlationId' : UUID) (call call' : Call),
      normalizeCommand command commandId correlationId issuer subject = .ok call.request →
      normalizeCommand command' commandId correlationId' issuer' subject' = .ok call'.request →
      CollisionFree call.request.canonicalPayload call'.request.canonicalPayload →
      ¬ SameIntent command command' issuer subject issuer' subject' →
      ∀ (before mid : List Call) (r : CommandResult),
        (execute (storeAfter before) call).1 = .ok r → r.outcome ≠ .commandIdConflict →
          ∃ r', execute (storeAfter (before ++ call :: mid)) call' =
            (.ok r', storeAfter (before ++ call :: mid)) ∧ r'.outcome = .commandIdConflict := by
  refine ⟨fun payload h h' => sameIntent_of_payload h h',
    fun commandId commandId' correlationId correlationId' request request' h h' hfree heq => ?_,
    fun commandId correlationId correlationId' call call' h h' hfree hother before mid r hfirst
      hanswer => conflict_of_intent h h' hfree hother before mid hfirst hanswer⟩
  obtain ⟨-, -, -, -, -, hpayload⟩ := normalizeCommand_eq_ok.mp h
  obtain ⟨-, -, -, -, -, hpayload'⟩ := normalizeCommand_eq_ok.mp h'
  rw [request.hash_ok, request'.hash_ok] at heq
  rw [hfree heq] at hpayload
  exact sameIntent_of_payload hpayload hpayload'

/-- A deposit and a withdrawal of the same amount have two payloads and two hashes, and the
withdrawal under the command id of the deposit is a conflict. -/
theorem fingerprint_injective_cash :
    let deposit : AccountCommand := .deposit ⟨"alice", 1, 0, by decide, by decide, by decide⟩
    let withdraw : AccountCommand := .withdraw ⟨"alice", 1, 0, by decide, by decide, by decide⟩
    let call := Call.of deposit ⟨1⟩ .epoch 10
    let call' := Call.of withdraw ⟨1⟩ .epoch 20
    (∀ payload, ¬ (canonicalCommandPayload deposit "issuer" "subject" = .ok payload ∧
      canonicalCommandPayload withdraw "issuer" "subject" = .ok payload)) ∧
    call.request.requestHash ≠ call'.request.requestHash ∧
    ∃ r', execute (storeAfter [call]) call' = (.ok r', storeAfter [call]) ∧
      r'.outcome = .commandIdConflict := by
  intro deposit withdraw call call'
  have hother : ¬ SameIntent deposit withdraw "issuer" "subject" "issuer" "subject" :=
    fun ⟨hcommand, _⟩ => nomatch hcommand
  have hfree : CollisionFree call.request.canonicalPayload call'.request.canonicalPayload :=
    fun heq => absurd heq (by decide +kernel)
  obtain ⟨hpayloads, hhashes, hconflicts⟩ :=
    fingerprint_injective deposit withdraw "issuer" "subject" "issuer" "subject"
  refine ⟨fun payload ⟨h, h'⟩ => hother (hpayloads payload h h'), fun heq => hother ?_, ?_⟩
  · exact hhashes ⟨1⟩ ⟨1⟩ ⟨1⟩ ⟨1⟩ call.request call'.request (normalizeCommand_of _ _ _ _ _)
      (normalizeCommand_of _ _ _ _ _) hfree heq
  · obtain ⟨r, hr, haccepted⟩ : ∃ r, (execute (storeAfter []) call).1 = .ok r ∧
        r.outcome = .accepted := by decide +kernel
    refine hconflicts ⟨1⟩ ⟨1⟩ ⟨1⟩ call call' (normalizeCommand_of _ _ _ _ _)
      (normalizeCommand_of _ _ _ _ _) hfree hother [] [] r hr ?_
    rw [haccepted]
    decide

end Cloudscale
