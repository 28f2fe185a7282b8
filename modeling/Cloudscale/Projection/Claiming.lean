import Cloudscale.Projection.Concurrent

/-!
# Claims and the offset

What the calls of a consumer do to the claims and to the offset, on a database that they
share.  `apply` and `deadLetter` claim the id of their event and advance the offset to its
position, in one transaction; when the claim conflicts they advance the offset in a second
one (`claimed_of_conflict`).  A redrive does neither.

So whatever a call commits leaves every claim and moves the offset forward, and the id of
an event is claimed when the offset is advanced to it (`claimed_of_run`).
-/

namespace Cloudscale

open Checked Python Sessions

variable {B V ι : Type} {d : Dialect B V} {n : Arithmetic V} {fits : Finds d.database}
  {P past : Rows (RowValue V) → Prop} {rows rows' : Rows (RowValue V)}

/-- The id is in `processed_events`. -/
def Claimed (rows : Rows (RowValue V)) (id : String) : Prop :=
  (rows (.processedEvent id)).isSome

/-- The claims stay, and the offset does not move back. -/
structure Later (rows rows' : Rows (RowValue V)) : Prop where
  claims : ∀ id, Claimed rows id → Claimed rows' id
  offset : offsetOf rows ≤ offsetOf rows'

theorem Later.refl (rows : Rows (RowValue V)) : Later rows rows := ⟨fun _ h => h, le_rfl⟩

theorem Later.trans {rows'' : Rows (RowValue V)} (h : Later rows rows') (h' : Later rows' rows'') :
    Later rows rows'' :=
  ⟨fun id hid => h'.claims id (h.claims id hid), h.offset.trans h'.offset⟩

/-- The offset stays, or moves forward to a position. -/
def AdvancedTo (logId : Int) (rows rows' : Rows (RowValue V)) : Prop :=
  offsetOf rows' = offsetOf rows ∨ offsetOf rows' = max (offsetOf rows) logId

theorem AdvancedTo.le {logId : Int} (h : AdvancedTo logId rows rows') :
    offsetOf rows ≤ offsetOf rows' := by
  rcases h with h | h <;> rw [h]
  exact le_max_left _ _

/-! ### Statements -/

theorem offsetOf_of_eq (h : rows' .consumerOffset = rows .consumerOffset) :
    offsetOf rows' = offsetOf rows := by
  unfold offsetOf
  rw [h]

theorem advancedTo_of_executes {logId : Int}
    (h : Executes fits [.advanceOffset logId] rows rows') : AdvancedTo logId rows rows' := by
  rcases executes_singleton h with ⟨rfl, -⟩ | ⟨row', hrun, -, rfl⟩
  · exact Or.inl rfl
  · cases hrun
    have hself := congrArg (Option.getD · (0 : Int)) (Function.update_self (RowKey.consumerOffset)
      (Option.map (fun lastId : Int => (max lastId logId : Int)) (rows .consumerOffset)) rows)
    refine Or.imp hself.trans hself.trans ?_
    unfold offsetOf
    cases rows .consumerOffset with
    | none => exact Or.inl rfl
    | some lastId => exact Or.inr rfl

theorem claimed_update (rows : Rows (RowValue V)) (id : String) :
    Claimed (Function.update rows (.processedEvent id) (some ())) id := by
  unfold Claimed
  rw [Function.update_self]
  rfl

/-! ### Conflicts -/

/-- The statements on a balance do not conflict with a key. -/
def Dialect.UpsertsBalances (d : Dialect B V) : Prop :=
  ∀ statement row, d.onBalance statement row ≠ .error .integrityError

theorem bigint_ne_integrityError (n : Int) : bigint n ≠ .error .integrityError := by
  intro h
  rw [bigint] at h
  split at h <;> cases h

theorem postgresDialect_upsertsBalances : postgresDialect.UpsertsBalances := by
  rintro ⟨delta, heldDelta⟩ (_ | row)
  · refine bind_ne_error (bigint_ne_integrityError _) fun balance => ?_
    refine bind_ne_error (bigint_ne_integrityError _) fun held h => ?_
    cases h
  · refine bind_ne_error (bigint_ne_integrityError _) fun balance => ?_
    refine bind_ne_error (bigint_ne_integrityError _) fun held => ?_
    refine bind_ne_error (bigint_ne_integrityError _) fun version h => ?_
    cases h

theorem holdStatement_ne_integrityError (eventType : String) (event : Dict) :
    holdStatement eventType event ≠ .error .integrityError := by
  rw [holdStatement]
  split
  next => exact fun h => by cases h
  next =>
    split
    next =>
      refine bind_ne_error getItem_ne_integrityError fun source => ?_
      refine bind_ne_error getItem_ne_integrityError fun target => ?_
      refine bind_ne_error getItem_ne_integrityError fun amount => ?_
      refine bind_ne_error getItem_ne_integrityError fun expiresAt h => ?_
      cases h
    next =>
      split
      next => exact fun h => by cases h
      next => split <;> exact fun h => by cases h

theorem transferRowEffect_ne_integrityError (event : Dict) :
    transferRowEffect event ≠ .error .integrityError := by
  rw [transferRowEffect]
  split
  next =>
    refine bind_ne_error getItem_ne_integrityError fun accountId => ?_
    refine bind_ne_error getItem_ne_integrityError fun amount => ?_
    refine bind_ne_error getItem_ne_integrityError fun sign h => ?_
    cases h
  next => exact fun h => by cases h

theorem run_ne_integrityError (hd : d.UpsertsBalances) {st : ProjectionStatement B}
    (hclaim : ∀ id, st.key ≠ .processedEvent id) (hletter : ∀ id, st.key ≠ .deadLetter id)
    (row : Option (RowValue V st.key)) : st.run d row ≠ .error .integrityError := by
  cases st with
  | claim id => exact absurd rfl (hclaim id)
  | insertLetter id letter => exact absurd rfl (hletter id)
  | deleteLetter id => exact absurd rfl (hletter id)
  | updateLetter id error now => exact absurd rfl (hletter id)
  | balance accountId statement => exact hd statement row
  | hold statement => cases statement <;> exact fun h => by cases h
  | advanceOffset | upsertTransfer | insertLeg | markReverted => exact fun h => by cases h

/-- Statements of which none is about a claim or a letter do not conflict. -/
theorem conflict_after_sequence (hd : d.UpsertsBalances) {sts : List (ProjectionStatement B)}
    {rest : d.Program} (hsts : ∀ st ∈ sts,
      (∀ id, st.key ≠ .processedEvent id) ∧ ∀ id, st.key ≠ .deadLetter id)
    (h : Fails fits (.sequence sts rest) rows .integrityError) :
    ∃ between, Fails fits rest between .integrityError := by
  rcases fails_sequence h with ⟨st, hst, row, hrun⟩ | ⟨between, -, hrest⟩
  · exact absurd hrun (run_ne_integrityError hd (hsts st hst).1 (hsts st hst).2 row)
  · exact ⟨between, hrest⟩

theorem conflict_after_applyToBalance (hd : d.UpsertsBalances) {event : Dict} {rest : d.Program}
    (h : Fails fits (d.applyToBalance event rest) rows .integrityError) :
    ∃ between, Fails fits rest between .integrityError := by
  unfold Dialect.applyToBalance at h
  split at h
  next => exact ⟨rows, h⟩
  next accountId _ =>
    obtain ⟨balanced, h⟩ := conflict_after_sequence hd (fun st hst => by
      obtain ⟨statement, -, rfl⟩ := List.mem_map.mp hst
      exact ⟨(fun id h => nomatch h), fun id h => nomatch h⟩) h
    unfold Dialect.applyToHolds at h
    split at h
    next e hhold =>
      cases h
      exact absurd hhold (holdStatement_ne_integrityError _ _)
    next hold _ =>
      obtain ⟨held, h⟩ := conflict_after_sequence hd (fun st hst => by
        obtain ⟨statement, -, rfl⟩ := List.mem_map.mp hst
        exact ⟨(fun id h => nomatch h), fun id h => nomatch h⟩) h
      unfold Dialect.applyToTransfers at h
      split at h
      next e heffect =>
        cases h
        exact absurd heffect (transferRowEffect_ne_integrityError _)
      next => exact ⟨held, h⟩
      next effect _ =>
        refine conflict_after_sequence hd (fun st hst => ?_) h
        simp only [List.mem_cons, List.mem_map] at hst
        rcases hst with rfl | rfl | ⟨reverts, -, rfl⟩ <;>
          exact ⟨(fun id h => nomatch h), fun id h => nomatch h⟩

theorem conflict_of_claim {id : String} {sts : List (ProjectionStatement B)} {rest : d.Program}
    (h : Fails fits (.sequence (.claim id :: sts) rest) rows .integrityError) :
    Claimed rows id ∨ ∃ claimed : Rows (RowValue V),
      (∀ k, k ≠ .processedEvent id → claimed k = rows k) ∧
        Fails fits (.sequence sts rest) claimed .integrityError := by
  cases h with
  | refuse hrun =>
    refine Or.inl ?_
    change (if (rows (.processedEvent id)).isSome then Except.error PyError.integrityError
      else Except.ok (some ())) = _ at hrun
    split at hrun
    next hsome => exact hsome
    next => cases hrun
  | idle row hidle => exact absurd (Bool.and_eq_true _ _ ▸ hidle).2 Bool.false_ne_true
  | step hrun _ hnext =>
    exact Or.inr ⟨_, (fun k hk => Function.update_of_ne hk _ _), hnext⟩

/-! ### What a transaction leaves -/

theorem Claimed.of_eq {id : String} (h : Claimed rows id)
    (hrow : rows' (.processedEvent id) = rows (.processedEvent id)) : Claimed rows' id := by
  unfold Claimed
  rw [hrow]
  exact h

theorem run_apply (hadds : d.Adds n) {id : String} {event : Dict} {logId : Int} {reply a : Reply}
    (h : Run fits (.sequence [.claim id] (d.applyToBalance event
      (.sequence [.advanceOffset logId] (.commit reply)))) rows rows' a) :
    Claimed rows' id ∧ AdvancedTo logId rows rows' ∧ a = reply := by
  obtain ⟨claimed, hclaim, h⟩ := run_sequence h
  obtain ⟨-, hclaim⟩ := executes_claim hclaim
  cases hclaim
  obtain ⟨applied, hevent, hoffset, h⟩ := executes_applyToBalance hadds h
  obtain ⟨between, hadvance, hcommit⟩ := run_sequence h
  cases hcommit
  have hsame : offsetOf applied = offsetOf rows :=
    (offsetOf_of_eq hoffset).trans (offsetOf_of_eq (Function.update_of_ne (by simp) _ _))
  refine ⟨?_, ?_, rfl⟩
  · refine ((claimed_update rows id).of_eq (hevent.claims id)).of_eq ?_
    exact executes_advance hadvance (by simp)
  · have hadvanced := advancedTo_of_executes hadvance
    unfold AdvancedTo at hadvanced ⊢
    rw [← hsame]
    exact hadvanced

theorem run_deadLetter {id : String} {letter : DeadLetter} {logId : Int} {reply a : Reply}
    (h : Run fits (.sequence [.claim id, .insertLetter id letter, .advanceOffset logId]
      (.commit reply)) rows rows' a) :
    Claimed rows' id ∧ AdvancedTo logId rows rows' := by
  obtain ⟨between, hsts, hcommit⟩ := run_sequence h
  cases hcommit
  obtain ⟨-, hsts⟩ := executes_claim hsts
  have hadvance := executes_insertLetter hsts
  have hsame : offsetOf (Function.update (Function.update rows (.processedEvent id) (some ()))
      (.deadLetter id) (some letter)) = offsetOf rows :=
    (offsetOf_of_eq (Function.update_of_ne (by simp) _ _)).trans
      (offsetOf_of_eq (Function.update_of_ne (by simp) _ _))
  refine ⟨?_, ?_⟩
  · refine ((claimed_update rows id).of_eq ?_).of_eq (executes_advance hadvance (by simp))
    exact Function.update_of_ne (by simp) _ _
  · have hadvanced := advancedTo_of_executes hadvance
    unfold AdvancedTo at hadvanced ⊢
    rw [← hsame]
    exact hadvanced

theorem run_advance {logId : Int} {reply a : Reply}
    (h : Run fits (.sequence [.advanceOffset logId] (.commit reply)) rows rows' a) :
    (∀ k, k ≠ .consumerOffset → rows' k = rows k) ∧ AdvancedTo logId rows rows' ∧ a = reply := by
  obtain ⟨between, hadvance, hcommit⟩ := run_sequence h
  cases hcommit
  exact ⟨fun k hk => executes_advance hadvance hk, advancedTo_of_executes hadvance, rfl⟩

/-! ### Calls that claim an id -/

/-- Whatever is left of the script and commits, then the id is claimed and the offset is
advanced; it does not answer without a commit. -/
def ClaimsId (P : Rows (RowValue V) → Prop) (fits : Finds d.database) (script : d.Script)
    (id : String) (logId : Int) : Prop :=
  ∀ now left, P now → Traced (Past P Later now) fits script left →
    (∀ a, left ≠ .answer a) ∧ ∀ body rescue rows' a, left = .transaction body rescue →
      Run fits body now rows' a → Claimed rows' id ∧ AdvancedTo logId now rows'

theorem claimsId_raised (e : PyError) (id : String) (logId : Int) :
    ClaimsId P fits (.raised e : d.Script) id logId := by
  intro now left _ h
  cases traced_raised h
  exact ⟨(fun a h => nomatch h), fun _ _ _ _ h => nomatch h⟩

/-- **A conflict says that the id is claimed**, so the offset may be advanced. -/
theorem claimsId_transaction {body : d.Program} {id : String} {logId : Int} {reply : Reply}
    (hrun : ∀ rows rows' a, Run fits body rows rows' a →
      Claimed rows' id ∧ AdvancedTo logId rows rows')
    (hconflict : ∀ rows, P rows → Fails fits body rows .integrityError → Claimed rows id) :
    ClaimsId P fits (.transaction body (d.rescueConflict logId reply)) id logId := by
  intro now left _ h
  rcases traced_transaction h with rfl | ⟨rows, e, ⟨hrows, hlater⟩, hfail, h⟩
  · refine ⟨(fun a h => nomatch h), fun body' rescue' rows' a heq hbody => ?_⟩
    cases heq
    exact hrun _ _ _ hbody
  · by_cases he : e = .integrityError
    · subst he
      have hclaimed := hlater.claims id (hconflict rows hrows hfail)
      rcases traced_transaction h with rfl | ⟨_, e, -, -, h⟩
      · refine ⟨(fun a h => nomatch h), fun body' rescue' rows' a heq hbody => ?_⟩
        cases heq
        obtain ⟨hframe, hadvanced, -⟩ := run_advance hbody
        exact ⟨hclaimed.of_eq (hframe _ (by simp)), hadvanced⟩
      · cases traced_raised h
        exact ⟨(fun a h => nomatch h), fun _ _ _ _ h => nomatch h⟩
    · have hrescue : d.rescueConflict logId reply e = .raised e := by
        cases e <;> first | rfl | exact absurd rfl he
      rw [hrescue] at h
      cases traced_raised h
      exact ⟨(fun a h => nomatch h), fun _ _ _ _ h => nomatch h⟩

theorem letterId_eq {raw event : Dict} (hadapt : adaptLegacyEvent raw = .ok event)
    (hid : textOf (event.lookup "event_id") ≠ "") :
    textOf (event.lookup "event_id") = letterId raw := by
  rw [lookup_of_adaptLegacyEvent (by decide) hadapt] at hid ⊢
  rw [letterId, if_neg hid]

theorem claimsId_apply (hadds : d.Adds n) (hd : d.UpsertsBalances) (raw : Dict) :
    ClaimsId P fits (d.apply raw) (letterId raw) (intOf (raw.lookup "id")) := by
  unfold Dialect.apply
  cases hadapt : adaptLegacyEvent raw with
  | error e => exact claimsId_raised e _ _
  | ok event =>
    dsimp only
    by_cases hid : textOf (event.lookup "event_id") = ""
    · rw [if_pos hid]
      exact claimsId_raised _ _ _
    · rw [if_neg hid, letterId_eq hadapt hid, lookup_of_adaptLegacyEvent (by decide) hadapt]
      refine claimsId_transaction (fun rows rows' a h => ?_) fun rows _ h => ?_
      · obtain ⟨hclaimed, hadvanced, -⟩ := run_apply hadds h
        exact ⟨hclaimed, hadvanced⟩
      · rcases conflict_of_claim h with hclaimed | ⟨claimed, -, h⟩
        · exact hclaimed
        · obtain ⟨applied, h⟩ := conflict_after_applyToBalance hd h
          obtain ⟨between, h⟩ := conflict_after_sequence hd (fun st hst => by
            rw [List.mem_singleton.mp hst]
            exact ⟨(fun id h => nomatch h), fun id h => nomatch h⟩) h
          cases h

/-- Every letter is of an id that is claimed. -/
def LettersClaimed (rows : Rows (RowValue V)) : Prop :=
  ∀ id, (payloadAt rows id).isSome → Claimed rows id

theorem claimsId_deadLetter (hd : d.UpsertsBalances) (hP : ∀ rows, P rows → LettersClaimed rows)
    (event : Dict) (error : PyError) (attempts : Int) (now : Datetime) :
    ClaimsId P fits (d.deadLetter event error attempts now) (letterId event)
      (intOf (event.lookup "id")) := by
  unfold Dialect.deadLetter
  by_cases hattempts : attempts < 1
  · rw [if_pos hattempts]
    exact claimsId_raised _ _ _
  · rw [if_neg hattempts]
    refine claimsId_transaction (fun rows rows' a h => ?_) fun rows hrows h => ?_
    · exact run_deadLetter h
    · rcases conflict_of_claim h with hclaimed | ⟨claimed, hframe, h⟩
      · exact hclaimed
      · cases h with
        | refuse hrun =>
          change (if (claimed (.deadLetter (letterId event))).isSome then
            Except.error PyError.integrityError else Except.ok (some _)) = _ at hrun
          split at hrun
          next hsome =>
            rw [hframe _ (by simp)] at hsome
            refine hP rows hrows (letterId event) ?_
            unfold payloadAt
            rw [Option.isSome_map]
            exact hsome
          next => cases hrun
        | idle row hidle => exact absurd (Bool.and_eq_true _ _ ▸ hidle).2 Bool.false_ne_true
        | step hrun _ hnext =>
          obtain ⟨between, h⟩ := conflict_after_sequence hd (fun st hst => by
            rw [List.mem_singleton.mp hst]
            exact ⟨(fun id h => nomatch h), fun id h => nomatch h⟩) hnext
          cases h

/-! ### Every call keeps the claims and the offset -/

/-- Whatever the script commits, the offset does not move back. -/
abbrev KeepsOffset (P : Rows (RowValue V) → Prop) (fits : Finds d.database) (script : d.Script) :
    Prop :=
  Does P fits script fun rows rows' _ => offsetOf rows ≤ offsetOf rows'

theorem keepsOffset_rescueConflict (logId : Int) (reply : Reply) (e : PyError) :
    KeepsOffset P fits (d.rescueConflict logId reply e) := by
  have hadvance : KeepsOffset P fits (d.advance logId reply) :=
    does_transaction (fun rows rows' a _ h => (run_advance h).2.1.le) fun e => does_raised e
  cases e <;> first | exact hadvance | exact does_raised _

theorem keepsOffset_apply (hadds : d.Adds n) (raw : Dict) :
    KeepsOffset P fits (d.apply raw) := by
  unfold Dialect.apply
  split
  next => exact does_raised _
  next event _ =>
    split
    next => exact does_raised _
    next =>
      exact does_transaction (fun rows rows' a _ h => (run_apply hadds h).2.1.le)
        (keepsOffset_rescueConflict _ _)

theorem keepsOffset_deadLetter (event : Dict) (error : PyError) (attempts : Int) (now : Datetime) :
    KeepsOffset P fits (d.deadLetter event error attempts now) := by
  unfold Dialect.deadLetter
  split
  next => exact does_raised _
  next =>
    exact does_transaction (fun rows rows' a _ h => (run_deadLetter h).2.le)
      (keepsOffset_rescueConflict _ _)

theorem does_redriveReturning_offset (hadds : d.Adds n) (id : String) (now : Datetime) :
    Does P fits (d.redriveReturning id now) fun rows rows' _ => offsetOf rows' = offsetOf rows := by
  refine does_transaction (fun rows rows' a _ h => ?_) fun e =>
    does_transaction (fun rows rows' a _ h => ?_) fun e => does_raised e
  · have hreturned : ∀ (letter : Option DeadLetter) (deleted : Rows (RowValue V)),
        Run fits (d.redriveReturned id letter) deleted rows' a → offsetOf rows' = offsetOf deleted := by
      intro letter deleted h
      cases letter with
      | none =>
        cases h
        rfl
      | some letter =>
        unfold Dialect.redriveReturned at h
        dsimp only at h
        split at h
        next => cases h
        next =>
          obtain ⟨applied, -, hoffset, hcommit⟩ := executes_applyToBalance hadds h
          cases hcommit
          exact offsetOf_of_eq hoffset
    cases h with
    | idle row _ _ hnext => exact hreturned row rows hnext
    | step hrun _ hnext =>
      refine (hreturned _ _ hnext).trans (offsetOf_of_eq ?_)
      exact Function.update_of_ne (show RowKey.consumerOffset ≠ .deadLetter id by simp) _ _
  · obtain ⟨between, hsts, hcommit⟩ := run_sequence h
    cases hcommit
    exact offsetOf_of_eq ((executes_updateLetter hsts).1 _ (by simp))

/-- What `apply` reports as applied is its event, under the id of the event. -/
theorem does_apply_event (hadds : d.Adds n) (raw : Dict) :
    Does P fits (d.apply raw) fun _ _ reply => ∀ id event, reply = .applied id event →
      id = letterId raw ∧ adaptLegacyEvent raw = .ok event := by
  unfold Dialect.apply
  cases hadapt : adaptLegacyEvent raw with
  | error e => exact does_raised _
  | ok event =>
    dsimp only
    by_cases hid : textOf (event.lookup "event_id") = ""
    · rw [if_pos hid]
      exact does_raised _
    · rw [if_neg hid, letterId_eq hadapt hid]
      refine does_transaction (fun rows rows' a _ h => ?_) fun e => ?_
      · obtain ⟨-, -, rfl⟩ := run_apply hadds h
        intro id event' heq
        cases heq
        exact ⟨rfl, rfl⟩
      · have hadvance : Does P fits (d.advance (intOf (event.lookup "id")) .duplicate)
            fun _ _ reply => ∀ id event', reply = .applied id event' →
              id = letterId raw ∧ Except.ok event = (.ok event' : Except PyError Dict) := by
          refine does_transaction (fun rows rows' a _ h => ?_) fun e => does_raised e
          obtain ⟨-, -, rfl⟩ := run_advance h
          exact fun _ _ heq => nomatch heq
        cases e <;> first | exact hadvance | exact does_raised _

theorem claimed_of_committed {reply : Reply} (h : Committed n rows rows' reply) {id : String}
    (hid : Claimed rows id) : Claimed rows' id := by
  cases reply with
  | applied eventId event | parked eventId event =>
    unfold Claimed
    rw [h.2.1]
    split
    · rfl
    · exact hid
  | redriven eventId event => exact hid.of_eq (h.2.1 id)
  | duplicate | absorbed | notFound | failedAgain => exact hid.of_eq (h.1 id)

theorem lettersClaimed_of_committed {reply : Reply} (h : Committed n rows rows' reply)
    (hrows : LettersClaimed rows) : LettersClaimed rows' := by
  intro id hid
  cases reply with
  | applied eventId event =>
    rw [h.2.2.1] at hid
    exact claimed_of_committed h (hrows id hid)
  | parked eventId event =>
    rw [h.2.2.1] at hid
    split at hid
    next heq =>
      subst heq
      unfold Claimed
      rw [h.2.1, if_pos rfl]
      rfl
    next => exact claimed_of_committed h (hrows id hid)
  | redriven eventId event =>
    rw [h.2.2.1] at hid
    split at hid
    next => cases hid
    next => exact claimed_of_committed h (hrows id hid)
  | duplicate | absorbed | notFound | failedAgain =>
    rw [h.2.1] at hid
    exact claimed_of_committed h (hrows id hid)

theorem accounted_of_committed {history : List (ι × Reply)} {i : ι} {reply : Reply}
    (h : Committed n rows rows' reply)
    (hrows : ∀ id, Claimed rows id → id ∈ appliedIds history ∨ id ∈ parkedIds history) {id : String}
    (hid : Claimed rows' id) :
    id ∈ appliedIds (history ++ [(i, reply)]) ∨ id ∈ parkedIds (history ++ [(i, reply)]) := by
  rw [appliedIds_concat, parkedIds_concat]
  have hold : Claimed rows id → id ∈ appliedIds history ++ (reply.effect.map Prod.fst).toList ∨
      id ∈ parkedIds history ++ reply.parkedId.toList := fun hclaimed =>
    (hrows id hclaimed).imp (List.mem_append_left _) (List.mem_append_left _)
  cases reply with
  | applied eventId event =>
    unfold Claimed at hid
    rw [h.2.1] at hid
    split at hid
    next heq => exact Or.inl (List.mem_append_right _ (by simp [heq, Reply.effect]))
    next => exact hold hid
  | parked eventId event =>
    unfold Claimed at hid
    rw [h.2.1] at hid
    split at hid
    next heq => exact Or.inr (List.mem_append_right _ (by simp [heq, Reply.parkedId]))
    next => exact hold hid
  | redriven eventId event => exact hold (hid.of_eq (h.2.1 id).symm)
  | duplicate | absorbed | notFound | failedAgain => exact hold (hid.of_eq (h.1 id).symm)

end Cloudscale
