import Cloudscale.Adapters.SqliteConnection
import Cloudscale.Projection.Alone
import Cloudscale.Projection.Claiming
import Cloudscale.Projection.Redrive

/-!
# Calls that a fault interrupts

What `apply` and `dead_letter` leave of the connection of the SQLite store, whatever
statements raise a transient error (`apply_ended`, `deadLetter_ended`).

The statements of an event that passes the gate are known beforehand
(`applyToBalance_statements`), none of them fails, and each changes its own row.  So an
attempt is committed as a whole; or it left the first of its statements pending; or it
found its claim, which another attempt may have left pending, rolled back and advanced the
offset.
-/

namespace Cloudscale

open Checked Python SqliteInteger Sessions Connections

variable {B V : Type} {d : Dialect B V}

/-! ### The statements of an event -/

/-- The statements with the parameters of an event. -/
def ProjectionEffect.statements (effect : ProjectionEffect) (d : Dialect B V) :
    List (ProjectionStatement B) :=
  (d.updateBalance effect.delta effect.heldDelta).map (.balance effect.accountId) ++
    (effect.hold.toList.map .hold ++ effect.transfer.toList.flatMap fun transfer =>
      .upsertTransfer transfer :: .insertLeg transfer ::
        transfer.marksReverted.toList.map (.markReverted · transfer.transferId))

/-- The statements of an event on the read models. -/
def Dialect.statements (d : Dialect B V) (event : Dict) : List (ProjectionStatement B) :=
  match projectionEffect event with
  | .ok (some effect) => effect.statements d
  | _ => []

theorem sequence_append
    {db : Database RowKey (RowValue V) (ProjectionStatement B) PyError (Option RowKey)}
    {α : Type} (sts sts' : List (ProjectionStatement B)) (rest : Program db α) :
    Program.sequence (sts ++ sts') rest = .sequence sts (.sequence sts' rest) := List.foldr_append

theorem applyToBalance_statements {event : Dict} {effect : Option ProjectionEffect}
    (h : projectionEffect event = .ok effect) (rest : d.Program) :
    d.applyToBalance event rest = .sequence (d.statements event) rest := by
  unfold Dialect.statements Dialect.applyToBalance
  rw [h]
  rw [projectionEffect] at h
  cases haccount : textParam (event.lookup "account_id") with
  | none =>
    rw [haccount] at h
    cases h
    rfl
  | some accountId =>
    rw [haccount] at h
    obtain ⟨hold, hhold, h⟩ := bind_eq_ok.mp h
    obtain ⟨transfer, htransfer, h⟩ := bind_eq_ok.mp h
    cases h
    dsimp only
    rw [ProjectionEffect.statements, sequence_append, sequence_append, Dialect.applyToHolds, hhold]
    dsimp only
    rw [Dialect.applyToTransfers, htransfer]
    cases transfer with
    | none => rfl
    | some transfer =>
      dsimp only
      rw [Option.toList_some, List.flatMap_singleton]

theorem projectionEffect_of_adapted {raw event : Dict} (h : adaptLegacyEvent raw = .ok event) :
    ∃ effect, projectionEffect event = .ok effect := by
  rw [adaptLegacyEvent] at h
  split at h
  next hunknown =>
    cases h
    exact projectionEffect_of_unknown hunknown
  next =>
    obtain ⟨domainEvent, -, h⟩ := bind_eq_ok.mp h
    cases h
    exact projectionEffect_of_hasColumns (hasColumns_domainEventToLegacy domainEvent raw)

def RowKey.OfModels : RowKey → Prop
  | .balance _ => True
  | .hold _ => True
  | .transfer _ => True
  | .transferLeg _ _ => True
  | _ => False

theorem ofModels_of_statements {event : Dict} {st : ProjectionStatement B}
    (h : st ∈ d.statements event) : st.key.OfModels := by
  rw [Dialect.statements] at h
  split at h
  next effect _ =>
    simp only [ProjectionEffect.statements, List.mem_append, List.mem_map, List.mem_flatMap,
      List.mem_cons] at h
    rcases h with ⟨_, -, rfl⟩ | ⟨_, -, rfl⟩ | ⟨_, -, rfl | rfl | ⟨_, -, rfl⟩⟩ <;> trivial
  next => cases h

/-- On SQLite no statement on the read models fails, and neither does the offset. -/
theorem sqlite_run_ok {st : ProjectionStatement SqliteBalance}
    (h : st.key.OfModels ∨ st.key = .consumerOffset) (row : Option (RowValue SqliteNumber st.key)) :
    ∃ row', sqliteDialect.database.run st row = .ok row' := by
  have hdatabase : sqliteDialect.database.run st row = st.run sqliteDialect row := rfl
  rw [hdatabase]
  cases st with
  | claim | insertLetter | deleteLetter | updateLetter => rcases h with h | h <;> cases h
  | balance accountId statement => cases statement <;> exact ⟨_, rfl⟩
  | hold statement => cases statement <;> exact ⟨_, rfl⟩
  | advanceOffset | upsertTransfer | insertLeg | markReverted => exact ⟨_, rfl⟩

theorem sqlite_executeAll_ok {sts : List (ProjectionStatement SqliteBalance)}
    (h : ∀ st ∈ sts, st.key.OfModels ∨ st.key = .consumerOffset) :
    ∀ rows, ∃ rows', sqliteDialect.database.executeAll sts rows = .ok rows' := by
  induction sts with
  | nil => exact fun rows => ⟨rows, rfl⟩
  | cons st sts ih =>
    intro rows
    obtain ⟨row, hrun⟩ := sqlite_run_ok (h st List.mem_cons_self) (rows st.key)
    obtain ⟨rows', hall⟩ := ih (fun st' hst => h st' (List.mem_cons_of_mem _ hst))
      (Function.update rows st.key row)
    exact ⟨rows', executeAll_cons_ok.mpr ⟨row, hrun, hall⟩⟩

/-! ### Read models alone -/

def ReadModels.rows {V : Type} (models : ReadModels V) : Rows (RowValue V) :=
  (⟨⟨models, .empty, 0⟩, .empty⟩ : DeadLetterStore V).rows

/-- The statements of an event that passed the gate are `_apply_to_balance`. -/
theorem executeAll_statements {tier : Tier V} (hd : d.Renders tier) {event : Dict}
    {effect : Option ProjectionEffect} (h : projectionEffect event = .ok effect)
    (models : ReadModels V) : d.database.executeAll (d.statements event) models.rows =
      (models.applyToBalance tier event).map ReadModels.rows := by
  have halone := applyToBalance_alone hd (⟨⟨models, .empty, 0⟩, .empty⟩ : DeadLetterStore V) models
    event (.commit Reply.duplicate)
  rw [applyToBalance_statements h, alone_sequence] at halone
  change d.database.executeAll (d.statements event) models.rows >>= _ = _ at halone
  cases hleft : d.database.executeAll (d.statements event) models.rows with
  | error e =>
    rw [hleft] at halone
    cases hright : models.applyToBalance tier event with
    | error e' =>
      rw [hright] at halone
      exact congrArg Except.error (Except.error.inj halone)
    | ok models' =>
      rw [hright] at halone
      cases halone
  | ok rows =>
    rw [hleft] at halone
    cases hright : models.applyToBalance tier event with
    | error e' =>
      rw [hright] at halone
      cases halone
    | ok models' =>
      rw [hright] at halone
      exact congrArg Except.ok (congrArg Prod.snd (Except.ok.inj halone))

/-! ### A transaction that rescues conflicts -/

/-- The rows with the offset advanced to a position. -/
def advanced (logId : Int) (rows : Rows (RowValue V)) : Rows (RowValue V) :=
  Function.update rows .consumerOffset
    (Option.map (fun lastId : Int => (max lastId logId : Int)) (rows .consumerOffset))

/-- One of the statements conflicts when they run one after the other. -/
def Conflicts (sts : List (ProjectionStatement SqliteBalance))
    (rows : Rows (RowValue SqliteNumber)) : Prop :=
  ∃ done st left between, sts = done ++ st :: left ∧
    sqliteDialect.database.executeAll done rows = .ok between ∧
    sqliteDialect.database.run st (between st.key) = .error .integrityError

/-- How a call ends whose conflicts leave the offset to advance. -/
inductive Called (sts : List (ProjectionStatement SqliteBalance)) (logId : Int)
    (reply conflict : Reply) (faults : ℕ → Bool) (c : SqliteConnection) :
    Except PyError Reply → SqliteConnection → Prop
  | committed {rows : Rows (RowValue SqliteNumber)}
      (hall : sqliteDialect.database.executeAll sts c.seen = .ok rows)
      (hquiet : ∀ m ≤ sts.length, faults m = false) :
      Called sts logId reply conflict faults c (.ok reply) ⟨rows, none⟩
  | faulted (done left : List (ProjectionStatement SqliteBalance)) {c' : SqliteConnection}
      (hsts : sts = done ++ left)
      (hdone : sqliteDialect.database.executeAll done c.seen = .ok c'.seen)
      (hrows : c'.rows = c.rows)
      (hfault : faults done.length = true) (hbefore : ∀ m < done.length, faults m = false) :
      Called sts logId reply conflict faults c (.error .operationalError) c'
  | conflicted (hconflict : Conflicts sts c.seen) :
      Called sts logId reply conflict faults c (.ok conflict) ⟨advanced logId c.rows, none⟩
  | interrupted {c' : SqliteConnection} (hconflict : Conflicts sts c.seen)
      (hfault : ∃ n, faults n = true) (hrows : c'.rows = c.rows)
      (hseen : c'.seen = c.rows ∨ c'.seen = advanced logId c.rows) :
      Called sts logId reply conflict faults c (.error .operationalError) c'
  | failed {e : PyError} {st : ProjectionStatement SqliteBalance}
      {row : Option (RowValue SqliteNumber st.key)} {c' : SqliteConnection} (hst : st ∈ sts)
      (hrun : sqliteDialect.database.run st row = .error e) (he : e ≠ .integrityError)
      (hrows : c'.rows = c.rows) : Called sts logId reply conflict faults c (.error e) c'

theorem advance_called {sts : List (ProjectionStatement SqliteBalance)} {reply conflict : Reply}
    {faults : ℕ → Bool} {c c' : SqliteConnection} (logId : Int) (n : ℕ)
    (hconflict : Conflicts sts c.seen) (hrows : c'.rows = c.rows) :
    let out := Connections.run sqliteDialect.database (sqliteConditions faults)
      (sqliteDialect.advance logId conflict) n c'.rollback
    Called sts logId reply conflict faults c out.1 out.2.2 := by
  have hsequenced := execute_sequence sqliteDialect.database (sqliteConditions faults)
    conflict [.advanceOffset logId] n c'.rollback
  dsimp only
  rw [Dialect.advance, Connections.run]
  rcases hexecute : Connections.execute sqliteDialect.database (sqliteConditions faults)
    (.sequence [.advanceOffset logId] (.commit conflict)) n c'.rollback with ⟨result, n', c''⟩
  rw [hexecute] at hsequenced
  cases hsequenced with
  | committed hall =>
    cases hall
    rw [Connection.seen_rollback, hrows]
    exact .conflicted hconflict
  | faulted done left hsts hdone hrows' hfault hbefore =>
    refine .interrupted hconflict ⟨_, hfault⟩ (hrows'.trans hrows) ?_
    rw [Connection.seen_rollback, hrows] at hdone
    cases done with
    | nil => exact Or.inl (Except.ok.inj hdone).symm
    | cons st done =>
      obtain ⟨rfl, hnil⟩ := List.cons.inj hsts
      obtain ⟨rfl, -⟩ := List.append_eq_nil_iff.mp hnil.symm
      exact Or.inr (Except.ok.inj hdone).symm
  | failed done left hsts hdone hrows' hrun =>
    cases done with
    | nil =>
      obtain ⟨rfl, -⟩ := List.cons.inj hsts
      cases hrun
    | cons st done =>
      obtain ⟨-, hnil⟩ := List.cons.inj hsts
      exact absurd hnil.symm (by simp)

theorem call_called (sts : List (ProjectionStatement SqliteBalance)) (logId : Int)
    (reply conflict : Reply) (faults : ℕ → Bool) (c : SqliteConnection) :
    let out := c.call faults (.transaction (.sequence sts (.commit reply))
      (sqliteDialect.rescueConflict logId conflict))
    Called sts logId reply conflict faults c out.1 out.2 := by
  have hsequenced := execute_sequence sqliteDialect.database (sqliteConditions faults)
    reply sts 0 c
  dsimp only
  rw [SqliteConnection.call, Connections.run]
  rcases hexecute : Connections.execute sqliteDialect.database (sqliteConditions faults)
    (.sequence sts (.commit reply)) 0 c with ⟨result, n', c'⟩
  rw [hexecute] at hsequenced
  cases hsequenced with
  | committed hall hquiet =>
    refine .committed hall fun m hm => ?_
    have h := hquiet m hm
    rwa [Nat.zero_add] at h
  | faulted done left hsts hdone hrows hfault hbefore =>
    rw [Nat.zero_add] at hfault
    refine .faulted done left hsts hdone hrows hfault fun m hm => ?_
    have h := hbefore m hm
    rwa [Nat.zero_add] at h
  | @failed done left st e _ hsts hdone hrows hrun =>
    by_cases he : e = .integrityError
    · subst he
      exact advance_called logId n' ⟨done, st, left, _, hsts, hdone, hrun⟩ hrows
    · have hrescued : (sqliteConditions faults).rescued e = false := by
        show (e == PyError.integrityError) = false
        exact beq_eq_false_iff_ne.mpr he
      dsimp only
      rw [hrescued]
      exact .failed (by rw [hsts]; simp) hrun he hrows

/-! ### Calls -/

theorem run_claim {id : String} {row : Option (RowValue SqliteNumber (.processedEvent id))}
    {e : PyError} (h : sqliteDialect.database.run (.claim id) row = .error e) :
    row.isSome ∧ e = .integrityError := by
  change (if row.isSome then Except.error PyError.integrityError else Except.ok (some ())) = _ at h
  split at h
  next hsome =>
    cases h
    exact ⟨hsome, rfl⟩
  next => cases h

theorem run_insertLetter {id : String} {letter : DeadLetter}
    {row : Option (RowValue SqliteNumber (.deadLetter id))} {e : PyError}
    (h : sqliteDialect.database.run (.insertLetter id letter) row = .error e) : row.isSome := by
  change (if row.isSome then Except.error PyError.integrityError
    else Except.ok (some letter)) = _ at h
  split at h
  next hsome => exact hsome
  next => cases h

theorem claimed_of_conflicts {id : String} {sts : List (ProjectionStatement SqliteBalance)}
    {rows : Rows (RowValue SqliteNumber)}
    (hsts : ∀ st ∈ sts, st.key.OfModels ∨ st.key = .consumerOffset)
    (h : Conflicts (.claim id :: sts) rows) : Claimed rows id := by
  obtain ⟨done, st, left, between, heq, hdone, hrun⟩ := h
  cases done with
  | nil =>
    obtain ⟨rfl, -⟩ := List.cons.inj heq
    cases hdone
    exact (run_claim hrun).1
  | cons first done =>
    obtain ⟨-, heq⟩ := List.cons.inj heq
    obtain ⟨row, hok⟩ := sqlite_run_ok (hsts st (by rw [heq]; simp)) (between st.key)
    rw [hok] at hrun
    cases hrun

/-- The statements of a stored event on the read models, when it passes the gate. -/
def gatedStatements (raw : Dict) : List (ProjectionStatement SqliteBalance) :=
  (adaptLegacyEvent raw).toOption.elim [] sqliteDialect.statements

theorem gatedStatements_keys {raw : Dict} {st : ProjectionStatement SqliteBalance}
    (h : st ∈ gatedStatements raw) : st.key.OfModels := by
  rw [gatedStatements] at h
  cases hadapt : adaptLegacyEvent raw with
  | error e =>
    rw [hadapt] at h
    cases h
  | ok event =>
    rw [hadapt] at h
    exact ofModels_of_statements h

/-- What `apply` executes behind its claim. -/
def behindClaim (raw : Dict) : List (ProjectionStatement SqliteBalance) :=
  gatedStatements raw ++ [.advanceOffset (intOf (raw.lookup "id"))]

theorem behindClaim_keys {raw : Dict} {st : ProjectionStatement SqliteBalance}
    (h : st ∈ behindClaim raw) : st.key.OfModels ∨ st.key = .consumerOffset := by
  rcases List.mem_append.mp h with h | h
  · exact Or.inl (gatedStatements_keys h)
  · rw [List.mem_singleton.mp h]
    exact Or.inr rfl

theorem behindClaim_keys_of_append {raw : Dict}
    {done left : List (ProjectionStatement SqliteBalance)}
    (hsts : behindClaim raw = done ++ left) :
    ∀ st ∈ done, st.key.OfModels ∨ st.key = .consumerOffset := by
  intro st hst
  refine @behindClaim_keys raw st ?_
  rw [hsts]
  exact List.mem_append_left _ hst

/-- The event passes the gate and has an id. -/
def passesGate (raw : Dict) : Bool :=
  (adaptLegacyEvent raw).toOption.any fun event => decide (textOf (event.lookup "event_id") ≠ "")

/-- How a call of `apply` ends. -/
inductive ApplyEnded (raw : Dict) (faults : ℕ → Bool) (c : SqliteConnection) :
    Except PyError Reply → SqliteConnection → Prop
  /-- The event does not pass the gate. -/
  | refused {e : PyError} (hgate : passesGate raw = false) : ApplyEnded raw faults c (.error e) c
  | applied {event : Dict} {rows : Rows (RowValue SqliteNumber)}
      (hadapt : adaptLegacyEvent raw = .ok event)
      (hall : sqliteDialect.database.executeAll (.claim (letterId raw) :: behindClaim raw) c.seen =
        .ok rows)
      (hquiet : ∀ m ≤ (behindClaim raw).length + 1, faults m = false) :
      ApplyEnded raw faults c (.ok (.applied (letterId raw) event)) ⟨rows, none⟩
  /-- The first statement raised the fault. -/
  | unclaimed {c' : SqliteConnection} (hfault : faults 0 = true) (hrows : c'.rows = c.rows)
      (hseen : c'.seen = c.seen) : ApplyEnded raw faults c (.error .operationalError) c'
  /-- A statement behind the claim did, or the commit. -/
  | claimed (done left : List (ProjectionStatement SqliteBalance)) {c' : SqliteConnection}
      (hfirst : faults 0 = false) (hfault : ∃ n, faults n = true)
      (hsts : behindClaim raw = done ++ left)
      (hdone : sqliteDialect.database.executeAll (.claim (letterId raw) :: done) c.seen =
        .ok c'.seen) (hrows : c'.rows = c.rows) :
      ApplyEnded raw faults c (.error .operationalError) c'
  /-- The claim was there, and the offset is advanced. -/
  | duplicate (hclaimed : Claimed c.seen (letterId raw)) :
      ApplyEnded raw faults c (.ok .duplicate) ⟨advanced (intOf (raw.lookup "id")) c.rows, none⟩
  /-- The claim was there, and advancing the offset raised the fault. -/
  | unadvanced {c' : SqliteConnection} (hclaimed : Claimed c.seen (letterId raw))
      (hfault : ∃ n, faults n = true) (hrows : c'.rows = c.rows)
      (hseen : c'.seen = c.rows ∨ c'.seen = advanced (intOf (raw.lookup "id")) c.rows) :
      ApplyEnded raw faults c (.error .operationalError) c'

/-- **What a call of `apply` leaves.** -/
theorem apply_ended (raw : Dict) (faults : ℕ → Bool) (c : SqliteConnection) :
    ApplyEnded raw faults c (c.apply faults raw).1 (c.apply faults raw).2 := by
  rw [SqliteConnection.apply, Dialect.apply]
  cases hadapt : adaptLegacyEvent raw with
  | error e =>
    refine .refused ?_
    rw [passesGate, hadapt]
    rfl
  | ok event =>
    dsimp only
    by_cases hid : textOf (event.lookup "event_id") = ""
    · rw [if_pos hid]
      refine .refused ?_
      rw [passesGate, hadapt]
      exact decide_eq_false (not_not.mpr hid)
    rw [if_neg hid, letterId_eq hadapt hid, lookup_of_adaptLegacyEvent (by decide) hadapt]
    obtain ⟨effect, heffect⟩ := projectionEffect_of_adapted hadapt
    have hgated : gatedStatements raw = sqliteDialect.statements event := by
      rw [gatedStatements, hadapt]
      rfl
    have hbody : Program.sequence [.claim (letterId raw)] (sqliteDialect.applyToBalance event
        (.sequence [.advanceOffset (intOf (raw.lookup "id"))]
          (.commit (.applied (letterId raw) event)))) =
        .sequence (.claim (letterId raw) :: behindClaim raw)
          (.commit (.applied (letterId raw) event)) := by
      rw [applyToBalance_statements heffect, ← hgated, behindClaim]
      exact congrArg (Program.sequence [.claim (letterId raw)]) (sequence_append _ _ _).symm
    rw [hbody]
    have hcalled := call_called (.claim (letterId raw) :: behindClaim raw) (intOf (raw.lookup "id"))
      (.applied (letterId raw) event) .duplicate faults c
    revert hcalled
    generalize c.call faults _ = out
    obtain ⟨result, c'⟩ := out
    intro hcalled
    cases hcalled with
    | committed hall hquiet => exact .applied hadapt hall hquiet
    | faulted done left hsts hdone hrows hfault hbefore =>
      cases done with
      | nil => exact .unclaimed hfault hrows (Except.ok.inj hdone).symm
      | cons st done =>
        obtain ⟨rfl, hbehind⟩ := List.cons.inj hsts
        exact .claimed done left (hbefore 0 (Nat.succ_pos _)) ⟨_, hfault⟩ hbehind hdone hrows
    | conflicted hconflict =>
      exact .duplicate (claimed_of_conflicts (fun _ hst => behindClaim_keys hst) hconflict)
    | interrupted hconflict hfault hrows hseen =>
      exact .unadvanced (claimed_of_conflicts (fun _ hst => behindClaim_keys hst) hconflict) hfault
        hrows hseen
    | failed hst hrun he =>
      rcases List.mem_cons.mp hst with rfl | hst
      · exact absurd (run_claim hrun).2 he
      · obtain ⟨row, hok⟩ := sqlite_run_ok (behindClaim_keys hst) _
        rw [hok] at hrun
        cases hrun

/-- How a call of `dead_letter` ends. -/
inductive DeadLetterEnded (event : Dict) (error : PyError) (attempts : Int) (now : Datetime)
    (c : SqliteConnection) : Except PyError Reply → SqliteConnection → Prop
  | parked {rows : Rows (RowValue SqliteNumber)}
      (hall : sqliteDialect.database.executeAll [.claim (letterId event),
        .insertLetter (letterId event) ⟨intOf (event.lookup "id"), event, error, attempts, now⟩,
        .advanceOffset (intOf (event.lookup "id"))] c.seen = .ok rows) :
      DeadLetterEnded event error attempts now c (.ok (.parked (letterId event) event)) ⟨rows, none⟩
  /-- The event was claimed, or it has a letter. -/
  | absorbed (hthere : Claimed c.seen (letterId event) ∨
      (c.seen (.deadLetter (letterId event))).isSome) :
      DeadLetterEnded event error attempts now c (.ok .absorbed)
        ⟨advanced (intOf (event.lookup "id")) c.rows, none⟩
  | raised {e : PyError} {c' : SqliteConnection} (hrows : c'.rows = c.rows) :
      DeadLetterEnded event error attempts now c (.error e) c'

/-- **What a call of `dead_letter` leaves.** -/
theorem deadLetter_ended (faults : ℕ → Bool) (event : Dict) (error : PyError) (attempts : Int)
    (now : Datetime) (c : SqliteConnection) :
    DeadLetterEnded event error attempts now c (c.deadLetter faults event error attempts now).1
      (c.deadLetter faults event error attempts now).2 := by
  rw [SqliteConnection.deadLetter, Dialect.deadLetter]
  by_cases hattempts : attempts < 1
  · rw [if_pos hattempts]
    exact .raised rfl
  rw [if_neg hattempts]
  dsimp only
  have hcalled := call_called [.claim (letterId event),
    .insertLetter (letterId event) ⟨intOf (event.lookup "id"), event, error, attempts, now⟩,
    .advanceOffset (intOf (event.lookup "id"))] (intOf (event.lookup "id"))
    (.parked (letterId event) event) .absorbed faults c
  revert hcalled
  generalize c.call faults _ = out
  obtain ⟨result, c'⟩ := out
  intro hcalled
  cases hcalled with
  | committed hall _ => exact .parked hall
  | faulted done left hsts hdone hrows => exact .raised hrows
  | interrupted _ _ hrows => exact .raised hrows
  | failed _ _ _ hrows => exact .raised hrows
  | conflicted hconflict =>
    refine .absorbed ?_
    obtain ⟨done, st, left, between, hsts, hdone, hrun⟩ := hconflict
    cases done with
    | nil =>
      obtain ⟨rfl, -⟩ := List.cons.inj hsts
      cases hdone
      exact Or.inl (run_claim hrun).1
    | cons first done =>
      obtain ⟨rfl, hothers⟩ := List.cons.inj hsts
      cases done with
      | nil =>
        obtain ⟨rfl, -⟩ := List.cons.inj hothers
        have hsame : between (.deadLetter (letterId event)) =
            c.seen (.deadLetter (letterId event)) :=
          executeAll_frame hdone fun st hst => by
            rw [List.mem_singleton.mp hst]
            exact fun h => nomatch h
        refine Or.inr ?_
        rw [← hsame]
        exact run_insertLetter hrun
      | cons second done =>
        obtain ⟨-, hlast⟩ := List.cons.inj hothers
        cases done with
        | nil =>
          obtain ⟨rfl, -⟩ := List.cons.inj hlast
          cases hrun
        | cons third done =>
          obtain ⟨-, hnil⟩ := List.cons.inj hlast
          exact absurd hnil (by simp)

end Cloudscale
