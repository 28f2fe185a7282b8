import Cloudscale.Processes.SqliteConsuming

/-!
# An event that is lost

A fault behind the claim of an attempt leaves the claim pending, and the retry takes the
event for a duplicate.  `retry_loses_event` says when the event is lost: if and only if the
fault did not come with the claim itself.  The committed rows are then those before the
first attempt, but for the offset, and no process will read the event again.

What a move does to the claims, to the batch and to the offset (`Goes`) is found once, from
how calls end; that a claimed event stays claimed and a lost one stays lost follows.
-/

namespace Cloudscale

open Checked Python SqliteInteger Sessions Connections

variable {feed : ConsumerFeed} {T : Type}

namespace SqliteConsumer

/-! ### What a move does -/

/-- The places of the batch that are not over. -/
def left : Task Unit feed.events.length → List feed.Place
  | .attempting place rest _ => place :: rest
  | .parking place rest _ _ => place :: rest
  | .idle | .polling _ | .applying _ _ _ _ | .lettering _ _ _ => []

/-- **What a move does.**  Only events of the batch are claimed, and only events behind the
offset are read. -/
structure Goes (s s' : SqliteConsumer feed T) : Prop where
  claims : ∀ place, Claimed s'.connection.seen (letterId (feed.event place)) →
    Claimed s.connection.seen (letterId (feed.event place)) ∨ place ∈ left s.task
  batch : ∀ place ∈ left s'.task, place ∈ left s.task ∨
    offsetOf s.connection.rows < positionOf (feed.event place)
  keeps : ∀ id, Claimed s.connection.rows id → Claimed s'.connection.rows id
  offset : offsetOf s.connection.rows ≤ offsetOf s'.connection.rows

section Moves

variable {s s' : SqliteConsumer feed T} {place : feed.Place} {rest : List feed.Place}
  {faults : ℕ → Bool} {c : SqliteConnection}

theorem left_over (places : List feed.Place) : left (Task.over places) = places := by
  cases places with
  | nil => rfl
  | cons place rest => rfl

theorem left_failed [AddCommGroup T] [LinearOrder T] (settings : ConsumerSettings T)
    (failures : ℕ) (e : PyError) :
    left (Consumers.failed settings place rest failures e) = place :: rest := by
  unfold Consumers.failed
  split
  · split <;> rfl
  · rfl

/-- The committed rows stay, and the task goes on with the same batch. -/
theorem goes_of_rows (hrows : s'.connection.rows = s.connection.rows)
    (hclaims : ∀ place, Claimed s'.connection.seen (letterId (feed.event place)) →
      Claimed s.connection.seen (letterId (feed.event place)) ∨ place ∈ left s.task)
    (hbatch : ∀ place ∈ left s'.task, place ∈ left s.task ∨
      offsetOf s.connection.rows < positionOf (feed.event place)) : Goes s s' where
  claims := hclaims
  batch := hbatch
  keeps id hid := by
    rw [hrows]
    exact hid
  offset := (congrArg offsetOf hrows).ge

theorem goes_of_connection (hconnection : s'.connection = s.connection)
    (hbatch : ∀ place ∈ left s'.task, place ∈ left s.task ∨
      offsetOf s.connection.rows < positionOf (feed.event place)) : Goes s s' :=
  goes_of_rows (congrArg Connection.rows hconnection)
    (fun place hclaimed => Or.inl (by rw [← hconnection]; exact hclaimed)) hbatch

theorem left_of_over (hleft : left s.task = place :: rest) (htask : s'.task = .over rest) :
    ∀ other ∈ left s'.task, other ∈ left s.task := by
  intro other hmem
  rw [htask, left_over] at hmem
  rw [hleft]
  exact List.mem_cons_of_mem _ hmem

theorem goes_of_advanced (h : Sound s) {logId : Int}
    (hconnection : s'.connection = ⟨advanced logId s.connection.rows, none⟩)
    (hleft : left s.task = place :: rest) (htask : s'.task = .over rest) : Goes s s' := by
  obtain ⟨applied, parked, hbooks⟩ := h.committed.books
  refine ⟨fun other hclaimed => ?_, fun other hmem => Or.inl (left_of_over hleft htask other hmem),
    fun id hid => ?_, ?_⟩
  · rw [hconnection] at hclaimed
    exact Or.inl (h.seen.claims _ (claimed_advanced.mp hclaimed))
  · rw [hconnection]
    exact claimed_advanced.mpr hid
  · rw [hconnection]
    exact (le_max_left _ _).trans_eq (offsetOf_advanced hbooks.hasOffset logId).1.symm

/-- A transaction with a claim of the event in front is committed. -/
theorem goes_of_committed (h : Sound s) {rows : Rows (RowValue SqliteNumber)}
    (hconnection : s'.connection = ⟨rows, none⟩) (hleft : left s.task = place :: rest)
    (htask : s'.task = .over rest)
    (hclaims : ∀ id, Claimed rows id ↔
      id = letterId (feed.event place) ∨ Claimed s.connection.seen id)
    (hoffset : offsetOf s.connection.seen ≤ offsetOf rows) : Goes s s' := by
  refine ⟨fun other hclaimed => ?_, fun other hmem => Or.inl (left_of_over hleft htask other hmem),
    fun id hid => ?_, ?_⟩
  · rw [hconnection] at hclaimed
    rcases (hclaims _).mp hclaimed with heq | hclaimed
    · rw [ConsumerFeed.eq_of_letterId heq, hleft]
      exact Or.inr List.mem_cons_self
    · exact Or.inl hclaimed
  · rw [hconnection]
    exact (hclaims id).mpr (Or.inr (h.seen.claims id hid))
  · rw [hconnection]
    exact h.seen.offset.trans hoffset

theorem goes_returned (h : Sound s) (hleft : left s.task = place :: rest) {reply : Reply}
    (hended : ApplyEnded (feed.current place) faults s.connection (.ok reply) c)
    (hconnection : s'.connection = c) (htask : s'.task = .over rest) : Goes s s' := by
  cases hended with
  | applied hadapt hall =>
    obtain ⟨applied, parked, hbooks⟩ := h.seen.books
    rw [feed.letterId_current place] at hall
    obtain ⟨-, hclaims, -⟩ := claims_of_executeAll (fun _ hst => behindClaim_keys hst) hall
    have hoffset := (offset_of_all hbooks.hasOffset hall).2
    exact goes_of_committed h hconnection hleft htask hclaims
      ((le_max_left _ _).trans_eq hoffset.symm)
  | duplicate hclaimed => exact goes_of_advanced h hconnection hleft htask

theorem goes_raised (h : Sound s) (hleft : left s.task = place :: rest) {e : PyError}
    (hended : ApplyEnded (feed.current place) faults s.connection (.error e) c)
    (hconnection : s'.connection = c) (htask : left s'.task = place :: rest) : Goes s s' := by
  have hbatch : ∀ other ∈ left s'.task, other ∈ left s.task ∨
      offsetOf s.connection.rows < positionOf (feed.event other) := by
    intro other hmem
    rw [htask, ← hleft] at hmem
    exact Or.inl hmem
  cases hended with
  | refused => exact goes_of_connection hconnection hbatch
  | unclaimed hfault hrows hseen =>
    refine goes_of_rows (hconnection ▸ hrows) (fun other hclaimed => Or.inl ?_) hbatch
    rw [hconnection, hseen] at hclaimed
    exact hclaimed
  | claimed done left' hfirst hfault hsts hdone hrows =>
    rw [feed.letterId_current place] at hdone
    obtain ⟨-, hclaims, -⟩ := claims_of_executeAll (behindClaim_keys_of_append hsts) hdone
    refine goes_of_rows (hconnection ▸ hrows) (fun other hclaimed => ?_) hbatch
    rw [hconnection] at hclaimed
    rcases (hclaims _).mp hclaimed with heq | hclaimed
    · rw [ConsumerFeed.eq_of_letterId heq, hleft]
      exact Or.inr List.mem_cons_self
    · exact Or.inl hclaimed
  | unadvanced hclaimed hfault hrows hseen =>
    refine goes_of_rows (hconnection ▸ hrows)
      (fun other hother => Or.inl (h.seen.claims _ ?_)) hbatch
    rcases hseen with hseen | hseen
    · rw [hconnection, hseen] at hother
      exact hother
    · rw [hconnection, hseen] at hother
      exact claimed_advanced.mp hother

theorem goes_restart [AddCommGroup T] (h : Sound s) : Goes s s.restart :=
  goes_of_rows rfl (fun _ hclaimed => Or.inl (h.seen.claims _ hclaimed))
    fun _ hmem => absurd hmem List.not_mem_nil

variable [AddCommGroup T] [LinearOrder T] (settings : ConsumerSettings T)

theorem goes_poll (h : Sound s) (fault : Bool) : Goes s (s.poll settings fault) := by
  have htask := h.task
  unfold poll
  cases htask' : s.task with
  | idle =>
    dsimp only
    split
    · exact goes_restart h
    · exact goes_of_connection rfl fun _ hmem => absurd hmem List.not_mem_nil
  | polling lastId =>
    rw [htask'] at htask
    cases htask
    dsimp only
    split
    · exact goes_restart h
    · refine goes_of_connection rfl fun other hmem => Or.inr ?_
      change other ∈ left (Task.over _) at hmem
      rw [left_over] at hmem
      have hunread := of_decide_eq_true (List.mem_filter.mp (List.mem_of_mem_take hmem)).2
      exact h.seen.offset.trans_lt hunread.2
  | attempting | applying | parking | lettering =>
    exact goes_of_connection rfl fun _ hmem => Or.inl hmem

theorem goes_attempt (h : Sound s) (now later after : T) (faults : ℕ → Bool) :
    Goes s (s.attempt settings now later after faults) := by
  cases htask : s.task with
  | attempting place rest failures =>
    have hleft : left s.task = place :: rest := by
      rw [htask]
      rfl
    have hended := attempt_ended settings htask now later after faults
    revert hended
    generalize s.attempt settings now later after faults = s'
    intro hended
    cases hended with
    | poisoned e =>
      refine goes_of_connection rfl fun other hmem => Or.inl ?_
      rw [hleft]
      exact left_failed settings failures e ▸ hmem
    | refused breaker =>
      exact goes_of_connection rfl fun _ hmem => absurd hmem List.not_mem_nil
    | returned breaker hended => exact goes_returned h hleft hended rfl rfl
    | raised breaker hended =>
      exact goes_raised h hleft hended rfl (left_failed settings failures _)
  | idle | polling | applying | parking | lettering =>
    rw [attempt, htask]
    exact goes_of_connection rfl fun _ hmem => Or.inl hmem

omit [LinearOrder T] in
theorem goes_park (h : Sound s) (now : Datetime) (faults : ℕ → Bool) :
    Goes s (s.park now faults) := by
  unfold park
  cases htask : s.task with
  | parking place rest error attempts =>
    have hleft : left s.task = place :: rest := by
      rw [htask]
      rfl
    have hended := deadLetter_ended faults (feed.event place) error attempts now s.connection
    dsimp only
    revert hended
    generalize s.connection.deadLetter faults (feed.event place) error attempts now = out
    obtain ⟨result, c⟩ := out
    intro hended
    cases hended with
    | parked hall =>
      obtain ⟨applied, parked, hbooks⟩ := h.seen.books
      obtain ⟨-, rfl⟩ := rows_of_letter hall
      exact goes_of_committed h rfl hleft rfl (fun _ => claimed_advanced.trans claimed_lettered)
        ((le_max_left _ _).trans_eq (offset_of_letter hbooks.hasOffset _ _).1.symm)
    | absorbed => exact goes_of_advanced h rfl hleft rfl
    | raised hrows =>
      refine goes_of_rows hrows (fun other hclaimed => Or.inl (h.seen.claims _ ?_))
        fun _ hmem => absurd hmem List.not_mem_nil
      rw [← hrows]
      exact hclaimed
  | idle | polling | attempting | applying | lettering =>
    exact goes_of_connection rfl fun _ hmem => Or.inl hmem

theorem goes_next (h : Sound s) (move : SqliteMove T) : Goes s (s.next settings move) := by
  cases move with
  | relay => exact goes_of_connection rfl fun _ hmem => Or.inl hmem
  | poll fault => exact goes_poll settings h fault
  | attempt now later after faults => exact goes_attempt settings h now later after faults
  | park now faults => exact goes_park h now faults
  | restart => exact goes_restart h

end Moves

/-! ### Lost events -/

/-- **The event is lost**: the offset has passed it, and it is not claimed, on the connection
either, or left in the batch. -/
structure Lost (s : SqliteConsumer feed T) (place : feed.Place) : Prop where
  unclaimed : ¬ Claimed s.connection.seen (letterId (feed.event place))
  notLeft : place ∉ left s.task
  passed : positionOf (feed.event place) ≤ offsetOf s.connection.rows

section Runs

variable {s : SqliteConsumer feed T} {place : feed.Place}

theorem Lost.goes {s' : SqliteConsumer feed T} (h : Lost s place) (hgoes : Goes s s') :
    Lost s' place where
  unclaimed hclaimed := (hgoes.claims place hclaimed).elim h.unclaimed h.notLeft
  notLeft hmem := (hgoes.batch place hmem).elim h.notLeft fun hunread =>
    absurd h.passed (not_le.mpr hunread)
  passed := h.passed.trans hgoes.offset

variable [AddCommGroup T] [LinearOrder T] (settings : ConsumerSettings T)

theorem Lost.run (hsound : Sound s) (h : Lost s place) (moves : List (SqliteMove T)) :
    Sound (Runs.run (next settings) s moves) ∧ Lost (Runs.run (next settings) s moves) place :=
  Runs.run_invariant _ (P := fun s => Sound s ∧ Lost s place)
    (fun _ move h => ⟨sound_next settings h.1 move, h.2.goes (goes_next settings h.1 move)⟩) moves
    ⟨hsound, h⟩

/-- What is claimed stays claimed, and the offset does not move back. -/
theorem later_run (hsound : Sound s) (moves : List (SqliteMove T)) :
    Later s.connection.rows (Runs.run (next settings) s moves).connection.rows :=
  (Runs.run_invariant _ (P := fun s' : SqliteConsumer feed T => Sound s' ∧
    Later s.connection.rows s'.connection.rows)
    (fun _ move h => by
      have hgoes := goes_next settings h.1 move
      exact ⟨sound_next settings h.1 move, h.2.trans ⟨hgoes.keeps, hgoes.offset⟩⟩) moves
    ⟨hsound, .refl _⟩).2

end Runs

/-! ### The retry -/

section Retry

variable {raw : Dict} {faults : ℕ → Bool} {c c' : SqliteConnection}

/-- An attempt on an event that is not claimed, with a fault in one of its statements. -/
theorem apply_faulted (hgate : passesGate raw = true) (hunclaimed : ¬ Claimed c.seen (letterId raw))
    (hfault : ∃ n ≤ (behindClaim raw).length + 1, faults n = true) :
    ∃ c', c.apply faults raw = (.error .operationalError, c') ∧ c'.rows = c.rows ∧
      (faults 0 = true ∧ c'.seen = c.seen ∨
        faults 0 = false ∧ Claimed c'.seen (letterId raw)) := by
  have hended := apply_ended raw faults c
  revert hended
  generalize c.apply faults raw = out
  obtain ⟨result, c'⟩ := out
  intro hended
  cases hended with
  | refused hrefused =>
    rw [hgate] at hrefused
    cases hrefused
  | applied hadapt hall hquiet =>
    obtain ⟨n, hn, hfault⟩ := hfault
    rw [hquiet n hn] at hfault
    cases hfault
  | unclaimed hfirst hrows hseen => exact ⟨c', rfl, hrows, Or.inl ⟨hfirst, hseen⟩⟩
  | claimed done left hfirst hfault' hsts hdone hrows =>
    obtain ⟨-, hclaims, -⟩ := claims_of_executeAll (behindClaim_keys_of_append hsts) hdone
    exact ⟨c', rfl, hrows, Or.inr ⟨hfirst, (hclaims _).mpr (Or.inl rfl)⟩⟩
  | duplicate hclaimed => exact absurd hclaimed hunclaimed
  | unadvanced hclaimed => exact absurd hclaimed hunclaimed

theorem apply_quiet (hgate : passesGate raw = true) (hquiet : ∀ n, faults n = false) :
    ∃ reply rows, c.apply faults raw = (.ok reply, ⟨rows, none⟩) ∧
      (sqliteDialect.database.executeAll (.claim (letterId raw) :: behindClaim raw) c.seen =
          .ok rows ∨
        Claimed c.seen (letterId raw) ∧ rows = advanced (intOf (raw.lookup "id")) c.rows) := by
  have hended := apply_ended raw faults c
  revert hended
  generalize c.apply faults raw = out
  obtain ⟨result, c'⟩ := out
  intro hended
  have hnone : ∀ {n}, faults n = true → False := fun {n} h => by
    rw [hquiet n] at h
    cases h
  cases hended with
  | refused hrefused =>
    rw [hgate] at hrefused
    cases hrefused
  | applied hadapt hall => exact ⟨_, _, rfl, Or.inl hall⟩
  | duplicate hclaimed => exact ⟨_, _, rfl, Or.inr ⟨hclaimed, rfl⟩⟩
  | unclaimed hfirst => exact (hnone hfirst).elim
  | claimed done left hfirst hfault => exact hfault.elim fun _ h => (hnone h).elim
  | unadvanced hclaimed hfault => exact hfault.elim fun _ h => (hnone h).elim

variable {s : SqliteConsumer feed T} {place : feed.Place} {rest : List feed.Place} {failures : ℕ}

/-- The event upcasts to one that passes the gate. -/
def Applicable (feed : ConsumerFeed) (place : feed.Place) : Prop :=
  (upcast currentSchemaVersions registeredSteps (feed.event place)).toOption.any passesGate = true

theorem Applicable.passesGate (h : Applicable feed place) :
    passesGate (feed.current place) = true := by
  unfold Applicable at h
  unfold ConsumerFeed.current
  cases hupcast : upcast currentSchemaVersions registeredSteps (feed.event place) with
  | error e =>
    rw [hupcast] at h
    cases h
  | ok current =>
    rw [hupcast] at h
    exact h

variable [AddCommGroup T] [LinearOrder T] (settings : ConsumerSettings T) {now later : T}
  (after : T)

/-- Where the loop goes on after an attempt. -/
def goesOn (place : feed.Place) (rest : List feed.Place) (failures : ℕ) :
    Except PyError Reply → Task Unit feed.events.length
  | .ok _ => .over rest
  | .error e => Consumers.failed settings place rest failures e

theorem attempt_admitted (htask : s.task = .attempting place rest failures)
    (happlicable : Applicable feed place)
    (hadmits : (s.breaker.admission settings.breaker now later).1.isOk)
    {result : Except PyError Reply}
    (happly : s.connection.apply faults (feed.current place) = (result, c)) :
    (s.attempt settings now later after faults).connection = c ∧
      (s.attempt settings now later after faults).task =
        goesOn settings place rest failures result := by
  unfold attempt
  rw [htask]
  dsimp only
  unfold Applicable at happlicable
  cases hupcast : upcast currentSchemaVersions registeredSteps (feed.event place) with
  | error e =>
    rw [hupcast] at happlicable
    cases happlicable
  | ok current =>
    dsimp only
    rcases hadmission : s.breaker.admission settings.breaker now later with ⟨admitted, b⟩
    rw [hadmission] at hadmits
    cases admitted with
    | error e => cases hadmits
    | ok =>
      dsimp only
      rw [happly]
      cases result with
      | ok reply => exact ⟨rfl, rfl⟩
      | error e => exact ⟨rfl, rfl⟩

end Retry

/-- The offset is advanced past the first event of the batch, which is not claimed. -/
theorem lost_of_advanced {s s' : SqliteConsumer feed T} {place : feed.Place}
    {rest : List feed.Place} {failures : ℕ} (h : Sound s)
    (htask : s.task = .attempting place rest failures)
    (hunclaimed : ¬ Claimed s.connection.seen (letterId (feed.event place)))
    (hconnection : s'.connection =
      ⟨advanced (positionOf (feed.event place)) s.connection.rows, none⟩)
    (htask' : s'.task = .over rest) : Lost s' place := by
  obtain ⟨applied, parked, hbooks⟩ := h.committed.books
  have hbatch := h.task
  rw [htask] at hbatch
  refine ⟨fun hclaimed => ?_, fun hmem => ?_, ?_⟩
  · rw [hconnection] at hclaimed
    exact hunclaimed (h.seen.claims _ (claimed_advanced.mp hclaimed))
  · rw [htask', left_over] at hmem
    exact lt_irrefl _ ((List.pairwise_cons.mp hbatch.sorted).1 place hmem)
  · rw [hconnection]
    exact (le_max_right _ _).trans_eq (offsetOf_advanced hbooks.hasOffset _).1.symm

/-- **When a retry loses its event.**  An attempt on an event that is not claimed meets a
fault, is retried, and the retry meets none.  If the fault came with the claim, the retry
commits all that the event does.  If not, the committed rows are those before the attempt
with the offset advanced, and the event is claimed in no later state of the run. -/
theorem retry_loses_event [AddCommGroup T] [LinearOrder T] (settings : ConsumerSettings T)
    (feed : ConsumerFeed) (moves : List (SqliteMove T)) {s : SqliteConsumer feed T}
    (hs : s = Runs.run (next settings) (start feed) moves) {place : feed.Place}
    {rest : List feed.Place} {failures : ℕ} {now later now' later' : T} (after after' : T)
    {faults : ℕ → Bool}
    (htask : s.task = .attempting place rest failures) (happlicable : Applicable feed place)
    (hunclaimed : ¬ Claimed s.connection.seen (letterId (feed.event place)))
    (hfault : ∃ n ≤ (behindClaim (feed.current place)).length + 1, faults n = true)
    (hretry : failures + 1 < settings.retryPolicy.maxAttempts)
    (hadmits : (s.breaker.admission settings.breaker now later).1.isOk)
    (hadmits' : ((s.attempt settings now later after faults).breaker.admission
      settings.breaker now' later').1.isOk) :
    let retried := (s.attempt settings now later after faults).attempt settings now' later' after'
      fun _ => false
    (faults 0 = true ∧ sqliteDialect.database.executeAll
          (.claim (letterId (feed.event place)) :: behindClaim (feed.current place))
          s.connection.seen = .ok retried.connection.rows ∨
        faults 0 = false ∧ retried.connection.rows =
          advanced (positionOf (feed.event place)) s.connection.rows) ∧
      ∀ more, let s' := Runs.run (next settings) retried more
        (Claimed s'.connection.rows (letterId (feed.event place)) ↔ faults 0 = true) ∧
          positionOf (feed.event place) ≤ offsetOf s'.connection.rows := by
  intro retried
  have hsound : Sound s := hs ▸ sound_run settings feed moves
  have hattempted := sound_attempt settings hsound now later after faults
  have hretried : Sound retried := sound_attempt settings hattempted now' later' after' _
  have hgate := happlicable.passesGate
  have hclaim : ¬ Claimed s.connection.seen (letterId (feed.current place)) := by
    rw [feed.letterId_current place]
    exact hunclaimed
  -- the attempt
  obtain ⟨c, happly, hrows, hleft⟩ := apply_faulted hgate hclaim hfault
  obtain ⟨hconnection, htask'⟩ := attempt_admitted settings after htask happlicable hadmits happly
  replace htask' : (s.attempt settings now later after faults).task =
      .attempting place rest (failures + 1) := by
    rw [htask']
    rw [goesOn, Consumers.failed, if_pos rfl, if_pos hretry]
  -- the retry
  obtain ⟨reply, rows, happly', hcommitted⟩ :=
    @apply_quiet (feed.current place) (fun _ => false) c hgate fun _ => rfl
  rw [← hconnection] at happly'
  obtain ⟨hconnection', htask''⟩ :=
    attempt_admitted settings after' htask' happlicable hadmits' happly'
  obtain ⟨applied, parked, hbooks⟩ := hsound.seen.books
  rcases hleft with ⟨hfirst, hseen⟩ | ⟨hfirst, hseen⟩
  · have hall : sqliteDialect.database.executeAll
        (.claim (letterId (feed.event place)) :: behindClaim (feed.current place))
        s.connection.seen = .ok retried.connection.rows := by
      rw [hseen, feed.letterId_current place] at hcommitted
      rw [show retried.connection.rows = rows from congrArg Connection.rows hconnection']
      exact hcommitted.resolve_right fun h => hunclaimed h.1
    obtain ⟨-, hclaims, -⟩ := claims_of_executeAll (fun _ hst => behindClaim_keys hst) hall
    refine ⟨Or.inl ⟨hfirst, hall⟩, fun more => ?_⟩
    have hlater := later_run settings hretried more
    refine ⟨iff_of_true (hlater.claims _ ((hclaims _).mpr (Or.inl rfl))) hfirst, ?_⟩
    have hoffset := (offset_of_all hbooks.hasOffset hall).2
    exact ((le_max_right _ _).trans_eq hoffset.symm).trans hlater.offset
  · have hadvanced : retried.connection =
        ⟨advanced (positionOf (feed.event place)) s.connection.rows, none⟩ := by
      rcases hcommitted with hall | ⟨-, hrows'⟩
      · exact absurd hseen (claims_of_executeAll (fun _ hst => behindClaim_keys hst) hall).1
      · rw [← feed.positionOf_current place, ← hrows]
        rw [hrows'] at hconnection'
        exact hconnection'
    have hlost := lost_of_advanced hsound htask hunclaimed hadvanced htask''
    refine ⟨Or.inr ⟨hfirst, congrArg Connection.rows hadvanced⟩, fun more => ?_⟩
    obtain ⟨hsound', hlost'⟩ := hlost.run settings hretried more
    refine ⟨iff_of_false (fun hclaimed => hlost'.unclaimed (hsound'.seen.claims _ hclaimed)) ?_,
      hlost'.passed⟩
    rw [hfirst]
    exact Bool.false_ne_true

deriving instance DecidableEq for Task

/-- The fault comes with the first statement behind the claim of a deposit. -/
theorem retry_loses_event_deposit :
    let s := Runs.run (next twoConsumers) (start depositAndMinted)
      [.relay, .relay, .poll false, .poll false]
    let retried := (s.attempt twoConsumers 0 0 0 fun n => n == 1).attempt twoConsumers 0 0 0
      fun _ => false
    ∀ more, ¬ Claimed (Runs.run (next twoConsumers) retried more).connection.rows "a" := by
  intro s retried more
  have hid : letterId (depositAndMinted.event ⟨0, by decide⟩) = "a" := by decide +kernel
  have hloses := @retry_loses_event ℤ _ _ twoConsumers depositAndMinted
    [.relay, .relay, .poll false, .poll false] s rfl ⟨0, by decide⟩ [⟨1, by decide⟩] 0 0 0 0 0 0 0
    (fun n => n == 1) (by decide +kernel) (by unfold Applicable; decide +kernel)
    (by unfold Claimed; decide +kernel) ⟨1, Nat.le_add_left 1 _, rfl⟩ (by decide +kernel)
    (by decide +kernel) (by decide +kernel)
  have hclaimed := (hloses.2 more).1
  rw [hid] at hclaimed
  exact fun h => absurd (hclaimed.mp h) Bool.false_ne_true

end SqliteConsumer

end Cloudscale
