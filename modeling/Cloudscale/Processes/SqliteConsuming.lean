import Cloudscale.Processes.SqliteBooks

/-!
# What faults cost the consumer on SQLite

An event is hit when an attempt on it raises and leaves its claim pending.  The next
attempt finds the claim, takes the event for a duplicate, rolls back and moves on.

`sqlite_consumer_accounts` says that nothing else is lost: in every run the committed rows
have applied the events of a list once each and in their order, and parked those of another;
every event that the offset has passed is in one of the lists, or was hit; and a row of the
read models on which no event was hit is the row that the applied events leave.
-/

namespace Cloudscale

open Checked Python SqliteInteger Sessions Connections

variable {feed : ConsumerFeed} {T : Type}

namespace SqliteConsumer

/-! ### Batches -/

/-- **What is left of a batch**: events in their order, none of them behind the offset.  An
event before one of them is done, or left as well. -/
structure Batch (hit : List feed.Place) (base rows : Rows (RowValue SqliteNumber))
    (places : List feed.Place) : Prop where
  sorted : places.Pairwise (· < ·)
  ahead : ∀ place ∈ places, offsetOf rows ≤ positionOf (feed.event place)
  turn : ∀ place ∈ places, ∀ earlier < place, Done hit base earlier ∨ earlier ∈ places

/-- What the loop relies on.  No call is under way between two moves. -/
def TaskSound (hit : List feed.Place) (base rows : Rows (RowValue SqliteNumber)) :
    Task Unit feed.events.length → Prop
  | .polling lastId => lastId = offsetOf rows
  | .attempting place rest _ => Batch hit base rows (place :: rest)
  | .parking place rest _ _ => Batch hit base rows (place :: rest)
  | .idle | .applying _ _ _ _ | .lettering _ _ _ => True

section Batches

variable {hit hit' : List feed.Place} {base rows rows' : Rows (RowValue SqliteNumber)}
  {place : feed.Place} {rest : List feed.Place}

theorem Batch.head (h : Batch hit base rows (place :: rest)) :
    ∀ earlier < place, Done hit base earlier := by
  intro earlier hearlier
  refine (h.turn place List.mem_cons_self earlier hearlier).resolve_right fun hmem => ?_
  rcases List.mem_cons.mp hmem with rfl | hmem
  · exact lt_irrefl _ hearlier
  · exact lt_asymm hearlier ((List.pairwise_cons.mp h.sorted).1 earlier hmem)

theorem Batch.stay (h : Batch hit base rows (place :: rest)) (hsubset : hit ⊆ hit')
    (hoffset : offsetOf rows' ≤ positionOf (feed.event place)) :
    Batch hit' base rows' (place :: rest) := by
  refine ⟨h.sorted, fun other hmem => ?_, fun other hmem earlier hearlier =>
    (h.turn other hmem earlier hearlier).imp_left fun hdone => hdone.mono hsubset⟩
  rcases List.mem_cons.mp hmem with rfl | hmem
  · exact hoffset
  · have hlt := feed.positionOf_lt_iff.mpr ((List.pairwise_cons.mp h.sorted).1 other hmem)
    exact hoffset.trans hlt.le

theorem Batch.tail (h : Batch hit base rows (place :: rest))
    (hpassed : Passed hit base rows' place) : Batch hit rows' rows' rest := by
  refine ⟨(List.pairwise_cons.mp h.sorted).2, fun other hmem => ?_,
    fun other hmem earlier hearlier => ?_⟩
  · have hlt := feed.positionOf_lt_iff.mpr ((List.pairwise_cons.mp h.sorted).1 other hmem)
    exact hpassed.offset.trans hlt.le
  · rcases h.turn other (List.mem_cons_of_mem _ hmem) earlier hearlier with hdone | hmem
    · exact Or.inl (hpassed.done earlier (Or.inl hdone))
    · rcases List.mem_cons.mp hmem with rfl | hmem
      · exact Or.inl (hpassed.done earlier (Or.inr rfl))
      · exact Or.inr hmem

theorem batch_readAll [AddCommGroup T] [LinearOrder T] (settings : ConsumerSettings T)
    (s : SqliteConsumer feed T)
    (h : ∀ place, positionOf (feed.event place) ≤ offsetOf rows → Done hit base place) :
    Batch hit base rows (s.readAll settings (offsetOf rows)) := by
  unfold readAll
  set unread := (List.finRange feed.events.length).filter fun place =>
    decide (place.val < s.visible ∧ offsetOf rows < positionOf (feed.event place)) with hunread
  have hsorted : unread.Pairwise (· < ·) := (List.pairwise_lt_finRange _).filter _
  have hmem_iff : ∀ place, place ∈ unread ↔
      place.val < s.visible ∧ offsetOf rows < positionOf (feed.event place) := by
    intro place
    rw [hunread, List.mem_filter, decide_eq_true_iff]
    exact and_iff_right (List.mem_finRange _)
  refine ⟨hsorted.sublist (List.take_sublist _ _), fun place hmem =>
    ((hmem_iff place).mp (List.mem_of_mem_take hmem)).2.le, fun place hmem earlier hearlier => ?_⟩
  by_cases hbehind : positionOf (feed.event earlier) ≤ offsetOf rows
  · exact Or.inl (h earlier hbehind)
  · have hplace := (hmem_iff place).mp (List.mem_of_mem_take hmem)
    have hearlier' := (hmem_iff earlier).mpr
      ⟨lt_trans (Fin.lt_def.mp hearlier) hplace.1, not_le.mp hbehind⟩
    rw [← List.take_append_drop settings.batch unread] at hearlier' hsorted
    rcases List.mem_append.mp hearlier' with htaken | hdropped
    · exact Or.inr htaken
    · have hless := (List.pairwise_append.mp hsorted).2.2 place hmem earlier hdropped
      exact absurd hless (lt_asymm hearlier)

theorem taskSound_over {places : List feed.Place} (h : Batch hit base rows places) :
    TaskSound hit base rows (Task.over places) := by
  cases places with
  | nil => trivial
  | cons place rest => exact h

theorem taskSound_failed [AddCommGroup T] [LinearOrder T] (settings : ConsumerSettings T)
    (failures : ℕ) (e : PyError) (h : Batch hit base rows (place :: rest)) :
    TaskSound hit base rows (Consumers.failed settings place rest failures e) := by
  unfold Consumers.failed
  split
  · split
    · exact h
    · exact h
  · exact h

end Batches

/-! ### Attempts of the loop -/

section Attempts

variable [AddCommGroup T] [LinearOrder T] (settings : ConsumerSettings T)
  {s : SqliteConsumer feed T} {place : feed.Place} {rest : List feed.Place} {failures : ℕ}

inductive AttemptEnded (s : SqliteConsumer feed T) (place : feed.Place) (rest : List feed.Place)
    (failures : ℕ) (faults : ℕ → Bool) : SqliteConsumer feed T → Prop
  /-- The event does not upcast. -/
  | poisoned (e : PyError) : AttemptEnded s place rest failures faults
      { s with task := Consumers.failed settings place rest failures e }
  /-- The breaker does not admit the attempt. -/
  | refused (breaker : CircuitBreaker T) : AttemptEnded s place rest failures faults
      { s with breaker := breaker, task := .idle }
  | returned {reply : Reply} {c : SqliteConnection} (breaker : CircuitBreaker T)
      (hended : ApplyEnded (feed.current place) faults s.connection (.ok reply) c) :
      AttemptEnded s place rest failures faults
        { s with connection := c, breaker := breaker, task := .over rest }
  | raised {e : PyError} {c : SqliteConnection} (breaker : CircuitBreaker T)
      (hended : ApplyEnded (feed.current place) faults s.connection (.error e) c) :
      AttemptEnded s place rest failures faults
        { s with
          connection := c
          breaker := breaker
          task := Consumers.failed settings place rest failures e
          hit := if leftClaim c place then place :: s.hit else s.hit }

theorem attempt_ended (htask : s.task = .attempting place rest failures) (now later after : T)
    (faults : ℕ → Bool) : AttemptEnded settings s place rest failures faults
      (s.attempt settings now later after faults) := by
  unfold attempt
  rw [htask]
  dsimp only
  split
  next e _ => exact .poisoned e
  next =>
    split
    next b _ => exact .refused b
    next b _ =>
      have hended := apply_ended (feed.current place) faults s.connection
      revert hended
      generalize s.connection.apply faults (feed.current place) = out
      obtain ⟨result, c⟩ := out
      intro hended
      cases result with
      | ok reply => exact .returned _ hended
      | error e => exact .raised _ hended

end Attempts

/-! ### Steps -/

/-- **The invariant of a run.** -/
structure Sound (s : SqliteConsumer feed T) : Prop where
  committed : Kept s.hit s.connection.rows s.connection.rows
  seen : Kept s.hit s.connection.rows s.connection.seen
  task : TaskSound s.hit s.connection.rows s.connection.seen s.task

section Steps

variable {s : SqliteConsumer feed T} {place : feed.Place} {rest : List feed.Place}
  {faults : ℕ → Bool} {c : SqliteConnection}

theorem sound_over {rows : Rows (RowValue SqliteNumber)}
    (hbatch : Batch s.hit s.connection.rows s.connection.seen (place :: rest))
    (hpassed : Passed s.hit s.connection.rows rows place) (breaker : CircuitBreaker T) :
    Sound { s with connection := ⟨rows, none⟩, breaker := breaker, task := .over rest } :=
  ⟨hpassed.kept, hpassed.kept, taskSound_over (hbatch.tail hpassed)⟩

theorem sound_returned (h : Sound s)
    (hbatch : Batch s.hit s.connection.rows s.connection.seen (place :: rest)) {reply : Reply}
    (hended : ApplyEnded (feed.current place) faults s.connection (.ok reply) c)
    (breaker : CircuitBreaker T) :
    Sound { s with connection := c, breaker := breaker, task := .over rest } := by
  have hahead := hbatch.ahead place List.mem_cons_self
  cases hended with
  | applied hadapt hall =>
    rw [feed.letterId_current place] at hall
    exact sound_over hbatch (h.seen.apply hbatch.head hahead hall) _
  | duplicate hclaimed =>
    rw [feed.letterId_current place] at hclaimed
    have hpassed := h.committed.pass hbatch.head (h.seen.claimed place hclaimed)
      (h.seen.offset.trans hahead)
    rw [← feed.positionOf_current place] at hpassed
    exact sound_over hbatch hpassed _

theorem committed_of_rows (h : Sound s) {hit' : List feed.Place} (hsubset : s.hit ⊆ hit')
    {c : SqliteConnection} (hrows : c.rows = s.connection.rows) : Kept hit' c.rows c.rows := by
  rw [hrows]
  exact h.committed.mono hsubset

variable [AddCommGroup T]

theorem sound_restart (h : Kept s.hit s.connection.rows s.connection.rows) : Sound s.restart :=
  ⟨h, h, trivial⟩

variable [LinearOrder T] (settings : ConsumerSettings T)

/-- An attempt has raised, and the event is tried again or parked. -/
theorem sound_failed (h : Sound s) {hit' : List feed.Place} (hsubset : s.hit ⊆ hit')
    {c : SqliteConnection} (hrows : c.rows = s.connection.rows)
    (hseen : Kept hit' s.connection.rows c.seen)
    (hbatch : Batch s.hit s.connection.rows s.connection.seen (place :: rest))
    (hoffset : offsetOf c.seen ≤ positionOf (feed.event place)) (breaker : CircuitBreaker T)
    (failures : ℕ) (e : PyError) :
    Sound { s with
      connection := c
      breaker := breaker
      task := Consumers.failed settings place rest failures e
      hit := hit' } := by
  refine ⟨committed_of_rows h hsubset hrows, ?_, taskSound_failed settings failures e ?_⟩
  · show Kept hit' c.rows c.seen
    rw [hrows]
    exact hseen
  · show Batch hit' c.rows c.seen (place :: rest)
    rw [hrows]
    exact hbatch.stay hsubset hoffset

theorem sound_poll (h : Sound s) (fault : Bool) : Sound (s.poll settings fault) := by
  have htask := h.task
  unfold poll
  cases htask' : s.task with
  | idle =>
    dsimp only
    split
    · exact sound_restart h.committed
    · exact ⟨h.committed, h.seen, rfl⟩
  | polling lastId =>
    rw [htask'] at htask
    cases htask
    dsimp only
    split
    · exact sound_restart h.committed
    · exact ⟨h.committed, h.seen, taskSound_over (batch_readAll settings s h.seen.passed)⟩
  | attempting | applying | parking | lettering => exact h

/-- **The call of an attempt has raised**, whichever of its statements faulted. -/
theorem sound_raised (h : Sound s)
    (hbatch : Batch s.hit s.connection.rows s.connection.seen (place :: rest)) {e : PyError}
    (hended : ApplyEnded (feed.current place) faults s.connection (.error e) c)
    (breaker : CircuitBreaker T) (failures : ℕ) :
    Sound { s with
      connection := c
      breaker := breaker
      task := Consumers.failed settings place rest failures e
      hit := if leftClaim c place then place :: s.hit else s.hit } := by
  have hahead := hbatch.ahead place List.mem_cons_self
  have hsubset : s.hit ⊆ if leftClaim c place then place :: s.hit else s.hit := by
    split
    · exact List.subset_cons_self _ _
    · exact List.Subset.refl _
  cases hended with
  | refused =>
    exact sound_failed settings h hsubset rfl (h.seen.mono hsubset) hbatch hahead _ _ _
  | unclaimed hfault hrows hseen =>
    refine sound_failed settings h hsubset hrows ?_ hbatch (hseen ▸ hahead) _ _ _
    rw [hseen]
    exact h.seen.mono hsubset
  | claimed done left hfirst hfault hsts hdone hrows =>
    rw [feed.letterId_current place] at hdone
    obtain ⟨hkept, hadvanced, hclaimed, hunclaimed⟩ := h.seen.interrupt hbatch.head hsts hdone
    have hleft : leftClaim c place = true := by
      rw [leftClaim, Bool.and_eq_true]
      refine ⟨hclaimed, ?_⟩
      rw [hrows]
      exact Option.isNone_iff_eq_none.mpr (Option.not_isSome_iff_eq_none.mp hunclaimed)
    rw [if_pos hleft]
    refine sound_failed settings h (List.subset_cons_self _ _) hrows hkept hbatch ?_ _ _ _
    rcases hadvanced with hsame | hmax
    · exact hsame.le.trans hahead
    · exact hmax.le.trans (max_le hahead le_rfl)
  | unadvanced hclaimed hfault hrows hseen =>
    rw [feed.letterId_current place] at hclaimed
    have hadvance := h.committed.advance hbatch.head (h.seen.claimed place hclaimed)
    have hbehind := h.seen.offset.trans hahead
    rcases hseen with hseen | hseen
    · refine sound_failed settings h hsubset hrows ?_ hbatch (hseen ▸ hbehind) _ _ _
      rw [hseen]
      exact h.committed.mono hsubset
    · have hposition : c.seen = advanced (positionOf (feed.event place)) s.connection.rows := by
        rw [hseen, ← feed.positionOf_current place]
        rfl
      refine sound_failed settings h hsubset hrows ?_ hbatch ?_ _ _ _
      · rw [hposition]
        exact hadvance.mono hsubset
      · rw [hposition]
        exact h.committed.offset_advanced_le hbehind

theorem sound_attempt (h : Sound s) (now later after : T) (faults : ℕ → Bool) :
    Sound (s.attempt settings now later after faults) := by
  have hbatch := h.task
  cases htask : s.task with
  | attempting place rest failures =>
    rw [htask] at hbatch
    have hended := attempt_ended settings htask now later after faults
    revert hended
    generalize s.attempt settings now later after faults = s'
    intro hended
    cases hended with
    | poisoned e => exact ⟨h.committed, h.seen, taskSound_failed settings failures e hbatch⟩
    | refused breaker => exact ⟨h.committed, h.seen, trivial⟩
    | returned breaker hended => exact sound_returned h hbatch hended breaker
    | raised breaker hended => exact sound_raised settings h hbatch hended breaker failures
  | idle | polling | applying | parking | lettering =>
    rw [attempt, htask]
    exact h

omit [LinearOrder T] in
theorem sound_park (h : Sound s) (now : Datetime) (faults : ℕ → Bool) :
    Sound (s.park now faults) := by
  have htask := h.task
  unfold park
  cases htask' : s.task with
  | parking place rest error attempts =>
    rw [htask'] at htask
    have hahead := htask.ahead place List.mem_cons_self
    have hended := deadLetter_ended faults (feed.event place) error attempts now s.connection
    dsimp only
    revert hended
    generalize s.connection.deadLetter faults (feed.event place) error attempts now = out
    obtain ⟨result, c⟩ := out
    intro hended
    cases hended with
    | parked hall => exact sound_over htask (h.seen.park htask.head hahead rfl hall) _
    | absorbed hthere =>
      have hclaimed : Claimed s.connection.seen (letterId (feed.event place)) :=
        hthere.elim id h.seen.claimed_of_letter
      exact sound_over htask
        (h.committed.pass htask.head (h.seen.claimed place hclaimed) (h.seen.offset.trans hahead)) _
    | raised hrows => exact sound_restart (committed_of_rows h (List.Subset.refl _) hrows)
  | idle | polling | attempting | applying | lettering => exact h

/-- **Every move keeps the invariant.** -/
theorem sound_next (h : Sound s) (move : SqliteMove T) : Sound (s.next settings move) := by
  cases move with
  | relay => exact ⟨h.committed, h.seen, h.task⟩
  | poll fault => exact sound_poll settings h fault
  | attempt now later after faults => exact sound_attempt settings h now later after faults
  | park now faults => exact sound_park h now faults
  | restart => exact sound_restart h.committed

end Steps

/-! ### Runs -/

theorem books_start (feed : ConsumerFeed) :
    Books feed [] (⟨.empty, .empty⟩ : DeadLetterStore SqliteNumber).rows [] [] where
  inOrder := List.Pairwise.nil
  once := List.nodup_nil
  claimed _ hmem := absurd hmem List.not_mem_nil
  listed _ hclaimed := absurd hclaimed Bool.false_ne_true
  behind _ hmem := absurd hmem List.not_mem_nil
  hasOffset := rfl
  letters _ := rfl
  models _ _ _ := rfl

theorem sound_start [AddCommGroup T] (feed : ConsumerFeed) :
    Sound (start feed : SqliteConsumer feed T) := by
  have hkept : @Kept feed [] (⟨.empty, .empty⟩ : DeadLetterStore SqliteNumber).rows
      (⟨.empty, .empty⟩ : DeadLetterStore SqliteNumber).rows := by
    refine ⟨⟨[], [], books_start feed⟩, fun _ hid => hid, le_rfl,
      fun _ hclaimed => absurd hclaimed Bool.false_ne_true, fun place hpassed => ?_⟩
    have hpositive := feed.positive _ (List.get_mem feed.events place)
    exact absurd (lt_of_lt_of_le hpositive hpassed) (lt_irrefl _)
  exact ⟨hkept, hkept, trivial⟩

theorem sound_run [AddCommGroup T] [LinearOrder T] (settings : ConsumerSettings T)
    (feed : ConsumerFeed) (moves : List (SqliteMove T)) :
    Sound (Runs.run (next settings) (start feed) moves) :=
  Runs.run_invariant _ (P := Sound) (fun _ move h => sound_next settings h move) moves
    (sound_start feed)

/-- **The consumer loses nothing but what was hit**: after any moves and any faults, every
event at or before the offset was applied once, was parked once, or was hit, and the rows
that no event was hit on are those of the applied events in their order. -/
theorem sqlite_consumer_accounts [AddCommGroup T] [LinearOrder T] (settings : ConsumerSettings T)
    (feed : ConsumerFeed) (moves : List (SqliteMove T)) :
    let s := Runs.run (next settings) (start feed) moves
    ∃ applied parked, Books feed s.hit s.connection.rows applied parked ∧
      ∀ place, positionOf (feed.event place) ≤ offsetOf s.connection.rows →
        place ∈ applied ++ parked ∨ place ∈ s.hit := by
  intro s
  have hsound : Sound s := sound_run settings feed moves
  obtain ⟨applied, parked, hbooks⟩ := hsound.committed.books
  refine ⟨applied, parked, hbooks, fun place hpassed => ?_⟩
  rcases hsound.committed.passed place hpassed with hclaimed | hhit
  · exact hbooks.listed place hclaimed
  · exact Or.inr hhit

end SqliteConsumer

end Cloudscale
