import Cloudscale.Processes.Consumers
import Cloudscale.Processes.Consuming
import Cloudscale.Projection.Claiming

/-!
# Parallel consumers account for every event

`Sound` is the invariant of a run.  The offset is a place up to which every event is
claimed; a batch that a consumer still has follows events that are claimed (`InTurn`), and
so does the event of every call that was made (`Cleared`).  Claims are for ever, so none of
this is undone by what others commit in between, however late a call is.

When a call commits it claims its event and advances the offset to it, and all events
before were claimed when it was made (`ClaimedUpTo.commit`).  What is claimed was applied
once, or it is parked and has a letter; so `consumers_account`.
-/

namespace Cloudscale

open Checked Python Sessions

variable {feed : ConsumerFeed} {W T : Type}

/-! ### Events of the feed -/

namespace ConsumerFeed

theorem lookup_current (feed : ConsumerFeed) (place : feed.Place) {key : String}
    (hkey : key ≠ "schema_version") :
    (feed.current place).lookup key = (feed.event place).lookup key := by
  unfold current
  cases h : upcast currentSchemaVersions registeredSteps (feed.event place) with
  | error e => rfl
  | ok current =>
    obtain ⟨version, rfl⟩ := upcast_registered h
    show (setItem "schema_version" (.int version) (feed.event place)).lookup key = _
    rw [lookup_setItem, if_neg hkey]

theorem letterId_current (feed : ConsumerFeed) (place : feed.Place) :
    letterId (feed.current place) = letterId (feed.event place) := by
  rw [letterId, letterId, feed.lookup_current place (by decide),
    feed.lookup_current place (by decide)]

theorem positionOf_current (feed : ConsumerFeed) (place : feed.Place) :
    positionOf (feed.current place) = positionOf (feed.event place) := by
  rw [positionOf, positionOf, feed.lookup_current place (by decide)]

theorem positionOf_lt_iff (feed : ConsumerFeed) {place place' : feed.Place} :
    positionOf (feed.event place) < positionOf (feed.event place') ↔ place < place' := by
  have hlt : ∀ {k k' : feed.Place}, k < k' →
      positionOf (feed.event k) < positionOf (feed.event k') := fun h =>
    List.pairwise_iff_get.mp feed.ordered _ _ h
  refine ⟨fun h => ?_, hlt⟩
  rcases lt_trichotomy place place' with hless | rfl | hmore
  · exact hless
  · exact absurd h (lt_irrefl _)
  · exact absurd (hlt hmore) (lt_asymm h)

end ConsumerFeed

/-! ### Claims of a prefix of the feed -/

def ClaimedAt (feed : ConsumerFeed) (rows : Rows (RowValue Int)) (place : feed.Place) : Prop :=
  Claimed rows (letterId (feed.event place))

/-- All events are claimed up to a position. -/
def ClaimedUpTo (feed : ConsumerFeed) (rows : Rows (RowValue Int)) (position : Int) : Prop :=
  ∀ place, positionOf (feed.event place) ≤ position → ClaimedAt feed rows place

def ClaimedBefore (feed : ConsumerFeed) (rows : Rows (RowValue Int)) (place : feed.Place) : Prop :=
  ∀ earlier < place, ClaimedAt feed rows earlier

/-- Each of the places follows places that are claimed or come before it in the list. -/
def InTurn (feed : ConsumerFeed) (rows : Rows (RowValue Int)) (places : List feed.Place) : Prop :=
  ∀ before place after, places = before ++ place :: after →
    ∀ earlier < place, ClaimedAt feed rows earlier ∨ earlier ∈ before

section Claims

variable {rows rows' : Rows (RowValue Int)}

theorem ClaimedAt.later {place : feed.Place} (h : ClaimedAt feed rows place)
    (hlater : Later rows rows') : ClaimedAt feed rows' place := hlater.claims _ h

theorem ClaimedUpTo.later {position : Int} (h : ClaimedUpTo feed rows position)
    (hlater : Later rows rows') : ClaimedUpTo feed rows' position :=
  fun place hplace => (h place hplace).later hlater

theorem ClaimedBefore.later {place : feed.Place} (h : ClaimedBefore feed rows place)
    (hlater : Later rows rows') : ClaimedBefore feed rows' place :=
  fun earlier hearlier => (h earlier hearlier).later hlater

theorem InTurn.later {places : List feed.Place} (h : InTurn feed rows places)
    (hlater : Later rows rows') : InTurn feed rows' places :=
  fun before place after heq earlier hearlier =>
    (h before place after heq earlier hearlier).imp_left fun hclaimed => hclaimed.later hlater

theorem InTurn.head {place : feed.Place} {rest : List feed.Place}
    (h : InTurn feed rows (place :: rest)) : ClaimedBefore feed rows place :=
  fun earlier hearlier => (h [] place rest rfl earlier hearlier).resolve_right List.not_mem_nil

theorem InTurn.tail {place : feed.Place} {rest : List feed.Place}
    (h : InTurn feed rows (place :: rest)) (hclaimed : ClaimedAt feed rows place) :
    InTurn feed rows rest := by
  intro before next after heq earlier hearlier
  rcases h (place :: before) next after (by rw [heq, List.cons_append]) earlier hearlier with
    hbefore | hmem
  · exact Or.inl hbefore
  · rcases List.mem_cons.mp hmem with rfl | hmem
    · exact Or.inl hclaimed
    · exact Or.inr hmem

/-- **A commit that claims an event and advances the offset to it** keeps all claimed up to
the offset, when the events before it are. -/
theorem ClaimedUpTo.commit {place : feed.Place} (h : ClaimedUpTo feed rows (offsetOf rows))
    (hlater : Later rows rows') (hbefore : ClaimedBefore feed rows place)
    (hclaimed : ClaimedAt feed rows' place)
    (hadvanced : AdvancedTo (positionOf (feed.event place)) rows rows') :
    ClaimedUpTo feed rows' (offsetOf rows') := by
  intro other hother
  by_cases hold : positionOf (feed.event other) ≤ offsetOf rows
  · exact (h other hold).later hlater
  · have hreached : positionOf (feed.event other) ≤ positionOf (feed.event place) := by
      rcases hadvanced with heq | heq <;> omega
    rcases lt_or_eq_of_le (not_lt.mp (feed.positionOf_lt_iff.not.mp (not_lt.mpr hreached))) with
      hless | rfl
    · exact (hbefore other hless).later hlater
    · exact hclaimed

theorem inTurn_readAll [DecidableEq W] [AddCommGroup T] [LinearOrder T]
    (settings : ConsumerSettings T) (s : Consumers feed W T) {lastId : Int}
    (h : ClaimedUpTo feed rows lastId) : InTurn feed rows (s.readAll settings lastId) := by
  intro before place after heq earlier hearlier
  unfold Consumers.readAll at heq
  set visible := (List.finRange feed.events.length).filter fun place =>
    decide (place.val < s.visible ∧ lastId < positionOf (feed.event place)) with hvisible
  have hsplit : visible = before ++ place :: (after ++ visible.drop settings.batch) := by
    rw [← List.cons_append, ← List.append_assoc, ← heq, List.take_append_drop]
  have hplace : place.val < s.visible ∧ lastId < positionOf (feed.event place) := by
    have hmem : place ∈ visible := by rw [hsplit]; simp
    rw [hvisible, List.mem_filter] at hmem
    exact of_decide_eq_true hmem.2
  by_cases hold : positionOf (feed.event earlier) ≤ lastId
  · exact Or.inl (h earlier hold)
  · refine Or.inr ?_
    have hmem : earlier ∈ visible := by
      rw [hvisible, List.mem_filter]
      exact ⟨List.mem_finRange _,
        decide_eq_true ⟨lt_trans (Fin.lt_def.mp hearlier) hplace.1, not_le.mp hold⟩⟩
    have hsorted : visible.Pairwise (· < ·) := (List.pairwise_lt_finRange _).filter _
    rw [hsplit] at hmem hsorted
    rcases List.mem_append.mp hmem with hmem | hmem
    · exact hmem
    · rcases List.mem_cons.mp hmem with rfl | hmem
      · exact absurd hearlier (lt_irrefl _)
      · have hless := (List.pairwise_cons.mp (List.pairwise_append.mp hsorted).2.1).1 earlier hmem
        exact absurd hless (lt_asymm hearlier)

end Claims

/-! ### Calls -/

/-- The place of the event that a call of a consumer is about. -/
def ConsumerCall.place? {places : ℕ} : ConsumerCall W places → Option (Fin places)
  | apply _ _ place => some place
  | deadLetter _ _ place _ _ _ => some place
  | redrive _ _ _ => none

def Kept (feed : ConsumerFeed) (W : Type) (rows : Rows (RowValue Int)) : Prop :=
  LettersParked (ConsumerCall.storeCall (W := W) feed) rows ∧ LettersClaimed rows

abbrev anyRow : Finds postgresDialect.database := fun _ _ => True

theorem does_storeCall (call : ConsumerCall W feed.events.length) :
    Does (Kept feed W) anyRow (call.storeCall feed).postgres fun rows rows' reply =>
      Committed postgresArithmetic rows rows' reply ∧
        (call.storeCall feed).Answers (ConsumerCall.storeCall (W := W) feed) reply :=
  (doesCalls_postgres (ConsumerCall.storeCall (W := W) feed) call).mono (fun _ h => h.1)
    fun _ _ _ _ h => h

theorem later_storeCall (call : ConsumerCall W feed.events.length) :
    Does (Kept feed W) anyRow (call.storeCall feed).postgres fun rows rows' _ =>
      Later rows rows' := by
  have hoffset : KeepsOffset (Kept feed W) anyRow (call.storeCall feed).postgres := by
    cases call with
    | apply w number place => exact keepsOffset_apply postgresDialect_adds _
    | deadLetter w number place error attempts now => exact keepsOffset_deadLetter _ _ _ _
    | redrive number eventId now =>
      exact (does_redriveReturning_offset postgresDialect_adds eventId now).mono (fun _ h => h)
        fun _ _ _ _ h => h.ge
  exact ((does_storeCall call).and hoffset).mono (fun _ h => h) fun _ _ _ _ h =>
    ⟨fun _ hid => claimed_of_committed h.1.1 hid, h.2⟩

theorem kept_storeCall (call : ConsumerCall W feed.events.length) :
    Does (Kept feed W) anyRow (call.storeCall feed).postgres fun _ rows' _ => Kept feed W rows' :=
  (does_storeCall call).mono (fun _ h => h) fun _ _ _ hrows h =>
    ⟨lettersParked_of_committed hrows.1 h.1 h.2, lettersClaimed_of_committed h.1 hrows.2⟩

/-- **A call of a consumer claims its event** and advances the offset to it. -/
theorem claimsId_storeCall {call : ConsumerCall W feed.events.length} {place : feed.Place}
    (hplace : call.place? = some place) :
    ClaimsId (Kept feed W) anyRow (call.storeCall feed).postgres (letterId (feed.event place))
      (positionOf (feed.event place)) := by
  cases call with
  | apply w number place' =>
    cases hplace
    rw [← feed.letterId_current, ← feed.positionOf_current]
    exact claimsId_apply postgresDialect_adds postgresDialect_upsertsBalances _
  | deadLetter w number place' error attempts now =>
    cases hplace
    exact claimsId_deadLetter postgresDialect_upsertsBalances (fun _ h => h.2) _ _ _ _
  | redrive number eventId now => cases hplace

/-! ### The invariant -/

/-- The events before that of a call are claimed. -/
def Cleared (feed : ConsumerFeed) (rows : Rows (RowValue Int))
    (call : ConsumerCall W feed.events.length) : Prop :=
  ∀ place, call.place? = some place → ClaimedBefore feed rows place

theorem cleared_of_place {rows : Rows (RowValue Int)} {call : ConsumerCall W feed.events.length}
    {place : feed.Place} {rest : List feed.Place} (h : InTurn feed rows (place :: rest))
    (hplace : call.place? = some place) : Cleared feed rows call := by
  intro place' hplace'
  cases hplace.symm.trans hplace'
  exact h.head

def Task.Sound (feed : ConsumerFeed) (rows : Rows (RowValue Int)) : Task W feed.events.length → Prop
  | idle => True
  | polling lastId => ClaimedUpTo feed rows lastId
  | attempting place rest _ => InTurn feed rows (place :: rest)
  | applying place rest _ call => InTurn feed rows (place :: rest) ∧ call.place? = some place
  | parking place rest _ _ => InTurn feed rows (place :: rest)
  | lettering place rest call => InTurn feed rows (place :: rest) ∧ call.place? = some place

theorem Task.Sound.later {rows rows' : Rows (RowValue Int)} {task : Task W feed.events.length}
    (h : task.Sound feed rows) (hlater : Later rows rows') : task.Sound feed rows' := by
  cases task with
  | idle => trivial
  | polling lastId => exact ClaimedUpTo.later h hlater
  | attempting place rest failures => exact InTurn.later h hlater
  | applying place rest failures call => exact ⟨h.1.later hlater, h.2⟩
  | parking place rest error attempts => exact InTurn.later h hlater
  | lettering place rest call => exact ⟨h.1.later hlater, h.2⟩

theorem Task.sound_over {rows : Rows (RowValue Int)} {rest : List feed.Place}
    (h : InTurn feed rows rest) : (Task.over rest : Task W feed.events.length).Sound feed rows := by
  cases rest with
  | nil => trivial
  | cons place rest => exact h

theorem sound_failed [AddCommGroup T] [LinearOrder T] (settings : ConsumerSettings T)
    {rows : Rows (RowValue Int)} {place : feed.Place} {rest : List feed.Place} (failures : ℕ)
    (e : PyError) (h : InTurn feed rows (place :: rest)) :
    (Consumers.failed settings place rest failures e : Task W feed.events.length).Sound feed rows := by
  unfold Consumers.failed
  split
  · split
    · exact h
    · exact h
  · exact h

/-- **The invariant of the consumers.** -/
structure Sound [DecidableEq W] (s : Consumers feed W T) : Prop where
  consistent : Consistent (Kept feed W) anyRow (fun call => (call.storeCall feed).postgres)
    DeadLetterStore.empty.rows s.db
  explained : Explained (Kept feed W) Later anyRow (fun call => (call.storeCall feed).postgres) s.db
  offset : ClaimedUpTo feed s.db.rows (offsetOf s.db.rows)
  cleared : ∀ call ∈ s.begun, Cleared feed s.db.rows call
  tasks : ∀ w, (s.consumers w).task.Sound feed s.db.rows

section Steps

variable [DecidableEq W] {s : Consumers feed W T}

theorem Sound.claimed_of_answer (h : Sound s) {call : ConsumerCall W feed.events.length}
    {place : feed.Place} (hplace : call.place? = some place) {reply : Reply}
    (hsession : s.db.sessions call = .ready (.answer reply)) : ClaimedAt feed s.db.rows place := by
  rcases h.explained.ready call _ hsession with htraced | ⟨a, -, hmem⟩
  · exact absurd rfl ((claimsId_storeCall hplace _ _ h.consistent.kept htraced).1 reply)
  · obtain ⟨body, rescue, before, after, htraced, hbefore, hrun, hafter⟩ :=
      h.explained.committed call a hmem
    obtain ⟨hclaimed, -⟩ :=
      (claimsId_storeCall hplace _ _ hbefore htraced).2 body rescue after a rfl hrun
    exact ClaimedAt.later hclaimed hafter

theorem Sound.later_session (h : Sound s) (move : Move (ConsumerCall W feed.events.length)) :
    Later s.db.rows (s.db.next move).rows := by
  rcases rows_next s.db move with heq | ⟨call, pending, a, rescue, -, hsession, heq⟩
  · rw [heq]
    exact .refl _
  · obtain ⟨body, hbody, hrun⟩ := run_of_writing h.consistent hsession
    rw [heq]
    exact later_storeCall call hbody h.consistent.kept hrun

/-- **A step of a session keeps all claimed up to the offset**, when the call is cleared. -/
theorem Sound.offset_session (h : Sound s) {move : Move (ConsumerCall W feed.events.length)}
    (hcleared : Cleared feed s.db.rows (callerOf move)) :
    ClaimedUpTo feed (s.db.next move).rows (offsetOf (s.db.next move).rows) := by
  have hlater := h.later_session move
  rcases rows_next s.db move with heq | ⟨call, pending, a, rescue, rfl, hsession, heq⟩
  · rw [heq]
    exact h.offset
  · obtain ⟨body, htraced, hwithin⟩ := h.explained.writing call _ _ _ hsession
    have hrun := hwithin.completes (.commit _ a)
    rw [← heq] at hrun
    cases hplace : call.place? with
    | some place =>
      obtain ⟨hclaimed, hadvanced⟩ :=
        (claimsId_storeCall hplace _ _ h.consistent.kept htraced).2 body rescue _ a rfl hrun
      exact h.offset.commit hlater (hcleared place hplace) hclaimed hadvanced
    | none =>
      cases call with
      | apply | deadLetter => cases hplace
      | redrive number eventId now =>
        have hdoes : Does (Kept feed W) anyRow (postgresDialect.redriveReturning eventId now)
            fun rows rows' _ => offsetOf rows' = offsetOf rows :=
          does_redriveReturning_offset postgresDialect_adds eventId now
        have hoffset := hdoes (htraced.follows fun _ hrows => hrows.1) h.consistent.kept hrun
        rw [hoffset]
        exact h.offset.later hlater

theorem sound_session (h : Sound s) (move : Move (ConsumerCall W feed.events.length))
    (hcleared : Cleared feed s.db.rows (callerOf move)) :
    Sound { s with db := s.db.next move } := by
  have hlater := h.later_session move
  refine ⟨consistent_next kept_storeCall h.consistent move (fitting_true _ _),
    explained_next .refl (fun h => h.trans) later_storeCall h.consistent h.explained move
      (fitting_true _ _), h.offset_session hcleared, fun call hmem place hplace => ?_,
    fun w => (h.tasks w).later hlater⟩
  exact (h.cleared call hmem place hplace).later hlater

theorem sound_goOn (h : Sound s) (w : W) {consumer : Consumer W T feed.events.length}
    (htask : consumer.task.Sound feed s.db.rows) : Sound (s.goOn w consumer) := by
  refine ⟨h.consistent, h.explained, h.offset, h.cleared, fun w' => ?_⟩
  show (Function.update s.consumers w consumer w').task.Sound feed s.db.rows
  by_cases hw : w' = w
  · subst hw
    rw [Function.update_self]
    exact htask
  · rw [Function.update_of_ne hw]
    exact h.tasks w'

theorem sound_makeCall (h : Sound s) (w : W) (breaker : CircuitBreaker T)
    {call : ConsumerCall W feed.events.length} {task : Task W feed.events.length}
    (hcall : Cleared feed s.db.rows call) (htask : task.Sound feed s.db.rows) :
    Sound (s.makeCall w breaker call task) := by
  have hgone : Sound (s.goOn w ⟨breaker, (s.consumers w).number + 1, task⟩) :=
    sound_goOn h w htask
  exact ⟨hgone.consistent, hgone.explained, hgone.offset,
    List.forall_mem_cons.mpr ⟨hcall, h.cleared⟩, hgone.tasks⟩

variable [AddCommGroup T] [LinearOrder T] (settings : ConsumerSettings T)

omit [LinearOrder T] in
theorem sound_crash (h : Sound s) (w : W) : Sound (s.crash w) := sound_goOn h w trivial

theorem sound_poll (h : Sound s) (w : W) : Sound (s.poll settings w) := by
  have htask := h.tasks w
  unfold Consumers.poll
  cases htask' : (s.consumers w).task with
  | idle => exact sound_goOn h w h.offset
  | polling lastId =>
    rw [htask'] at htask
    exact sound_goOn h w (Task.sound_over (inTurn_readAll settings s htask))
  | attempting | applying | parking | lettering => exact h

theorem sound_attempt (h : Sound s) (w : W) (now later : T) :
    Sound (s.attempt settings w now later) := by
  have htask := h.tasks w
  unfold Consumers.attempt
  cases htask' : (s.consumers w).task with
  | attempting place rest failures =>
    rw [htask'] at htask
    dsimp only
    split
    next e _ => exact sound_goOn h w (sound_failed settings failures e htask)
    next =>
      split
      next => exact sound_goOn h w trivial
      next => exact sound_makeCall h w _ (cleared_of_place htask rfl) ⟨htask, rfl⟩
  | idle | polling | applying | parking | lettering => exact h

omit [AddCommGroup T] [LinearOrder T] in
theorem sound_park (h : Sound s) (w : W) (now : Datetime) : Sound (s.park w now) := by
  have htask := h.tasks w
  unfold Consumers.park
  cases htask' : (s.consumers w).task with
  | parking place rest error attempts =>
    rw [htask'] at htask
    exact sound_makeCall h w _ (cleared_of_place htask rfl) ⟨htask, rfl⟩
  | idle | polling | attempting | applying | lettering => exact h

/-- **A call that has returned claimed its event**, so the batch goes on in turn. -/
theorem sound_finish (h : Sound s) (w : W) (now : T) : Sound (s.finish settings w now) := by
  have htask := h.tasks w
  unfold Consumers.finish
  cases htask' : (s.consumers w).task with
  | applying place rest failures call =>
    rw [htask'] at htask
    obtain ⟨hturn, hplace⟩ := htask
    dsimp only
    split
    next reply hsession =>
      exact sound_goOn h w (Task.sound_over (hturn.tail (h.claimed_of_answer hplace hsession)))
    next e _ => exact sound_goOn h w (sound_failed settings failures e hturn)
    next => exact h
  | lettering place rest call =>
    rw [htask'] at htask
    obtain ⟨hturn, hplace⟩ := htask
    dsimp only
    split
    next reply hsession =>
      exact sound_goOn h w (Task.sound_over (hturn.tail (h.claimed_of_answer hplace hsession)))
    next => exact sound_crash h w
    next => exact h
  | idle | polling | attempting | parking => exact h

theorem sound_fault (h : Sound s) (w : W) (now : T) : Sound (s.fault settings w now) := by
  have htask := h.tasks w
  unfold Consumers.fault
  cases htask' : (s.consumers w).task with
  | applying place rest failures call =>
    rw [htask'] at htask
    exact sound_goOn h w (sound_failed settings failures .operationalError htask.1)
  | idle | polling | attempting | parking | lettering => exact sound_crash h w

/-- **Every move keeps the invariant**, and the claims and the offset. -/
theorem sound_next (h : Sound s) (move : ConsumerMove feed W T) :
    Sound (Consumers.next settings s move) := by
  cases move with
  | relay => exact ⟨h.consistent, h.explained, h.offset, h.cleared, h.tasks⟩
  | session move =>
    show Sound (s.session move)
    unfold Consumers.session
    split
    next hcaller =>
      refine sound_session h move fun place hplace => ?_
      rw [hcaller] at hplace
      cases hplace
    next call _ =>
      split
      next hmem => exact sound_session h move (h.cleared _ hmem)
      next => exact h
  | poll w => exact sound_poll settings h w
  | attempt w now later => exact sound_attempt settings h w now later
  | park w now => exact sound_park h w now
  | finish w now => exact sound_finish settings h w now
  | fault w now => exact sound_fault settings h w now
  | crash w => exact sound_crash h w

/-- A move that is no step of a session leaves the rows. -/
theorem later_move (h : Sound s) (move : ConsumerMove feed W T) :
    Later s.db.rows (Consumers.next settings s move).db.rows := by
  have hsame : ∀ {s' : Consumers feed W T}, s'.db = s.db → Later s.db.rows s'.db.rows :=
    fun heq => heq ▸ Later.refl _
  cases move with
  | session move =>
    show Later s.db.rows (s.session move).db.rows
    unfold Consumers.session
    split
    next => exact h.later_session move
    next =>
      split
      next => exact h.later_session move
      next => exact .refl _
  | relay => exact .refl _
  | crash w => exact .refl _
  | poll w => exact hsame (by show (s.poll settings w).db = _; unfold Consumers.poll; split <;> rfl)
  | attempt w now later =>
    refine hsame ?_
    show (s.attempt settings w now later).db = _
    unfold Consumers.attempt
    split
    · split
      · rfl
      · split <;> rfl
    · rfl
  | park w now => exact hsame (by show (s.park w now).db = _; unfold Consumers.park; split <;> rfl)
  | finish w now =>
    refine hsame ?_
    show (s.finish settings w now).db = _
    unfold Consumers.finish
    split
    · split <;> rfl
    · split <;> rfl
    · rfl
  | fault w now =>
    exact hsame (by show (s.fault settings w now).db = _; unfold Consumers.fault; split <;> rfl)

end Steps

/-! ### Runs -/

theorem sound_start [DecidableEq W] [AddCommGroup T] [LinearOrder T] (feed : ConsumerFeed) :
    Sound (Consumers.start : Consumers feed W T) := by
  refine ⟨consistent_start _ _ ⟨lettersParked_empty _, fun _ h => absurd h Bool.false_ne_true⟩,
    explained_start _ _ _ _, fun place hplace => ?_, (fun _ h => nomatch h), fun _ => trivial⟩
  have hpositive := feed.positive _ (List.get_mem feed.events place)
  exact absurd (lt_of_lt_of_le hpositive hplace) (lt_irrefl _)

theorem settled_of_kept [DecidableEq W] {history : List (ConsumerCall W feed.events.length × Reply)}
    {rows : Rows (RowValue Int)}
    (h : Serial (Kept feed W) anyRow (fun call => (call.storeCall feed).postgres)
      DeadLetterStore.empty.rows history rows) : Settled postgresArithmetic history rows ∧
      ∀ id, Claimed rows id → id ∈ appliedIds history ∨ id ∈ parkedIds history := by
  induction h with
  | start => exact ⟨settled_empty, fun _ h => absurd h Bool.false_ne_true⟩
  | commit _ hrows hbody hrun ih =>
    have hcommitted := (does_storeCall _ hbody hrows hrun).1
    exact ⟨ih.1.commit hcommitted, fun id hid => accounted_of_committed hcommitted ih.2 hid⟩

/-- **The consumers account for every event** at or before the offset. -/
structure Accounted [DecidableEq W] (s : Consumers feed W T) : Prop where
  claimed : ∀ place, positionOf (feed.event place) ≤ offsetOf s.db.rows →
    Claimed s.db.rows (letterId (feed.event place))
  /-- It was applied once, or it is parked and not applied. -/
  once : ∀ place, positionOf (feed.event place) ≤ offsetOf s.db.rows →
    (appliedIds s.db.history).count (letterId (feed.event place)) = 1 ∧
        s.db.rows (.deadLetter (letterId (feed.event place))) = none ∨
      (appliedIds s.db.history).count (letterId (feed.event place)) = 0 ∧
        (s.db.rows (.deadLetter (letterId (feed.event place)))).isSome
  /-- What was applied under an id is the event of the feed with that id. -/
  applied : ∀ id event, (id, event) ∈ effects s.db.history → ∃ place,
    id = letterId (feed.event place) ∧ (adaptLegacyEvent (feed.current place) = .ok event ∨
      adaptLegacyEvent (feed.event place) = .ok event)
  /-- The balances hold what was applied, and nothing else. -/
  balances : ∀ l, s.db.rows (.balance l) =
    ((effects s.db.history).map Prod.snd).foldl (onBalance postgresArithmetic l) none

theorem parkedBy_feed {id : String} {payload : Dict}
    (h : ParkedBy (ConsumerCall.storeCall (W := W) feed) id payload) :
    ∃ place, id = letterId (feed.event place) ∧ payload = feed.event place := by
  obtain ⟨call, error, attempts, now, hcall, hid⟩ := h
  cases call with
  | deadLetter w number place error attempts now =>
    cases hcall
    exact ⟨place, hid.symm, rfl⟩
  | apply | redrive => cases hcall

theorem Sound.accounted [DecidableEq W] {s : Consumers feed W T} (h : Sound s) : Accounted s := by
  obtain ⟨hsettled, hclaimed⟩ := settled_of_kept h.consistent.serial
  have hletter : ∀ id, (payloadAt s.db.rows id).isSome = (s.db.rows (.deadLetter id)).isSome :=
    fun id => Option.isSome_map
  refine ⟨fun place hplace => h.offset place hplace, fun place hplace => ?_, fun id event hmem => ?_,
    hsettled.balances⟩
  · set id := letterId (feed.event place)
    by_cases happlied : id ∈ appliedIds s.db.history
    · refine Or.inl ⟨List.count_eq_one_of_mem hsettled.once happlied, ?_⟩
      rw [← Option.not_isSome_iff_eq_none, ← hletter]
      exact fun hsome => (hsettled.letters id hsome).2 happlied
    · have hparked := (hclaimed id (h.offset place hplace)).resolve_left happlied
      refine Or.inr ⟨List.count_eq_zero.mpr happlied, ?_⟩
      rw [← hletter]
      exact (hsettled.parked id hparked).resolve_right happlied
  · obtain ⟨⟨call, reply⟩, hentry, heffect⟩ := List.mem_filterMap.mp hmem
    obtain ⟨_, _, ⟨-, hanswers⟩, -⟩ := h.explained.does hentry (does_storeCall call)
    cases reply with
    | applied id' event' =>
      cases heffect
      cases call with
      | apply w number place =>
        have hdoes : Does (Kept feed W) anyRow (postgresDialect.apply (feed.current place))
            fun _ _ reply => ∀ id event, reply = .applied id event →
              id = letterId (feed.current place) ∧
                adaptLegacyEvent (feed.current place) = .ok event :=
          does_apply_event postgresDialect_adds (feed.current place)
        obtain ⟨_, _, hevent, -⟩ := h.explained.does hentry hdoes
        obtain ⟨hid, hadapt⟩ := hevent _ _ rfl
        exact ⟨place, hid.trans (feed.letterId_current place), Or.inl hadapt⟩
      | deadLetter | redrive => exact hanswers.elim
    | redriven id' event' =>
      cases heffect
      cases call with
      | redrive number eventId now =>
        obtain ⟨rfl, payload, hparked, hadapt⟩ := hanswers
        obtain ⟨place, hid, rfl⟩ := parkedBy_feed hparked
        exact ⟨place, hid, Or.inr hadapt⟩
      | apply | deadLetter => exact hanswers.elim
    | parked | duplicate | absorbed | notFound | failedAgain => cases heffect

/-- **Parallel consumers lose and double nothing**: after any moves of any number of them,
of operators and of the relay, every event at or before the offset is accounted for, and
the offset does not move back. -/
theorem consumers_account [DecidableEq W] [AddCommGroup T] [LinearOrder T]
    (settings : ConsumerSettings T) (feed : ConsumerFeed) (moves more : List (ConsumerMove feed W T)) :
    Accounted (Runs.run (Consumers.next settings) .start moves) ∧
      offsetOf (Runs.run (Consumers.next settings) .start moves).db.rows ≤
        offsetOf (Runs.run (Consumers.next settings) .start (moves ++ more)).db.rows := by
  have hsound : Sound (Runs.run (Consumers.next settings) .start moves) :=
    Runs.run_invariant _ (P := Sound) (fun s move h => sound_next settings h move) moves
      (sound_start feed)
  refine ⟨hsound.accounted, ?_⟩
  rw [Runs.run_append]
  exact (Runs.run_invariant _ (P := fun s => Sound s ∧
    Later (Runs.run (Consumers.next settings) .start moves).db.rows s.db.rows)
    (fun s move h => ⟨sound_next settings h.1 move, h.2.trans (later_move settings h.1 move)⟩) more
    ⟨hsound, .refl _⟩).2.offset

/-! ### Two consumers -/

def twoConsumers : ConsumerSettings ℤ where
  retryPolicy := (ResilientConsumer.consumerOn ResilientConsumer.flakyProjection).retryPolicy
  breaker := (ResilientConsumer.consumerOn ResilientConsumer.flakyProjection).breaker
  batch := 2
  one_le_batch := one_le_two

/-- A deposit and an event of an unknown type. -/
def depositAndMinted : ConsumerFeed where
  toEventFeed := ResilientConsumer.twoEvents
  positive := by decide +kernel
  distinct := by decide +kernel

/-- A consumer gives up its call and the call commits all the same; a second consumer then
finds the event claimed, and parks the next one. -/
example :
    let first : ConsumerCall (Fin 2) _ := .apply 0 0 ⟨0, by decide⟩
    let second : ConsumerCall (Fin 2) _ := .apply 1 0 ⟨0, by decide⟩
    let poison := PyError.unknownSchemaVersion "unknown event type 'Minted'"
    let letter : ConsumerCall (Fin 2) _ := .deadLetter 1 1 ⟨1, by decide⟩ poison 1 .epoch
    let moves : List (ConsumerMove depositAndMinted (Fin 2) ℤ) :=
      [.relay, .relay, .poll 0, .poll 1, .poll 0, .poll 1, .attempt 0 0 0, .attempt 1 0 0,
        .session (.proceed first), .session (.proceed first), .fault 0 0] ++
      List.replicate 4 (.session (.proceed first)) ++
      List.replicate 5 (.session (.proceed second)) ++
      [.finish 1 0, .attempt 1 0 0, .park 1 .epoch] ++
      List.replicate 5 (.session (.proceed letter))
    let s := Runs.run (Consumers.next twoConsumers) .start moves
    offsetOf s.db.rows = 9 ∧ appliedIds s.db.history = ["a"] ∧ parkedIds s.db.history = ["b"] := by
  decide +kernel

end Cloudscale
