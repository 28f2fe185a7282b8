import Cloudscale.Ledger.Log

/-!
# What a command decides

Under the write lock the reads of a decision see one store, so the legs are a
function of it (`decideLegs_storage`).  `Decided` lists the ways in which a
command produces events, one constructor for each kind of set, with everything
that the decision checked; `decideLegs_eq_ok` says that these are all, and that
the legs are the events numbered by stream and sorted by account.
-/

namespace Cloudscale

open Checked Python DoubleEntry Streams Transactions

/-! ### Reads under the lock -/

/-- The reads of a store that does not change under them. -/
def Store.reads (s : Store) : CommandReads (Except PyError) where
  storedResult := s.storedResult
  foldStream := s.foldStream
  openHold := s.openHold
  legsOf := s.legsOf
  revertedBy := s.revertedBy

section Storage

variable (call : Call)

theorem foldOthers_storage : ∀ (accountIds : List String) (states : States),
    foldOthers call.logStorage.toCommandReads states accountIds =
      query (fun session => foldOthers session.store.reads states accountIds) := by
  intro accountIds
  induction accountIds with
  | nil => intro states; rfl
  | cons accountId accountIds ih =>
    intro states
    simp only [foldOthers]
    split
    next => exact ih states
    next =>
      simp only [ih]
      exact query_bind_query (fun session : Session => session.store.foldStream accountId) _

theorem postingsLegs_storage (anchor : String) (legs : List Leg) (state : AccountState)
    (commandId : UUID) :
    postingsLegs call.logStorage.toCommandReads anchor legs state commandId =
      query (fun session => postingsLegs session.store.reads anchor legs state commandId) := by
  simp only [postingsLegs, foldOthers_storage, ofExcept_eq_query, ofExcept_eq_self,
    query_bind_query]

theorem postHoldLegs_storage (state : AccountState) (command : PostHold) (now : Datetime) :
    postHoldLegs call.logStorage.toCommandReads state command now =
      query (fun session => postHoldLegs session.store.reads state command now) := by
  simp only [postHoldLegs, foldOthers_storage, ofExcept_eq_query, ofExcept_eq_self,
    query_bind_query]
  exact query_bind_query
    (fun session : Session => session.store.openHold command.accountId command.holdId) _

theorem releaseLegs_storage (kind : Account.ReleaseKind) (command : ReleaseCommand)
    (state : AccountState) (now : Datetime) :
    releaseLegs call.logStorage.toCommandReads kind command state now =
      query (fun session => releaseLegs session.store.reads kind command state now) := by
  simp only [releaseLegs, ofExcept_eq_query, ofExcept_eq_self]
  exact query_bind_query
    (fun session : Session => session.store.openHold command.accountId command.holdId) _

theorem revertLegs_storage (command : Revert) (state : AccountState) (commandId : UUID) :
    revertLegs call.logStorage.toCommandReads command state commandId =
      query (fun session => revertLegs session.store.reads command state commandId) := by
  have hreverted : call.logStorage.toCommandReads.revertedBy command.transferId =
      query (fun session : Session => session.store.revertedBy command.transferId) := rfl
  simp only [revertLegs, foldOthers_storage, hreverted, ofExcept_eq_query, ofExcept_eq_self,
    query_bind_query]
  exact query_bind_query
    (fun session : Session => session.store.legsOf command.transferId) _

/-- **The legs of a decision are a function of the store.** -/
theorem decideLegs_storage (request : NormalizedCommand) (state : AccountState) (now : Datetime) :
    decideLegs call.logStorage.toCommandReads request state now =
      query (fun session => decideLegs session.store.reads request state now) := by
  simp only [decideLegs]
  cases request.command with
  | transfer c => exact postingsLegs_storage call _ _ _ _
  | post c => exact postingsLegs_storage call _ _ _ _
  | postHold c => exact postHoldLegs_storage call _ _ _
  | voidHold c => exact releaseLegs_storage call _ _ _ _
  | expireHold c => exact releaseLegs_storage call _ _ _ _
  | revert c => exact revertLegs_storage call _ _ _
  | deposit c | withdraw c | hold c => simp only [ofExcept_eq_query, ofExcept_eq_self]

end Storage

/-! ### Numbering -/

theorem numberEvents_eq : ∀ {events : List AccountEvent} {versions : List (String × Int)}
    (version : String → Int),
    (∀ e ∈ events, versions.lookup e.accountId = some (version e.accountId)) →
      numberEvents versions events = .ok (numberEach AccountEvent.accountId version events) := by
  intro events
  induction events with
  | nil => intro versions version _; rfl
  | cons e events ih =>
    intro versions version h
    rw [numberEvents, getItem_eq_ok.mpr (h e List.mem_cons_self), ok_bind, ih, ok_bind]
    · rfl
    · intro x hx
      rw [lookup_setItem]
      by_cases hxe : x.accountId = e.accountId
      · rw [if_pos hxe, hxe, Function.update_self]
      · rw [if_neg hxe, Function.update_of_ne hxe]
        exact h x (List.mem_cons_of_mem e hx)

theorem lookup_versions (a : String) : ∀ states : States,
    (states.map (fun p => (p.1, p.2.version))).lookup a =
      (states.lookup a).map AccountState.version := by
  intro states
  induction states with
  | nil => rfl
  | cons p states ih =>
    rw [List.map_cons, Tables.lookup_cons_ite, Tables.lookup_cons_ite, ih]
    split <;> rfl

theorem numberEvents_known : ∀ {events : List AccountEvent} {versions : List (String × Int)}
    {legs : List (AccountEvent × Int)}, numberEvents versions events = .ok legs →
      ∀ e ∈ events, (versions.lookup e.accountId).isSome := by
  intro events
  induction events with
  | nil => intro _ _ _ e he; cases he
  | cons e events ih =>
    intro versions legs h e' he'
    rw [numberEvents] at h
    obtain ⟨v, hv, h⟩ := bind_eq_ok.mp h
    obtain ⟨rest, hrest, -⟩ := bind_eq_ok.mp h
    have hv := getItem_eq_ok.mp hv
    rcases List.mem_cons.mp he' with rfl | he'
    · rw [hv]
      rfl
    · have hknown := ih hrest e' he'
      rw [lookup_setItem] at hknown
      split at hknown
      next heq => rw [heq, hv]; rfl
      next => exact hknown

theorem map_fst_numberEvents : ∀ {events : List AccountEvent} {versions : List (String × Int)}
    {legs : List (AccountEvent × Int)}, numberEvents versions events = .ok legs →
      legs.map Prod.fst = events := by
  intro events
  induction events with
  | nil => intro versions legs h; cases h; rfl
  | cons event events ih =>
    intro versions legs h
    obtain ⟨version, -, h⟩ := bind_eq_ok.mp h
    obtain ⟨rest, hrest, h⟩ := bind_eq_ok.mp h
    cases h
    rw [List.map_cons, ih hrest]

theorem known_of_numberLegs {states : States} {events : List AccountEvent}
    {legs : List (AccountEvent × Int)} (h : numberLegs states events = .ok legs) :
    ∀ leg ∈ legs, (states.lookup leg.1.accountId).isSome := by
  intro leg hleg
  obtain ⟨numbered, hnumbered, hsort⟩ := bind_eq_ok.mp h
  cases hsort
  have hmem : leg ∈ numbered := (List.perm_insertionSort _ _).mem_iff.mp hleg
  have hevent : leg.1 ∈ events := by
    rw [← map_fst_numberEvents hnumbered]
    exact List.mem_map_of_mem hmem
  have hknown := numberEvents_known hnumbered leg.1 hevent
  rwa [lookup_versions, Option.isSome_map] at hknown

theorem filter_sortLegs (version : String → Int) (events : List AccountEvent) (a : String) :
    (sortLegs (numberEach AccountEvent.accountId version events)).filter
        (fun leg => leg.1.accountId = a) =
      numberFrom (version a) (events.filter (fun e => e.accountId = a)) := by
  have hsorted := filter_insertionSort (fun leg : AccountEvent × Int => leg.1.accountId) a
  rw [sortLegs, hsorted]
  exact filter_numberEach AccountEvent.accountId a

namespace Store

/-- The events with the next versions of their streams, sorted by account. -/
def number (s : Store) (events : List AccountEvent) : List (AccountEvent × Int) :=
  sortLegs (numberEach AccountEvent.accountId (fun a => (s.account a).version) events)

theorem filter_number (s : Store) (events : List AccountEvent) (a : String) :
    (s.number events).filter (fun leg => leg.1.accountId = a) =
      numberFrom (s.account a).version (events.filter (fun e => e.accountId = a)) :=
  filter_sortLegs (fun a => (s.account a).version) events a

theorem map_fst_number_perm (s : Store) (events : List AccountEvent) :
    ((s.number events).map Prod.fst).Perm events := by
  have hperm := (List.perm_insertionSort (fun leg leg' : AccountEvent × Int =>
    leg.1.accountId ≤ leg'.1.accountId)
    (numberEach AccountEvent.accountId (fun a => (s.account a).version) events)).map Prod.fst
  rwa [map_fst_numberEach] at hperm

theorem number_singleton (s : Store) (e : AccountEvent) :
    s.number [e] = [(e, (s.account e.accountId).version + 1)] := rfl

/-! ### Snapshots -/

/-- The states are those of the store, for the accounts named at least. -/
structure Snapshot (s : Store) (states : States) (accounts : List String) : Prop where
  sound : ∀ a state, states.lookup a = some state → state = s.account a
  complete : ∀ a ∈ accounts, (states.lookup a).isSome

namespace Snapshot

variable {s : Store} {states : States} {accounts : List String}

theorem lookup (h : s.Snapshot states accounts) {a : String} (ha : a ∈ accounts) :
    states.lookup a = some (s.account a) := by
  obtain ⟨state, hstate⟩ := Option.isSome_iff_exists.mp (h.complete a ha)
  rw [hstate, h.sound a state hstate]

theorem numberLegs_eq (h : s.Snapshot states accounts) {events : List AccountEvent}
    (hevents : ∀ e ∈ events, e.accountId ∈ accounts) :
    numberLegs states events = .ok (s.number events) := by
  rw [numberLegs, numberEvents_eq (fun a => (s.account a).version), ok_bind, pure_eq_ok, number]
  intro e he
  rw [lookup_versions, h.lookup (hevents e he)]
  rfl

end Snapshot

/-- A fold of the streams that are not known yet makes a snapshot. -/
theorem foldOthers_eq {s : Store} (h : s.Readable) : ∀ (accountIds : List String) {states : States}
    {accounts : List String}, s.Snapshot states accounts →
    ∃ states', foldOthers s.reads states accountIds = .ok states' ∧
      s.Snapshot states' (accounts ++ accountIds) := by
  intro accountIds
  induction accountIds with
  | nil =>
    intro states accounts hstates
    exact ⟨states, rfl, by rwa [List.append_nil]⟩
  | cons accountId accountIds ih =>
    intro states accounts hstates
    rw [foldOthers, List.append_cons]
    split
    next hknown =>
      refine ih ⟨hstates.sound, fun a ha => ?_⟩
      rcases List.mem_append.mp ha with ha | ha
      · exact hstates.complete a ha
      · rw [List.mem_singleton.mp ha]
        exact hknown
    next hunknown =>
      rw [show s.reads.foldStream accountId = .ok (s.account accountId) from foldStream_eq h _,
        ok_bind]
      refine ih ⟨fun a state ha => ?_, fun a ha => ?_⟩
      · rw [List.lookup_append] at ha
        rcases Option.or_eq_some_iff.mp ha with ha | ⟨-, ha⟩
        · exact hstates.sound a state ha
        · rw [Tables.lookup_cons_ite] at ha
          split at ha
          next hid =>
            rw [hid]
            exact (Option.some.inj ha).symm
          next => cases ha
      · rw [List.lookup_append, Option.isSome_or]
        rcases List.mem_append.mp ha with ha | ha
        · rw [hstates.complete a ha, Bool.true_or]
        · rw [List.mem_singleton.mp ha, Tables.lookup_cons_ite, if_pos rfl, Option.isSome_some,
            Bool.or_true]

end Store

/-! ### The ways to decide -/

namespace AccountCommand

/-- The anchor and the legs of a `Transfer` or a `Post`. -/
def postings? : AccountCommand → Option (String × List Leg)
  | transfer c => some (c.accountId, c.legs)
  | post c => some (c.accountId, c.legs)
  | _ => none

/-- A `VoidHold` or an `ExpireHold`. -/
def release? : AccountCommand → Option (Account.ReleaseKind × ReleaseCommand)
  | voidHold c => some (.void, c)
  | expireHold c => some (.expire, c)
  | _ => none

theorem release_of_postings {c : AccountCommand} {p : String × List Leg}
    (h : c.postings? = some p) : c.release? = none := by
  cases c with
  | transfer | post => rfl
  | deposit | withdraw | hold | postHold | voidHold | expireHold | revert => cases h

theorem validLegs {c : AccountCommand} {anchor : String} {legs : List Leg}
    (h : c.postings? = some (anchor, legs)) : ValidLegs anchor legs ∧ c.accountId = anchor := by
  cases c with
  | transfer t => cases h; exact ⟨t.validLegs, rfl⟩
  | post p => cases h; exact ⟨p.validLegs, rfl⟩
  | deposit | withdraw | hold | postHold | voidHold | expireHold | revert => cases h

theorem accountId_of_release {c : AccountCommand} {kind : Account.ReleaseKind} {r : ReleaseCommand}
    (h : c.release? = some (kind, r)) : c.accountId = r.accountId := by
  cases c with
  | voidHold c => cases h; rfl
  | expireHold c => cases h; rfl
  | deposit | withdraw | transfer | post | hold | postHold | revert => cases h

end AccountCommand

open Account

/-- **The events of a command on a store**, with what the decision checked. -/
inductive Decided (s : Store) (request : NormalizedCommand) (now : Datetime) :
    List AccountEvent → Prop
  | deposit {c : Deposit} (command : request.command = .deposit c)
      (admits : Admits (s.account c.accountId) (depositedOf c)) :
      Decided s request now [depositedOf c]
  | withdraw {c : Withdraw} (command : request.command = .withdraw c)
      (admits : Admits (s.account c.accountId) (withdrawnOf c)) :
      Decided s request now [withdrawnOf c]
  | postings {anchor : String} {legs : List Leg} {events : List AccountEvent}
      (command : request.command.postings? = some (anchor, legs))
      (admits : ∀ leg ∈ legs, CanPost (s.account leg.accountId) leg)
      (posted : List.Forall₂
        (fun leg e => postingEvent anchor legs request.commandId leg = .ok e) legs events) :
      Decided s request now events
  | hold {c : Hold} {placed : HoldPlaced} (command : request.command = .hold c)
      (placement : IsPlacement c request.commandId now placed)
      (admits : Admits (s.account c.accountId) (.holdPlaced placed)) :
      Decided s request now [.holdPlaced placed]
  | capture {c : PostHold} {hold : OpenHold} {events : List AccountEvent}
      (command : request.command = .postHold c)
      (found : s.openHold c.accountId c.holdId = .ok (some hold))
      (can : CanCapture (s.account c.accountId) (s.account hold.counterparty) hold c now)
      (captured : Captured c hold events) : Decided s request now events
  | release {kind : ReleaseKind} {c : ReleaseCommand} {hold : OpenHold} {released : HoldReleased}
      (command : request.command.release? = some (kind, c))
      (found : s.openHold c.accountId c.holdId = .ok (some hold))
      (can : CanRelease kind (s.account c.accountId) hold c now)
      (releases : IsRelease kind hold c released) : Decided s request now [.holdReleased released]
  | reversal {c : Revert} {events : List AccountEvent} (command : request.command = .revert c)
      (revertible : Revertible (movementLegs ((s.setOf c.transferId).map EventRow.event)) c none)
      (once : s.revertedBy c.transferId = .ok none)
      (mirrored : List.Forall₂ (fun leg e => IsMirror leg request.commandId c.transferId e ∧
        Admits (s.account leg.accountId) e)
        (movementLegs ((s.setOf c.transferId).map EventRow.event)) events) :
      Decided s request now events

section Deciding

variable {s : Store} (h : s.Readable)

include h

omit h in
theorem snapshot_singleton (a : String) : s.Snapshot [(a, s.account a)] [a] := by
  refine ⟨fun b state hb => ?_, fun b hb => ?_⟩
  · rw [Tables.lookup_cons_ite] at hb
    split at hb
    next heq => rw [heq, ← Option.some.inj hb]
    next => cases hb
  · rw [List.mem_singleton.mp hb, Tables.lookup_cons_ite, if_pos rfl, Option.isSome_some]

omit h in
theorem accountId_of_posted {anchor : String} {legs legs' : List Leg} {transferId : UUID}
    {events : List AccountEvent}
    (hposted : List.Forall₂
      (fun leg e => postingEvent anchor legs' transferId leg = .ok e) legs events) :
    events.map AccountEvent.accountId = legs.map Leg.accountId := by
  induction hposted with
  | nil => rfl
  | cons he _ ih => rw [List.map_cons, List.map_cons, ih, (isPosting_of_ok he).accountId]

omit h in
theorem accountId_of_mirrored {legs : List MovementLeg} {transferId reverts : UUID}
    {P : MovementLeg → AccountEvent → Prop} {events : List AccountEvent}
    (hmirrored : List.Forall₂
      (fun leg e => IsMirror leg transferId reverts e ∧ P leg e) legs events) :
    events.map AccountEvent.accountId = legs.map MovementLeg.accountId := by
  induction hmirrored with
  | nil => rfl
  | cons he _ ih => rw [List.map_cons, List.map_cons, ih, he.1.accountId]

omit h in
theorem accountId_of_captured {c : PostHold} {hold : OpenHold} {events : List AccountEvent}
    (hcaptured : Captured c hold events) :
    ∀ e ∈ events, e.accountId ∈ [c.accountId, hold.counterparty] := by
  cases hcaptured with
  | whole capture all =>
    simp [AccountEvent.accountId, capture.accountId, capture.creditedAccount]
  | part capture rest less =>
    simp [AccountEvent.accountId, capture.accountId, capture.creditedAccount, rest.accountId]

omit h in
theorem accountId_of_movementLegs {events : List AccountEvent} {leg : MovementLeg}
    (hleg : leg ∈ movementLegs events) : leg.accountId ∈ events.map AccountEvent.accountId := by
  obtain ⟨e, he, hsome⟩ := List.mem_filterMap.mp hleg
  rw [MovementLeg.accountId, toEvent_of_movementLeg hsome]
  exact List.mem_map_of_mem he

theorem postingsLegs_eq_ok {anchor : String} {legs : List Leg} {commandId : UUID}
    {out : List (AccountEvent × Int)} :
    postingsLegs s.reads anchor legs (s.account anchor) commandId = .ok out ↔
      ∃ events, (∀ leg ∈ legs, CanPost (s.account leg.accountId) leg) ∧
        List.Forall₂ (fun leg e => postingEvent anchor legs commandId leg = .ok e) legs events ∧
        out = s.number events := by
  obtain ⟨states, hstates, hsnap⟩ :=
    Store.foldOthers_eq h (legs.map Leg.accountId) (snapshot_singleton anchor)
  rw [postingsLegs, hstates, ok_bind, ofExcept_eq_self, bind_eq_ok]
  refine exists_congr fun events => ?_
  rw [decidePostings_eq_ok, and_assoc]
  have hlookup : ∀ leg ∈ legs, states.lookup leg.accountId = some (s.account leg.accountId) :=
    fun leg hleg => hsnap.lookup (List.mem_append_right _ (List.mem_map_of_mem hleg))
  refine and_congr ?_ (and_congr_right fun hposted => ?_)
  · refine forall₂_congr fun leg hleg => ?_
    rw [hlookup leg hleg]
    simp
  · have haccounts : ∀ e ∈ events, e.accountId ∈ [anchor] ++ legs.map Leg.accountId := by
      intro e he
      rw [← accountId_of_posted hposted]
      exact List.mem_append_right _ (List.mem_map_of_mem he)
    rw [hsnap.numberLegs_eq haccounts, Except.ok.injEq, eq_comm]

theorem postHoldLegs_eq_ok {c : PostHold} {now : Datetime} {out : List (AccountEvent × Int)} :
    postHoldLegs s.reads (s.account c.accountId) c now = .ok out ↔
      ∃ events hold, s.openHold c.accountId c.holdId = .ok (some hold) ∧
        CanCapture (s.account c.accountId) (s.account hold.counterparty) hold c now ∧
        Captured c hold events ∧ out = s.number events := by
  rw [postHoldLegs, show s.reads.openHold c.accountId c.holdId = s.openHold c.accountId c.holdId
    from rfl, Store.openHold_eq h, ok_bind]
  cases openHoldFromEvents c.holdId (s.holdEvents c.accountId c.holdId) with
  | none =>
    simp only [ofExcept_eq_self, bind_eq_ok, decidePostHold_eq_ok]
    constructor
    · rintro ⟨_, _, _, _, _, ⟨_, hnone, _⟩, _⟩
      cases hnone
    · rintro ⟨_, _, hnone, _⟩
      cases hnone
  | some hold =>
    obtain ⟨states, hstates, hsnap⟩ :=
      Store.foldOthers_eq h [hold.counterparty] (snapshot_singleton c.accountId)
    simp only [Option.isSome_some, if_true, hstates, ok_bind, ofExcept_eq_self,
      getItem_eq_ok.mpr (hsnap.lookup (a := hold.counterparty) (by simp)), bind_eq_ok,
      decidePostHold_eq_ok, Option.some.injEq, exists_eq_left', Except.ok.injEq]
    refine exists_congr fun events => ?_
    rw [and_assoc]
    refine and_congr_right fun _ => and_congr_right fun hcaptured => ?_
    rw [hsnap.numberLegs_eq (accountId_of_captured hcaptured), Except.ok.injEq, eq_comm]

theorem releaseLegs_eq_ok {kind : ReleaseKind} {c : ReleaseCommand} {now : Datetime}
    {out : List (AccountEvent × Int)} :
    releaseLegs s.reads kind c (s.account c.accountId) now = .ok out ↔
      ∃ released hold, s.openHold c.accountId c.holdId = .ok (some hold) ∧
        CanRelease kind (s.account c.accountId) hold c now ∧ IsRelease kind hold c released ∧
        out = s.number [.holdReleased released] := by
  rw [releaseLegs, show s.reads.openHold c.accountId c.holdId = s.openHold c.accountId c.holdId
    from rfl, Store.openHold_eq h, ok_bind, ofExcept_eq_self, bind_eq_ok]
  refine exists_congr fun released => ?_
  rw [decideReleaseHold_eq_ok, ← exists_and_right]
  refine exists_congr fun hold => ?_
  rw [Except.ok.injEq, and_assoc, and_assoc]
  refine and_congr_right fun _ => and_congr_right fun _ => and_congr_right fun hreleases => ?_
  rw [Store.number_singleton, show (AccountEvent.holdReleased released).accountId = c.accountId
    from hreleases.accountId, pure_eq_ok, Except.ok.injEq, eq_comm]

theorem revertLegs_eq_ok {c : Revert} {commandId : UUID} {out : List (AccountEvent × Int)} :
    revertLegs s.reads c (s.account c.accountId) commandId = .ok out ↔
      ∃ events, Revertible (movementLegs ((s.setOf c.transferId).map EventRow.event)) c none ∧
        s.revertedBy c.transferId = .ok none ∧
        List.Forall₂ (fun leg e => IsMirror leg commandId c.transferId e ∧
          Admits (s.account leg.accountId) e)
          (movementLegs ((s.setOf c.transferId).map EventRow.event)) events ∧
        out = s.number events := by
  obtain ⟨states, hstates, hsnap⟩ := Store.foldOthers_eq h
    (((s.setOf c.transferId).map EventRow.event).map AccountEvent.accountId)
    (snapshot_singleton c.accountId)
  have hmem : ∀ leg ∈ movementLegs ((s.setOf c.transferId).map EventRow.event),
      leg.accountId ∈ [c.accountId] ++
        ((s.setOf c.transferId).map EventRow.event).map AccountEvent.accountId :=
    fun leg hleg => List.mem_append_right _ (accountId_of_movementLegs hleg)
  rw [revertLegs, show s.reads.legsOf c.transferId = s.legsOf c.transferId from rfl,
    Store.legsOf_eq h, ok_bind, hstates, ok_bind,
    show s.reads.revertedBy c.transferId = s.revertedBy c.transferId from rfl,
    Store.revertedBy_eq, ok_bind, ofExcept_eq_self, bind_eq_ok]
  refine exists_congr fun events => ?_
  rw [decideRevert_eq_ok, Except.ok.injEq]
  constructor
  · rintro ⟨⟨hrevertible, hmirrored⟩, hnumber⟩
    have hnone := hrevertible.once
    rw [hnone] at hrevertible
    have hmirrored' : List.Forall₂ (fun leg e => IsMirror leg commandId c.transferId e ∧
        Admits (s.account leg.accountId) e)
        (movementLegs ((s.setOf c.transferId).map EventRow.event)) events := by
      refine ((List.forall₂_and_left _ _).mpr ⟨hmem, hmirrored⟩).imp ?_
      rintro leg e ⟨hleg, state, hstate, hmirror, hadmits⟩
      rw [hsnap.lookup hleg] at hstate
      rw [Option.some.inj hstate]
      exact ⟨hmirror, hadmits⟩
    refine ⟨hrevertible, hnone, hmirrored', ?_⟩
    rw [hsnap.numberLegs_eq, Except.ok.injEq] at hnumber
    · exact hnumber.symm
    · intro e he
      have hacc := List.mem_map_of_mem (f := AccountEvent.accountId) he
      rw [accountId_of_mirrored hmirrored'] at hacc
      obtain ⟨leg, hleg, hleq⟩ := List.mem_map.mp hacc
      rw [← hleq]
      exact hmem leg hleg
  · rintro ⟨hrevertible, hnone, hmirrored, rfl⟩
    refine ⟨⟨hnone ▸ hrevertible, ?_⟩, hsnap.numberLegs_eq ?_⟩
    · refine ((List.forall₂_and_left _ _).mpr ⟨hmem, hmirrored⟩).imp ?_
      rintro leg e ⟨hleg, hmirror, hadmits⟩
      exact ⟨_, hsnap.lookup hleg, hmirror, hadmits⟩
    · intro e he
      have hacc := List.mem_map_of_mem (f := AccountEvent.accountId) he
      rw [accountId_of_mirrored hmirrored] at hacc
      obtain ⟨leg, hleg, hleq⟩ := List.mem_map.mp hacc
      rw [← hleq]
      exact hmem leg hleg

theorem decided_of_decideLegs {request : NormalizedCommand} {now : Datetime}
    {out : List (AccountEvent × Int)}
    (hok : decideLegs s.reads request (s.account request.command.accountId) now = .ok out) :
    ∃ events, Decided s request now events ∧ out = s.number events := by
  rw [decideLegs] at hok
  cases hc : request.command with
  | deposit c =>
    simp only [hc, ofExcept_eq_self] at hok
    obtain ⟨event, hevent, hout⟩ := bind_eq_ok.mp hok
    obtain ⟨rfl, hadmits⟩ := decide_deposit_eq_ok.mp hevent
    exact ⟨_, .deposit hc hadmits, (Except.ok.inj hout).symm⟩
  | withdraw c =>
    simp only [hc, ofExcept_eq_self] at hok
    obtain ⟨event, hevent, hout⟩ := bind_eq_ok.mp hok
    obtain ⟨rfl, hadmits⟩ := decide_withdraw_eq_ok.mp hevent
    exact ⟨_, .withdraw hc hadmits, (Except.ok.inj hout).symm⟩
  | transfer c =>
    simp only [hc] at hok
    obtain ⟨events, hcan, hposted, hout⟩ := (postingsLegs_eq_ok h).mp hok
    exact ⟨events, .postings (by rw [hc]; rfl) hcan hposted, hout⟩
  | post c =>
    simp only [hc] at hok
    obtain ⟨events, hcan, hposted, hout⟩ := (postingsLegs_eq_ok h).mp hok
    exact ⟨events, .postings (by rw [hc]; rfl) hcan hposted, hout⟩
  | hold c =>
    simp only [hc, ofExcept_eq_self] at hok
    obtain ⟨placed, hplaced, hout⟩ := bind_eq_ok.mp hok
    obtain ⟨hplacement, hadmits⟩ := decideHold_eq_ok.mp hplaced
    refine ⟨_, .hold hc hplacement hadmits, ?_⟩
    rw [Store.number_singleton, show (AccountEvent.holdPlaced placed).accountId = c.accountId
      from hplacement.accountId]
    exact (Except.ok.inj hout).symm
  | postHold c =>
    simp only [hc] at hok
    obtain ⟨events, hold, hfound, hcan, hcaptured, hout⟩ := (postHoldLegs_eq_ok h).mp hok
    exact ⟨events, .capture hc hfound hcan hcaptured, hout⟩
  | voidHold c =>
    simp only [hc] at hok
    obtain ⟨released, hold, hfound, hcan, hreleases, hout⟩ := (releaseLegs_eq_ok h).mp hok
    exact ⟨_, .release (by rw [hc]; rfl) hfound hcan hreleases, hout⟩
  | expireHold c =>
    simp only [hc] at hok
    obtain ⟨released, hold, hfound, hcan, hreleases, hout⟩ := (releaseLegs_eq_ok h).mp hok
    exact ⟨_, .release (by rw [hc]; rfl) hfound hcan hreleases, hout⟩
  | revert c =>
    simp only [hc] at hok
    obtain ⟨events, hrevertible, honce, hmirrored, hout⟩ := (revertLegs_eq_ok h).mp hok
    exact ⟨events, .reversal hc hrevertible honce hmirrored, hout⟩

theorem decideLegs_of_decided {request : NormalizedCommand} {now : Datetime}
    {events : List AccountEvent} (hdecided : Decided s request now events) :
    decideLegs s.reads request (s.account request.command.accountId) now =
      .ok (s.number events) := by
  rw [decideLegs]
  cases hdecided with
  | deposit command admits =>
    simp only [command, ofExcept_eq_self]
    exact bind_of (decide_deposit_eq_ok.mpr ⟨rfl, admits⟩) _
  | withdraw command admits =>
    simp only [command, ofExcept_eq_self]
    exact bind_of (decide_withdraw_eq_ok.mpr ⟨rfl, admits⟩) _
  | postings command admits posted =>
    have hlegs := (postingsLegs_eq_ok h).mpr ⟨events, admits, posted, rfl⟩
    cases hc : request.command with
    | transfer c => rw [hc] at command; cases command; exact hlegs
    | post c => rw [hc] at command; cases command; exact hlegs
    | deposit | withdraw | hold | postHold | voidHold | expireHold | revert =>
      rw [hc] at command
      cases command
  | @hold c placed command placement admits =>
    simp only [command, ofExcept_eq_self]
    refine (bind_of (decideHold_eq_ok.mpr ⟨placement, admits⟩) _).trans ?_
    rw [Store.number_singleton, show (AccountEvent.holdPlaced placed).accountId = c.accountId
      from placement.accountId]
    rfl
  | capture command found can captured =>
    simp only [command]
    exact (postHoldLegs_eq_ok h).mpr ⟨events, _, found, can, captured, rfl⟩
  | @release kind c hold released command found can releases =>
    have hlegs := (releaseLegs_eq_ok h).mpr ⟨released, hold, found, can, releases, rfl⟩
    cases hc : request.command with
    | voidHold c => rw [hc] at command; cases command; exact hlegs
    | expireHold c => rw [hc] at command; cases command; exact hlegs
    | deposit | withdraw | transfer | post | hold | postHold | revert =>
      rw [hc] at command
      cases command
  | reversal command revertible once mirrored =>
    simp only [command]
    exact (revertLegs_eq_ok h).mpr ⟨events, revertible, once, mirrored, rfl⟩

/-- **The legs of a decision** are decided events, numbered. -/
theorem decideLegs_eq_ok {request : NormalizedCommand} {now : Datetime}
    {out : List (AccountEvent × Int)} :
    decideLegs s.reads request (s.account request.command.accountId) now = .ok out ↔
      ∃ events, Decided s request now events ∧ out = s.number events :=
  ⟨decided_of_decideLegs h, fun ⟨_, hdecided, hout⟩ => hout ▸ decideLegs_of_decided h hdecided⟩

end Deciding

end Cloudscale
