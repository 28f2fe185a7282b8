import Cloudscale.Ledger.Holds
import Cloudscale.Ledger.Idempotency

/-!
# When a call is accepted

Decided events fit into the log just when the event ids are new (`fits_legRows`):
their versions follow on those of their streams.  So a call under a new command
id is accepted when its command can be decided, its streams have room and its
event ids are new (`accepts_of_decided`).

For a posting set this is an equivalence (`answered_postings_iff`): the store
accepts it just when it replays an accepted result or every guard holds.
-/

namespace Cloudscale

open Checked Python Streams Account

/-- The first `n` event ids are new to the log and to each other. -/
structure Store.NewIds (s : Store) (eventIds : Nat → UUID) (n : Nat) : Prop where
  unused : ∀ i < n, ∀ r ∈ s.events, r.eventId ≠ eventIds i
  distinct : ∀ j < n, ∀ i < j, eventIds i ≠ eventIds j

/-! ### Fitting -/

section Fitting

variable {s : Store} {request : NormalizedCommand} {now : Datetime} {eventIds : Nat → UUID}

theorem Fits.excludes : ∀ {rows events : List EventRow}, Fits events rows →
    (∀ r ∈ events, ∀ row ∈ rows, ¬ Clash r row) ∧ rows.Pairwise (fun r r' => ¬ Clash r r') := by
  intro rows
  induction rows with
  | nil => intro events _; exact ⟨(fun _ _ _ h => nomatch h), List.Pairwise.nil⟩
  | cons row rows ih =>
    rintro events ⟨hrow, hrows⟩
    obtain ⟨hevents, hpair⟩ := ih hrows
    refine ⟨fun r hr row' hrow' => ?_, List.Pairwise.cons (fun row' hrow' => ?_) hpair⟩
    · rcases List.mem_cons.mp hrow' with rfl | hrow'
      · exact hrow r hr
      · exact hevents r (List.mem_append_left _ hr) row' hrow'
    · exact hevents row (List.mem_append_right _ (List.mem_singleton.mpr rfl)) row' hrow'

theorem map_eventId_legRows : ∀ {n : Nat} {legs : List (AccountEvent × Int)},
    (legRows request now eventIds n legs).map EventRow.eventId =
      (List.range' n legs.length).map eventIds := by
  intro n legs
  induction legs generalizing n with
  | nil => rfl
  | cons leg legs ih =>
    rw [legRows, List.map_cons, ih, List.length_cons, List.range'_succ, List.map_cons]
    rfl

theorem length_number (s : Store) (events : List AccountEvent) :
    (s.number events).length = events.length := by
  rw [← (s.map_fst_number_perm events).length_eq, List.length_map]

/-- The rows of a decision have one number each, in their streams. -/
theorem pairwise_seq_legRows (events : List AccountEvent) :
    (legRows request now eventIds 0 (s.number events)).Pairwise
      (fun r r' => r.event.accountId = r'.event.accountId → r.seq ≠ r'.seq) := by
  refine pairwise_of_filter (R := fun r r' : EventRow => r.seq ≠ r'.seq) fun a => ?_
  have hpair : (numberFrom (s.account a).version
      (events.filter (fun e => e.accountId = a))).Pairwise (fun p q => p.2 < q.2) :=
    pairwise_numberFrom
  rw [← filter_account_legRows s request now eventIds, List.pairwise_map] at hpair
  exact hpair.imp fun h => ne_of_lt h

theorem version_lt_of_mem_legRows {events : List AccountEvent} {row : EventRow}
    (hrow : row ∈ legRows request now eventIds 0 (s.number events)) :
    (s.account row.event.accountId).version < row.seq := by
  have hmem : (row.event, row.seq) ∈ numberFrom (s.account row.event.accountId).version
      (events.filter (fun e => e.accountId = row.event.accountId)) := by
    rw [← filter_account_legRows s request now eventIds]
    exact List.mem_map.mpr ⟨row, List.mem_filter.mpr ⟨hrow, by simp⟩, rfl⟩
  exact (lt_of_mem_numberFrom hmem).1

/-- **The rows of a decision fit just when their ids are new.** -/
theorem fits_legRows (hs : s.Readable) (events : List AccountEvent) :
    Fits s.events (legRows request now eventIds 0 (s.number events)) ↔
      s.NewIds eventIds events.length := by
  have hids : (legRows request now eventIds 0 (s.number events)).map EventRow.eventId =
      (List.range' 0 (s.number events).length).map eventIds := map_eventId_legRows
  rw [length_number, ← List.range_eq_range'] at hids
  constructor
  · intro hfits
    obtain ⟨hevents, hpair⟩ := hfits.excludes
    refine ⟨fun i hi r hr heq => ?_, fun j hj i hij heq => ?_⟩
    · have hmem : eventIds i ∈
          (legRows request now eventIds 0 (s.number events)).map EventRow.eventId := by
        rw [hids]
        exact List.mem_map_of_mem (List.mem_range.mpr hi)
      obtain ⟨row, hrow, hid⟩ := List.mem_map.mp hmem
      exact hevents r hr row hrow (Or.inr (heq.trans hid.symm))
    · have hne : ((List.range events.length).map eventIds).Pairwise (· ≠ ·) := by
        rw [← hids, List.pairwise_map]
        exact hpair.imp fun hclash heq => hclash (Or.inr heq)
      have hlength : j < ((List.range events.length).map eventIds).length := by simpa using hj
      have := List.pairwise_iff_getElem.mp hne i j (hij.trans hlength) hlength hij
      simp only [List.getElem_map, List.getElem_range] at this
      exact this heq
  · intro hnew
    refine fits_of_pairwise (fun r hr row hrow => ?_) ?_
    · rintro (⟨hstream, hseq⟩ | hid)
      · have haccount : r.event.accountId = row.event.accountId := streamName_injective hstream
        have hle := (Store.seq_of_mem hs (a := row.event.accountId)
          (List.mem_filter.mpr ⟨hr, by simpa using haccount⟩)).2
        have hlt := version_lt_of_mem_legRows hrow
        omega
      · obtain ⟨i, leg, -, hi, -, rfl⟩ := exists_of_mem_legRows hrow
        rw [length_number, zero_add] at hi
        exact hnew.unused i hi r hr hid
    · have hne : (legRows request now eventIds 0 (s.number events)).Pairwise
          (fun r r' => r.eventId ≠ r'.eventId) := by
        rw [← List.pairwise_map (f := EventRow.eventId) (R := (· ≠ ·)), hids, List.pairwise_map]
        refine List.pairwise_lt_range.imp_of_mem fun hi hj hij => ?_
        exact hnew.distinct _ (List.mem_range.mp hj) _ hij
      refine hne.imp₂ (fun r r' hid hseq => ?_) (pairwise_seq_legRows events)
      rintro (⟨hstream, heq⟩ | heq)
      · exact hseq (streamName_injective hstream) heq
      · exact hid heq

def Store.HasRoom (s : Store) (events : List AccountEvent) : Prop :=
  ∀ a, (s.account a).version + (events.filter (fun e => e.accountId = a)).length ≤ maxSignedBigint

theorem number_of_hasRoom {events : List AccountEvent} (h : s.HasRoom events) :
    ∀ leg ∈ s.number events, 1 ≤ leg.2 ∧ leg.2 ≤ maxSignedBigint := by
  intro leg hleg
  have hmem : leg ∈ numberFrom (s.account leg.1.accountId).version
      (events.filter (fun e => e.accountId = leg.1.accountId)) := by
    rw [← s.filter_number]
    exact List.mem_filter.mpr ⟨hleg, by simp⟩
  have hbounds := lt_of_mem_numberFrom hmem
  have hnonneg := (s.account leg.1.accountId).valid.version_nonneg
  have hroom := h leg.1.accountId
  omega

theorem hasRoom_of_nodup {events : List AccountEvent}
    (hnodup : (events.map AccountEvent.accountId).Nodup)
    (h : ∀ e ∈ events, (s.account e.accountId).version ≠ maxSignedBigint) : s.HasRoom events := by
  intro a
  have hle := (s.account a).valid.version_le
  rcases filter_of_nodup hnodup a with hnone | ⟨e, he, rfl, hone⟩
  · rw [hnone]
    simpa using hle
  · have hne := h e he
    rw [hone, List.length_singleton]
    push_cast
    omega

end Fitting

/-! ### Accepting -/

section Accepting

variable {s : Store} {call : Call}

/-- The result of the call is an accepted one. -/
def Answered (s : Store) (call : Call) : Prop :=
  ∃ r, (execute s call).1 = .ok r ∧ r.outcome = .accepted

/-- **A new command id, a decision, room, events that fold and new event ids**: the call is
accepted. -/
theorem accepts_of_decided (hs : s.Readable)
    (hfresh : ∀ row ∈ s.results, row.commandId ≠ call.request.commandId)
    (hversion : call.request.command.expectedVersion =
      (s.account call.request.command.accountId).version)
    {events : List AccountEvent} (hdecided : Decided s call.request (call.clock 0) events)
    (hroom : s.HasRoom events) (habsorbs : s.Absorbs events)
    (hnew : s.NewIds call.eventIds events.length) : Answered s call :=
  execute_accepts hs hfresh hversion hdecided hdecided.addressed (number_of_hasRoom hroom)
    ((fits_legRows hs events).mpr hnew) habsorbs

/-- The result of the call is the replay of an accepted one. -/
def Replays (s : Store) (call : Call) : Prop :=
  ∃ r, s.storedResult call.request.commandId = .ok (some r) ∧
    r.requestHash = call.request.requestHash ∧ r.outcome = .accepted

/-- Every guard of a posting set with these legs holds. -/
structure PostingGuards (s : Store) (call : Call) (legs : List Leg) : Prop where
  fresh : ∀ row ∈ s.results, row.commandId ≠ call.request.commandId
  version : call.request.command.expectedVersion =
    (s.account call.request.command.accountId).version
  can : ∀ leg ∈ legs, CanPost (s.account leg.accountId) leg
  newIds : s.NewIds call.eventIds legs.length

/-- **A posting set is accepted just when it is replayed or every guard holds.** -/
theorem answered_postings_iff (hs : s.Readable) {anchor : String} {legs : List Leg}
    (hcommand : call.request.command.postings? = some (anchor, legs)) :
    Answered s call ↔ Replays s call ∨ PostingGuards s call legs := by
  obtain ⟨hvalid, -⟩ := AccountCommand.validLegs hcommand
  constructor
  · rintro ⟨r, hresult, houtcome⟩
    have hexecuted := executed_of_ok hs hresult
    generalize next s call = s' at hexecuted
    cases hexecuted with
    | replayed found same => exact Or.inl ⟨r, found, same, houtcome⟩
    | conflicted _ _ outcome =>
      rw [outcome] at houtcome
      cases houtcome
    | rejected _ outcome => exact absurd houtcome outcome.1
    | accepted fresh version decided versions fits =>
      obtain ⟨hcan, hlength⟩ : (∀ leg ∈ legs, CanPost (s.account leg.accountId) leg) ∧
          legs.length = _ := by
        cases decided with
        | postings command admits posted =>
          rw [hcommand] at command
          cases command
          exact ⟨admits, posted.length_eq⟩
        | deposit command | withdraw command | hold command | capture command
        | reversal command => rw [command] at hcommand; cases hcommand
        | release command =>
          rw [AccountCommand.release_of_postings hcommand] at command
          cases command
      refine Or.inr ⟨fresh, version, hcan, ?_⟩
      rw [hlength]
      exact (fits_legRows hs _).mp fits
  · rintro (⟨r, hstored, hsame, houtcome⟩ | hguards)
    · exact ⟨r, by rw [execute_replay hstored hsame], houtcome⟩
    · obtain ⟨events, hevents⟩ := exists_mapM_of_forall
        (fun leg hleg => postingEvent_of_valid hvalid hleg call.request.commandId)
      have hposted := mapM_eq_ok.mp hevents
      have hadmits := postings_admits hposted hguards.can
      have hnodup : (events.map AccountEvent.accountId).Nodup := by
        rw [accountId_of_posted hposted]
        exact hvalid.nodup
      refine accepts_of_decided hs hguards.fresh hguards.version
        (.postings hcommand hguards.can hposted)
        (hasRoom_of_nodup hnodup fun e he => (hadmits e he).version)
        (absorbs_of_nodup hnodup hadmits) ?_
      rw [← hposted.length_eq]
      exact hguards.newIds

/-- **An open hold whose time is over is released** by an expiry under a new
command id, at the current version. -/
theorem answered_expiry (hs : s.Coherent) {c : ExpireHold} {hold : OpenHold}
    (hcommand : call.request.command = .expireHold c)
    (hfresh : ∀ row ∈ s.results, row.commandId ≠ call.request.commandId)
    (hversion : c.expectedVersion = (s.account c.accountId).version)
    (hroom : (s.account c.accountId).version ≠ maxSignedBigint)
    (hfound : s.openHold c.accountId c.holdId = .ok (some hold))
    (hexpired : hold.expiredAt (call.clock 0))
    (hnew : ∀ r ∈ s.events, r.eventId ≠ call.eventIds 0) : Answered s call := by
  obtain ⟨released, hcan, hrelease, -⟩ := hs.decideReleaseHold_of .expire hfound
    (fun _ => hexpired) hroom
  have haccount : (AccountEvent.holdReleased released).accountId = c.accountId := hrelease.accountId
  refine accepts_of_decided hs.readable hfresh (by rw [hcommand]; exact hversion)
    (.release (by rw [hcommand]; rfl) hfound hcan hrelease) ?_
    (absorbs_singleton (by rw [haccount]; exact hcan.admits hrelease)) ⟨?_, ?_⟩
  · refine hasRoom_of_nodup (List.nodup_singleton _) fun e he => ?_
    rw [List.mem_singleton.mp he, haccount]
    exact hroom
  · intro i hi r hr
    rw [List.length_singleton, Nat.lt_one_iff] at hi
    rw [hi]
    exact hnew r hr
  · intro j hj i hij
    rw [List.length_singleton] at hj
    omega

end Accepting

end Cloudscale
