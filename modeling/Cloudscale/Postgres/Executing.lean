import Cloudscale.Ledger.Executing
import Cloudscale.Postgres.Deciding

/-!
# What an attempt writes

`Planned` says that legs are sorted by account and numbered on from what was read.
While they are appended (`Writing`), the streams may have grown past what was read
(`Behind`).  Then an insert meets a committed key; and as long as none does, nobody else
has written on these streams, and the numbers are the next ones.  That is what an attempt
owes at each of its inserts (`wp_appendEvent`).

`Ended` lists the ways in which an attempt ends, and `wp_decision` says that these are
all.
-/

namespace Cloudscale.Postgres

open Checked Python ReadCommitted LogRow Streams Account

variable {Row : Type} [LogRow Row]

/-! ### Plans -/

/-- Legs sorted by account and numbered by stream. -/
structure Planned (version : String → Int) (legs : List (AccountEvent × Int)) : Prop where
  numbered : ∀ a, legs.filter (fun leg => leg.1.accountId = a) =
    numberFrom (version a) ((legs.map Prod.fst).filter (fun e => e.accountId = a))
  sorted : legs.Pairwise (fun leg leg' => leg.1.accountId ≤ leg'.1.accountId)

/-- The version of an account among states. -/
def versionIn (states : States) (a : String) : Int :=
  ((states.lookup a).map AccountState.version).getD 0

theorem numberLegs_eq_ok {states : States} {events : List AccountEvent}
    {legs : List (AccountEvent × Int)} (h : numberLegs states events = .ok legs) :
    legs = sortLegs (numberEach AccountEvent.accountId (versionIn states) events) ∧
      ∀ e ∈ events, (states.lookup e.accountId).isSome := by
  rw [numberLegs] at h
  obtain ⟨numbered, hnumbered, hlegs⟩ := bind_eq_ok.mp h
  have hsome : ∀ e ∈ events, (states.lookup e.accountId).isSome := by
    intro e he
    have hlookup := numberEvents_known hnumbered e he
    rwa [lookup_versions, Option.isSome_map] at hlookup
  refine ⟨?_, hsome⟩
  rw [numberEvents_eq (versionIn states), Except.ok.injEq] at hnumbered
  · cases hlegs
    rw [hnumbered]
  · intro e he
    obtain ⟨state, hstate⟩ := Option.isSome_iff_exists.mp (hsome e he)
    rw [lookup_versions, versionIn, hstate]
    rfl

theorem mem_events_of_numberLegs {states : States} {events : List AccountEvent}
    {legs : List (AccountEvent × Int)} (h : numberLegs states events = .ok legs) :
    (legs.map Prod.fst).Perm events := by
  rw [(numberLegs_eq_ok h).1]
  have hperm := (List.perm_insertionSort (fun leg leg' : AccountEvent × Int =>
    leg.1.accountId ≤ leg'.1.accountId)
    (numberEach AccountEvent.accountId (versionIn states) events)).map Prod.fst
  rwa [map_fst_numberEach] at hperm

theorem planned_of_numberLegs {states : States} {events : List AccountEvent}
    {legs : List (AccountEvent × Int)} (h : numberLegs states events = .ok legs) :
    Planned (versionIn states) legs := by
  obtain ⟨rfl, -⟩ := numberLegs_eq_ok h
  refine ⟨fun a => ?_, List.pairwise_insertionSort _ _⟩
  have hfilter : (sortLegs (numberEach AccountEvent.accountId (versionIn states) events)).filter
      (fun leg => leg.1.accountId = a) =
      numberFrom (versionIn states a) (events.filter (fun e => e.accountId = a)) := by
    have hsorted := filter_insertionSort (fun leg : AccountEvent × Int => leg.1.accountId) a
    rw [sortLegs, hsorted]
    exact filter_numberEach AccountEvent.accountId a
  have hevents := congrArg (List.map Prod.fst) hfilter
  rw [map_fst_numberFrom] at hevents
  rw [hfilter, List.filter_map, ← hevents]
  rfl

section Planned

variable {version : String → Int} {legs front back : List (AccountEvent × Int)}
  {leg : AccountEvent × Int}

/-- **The number of a leg** counts the legs of its stream before it. -/
theorem Planned.seq_eq (h : Planned version legs) (hlegs : legs = front ++ leg :: back) :
    leg.2 = version leg.1.accountId +
      (front.filter (fun p => p.1.accountId = leg.1.accountId)).length + 1 := by
  have hnumbered := h.numbered leg.1.accountId
  rw [hlegs, List.filter_append, List.filter_cons_of_pos (by simp), List.map_append, List.map_cons,
    List.filter_append, List.filter_cons_of_pos (by simp), numberFrom_append, numberFrom_cons] at hnumbered
  have hlength : ((front.map Prod.fst).filter (fun e => e.accountId = leg.1.accountId)).length =
      (front.filter (fun p => p.1.accountId = leg.1.accountId)).length := by
    rw [List.filter_map, List.length_map]
    rfl
  obtain ⟨-, htail⟩ := List.append_inj hnumbered (by rw [length_numberFrom, hlength])
  have hleg := congrArg Prod.snd (List.cons.inj htail).1
  rw [hlength] at hleg
  exact hleg

theorem Planned.map_snd_front (h : Planned version legs) (hlegs : legs = front ++ back)
    (a : String) : (front.filter (fun p => p.1.accountId = a)).map Prod.snd =
      consecutive (version a) (front.filter (fun p => p.1.accountId = a)).length := by
  have hnumbered := h.numbered a
  rw [hlegs, List.filter_append, List.map_append, List.filter_append, numberFrom_append] at hnumbered
  have hlength : ((front.map Prod.fst).filter (fun e => e.accountId = a)).length =
      (front.filter (fun p => p.1.accountId = a)).length := by
    rw [List.filter_map, List.length_map]
    rfl
  obtain ⟨hfront, -⟩ := List.append_inj hnumbered (by rw [length_numberFrom, hlength])
  have hseqs := congrArg (List.map Prod.snd) hfront
  rwa [map_snd_numberFrom, hlength] at hseqs

/-- **Legs are in the order of their keys.** -/
theorem Planned.before (h : Planned version legs) (hlegs : legs = front ++ leg :: back)
    {p : AccountEvent × Int} (hp : p ∈ front) :
    p.1.accountId < leg.1.accountId ∨ p.1.accountId = leg.1.accountId ∧ p.2 < leg.2 := by
  have hsorted := h.sorted
  rw [hlegs] at hsorted
  have hle := (List.pairwise_append.mp hsorted).2.2 p hp leg List.mem_cons_self
  refine hle.lt_or_eq.imp_right fun heq => ⟨heq, ?_⟩
  obtain ⟨front', back', rfl⟩ := List.append_of_mem hp
  have hfront : legs = front' ++ p :: (back' ++ leg :: back) := by
    rw [hlegs, List.append_assoc, List.cons_append]
  rw [h.seq_eq hlegs, h.seq_eq hfront, heq,
    List.filter_append, List.filter_cons_of_pos (by simpa using heq), List.length_append,
    List.length_cons]
  push_cast
  omega

end Planned

theorem streamName_lt {a b : String} (h : a < b) : streamName a < streamName b := by
  rw [String.lt_iff_toList_lt] at h ⊢
  rw [streamName, streamName, String.toList_append, String.toList_append]
  exact List.append_left_lt h

/-! ### Appending -/

/-- The streams of the legs have at least what was read of them, and as long as they have no more,
their ids are below the floor. -/
def Behind (version : String → Int) (floor : ℕ) (legs : List (AccountEvent × Int))
    (db : Database Row) : Prop :=
  ∀ leg ∈ legs, 0 ≤ version leg.1.accountId ∧
    version leg.1.accountId ≤ db.count (streamName leg.1.accountId) ∧
    ((db.count (streamName leg.1.accountId) : Int) = version leg.1.accountId →
      ∀ x ∈ db.events, stream x.2 = streamName leg.1.accountId → x.1 < floor)

/-- The rows of these legs have been written. -/
def RowsOf (done : List (AccountEvent × Int)) (own : Written Row) : Prop :=
  own.events.map (fun r => (stream r.2, seq r.2)) =
    done.map (fun leg => (streamName leg.1.accountId, leg.2))

/-- Of the legs these are appended, with ids from the floor on. -/
structure Writing (floor : ℕ) (done : List (AccountEvent × Int)) (own : Written Row) : Prop where
  rows : RowsOf done own
  above : ∀ id ∈ own.drawn, floor ≤ id
  results : own.results = []
  relaying : own.relaying = false

/-- The rows of legs, with the event ids from the `n`-th on, and what the loop makes of its
postings and of the envelope on the addressed stream. -/
inductive LegRows (call : Call) (now : Datetime) : ℕ → List (AccountEvent × Int) →
    List Posting × Option EventEnvelope → List Row → List Posting × Option EventEnvelope → Prop
  | nil (n : ℕ) (p : List Posting × Option EventEnvelope) : LegRows call now n [] p [] p
  | cons {n : ℕ} {leg : AccountEvent × Int} {legs : List (AccountEvent × Int)}
      {envelope : EventEnvelope} {posting : Posting} {rows : List Row} {postings : List Posting}
      {addressed : Option EventEnvelope} {p : List Posting × Option EventEnvelope}
      (wraps : EventEnvelope.fromDomainEvent leg.1 (call.eventIds n) leg.2 now
        call.request.correlationId call.request.commandId call.request.commandId = .ok envelope)
      (posts : Posting.new leg.1.accountId envelope.eventId leg.2 = .ok posting)
      (rest : LegRows call now (n + 1) legs (setPosting posting postings,
        if leg.1.accountId = call.request.command.accountId then some envelope else addressed) rows p) :
      LegRows call now n (leg :: legs) (postings, addressed) (ofEnvelope envelope leg.1 :: rows) p

/-- The statement wrote something that the transaction still has, or nothing. -/
def Wrote (own : Written Row) (step : Step Row) : Prop :=
  match step.op with
  | .reading | .issue | .nextId | .writeSnapshot _ => True
  | .insertEvent id row => (id, row) ∈ own.events ∧
    exec (.insertEvent id row) step.seen step.own = .ok ((), step.own.withEvent id row)
  | .insertResult row => row ∈ own.results ∧
    exec (.insertResult row) step.seen step.own = .ok ((), step.own.withResult row)
  | _ => False

theorem Wrote.mono {own own' : Written Row} {step : Step Row} (h : Wrote own step)
    (hevents : own.events ⊆ own'.events) (hresults : own.results ⊆ own'.results) :
    Wrote own' step := by
  obtain ⟨op, own₀, t⟩ := step
  cases op with
  | reading | issue | nextId | writeSnapshot => trivial
  | insertEvent id row => exact ⟨hevents h.1, h.2⟩
  | insertResult row => exact ⟨hresults h.1, h.2⟩
  | storedResult | foldStream | openHold | legsOf | revertedBy | nextSeq | lockRelay | pending | head
  | insertOutbox | markPublished | feed => exact h

section Appending

variable {version : String → Int} {floor : ℕ} {legs done rest : List (AccountEvent × Int)}
  {leg : AccountEvent × Int} {db db' : Database Row} {own : Written Row}

theorem Behind.grows (h : Behind version floor legs db) (hgrows : Grows db db') :
    Behind version floor legs db' := by
  intro leg hleg
  obtain ⟨hpos, hle, hfloor⟩ := h leg hleg
  have hmono := hgrows.count_le (streamName leg.1.accountId)
  refine ⟨hpos, by omega, fun heq x hx hstream => ?_⟩
  have hsame : onStream db'.events (streamName leg.1.accountId) = onStream db.events _ :=
    hgrows.onStream_eq (by omega)
  have hmem : x ∈ onStream db'.events (streamName leg.1.accountId) := mem_onStream.mpr ⟨hx, hstream⟩
  rw [hsame] at hmem
  exact hfloor (by omega) x (mem_onStream.mp hmem).1 hstream

/-- The own rows of a stream are its legs so far. -/
theorem RowsOf.onStream_eq (h : RowsOf done own) (a : String) :
    (onStream own.events (streamName a)).map (fun r => seq r.2) =
      (done.filter (fun leg => leg.1.accountId = a)).map Prod.snd := by
  have hleft : (onStream own.events (streamName a)).map (fun r => seq r.2) =
      ((own.events.map (fun r => (stream r.2, seq r.2))).filter
        (fun p => p.1 = streamName a)).map Prod.snd := by
    rw [List.filter_map, List.map_map]
    rfl
  rw [hleft, h, List.filter_map, List.map_map]
  refine congrArg (List.map _) (List.filter_congr fun leg _ => ?_)
  simp only [Function.comp_apply, streamName_injective.eq_iff]

theorem RowsOf.length_onStream (h : RowsOf done own) (a : String) :
    (onStream own.events (streamName a)).length =
      (done.filter (fun leg => leg.1.accountId = a)).length := by
  have hlength := congrArg List.length (h.onStream_eq a)
  rwa [List.length_map, List.length_map] at hlength

/-- If some legs of a stream could be inserted, it has not grown since it was read. -/
theorem RowsOf.count_eq (h : RowsOf done own) (hplanned : Planned version legs)
    (hlegs : legs = done ++ rest) (howns : Owns db own) {a : String}
    (hne : onStream own.events (streamName a) ≠ []) :
    (db.count (streamName a) : Int) = version a := by
  have hseqs := howns.seqs (streamName a)
  rw [h.onStream_eq, hplanned.map_snd_front hlegs, h.length_onStream] at hseqs
  obtain ⟨n, hn⟩ : ∃ n, (done.filter (fun leg => leg.1.accountId = a)).length = n + 1 := by
    refine ⟨_, (Nat.succ_pred ?_).symm⟩
    rw [← h.length_onStream a]
    exact fun hzero => hne (List.length_eq_zero_iff.mp hzero)
  rw [hn, consecutive_cons, consecutive_cons] at hseqs
  have hhead := (List.cons.inj hseqs).1
  omega

/-- **What is owed at the insert of a leg.** -/
theorem Writing.inserts (hwriting : Writing floor done own) (hplanned : Planned version legs)
    (hlegs : legs = done ++ leg :: rest) (hbehind : Behind version floor legs db)
    (hdb : Numbered db) (howns : Owns db own) {id : ℕ} (hid : id ∈ own.drawn)
    (hlast : ∀ r ∈ own.events, r.1 < id) {row : Row}
    (hstream : stream row = streamName leg.1.accountId) (hseq : seq row = leg.2) :
    Inserts db own id row := by
  refine ⟨hid, fun r hr => ⟨hlast r hr, ?_⟩, fun hfits => ?_⟩
  · have hmem : (stream r.2, seq r.2) ∈ done.map (fun leg => (streamName leg.1.accountId, leg.2)) := by
      rw [← hwriting.rows]
      exact List.mem_map_of_mem (f := fun r : ℕ × Row => (stream r.2, seq r.2)) hr
    obtain ⟨p, hp, heq⟩ := List.mem_map.mp hmem
    obtain ⟨hpstream, hpseq⟩ := Prod.mk.inj heq
    rw [Before, hstream, hseq, ← hpstream, ← hpseq]
    rcases hplanned.before hlegs hp with hlt | ⟨hsame, hlt⟩
    · exact Or.inl (streamName_lt hlt)
    · exact Or.inr ⟨by rw [hsame], hlt⟩
  · have hleg : leg ∈ legs := by
      rw [hlegs]
      exact List.mem_append_right _ List.mem_cons_self
    obtain ⟨hpos, hle, hfloor⟩ := hbehind leg hleg
    have hnumber := hplanned.seq_eq hlegs
    -- The stream has not grown: its next number would be taken.
    have hcount : (db.count (streamName leg.1.accountId) : Int) = version leg.1.accountId := by
      by_cases hnil : onStream own.events (streamName leg.1.accountId) = []
      · by_contra hne
        rw [← hwriting.rows.length_onStream, hnil, List.length_nil] at hnumber
        obtain ⟨x, hx, hxstream, hxseq⟩ : ∃ x ∈ db.events,
            stream x.2 = streamName leg.1.accountId ∧ seq x.2 = leg.2 :=
          hdb.exists_of_le (by omega) (by omega)
        refine hfits x (List.mem_append_left _ hx) (Or.inl ⟨?_, ?_⟩)
        · rw [hxstream, hstream]
        · rw [hxseq, hseq]
      · exact hwriting.rows.count_eq hplanned hlegs howns hnil
    rw [← hwriting.rows.length_onStream] at hnumber
    rw [hstream, hseq]
    refine ⟨by omega, fun x hx hxstream r hr => ?_⟩
    have hxfloor := hfloor hcount x hx hxstream
    rcases List.mem_append.mp hr with hr | hr
    · exact hxfloor.trans_le (hwriting.above _ (howns.drawn r hr))
    · rw [List.mem_singleton.mp hr]
      exact hxfloor.trans_le (hwriting.above _ hid)

/-- **One leg**: it is appended, or the insert meets a committed key. -/
theorem wp_appendEvent {attempt : Attempt} {envelope : EventEnvelope} (hplanned : Planned version legs)
    (hlegs : legs = done ++ leg :: rest) (hversion : envelope.streamVersion = leg.2)
    (hwriting : Writing floor done own) (hbehind : Behind version floor legs db)
    (hfloor : floor ≤ db.nextId) {past : List (Step Row)} :
    Guarantees (fun r t own' past' => match r with
      | .ok _ => Writing floor (done ++ [leg]) own' ∧ Grows db t ∧ own'.issued = own.issued ∧
        own'.readings = own.readings ∧
        (∃ id, own'.events = own.events ++ [(id, ofEnvelope envelope leg.1)]) ∧
        ∃ more, past' = past ++ more ∧ ∀ step ∈ more, Wrote own' step
      | .error e => e = .integrityError) (appendEvent attempt envelope leg.1) db own past := by
  refine wp_bind (wp_statement fun t ht hholds => ⟨Owes.of_keys_nil rfl t own, ?_,
    (fun _ h => nomatch h)⟩)
  rintro _ _ ⟨⟩ u hu -
  set row : Row := ofEnvelope envelope leg.1
  have hstream : stream row = streamName leg.1.accountId := stream_ofEnvelope envelope leg.1
  have hseq : seq row = leg.2 := (seq_ofEnvelope envelope leg.1).trans hversion
  have hdrawn : Writing floor done (own.withId t.nextId) := by
    refine ⟨hwriting.rows, fun id hid => ?_, hwriting.results, hwriting.relaying⟩
    rcases List.mem_append.mp hid with hid | hid
    · exact hwriting.above id hid
    · rw [List.mem_singleton.mp hid]
      exact hfloor.trans ht.nextId
  have hafter : Writing floor (done ++ [leg]) ((own.withId t.nextId).withEvent t.nextId row) := by
    refine ⟨?_, hdrawn.above, hwriting.results, hwriting.relaying⟩
    show (own.events ++ [(t.nextId, row)]).map (fun r => (stream r.2, seq r.2)) = _
    rw [List.map_append, List.map_append, hwriting.rows, List.map_singleton, List.map_singleton,
      hstream, hseq]
  refine wp_bind (wp_statement fun t' ht' hholds' => ?_)
  have hgrows : Grows db t' := (ht.trans hu).trans ht'
  refine ⟨⟨fun _ => ⟨hdrawn.results, hdrawn.relaying⟩, fun id row' heq => ?_, (fun _ h => nomatch h),
    (fun h => nomatch h)⟩, fun _ own₂ hexec u' hu' _ => ?_, fun e herror _ => insertEvent_error herror⟩
  · cases heq
    refine hdrawn.inserts hplanned hlegs (hbehind.grows hgrows) hholds'.inv hholds'.owns
      (List.mem_append_right _ List.mem_cons_self) (fun r hr => ?_) hstream hseq
    exact (hholds.owns.fresh r.1 (hholds.owns.drawn r hr)).1
  · obtain ⟨-, rfl⟩ := insertEvent_eq_ok.mp hexec
    set steps : List (Step Row) :=
      [⟨.nextId, own, t⟩, ⟨.insertEvent t.nextId row, own.withId t.nextId, t'⟩] with hsteps
    have hpast : past ++ [⟨.nextId, own, t⟩] ++
        [⟨.insertEvent t.nextId row, own.withId t.nextId, t'⟩] = past ++ steps :=
      List.append_assoc _ _ _
    have hwrote : ∀ step ∈ steps, Wrote ((own.withId t.nextId).withEvent t.nextId row) step := by
      rw [hsteps, List.forall_mem_cons, List.forall_mem_singleton]
      exact ⟨trivial, List.mem_append_right _ List.mem_cons_self, hexec⟩
    dsimp only [Then]
    rw [hpast]
    split
    next =>
      refine wp_statement fun t'' ht'' _ => ⟨⟨fun _ => ⟨hafter.results, hafter.relaying⟩,
        (fun _ _ h => nomatch h), fun name heq => ?_, (fun h => nomatch h)⟩, ?_,
        (fun _ h => nomatch h)⟩
      · cases heq
        exact ⟨(t.nextId, row), List.mem_append_right _ List.mem_cons_self, hstream⟩
      · rintro _ _ ⟨⟩ u'' hu'' -
        refine ⟨⟨hafter.rows, hafter.above, hafter.results, hafter.relaying⟩,
          ((hgrows.trans hu').trans ht'').trans hu'', rfl, rfl, ⟨t.nextId, rfl⟩, _,
          List.append_assoc _ _ _, fun step hstep => ?_⟩
        rcases List.mem_append.mp hstep with hstep | hstep
        · exact (hwrote step hstep).mono (fun _ h => h) (fun _ h => h)
        · rw [List.mem_singleton.mp hstep]
          trivial
    next =>
      exact wp_pure fun u'' hu'' _ => ⟨hafter, (hgrows.trans hu').trans hu'', rfl, rfl, ⟨t.nextId, rfl⟩,
        steps, rfl, hwrote⟩

/-- The legs have been appended by these statements. -/
structure Appends (call : Call) (now : Datetime) (legs : List (AccountEvent × Int))
    (p : List Posting × Option EventEnvelope) (own : Written Row) (past : List (Step Row))
    (p' : List Posting × Option EventEnvelope) (own' : Written Row) (past' : List (Step Row)) :
    Prop where
  rows : ∃ rows, LegRows call now own.issued legs p rows p' ∧
    own'.events.map Prod.snd = own.events.map Prod.snd ++ rows
  kept : own.events ⊆ own'.events
  readings : own'.readings = own.readings
  wrote : ∃ more, past' = past ++ more ∧ ∀ step ∈ more, Wrote own' step

theorem appends_nil (call : Call) (now : Datetime) (p : List Posting × Option EventEnvelope)
    (own : Written Row) (past : List (Step Row)) : Appends call now [] p own past p own past :=
  ⟨⟨[], .nil _ _, (List.append_nil _).symm⟩, (fun _ h => h), rfl,
    ⟨[], (List.append_nil _).symm, fun _ h => nomatch h⟩⟩

theorem wp_eventId {attempt : Attempt}
    {Q : Except PyError UUID → Database Row → Written Row → List (Step Row) → Prop}
    {past : List (Step Row)}
    (h : ∀ t u, Grows db u → Q (.ok (attempt.call.eventIds own.issued)) u
      { own with issued := own.issued + 1 } (past ++ [⟨.issue, own, t⟩])) :
    Guarantees Q (eventIdFactory attempt) db own past := by
  refine wp_bind (wp_statement fun t ht _ => ⟨Owes.of_keys_nil rfl t own, ?_,
    (fun _ h => nomatch h)⟩)
  rintro _ _ ⟨⟩ u hu -
  exact wp_of_later fun v hv _ => wp_pure fun w hw _ => h t w (((ht.trans hu).trans hv).trans hw)

theorem wp_clock {attempt : Attempt} {n : ℕ} (hn : own.readings = n)
    {Q : Except PyError Datetime → Database Row → Written Row → List (Step Row) → Prop}
    {past : List (Step Row)}
    (h : ∀ t u, Grows db u → Q (.ok (attempt.call.clock n)) u { own with readings := n + 1 }
      (past ++ [⟨.reading, own, t⟩])) : Guarantees Q (clock attempt) db own past := by
  subst hn
  refine wp_bind (wp_statement fun t ht _ => ⟨Owes.of_keys_nil rfl t own, ?_,
    (fun _ h => nomatch h)⟩)
  rintro _ _ ⟨⟩ u hu -
  exact wp_of_later fun v hv _ => wp_pure fun w hw _ => h t w (((ht.trans hu).trans hv).trans hw)

/-- **The loop over the legs**: all are appended, or an insert meets a committed key, or a
version is out of range. -/
theorem wp_appendLegs {attempt : Attempt} {now : Datetime} (hplanned : Planned version legs) :
    ∀ (rest done : List (AccountEvent × Int)) (postings : List Posting)
      (addressed : Option EventEnvelope) {db : Database Row} {own : Written Row}
      {past : List (Step Row)}, legs = done ++ rest → Writing floor done own →
      Behind version floor legs db → floor ≤ db.nextId →
      Addresses attempt.call.request.command.accountId postings addressed →
    Guarantees (fun r t own' past' => match r with
      | .ok p => Writing floor legs own' ∧ Grows db t ∧
        Appends attempt.call now rest (postings, addressed) own past p own' past' ∧
        Addresses attempt.call.request.command.accountId p.1 p.2 ∧
        ((∃ leg ∈ rest, leg.1.accountId = attempt.call.request.command.accountId) ∨
          addressed.isSome → p.2.isSome)
      | .error e => e = .integrityError ∨
        ∃ leg ∈ rest, ¬ (1 ≤ leg.2 ∧ leg.2 ≤ maxSignedBigint))
      (appendLegs (boundStorage attempt) attempt.call.request now (eventIdFactory attempt) rest
        postings addressed) db own past := by
  intro rest
  induction rest with
  | nil =>
    intro done postings addressed db own past hlegs hwriting _ _ haddresses
    rw [List.append_nil] at hlegs
    refine wp_pure fun t ht _ => ⟨hlegs ▸ hwriting, ht, appends_nil _ _ _ _ _, haddresses, ?_⟩
    rintro (⟨leg, hleg, -⟩ | hsome)
    · cases hleg
    · exact hsome
  | cons leg rest ih =>
    intro done postings addressed db own past hlegs hwriting hbehind hfloor haddresses
    refine wp_bind (wp_eventId fun t u hu => wp_bind (wp_ofExcept fun v hv _ => ?_))
    have hgrows : Grows db v := hu.trans hv
    cases henvelope : EventEnvelope.fromDomainEvent leg.1 (attempt.call.eventIds own.issued) leg.2
        now attempt.call.request.correlationId attempt.call.request.commandId
        attempt.call.request.commandId with
    | error e =>
      refine Or.inr ⟨leg, List.mem_cons_self, fun hrange => ?_⟩
      obtain ⟨envelope, hok⟩ : ∃ envelope, EventEnvelope.fromDomainEvent leg.1
          (attempt.call.eventIds own.issued) leg.2 now attempt.call.request.correlationId
          attempt.call.request.commandId attempt.call.request.commandId = .ok envelope :=
        EventEnvelope.fromDomainEvent_of hrange
      exact nomatch henvelope.symm.trans hok
    | ok envelope =>
      have hwraps := EventEnvelope.fromDomainEvent_wraps henvelope
      have hissued : Writing floor done { own with issued := own.issued + 1 } :=
        ⟨hwriting.rows, hwriting.above, hwriting.results, hwriting.relaying⟩
      refine wp_bind ((wp_appendEvent hplanned hlegs hwraps.streamVersion hissued
        (hbehind.grows hgrows) (hfloor.trans hgrows.nextId)).mono fun r w own₂ past₂ hend => ?_)
      cases r with
      | error e => exact Or.inl hend
      | ok _ =>
        obtain ⟨hwritten, hgrows', hissued₂, hread₂, ⟨id, hevents⟩, steps, hpast, hwrote⟩ := hend
        have hrange : 1 ≤ leg.2 ∧ leg.2 ≤ maxSignedBigint :=
          hwraps.streamVersion ▸ envelope.stream_version_ok
        set posting : Posting := ⟨leg.1.accountId, envelope.eventId, leg.2, leg.1.account_ok, hrange⟩
        have hnew : Posting.new leg.1.accountId envelope.eventId leg.2 = .ok posting :=
          posting.new_self
        refine wp_bind (wp_ofExcept fun w' hw' _ => ?_)
        rw [hnew]
        refine (ih (done ++ [leg]) _ _ (by rw [hlegs, List.append_assoc, List.singleton_append])
          hwritten (hbehind.grows ((hgrows.trans hgrows').trans hw'))
          (hfloor.trans ((hgrows.trans hgrows').trans hw').nextId)
          (haddresses.setPosting rfl rfl hwraps.streamVersion.symm)).mono fun r x own₃ past₃ hend => ?_
        cases r with
        | error e =>
          refine hend.imp_right ?_
          rintro ⟨leg', hleg', hout⟩
          exact ⟨leg', List.mem_cons_of_mem leg hleg', hout⟩
        | ok p =>
          obtain ⟨hall, hgrows'', ⟨⟨rows, hrows, hmap⟩, hkept, hread₃, more, hpast', hmore⟩,
            haddressed, hsome⟩ := hend
          refine ⟨hall, ((hgrows.trans hgrows').trans hw').trans hgrows'',
            ⟨⟨_, .cons henvelope hnew (hissued₂ ▸ hrows), ?_⟩, fun x hx => hkept ?_,
              hread₃.trans hread₂, [⟨.issue, own, t⟩] ++ (steps ++ more), ?_, ?_⟩, haddressed,
            fun hfound => hsome ?_⟩
          · rw [hmap, hevents, List.map_append, List.append_assoc]
            rfl
          · rw [hevents]
            exact List.mem_append_left _ hx
          · rw [hpast', hpast, List.append_assoc, List.append_assoc]
          · intro step hstep
            rcases List.mem_append.mp hstep with hstep | hstep
            · rw [List.mem_singleton.mp hstep]
              trivial
            · rcases List.mem_append.mp hstep with hstep | hstep
              · refine (hwrote step hstep).mono hkept ?_
                rw [hwritten.results]
                exact List.nil_subset _
              · exact hmore step hstep
          · by_cases hself : leg.1.accountId = attempt.call.request.command.accountId
            · rw [if_pos hself]
              exact Or.inr rfl
            · rw [if_neg hself]
              refine hfound.imp_left ?_
              rintro ⟨leg', hleg', haccount⟩
              rcases List.mem_cons.mp hleg' with rfl | hleg'
              · exact absurd haccount hself
              · exact ⟨leg', hleg', haccount⟩

end Appending

end Cloudscale.Postgres
