import Cloudscale.Postgres.Attempts
import Cloudscale.Postgres.Outbox

/-!
# Relaying

What the jobs of the parties guarantee for the outbox.  A decision and an append leave
it alone (`only_decision`, `only_append`).  A relay gives positions to the rows that it
read as not published: if its rows can be inserted, then no other relay has committed
since (`Feeds.relay`), so they continue the outbox.

`wp_job` is the result: how every job ends (`JobEnd`), on any discipline of the log.
-/

namespace Cloudscale.Postgres

open Checked Python ReadCommitted LogRow Streams Appendable

variable {Row : Type} [LogRow Row] {db t : Database Row} {own own' : Written Row}

/-! ### Statements that leave the outbox alone -/

def Statement.LeavesOutbox : Statement Row → Prop
  | .lockRelay | .insertOutbox _ | .markPublished _ => False
  | _ => True

/-- The transaction has not written to the outbox. -/
structure Quiet (own : Written Row) : Prop where
  relaying : own.relaying = false
  outbox : own.outbox = []
  published : own.published = []

omit [LogRow Row] in
theorem quiet_nothing : Quiet (.nothing : Written Row) := ⟨rfl, rfl, rfl⟩

theorem Quiet.exec {op : Statement Row} {reply : op.Res} (hop : op.LeavesOutbox) (h : Quiet own)
    (hexec : exec op db own = .ok (reply, own')) : Quiet own' := by
  rcases outbox_of_exec hexec with ⟨houtbox, hpublished, hlock⟩ | ⟨rows, rfl, -⟩ | ⟨ids, rfl, -⟩
  · refine ⟨?_, houtbox.trans h.outbox, hpublished.trans h.published⟩
    rcases hlock with hlock | ⟨rfl, -⟩
    · exact hlock.trans h.relaying
    · exact hop.elim
  · exact hop.elim
  · exact hop.elim

theorem RelayOwes.of_leavesOutbox {op : Statement Row} (hop : op.LeavesOutbox)
    (h : Owes op db own) : RelayOwes op db own := by
  refine ⟨h, ?_, ?_⟩
  · rintro rows ids (rfl | rfl) <;> exact hop.elim
  · rintro rows rfl
    exact hop.elim

/-! ### Decisions leave the outbox alone -/

section Decisions

variable {attempt : Attempt}

omit [LogRow Row] in
theorem only_clock : (clock attempt : Program Row _).Only Statement.LeavesOutbox :=
  only_bind (only_perform trivial) fun _ => trivial

omit [LogRow Row] in
theorem only_eventIdFactory : (eventIdFactory attempt : Program Row _).Only Statement.LeavesOutbox :=
  only_bind (only_perform trivial) fun _ => trivial

theorem only_appendEvent (envelope : EventEnvelope) (event : AccountEvent) :
    (appendEvent attempt envelope event : Program Row _).Only Statement.LeavesOutbox := by
  refine only_bind (only_perform trivial) fun _ => only_bind (only_perform trivial) fun _ => ?_
  split
  · exact only_perform trivial
  · trivial

omit [LogRow Row] in
theorem only_persistResult (result : CommandResult) :
    (persistResult attempt result : Program Row _).Only Statement.LeavesOutbox :=
  only_bind only_clock fun _ => only_perform trivial

theorem only_persistedRejection {request : NormalizedCommand} {outcome : CommandOutcome}
    {errorCode : String} {httpStatus currentVersion : Int} {createdAt : Datetime} :
    (persistedRejection (boundStorage attempt) request outcome errorCode httpStatus currentVersion
      createdAt : Program Row _).Only Statement.LeavesOutbox :=
  only_bind only_ofExcept fun _ => only_bind (only_persistResult _) fun _ => trivial

theorem only_foldOthers : ∀ (states : States) (as : List String),
    (foldOthers (boundStorage attempt).toCommandReads states as : Program Row _).Only
      Statement.LeavesOutbox
  | _, [] => trivial
  | states, a :: as => by
    rw [foldOthers]
    split
    · exact only_foldOthers states as
    · exact only_bind (only_perform trivial) fun _ => only_foldOthers _ as

theorem only_decideLegs (request : NormalizedCommand) (state : AccountState) (now : Datetime) :
    (decideLegs (boundStorage attempt).toCommandReads request state now : Program Row _).Only
      Statement.LeavesOutbox := by
  have hpostings : ∀ anchor legs, (postingsLegs (boundStorage attempt).toCommandReads anchor legs
      state request.commandId : Program Row _).Only Statement.LeavesOutbox := fun _ _ =>
    only_bind (only_foldOthers _ _) fun _ => only_ofExcept
  have hrelease : ∀ kind command, (releaseLegs (boundStorage attempt).toCommandReads kind command
      state now : Program Row _).Only Statement.LeavesOutbox := fun _ _ =>
    only_bind (only_perform trivial) fun _ => only_ofExcept
  rw [decideLegs.eq_def]
  cases request.command with
  | transfer | post => exact hpostings _ _
  | hold | deposit | withdraw => exact only_ofExcept
  | voidHold | expireHold => exact hrelease _ _
  | postHold =>
    exact only_bind (only_perform trivial) fun _ => only_bind (only_foldOthers _ _) fun _ =>
      only_ofExcept
  | revert =>
    exact only_bind (only_perform trivial) fun _ => only_bind (only_foldOthers _ _) fun _ =>
      only_bind (only_perform trivial) fun _ => only_ofExcept

theorem only_appendLegs (request : NormalizedCommand) (occurredAt : Datetime) :
    ∀ (legs : List (AccountEvent × Int)) (postings : List Posting) (addressed : Option EventEnvelope),
    (appendLegs (boundStorage attempt) request occurredAt (eventIdFactory attempt) legs postings
      addressed : Program Row _).Only Statement.LeavesOutbox
  | [], _, _ => trivial
  | _ :: legs, _, _ =>
    only_bind only_eventIdFactory fun _ => only_bind only_ofExcept fun _ =>
      only_bind (only_appendEvent _ _) fun _ => only_bind only_ofExcept fun _ =>
        only_appendLegs request occurredAt legs _ _

/-- **A decision leaves the outbox alone.** -/
theorem only_decision (attempt : Attempt) :
    (decision attempt : Program Row _).Only Statement.LeavesOutbox := by
  refine only_bind (only_perform trivial) fun stored => ?_
  cases stored with
  | some stored =>
    dsimp only
    split
    · trivial
    · exact only_bind (only_perform trivial) fun _ => only_bind only_clock fun _ => only_ofExcept
  | none =>
    refine only_bind (only_perform trivial) fun state => ?_
    split
    · exact only_bind only_clock fun _ => only_persistedRejection
    · refine only_bind only_clock fun _ => only_bind (only_attempt (only_decideLegs _ _ _))
        fun legs => ?_
      cases legs with
      | inr error => exact only_persistedRejection
      | inl legs =>
        refine only_bind (only_appendLegs _ _ legs _ _) fun appended => ?_
        obtain ⟨postings, addressed⟩ := appended
        cases addressed with
        | none => trivial
        | some addressed =>
          exact only_bind only_ofExcept fun _ => only_bind (only_persistResult _) fun _ => trivial

end Decisions

/-! ### Appends -/

section Appends

variable {A : Type} [Appendable A Row]

/-- The next number of a stream, for a transaction that has written nothing. -/
theorem nextSeq_eq (h : Numbered db) (hnil : own.events = []) (name : String) :
    nextSeq (db.seen own) name = db.count name + 1 := by
  have hseqs : ((db.events.map Prod.snd).filter (fun r => stream r = name)).map seq =
      consecutive 0 (db.count name) := by
    rw [← h.seqs, onStream, List.filter_map, List.map_map]
    rfl
  rw [nextSeq, seen_of_nil h hnil, hseqs, foldl_max_consecutive]

theorem only_append (a : A) : (append a : Program Row _).Only Statement.LeavesOutbox := by
  rw [append]
  split
  · trivial
  · refine only_bind (only_perform trivial) fun seq => ?_
    split
    · exact only_bind (only_perform trivial) fun _ => only_bind (only_perform trivial) fun _ => trivial
    · trivial

/-- **An append goes on its stream**: if its row can be inserted, then the stream is as long as
when it was read. -/
theorem wp_append (a : A) :
    Guarantees (fun _ _ _ _ => True) (append a : Program Row _) db .nothing [] := by
  rw [append]
  split
  next => exact wp_throw fun _ _ _ => trivial
  next =>
    refine wp_bind (wp_statement fun t₁ _ h₁ => ⟨Owes.of_keys_nil rfl _ _, fun n own' hexec u _ _ => ?_,
      fun e herror u => trivial⟩)
    cases hexec
    show Guarantees _ (if _ then _ else _) _ _ _
    split
    next =>
      refine wp_bind (wp_statement fun t₂ _ h₂ => ⟨Owes.of_keys_nil rfl _ _,
        fun id own' hexec u _ _ => ?_, fun e herror u => trivial⟩)
      cases hexec
      refine wp_bind (wp_statement fun t₃ _ h₃ => ⟨⟨fun _ => ⟨rfl, rfl⟩, fun id row heq => ?_,
        (fun _ h => nomatch h), fun h => nomatch h⟩, fun _ own' _ u _ _ => fun _ _ _ => trivial,
        fun e herror u => trivial⟩)
      obtain ⟨rfl, rfl⟩ := Statement.insertEvent.inj heq
      refine ⟨List.mem_cons_self, (fun _ h => nomatch h), fun hfits => ?_⟩
      obtain ⟨hinv₁, hgrows₁⟩ := h₃.seen _ (List.mem_append_left _ List.mem_cons_self)
      obtain ⟨hinv₂, hgrows₂⟩ := h₃.seen _ (List.mem_append_right _ List.mem_cons_self)
      rw [stream_rowAt, seq_rowAt, nextSeq_eq hinv₁ rfl]
      -- A longer stream has the number already.
      have hcount : t₃.count (streamOf Row a) ≤ t₁.count (streamOf Row a) := by
        by_contra hlt
        have hpos : (1 : Int) ≤ t₁.count (streamOf Row a) + 1 := by omega
        have hle : (t₁.count (streamOf Row a) : Int) + 1 ≤ t₃.count (streamOf Row a) := by omega
        obtain ⟨r, hr, hstream, hseq⟩ := h₃.inv.exists_of_le hpos hle
        refine hfits r (List.mem_append_left _ hr) (Or.inl ⟨?_, ?_⟩)
        · rw [stream_rowAt, hstream]
        · rw [seq_rowAt, nextSeq_eq hinv₁ rfl, hseq]
      refine ⟨?_, fun x hx hstream r hr => ?_⟩
      · have hle : t₁.count (streamOf Row a) ≤ t₃.count (streamOf Row a) := hgrows₁.count_le _
        show ((t₁.count (streamOf Row a) : Int) + 1) = t₃.count (streamOf Row a) + (0 : ℕ) + 1
        omega
      · obtain rfl := List.mem_singleton.mp hr
        have hmem : x ∈ onStream t₁.events (streamOf Row a) := by
          rw [← hgrows₁.onStream_eq hcount]
          exact mem_onStream.mpr ⟨hx, hstream⟩
        have hdrawn := hinv₁.drawn x (mem_onStream.mp hmem).1
        have hlater : t₁.nextId ≤ t₂.nextId :=
          ((List.pairwise_append.mp h₃.ordered).2.2 _ List.mem_cons_self _ List.mem_cons_self).nextId
        exact hdrawn.trans_le hlater
    next => exact wp_throw fun _ _ _ => trivial

end Appends

/-! ### What a relay writes -/

section Batches

theorem map_fst_outboxRows : ∀ (n : ℕ) (rows : List (ℕ × String)),
    (outboxRows n rows).map Prod.fst = List.range' (n + 1) rows.length
  | _, [] => rfl
  | n, _ :: rows => by
    rw [outboxRows, List.map_cons, map_fst_outboxRows, List.length_cons, List.range'_succ]

theorem map_snd_outboxRows : ∀ (n : ℕ) (rows : List (ℕ × String)),
    (outboxRows n rows).map Prod.snd = rows.map Prod.snd
  | _, [] => rfl
  | n, _ :: rows => by
    rw [outboxRows, List.map_cons, map_snd_outboxRows, List.map_cons]

theorem length_outboxRows (n : ℕ) (rows : List (ℕ × String)) :
    (outboxRows n rows).length = rows.length := by
  rw [← List.length_map (f := Prod.fst), map_fst_outboxRows, List.length_range']

theorem pending_eq (h : Numbered db) (hevents : own.events = []) (hpublished : own.published = []) :
    db.pending own = (db.events.filter (fun r => r.1 ∉ db.published)).map
      (fun r => (r.1, eventId r.2)) := by
  rw [Database.pending, hevents, hpublished, List.append_nil, List.append_nil, byId,
    List.Pairwise.insertionSort_eq (h.ids.imp le_of_lt)]

theorem foldl_max_range' (n : ℕ) : (List.range' 1 n).foldl max 0 = n := by
  induction n with
  | zero => rfl
  | succ n ih =>
    rw [List.range'_concat, List.foldl_append, ih, List.foldl_cons, List.foldl_nil]
    omega

theorem head_eq {events : List (ℕ × Row)} (h : Feeds events (db.outbox ++ own.outbox)) :
    db.head own = (db.outbox ++ own.outbox).length := by
  rw [Database.head, h.positions, foldl_max_range']

variable (hdb : Numbered db) (hgrows : Grows t db)

include hdb hgrows

theorem mem_listed {x : ℕ × Row} (hx : x ∈ db.events)
    (hlisted : eventId x.2 ∈ ((t.events.filter (fun r => r.1 ∉ t.published)).map
      (fun r => (r.1, eventId r.2))).map Prod.snd) : x ∈ t.events ∧ x.1 ∉ t.published := by
  rw [List.map_map] at hlisted
  obtain ⟨r, hr, hid⟩ := List.mem_map.mp hlisted
  obtain ⟨hr, hfree⟩ := List.mem_filter.mp hr
  obtain rfl : r = x := hdb.eq_of_eventId (hgrows.events.subset hr) hx hid
  exact ⟨hr, by simpa using hfree⟩

/-- **The rows of a relay continue the outbox**, if they can be inserted: then the outbox is as
long as when its head was read. -/
theorem Feeds.relay (h : Feeds db.events db.outbox) (ht : Numbered t)
    (hmarked : Marked t.events t.outbox t.published) (houtbox : t.outbox <+: db.outbox)
    {n : ℕ} (hn : n ≤ db.outbox.length)
    {rows : List (ℕ × String)} (hrows : rows = (t.events.filter (fun r => r.1 ∉ t.published)).map
      (fun r => (r.1, eventId r.2))) (hne : rows ≠ [])
    (hpositions : ((db.outbox ++ outboxRows n rows).map Prod.fst).Nodup)
    (hids : ((db.outbox ++ outboxRows n rows).map Prod.snd).Nodup) :
    Feeds db.events (db.outbox ++ outboxRows n rows) := by
  have hlength : db.outbox.length = n := by
    refine le_antisymm (not_lt.mp fun hlt => ?_) hn
    rw [List.map_append, h.positions, map_fst_outboxRows] at hpositions
    have hpos : 0 < rows.length := List.length_pos_iff.mpr hne
    exact (List.nodup_append.mp hpositions).2.2 (n + 1)
      (List.mem_range'_1.mpr ⟨by omega, by omega⟩) (n + 1)
      (List.mem_range'_1.mpr ⟨le_rfl, by omega⟩) rfl
  have hlisted : (outboxRows n rows).map Prod.snd = rows.map Prod.snd := map_snd_outboxRows n rows
  refine ⟨?_, hids, fun o ho => ?_, fun x hx y hy hstream hlt hmem => ?_⟩
  · rw [List.map_append, h.positions, map_fst_outboxRows, List.length_append, length_outboxRows,
      hlength, ← List.range'_append_1, Nat.add_comm 1 n]
  · rcases List.mem_append.mp ho with ho | ho
    · exact h.known o ho
    · have hmem : o.2 ∈ rows.map Prod.snd := hlisted ▸ List.mem_map_of_mem ho
      rw [hrows, List.map_map] at hmem
      obtain ⟨r, hr, hid⟩ := List.mem_map.mp hmem
      exact ⟨r, hgrows.events.subset (List.mem_of_mem_filter hr), hid⟩
  · rw [List.map_append, hlisted] at hmem ⊢
    rcases List.mem_append.mp hmem with hmem | hmem
    · exact (h.ordered x hx y hy hstream hlt hmem).append _
    · rw [hrows] at hmem
      obtain ⟨hyt, hfree⟩ := mem_listed hdb hgrows hy hmem
      have hxt : x ∈ t.events := hgrows.mem_of_lt hdb hx hyt hstream hlt
      by_cases hpublished : x.1 ∈ t.published
      · have hold := (hmarked.marks x hxt).mp hpublished
        exact Precedence.before_append_of_mem ((houtbox.map Prod.snd).subset hold) (hrows ▸ hmem)
      · -- Both have been read, by id.
        have hsorted : (t.events.filter (fun r => r.1 ∉ t.published)).Pairwise
            (fun r r' => r.1 < r'.1) := ht.ids.filter _
        have hbefore := Precedence.before_of_pairwise hsorted
          (List.mem_filter.mpr ⟨hxt, by simpa using hpublished⟩)
          (List.mem_filter.mpr ⟨hyt, by simpa using hfree⟩) hlt.not_gt fun heq => hlt.ne (heq ▸ rfl)
        have hlast : Precedence.Before (rows.map Prod.snd) (eventId x.2) (eventId y.2) := by
          rw [hrows, List.map_map]
          exact Precedence.before_map_iff.mpr ⟨x, y, hbefore, rfl, rfl⟩
        exact hlast.trans (List.sublist_append_right _ _)

/-- **The rows that a relay has read are marked**, when they have their positions. -/
theorem Marked.relay (h : Marked db.events db.outbox db.published) {n : ℕ}
    {rows : List (ℕ × String)} (hrows : rows = (t.events.filter (fun r => r.1 ∉ t.published)).map
      (fun r => (r.1, eventId r.2))) :
    Marked db.events (db.outbox ++ outboxRows n rows) (db.published ++ rows.map Prod.fst) := by
  have hids : rows.map Prod.fst =
      (t.events.filter (fun r => r.1 ∉ t.published)).map Prod.fst := by
    rw [hrows, List.map_map]
    rfl
  refine ⟨fun id hid => ?_, fun r hr => ?_⟩
  · rcases List.mem_append.mp hid with hid | hid
    · exact h.known id hid
    · rw [hids] at hid
      obtain ⟨r, hr, rfl⟩ := List.mem_map.mp hid
      exact ⟨r, hgrows.events.subset (List.mem_of_mem_filter hr), rfl⟩
  · rw [List.map_append, map_snd_outboxRows, List.mem_append, List.mem_append, h.marks r hr, hids]
    refine or_congr_right ⟨fun hid => ?_, fun hlisted => ?_⟩
    · obtain ⟨x, hx, heq⟩ := List.mem_map.mp hid
      have hmem := hgrows.events.subset (List.mem_of_mem_filter hx)
      obtain rfl : x = r :=
        List.inj_on_of_nodup_map (hdb.ids.imp ne_of_lt |> List.pairwise_map.mpr) hmem hr heq
      rw [hrows, List.map_map]
      exact List.mem_map_of_mem hx
    · rw [hrows] at hlisted
      obtain ⟨hrt, hfree⟩ := mem_listed hdb hgrows hr hlisted
      exact List.mem_map_of_mem (List.mem_filter.mpr ⟨hrt, by simpa using hfree⟩)

end Batches

/-! ### Relays -/

section Jobs

variable {log : Rely (Database Row) (Written Row)} {Settled : Database Row → Written Row → Prop}
  {past : List (Step Row)}

/-- **One statement**, with what is owed for the outbox. -/
theorem relay_statement (hlog : LogDiscipline log Settled) {op : Statement Row}
    {Q : Except PyError op.Res → Database Row → Written Row → List (Step Row) → Prop}
    (h : ∀ t, (relayRely log).Holds t own past → RelayOwes op t own ∧
      (∀ a own', exec op t own = .ok (a, own') → ∀ u, (relayRely log).Grows t u →
        (relayRely log).Holds u own' (past ++ [⟨op, own, t⟩]) →
          Q (.ok a) u own' (past ++ [⟨op, own, t⟩])) ∧
      ∀ e, exec op t own = .error e → ∀ u, (relayRely log).Holds u own (past ++ [⟨op, own, t⟩]) →
        Q (.error e) u own (past ++ [⟨op, own, t⟩])) :
    WP engine (relayRely log) RelayOwes Q (perform op) db own past := by
  refine wp_perform fun t _ hholds => ?_
  obtain ⟨howes, hok, herror⟩ := h t hholds
  refine ⟨howes, fun u hu hholds' => ?_⟩
  have hgrows : (relayRely log).Grows t u :=
    (relayRely log).trans ((relay_discipline hlog).draw op hholds.inv).2.1 hu
  change (relayRely log).Holds u (ownAfter own (exec op t own)) _ at hholds'
  show Q ((exec op t own).map Prod.fst) u (ownAfter own (exec op t own)) _
  cases hexec : exec op t own with
  | ok p =>
    rw [hexec] at hholds'
    exact hok p.1 p.2 hexec u hgrows hholds'
  | error e =>
    rw [hexec] at hholds'
    exact herror e hexec u hholds'

/-- What a relay has done: what was committed when it read has a position. -/
structure RelayEnd (n : ℕ) (db : Database Row) (own : Written Row) (past : List (Step Row)) : Prop where
  marked : Marked db.events (db.outbox ++ own.outbox) (db.published ++ own.published)
  covered : ∃ step ∈ past, step.op = .pending ∧
    ∀ x ∈ step.seen.events, eventId x.2 ∈ (db.outbox ++ own.outbox).map Prod.snd
  count : own.outbox.length = n
  events : own.events = []
  results : own.results = []

theorem RelayOwes.lockRelay (db : Database Row) :
    RelayOwes (.lockRelay : Statement Row) db .nothing := by
  refine ⟨⟨fun _ => ⟨rfl, rfl⟩, ?_, ?_, fun _ => rfl⟩, ?_, ?_⟩
  · rintro id row h
    cases h
  · rintro name h
    cases h
  · rintro rows ids (h | h) <;> cases h
  · rintro rows h
    cases h

theorem RelayOwes.of_relaying {op : Statement Row} (hkeys : op.keys = []) (hlocked : own.relaying = true)
    (hfeeds : ∀ rows, op = .insertOutbox rows →
      ((db.outbox ++ own.outbox ++ rows).map Prod.fst).Nodup →
      ((db.outbox ++ own.outbox ++ rows).map Prod.snd).Nodup →
      Feeds db.events (db.outbox ++ own.outbox ++ rows)) : RelayOwes op db own :=
  ⟨.of_keys_nil hkeys _ _, fun _ _ _ => hlocked, hfeeds⟩

theorem mem_outbox_of_published (h : Relayed t) (hgrows : t.outbox <+: db.outbox) {r : ℕ × Row}
    (hr : r ∈ t.events) (hpublished : r.1 ∈ t.published) : eventId r.2 ∈ db.outbox.map Prod.snd :=
  (hgrows.map Prod.snd).subset ((h.marked.marks r hr).mp hpublished)

def locked : Written Row := { Written.nothing with relaying := true }

/-- **A relay that has read no row** is at its end. -/
theorem relayEnd_zero (h : (relayRely log).Inv t) (hnil : t.pending locked = [])
    (hnumbered : Numbered t) {db : Database Row} {past : List (Step Row)}
    (hpast : (⟨.pending, locked, t⟩ : Step Row) ∈ past)
    (hholds : (relayRely log).Holds db locked past) : RelayEnd 0 db locked past := by
  have hout : (db.outbox ++ (locked : Written Row).outbox) = db.outbox := List.append_nil _
  have hpublished : (db.published ++ (locked : Written Row).published) = db.published :=
    List.append_nil _
  refine ⟨?_, ⟨_, hpast, rfl, fun x hx => ?_⟩, rfl, rfl, rfl⟩
  · rw [hout, hpublished]
    exact hholds.inv.2.marked
  · rw [hout]
    refine mem_outbox_of_published h.2 (hholds.seen _ hpast).2.2 hx ?_
    by_contra hfree
    have hmem : x ∈ t.events.filter (fun r => r.1 ∉ t.published) :=
      List.mem_filter.mpr ⟨hx, by simpa using hfree⟩
    rw [pending_eq hnumbered rfl rfl, List.map_eq_nil_iff] at hnil
    rw [hnil] at hmem
    cases hmem

/-- **A relay that has written rows** for those it has read is at its end. -/
theorem relayEnd_rows (hlog : LogDiscipline log Settled) (h : (relayRely log).Inv t) (head : ℕ)
    {db : Database Row} {past : List (Step Row)} (hpast : (⟨.pending, locked, t⟩ : Step Row) ∈ past)
    (hholds : (relayRely log).Holds db { locked with
      outbox := outboxRows head (t.pending locked)
      published := (t.pending locked).map Prod.fst } past) :
    RelayEnd (outboxRows head (t.pending locked)).length db { locked with
      outbox := outboxRows head (t.pending locked)
      published := (t.pending locked).map Prod.fst } past := by
  obtain ⟨-, hgrows⟩ := hholds.seen _ hpast
  have hrows : t.pending locked = _ := pending_eq (hlog.numbered h.1) rfl rfl
  refine ⟨?_, ⟨_, hpast, rfl, fun x hx => ?_⟩, rfl, rfl, rfl⟩
  · exact Marked.relay (hlog.numbered hholds.inv.1) (hlog.grows hgrows.1) hholds.inv.2.marked hrows
  · show eventId x.2 ∈ (db.outbox ++ outboxRows head (t.pending locked)).map Prod.snd
    rw [List.map_append, List.mem_append]
    by_cases hpublished : x.1 ∈ t.published
    · exact Or.inl (mem_outbox_of_published h.2 hgrows.2 hx hpublished)
    · refine Or.inr ?_
      rw [map_snd_outboxRows, hrows, List.map_map]
      exact List.mem_map_of_mem (List.mem_filter.mpr ⟨hx, by simpa using hpublished⟩)

/-- **The rows that a relay writes** go on where the outbox ends. -/
theorem relayOwes_insertOutbox (hlog : LogDiscipline log Settled) {t' : Database Row}
    {past : List (Step Row)} (hnil : t.pending locked ≠ [])
    (hpending : (⟨.pending, locked, t⟩ : Step Row) ∈ past)
    (hhead : (⟨.head, locked, t'⟩ : Step Row) ∈ past) (hfeeds : Feeds t'.events t'.outbox)
    (hholds : (relayRely log).Holds db locked past) :
    RelayOwes (.insertOutbox (outboxRows (t'.head locked) (t.pending locked))) db locked := by
  refine .of_relaying rfl rfl fun rows heq hpositions hids => ?_
  obtain rfl := Statement.insertOutbox.inj heq
  obtain ⟨hinv, hgrows⟩ := hholds.seen _ hpending
  obtain ⟨-, hgrows'⟩ := hholds.seen _ hhead
  have hout : db.outbox ++ (locked : Written Row).outbox = db.outbox := List.append_nil _
  have hout' : t'.outbox ++ (locked : Written Row).outbox = t'.outbox := List.append_nil _
  rw [hout] at hpositions hids ⊢
  refine Feeds.relay (hlog.numbered hholds.inv.1) (hlog.grows hgrows.1) hholds.inv.2.feeds
    (hlog.numbered hinv.1) hinv.2.marked hgrows.2 ?_ (pending_eq (hlog.numbered hinv.1) rfl rfl) hnil
    hpositions hids
  have hlast : t'.head locked = _ := head_eq (by rwa [hout'])
  rw [hlast, hout']
  exact hgrows'.2.length_le

/-- **What a relay guarantees.** -/
theorem wp_relayOutbox (hlog : LogDiscipline log Settled) :
    WP engine (relayRely log) RelayOwes (fun r u own past => (relayRely log).Holds u own past ∧
      ∀ n, r = .ok n → ∀ v, (relayRely log).Holds v own past → RelayEnd n v own past)
      (relayOutbox : Program Row ℕ) db .nothing [] := by
  refine wp_bind (relay_statement hlog fun t₁ _ => ⟨.lockRelay t₁, fun _ own' hexec _ _ _ => ?_,
    fun e herror => by cases herror⟩)
  cases hexec
  refine wp_bind (relay_statement hlog fun t h => ⟨.of_leavesOutbox trivial (.of_keys_nil rfl _ _),
    fun pending own' hexec _ _ _ => ?_, fun e herror => by cases herror⟩)
  cases hexec
  change WP _ _ _ _ (if t.pending locked = [] then _ else _) _ _ _
  split
  next hnil =>
    refine wp_pure fun u _ hholds => ⟨hholds, fun n hn v hholds => ?_⟩
    cases hn
    exact relayEnd_zero h.inv hnil (hlog.numbered h.inv.1) (by simp [locked]) hholds
  next hne =>
    refine wp_bind (relay_statement hlog fun t' h' =>
      ⟨.of_leavesOutbox trivial (.of_keys_nil rfl _ _), fun head own' hexec _ _ _ => ?_,
        fun e herror => by cases herror⟩)
    cases hexec
    refine wp_bind (relay_statement hlog fun t₄ h₄ =>
      ⟨relayOwes_insertOutbox hlog hne (by simp [locked]) (by simp [locked]) h'.inv.2.feeds h₄,
        fun _ own' hexec _ _ _ => ?_, fun e _ u hholds => ⟨hholds, fun n hn => by cases hn⟩⟩)
    have hwritten : own' = { locked with outbox := outboxRows (t'.head locked) (t.pending locked) } := by
      change t₄.insertOutbox locked _ = _ at hexec
      rw [Database.insertOutbox] at hexec
      split at hexec
      next =>
        cases hexec
        rfl
      next => cases hexec
    subst hwritten
    refine wp_bind (relay_statement hlog fun t₅ _ =>
      ⟨.of_relaying rfl rfl (fun rows heq => by cases heq), fun _ own' hexec _ _ _ => ?_,
        fun e herror => by cases herror⟩)
    cases hexec
    intro u _ hholds
    refine ⟨hholds, fun n hn v hholds => ?_⟩
    cases hn
    exact relayEnd_rows hlog h.inv _ (by simp [locked]) hholds

/-! ### Jobs -/

variable {A : Type} [Appendable A Row]

/-- **How a job ends.** -/
structure JobEnd (log : Rely (Database Row) (Written Row)) (Settled : Database Row → Written Row → Prop)
    (job : Job A) (r : Except PyError (Answer Row)) (db : Database Row) (own : Written Row)
    (past : List (Step Row)) : Prop where
  holds : (relayRely log).Holds db own past
  settled : ∀ answer, r = .ok answer → RelaySettled Settled db own
  relayed : ∀ n, r = .ok (.relayed n) → RelayEnd n db own past
  fed : ∀ rows, r = .ok (.fed rows) → ∃ after limit t, job = .feed after limit ∧
    (relayRely log).Inv t ∧ (relayRely log).Grows t db ∧ rows = t.feed .nothing after limit

theorem Quiet.marked (h : Quiet own) (hdb : Relayed db) :
    Marked db.events (db.outbox ++ own.outbox) (db.published ++ own.published) := by
  rw [h.outbox, h.published, List.append_nil, List.append_nil]
  exact hdb.marked

/-- What a program that leaves the outbox alone guarantees, it guarantees with the outbox. -/
theorem Guarantees.relay (hlog : LogDiscipline log Settled) {α : Type} {program : Program Row α}
    {Q : Except PyError α → Database Row → Written Row → List (Step Row) → Prop}
    (h : Guarantees Q program db .nothing []) (honly : program.Only Statement.LeavesOutbox) :
    WP engine (relayRely log) RelayOwes (fun r u own past =>
      (Q r u own past ∧ (relayRely log).Holds u own past) ∧ Quiet own) program db .nothing [] := by
  have hstrong : WP engine (relayRely log) Owes (fun r u own past =>
      Q r u own past ∧ (relayRely log).Holds u own past) program db .nothing [] :=
    h.strengthen (relayRely log) (fun h => hlog.numbered h.1) (fun h => hlog.grows h.1)
      fun h => hlog.owns h.1
  exact hstrong.only (fun hop hquiet hexec => hquiet.exec hop hexec)
    (fun hop _ howes => .of_leavesOutbox hop howes) honly quiet_nothing

/-- **What every job guarantees**, on a discipline under which decisions and appends are
settled. -/
theorem wp_job (hlog : LogDiscipline log Settled)
    (hdecides : ∀ {attempt result db own past}, Ended attempt (.ok result) own past →
      log.Holds db own past → Settled db own)
    (happends : A → ∀ {db own}, Settled db own) (job : Job A) :
    WP engine (relayRely log) RelayOwes (JobEnd log Settled job) (job.program : Program Row _) db
      .nothing [] := by
  have hquiet : ∀ {r : Except PyError (Answer Row)} {u : Database Row} {own : Written Row}
      {past : List (Step Row)}, (relayRely log).Holds u own past → Quiet own → Settled u own →
      (∀ n, r ≠ .ok (.relayed n)) → (∀ rows, r ≠ .ok (.fed rows)) →
      JobEnd log Settled job r u own past := fun hholds hquiet hsettled hrelayed hfed =>
    ⟨hholds, fun _ _ => ⟨hsettled, hquiet.marked hholds.inv.2⟩, fun n hn => absurd hn (hrelayed n),
      fun rows hrows => absurd hrows (hfed rows)⟩
  have herror : ∀ {e : PyError} {u : Database Row} {own : Written Row} {past : List (Step Row)},
      (relayRely log).Holds u own past → JobEnd log Settled job (.error e) u own past := fun hholds =>
    ⟨hholds, (fun _ h => nomatch h), (fun _ h => nomatch h), fun _ h => nomatch h⟩
  have hlogHolds : ∀ {u : Database Row} {own : Written Row} {past : List (Step Row)},
      (relayRely log).Holds u own past → log.Holds u own past := fun hholds =>
    ⟨hholds.inv.1, hholds.owns.1, fun e he => ⟨(hholds.seen e he).1.1, (hholds.seen e he).2.1⟩,
      hholds.ordered.imp fun h => h.1⟩
  cases job with
  | attempt once =>
    refine wp_bind ((Guarantees.relay hlog (wp_decision once) (only_decision once)).mono
      fun r u own past ⟨⟨hends, hholds⟩, hstill⟩ => ?_)
    cases r with
    | error e => exact herror hholds
    | ok result =>
      exact fun u' _ hholds' => hquiet hholds' hstill (hdecides hends (hlogHolds hholds'))
        (fun _ h => nomatch h) fun _ h => nomatch h
  | append a =>
    refine wp_bind ((Guarantees.relay hlog (wp_append a) (only_append a)).mono
      fun r u own past ⟨⟨_, hholds⟩, hstill⟩ => ?_)
    cases r with
    | error e => exact herror hholds
    | ok seq =>
      exact fun u' _ hholds' => hquiet hholds' hstill (happends a) (fun _ h => nomatch h)
        fun _ h => nomatch h
  | relay =>
    refine wp_bind ((wp_relayOutbox hlog).mono fun r u own past ⟨hholds, hends⟩ => ?_)
    cases r with
    | error e => exact herror hholds
    | ok count =>
      intro v _ hholds'
      have hend := hends count rfl v hholds'
      refine ⟨hholds', fun _ _ => ⟨hlog.settled hend.events hend.results, hend.marked⟩,
        fun n hn => ?_, fun _ h => nomatch h⟩
      cases hn
      exact hend
  | feed after limit =>
    refine wp_bind (relay_statement hlog fun t h => ⟨.of_leavesOutbox trivial (.of_keys_nil rfl _ _),
      fun rows own' hexec u _ _ => ?_, fun e herror => nomatch herror⟩)
    cases hexec
    intro u _ hholds
    obtain ⟨hinv, hgrows⟩ := hholds.seen _ List.mem_cons_self
    refine ⟨hholds, fun _ _ => ⟨hlog.settled rfl rfl, quiet_nothing.marked hholds.inv.2⟩,
      (fun _ h => nomatch h), fun rows hrows => ?_⟩
    cases hrows
    exact ⟨after, limit, t, rfl, hinv, hgrows, rfl⟩

end Jobs

end Cloudscale.Postgres
