import Cloudscale.Adapters.Postgres.Database
import Cloudscale.Lib.Streams

/-!
# Numbered streams on PostgreSQL

In every state of the database the rows of a stream are numbered from one on in the
order of their ids (`Numbered`), and it only grows (`Grows`).  What an open transaction
has written continues the streams (`Owns`), so two transactions that both have rows of
one stream have one `(stream, seq)` in common, which the unique key excludes.

A transaction keeps to this as long as each of its inserts either meets a committed key
or takes the next number of its stream (`Owes`); `discipline` are the steps of that
argument.  `Owes` also says in which order keys are taken.
-/

namespace Cloudscale.Postgres

open Checked Python ReadCommitted LogRow Streams

variable {Row : Type} [LogRow Row] {db db' : Database Row} {own own' other : Written Row}

/-! ### Definitions -/

def onStream (rows : List (ℕ × Row)) (name : String) : List (ℕ × Row) :=
  rows.filter (fun r => stream r.2 = name)

/-- How many rows of a stream are committed. -/
def Database.count (db : Database Row) (name : String) : ℕ := (onStream db.events name).length

/-- **The invariant of the database.** -/
structure Numbered (db : Database Row) : Prop where
  ids : db.events.Pairwise (fun r r' => r.1 < r'.1)
  drawn : ∀ r ∈ db.events, r.1 < db.nextId
  seqs : ∀ name, (onStream db.events name).map (fun r => seq r.2) = consecutive 0 (db.count name)
  eventIds : (db.events.map (fun r => eventId r.2)).Nodup
  results : (db.results.map ResultRow.commandId).Nodup

/-- How the database grows: streams at their ends. -/
structure Grows (db db' : Database Row) : Prop where
  events : db.events.Sublist db'.events
  streams : ∀ name, onStream db.events name <+: onStream db'.events name
  results : db.results <+: db'.results
  nextId : db.nextId ≤ db'.nextId

/-- What a transaction has written goes on where the database ends. -/
structure Owns (db : Database Row) (own : Written Row) : Prop where
  ids : own.events.Pairwise (fun r r' => r.1 < r'.1)
  drawn : ∀ r ∈ own.events, r.1 ∈ own.drawn
  fresh : ∀ id ∈ own.drawn, id < db.nextId ∧ ∀ x ∈ db.events, x.1 ≠ id
  seqs : ∀ name, (onStream own.events name).map (fun r => seq r.2) =
    consecutive (db.count name) (onStream own.events name).length
  later : ∀ r ∈ own.events, ∀ x ∈ db.events,
    (∃ r' ∈ own.events, stream r'.2 = stream x.2) → x.1 < r.1
  eventIds : ∀ r ∈ own.events, ∀ x ∈ db.events, eventId x.2 ≠ eventId r.2
  distinct : (own.events.map (fun r => eventId r.2)).Nodup
  results : ∀ r ∈ own.results, ∀ x ∈ db.results, x.commandId ≠ r.commandId
  once : (own.results.map ResultRow.commandId).Nodup
  snapshots : ∀ name ∈ own.snapshots, ∃ r ∈ own.events, stream r.2 = name

/-- Two transactions have a key in common. -/
def Clash (own other : Written Row) : Prop := ∃ k ∈ own.keys, k ∈ other.keys

/-- The row stands before the other one in the order in which keys are taken. -/
def Before (row row' : Row) : Prop :=
  stream row < stream row' ∨ (stream row = stream row' ∧ seq row < seq row')

/-- What an insert owes: its id is drawn and the last one, its key the last one, and, if
the row can be inserted, it has the next number of its stream. -/
structure Inserts (db : Database Row) (own : Written Row) (id : ℕ) (row : Row) : Prop where
  drawn : id ∈ own.drawn
  last : ∀ r ∈ own.events, r.1 < id ∧ Before r.2 row
  next : (∀ r ∈ db.events ++ own.events, ¬ Database.Meets r.2 row) →
    seq row = db.count (stream row) + (onStream own.events (stream row)).length + 1 ∧
      ∀ x ∈ db.events, stream x.2 = stream row → ∀ r ∈ own.events ++ [(id, row)], x.1 < r.1

/-- What a transaction owes before a statement: it has taken no command id and not the lock of
the relay before it takes another key, and its rows go on the streams. -/
structure Owes (op : Statement Row) (db : Database Row) (own : Written Row) : Prop where
  unheld : op.keys ≠ [] → own.results = [] ∧ own.relaying = false
  inserts : ∀ id row, op = .insertEvent id row → Inserts db own id row
  snapshot : ∀ name, op = .writeSnapshot name → ∃ r ∈ own.events, stream r.2 = name
  relay : op = .lockRelay → own.keys = []

theorem numbered_empty : Numbered (Database.empty : Database Row) :=
  ⟨.nil, (fun _ h => nomatch h), fun _ => rfl, .nil, .nil⟩

/-! ### The order of rows -/

omit [LogRow Row] in
theorem mem_byId {rows : List (ℕ × Row)} {r : ℕ × Row} : r ∈ byId rows ↔ r ∈ rows :=
  List.mem_insertionSort _

/-- Rows by id are the committed ones and then the own ones, where all of these are later. -/
theorem filter_byId (h : Numbered db) (howns : Owns db own) {p : ℕ × Row → Bool}
    (hlater : ∀ x ∈ db.events, ∀ r ∈ own.events, p x → p r → x.1 < r.1) :
    (byId (db.events ++ own.events)).filter p = db.events.filter p ++ own.events.filter p := by
  rw [byId, filter_insertionSort_of_pairwise, List.filter_append]
  rw [List.filter_append, List.pairwise_append]
  refine ⟨(h.ids.imp le_of_lt).filter p, (howns.ids.imp le_of_lt).filter p, fun x hx r hr => ?_⟩
  rw [List.mem_filter] at hx hr
  exact (hlater x hx.1 r hr.1 hx.2 hr.2).le

theorem onStream_byId (h : Numbered db) (howns : Owns db own) (name : String) :
    onStream (byId (db.events ++ own.events)) name =
      onStream db.events name ++ onStream own.events name := by
  refine filter_byId h howns fun x hx r hr hxname hrname => ?_
  refine howns.later r hr x hx ⟨r, hr, ?_⟩
  rw [decide_eq_true_eq] at hxname hrname
  rw [hxname, hrname]

theorem seen_of_nil (h : Numbered db) (hnil : own.events = []) :
    db.seen own = db.events.map Prod.snd := by
  rw [Database.seen, hnil, List.append_nil, byId,
    List.Pairwise.insertionSort_eq (h.ids.imp le_of_lt)]

theorem onStream_eq_nil {rows : List (ℕ × Row)} {name : String}
    (h : ∀ r ∈ rows, stream r.2 ≠ name) : onStream rows name = [] :=
  List.filter_eq_nil_iff.mpr fun r hr => by simpa using h r hr

theorem mem_onStream {rows : List (ℕ × Row)} {name : String} {r : ℕ × Row} :
    r ∈ onStream rows name ↔ r ∈ rows ∧ stream r.2 = name := by
  rw [onStream, List.mem_filter, decide_eq_true_eq]

theorem onStream_withEvent (own : Written Row) (id : ℕ) (row : Row) (name : String) :
    onStream (own.withEvent id row).events name =
      if stream row = name then onStream own.events name ++ [(id, row)]
      else onStream own.events name := by
  show (own.events ++ [(id, row)]).filter _ = _
  rw [List.filter_append]
  split
  next hname => rw [List.filter_cons_of_pos (by simpa using hname), List.filter_nil, onStream]
  next hname =>
    rw [List.filter_cons_of_neg (by simpa using hname), List.filter_nil, List.append_nil, onStream]

theorem Numbered.exists_of_le (h : Numbered db) {name : String} {n : Int} (hpos : 1 ≤ n)
    (hle : n ≤ db.count name) : ∃ r ∈ db.events, stream r.2 = name ∧ seq r.2 = n := by
  have hmem : n ∈ (onStream db.events name).map (fun r => seq r.2) := by
    rw [h.seqs, mem_consecutive]
    omega
  obtain ⟨r, hr, rfl⟩ := List.mem_map.mp hmem
  exact ⟨r, (mem_onStream.mp hr).1, (mem_onStream.mp hr).2, rfl⟩

/-- The first own row of a stream is its next one. -/
theorem Owns.exists_first (h : Owns db own) {r : ℕ × Row} (hr : r ∈ own.events) :
    ∃ r' ∈ own.events, stream r'.2 = stream r.2 ∧ seq r'.2 = db.count (stream r.2) + 1 := by
  have hmem : ((db.count (stream r.2) : Int) + 1) ∈
      (onStream own.events (stream r.2)).map (fun r => seq r.2) := by
    rw [h.seqs, mem_consecutive]
    have hpos : 0 < (onStream own.events (stream r.2)).length :=
      List.length_pos_of_mem (mem_onStream.mpr ⟨hr, rfl⟩)
    omega
  obtain ⟨r', hr', hseq⟩ := List.mem_map.mp hmem
  exact ⟨r', (mem_onStream.mp hr').1, (mem_onStream.mp hr').2, hseq⟩

/-! ### Keys -/

theorem version_mem_keys {r : ℕ × Row} (hr : r ∈ own.events) :
    Key.version (stream r.2) (seq r.2) ∈ own.keys := by
  simp only [Written.keys, List.mem_append, List.mem_map]
  exact Or.inl (Or.inl (Or.inl (Or.inl (Or.inr ⟨r, hr, rfl⟩))))

theorem event_mem_keys {r : ℕ × Row} (hr : r ∈ own.events) : Key.event (eventId r.2) ∈ own.keys := by
  simp only [Written.keys, List.mem_append, List.mem_map]
  exact Or.inl (Or.inl (Or.inl (Or.inr ⟨r, hr, rfl⟩)))

theorem id_mem_keys {id : ℕ} (h : id ∈ own.drawn) : Key.id id ∈ own.keys := by
  simp only [Written.keys, List.mem_append, List.mem_map]
  exact Or.inl (Or.inl (Or.inl (Or.inl (Or.inl ⟨id, h, rfl⟩))))

theorem mem_drawn_of_key {id : ℕ} (h : Key.id id ∈ own.keys) : id ∈ own.drawn := by
  rw [Written.keys] at h
  split at h <;> simpa using h

theorem result_mem_keys {r : ResultRow} (h : r ∈ own.results) :
    Key.result r.commandId ∈ own.keys := by
  simp only [Written.keys, List.mem_append, List.mem_map]
  exact Or.inl (Or.inl (Or.inr ⟨r, h, rfl⟩))

/-- **Transactions that do not clash have no stream in common.** -/
theorem apart_of_not_clash (hown : Owns db own) (hother : Owns db other) (h : ¬ Clash own other)
    {r r' : ℕ × Row} (hr : r ∈ own.events) (hr' : r' ∈ other.events) :
    stream r.2 ≠ stream r'.2 := by
  intro hsame
  obtain ⟨x, hx, hxstream, hxseq⟩ := hown.exists_first hr
  obtain ⟨y, hy, hystream, hyseq⟩ := hother.exists_first hr'
  refine h ⟨_, version_mem_keys hx, ?_⟩
  have hkey := version_mem_keys hy
  rw [hystream, hyseq, ← hsame] at hkey
  rw [hxstream, hxseq]
  exact hkey

/-! ### Growth -/

theorem Grows.refl (db : Database Row) : Grows db db :=
  ⟨List.Sublist.refl _, fun _ => List.prefix_refl _, List.prefix_refl _, le_rfl⟩

theorem Grows.trans {db'' : Database Row} (h : Grows db db') (h' : Grows db' db'') :
    Grows db db'' :=
  ⟨h.events.trans h'.events, fun name => (h.streams name).trans (h'.streams name),
    h.results.trans h'.results, h.nextId.trans h'.nextId⟩

theorem Grows.count_le (h : Grows db db') (name : String) : db.count name ≤ db'.count name :=
  (h.streams name).length_le

theorem Grows.onStream_eq (h : Grows db db') {name : String} (hcount : db'.count name ≤ db.count name) :
    onStream db'.events name = onStream db.events name :=
  ((h.streams name).eq_of_length_le hcount).symm

def rely : Rely (Database Row) (Written Row) where
  Inv := Numbered
  Grows := Grows
  Owns := Owns
  refl := Grows.refl
  trans := Grows.trans

/-! ### Drawing -/

section Draw

variable (op : Statement Row)

omit [LogRow Row] in
theorem draw_eq (db : Database Row) : draw op db = { db with nextId := (draw op db).nextId } ∧
    db.nextId ≤ (draw op db).nextId := by
  cases op <;> exact ⟨rfl, by simp [draw]⟩

theorem Numbered.withNextId (h : Numbered db) {n : ℕ} (hn : db.nextId ≤ n) :
    Numbered { db with nextId := n } :=
  ⟨h.ids, fun r hr => (h.drawn r hr).trans_le hn, h.seqs, h.eventIds, h.results⟩

theorem Owns.withNextId (h : Owns db own) {n : ℕ} (hn : db.nextId ≤ n) :
    Owns { db with nextId := n } own :=
  ⟨h.ids, h.drawn, fun id hid => ⟨(h.fresh id hid).1.trans_le hn, (h.fresh id hid).2⟩, h.seqs, h.later,
    h.eventIds, h.distinct, h.results, h.once, h.snapshots⟩

theorem draw_keeps (h : Numbered db) : Numbered (draw op db) ∧ Grows db (draw op db) ∧
    ∀ {own : Written Row}, Owns db own → Owns (draw op db) own := by
  obtain ⟨heq, hle⟩ := draw_eq op db
  rw [heq]
  exact ⟨h.withNextId hle, ⟨List.Sublist.refl _, fun _ => List.prefix_refl _, List.prefix_refl _, hle⟩,
    fun hown => hown.withNextId hle⟩

end Draw

/-! ### Publishing -/

section Publish

variable (h : Numbered db) (howns : Owns db own)

include h howns

theorem count_publish (name : String) :
    (publish db own).count name = db.count name + (onStream own.events name).length := by
  rw [Database.count, publish, onStream_byId h howns, List.length_append]
  rfl

theorem Numbered.publish : Numbered (publish db own) := by
  have hmem : ∀ {r}, r ∈ (Postgres.publish db own).events → r ∈ db.events ∨ r ∈ own.events := by
    intro r hr
    exact List.mem_append.mp (mem_byId.mp hr)
  have hperm : (Postgres.publish db own).events.Perm (db.events ++ own.events) :=
    List.perm_insertionSort _ _
  refine ⟨?_, fun r hr => ?_, fun name => ?_, ?_, ?_⟩
  · -- The rows are sorted by id, and no two have one id.
    have hnodup : (db.events ++ own.events).Pairwise (fun r r' => r.1 ≠ r'.1) := by
      refine List.pairwise_append.mpr ⟨h.ids.imp ne_of_lt, howns.ids.imp ne_of_lt, ?_⟩
      exact fun x hx r hr => (howns.fresh r.1 (howns.drawn r hr)).2 x hx
    have hsorted : (Postgres.publish db own).events.Pairwise (fun r r' => r.1 ≤ r'.1) :=
      List.pairwise_insertionSort _ _
    have hnodup' := hperm.symm.pairwise hnodup (fun hne => hne.symm)
    exact (hsorted.and hnodup').imp fun hle => lt_of_le_of_ne hle.1 hle.2
  · rcases hmem hr with hr | hr
    · exact h.drawn r hr
    · exact (howns.fresh r.1 (howns.drawn r hr)).1
  · rw [count_publish h howns]
    show (onStream (byId (db.events ++ own.events)) name).map (fun r => seq r.2) = _
    rw [onStream_byId h howns, List.map_append, h.seqs, howns.seqs, consecutive_add]
    simp
  · refine (hperm.map _).nodup_iff.mpr ?_
    rw [List.map_append]
    refine h.eventIds.append howns.distinct fun e he he' => ?_
    obtain ⟨x, hx, rfl⟩ := List.mem_map.mp he
    obtain ⟨r, hr, heq⟩ := List.mem_map.mp he'
    exact howns.eventIds r hr x hx heq.symm
  · show ((db.results ++ own.results).map ResultRow.commandId).Nodup
    rw [List.map_append]
    refine h.results.append howns.once fun c hc hc' => ?_
    obtain ⟨x, hx, rfl⟩ := List.mem_map.mp hc
    obtain ⟨r, hr, heq⟩ := List.mem_map.mp hc'
    exact howns.results r hr x hx heq.symm

theorem Grows.publish : Grows db (publish db own) := by
  refine ⟨?_, fun name => ?_, List.prefix_append _ _, le_rfl⟩
  · exact List.sublist_insertionSort (h.ids.imp le_of_lt) (List.sublist_append_left _ _)
  · show onStream db.events name <+: onStream (byId (db.events ++ own.events)) name
    rw [onStream_byId h howns]
    exact List.prefix_append _ _

theorem Owns.publish (hother : Owns db other) (hclash : ¬ Clash own other) :
    Owns (publish db own) other := by
  have hmem : ∀ {r}, r ∈ (Postgres.publish db own).events → r ∈ db.events ∨ r ∈ own.events := by
    intro r hr
    exact List.mem_append.mp (mem_byId.mp hr)
  have happart : ∀ {r r' : ℕ × Row}, r ∈ other.events → r' ∈ own.events → stream r.2 ≠ stream r'.2 :=
    fun hr hr' heq => apart_of_not_clash howns hother hclash hr' hr heq.symm
  refine ⟨hother.ids, hother.drawn, fun id hid => ⟨(hother.fresh id hid).1, fun x hx => ?_⟩,
    fun name => ?_, fun r hr x hx hstream => ?_, fun r hr x hx => ?_, hother.distinct,
    fun r hr x hx => ?_, hother.once, hother.snapshots⟩
  · rcases hmem hx with hx | hx
    · exact (hother.fresh id hid).2 x hx
    · rintro rfl
      exact hclash ⟨_, id_mem_keys (howns.drawn x hx), id_mem_keys hid⟩
  · rw [hother.seqs, count_publish h howns]
    by_cases hname : ∃ r ∈ other.events, stream r.2 = name
    · obtain ⟨r, hr, hrname⟩ := hname
      have hnil : onStream own.events name = [] :=
        onStream_eq_nil fun r' hr' => hrname ▸ (happart hr hr').symm
      rw [hnil]
      rfl
    · have hnil : onStream other.events name = [] :=
        onStream_eq_nil fun r hr hrname => hname ⟨r, hr, hrname⟩
      rw [hnil]
      rfl
  · rcases hmem hx with hx | hx
    · exact hother.later r hr x hx hstream
    · obtain ⟨r', hr', heq⟩ := hstream
      exact absurd heq (happart hr' hx)
  · rcases hmem hx with hx | hx
    · exact hother.eventIds r hr x hx
    · intro heq
      refine hclash ⟨_, event_mem_keys hx, ?_⟩
      rw [heq]
      exact event_mem_keys hr
  · rcases List.mem_append.mp hx with hx | hx
    · exact hother.results r hr x hx
    · intro heq
      refine hclash ⟨_, result_mem_keys hx, ?_⟩
      rw [heq]
      exact result_mem_keys hr

end Publish

/-! ### Executing -/

/-- **What a statement can write.** -/
inductive Writes (db : Database Row) (own : Written Row) : Statement Row → Written Row → Prop
  | event {id : ℕ} {row : Row} (fits : ∀ r ∈ db.events ++ own.events, ¬ Database.Meets r.2 row) :
      Writes db own (.insertEvent id row) (own.withEvent id row)
  | result {row : ResultRow} (fits : ∀ r ∈ db.results ++ own.results, r.commandId ≠ row.commandId) :
      Writes db own (.insertResult row) (own.withResult row)
  | drawn : Writes db own .nextId (own.withId db.nextId)
  | snapshot {name : String} : Writes db own (.writeSnapshot name) (own.withSnapshot name)
  | locked : Writes db own .lockRelay { own with relaying := true }
  | other {op : Statement Row} (outbox : List (ℕ × String)) (published : List ℕ)
      (readings issued : ℕ) (keys : op.keys = []) :
      Writes db own op { own with outbox := outbox, published := published,
                                  readings := readings, issued := issued }

theorem Writes.nothing {op : Statement Row} (h : op.keys = []) : Writes db own op own :=
  .other own.outbox own.published own.readings own.issued h

theorem insertEvent_eq_ok {id : ℕ} {row : Row} {u : Unit} :
    db.insertEvent own id row = .ok (u, own') ↔
      (∀ r ∈ db.events ++ own.events, ¬ Database.Meets r.2 row) ∧
        own' = own.withEvent id row := by
  rw [Database.insertEvent]
  split
  next hmeets =>
    obtain ⟨r, hr, hmeets⟩ := hmeets
    exact ⟨(fun h => nomatch h), fun h => absurd hmeets (h.1 r hr)⟩
  next hfits =>
    rw [Except.ok.injEq, Prod.mk.injEq]
    exact ⟨fun h => ⟨fun r hr hmeets => hfits ⟨r, hr, hmeets⟩, h.2.symm⟩, fun h => ⟨rfl, h.2.symm⟩⟩

theorem insertEvent_error {id : ℕ} {row : Row} {e : PyError}
    (h : db.insertEvent own id row = .error e) : e = .integrityError := by
  rw [Database.insertEvent] at h
  split at h
  next => exact (Except.error.inj h).symm
  next => cases h

omit [LogRow Row] in
theorem insertResult_eq_ok {row : ResultRow} {u : Unit} :
    db.insertResult own row = .ok (u, own') ↔
      (∀ r ∈ db.results ++ own.results, r.commandId ≠ row.commandId) ∧
        own' = own.withResult row := by
  rw [Database.insertResult]
  split
  next htaken =>
    obtain ⟨r, hr, hid⟩ := htaken
    exact ⟨(fun h => nomatch h), fun h => absurd hid (h.1 r hr)⟩
  next hfree =>
    rw [Except.ok.injEq, Prod.mk.injEq]
    exact ⟨fun h => ⟨fun r hr hid => hfree ⟨r, hr, hid⟩, h.2.symm⟩, fun h => ⟨rfl, h.2.symm⟩⟩

omit [LogRow Row] in
theorem insertResult_error {row : ResultRow} {e : PyError}
    (h : db.insertResult own row = .error e) : e = .integrityError := by
  rw [Database.insertResult] at h
  split at h
  next => exact (Except.error.inj h).symm
  next => cases h

theorem writes_of_read {op : Statement Row} {α : Type} {x : Except PyError α} {a : α}
    (hkeys : op.keys = []) (h : x.map (·, own) = .ok (a, own')) : Writes db own op own' := by
  cases x with
  | error e => cases h
  | ok b =>
    cases h
    exact Writes.nothing hkeys

theorem writes_of_exec {op : Statement Row} {reply : op.Res}
    (h : exec op db own = .ok (reply, own')) : Writes db own op own' := by
  cases op with
  | storedResult | foldStream | openHold | legsOf | revertedBy => exact writes_of_read rfl h
  | nextSeq | pending | head | feed =>
    cases h
    exact Writes.nothing rfl
  | reading =>
    cases h
    exact .other own.outbox own.published _ own.issued rfl
  | issue =>
    cases h
    exact .other own.outbox own.published own.readings _ rfl
  | markPublished ids =>
    cases h
    exact .other own.outbox _ own.readings own.issued rfl
  | nextId =>
    cases h
    exact .drawn
  | writeSnapshot name =>
    cases h
    exact .snapshot
  | lockRelay =>
    cases h
    exact .locked
  | insertEvent id row =>
    obtain ⟨hfits, rfl⟩ := insertEvent_eq_ok.mp h
    exact .event hfits
  | insertResult row =>
    obtain ⟨hfits, rfl⟩ := insertResult_eq_ok.mp h
    exact .result hfits
  | insertOutbox rows =>
    change db.insertOutbox own rows = _ at h
    rw [Database.insertOutbox] at h
    split at h
    next =>
      cases h
      exact .other _ own.published own.readings own.issued rfl
    next => cases h

theorem Writes.keys {op : Statement Row} (h : Writes db own op own') {k : Key} (hk : k ∈ own'.keys) :
    k ∈ own.keys ∨ k ∈ op.keys ∨ k = .id db.nextId := by
  cases h with
  | event | result | drawn | snapshot | locked =>
    simp only [Written.keys, Written.withEvent, Written.withResult, Written.withId,
      Written.withSnapshot, Statement.keys, List.map_append, List.mem_append, List.map_cons,
      List.map_nil, List.mem_cons, List.not_mem_nil, or_false, if_true] at hk ⊢
    tauto
  | other _ _ _ _ _ => exact Or.inl hk

/-- What a transaction has goes on where the database ends, after a statement too. -/
theorem Writes.owns {op : Statement Row} (h : Writes db own op own') (hdb : Numbered db)
    (howns : Owns db own) (howes : Owes op db own) : Owns (draw op db) own' := by
  cases h with
  | @event id row fits =>
    obtain ⟨hdrawn, hlast, hnext⟩ := howes.inserts id row rfl
    obtain ⟨hseq, hlater⟩ := hnext fits
    refine ⟨?_, fun r hr => ?_, howns.fresh, fun name => ?_, fun r hr x hx hstream => ?_,
      fun r hr x hx => ?_, ?_, howns.results, howns.once, fun name hname => ?_⟩
    · refine List.pairwise_append.mpr ⟨howns.ids, List.pairwise_singleton _ _, fun r hr r' hr' => ?_⟩
      rw [List.mem_singleton.mp hr']
      exact (hlast r hr).1
    · rcases List.mem_append.mp hr with hr | hr
      · exact howns.drawn r hr
      · rw [List.mem_singleton.mp hr]
        exact hdrawn
    · rw [onStream_withEvent]
      split
      next hname =>
        subst hname
        rw [List.map_append, List.length_append, howns.seqs, List.map_singleton, hseq,
          List.length_singleton, consecutive_concat]
        push_cast
        rfl
      next => exact howns.seqs name
    · obtain ⟨r', hr', heq⟩ := hstream
      rcases List.mem_append.mp hr' with hr' | hr'
      · rcases List.mem_append.mp hr with hr | hr
        · exact howns.later r hr x hx ⟨r', hr', heq⟩
        · rw [List.mem_singleton.mp hr]
          exact (howns.later r' hr' x hx ⟨r', hr', heq⟩).trans (hlast r' hr').1
      · rw [List.mem_singleton.mp hr'] at heq
        exact hlater x hx heq.symm r hr
    · rcases List.mem_append.mp hr with hr | hr
      · exact howns.eventIds r hr x hx
      · rw [List.mem_singleton.mp hr]
        exact fun heq => fits x (List.mem_append_left _ hx) (Or.inr heq)
    · rw [Written.withEvent, List.map_append]
      refine howns.distinct.append (List.nodup_singleton _) fun e he he' => ?_
      obtain ⟨r, hr, rfl⟩ := List.mem_map.mp he
      exact fits r (List.mem_append_right _ hr) (Or.inr (List.mem_singleton.mp he'))
    · obtain ⟨r, hr, heq⟩ := howns.snapshots name hname
      exact ⟨r, List.mem_append_left _ hr, heq⟩
  | @result row fits =>
    refine ⟨howns.ids, howns.drawn, howns.fresh, howns.seqs, howns.later, howns.eventIds,
      howns.distinct, fun r hr x hx => ?_, ?_, howns.snapshots⟩
    · rcases List.mem_append.mp hr with hr | hr
      · exact howns.results r hr x hx
      · rw [List.mem_singleton.mp hr]
        exact fits x (List.mem_append_left _ hx)
    · rw [Written.withResult, List.map_append]
      refine howns.once.append (List.nodup_singleton _) fun c hc hc' => ?_
      obtain ⟨r, hr, rfl⟩ := List.mem_map.mp hc
      exact fits r (List.mem_append_right _ hr) (List.mem_singleton.mp hc')
  | drawn =>
    refine ⟨howns.ids, fun r hr => List.mem_append_left _ (howns.drawn r hr), fun id hid => ?_,
      howns.seqs, howns.later, howns.eventIds, howns.distinct, howns.results, howns.once,
      howns.snapshots⟩
    rcases List.mem_append.mp hid with hid | hid
    · exact ⟨(howns.fresh id hid).1.trans (Nat.lt_succ_self _), (howns.fresh id hid).2⟩
    · rw [List.mem_singleton.mp hid]
      exact ⟨Nat.lt_succ_self _, fun x hx => (hdb.drawn x hx).ne⟩
  | @snapshot name =>
    refine ⟨howns.ids, howns.drawn, howns.fresh, howns.seqs, howns.later, howns.eventIds,
      howns.distinct, howns.results, howns.once, fun name' hname => ?_⟩
    rcases List.mem_append.mp hname with hname | hname
    · exact howns.snapshots name' hname
    · rw [List.mem_singleton.mp hname]
      exact howes.snapshot name rfl
  | locked =>
    exact ⟨howns.ids, howns.drawn, howns.fresh, howns.seqs, howns.later, howns.eventIds,
      howns.distinct, howns.results, howns.once, howns.snapshots⟩
  | other _ _ _ _ _ =>
    have hkeep := ((draw_keeps op hdb).2.2 howns)
    exact ⟨hkeep.ids, hkeep.drawn, hkeep.fresh, hkeep.seqs, hkeep.later, hkeep.eventIds,
      hkeep.distinct, hkeep.results, hkeep.once, hkeep.snapshots⟩

/-- **Why the streams stay numbered**: transactions that keep to what they owe do not clash,
and what they have written can be published. -/
theorem discipline : Discipline rely Owes Clash (engine : Engine (Database Row) _ _ _ _) (fun _ _ => True) where
  clash_symm := fun ⟨k, hk, hk'⟩ => ⟨k, hk', hk⟩
  clash_blank own := fun ⟨_, hk, _⟩ => nomatch hk
  blank _ := ⟨.nil, (fun _ h => nomatch h), (fun _ h => nomatch h), (fun _ => rfl),
    (fun _ h => nomatch h), (fun _ h => nomatch h), .nil, (fun _ h => nomatch h), .nil,
    (fun _ h => nomatch h)⟩
  draw op h := draw_keeps op h
  exec {db op own own' reply} hdb howns howes hexec := by
    have hwrites := writes_of_exec hexec
    refine ⟨hwrites.owns hdb howns howes, fun {other} hother hclash hwaits ⟨k, hk, hk'⟩ => ?_⟩
    rcases hwrites.keys hk with hk | hk | rfl
    · exact hclash ⟨k, hk, hk'⟩
    · have hwaits' : op.keys.any (· ∈ other.keys) = true := by
        rw [List.any_eq_true]
        exact ⟨k, hk, decide_eq_true hk'⟩
      exact absurd (hwaits.symm.trans hwaits') (fun h => nomatch h)
    · exact absurd (hother.fresh _ (mem_drawn_of_key hk')).1 (lt_irrefl _)
  publish hdb howns _ :=
    ⟨hdb.publish howns, Grows.publish hdb howns, fun hother hclash => Owns.publish hdb howns hother hclash⟩

end Cloudscale.Postgres
