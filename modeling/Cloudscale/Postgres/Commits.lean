import Cloudscale.Ledger.Serial
import Cloudscale.Postgres.Stores

/-!
# What an attempt commits

The statements of an attempt see different states, but an attempt that has written a row
on a stream has the next number of that stream, so the stream is what the attempt has
read (`count_of_written`).  Every command writes on its own account and on every account
that it folds.  The open hold is read off the stream of the account, and a set with legs is
final; a reversal of the set that the attempt has not seen would have a row on the
account.  So an accepted attempt has read what is there when it commits
(`agrees_of_accepted`), and its commit does what `execute` does there.

The database is then always what the accepted calls, one after the other, come to
(`Serialized`), up to the order of rows on different streams.
-/

namespace Cloudscale.Postgres

open Checked Python ReadCommitted LogRow Streams Account

/-! ### Definitions -/

/-- The calls, one after the other, come to the same log. -/
structure Serial (db : Database EventRow) (calls : List Call) : Prop where
  log : db.store.SameLog (storeAfter calls)
  recorded : ∀ row ∈ (storeAfter calls).results, ∃ row' ∈ db.results, row'.commandId = row.commandId
  kept : ∀ row ∈ db.results, ∃ r, Keeps row r

/-- **The database is what some calls, one after the other, come to.** -/
structure Serialized (db : Database EventRow) : Prop where
  numbered : Numbered db
  serial : ∃ calls, Serial db calls

/-- The database grows, and the legs of a set stay what they are. -/
structure Extends (db db' : Database EventRow) : Prop where
  grows : Grows db db'
  final : ∀ t, legsOfRows (db.store.setOf t) ≠ [] → db'.store.setOf t = db.store.setOf t

theorem Extends.trans {db db' db'' : Database EventRow} (h : Extends db db')
    (h' : Extends db' db'') : Extends db db'' := by
  refine ⟨h.grows.trans h'.grows, fun t hne => ?_⟩
  have hsame := h.final t hne
  rw [h'.final t (hsame ▸ hne), hsame]

def serialRely : Rely (Database EventRow) (Written EventRow) where
  Inv := Serialized
  Grows := Extends
  Owns := Owns
  refl db := ⟨Grows.refl db, fun _ _ => rfl⟩
  trans := Extends.trans

section Serialized

variable {db : Database EventRow}

theorem Serialized.ledger (h : Serialized db) : db.store.Ledger := by
  obtain ⟨calls, hserial⟩ := h.serial
  have hledger := ledger_storeAfter calls
  refine ⟨hserial.log.symm.coherent hledger.coherent, fun r hr t ht => ?_, hserial.kept,
    h.numbered.results⟩
  obtain ⟨row, hrow, rfl⟩ := hledger.recorded r (hserial.log.perm.mem_iff.mp hr) t ht
  exact hserial.recorded row hrow

theorem Serialized.mirrored (h : Serialized db) : Mirrored db.store := by
  obtain ⟨calls, hserial⟩ := h.serial
  intro x hx t ht
  obtain ⟨hne, hall⟩ := mirrored_storeAfter calls x (hserial.log.perm.mem_iff.mp hx) t ht
  rw [hserial.log.sets]
  refine ⟨hne, fun leg hleg => ?_⟩
  obtain ⟨y, hy, hfields⟩ := hall leg hleg
  exact ⟨y, hserial.log.perm.mem_iff.mpr hy, hfields⟩

theorem serialized_empty : Serialized .empty :=
  ⟨numbered_empty, [], Store.SameLog.refl _, (fun _ h => nomatch h), (fun _ h => nomatch h)⟩

end Serialized

/-! ### Streams that have not moved -/

section Unmoved

variable {db t : Database EventRow} {own : Written EventRow} {a : String}

theorem filter_seen (hdb : Numbered db) (hnil : own.events = []) (p : EventRow → Prop)
    [DecidablePred p] (name : String) :
    (db.seen own).filter (fun r => LogRow.stream r = name ∧ p r) =
      ((onStream db.events name).map Prod.snd).filter p := by
  rw [seen_of_nil hdb hnil, onStream, List.filter_map, List.filter_map, List.filter_filter]
  refine congrArg (List.map _) (List.filter_congr fun r _ => ?_)
  simp only [Function.comp_apply, Bool.decide_and]
  exact Bool.and_comm _ _

theorem stable_foldStream (ht : Numbered t) (hdb : Numbered db) (hnil : own.events = [])
    (h : onStream t.events (streamName a) = onStream db.events (streamName a)) :
    Stable db ⟨.foldStream a, own, t⟩ := by
  have hrows : ∀ {u : Database EventRow}, Numbered u →
      (u.seen own).filter (fun r => LogRow.stream r = streamName a) =
        (onStream u.events (streamName a)).map Prod.snd := by
    intro u hu
    rw [seen_of_nil hu hnil, onStream, List.filter_map]
    rfl
  show (foldStream (db.seen own) a).map (·, own) = (foldStream (t.seen own) a).map (·, own)
  rw [foldStream, foldStream, hrows hdb, hrows ht, h]

theorem stable_openHold (ht : Numbered t) (hdb : Numbered db) (hnil : own.events = [])
    (h : onStream t.events (streamName a) = onStream db.events (streamName a)) (id : UUID) :
    Stable db ⟨.openHold a id, own, t⟩ := by
  show (openHold (db.seen own) a id).map (·, own) = (openHold (t.seen own) a id).map (·, own)
  rw [openHold, openHold, filter_seen hdb hnil, filter_seen ht hnil, h]

/-- A stream is the same in every state between two in which it has one length. -/
theorem onStream_between {t₁ : Database EventRow} {name : String} (h : Grows t₁ t) (h' : Grows t db)
    (hcount : db.count name ≤ t₁.count name) :
    onStream t.events name = onStream db.events name :=
  (h'.onStream_eq (hcount.trans (h.count_le name))).symm

end Unmoved

/-! ### Streams that an attempt has written on -/

section Written

variable {Row : Type} [LogRow Row] {db : Database Row} {own : Written Row}

theorem LegRows.map_key {call : Call} {now : Datetime} {n : ℕ} {legs : List (AccountEvent × Int)}
    {rows : List Row} {p p' : List Posting × Option EventEnvelope}
    (h : LegRows call now n legs p rows p') :
    rows.map (fun r => (stream r, seq r)) =
      legs.map (fun leg => (streamName leg.1.accountId, leg.2)) := by
  induction h with
  | nil => rfl
  | cons wraps _ _ ih =>
    rw [List.map_cons, List.map_cons, ih, stream_ofEnvelope, seq_ofEnvelope,
      (EventEnvelope.fromDomainEvent_wraps wraps).streamVersion]

theorem LegRows.rowsOf {call : Call} {now : Datetime} {n : ℕ} {legs : List (AccountEvent × Int)}
    {p p' : List Posting × Option EventEnvelope}
    (h : LegRows call now n legs p (own.events.map Prod.snd) p') : RowsOf legs own := by
  have hkeys := h.map_key
  rwa [List.map_map] at hkeys

/-- **A stream that an attempt has written on is as it was read.** -/
theorem count_of_written {states : States} {events : List AccountEvent}
    {legs : List (AccountEvent × Int)} (hrows : RowsOf legs own) (howns : Owns db own)
    (hlegs : numberLegs states events = .ok legs) {a : String}
    (ha : a ∈ events.map AccountEvent.accountId) :
    (db.count (streamName a) : Int) = versionIn states a := by
  refine hrows.count_eq (planned_of_numberLegs hlegs) (List.append_nil _).symm howns fun hnil => ?_
  obtain ⟨e, he, rfl⟩ := List.mem_map.mp ha
  obtain ⟨leg, hleg, rfl⟩ :=
    List.mem_map.mp ((mem_events_of_numberLegs hlegs).mem_iff.mpr he)
  have hlength := hrows.length_onStream leg.1.accountId
  rw [hnil, List.length_nil, eq_comm, List.length_eq_zero_iff, List.filter_eq_nil_iff] at hlength
  exact hlength leg hleg (by simp)

theorem FoldedOthers.steps {own : Written Row} {states states' : States} {as : List String}
    {more : List (Step Row)} {r : Except PyError States} (h : FoldedOthers own states as more r) :
    r = .ok states' → (∀ a st, states.lookup a = some st → states'.lookup a = some st) ∧
      ∀ step ∈ more, ∃ a ∈ as, ∃ t st, step = ⟨.foldStream a, own, t⟩ ∧
        foldStream (t.seen own) a = .ok st ∧ states'.lookup a = some st := by
  induction h with
  | done states =>
    intro hr
    cases hr
    exact ⟨fun _ _ h => h, fun _ h => nomatch h⟩
  | known _ _ ih =>
    intro hr
    obtain ⟨hlookup, hsteps⟩ := ih hr
    refine ⟨hlookup, fun step hstep => ?_⟩
    obtain ⟨a, ha, hrest⟩ := hsteps step hstep
    exact ⟨a, List.mem_cons_of_mem _ ha, hrest⟩
  | @folded states a as more r st t hunknown fold _ ih =>
    intro hr
    obtain ⟨hlookup, hsteps⟩ := ih hr
    refine ⟨fun b sb hb => hlookup b sb ?_, fun step hstep => ?_⟩
    · rw [List.lookup_append, hb]
      rfl
    · rcases List.mem_cons.mp hstep with rfl | hstep
      · refine ⟨a, List.mem_cons_self, t, st, rfl, fold, hlookup a st ?_⟩
        rw [List.lookup_append, Option.not_isSome_iff_eq_none.mp hunknown, Tables.lookup_cons_ite, if_pos rfl]
        rfl
      · obtain ⟨b, hb, hrest⟩ := hsteps step hstep
        exact ⟨b, List.mem_cons_of_mem _ hb, hrest⟩
  | failed => exact fun hr => nomatch hr

end Written

/-! ### What an accepted attempt has read -/

section Reading

variable {db : Database EventRow} {own₀ own : Written EventRow}

/-- **The folds of streams that have not moved** would be answered the same. -/
theorem FoldedOthers.stable {anchor : String} {state : AccountState} {states : States}
    {as : List String} {more : List (Step EventRow)}
    (h : FoldedOthers own₀ [(anchor, state)] as more (.ok states)) (hnil : own₀.events = [])
    (hdb : Numbered db) (hseen : ∀ step ∈ more, Numbered step.seen ∧ Grows step.seen db)
    (hcount : ∀ a ∈ as, (db.count (streamName a) : Int) = versionIn states a) :
    ∀ step ∈ more, Stable db step := by
  intro step hstep
  obtain ⟨ht, hgrows⟩ := hseen step hstep
  obtain ⟨a, ha, t, st, rfl, hfold, hlookup⟩ := (h.steps rfl).2 step hstep
  have hversion := version_of_fold ht hnil hfold
  have hsame := hcount a ha
  rw [versionIn, hlookup, Option.map_some, Option.getD_some, hversion] at hsame
  exact stable_foldStream ht hdb hnil (hgrows.onStream_eq (by omega)).symm

/-- A reversal that the attempt has not seen would have a row on its account. -/
theorem stable_revertedBy (hdb : Serialized db) {t : Database EventRow} (ht : Numbered t)
    (hnil : own₀.events = []) {id : UUID} {a : String}
    (hanchor : ∃ leg ∈ legsOfRows (db.store.setOf id), leg.accountId = a)
    (hstream : onStream t.events (streamName a) = onStream db.events (streamName a))
    (hnone : revertedBy (t.seen own₀) id = .ok none) : Stable db ⟨.revertedBy id, own₀, t⟩ := by
  have hnever : db.store.revertedBy id = .ok none := by
    refine Store.revertedBy_eq_none.mpr fun x hx hxid => ?_
    obtain ⟨-, hall⟩ := hdb.mirrored x hx id hxid
    obtain ⟨leg, hleg, rfl⟩ := hanchor
    obtain ⟨y, hy, hyid, haccount⟩ := hall leg hleg
    obtain ⟨r, hr, rfl⟩ := List.mem_map.mp hy
    have hmem : r ∈ onStream db.events (streamName leg.accountId) :=
      mem_onStream.mpr ⟨hr, congrArg streamName haccount⟩
    rw [← hstream] at hmem
    rw [revertedBy_seen ht hnil] at hnone
    exact Store.revertedBy_eq_none.mp hnone r.2 (List.mem_map_of_mem (mem_onStream.mp hmem).1) hyid
  show (revertedBy (db.seen own₀) id).map (·, own₀) = (revertedBy (t.seen own₀) id).map (·, own₀)
  rw [revertedBy_seen hdb.numbered hnil, hnone, hnever]

end Reading

section Agreeing

variable {attempt : Attempt} {state : AccountState} {db : Database EventRow}
  {own : Written EventRow} {past more : List (Step EventRow)} {legs : List (AccountEvent × Int)}

/-- What an attempt sees after it has folded its account, as long as that stream has not moved. -/
structure Seen (a : String) (db t : Database EventRow) : Prop where
  serialized : Serialized t
  later : Extends t db
  stream : onStream t.events (streamName a) = onStream db.events (streamName a)

/-- **The reads of an accepted decision** would be answered the same by the state before the
commit. -/
theorem Chose.stable (hdb : Serialized db)
    (hdecides : Decides attempt state more (.ok legs)) (hrows : RowsOf legs own) (howns : Owns db own)
    (hseen : ∀ step ∈ more, Seen attempt.call.request.command.accountId db step.seen) :
    ∀ step ∈ more, Stable db step := by
  have hgrows : ∀ step ∈ more, Numbered step.seen ∧ Grows step.seen db :=
    fun step hstep => ⟨(hseen step hstep).serialized.numbered, (hseen step hstep).later.grows⟩
  generalize hr : (Except.ok legs : Except PyError _) = r at hdecides
  cases hdecides with
  | failed => cases hr
  | deposit | withdraw | hold => exact fun _ h => nomatch h
  | @postings anchor postings _ states command folded =>
    obtain ⟨events, hevents, hlegs⟩ := bind_eq_ok.mp hr.symm
    have haccounts := accountId_of_posted (decidePostings_eq_ok.mp hevents).2
    exact folded.stable rfl hdb.numbered hgrows fun a ha =>
      count_of_written hrows howns hlegs (haccounts ▸ ha)
  | @capture c hold _ states t command opened folded =>
    obtain ⟨target, -, hrest⟩ := bind_eq_ok.mp hr.symm
    obtain ⟨events, hevents, hlegs⟩ := bind_eq_ok.mp hrest
    obtain ⟨hold, rfl, -, hcaptured⟩ := decidePostHold_eq_ok.mp hevents
    rw [List.forall_mem_cons] at hseen hgrows ⊢
    rw [command] at hseen
    refine ⟨stable_openHold hgrows.1.1 hdb.numbered rfl hseen.1.stream _, ?_⟩
    refine folded.stable rfl hdb.numbered hgrows.2 fun a ha => ?_
    refine count_of_written hrows howns hlegs ?_
    rw [List.mem_singleton.mp ha]
    cases hcaptured with
    | whole capture all =>
      exact List.mem_map.mpr ⟨.transferCredited _, List.mem_cons_of_mem _ List.mem_cons_self,
        capture.creditedAccount⟩
    | part capture rest less =>
      exact List.mem_map.mpr ⟨.transferCredited _, List.mem_cons_of_mem _ List.mem_cons_self,
        capture.creditedAccount⟩
  | @release kind c hold t command opened =>
    rw [List.forall_mem_singleton] at hseen hgrows ⊢
    rw [AccountCommand.accountId_of_release command] at hseen
    exact stable_openHold hgrows.1 hdb.numbered rfl hseen.stream _
  | @reversal c original more states reverter t t' command legs' folded reverted =>
    obtain ⟨events, hevents, hlegs⟩ := bind_eq_ok.mp hr.symm
    have hrevertible := (decideRevert_eq_ok.mp hevents).1
    rw [List.forall_mem_append, List.forall_mem_cons, List.forall_mem_singleton] at hseen hgrows ⊢
    rw [command] at hseen
    obtain ⟨⟨ht, hmore⟩, ht'⟩ := hseen
    have horiginal : original = (t.store.setOf c.transferId).map EventRow.event := by
      rw [legsOf_seen ht.serialized.numbered rfl,
        Store.legsOf_eq ht.serialized.ledger.coherent.readable] at legs'
      exact (Except.ok.inj legs').symm
    subst horiginal
    have hfinal : db.store.setOf c.transferId = t.store.setOf c.transferId :=
      ht.later.final _ hrevertible.ne_nil
    refine ⟨⟨?_, ?_⟩, ?_⟩
    · show (legsOf (db.seen read1) c.transferId).map (·, read1) =
        (legsOf (t.seen read1) c.transferId).map (·, read1)
      rw [legsOf_seen hdb.numbered rfl, legs', Store.legsOf_eq hdb.ledger.coherent.readable, hfinal]
    · refine folded.stable rfl hdb.numbered hgrows.1.2 fun a ha => ?_
      refine count_of_written hrows howns hlegs ?_
      obtain ⟨e, he, rfl⟩ := List.mem_map.mp ha
      obtain ⟨r, hr, rfl⟩ := List.mem_map.mp he
      obtain ⟨leg, hleg, heq⟩ := (ht.serialized.ledger.coherent.shapes _).account_of_legs
        hrevertible.ne_nil r hr
      rw [accountId_of_decideRevert hevents, ← heq]
      exact List.mem_map_of_mem hleg
    · have hnone : reverter = none := hrevertible.once
      subst hnone
      obtain ⟨leg, hleg, haccount, -⟩ := hrevertible.anchored
      refine stable_revertedBy hdb ht'.serialized.numbered rfl ⟨leg, ?_, haccount⟩ ht'.stream reverted
      rw [hfinal]
      exact hleg

/-- **An accepted attempt has read what is there** when it commits. -/
theorem agrees_of_accepted (hholds : serialRely.Holds db own past)
    (hran : Ran attempt state more own past) (hdecides : Decides attempt state more (.ok legs))
    (hrows : RowsOf legs own)
    (hfresh : ∀ row ∈ db.results, row.commandId ≠ attempt.call.request.commandId) :
    Agrees attempt state more db := by
  have hdb : Serialized db := hholds.inv
  obtain ⟨states, events, hnumbers⟩ := hdecides.numbers
  obtain ⟨e, he, haccount⟩ := hnumbers.addressed
  have hcount := count_of_written hrows hholds.owns hnumbers.numbered (List.mem_map_of_mem he)
  rw [haccount, versionIn, hnumbers.known.self, Option.map_some, Option.getD_some] at hcount
  cases hran with
  | @intro wrote t₀ t₁ t₂ fresh folded writes =>
    have hseen : ∀ step ∈ [⟨.storedResult attempt.call.request.commandId, .nothing, t₀⟩,
        ⟨.foldStream attempt.call.request.command.accountId, .nothing, t₁⟩,
        ⟨.reading, .nothing, t₂⟩] ++ more, Serialized step.seen ∧ Extends step.seen db :=
      fun step hstep => hholds.seen step (List.mem_append_left wrote hstep)
    obtain ⟨ht₁, hgrows⟩ : Serialized t₁ ∧ Extends t₁ db :=
      hseen ⟨.foldStream attempt.call.request.command.accountId, .nothing, t₁⟩ (by simp)
    have hversion := version_of_fold ht₁.numbered rfl folded
    have hmoved : db.count (streamName attempt.call.request.command.accountId) ≤
        t₁.count (streamName attempt.call.request.command.accountId) := by omega
    have hordered := (List.pairwise_append.mp hholds.ordered).1
    have hafter : ∀ step ∈ more, Extends t₁ step.seen := by
      rw [List.cons_append, List.cons_append, List.pairwise_cons, List.pairwise_cons] at hordered
      exact fun step hstep => hordered.2.1 step (List.mem_cons_of_mem _ hstep)
    have hstable : Stable db ⟨.foldStream _, .nothing, t₁⟩ :=
      stable_foldStream ht₁.numbered hdb.numbered rfl (hgrows.grows.onStream_eq hmoved).symm
    refine ⟨hfresh, foldStream_of_stable hdb.numbered rfl hstable folded,
      Chose.stable hdb hdecides hrows hholds.owns fun step hstep => ?_⟩
    obtain ⟨ht, hlater⟩ := hseen step (List.mem_append_right _ hstep)
    exact ⟨ht, hlater, onStream_between (hafter step hstep).grows hlater.grows hmoved⟩

theorem Owns.fits (hdb : Numbered db) (howns : Owns db own) :
    Fits db.store.events (own.events.map Prod.snd) := by
  have hseqs : ∀ name, (onStream own.events name).Pairwise (fun r r' => r.2.seq ≠ r'.2.seq) := by
    intro name
    have hpair : ((onStream own.events name).map (fun r => LogRow.seq r.2)).Pairwise (· < ·) := by
      rw [howns.seqs]
      exact pairwise_consecutive _ _
    rw [List.pairwise_map] at hpair
    exact hpair.imp ne_of_lt
  refine fits_of_pairwise (fun r hr row hrow => ?_) ?_
  · obtain ⟨x, hx, rfl⟩ := List.mem_map.mp hr
    obtain ⟨y, hy, rfl⟩ := List.mem_map.mp hrow
    rintro (⟨hstream, hseq⟩ | hid)
    · have hxseq : x.2.seq ∈ (onStream db.events x.2.stream).map (fun r => LogRow.seq r.2) :=
        List.mem_map_of_mem (f := fun r : ℕ × EventRow => r.2.seq) (mem_onStream.mpr ⟨hx, rfl⟩)
      have hyseq : y.2.seq ∈ (onStream own.events x.2.stream).map (fun r => LogRow.seq r.2) :=
        List.mem_map_of_mem (f := fun r : ℕ × EventRow => r.2.seq)
          (mem_onStream.mpr ⟨hy, hstream.symm⟩)
      rw [hdb.seqs, mem_consecutive] at hxseq
      rw [howns.seqs, mem_consecutive] at hyseq
      omega
    · exact howns.eventIds y hy x hx (congrArg UUID.str hid)
  · rw [List.pairwise_map]
    have hids : own.events.Pairwise (fun r r' => r.2.eventId ≠ r'.2.eventId) := by
      have hnodup := howns.distinct
      rw [List.Nodup, List.pairwise_map] at hnodup
      exact hnodup.imp fun hne heq => hne (congrArg UUID.str heq)
    refine hids.imp₂ (fun r r' hid hseq => ?_) (pairwise_of_filter hseqs)
    rintro (⟨hstream, heq⟩ | heq)
    · exact hseq hstream heq
    · exact hid heq

/-- **An attempt that is accepted does what `execute` does** on the state before its commit. -/
theorem Ended.execute_eq {result : CommandResult} (h : Ended attempt (.ok result) own past)
    (hholds : serialRely.Holds db own past) (haccepted : result.outcome = .accepted) :
    execute db.store attempt.call = (.ok result,
      ⟨db.store.events ++ own.events.map Prod.snd, db.results ++ own.results⟩) := by
  have hdb : Serialized db := hholds.inv
  generalize hr : (Except.ok result : Except PyError CommandResult) = r at h
  cases h with
  | failed | collided | undecided | outOfRange => cases hr
  | replayed t₀ mem events results found same =>
    cases hr
    obtain ⟨rows, hrows⟩ := (hholds.seen _ mem).2.grows.results
    have hstored : db.store.storedResult attempt.call.request.commandId = .ok (some result) :=
      storedResult_mono (s := ⟨[], t₀.results⟩) ⟨rows, hrows.symm⟩ found
    rw [execute_replay hstored same, events, results, List.map_nil, List.append_nil,
      List.append_nil]
    rfl
  | conflicted t₀ events results found different outcome =>
    cases hr
    rw [outcome] at haccepted
    cases haccepted
  | outdated ran version rejects =>
    cases hr
    rw [(CommandResult.new_fields rejects).2.2.1] at haccepted
    cases haccepted
  | @rejected _ _ _ _ error _ ran version decides rejects =>
    cases hr
    rw [(CommandResult.new_fields rejects).2.2.1] at haccepted
    exact absurd haccepted (refusal_rejectionFor error).outcome_ne
  | accepted ran version decides rows accepts results =>
    cases hr
    have hid : result.commandId = attempt.call.request.commandId :=
      (CommandResult.new_fields accepts).1
    have hfresh : ∀ row ∈ db.results, row.commandId ≠ attempt.call.request.commandId := by
      intro row hrow
      rw [← hid]
      exact hholds.owns.results (resultRow attempt 1 result) (by rw [results]; exact List.mem_cons_self)
        row hrow
    rw [results]
    exact (agrees_of_accepted hholds ran decides rows.rowsOf hfresh).execute_accepted hdb.numbered
      hdb.ledger.coherent version decides rows (hholds.owns.fits hdb.numbered) accepts

end Agreeing

end Cloudscale.Postgres
