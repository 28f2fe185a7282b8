import Cloudscale.Adapters.StreamSnapshots
import Cloudscale.Ledger.Outcomes

/-!
# Sound snapshots

A snapshot is sound when it is the fold of its stream up to the event that it is anchored
at (`Sound`).  It stays sound while the log grows (`Sound.grows`).  A snapshot of another
build does no harm as long as its text is read, since it is not used.

A fold that starts from a harmless snapshot is the fold of the whole stream
(`foldStream_eq`), and it starts within the stream (`position_le`).
-/

namespace Cloudscale

open Checked Python Tables Streams

/-! ### Streams that grow -/

namespace Store

variable {s s' : Store} {rows : List EventRow}

theorem streamOf_of_events (h : s'.events = s.events ++ rows) (a : String) :
    s'.streamOf a = s.streamOf a ++ rows.filter (fun r => r.event.accountId = a) := by
  rw [streamOf, h, List.filter_append]
  rfl

end Store

namespace Snapshots

/-! ### Sound snapshots -/

/-- The row is the fold of its stream up to the event that it is anchored at. -/
inductive Sound (s : Store) (a : String) (row : SnapshotRow) : Prop
  | upTo {before after : List EventRow} {anchor : EventRow} {state : AccountState}
      (stream : s.streamOf a = before ++ anchor :: after) (seq : row.seq = anchor.seq)
      (anchored : row.anchorEventId = anchor.eventId.str)
      (version : row.stateVersion = currentStateVersion)
      (text : stateFromJson row.stateJson = .ok ⟨state, false⟩)
      (folds : Account.fold ((before ++ [anchor]).map EventRow.event) = .ok state)

/-- The row is sound, or of another build and still read. -/
def Harmless (s : Store) (a : String) (row : SnapshotRow) : Prop :=
  Sound s a row ∨ row.stateVersion ≠ currentStateVersion ∧ ReadsAsState row.stateJson

/-- Every stream has a harmless snapshot, or none. -/
def AllHarmless (s : Store) (snapshots : Table String SnapshotRow) : Prop :=
  ∀ a row, snapshots.find (streamName a) = some row → Harmless s a row

/-- Where a fold of the stream starts. -/
def position (snapshots : Table String SnapshotRow) (a : String) : Int :=
  match snapshots.find (streamName a) with
  | some row => if row.stateVersion = currentStateVersion then row.seq else 0
  | none => 0

theorem Sound.grows {s s' : Store} {a : String} {row : SnapshotRow} (h : Sound s a row)
    (hstream : s.streamOf a <+: s'.streamOf a) : Sound s' a row := by
  obtain ⟨stream, seq, anchored, version, text, folds⟩ := h
  obtain ⟨rest, hrest⟩ := hstream
  rw [stream, List.append_assoc, List.cons_append] at hrest
  exact .upTo hrest.symm seq anchored version text folds

theorem AllHarmless.grows {s s' : Store} {rows : List EventRow}
    (hevents : s'.events = s.events ++ rows) {snapshots : Table String SnapshotRow}
    (h : AllHarmless s snapshots) : AllHarmless s' snapshots := by
  intro a row hrow
  rcases h a row hrow with hsound | hother
  · refine Or.inl (hsound.grows ?_)
    rw [Store.streamOf_of_events hevents]
    exact List.prefix_append _ _
  · exact Or.inr hother

/-! ### Folds -/

/-- A snapshot of this build that is anchored may be used. -/
theorem rejection_of_anchored {snapshot : StreamSnapshot} {first : EventRow} {rows : List EventRow}
    (hversion : snapshot.stateVersion = currentStateVersion)
    (hstate : snapshot.state.version = snapshot.seq) (hseq : first.seq = snapshot.seq)
    (hanchor : first.eventId.str = snapshot.anchorEventId) :
    snapshotRejection snapshot (first :: rows) = none := by
  simp only [snapshotRejection, hversion, hstate, hseq, hanchor, ne_eq, not_true_eq_false, or_self,
    if_false]

section Folds

variable {s : Store} (hs : s.Readable)

include hs

theorem streamRows_eq (a : String) : StorageTier.streamRows s.events a = s.streamOf a := by
  have hfilter : s.events.filter (fun r => r.stream = streamName a) = s.streamOf a :=
    List.filter_congr fun r _ => by simp only [r.stream_eq_iff]
  rw [StorageTier.streamRows, hfilter, Store.bySeq_of_sublist hs (List.Sublist.refl _)]

theorem readRows_of_sublist {names : List String} {rows : List EventRow}
    (hrows : rows.Sublist s.events) (h : ∀ r ∈ rows, ∀ name ∈ filledColumns r.event, name ∈ names) :
    StorageTier.readRows names rows = .ok (rows.map EventRow.event) :=
  mapM_of_forall fun r hr => EventRow.decodeRow_select (h r hr) (hs.current r (hrows.subset hr))

theorem fullFold_eq (tier : StorageTier) (a : String) :
    fullFold tier s.events a = .ok (s.account a) := by
  rw [fullFold, streamRows_eq hs, readRows_of_sublist hs (s.streamOf_sublist a)
    (fun r _ => tier.filled_mem_all r.event), ok_bind]
  exact Store.fold_eventsOf hs a

theorem rowsFrom_eq {a : String} {before after : List EventRow} {anchor : EventRow}
    (hstream : s.streamOf a = before ++ anchor :: after) :
    StorageTier.rowsFrom s.events a anchor.seq = anchor :: after := by
  have hpair := Store.pairwise_seq hs a
  rw [hstream, List.pairwise_append, List.pairwise_cons] at hpair
  obtain ⟨-, ⟨hafter, -⟩, hbefore⟩ := hpair
  have hfilter : s.events.filter (fun r => r.stream = streamName a ∧ anchor.seq ≤ r.seq) =
      anchor :: after := by
    have hboth : s.events.filter (fun r => r.stream = streamName a ∧ anchor.seq ≤ r.seq) =
        (s.streamOf a).filter (fun r => anchor.seq ≤ r.seq) := by
      rw [Store.streamOf, List.filter_filter]
      refine List.filter_congr fun r _ => ?_
      simp only [r.stream_eq_iff, Bool.decide_and, Bool.and_comm]
    rw [hboth, hstream, List.filter_append, List.filter_cons_of_pos (by simp)]
    have hnone : before.filter (fun r => anchor.seq ≤ r.seq) = [] := by
      refine List.filter_eq_nil_iff.mpr fun r hr => ?_
      have hlt := hbefore r hr anchor List.mem_cons_self
      simpa using hlt
    have hall : after.filter (fun r => anchor.seq ≤ r.seq) = after := by
      refine List.filter_eq_self.mpr fun r hr => ?_
      simpa using (hafter r hr).le
    rw [hnone, hall, List.nil_append]
  rw [StorageTier.rowsFrom, hfilter]
  refine Store.bySeq_of_sublist hs (a := a) ?_
  rw [hstream]
  exact List.sublist_append_right _ _

/-- The position of an event in a stream is its number. -/
theorem seq_of_split {a : String} {before after : List EventRow} {anchor : EventRow}
    (hstream : s.streamOf a = before ++ anchor :: after) :
    anchor.seq = (before ++ [anchor]).length := by
  have hnumbered := hs.numbered a
  rw [Store.eventsOf, hstream, List.map_append, List.map_append, List.map_cons, List.map_cons,
    numberFrom_append, numberFrom_cons] at hnumbered
  have htail := (List.append_inj hnumbered (by simp)).2
  have hseq := (Prod.ext_iff.mp (List.cons.inj htail).1).2
  simp only [List.length_map] at hseq
  rw [hseq, List.length_append, List.length_singleton]
  push_cast
  omega

/-- A sound snapshot may be used, and the fold of what comes after its anchor is that of the
stream. -/
theorem Sound.tail {a : String} {row : SnapshotRow} (h : Sound s a row) :
    ∃ state events, stateFromJson row.stateJson = .ok ⟨state, false⟩ ∧
      snapshotRejection ⟨row.seq, state, row.stateVersion, row.anchorEventId⟩
        (StorageTier.rowsFrom s.events a row.seq) = none ∧
      (∀ tier : StorageTier, StorageTier.readRows tier.selects.fromSeq
        (StorageTier.tailRows s.events a row.seq) = .ok events) ∧
      Account.foldFrom state events = .ok (s.account a) := by
  obtain ⟨stream, seq, anchored, version, text, folds⟩ := h
  rename_i before after anchor state
  have hanchor := seq_of_split hs stream
  have hfields := (Account.foldFrom_fields folds).2.2
  rw [List.length_map] at hfields
  have hversion : state.version = row.seq := by
    rw [seq, hanchor, hfields]
    exact zero_add _
  have hrows := rowsFrom_eq hs stream
  rw [← seq] at hrows
  refine ⟨state, after.map EventRow.event, text, ?_, fun tier => ?_, ?_⟩
  · rw [hrows]
    exact rejection_of_anchored version hversion seq.symm anchored.symm
  · have hafter : after.Sublist s.events := by
      refine List.Sublist.trans ?_ (s.streamOf_sublist a)
      rw [stream]
      exact (List.sublist_cons_self _ _).trans (List.sublist_append_right _ _)
    rw [StorageTier.tailRows, hrows]
    exact readRows_of_sublist hs hafter (fun r _ => tier.filled_mem_fromSeq r.event)
  · have hall := Store.fold_eventsOf hs a
    rw [Store.eventsOf, stream, List.append_cons, List.map_append, Account.fold,
      Account.foldFrom_append] at hall
    rw [Account.fold] at folds
    rwa [folds, ok_bind] at hall

/-- **A fold from a harmless snapshot is the full fold.** -/
theorem foldStream_eq (tier : StorageTier) {snapshots : Table String SnapshotRow}
    (h : AllHarmless s snapshots) (a : String) :
    foldStream tier s.events snapshots.entries a = .ok (s.account a, position snapshots a) := by
  cases hrow : snapshots.find (streamName a) with
  | none =>
    have hlookup : snapshots.entries.lookup (streamName a) = none := hrow
    simp only [foldStream, hlookup, fullFold_eq hs tier, position, hrow]
    rfl
  | some row =>
    have hlookup : snapshots.entries.lookup (streamName a) = some row := hrow
    rcases h a row hrow with hsound | ⟨hother, hreads⟩
    · obtain ⟨state, events, text, hrejection, hevents, hfold⟩ := hsound.tail hs
      have hversion : row.stateVersion = currentStateVersion := by
        cases hsound
        assumption
      simp only [foldStream, hlookup, readSnapshot, text, ok_bind, pure_eq_ok, hrejection,
        requireOwn, require_bind_of, hevents tier, hfold, position, hrow, if_pos hversion]
    · have hfold : foldStream tier s.events snapshots.entries a = _ :=
        foldStream_of_reads hlookup (Or.inl hother) hreads
      rw [hfold, fullFold_eq hs tier, position, hrow]
      simp only [if_neg hother]
      rfl

theorem position_le {snapshots : Table String SnapshotRow} (h : AllHarmless s snapshots)
    (a : String) :
    0 ≤ position snapshots a ∧ position snapshots a ≤ (s.account a).version := by
  have hversion := (s.account a).valid.version_nonneg
  cases hrow : snapshots.find (streamName a) with
  | none =>
    simp only [position, hrow]
    exact ⟨le_rfl, hversion⟩
  | some row =>
    rcases h a row hrow with ⟨stream, seq, -, version, -, -⟩ | ⟨hother, -⟩
    · have hanchor := seq_of_split hs stream
      have hlength := Store.account_version hs a
      rw [stream] at hlength
      simp only [position, hrow, if_pos version]
      simp only [List.length_append, List.length_cons, List.length_nil] at hanchor hlength
      omega
    · simp only [position, hrow, if_neg hother]
      exact ⟨le_rfl, hversion⟩

end Folds

end Snapshots

end Cloudscale
