import Cloudscale.Ledger.Retention

/-!
# What a call leaves behind

A call that returns does exactly one of three things (`calls_number_streams`): it
finds its command id used and leaves the store as it is, it adds the row of a
rejection, or it appends the decided legs and adds the row of the result.

The streams that an accepted call writes go on from where they were
(`Written.numbered`), and the result names the last row on each of them
(`NamesLast`).  None of this needs ids to be used once: an append applies its event
to the fold of its stream, so every store of a run is readable
(`readable_storeThrough`), whatever the job that prunes results has deleted.
-/

namespace Cloudscale

open Checked Python Streams Transactions Account

/-! ### The rows a call appends -/

/-- The last of the rows on an account. -/
def lastOn (rows : List EventRow) (a : String) : Option EventRow :=
  (rows.filter (fun r => r.event.accountId = a)).getLast?

theorem lastOn_concat (rows : List EventRow) (row : EventRow) (a : String) :
    lastOn (rows ++ [row]) a = if row.event.accountId = a then some row else lastOn rows a := by
  rw [lastOn, List.filter_append]
  by_cases ha : row.event.accountId = a
  · rw [if_pos ha, List.filter_cons_of_pos (by simpa using ha)]
    exact List.getLast?_concat
  · rw [if_neg ha, List.filter_cons_of_neg (by simpa using ha), List.filter_nil, List.append_nil]
    rfl

def Posting.Names (p : Posting) (row : EventRow) : Prop :=
  p.accountId = row.event.accountId ∧ p.eventId = row.eventId ∧ p.committedVersion = row.seq

/-- The postings name the last row on each account, and no other. -/
structure NamesLast (rows : List EventRow) (postings : List Posting) : Prop where
  nodup : (postings.map Posting.accountId).Nodup
  last : ∀ p ∈ postings, ∃ row, lastOn rows p.accountId = some row ∧ p.Names row
  every : ∀ row ∈ rows, ∃ p ∈ postings, p.accountId = row.event.accountId

theorem namesLast_nil : NamesLast [] [] :=
  ⟨List.nodup_nil, (fun _ h => nomatch h), fun _ h => nomatch h⟩

theorem mem_setPosting {p q : Posting} : ∀ {ps : List Posting}, (ps.map Posting.accountId).Nodup →
    q ∈ setPosting p ps → q = p ∨ (q ∈ ps ∧ q.accountId ≠ p.accountId) := by
  intro ps
  induction ps with
  | nil =>
    intro _ hq
    exact Or.inl (List.mem_singleton.mp hq)
  | cons x ps ih =>
    intro hnodup hq
    rw [List.map_cons, List.nodup_cons] at hnodup
    rw [setPosting] at hq
    split at hq
    next hx =>
      rcases List.mem_cons.mp hq with rfl | hq
      · exact Or.inl rfl
      · refine Or.inr ⟨List.mem_cons_of_mem x hq, fun heq => hnodup.1 ?_⟩
        rw [hx, ← heq]
        exact List.mem_map_of_mem hq
    next hx =>
      rcases List.mem_cons.mp hq with rfl | hq
      · exact Or.inr ⟨List.mem_cons_self, hx⟩
      · rcases ih hnodup.2 hq with rfl | ⟨hq, hne⟩
        · exact Or.inl rfl
        · exact Or.inr ⟨List.mem_cons_of_mem x hq, hne⟩

/-- One more row, and its posting in the place of the one before. -/
theorem NamesLast.concat {rows : List EventRow} {postings : List Posting}
    (h : NamesLast rows postings) {row : EventRow} {p : Posting} (hp : p.Names row) :
    NamesLast (rows ++ [row]) (setPosting p postings) := by
  refine ⟨nodup_setPosting h.nodup, fun q hq => ?_, fun r hr => ?_⟩
  · rcases mem_setPosting h.nodup hq with rfl | ⟨hq, hne⟩
    · exact ⟨row, by rw [lastOn_concat, if_pos hp.1.symm], hp⟩
    · obtain ⟨r, hr, hnames⟩ := h.last q hq
      exact ⟨r, by rw [lastOn_concat, if_neg (fun heq => hne (heq.symm.trans hp.1.symm)), hr],
        hnames⟩
  · rcases List.mem_append.mp hr with hr | hr
    · obtain ⟨q, hq, haccount⟩ := h.every r hr
      by_cases hqp : q.accountId = p.accountId
      · exact ⟨p, mem_setPosting_self p postings, hqp ▸ haccount⟩
      · exact ⟨q, mem_setPosting_of_ne hqp hq, haccount⟩
    · rw [List.mem_singleton.mp hr]
      exact ⟨p, mem_setPosting_self p postings, hp.1⟩

def EventEnvelope.Envelops (envelope : EventEnvelope) (row : EventRow) : Prop :=
  envelope.eventId = row.eventId ∧ envelope.streamVersion = row.seq

/-- The envelope is that of the last row on the account. -/
def EnvelopsLast (rows : List EventRow) (a : String) (addressed : Option EventEnvelope) : Prop :=
  ∀ envelope ∈ addressed, ∃ row, lastOn rows a = some row ∧ envelope.Envelops row

/-- **What appending returns names the last rows.** -/
theorem appendLegs_names {call : Call} {request : NormalizedCommand} {now : Datetime} :
    ∀ {legs : List (AccountEvent × Int)} {rows : List EventRow} {postings : List Posting}
      {addressed : Option EventEnvelope} {session session' : Session}
      {p : List Posting × Option EventEnvelope},
    (appendLegs call.logStorage request now call.eventIdFactory legs postings addressed).run session =
      .ok (p, session') →
    NamesLast rows postings → EnvelopsLast rows request.command.accountId addressed →
    NamesLast (rows ++ legRows request now call.eventIds session.issued legs) p.1 ∧
      EnvelopsLast (rows ++ legRows request now call.eventIds session.issued legs)
        request.command.accountId p.2 := by
  intro legs
  induction legs with
  | nil =>
    intro rows postings addressed session session' p h hnames hlast
    obtain ⟨rfl, rfl⟩ := run_pure_eq_ok.mp h
    rw [legRows, List.append_nil]
    exact ⟨hnames, hlast⟩
  | cons leg legs ih =>
    obtain ⟨event, version⟩ := leg
    intro rows postings addressed session session' p h hnames hlast
    rw [appendLegs] at h
    obtain ⟨eventId, session₁, hid, h⟩ := run_bind_eq_ok.mp h
    cases hid
    obtain ⟨envelope, session₂, hlift, h⟩ := run_bind_eq_ok.mp h
    obtain ⟨henvelope, rfl⟩ := run_ofExcept_eq_ok.mp hlift
    obtain ⟨u, session₃, happend, h⟩ := run_bind_eq_ok.mp h
    obtain ⟨store, -, hsession⟩ := bind_eq_ok.mp happend
    cases hsession
    obtain ⟨posting, session₄, hposting, h⟩ := run_bind_eq_ok.mp h
    obtain ⟨hnew, rfl⟩ := run_ofExcept_eq_ok.mp hposting
    have hwraps := EventEnvelope.fromDomainEvent_wraps henvelope
    set row := legRow request now (call.eventIds session.issued) (event, version) with hrow
    have henvelops : envelope.Envelops row := ⟨hwraps.eventId, hwraps.streamVersion⟩
    have hpostingNames : posting.Names row := by
      rw [Posting.new, validateAccountId_bind_eq_ok] at hnew
      obtain ⟨_, hnew⟩ := hnew
      obtain ⟨_, hnew⟩ := require_bind_eq_ok.mp hnew
      cases hnew
      exact ⟨rfl, hwraps.eventId, rfl⟩
    have hnext := ih h (hnames.concat hpostingNames) ?_
    · rw [List.append_assoc] at hnext
      exact hnext
    · intro env henv
      split at henv
      next hself =>
        cases henv
        refine ⟨row, ?_, henvelops⟩
        rw [lastOn_concat]
        exact if_pos hself
      next hother =>
        obtain ⟨r, hr, henv⟩ := hlast env henv
        refine ⟨r, ?_, henv⟩
        rw [lastOn_concat]
        exact (if_neg hother).trans hr

/-! ### The three outcomes -/

def OneOf (p q r : Prop) : Prop := (p ∧ ¬ q ∧ ¬ r) ∨ (¬ p ∧ q ∧ ¬ r) ∨ (¬ p ∧ ¬ q ∧ r)

/-- The command id has a result, and the store stays as it is. -/
structure Reuses (s : Store) (call : Call) (s' : Store) : Prop where
  used : ∃ row ∈ s.results, row.commandId = call.request.commandId
  unchanged : s' = s

/-- A rejection, and nothing but the row of its result. -/
structure Rejects (s : Store) (call : Call) (r : CommandResult) (s' : Store) : Prop where
  outcome : r.outcome ≠ .accepted ∧ r.outcome ≠ .commandIdConflict
  answers : Answers r call.request
  appends : ∃ row, Keeps row r ∧ s' = ⟨s.events, s.results ++ [row]⟩

/-- Rows that go on from the streams of the store, and a result that names them. -/
structure Written (s : Store) (a : String) (r : CommandResult) (rows : List EventRow) : Prop where
  numbered : ∀ row ∈ rows, ∃ state, s.foldStream row.event.accountId = .ok state ∧
    (rows.filter (fun r => r.event.accountId = row.event.accountId)).map EventRow.seq =
      consecutive state.version
        (rows.filter (fun r => r.event.accountId = row.event.accountId)).length
  last : ∃ row, lastOn rows a = some row ∧ r.committedVersion = some row.seq ∧
    r.eventId = some row.eventId
  postings : NamesLast rows r.postings

/-- An acceptance, with the decided legs and the row of its result. -/
structure Appends (s : Store) (call : Call) (r : CommandResult) (s' : Store) : Prop where
  outcome : r.outcome = .accepted
  answers : Answers r call.request
  appends : ∃ state legs row, s.foldStream call.request.command.accountId = .ok state ∧
    state.version = call.request.command.expectedVersion ∧
    decideLegs s.reads call.request state (call.clock 0) = .ok legs ∧ Keeps row r ∧
    Written s call.request.command.accountId r
      (legRows call.request (call.clock 0) call.eventIds 0 legs) ∧
    s' = ⟨s.events ++ legRows call.request (call.clock 0) call.eventIds 0 legs,
      s.results ++ [row]⟩

section Outcomes

variable {s s' : Store} {call : Call} {r : CommandResult}

theorem Rejects.not_appends (h : Rejects s call r s') : ¬ Appends s call r s' :=
  fun h' => h.outcome.1 h'.outcome

theorem not_reuses_of_results {row : ResultRow} {events : List EventRow}
    (h : s' = ⟨events, s.results ++ [row]⟩) : ¬ Reuses s call s' := by
  rintro ⟨-, rfl⟩
  have hresults := congrArg (fun s => s.results.length) h
  simp only [List.length_append, List.length_singleton] at hresults
  omega

theorem Reuses.oneOf (h : Reuses s call s') :
    OneOf (Reuses s call s') (Rejects s call r s') (Appends s call r s') := by
  refine Or.inl ⟨h, fun h' => ?_, fun h' => ?_⟩
  · obtain ⟨row, -, happend⟩ := h'.appends
    exact not_reuses_of_results happend h
  · obtain ⟨_, _, row, _, _, _, _, _, happend⟩ := h'.appends
    exact not_reuses_of_results happend h

theorem Rejects.oneOf (h : Rejects s call r s') :
    OneOf (Reuses s call s') (Rejects s call r s') (Appends s call r s') := by
  obtain ⟨row, -, happend⟩ := h.appends
  exact Or.inr (Or.inl ⟨not_reuses_of_results happend, h, h.not_appends⟩)

theorem Appends.oneOf (h : Appends s call r s') :
    OneOf (Reuses s call s') (Rejects s call r s') (Appends s call r s') := by
  obtain ⟨_, _, row, _, _, _, _, _, happend⟩ := h.appends
  exact Or.inr (Or.inr ⟨not_reuses_of_results happend, fun h' => h'.not_appends h, h⟩)

theorem map_seq_filter {rows : List EventRow} {a : String} {v : Int} {events : List AccountEvent}
    (h : (rows.filter (fun r => r.event.accountId = a)).map (fun r => (r.event, r.seq)) =
      numberFrom v events) :
    (rows.filter (fun r => r.event.accountId = a)).map EventRow.seq =
      consecutive v (rows.filter (fun r => r.event.accountId = a)).length := by
  have hlength := congrArg List.length h
  rw [List.length_map, length_numberFrom] at hlength
  have hmap := congrArg (List.map Prod.snd) h
  rw [List.map_map, map_snd_numberFrom, ← hlength] at hmap
  exact hmap

/-- **A call that returns does exactly one of three things.** -/
theorem oneOf_of_ok (hs : s.Readable) (h : (execute s call).1 = .ok r) :
    OneOf (Reuses s call (next s call)) (Rejects s call r (next s call))
      (Appends s call r (next s call)) := by
  have hreturned := returned_of_ok h
  generalize next s call = s' at hreturned ⊢
  have hused : ∀ {stored : CommandResult},
      s.storedResult call.request.commandId = .ok (some stored) →
      ∃ row ∈ s.results, row.commandId = call.request.commandId := by
    intro stored hstored
    by_contra hnone
    push Not at hnone
    rw [Store.storedResult_eq_none.mpr hnone] at hstored
    cases hstored
  cases hreturned with
  | replayed found => exact Reuses.oneOf ⟨hused found, rfl⟩
  | conflicted found => exact Reuses.oneOf ⟨hused found, rfl⟩
  | @rejected _ row fresh outcome answers keeps =>
    exact Rejects.oneOf ⟨outcome, answers, row, keeps, rfl⟩
  | @accepted _ row state legs postings addressed session fresh folded version decided appended taken
      result keeps =>
    rw [Store.foldStream_eq hs, Except.ok.injEq] at folded
    subst folded
    obtain ⟨events, -, rfl⟩ := (decideLegs_eq_ok hs).mp decided
    obtain ⟨hnames, hlast⟩ := appendLegs_names appended namesLast_nil (fun _ h => nomatch h)
    rw [List.nil_append] at hnames hlast
    obtain ⟨last, hrow, henvelops⟩ := hlast addressed rfl
    have hmem : last ∈ legRows call.request (call.clock 0) call.eventIds 0 (s.number events) :=
      List.mem_of_mem_filter (List.mem_of_getLast? hrow)
    have hne : postings ≠ [] := by
      obtain ⟨p, hp, -⟩ := hnames.every last hmem
      exact List.ne_nil_of_mem hp
    obtain ⟨hid, hhash, houtcome, -⟩ := CommandResult.new_fields result
    obtain ⟨hcommitted, heventId, hpostings⟩ := CommandResult.new_accepted rfl hne result
    refine Appends.oneOf ⟨houtcome, ⟨hid, hhash⟩, _, _, row, Store.foldStream_eq hs _, version.symm,
      decided, keeps, ⟨fun x _ => ?_, ⟨last, hrow, ?_, ?_⟩, hpostings ▸ hnames⟩, rfl⟩
    · exact ⟨_, Store.foldStream_eq hs _, map_seq_filter (filter_account_legRows _ _ _ _ _ _)⟩
    · rw [hcommitted, henvelops.2]
    · rw [heventId, henvelops.1]

/-! ### Runs -/

/-- **Every store of a run is readable**, whatever results were pruned. -/
theorem readable_storeThrough (inputs : List LedgerInput) : (storeThrough inputs).Readable :=
  Runs.run_invariant step (fun _ input hs => hs.step input) inputs Store.readable_empty

/-- **Every call of a run does one of three things, and every stream is numbered
without gaps.** -/
theorem calls_number_streams (inputs : List LedgerInput) :
    (∀ call r, (execute (storeThrough inputs) call).1 = .ok r →
      OneOf (Reuses (storeThrough inputs) call (next (storeThrough inputs) call))
        (Rejects (storeThrough inputs) call r (next (storeThrough inputs) call))
        (Appends (storeThrough inputs) call r (next (storeThrough inputs) call))) ∧
    ∀ a, ((storeThrough inputs).streamOf a).map EventRow.seq =
      consecutive 0 ((storeThrough inputs).streamOf a).length := by
  have hs := readable_storeThrough inputs
  exact ⟨fun _ _ => oneOf_of_ok hs, fun a => Store.map_seq (hs.numbered a)⟩

end Outcomes

end Cloudscale
