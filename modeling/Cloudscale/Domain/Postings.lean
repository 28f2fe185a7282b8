import Cloudscale.Domain.Decisions
import Mathlib.Data.List.Permutation

/-!
# Posting sets

`decidePostings` succeeds just when every account has what its leg needs
(`Affords`), and `posts_of_ok` says what the events are: one for each leg, in leg
order, and each names another account of the set.

A transfer is the posting set of its two legs.  The order in which a `Post` lists
them changes nothing but the order of the events (`postingEvent_pair`,
`decideTransfer_eq_ok`).
-/

namespace Cloudscale

open Checked Python

namespace Account

/-! ### What a leg needs -/

/-- The account has the funds or the headroom for its leg, and a version left. -/
structure Affords (s : AccountState) (leg : Leg) : Prop where
  funds : leg.direction = .debit → leg.amount ≤ s.available
  headroom : leg.direction = .credit → s.balance + leg.amount ≤ maxSignedBigint
  version : s.version + 1 ≤ maxSignedBigint

/-- The states of the accounts of the legs, each of its own account. -/
def Family (states : States) (legs : List Leg) : Prop :=
  ∀ leg ∈ legs, ∃ s, states.lookup leg.accountId = some s ∧ s.Matches leg.accountId

theorem canPost_iff {s : AccountState} {leg : Leg} (hs : s.Matches leg.accountId) :
    CanPost s leg ↔ Affords s leg := by
  have hle := s.valid.version_le
  constructor
  · intro h
    have hne := h.version
    refine ⟨h.funds, fun hcredit => ?_, by omega⟩
    have hfits := h.fits hcredit
    omega
  · intro h
    have hversion := h.version
    refine ⟨hs, by omega, h.funds, fun hcredit => ?_⟩
    have hheadroom := h.headroom hcredit
    omega

/-! ### The events -/

/-- The event of a leg: its direction, its fields, and another account of the set. -/
structure Posts (transferId : UUID) (legs : List Leg) (leg : Leg) (e : TransferLeg) : Prop where
  accountId : e.accountId = leg.accountId
  amount : e.amount = leg.amount
  transferId : e.transferId = transferId
  counterparty : ∃ other ∈ legs, e.counterparty = other.accountId
  counterparty_ne : e.counterparty ≠ leg.accountId

def movement : Direction → TransferLeg → AccountEvent
  | .debit, e => .transferDebited e
  | .credit, e => .transferCredited e

theorem postingEvent_eq_ok {anchor : String} {legs : List Leg} {transferId : UUID} {leg : Leg}
    {e : AccountEvent} : postingEvent anchor legs transferId leg = .ok e ↔
      ∃ counterparty t, counterpartyFor anchor legs leg = .ok counterparty ∧
        TransferLeg.new leg.accountId leg.amount transferId counterparty = .ok t ∧
        e = movement leg.direction t := by
  rw [postingEvent, bind_eq_ok]
  refine exists_congr fun counterparty => ?_
  rw [bind_eq_ok, ← exists_and_left]
  refine exists_congr fun t => and_congr_right fun _ => and_congr_right fun _ => ?_
  cases leg.direction with
  | debit => exact ⟨fun h => (Except.ok.inj h).symm, fun h => congrArg Except.ok h.symm⟩
  | credit => exact ⟨fun h => (Except.ok.inj h).symm, fun h => congrArg Except.ok h.symm⟩

/-- **The events of a valid set**, in leg order. -/
theorem posts_of_ok {states : States} {anchor : String} {legs : List Leg} {transferId : UUID}
    {events : List AccountEvent} (hlegs : ValidLegs anchor legs)
    (h : decidePostings states anchor legs transferId = .ok events) :
    List.Forall₂ (fun leg e => ∃ t, e = movement leg.direction t ∧ Posts transferId legs leg t)
      legs events := by
  obtain ⟨-, hposted⟩ := decidePostings_eq_ok.mp h
  refine ((List.forall₂_and_left _ _).mpr ⟨fun leg hleg => hleg, hposted⟩).imp ?_
  rintro leg e ⟨hleg, he⟩
  obtain ⟨counterparty, t, hcounterparty, hnew, rfl⟩ := postingEvent_eq_ok.mp he
  obtain ⟨other, hmem, hok, hne⟩ := counterpartyFor_of_valid hlegs hleg
  rw [hok, Except.ok.injEq] at hcounterparty
  subst hcounterparty
  obtain ⟨haccount, hamount, hid, hother⟩ := TransferLeg.new_eq_ok.mp hnew
  obtain ⟨otherLeg, hotherLeg, rfl⟩ := List.mem_map.mp hmem
  exact ⟨t, rfl, haccount, hamount, hid, ⟨otherLeg, hotherLeg, hother⟩, by rwa [hother]⟩

/-! ### Transfers -/

/-- Of two legs, each names the other, in whichever order they are listed. -/
theorem postingEvent_pair (anchor : String) {d c : Leg} (hne : d.accountId ≠ c.accountId)
    (transferId : UUID) :
    postingEvent anchor [c, d] transferId d = postingEvent anchor [d, c] transferId d ∧
      postingEvent anchor [c, d] transferId c = postingEvent anchor [d, c] transferId c := by
  have hne' : c.accountId ≠ d.accountId := hne.symm
  simp [postingEvent, counterpartyFor, hne, hne']

theorem decidePostings_pair (states : States) (anchor : String) {d c : Leg}
    (hne : d.accountId ≠ c.accountId) (transferId : UUID) (events : List AccountEvent) :
    decidePostings states anchor [c, d] transferId = .ok events.reverse ↔
      decidePostings states anchor [d, c] transferId = .ok events := by
  obtain ⟨hd, hc⟩ := postingEvent_pair anchor hne transferId
  rw [decidePostings_eq_ok, decidePostings_eq_ok]
  refine and_congr ⟨fun h leg hleg => h leg (by simpa [or_comm] using hleg),
    fun h leg hleg => h leg (by simpa [or_comm] using hleg)⟩ ?_
  rw [← List.forall₂_reverse_iff, List.reverse_reverse]
  simp only [List.reverse_cons, List.reverse_nil, List.nil_append, List.cons_append,
    List.forall₂_cons_left_iff, List.forall₂_nil_left_iff, hd, hc]

/-- **A transfer is the posting set of its two legs.** -/
theorem decideTransfer_eq_ok {source target : AccountState} {c : Transfer} {transferId : UUID}
    {debit credit : AccountEvent} :
    decideTransfer source target c transferId = .ok (debit, credit) ↔
      decidePostings [(c.accountId, source), (c.targetAccountId, target)] c.accountId c.legs
        transferId = .ok [debit, credit] := by
  have hpair : ∀ {events}, decidePostings [(c.accountId, source), (c.targetAccountId, target)]
      c.accountId c.legs transferId = .ok events → ∃ d e : TransferLeg,
        d.accountId = c.accountId ∧ e.accountId = c.targetAccountId ∧
          events = [.transferDebited d, .transferCredited e] := by
    intro events h
    have hposts := posts_of_ok c.validLegs h
    rw [Transfer.legs, List.forall₂_cons_left_iff] at hposts
    obtain ⟨_, _, ⟨d, rfl, hd⟩, hposts, rfl⟩ := hposts
    rw [List.forall₂_cons_left_iff] at hposts
    obtain ⟨_, _, ⟨e, rfl, he⟩, hposts, rfl⟩ := hposts
    obtain rfl := List.forall₂_nil_left_iff.mp hposts
    exact ⟨d, e, hd.accountId, he.accountId, rfl⟩
  have hrest : ∀ d e : TransferLeg, d.accountId = c.accountId → e.accountId = c.targetAccountId →
      ∀ events, events = [AccountEvent.transferDebited d, .transferCredited e] →
        decidePostings [(c.accountId, source), (c.targetAccountId, target)] c.accountId c.legs
          transferId = .ok events → decideTransfer source target c transferId =
            .ok (.transferDebited d, .transferCredited e) := by
    rintro d e hd he _ rfl h
    have hne : (c.accountId == c.targetAccountId) = false := by simpa using c.accounts_ne
    rw [decideTransfer, h, ok_bind]
    simp [getItem, AccountEvent.accountId, hd, he, List.lookup_cons, hne, ok_bind]
  constructor
  · intro h
    obtain ⟨events, hevents, -⟩ := bind_eq_ok.mp h
    obtain ⟨d, e, hd, he, hpairs⟩ := hpair hevents
    rw [hrest d e hd he events hpairs hevents, Except.ok.injEq, Prod.mk.injEq] at h
    rw [hevents, hpairs, h.1, h.2]
  · intro h
    obtain ⟨d, e, hd, he, hpairs⟩ := hpair h
    rw [hrest d e hd he _ hpairs h]
    simp only [List.cons.injEq, and_true] at hpairs
    rw [hpairs.1, hpairs.2]

/-- **A transfer and the `Post` of its two legs** succeed on the same states, with the
same events in the order of the legs. -/
theorem decideTransfer_of_perm {c : Transfer} {anchor : String} {legs : List Leg}
    (hanchor : anchor = c.accountId) (hlegs : legs.Perm c.legs) {source target : AccountState}
    {transferId : UUID} {events : List AccountEvent} :
    decidePostings [(c.accountId, source), (c.targetAccountId, target)] anchor legs transferId =
        .ok events ↔
      ∃ debit credit, decideTransfer source target c transferId = .ok (debit, credit) ∧
        events = if legs = c.legs then [debit, credit] else [credit, debit] := by
  have hpair : ∀ {events}, decidePostings [(c.accountId, source), (c.targetAccountId, target)]
      c.accountId c.legs transferId = .ok events → ∃ debit credit, events = [debit, credit] := by
    intro events h
    have hlength := (posts_of_ok c.validLegs h).length_eq
    obtain ⟨debit, credit, hevents⟩ := List.length_eq_two.mp hlength.symm
    exact ⟨debit, credit, hevents⟩
  subst hanchor
  rcases List.perm_pair.mp hlegs with hsame | hswapped
  · rw [show legs = c.legs from hsame]
    simp only [if_true, decideTransfer_eq_ok]
    constructor
    · intro h
      obtain ⟨debit, credit, rfl⟩ := hpair h
      exact ⟨debit, credit, h, rfl⟩
    · rintro ⟨debit, credit, h, rfl⟩
      exact h
  · have hne : legs ≠ c.legs := by
      rw [hswapped, Transfer.legs, ne_eq, List.cons.injEq, Leg.mk.injEq]
      exact fun h => c.accounts_ne h.1.1.symm
    have hswap := decidePostings_pair [(c.accountId, source), (c.targetAccountId, target)]
      c.accountId (d := ⟨c.accountId, c.amount, .debit, c.account_ok, c.amount_ok⟩)
      (c := ⟨c.targetAccountId, c.amount, .credit, c.target_ok, c.amount_ok⟩) c.accounts_ne
      transferId
    simp only [if_neg hne, decideTransfer_eq_ok]
    rw [hswapped]
    constructor
    · intro h
      rw [← events.reverse_reverse] at h
      have hsame := (hswap _).mp h
      obtain ⟨debit, credit, hevents⟩ := hpair hsame
      rw [List.reverse_eq_iff] at hevents
      rw [hevents] at hsame
      exact ⟨debit, credit, hsame, hevents⟩
    · rintro ⟨debit, credit, h, rfl⟩
      exact (hswap _).mpr h

/-- **Posting decisions are exact.** -/
theorem postings_exact (command : Post) (states : States) (transferId : UUID)
    (hstates : Family states command.legs) :
    ((∃ events, decidePostings states command.accountId command.legs transferId = .ok events) ↔
      ∀ leg ∈ command.legs, ∀ s, states.lookup leg.accountId = some s → Affords s leg) ∧
    (∀ events, decidePostings states command.accountId command.legs transferId = .ok events →
      List.Forall₂ (fun leg e => ∃ t, e = movement leg.direction t ∧
        Posts transferId command.legs leg t) command.legs events) ∧
    ∀ (transfer : Transfer) (source target : AccountState) (events : List AccountEvent),
      command.accountId = transfer.accountId → command.legs.Perm transfer.legs →
        (decidePostings [(transfer.accountId, source), (transfer.targetAccountId, target)]
          command.accountId command.legs transferId = .ok events ↔
        ∃ debit credit, decideTransfer source target transfer transferId = .ok (debit, credit) ∧
          events = if command.legs = transfer.legs then [debit, credit] else [credit, debit]) := by
  refine ⟨⟨fun ⟨events, h⟩ leg hleg s hs => ?_, fun h => ?_⟩,
    fun events h => posts_of_ok command.validLegs h,
    fun transfer source target events hanchor hlegs => decideTransfer_of_perm hanchor hlegs⟩
  · obtain ⟨hcan, -⟩ := decidePostings_eq_ok.mp h
    obtain ⟨s', hs', hpost⟩ := hcan leg hleg
    rw [hs, Option.some.injEq] at hs'
    subst hs'
    exact (canPost_iff hpost.identity).mp hpost
  · refine decidePostings_of_valid command.validLegs (fun leg hleg => ?_) transferId
    obtain ⟨s, hs, hmatches⟩ := hstates leg hleg
    exact ⟨s, hs, (canPost_iff hmatches).mpr (h leg hleg s hs)⟩

/-- The payer has what it pays, and one of the payees is new. -/
def payers : States :=
  [("a", ⟨some "a", 7, 1, 2, by simp, by decide, by decide, by decide, by decide, by decide,
    by decide, by simp⟩), ("b", .unknown), ("c", .unknown)]

theorem postings_exact_three :
    ∃ events, decidePostings payers "a" [⟨"b", 3, .credit, by decide, by decide⟩,
      ⟨"a", 5, .debit, by decide, by decide⟩, ⟨"c", 2, .credit, by decide, by decide⟩] ⟨0⟩ =
        .ok events := by
  refine (postings_exact ⟨"a", [⟨"b", 3, .credit, by decide, by decide⟩,
    ⟨"a", 5, .debit, by decide, by decide⟩, ⟨"c", 2, .credit, by decide, by decide⟩], 1,
    by decide, by decide, by decide, by decide, by decide, by decide, by decide⟩ payers ⟨0⟩ ?_).1.mpr
    ?_
  · simp only [Family, Post.legs, List.forall_mem_cons]
    exact ⟨⟨_, rfl, by decide⟩, ⟨_, rfl, by decide⟩, ⟨_, rfl, by decide⟩, by simp⟩
  · simp only [Post.legs, List.forall_mem_cons]
    refine ⟨?_, ?_, ?_, by simp⟩
    all_goals
      rintro s ⟨⟩
      exact ⟨by decide, by decide, by decide⟩

end Account

end Cloudscale
