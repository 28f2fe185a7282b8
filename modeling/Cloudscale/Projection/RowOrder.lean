import Cloudscale.Lib.Precedence
import Cloudscale.Projection.Rows

/-!
# The order of the events on one row

What two orders of the same events make of a row.

- The row of a hold: a settlement that arrives before its placement is lost
  (`onHold_placed_last`).
- The row of a set (`SetRow`): its kind does not depend on the order, and it is
  marked as reverted exactly when a leg of its reversal arrives after one of its
  own legs (`setRow_foldl`).
- The row of a leg does not depend on the order.
-/

namespace Cloudscale

open Precedence

/-! ### Events that a row listens to -/

namespace AccountEvent

/-- The hold whose row the event changes. -/
def heldRow (e : AccountEvent) : Option String :=
  match e.holdStatement with
  | some (.place holdId _ _ _ _) => some holdId
  | some (.settle holdId _) => some holdId
  | none => none

/-- The leg that the event adds to a set. -/
def legRowKey (e : AccountEvent) : Option (String × String) :=
  e.transferEffect.map fun effect => (effect.transferId, effect.accountId)

/-- The event adds a leg to a set. -/
def LegOf (t : String) (e : AccountEvent) : Prop :=
  ∃ effect, e.transferEffect = some effect ∧ effect.transferId = t

/-- The event marks a set as reverted. -/
def Marks (t : String) (e : AccountEvent) : Prop :=
  ∃ effect, e.transferEffect = some effect ∧ effect.marksReverted = some t

/-- The kind that the event gives to a set. -/
def kindOn (t : String) (e : AccountEvent) : Option TransferKind :=
  (e.transferEffect.filter fun effect => effect.transferId = t).map TransferRowEffect.kind

end AccountEvent

theorem onHold_of_ne {holdId : String} {row : Option HoldRow} {e : AccountEvent}
    (h : e.heldRow ≠ some holdId) : AccountEvent.onHold holdId row e = row := by
  rw [AccountEvent.onHold]
  rw [AccountEvent.heldRow] at h
  cases hstatement : e.holdStatement with
  | none => rfl
  | some statement =>
    rw [hstatement] at h
    cases statement with
    | place id => exact if_neg fun heq => h (congrArg some heq.symm)
    | settle id => exact if_neg fun heq => h (congrArg some heq.symm)

theorem onLeg_of_ne {key : String × String} {row : Option TransferLegRow} {e : AccountEvent}
    (h : e.legRowKey ≠ some key) : AccountEvent.onLeg key row e = row := by
  rw [AccountEvent.onLeg]
  rw [AccountEvent.legRowKey] at h
  cases heffect : e.transferEffect with
  | none => rfl
  | some effect =>
    rw [heffect] at h
    exact if_neg fun heq => h (congrArg some heq.symm)

/-! ### Holds -/

section Holds

variable {holdId : String} {p x : AccountEvent} {source target expiresAt state : String}
  {amount : Int}

theorem onHold_place (h : p.holdStatement = some (.place holdId source target amount expiresAt))
    (row : Option HoldRow) : AccountEvent.onHold holdId row p =
      some (row.getD ⟨source, target, amount, expiresAt, "open"⟩) := by
  rw [AccountEvent.onHold, h]
  exact if_pos rfl

theorem onHold_settle (h : x.holdStatement = some (.settle holdId state)) (row : Option HoldRow) :
    AccountEvent.onHold holdId row x = row.map fun row => { row with state := state } := by
  rw [AccountEvent.onHold, h]
  exact if_pos rfl

theorem onHold_placed_first (hp : p.holdStatement = some (.place holdId source target amount expiresAt))
    (hx : x.holdStatement = some (.settle holdId state)) :
    [p, x].foldl (AccountEvent.onHold holdId) none =
      some ⟨source, target, amount, expiresAt, state⟩ := by
  rw [List.foldl_cons, List.foldl_cons, List.foldl_nil, onHold_place hp, onHold_settle hx]
  rfl

/-- **A settlement before its placement is lost.** -/
theorem onHold_placed_last (hp : p.holdStatement = some (.place holdId source target amount expiresAt))
    (hx : x.holdStatement = some (.settle holdId state)) :
    [x, p].foldl (AccountEvent.onHold holdId) none =
      some ⟨source, target, amount, expiresAt, "open"⟩ := by
  rw [List.foldl_cons, List.foldl_cons, List.foldl_nil, onHold_settle hx, onHold_place hp]
  rfl

end Holds

/-! ### Sets -/

/-- The kind of a row after one more leg. -/
def kindStep (kind : Option TransferKind) (incoming : TransferKind) : Option TransferKind :=
  some (match kind with
    | none => incoming
    | some kind => conflictKind kind incoming)

/-- **The kinds of the legs commute**, since no leg is a `posting`. -/
theorem kindStep_comm {k k' : TransferKind} (hk : k ≠ .posting) (hk' : k' ≠ .posting)
    (kind : Option TransferKind) : kindStep (kindStep kind k) k' = kindStep (kindStep kind k') k := by
  rcases kind with _ | kind
  · cases k <;> cases k' <;> first | rfl | contradiction
  · cases kind <;> cases k <;> cases k' <;> rfl

theorem kind_ne_posting {e : AccountEvent} {effect : TransferRowEffect}
    (h : e.transferEffect = some effect) : effect.kind ≠ .posting := by
  have hkind := congrArg (Option.map TransferRowEffect.kind) h
  intro hposting
  rw [Option.map_some, hposting] at hkind
  cases e <;> simp [AccountEvent.transferEffect] at hkind

/-- A leg of the set's reversal comes after a leg of the set. -/
def MarkedAfter (t : String) (es : List AccountEvent) : Prop :=
  ∃ x z, Before es x z ∧ x.LegOf t ∧ z.Marks t

theorem markedAfter_concat {t : String} {es : List AccountEvent} {e : AccountEvent} :
    MarkedAfter t (es ++ [e]) ↔ MarkedAfter t es ∨ (e.Marks t ∧ ∃ x ∈ es, x.LegOf t) := by
  constructor
  · rintro ⟨x, z, hbefore, hx, hz⟩
    rcases before_concat.mp hbefore with hbefore | ⟨hmem, rfl⟩
    · exact Or.inl ⟨x, z, hbefore, hx, hz⟩
    · exact Or.inr ⟨hz, x, hmem, hx⟩
  · rintro (⟨x, z, hbefore, hx, hz⟩ | ⟨hz, x, hmem, hx⟩)
    · exact ⟨x, z, before_concat.mpr (Or.inl hbefore), hx, hz⟩
    · exact ⟨x, e, before_concat.mpr (Or.inr ⟨hmem, rfl⟩), hx, hz⟩

/-- The legs of a set revert one set, one set reverts it, and that is another one. -/
structure OneReversal (t : String) (reverts : Option String) (reverter : String)
    (es : List AccountEvent) : Prop where
  legs : ∀ e ∈ es, ∀ effect, e.transferEffect = some effect → effect.transferId = t →
    effect.reverts = reverts
  marks : ∀ e ∈ es, ∀ effect, e.transferEffect = some effect → effect.marksReverted = some t →
    effect.transferId = reverter
  apart : ∀ e ∈ es, ∀ effect, e.transferEffect = some effect → effect.marksReverted = some t →
    effect.transferId ≠ t

structure SetRow (t : String) (reverts : Option String) (reverter : String)
    (es : List AccountEvent) (row : Option TransferRow) : Prop where
  exists_iff : row.isSome ↔ ∃ e ∈ es, e.LegOf t
  kind : row.map TransferRow.kind = (es.filterMap (AccountEvent.kindOn t)).foldl kindStep none
  reverts : ∀ r ∈ row, r.reverts = reverts
  reverted : ∀ r ∈ row, (r.revertedBy = some reverter ∧ MarkedAfter t es) ∨
    (r.revertedBy = none ∧ ¬ MarkedAfter t es)

section Sets

variable {t : String} {reverts : Option String} {reverter : String} {es : List AccountEvent}
  {e : AccountEvent} {row : Option TransferRow}

theorem exists_legOf_concat : (∃ x ∈ es ++ [e], x.LegOf t) ↔
    (∃ x ∈ es, x.LegOf t) ∨ e.LegOf t := by
  simp only [List.mem_append, List.mem_singleton, or_and_right, exists_or, exists_eq_left]

theorem SetRow.other (h : SetRow t reverts reverter es row) (hleg : ¬ e.LegOf t)
    (hmark : ¬ e.Marks t) : SetRow t reverts reverter (es ++ [e]) row := by
  have hkind : e.kindOn t = none := by
    rw [AccountEvent.kindOn, Option.map_eq_none_iff, Option.filter_eq_none_iff]
    exact fun effect heffect ht => hleg ⟨effect, heffect, by simpa using ht⟩
  have hmarked : MarkedAfter t (es ++ [e]) ↔ MarkedAfter t es := by
    rw [markedAfter_concat]
    exact or_iff_left fun hz => hmark hz.1
  refine ⟨?_, ?_, h.reverts, fun r hr => ?_⟩
  · rw [h.exists_iff, exists_legOf_concat, or_iff_left hleg]
  · rw [h.kind, List.filterMap_append, List.filterMap_cons_none hkind, List.filterMap_nil,
      List.append_nil]
  · rw [hmarked]
    exact h.reverted r hr

theorem SetRow.leg (h : SetRow t reverts reverter es row) {effect : TransferRowEffect}
    (heffect : e.transferEffect = some effect) (ht : effect.transferId = t)
    (hreverts : effect.reverts = reverts) (hmark : ¬ e.Marks t) :
    SetRow t reverts reverter (es ++ [e]) (effect.upsertRow t row) := by
  have hkind : e.kindOn t = some effect.kind := by
    rw [AccountEvent.kindOn, heffect, Option.filter_some_pos (by simpa using ht)]
    rfl
  have hmarked : MarkedAfter t (es ++ [e]) ↔ MarkedAfter t es := by
    rw [markedAfter_concat]
    exact or_iff_left fun hz => hmark hz.1
  have hkinds : (effect.upsertRow t row).map TransferRow.kind =
      ((es ++ [e]).filterMap (AccountEvent.kindOn t)).foldl kindStep none := by
    rw [List.filterMap_append, List.filterMap_cons_some hkind, List.filterMap_nil,
      List.foldl_concat, ← h.kind]
    unfold TransferRowEffect.upsertRow
    rw [if_pos ht.symm]
    cases row <;> rfl
  have hexists : ∃ x ∈ es ++ [e], x.LegOf t :=
    exists_legOf_concat.mpr (Or.inr ⟨effect, heffect, ht⟩)
  unfold TransferRowEffect.upsertRow at hkinds ⊢
  rw [if_pos ht.symm] at hkinds ⊢
  refine ⟨iff_of_true rfl hexists, hkinds, fun r hr => ?_, fun r hr => ?_⟩
  · cases row with
    | none =>
      cases hr
      exact hreverts
    | some row =>
      cases hr
      exact h.reverts row rfl
  · rw [hmarked]
    cases row with
    | none =>
      cases hr
      refine Or.inr ⟨rfl, fun ⟨x, z, hbefore, hx, _⟩ => ?_⟩
      exact absurd (h.exists_iff.mpr ⟨x, hbefore.mem_left, hx⟩) (by simp)
    | some row =>
      cases hr
      exact h.reverted row rfl

theorem SetRow.mark (h : SetRow t reverts reverter es row) {effect : TransferRowEffect}
    (heffect : e.transferEffect = some effect) (hmark : effect.marksReverted = some t)
    (hreverter : effect.transferId = reverter) (hapart : effect.transferId ≠ t) :
    SetRow t reverts reverter (es ++ [e]) (effect.markRow t row) := by
  have hleg : ¬ e.LegOf t := by
    rintro ⟨effect', heffect', ht⟩
    rw [heffect] at heffect'
    cases heffect'
    exact hapart ht
  have hkind : e.kindOn t = none := by
    rw [AccountEvent.kindOn, heffect, Option.filter_some_neg (by simpa using hapart)]
    rfl
  rw [TransferRowEffect.markRow, if_pos hmark]
  refine ⟨?_, ?_, fun r hr => ?_, fun r hr => ?_⟩
  · rw [Option.isSome_map, h.exists_iff, exists_legOf_concat, or_iff_left hleg]
  · rw [List.filterMap_append, List.filterMap_cons_none hkind, List.filterMap_nil, List.append_nil,
      ← h.kind, Option.map_map]
    rfl
  · cases row with
    | none => cases hr
    | some row =>
      cases hr
      exact h.reverts row rfl
  · cases row with
    | none => cases hr
    | some row =>
      cases hr
      refine Or.inl ⟨?_, markedAfter_concat.mpr (Or.inr ⟨⟨effect, heffect, hmark⟩,
        h.exists_iff.mp rfl⟩)⟩
      rcases h.reverted row rfl with ⟨hreverted, -⟩ | ⟨hreverted, -⟩
      · show row.revertedBy.or _ = _
        rw [hreverted]
        rfl
      · show row.revertedBy.or _ = _
        rw [hreverted, hreverter]
        rfl

/-- **The row of a set after a list of events.** -/
theorem setRow_foldl : ∀ {es : List AccountEvent}, OneReversal t reverts reverter es →
    SetRow t reverts reverter es (es.foldl (AccountEvent.onTransfer t) none) := by
  intro es
  induction es using List.reverseRecOn with
  | nil =>
    intro _
    refine ⟨⟨(fun h => nomatch h), fun ⟨_, h, _⟩ => nomatch h⟩, rfl, (fun _ h => nomatch h),
      (fun _ h => nomatch h)⟩
  | append_singleton es e ih =>
    intro hone
    have hbefore := ih ⟨fun x hx => hone.legs x (List.mem_append_left _ hx),
      fun x hx => hone.marks x (List.mem_append_left _ hx),
      fun x hx => hone.apart x (List.mem_append_left _ hx)⟩
    have hmem : e ∈ es ++ [e] := List.mem_append_right _ (List.mem_singleton.mpr rfl)
    rw [List.foldl_concat, AccountEvent.onTransfer]
    cases heffect : e.transferEffect with
    | none =>
      refine hbefore.other ?_ ?_ <;> rintro ⟨effect, h, -⟩ <;> rw [heffect] at h <;> cases h
    | some effect =>
      have hupsert : effect.transferId ≠ t →
          effect.upsertRow t (es.foldl (AccountEvent.onTransfer t) none) =
            es.foldl (AccountEvent.onTransfer t) none := fun ht => by
        unfold TransferRowEffect.upsertRow
        exact if_neg (Ne.symm ht)
      show SetRow t reverts reverter (es ++ [e]) (effect.markRow t (effect.upsertRow t _))
      by_cases hmark : effect.marksReverted = some t
      · have hapart := hone.apart e hmem effect heffect hmark
        rw [hupsert hapart]
        exact hbefore.mark heffect hmark (hone.marks e hmem effect heffect hmark) hapart
      · have hmarks : ¬ e.Marks t := by
          rintro ⟨effect', heffect', hmark'⟩
          rw [heffect] at heffect'
          cases heffect'
          exact hmark hmark'
        rw [TransferRowEffect.markRow, if_neg hmark]
        by_cases ht : effect.transferId = t
        · exact hbefore.leg heffect ht (hone.legs e hmem effect heffect ht) hmarks
        · rw [hupsert ht]
          refine hbefore.other ?_ hmarks
          rintro ⟨effect', heffect', ht'⟩
          rw [heffect] at heffect'
          cases heffect'
          exact ht ht'

/-- **Two orders of the legs and marks of a set agree on its row exactly when they
agree on whether a mark came after a leg**, if there is a leg. -/
theorem onTransfer_perm_iff {fs : List AccountEvent} (hperm : fs.Perm es)
    (hone : OneReversal t reverts reverter es) :
    fs.foldl (AccountEvent.onTransfer t) none = es.foldl (AccountEvent.onTransfer t) none ↔
      ((∃ e ∈ es, e.LegOf t) → (MarkedAfter t fs ↔ MarkedAfter t es)) := by
  have hone' : OneReversal t reverts reverter fs :=
    ⟨fun x hx => hone.legs x (hperm.mem_iff.mp hx), fun x hx => hone.marks x (hperm.mem_iff.mp hx),
      fun x hx => hone.apart x (hperm.mem_iff.mp hx)⟩
  have hes := setRow_foldl hone
  have hfs := setRow_foldl hone'
  have hsome : (fs.foldl (AccountEvent.onTransfer t) none).isSome ↔
      (es.foldl (AccountEvent.onTransfer t) none).isSome := by
    rw [hes.exists_iff, hfs.exists_iff]
    exact exists_congr fun e => and_congr_left fun _ => hperm.mem_iff
  have hkind : (fs.foldl (AccountEvent.onTransfer t) none).map TransferRow.kind =
      (es.foldl (AccountEvent.onTransfer t) none).map TransferRow.kind := by
    rw [hes.kind, hfs.kind]
    refine (hperm.filterMap _).foldl_eq' (fun k hk k' hk' kind => ?_) none
    have hne : ∀ k ∈ fs.filterMap (AccountEvent.kindOn t), k ≠ .posting := by
      intro k hk
      obtain ⟨e, -, he⟩ := List.mem_filterMap.mp hk
      obtain ⟨effect, heffect, rfl⟩ := Option.map_eq_some_iff.mp he
      exact kind_ne_posting (Option.filter_eq_some_iff.mp heffect).1
    exact kindStep_comm (hne k hk) (hne k' hk') kind
  generalize fs.foldl (AccountEvent.onTransfer t) none = x at *
  generalize es.foldl (AccountEvent.onTransfer t) none = y at *
  cases y with
  | none =>
    have hx : x = none := by
      rw [← Option.not_isSome_iff_eq_none, hsome]
      simp
    refine iff_of_true hx fun hleg => ?_
    have := hes.exists_iff.mpr hleg
    cases this
  | some y =>
    obtain ⟨x, rfl⟩ := Option.isSome_iff_exists.mp (hsome.mpr rfl)
    have hleg := hes.exists_iff.mp rfl
    have hreverts : x.reverts = y.reverts := (hfs.reverts x rfl).trans (hes.reverts y rfl).symm
    have hkinds : x.kind = y.kind := Option.some.inj hkind
    have hrow : some x = some y ↔ x.revertedBy = y.revertedBy := by
      rw [Option.some.injEq]
      refine ⟨congrArg _, fun hreverted => ?_⟩
      cases x
      cases y
      cases hreverts
      cases hkinds
      cases hreverted
      rfl
    rw [hrow]
    rcases hfs.reverted x rfl with ⟨hx, hxmarked⟩ | ⟨hx, hxmarked⟩ <;>
      rcases hes.reverted y rfl with ⟨hy, hymarked⟩ | ⟨hy, hymarked⟩ <;>
      rw [hx, hy] <;> simp [hleg, hxmarked, hymarked]

end Sets

end Cloudscale
