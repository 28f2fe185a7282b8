import Mathlib.Data.List.Permutation

/-!
# Which of two entries of a list comes first

`Before l x y` says that an occurrence of `x` comes before one of `y`.  The lemmas
say how it passes through `map`, `filter` and the end of a list.

A fold whose step ignores the entries outside a predicate is the fold over the
entries inside it (`foldl_filter_of_fixed`).  So two orders of one list fold alike
where at most one entry matters (`foldl_perm_of_pairwise`).
-/

namespace Precedence

variable {α β σ : Type} {l l' : List α} {x y z : α}

/-- One entry comes before the other one. -/
def Before (l : List α) (x y : α) : Prop := [x, y].Sublist l

theorem Before.mem_left (h : Before l x y) : x ∈ l := h.subset List.mem_cons_self

theorem Before.mem_right (h : Before l x y) : y ∈ l :=
  h.subset (List.mem_cons_of_mem _ List.mem_cons_self)

theorem before_append_of_mem (hx : x ∈ l) (hy : y ∈ l') : Before (l ++ l') x y :=
  (List.singleton_sublist.mpr hx).append (List.singleton_sublist.mpr hy)

theorem Before.append (h : Before l x y) (l' : List α) : Before (l ++ l') x y :=
  h.trans (List.sublist_append_left l l')

theorem before_concat : Before (l ++ [z]) x y ↔ Before l x y ∨ (x ∈ l ∧ y = z) := by
  constructor
  · intro h
    obtain ⟨l₁, l₂, hsplit, h₁, h₂⟩ := List.sublist_append_iff.mp h
    rcases List.sublist_singleton.mp h₂ with rfl | rfl
    · rw [List.append_nil] at hsplit
      rw [Before, hsplit]
      exact Or.inl h₁
    · obtain ⟨rfl, hlast⟩ := List.append_inj' (show [x] ++ [y] = l₁ ++ [z] from hsplit) rfl
      exact Or.inr ⟨List.singleton_sublist.mp h₁, List.singleton_inj.mp hlast⟩
  · rintro (h | ⟨hx, rfl⟩)
    · exact h.append [z]
    · exact before_append_of_mem hx (List.mem_singleton.mpr rfl)

/-- In a list that is ordered, what is less comes first. -/
theorem before_of_pairwise {R : α → α → Prop} (h : l.Pairwise R) (hx : x ∈ l) (hy : y ∈ l)
    (hxy : ¬ R y x) (hne : x ≠ y) : Before l x y := by
  induction l with
  | nil => cases hx
  | cons a l ih =>
    rw [List.pairwise_cons] at h
    rcases List.mem_cons.mp hx with rfl | hx'
    · have hy' := (List.mem_cons.mp hy).resolve_left hne.symm
      exact (List.singleton_sublist.mpr hy').cons_cons x
    · rcases List.mem_cons.mp hy with rfl | hy'
      · exact absurd (h.1 x hx') hxy
      · exact (ih h.2 hx' hy').cons a

/-- **What is closed downwards is a start**: of two entries of a list, the second one is never
without the first one before it. -/
theorem prefix_of_before : ∀ {l : List α}, l.Nodup → ∀ {part : List α}, part.Nodup → part ⊆ l →
    (∀ x y, Before l x y → y ∈ part → Before part x y) → part <+: l
  | [], _, part, _, hsub, _ => by
    obtain rfl := List.subset_nil.mp hsub
    exact List.prefix_refl _
  | a :: l, hl, [], _, _, _ => List.nil_prefix
  | a :: l, hl, b :: part, hpart, hsub, hbefore => by
    rw [List.nodup_cons] at hl hpart
    obtain rfl : a = b := by
      by_contra hne
      have hb := (List.mem_cons.mp (hsub List.mem_cons_self)).resolve_left (Ne.symm hne)
      have hfirst := hbefore a b ((List.singleton_sublist.mpr hb).cons_cons a) List.mem_cons_self
      cases hfirst with
      | cons _ h => exact hpart.1 (h.subset (List.mem_cons_of_mem _ List.mem_cons_self))
      | cons_cons _ h => exact hne rfl
    refine List.cons_prefix_cons.mpr ⟨rfl, prefix_of_before hl.2 hpart.2 (fun y hy => ?_)
      fun x y hxy hy => ?_⟩
    · rcases List.mem_cons.mp (hsub (List.mem_cons_of_mem _ hy)) with rfl | hy'
      · exact absurd hy hpart.1
      · exact hy'
    · have hx := hxy.mem_left
      have hlater := hbefore x y (hxy.cons a) (List.mem_cons_of_mem _ hy)
      cases hlater with
      | cons _ h => exact h
      | cons_cons _ h => exact absurd hx hl.1

theorem before_map_iff {f : α → β} {b c : β} : Before (l.map f) b c ↔
    ∃ x y, Before l x y ∧ f x = b ∧ f y = c := by
  constructor
  · intro h
    obtain ⟨l₁, h₁, hmap⟩ := List.sublist_map_iff.mp h
    obtain ⟨x, l₂, rfl, hx, htail⟩ := List.map_eq_cons_iff.mp hmap.symm
    obtain ⟨y, l₃, rfl, hy, hnil⟩ := List.map_eq_cons_iff.mp htail
    rw [List.map_eq_nil_iff.mp hnil] at h₁
    exact ⟨x, y, h₁, hx, hy⟩
  · rintro ⟨x, y, h, rfl, rfl⟩
    exact h.map f

theorem before_filter_iff {p : α → Bool} : Before (l.filter p) x y ↔
    Before l x y ∧ p x ∧ p y := by
  constructor
  · intro h
    exact ⟨h.trans List.filter_sublist, List.of_mem_filter h.mem_left,
      List.of_mem_filter h.mem_right⟩
  · rintro ⟨h, hx, hy⟩
    have hfilter := h.filter p
    rwa [List.filter_cons_of_pos hx, List.filter_cons_of_pos hy, List.filter_nil] at hfilter

theorem foldl_filter_of_fixed {f : σ → α → σ} {p : α → Bool} (h : ∀ s x, ¬ p x → f s x = s)
    (l : List α) (s : σ) : (l.filter p).foldl f s = l.foldl f s := by
  induction l generalizing s with
  | nil => rfl
  | cons x l ih =>
    by_cases hx : p x
    · rw [List.filter_cons_of_pos hx, List.foldl_cons, ih, List.foldl_cons]
    · rw [List.filter_cons_of_neg hx, ih, List.foldl_cons, h s x hx]

theorem filter_of_pairwise {p : α → Bool} (h : l.Pairwise (fun x y => ¬ (p x ∧ p y))) :
    l.filter p = [] ∨ ∃ x, l.filter p = [x] := by
  have hfilter := h.filter p
  rcases hl : l.filter p with _ | ⟨x, _ | ⟨y, rest⟩⟩
  · exact Or.inl rfl
  · exact Or.inr ⟨x, rfl⟩
  · rw [hl, List.pairwise_cons] at hfilter
    have hmem : ∀ w ∈ x :: y :: rest, p w := fun w hw => List.of_mem_filter (hl ▸ hw)
    exact absurd ⟨hmem x List.mem_cons_self, hmem y (List.mem_cons_of_mem _ List.mem_cons_self)⟩
      (hfilter.1 y List.mem_cons_self)

/-- **Where at most one entry matters, the order does not.** -/
theorem foldl_perm_of_pairwise {f : σ → α → σ} {p : α → Bool} (hfixed : ∀ s x, ¬ p x → f s x = s)
    (hperm : l'.Perm l) (h : l.Pairwise (fun x y => ¬ (p x ∧ p y))) (s : σ) :
    l'.foldl f s = l.foldl f s := by
  rw [← foldl_filter_of_fixed hfixed l', ← foldl_filter_of_fixed hfixed l]
  have hfilter := hperm.filter p
  rcases filter_of_pairwise h with hl | ⟨x, hl⟩
  · rw [hl] at hfilter ⊢
    rw [hfilter.eq_nil]
  · rw [hl] at hfilter ⊢
    rw [List.perm_singleton.mp hfilter]

end Precedence
