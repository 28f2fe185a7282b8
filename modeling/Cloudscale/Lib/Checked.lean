import Mathlib.Logic.Basic
import Mathlib.Data.List.Forall2

/-!
# Checked computations

A computation that can fail is an `Except`.  `require p e` is the guard that
raises `e` unless `p` holds and hands the proof of `p` to what follows, so that
a constructor that validates its arguments can build a value that carries them.

The lemmas say what a success was made of: `bind_eq_ok` peels one step off,
`require_bind_eq_ok` turns a guard into its condition, and `mapM_eq_ok` reads a
loop over a list as a relation between the list and the results.
-/

namespace Checked

variable {ε α β : Type}

/-- Raise `e` unless `p` holds. -/
def require (p : Prop) [Decidable p] (e : ε) : Except ε (PLift p) :=
  if h : p then .ok ⟨h⟩ else .error e

/-- Whether a computation succeeds with a value that has a property can be decided. -/
instance decidableOkAnd (x : Except ε α) (P : α → Prop) [DecidablePred P] :
    Decidable (∃ a, x = .ok a ∧ P a) :=
  match x with
  | .error _ => isFalse fun ⟨_, h, _⟩ => nomatch h
  | .ok a => decidable_of_iff (P a) ⟨fun h => ⟨a, rfl, h⟩, fun ⟨_, hb, h⟩ => Except.ok.inj hb ▸ h⟩

theorem bind_eq_ok {x : Except ε α} {f : α → Except ε β} {b : β} :
    (x >>= f) = .ok b ↔ ∃ a, x = .ok a ∧ f a = .ok b := by
  cases x with
  | error e => simp [bind, Except.bind]
  | ok a => simp [bind, Except.bind]

theorem map_eq_ok {f : α → β} {x : Except ε α} {b : β} :
    f <$> x = .ok b ↔ ∃ a, x = .ok a ∧ f a = b := by
  cases x with
  | error e => exact ⟨(fun h => nomatch h), (fun ⟨_, h, _⟩ => nomatch h)⟩
  | ok a => simp [Functor.map, Except.map]

theorem bind_eq_error {x : Except ε α} {f : α → Except ε β} {e : ε} :
    (x >>= f) = .error e ↔ x = .error e ∨ ∃ a, x = .ok a ∧ f a = .error e := by
  cases x with
  | error e => simp [bind, Except.bind]
  | ok a => simp [bind, Except.bind]

theorem bind_ne_error {x : Except ε α} {f : α → Except ε β} {e : ε} (hx : x ≠ .error e)
    (hf : ∀ a, f a ≠ .error e) : (x >>= f) ≠ .error e := by
  intro h
  rcases bind_eq_error.mp h with h | ⟨a, -, h⟩
  · exact hx h
  · exact hf a h

@[simp] theorem ok_bind (a : α) (f : α → Except ε β) : (Except.ok a >>= f) = f a := rfl

theorem bind_of {x : Except ε α} {a : α} (h : x = .ok a) (f : α → Except ε β) :
    (x >>= f) = f a := by
  rw [h, ok_bind]

@[simp] theorem error_bind (e : ε) (f : α → Except ε β) :
    ((Except.error e : Except ε α) >>= f) = .error e := rfl

@[simp] theorem pure_eq_ok (a : α) : (pure a : Except ε α) = .ok a := rfl

theorem require_of {p : Prop} [Decidable p] (h : p) (e : ε) : require p e = .ok ⟨h⟩ :=
  dif_pos h

theorem require_of_not {p : Prop} [Decidable p] (h : ¬ p) (e : ε) : require p e = .error e :=
  dif_neg h

theorem require_ne_error {p : Prop} [Decidable p] {e e' : ε} (h : e ≠ e') :
    require p e ≠ .error e' := by
  intro hraised
  by_cases hp : p
  · rw [require_of hp] at hraised
    cases hraised
  · rw [require_of_not hp] at hraised
    exact h (Except.error.inj hraised)

theorem require_bind_eq_ok {p : Prop} [Decidable p] {e : ε} {f : PLift p → Except ε β} {b : β} :
    (require p e >>= f) = .ok b ↔ ∃ h : p, f ⟨h⟩ = .ok b := by
  by_cases h : p
  · rw [require_of h, ok_bind]
    exact ⟨fun hf => ⟨h, hf⟩, fun ⟨_, hf⟩ => hf⟩
  · rw [require_of_not h, error_bind]
    exact ⟨(fun hf => nomatch hf), fun ⟨hp, _⟩ => absurd hp h⟩

theorem require_bind_eq_error {p : Prop} [Decidable p] {e e' : ε} {f : PLift p → Except ε β} :
    (require p e >>= f) = .error e' ↔ (¬ p ∧ e = e') ∨ ∃ h : p, f ⟨h⟩ = .error e' := by
  by_cases h : p
  · rw [require_of h, ok_bind]
    exact ⟨fun hf => Or.inr ⟨h, hf⟩, fun hf => hf.elim (fun hn => absurd h hn.1) fun ⟨_, hf⟩ => hf⟩
  · rw [require_of_not h, error_bind, Except.error.injEq]
    exact ⟨fun he => Or.inl ⟨h, he⟩, fun hf => hf.elim And.right fun ⟨hp, _⟩ => absurd hp h⟩

theorem require_bind_of {p : Prop} [Decidable p] (h : p) (e : ε) (f : PLift p → Except ε β) :
    (require p e >>= f) = f ⟨h⟩ := by
  rw [require_of h, ok_bind]

/-- A loop that succeeds relates each element to its own result. -/
theorem mapM_eq_ok {f : α → Except ε β} : ∀ {l : List α} {l' : List β},
    l.mapM f = .ok l' ↔ List.Forall₂ (fun a b => f a = .ok b) l l' := by
  intro l
  induction l with
  | nil =>
    intro l'
    rw [List.mapM_nil, List.forall₂_nil_left_iff, pure_eq_ok, Except.ok.injEq, eq_comm]
  | cons a l ih =>
    intro l'
    rw [List.mapM_cons, List.forall₂_cons_left_iff, bind_eq_ok]
    constructor
    · rintro ⟨b, hb, h⟩
      obtain ⟨bs, hbs, h⟩ := bind_eq_ok.mp h
      exact ⟨b, bs, hb, ih.mp hbs, (Except.ok.inj h).symm⟩
    · rintro ⟨b, bs, hb, hbs, rfl⟩
      exact ⟨b, hb, bind_eq_ok.mpr ⟨bs, ih.mpr hbs, rfl⟩⟩

theorem exists_ok_of_mapM {f : α → Except ε β} {l : List α} {l' : List β} (h : l.mapM f = .ok l') :
    ∀ a ∈ l, ∃ b, f a = .ok b := by
  have hrel := mapM_eq_ok.mp h
  clear h
  induction hrel with
  | nil => simp
  | cons hab _ ih =>
    rw [List.forall_mem_cons]
    exact ⟨⟨_, hab⟩, ih⟩

/-- In a loop that succeeds every result is of an element. -/
theorem exists_of_mem_right {R : α → β → Prop} {as : List α} {bs : List β}
    (h : List.Forall₂ R as bs) : ∀ b ∈ bs, ∃ a ∈ as, R a b := by
  induction h with
  | nil => exact fun _ hb => nomatch hb
  | cons hab _ ih =>
    rw [List.forall_mem_cons]
    refine ⟨⟨_, List.mem_cons_self, hab⟩, fun b hb => ?_⟩
    obtain ⟨a, ha, hrel⟩ := ih b hb
    exact ⟨a, List.mem_cons_of_mem _ ha, hrel⟩

theorem mapM_of_forall {f : α → Except ε β} {g : α → β} : ∀ {l : List α},
    (∀ a ∈ l, f a = .ok (g a)) → l.mapM f = .ok (l.map g) := by
  intro l h
  rw [mapM_eq_ok, List.forall₂_map_right_iff, List.forall₂_same]
  exact h

theorem exists_mapM_of_forall {f : α → Except ε β} : ∀ {l : List α},
    (∀ a ∈ l, ∃ b, f a = .ok b) → ∃ l', l.mapM f = .ok l' := by
  intro l
  induction l with
  | nil => exact fun _ => ⟨[], rfl⟩
  | cons a l ih =>
    intro h
    rw [List.forall_mem_cons] at h
    obtain ⟨⟨b, hb⟩, h⟩ := h
    obtain ⟨bs, hbs⟩ := ih h
    refine ⟨b :: bs, ?_⟩
    rw [List.mapM_cons, hb, ok_bind, hbs, ok_bind, pure_eq_ok]

end Checked
