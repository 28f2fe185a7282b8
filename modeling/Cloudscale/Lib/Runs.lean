import Mathlib.Order.Defs.PartialOrder
import Mathlib.Data.List.Basic

/-!
# Runs of a deterministic system

A system is a function `next` from a state and an input to the state after it.
A run is the fold of `next` over a list of inputs.  The rules here are the
inductions that every statement about a run needs once: an invariant of the
step is an invariant of the run (`run_invariant`), also when the step keeps it
only under a condition that the run meets throughout (`run_invariant_along`),
and a preorder that every step climbs relates the ends of a run (`run_rel`).  Two
systems that take the same inputs on one clock answer alike when a relation between
them is kept (`outputs_eq_of_clock`).

For a system whose steps add entries to a log, `mem_entries_run` finds the step
that added an entry, and `added_together` says that entries which exclude each
other across steps come from one step.
-/

namespace Runs

variable {σ ι : Type} (next : σ → ι → σ)

/-- The state after a list of inputs. -/
def run (s : σ) (inputs : List ι) : σ := inputs.foldl next s

@[simp] theorem run_nil (s : σ) : run next s [] = s := rfl

@[simp] theorem run_cons (s : σ) (i : ι) (is : List ι) :
    run next s (i :: is) = run next (next s i) is := rfl

theorem run_append (s : σ) (is js : List ι) :
    run next s (is ++ js) = run next (run next s is) js := List.foldl_append

theorem run_concat (s : σ) (is : List ι) (i : ι) :
    run next s (is ++ [i]) = next (run next s is) i := by
  rw [run_append, run_cons, run_nil]

/-- **An invariant of the step holds at the end of every run.** -/
theorem run_invariant {P : σ → Prop} (hstep : ∀ s i, P s → P (next s i)) :
    ∀ (is : List ι) {s : σ}, P s → P (run next s is) := by
  intro is
  induction is with
  | nil => intro s h; exact h
  | cons i is ih => intro s h; exact ih (hstep s i h)

/-- Every input of the run meets `Good` in the state it arrives in. -/
def Along (Good : σ → ι → Prop) : σ → List ι → Prop
  | _, [] => True
  | s, i :: is => Good s i ∧ Along Good (next s i) is

instance decidableAlong {Good : σ → ι → Prop} [∀ s i, Decidable (Good s i)] :
    ∀ (s : σ) (is : List ι), Decidable (Along next Good s is)
  | _, [] => isTrue trivial
  | s, i :: is =>
    have : Decidable (Along next Good (next s i) is) := decidableAlong (next s i) is
    inferInstanceAs (Decidable (Good s i ∧ Along next Good (next s i) is))

variable {next}

theorem along_append {Good : σ → ι → Prop} : ∀ {is js : List ι} {s : σ},
    Along next Good s (is ++ js) ↔
      Along next Good s is ∧ Along next Good (run next s is) js := by
  intro is js
  induction is with
  | nil => intro s; simp [Along]
  | cons i is ih => intro s; simp only [List.cons_append, Along, run_cons, ih, and_assoc]

theorem along_of_forall {Good : σ → ι → Prop} (h : ∀ s i, Good s i) :
    ∀ (is : List ι) (s : σ), Along next Good s is := by
  intro is
  induction is with
  | nil => intro _; trivial
  | cons i is ih => intro s; exact ⟨h s i, ih _⟩

/-- **An invariant that good steps keep holds at the end of every good run.** -/
theorem run_invariant_along {P : σ → Prop} {Good : σ → ι → Prop}
    (hstep : ∀ s i, P s → Good s i → P (next s i)) :
    ∀ (is : List ι) {s : σ}, P s → Along next Good s is → P (run next s is) := by
  intro is
  induction is with
  | nil => intro s h _; exact h
  | cons i is ih => intro s h hg; exact ih (hstep s i h hg.1) hg.2

/-! ### Entries of a log that grows -/

section Entries

variable {ε : Type} {P : σ → Prop} {G : σ → ι → Prop} {entries : σ → List ε}
  {added : σ → ι → List ε}

/-- An entry of the log was there at the start, or a step of the run added it. -/
theorem mem_entries_run (hkeep : ∀ s i, P s → G s i → P (next s i))
    (hgrow : ∀ s i, P s → entries (next s i) = entries s ++ added s i) {x : ε} :
    ∀ (is : List ι) {s : σ}, P s → Along next G s is → x ∈ entries (run next s is) →
      x ∈ entries s ∨ ∃ before i after, is = before ++ i :: after ∧
        x ∈ added (run next s before) i := by
  intro is
  induction is with
  | nil => intro s _ _ hx; exact Or.inl hx
  | cons i is ih =>
    intro s hs hgood hx
    rcases ih (hkeep s i hs hgood.1) hgood.2 hx with hold | ⟨before, j, after, his, hadded⟩
    · rw [hgrow s i hs] at hold
      rcases List.mem_append.mp hold with hold | hadded
      · exact Or.inl hold
      · exact Or.inr ⟨[], i, is, rfl, hadded⟩
    · exact Or.inr ⟨i :: before, j, after, by rw [his, List.cons_append], hadded⟩

/-- What a step of the run added is in the log at its end. -/
theorem mem_run_of_mem_added (hkeep : ∀ s i, P s → G s i → P (next s i))
    (hgrow : ∀ s i, P s → entries (next s i) = entries s ++ added s i) {x : ε} :
    ∀ (is : List ι) {s : σ}, P s → Along next G s is → x ∈ entries s →
      x ∈ entries (run next s is) := by
  intro is
  induction is with
  | nil => intro s _ _ hx; exact hx
  | cons i is ih =>
    intro s hs hgood hx
    refine ih (hkeep s i hs hgood.1) hgood.2 ?_
    rw [hgrow s i hs]
    exact List.mem_append_left _ hx

variable (entries added) in
/-- **Entries that exclude each other across steps were added by one step.** -/
theorem added_together {R : ε → ε → Prop} (hsymm : ∀ x y, R x y → R y x)
    (hkeep : ∀ s i, P s → G s i → P (next s i))
    (hgrow : ∀ s i, P s → entries (next s i) = entries s ++ added s i)
    (hexcl : ∀ s i, P s → G s i → ∀ x ∈ entries s, ∀ y ∈ added s i, ¬ R x y)
    {x y : ε} (hxy : R x y) :
    ∀ (is : List ι) {s : σ}, P s → Along next G s is → x ∉ entries s → y ∉ entries s →
      x ∈ entries (run next s is) → y ∈ entries (run next s is) →
      ∃ before i after, is = before ++ i :: after ∧ x ∈ added (run next s before) i ∧
        y ∈ added (run next s before) i := by
  intro is
  induction is with
  | nil => intro s _ _ hx _ hx' _; exact absurd hx' hx
  | cons i is ih =>
    intro s hs hgood hx hy hx' hy'
    have hnext := hkeep s i hs hgood.1
    -- An entry that is excluded by one in the log cannot come later.
    have hlater : ∀ {a b : ε}, R a b → a ∈ entries (next s i) → b ∉ entries (next s i) →
        b ∉ entries (run next (next s i) is) := by
      intro a b hab ha hb hmem
      rcases mem_entries_run hkeep hgrow is hnext hgood.2 hmem with
        hold | ⟨before, j, after, his, hadded⟩
      · exact hb hold
      · have hsplit := hgood.2
        rw [his] at hsplit
        obtain ⟨hbefore, hafter⟩ := along_append.mp hsplit
        have hP := run_invariant_along hkeep before hnext hbefore
        exact hexcl _ j hP hafter.1 a
          (mem_run_of_mem_added hkeep hgrow before hnext hbefore ha) b hadded hab
    by_cases hxi : x ∈ entries (next s i)
    · by_cases hyi : y ∈ entries (next s i)
      · rw [hgrow s i hs] at hxi hyi
        exact ⟨[], i, is, rfl, (List.mem_append.mp hxi).resolve_left hx,
          (List.mem_append.mp hyi).resolve_left hy⟩
      · exact absurd hy' (hlater hxy hxi hyi)
    · by_cases hyi : y ∈ entries (next s i)
      · exact absurd hx' (hlater (hsymm x y hxy) hyi hxi)
      · obtain ⟨before, j, after, rfl, hxj, hyj⟩ := ih hnext hgood.2 hxi hyi hx' hy'
        exact ⟨i :: before, j, after, rfl, hxj, hyj⟩

end Entries

/-! ### Answers -/

section Answers

variable (next) in
/-- What the inputs of a run are answered. -/
def outputs {ρ : Type} (reply : σ → ι → ρ) : σ → List ι → List ρ
  | _, [] => []
  | s, i :: is => reply s i :: outputs reply (next s i) is

theorem outputs_append {ρ : Type} {reply : σ → ι → ρ} : ∀ {is js : List ι} {s : σ},
    outputs next reply s (is ++ js) =
      outputs next reply s is ++ outputs next reply (run next s is) js := by
  intro is js
  induction is with
  | nil => exact fun {s} => rfl
  | cons i is ih =>
    intro s
    rw [List.cons_append, outputs, outputs, ih, run_cons, List.cons_append]

variable {τ ρ T : Type} [Preorder T] {next' : τ → ι → τ} {reply : σ → ι → ρ}
  {reply' : τ → ι → ρ} {time : ι → T}
  {G : ι → Prop} {R : T → σ → τ → Prop}

/-- **Two systems on one clock answer alike** when they are related at the start, and inputs
that come later are answered alike and keep them related. -/
theorem outputs_eq_of_clock (hstep : ∀ now s t i, R now s t → now ≤ time i → G i →
      reply s i = reply' t i ∧ R (time i) (next s i) (next' t i)) {is : List ι} {s : σ} {t : τ}
    (hstart : ∀ now, R now s t) (hsorted : is.Pairwise (fun i j => time i ≤ time j))
    (hgood : ∀ i ∈ is, G i) : outputs next reply s is = outputs next' reply' t is := by
  have hrun : ∀ (is : List ι) (now : T) (s : σ) (t : τ), R now s t → (∀ i ∈ is, now ≤ time i) →
      is.Pairwise (fun i j => time i ≤ time j) → (∀ i ∈ is, G i) →
      outputs next reply s is = outputs next' reply' t is := by
    intro is
    induction is with
    | nil => exact fun _ _ _ _ _ _ _ => rfl
    | cons i is ih =>
      intro now s t hrelated hlater hsorted hgood
      rw [List.pairwise_cons] at hsorted
      obtain ⟨hreply, hnext⟩ := hstep now s t i hrelated (hlater i List.mem_cons_self)
        (hgood i List.mem_cons_self)
      rw [outputs, outputs, hreply, ih _ _ _ hnext hsorted.1 hsorted.2
        fun j hj => hgood j (List.mem_cons_of_mem i hj)]
  cases is with
  | nil => rfl
  | cons i is =>
    refine hrun (i :: is) (time i) s t (hstart _) (fun j hj => ?_) hsorted hgood
    rcases List.mem_cons.mp hj with rfl | hj
    · exact le_rfl
    · exact (List.pairwise_cons.mp hsorted).1 j hj

end Answers

theorem run_rel {R : σ → σ → Prop} (hrefl : ∀ s, R s s)
    (htrans : ∀ a b c, R a b → R b c → R a c) (hstep : ∀ s i, R s (next s i)) :
    ∀ (is : List ι) (s : σ), R s (run next s is) := by
  intro is
  induction is with
  | nil => intro s; exact hrefl s
  | cons i is ih => intro s; exact htrans _ _ _ (hstep s i) (ih _)

end Runs
