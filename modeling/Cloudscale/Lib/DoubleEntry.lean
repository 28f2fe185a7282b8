import Mathlib.Algebra.BigOperators.Group.Finset.Piecewise
import Mathlib.Algebra.BigOperators.Group.List.Basic
import Mathlib.Algebra.Ring.Int.Defs

/-!
# Double entry

A journal is a list of entries, each of which moves one account by a signed
amount.  `posted` is what a journal moved an account by, and the file is the
arithmetic of it: it adds up over concatenation, it does not depend on the
order of the entries, and summed over the accounts it is the sum of the
movements (`sum_posted`), so a balanced journal moves nothing in total.
`posted_eq_sum_keys` regroups a journal by a key its entries carry.

Entries are of any type: an account and a signed amount are read off them by
two functions.
-/

namespace DoubleEntry

variable {ε α κ : Type} [DecidableEq α] [DecidableEq κ]
variable (account : ε → α) (delta : ε → Int)

/-- What the journal moved `a` by. -/
def posted (es : List ε) (a : α) : Int :=
  ((es.filter (fun e => account e = a)).map delta).sum

def moved (es : List ε) : Int := (es.map delta).sum

variable {account delta}

@[simp] theorem posted_nil (a : α) : posted account delta [] a = 0 := rfl

@[simp] theorem posted_append (es fs : List ε) (a : α) :
    posted account delta (es ++ fs) a = posted account delta es a + posted account delta fs a := by
  simp [posted]

theorem posted_cons (e : ε) (es : List ε) (a : α) :
    posted account delta (e :: es) a =
      (if account e = a then delta e else 0) + posted account delta es a := by
  by_cases h : account e = a <;> simp [posted, h]

theorem posted_perm {es fs : List ε} (h : es.Perm fs) (a : α) :
    posted account delta es a = posted account delta fs a :=
  ((h.filter _).map _).sum_eq

theorem posted_of_forall_ne {es : List ε} {a : α} (h : ∀ e ∈ es, account e ≠ a) :
    posted account delta es a = 0 := by
  rw [posted, List.filter_eq_nil_iff.mpr (fun e he => by simpa using h e he)]
  rfl

theorem posted_of_forall_zero {es : List ε} (h : ∀ e ∈ es, delta e = 0) (a : α) :
    posted account delta es a = 0 := by
  induction es with
  | nil => rfl
  | cons e es ih =>
    rw [posted_cons, h e List.mem_cons_self, ite_self, zero_add]
    exact ih (fun x hx => h x (List.mem_cons_of_mem e hx))

@[simp] theorem moved_nil : moved delta ([] : List ε) = 0 := rfl

@[simp] theorem moved_cons (e : ε) (es : List ε) :
    moved delta (e :: es) = delta e + moved delta es := by simp [moved]

@[simp] theorem moved_append (es fs : List ε) :
    moved delta (es ++ fs) = moved delta es + moved delta fs := by
  simp [moved]

theorem moved_perm {es fs : List ε} (h : es.Perm fs) : moved delta es = moved delta fs :=
  (h.map _).sum_eq

/-- **Summed over its accounts, a journal posts what it moves.** -/
theorem sum_posted (s : Finset α) : ∀ {es : List ε}, (∀ e ∈ es, account e ∈ s) →
    ∑ a ∈ s, posted account delta es a = moved delta es := by
  intro es
  induction es with
  | nil => intro _; simp
  | cons e es ih =>
    intro h
    have hrest := ih (fun x hx => h x (List.mem_cons_of_mem e hx))
    simp only [posted_cons, Finset.sum_add_distrib, hrest, moved_cons]
    rw [Finset.sum_ite_eq, if_pos (h e List.mem_cons_self)]

/-- **A journal regrouped by key.**  What it posts is what its entries without
a key post and, for each key, what the entries of that key post. -/
theorem posted_eq_sum_keys (key : ε → Option κ) (keys : Finset κ) (a : α) :
    ∀ {es : List ε}, (∀ e ∈ es, ∀ k, key e = some k → k ∈ keys) →
    posted account delta es a =
      posted account delta (es.filter (fun e => key e = none)) a +
        ∑ k ∈ keys, posted account delta (es.filter (fun e => key e = some k)) a := by
  intro es
  induction es with
  | nil => intro _; simp
  | cons e es ih =>
    intro h
    have hrest := ih (fun x hx => h x (List.mem_cons_of_mem e hx))
    cases hk : key e with
    | none =>
      have hsome : ∀ k, (e :: es).filter (fun x => key x = some k) =
          es.filter (fun x => key x = some k) := by
        intro k; rw [List.filter_cons_of_neg]; simp [hk]
      rw [List.filter_cons_of_pos (by simp [hk]), posted_cons, posted_cons, hrest]
      simp only [hsome]
      omega
    | some k₀ =>
      have hmem : k₀ ∈ keys := h e List.mem_cons_self k₀ hk
      have hone : ∀ k, posted account delta ((e :: es).filter (fun x => key x = some k)) a =
          (if k₀ = k then (if account e = a then delta e else 0) else 0) +
            posted account delta (es.filter (fun x => key x = some k)) a := by
        intro k
        by_cases hkk : k₀ = k
        · rw [List.filter_cons_of_pos (by simp [hk, hkk]), posted_cons, if_pos hkk]
        · rw [List.filter_cons_of_neg (by simp [hk, hkk]), if_neg hkk, zero_add]
      rw [List.filter_cons_of_neg (by simp [hk]), posted_cons, hrest]
      simp only [hone, Finset.sum_add_distrib]
      rw [Finset.sum_ite_eq, if_pos hmem]
      omega

/-- A journal moves what its entries without a key move and what each key moves. -/
theorem moved_eq_sum_keys (key : ε → Option κ) (keys : Finset κ) {es : List ε}
    (h : ∀ e ∈ es, ∀ k, key e = some k → k ∈ keys) :
    moved delta es = moved delta (es.filter (fun e => key e = none)) +
      ∑ k ∈ keys, moved delta (es.filter (fun e => key e = some k)) := by
  have hposted : ∀ fs : List ε, posted (fun _ => ()) delta fs () = moved delta fs := by
    intro fs
    rw [posted, List.filter_eq_self.mpr (fun _ _ => by simp), moved]
  have hsum : posted (fun _ => ()) delta es () =
      posted (fun _ => ()) delta (es.filter (fun e => key e = none)) () +
        ∑ k ∈ keys, posted (fun _ => ()) delta (es.filter (fun e => key e = some k)) () :=
    posted_eq_sum_keys key keys () h
  simpa only [hposted] using hsum

end DoubleEntry
