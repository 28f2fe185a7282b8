import Mathlib.Data.Int.Basic
import Mathlib.Data.List.Sort

/-!
# Numbered streams

Entries of several streams share one log; the stream of an entry is its key.
`numberFrom v` numbers the entries of one stream, the first with `v + 1`, and
`numberEach key version` gives every entry of a log the next number of its
stream.  Restricted to a stream the second is the first (`filter_numberEach`).

A stable sort by key does not reorder a stream (`filter_insertionSort`), so a log
may be numbered first and sorted by stream afterwards.
-/

namespace Streams

variable {α κ : Type}

/-- The entries of one stream, numbered from `v + 1` on. -/
def numberFrom : Int → List α → List (α × Int)
  | _, [] => []
  | v, a :: as => (a, v + 1) :: numberFrom (v + 1) as

@[simp] theorem numberFrom_nil (v : Int) : numberFrom v ([] : List α) = [] := rfl

@[simp] theorem numberFrom_cons (v : Int) (a : α) (as : List α) :
    numberFrom v (a :: as) = (a, v + 1) :: numberFrom (v + 1) as := rfl

theorem numberFrom_append : ∀ {v : Int} {as bs : List α},
    numberFrom v (as ++ bs) = numberFrom v as ++ numberFrom (v + as.length) bs := by
  intro v as bs
  induction as generalizing v with
  | nil => simp
  | cons a as ih =>
    have hv : v + 1 + (as.length : Int) = v + ((a :: as).length : Int) := by
      rw [List.length_cons]
      omega
    rw [List.cons_append, numberFrom_cons, ih, hv, numberFrom_cons, List.cons_append]

@[simp] theorem map_fst_numberFrom : ∀ {v : Int} {as : List α},
    (numberFrom v as).map Prod.fst = as := by
  intro v as
  induction as generalizing v with
  | nil => rfl
  | cons a as ih => rw [numberFrom_cons, List.map_cons, ih]

@[simp] theorem length_numberFrom {v : Int} {as : List α} :
    (numberFrom v as).length = as.length := by
  rw [← List.length_map (f := Prod.fst), map_fst_numberFrom]

/-- The numbers `v + 1` to `v + n`. -/
def consecutive (v : Int) (n : Nat) : List Int := (List.range n).map (fun i : Nat => v + 1 + i)

theorem consecutive_cons (v : Int) (n : Nat) :
    consecutive v (n + 1) = (v + 1) :: consecutive (v + 1) n := by
  rw [consecutive, consecutive, List.range_succ_eq_map, List.map_cons, List.map_map]
  refine List.cons_eq_cons.mpr ⟨by simp, List.map_congr_left fun i _ => ?_⟩
  simp only [Function.comp_apply, Nat.succ_eq_add_one]
  omega

theorem consecutive_concat (v : Int) (n : Nat) :
    consecutive v (n + 1) = consecutive v n ++ [v + (n + 1 : Nat)] := by
  rw [consecutive, consecutive, List.range_succ, List.map_append, List.map_singleton]
  refine congrArg (_ ++ [·]) ?_
  push_cast
  omega

theorem consecutive_add (v : Int) (m n : Nat) :
    consecutive v (m + n) = consecutive v m ++ consecutive (v + m) n := by
  rw [consecutive, consecutive, consecutive, List.range_add, List.map_append, List.map_map]
  refine congrArg (_ ++ ·) (List.map_congr_left fun i _ => ?_)
  simp only [Function.comp_apply]
  push_cast
  omega

theorem mem_consecutive {v : Int} {n : Nat} {k : Int} : k ∈ consecutive v n ↔ v < k ∧ k ≤ v + n := by
  rw [consecutive, List.mem_map]
  constructor
  · rintro ⟨i, hi, rfl⟩
    rw [List.mem_range] at hi
    omega
  · rintro ⟨hlt, hle⟩
    exact ⟨(k - v - 1).toNat, List.mem_range.mpr (by omega), by omega⟩

theorem pairwise_consecutive (v : Int) (n : Nat) : (consecutive v n).Pairwise (· < ·) := by
  rw [consecutive, List.pairwise_map]
  exact List.pairwise_lt_range.imp fun hlt => by omega

theorem foldl_max_consecutive (n : Nat) : (consecutive 0 n).foldl max 0 = n := by
  induction n with
  | zero => rfl
  | succ n ih =>
    rw [consecutive_concat, List.foldl_append, ih, List.foldl_cons, List.foldl_nil]
    omega

theorem eq_consecutive_of_prefix {v : Int} {n : Nat} {l : List Int} (h : l <+: consecutive v n) :
    l = consecutive v l.length := by
  have hle : l.length ≤ n := by
    have hlength := h.length_le
    rwa [consecutive, List.length_map, List.length_range] at hlength
  obtain ⟨k, rfl⟩ := Nat.exists_eq_add_of_le hle
  rw [consecutive_add] at h
  refine (List.prefix_of_prefix_length_le h (List.prefix_append _ _) ?_).eq_of_length ?_
  all_goals simp [consecutive]

theorem drop_consecutive (v : Int) : ∀ {n k : Nat}, k ≤ n →
    (consecutive v n).drop k = consecutive (v + k) (n - k) := by
  intro n k
  induction k generalizing v n with
  | zero => intro _; simp
  | succ k ih =>
    intro hk
    obtain ⟨n, rfl⟩ : ∃ m, n = m + 1 := ⟨n - 1, by omega⟩
    have hv : v + 1 + (k : Int) = v + ((k + 1 : Nat) : Int) := by
      push_cast
      omega
    rw [consecutive_cons, List.drop_succ_cons, ih (v + 1) (Nat.le_of_succ_le_succ hk), hv,
      Nat.succ_sub_succ]

theorem map_snd_numberFrom : ∀ {v : Int} {as : List α},
    (numberFrom v as).map Prod.snd = consecutive v as.length := by
  intro v as
  induction as generalizing v with
  | nil => rfl
  | cons a as ih => rw [numberFrom_cons, List.map_cons, ih, List.length_cons, consecutive_cons]

theorem lt_of_mem_numberFrom : ∀ {v : Int} {as : List α} {p : α × Int},
    p ∈ numberFrom v as → v < p.2 ∧ p.2 ≤ v + as.length := by
  intro v as
  induction as generalizing v with
  | nil => intro p hp; cases hp
  | cons a as ih =>
    intro p hp
    rw [List.length_cons]
    rcases List.mem_cons.mp hp with rfl | hp
    · exact ⟨by omega, by push_cast; omega⟩
    · obtain ⟨hlt, hle⟩ := ih hp
      exact ⟨by omega, by push_cast; omega⟩

theorem pairwise_numberFrom : ∀ {v : Int} {as : List α},
    (numberFrom v as).Pairwise (fun p q => p.2 < q.2) := by
  intro v as
  induction as generalizing v with
  | nil => exact List.Pairwise.nil
  | cons a as ih => exact List.Pairwise.cons (fun q hq => (lt_of_mem_numberFrom hq).1) ih

/-! ### Several streams -/

variable [DecidableEq κ] (key : α → κ)

/-- Every entry with the next number of its stream. -/
def numberEach : (κ → Int) → List α → List (α × Int)
  | _, [] => []
  | version, a :: as =>
    (a, version (key a) + 1) ::
      numberEach (Function.update version (key a) (version (key a) + 1)) as

@[simp] theorem map_fst_numberEach : ∀ {version : κ → Int} {as : List α},
    (numberEach key version as).map Prod.fst = as := by
  intro version as
  induction as generalizing version with
  | nil => rfl
  | cons a as ih => rw [numberEach, List.map_cons, ih]

/-- **A stream of a numbered log is numbered by itself.** -/
theorem filter_numberEach (k : κ) : ∀ {version : κ → Int} {as : List α},
    (numberEach key version as).filter (fun p => key p.1 = k) =
      numberFrom (version k) (as.filter (fun a => key a = k)) := by
  intro version as
  induction as generalizing version with
  | nil => rfl
  | cons a as ih =>
    by_cases hk : key a = k
    · subst hk
      rw [numberEach, List.filter_cons_of_pos (by simp), List.filter_cons_of_pos (by simp), ih,
        Function.update_self, numberFrom_cons]
    · rw [numberEach, List.filter_cons_of_neg (by simpa using hk),
        List.filter_cons_of_neg (by simpa using hk), ih,
        Function.update_of_ne (Ne.symm hk)]

variable {key}

/-- What holds along every stream of a log holds of any two entries of one stream. -/
theorem pairwise_of_filter {R : α → α → Prop} : ∀ {as : List α},
    (∀ k, (as.filter (fun a => key a = k)).Pairwise R) →
      as.Pairwise (fun a b => key a = key b → R a b) := by
  intro as
  induction as with
  | nil => intro _; exact List.Pairwise.nil
  | cons a as ih =>
    intro h
    refine List.Pairwise.cons (fun b hb hkey => ?_) (ih fun k => ?_)
    · have hhead := h (key a)
      rw [List.filter_cons_of_pos (by simp)] at hhead
      exact List.rel_of_pairwise_cons hhead (List.mem_filter.mpr ⟨hb, by simpa using hkey.symm⟩)
    · exact (h k).sublist ((List.sublist_cons_self a as).filter _)

/-- **A stable sort leaves a part that is in order as it is.** -/
theorem filter_insertionSort_of_pairwise {r : α → α → Prop} [DecidableRel r] {p : α → Bool}
    {as : List α} (h : (as.filter p).Pairwise r) :
    (as.insertionSort r).filter p = as.filter p := by
  have hsub := (List.sublist_insertionSort h List.filter_sublist).filter p
  rw [List.filter_filter] at hsub
  simp only [Bool.and_self] at hsub
  refine (hsub.eq_of_length ?_).symm
  exact ((List.perm_insertionSort _ as).filter _).length_eq.symm

variable [LinearOrder κ]

/-- **A stable sort by key does not reorder a stream.** -/
theorem filter_insertionSort (key : α → κ) (k : κ) (as : List α) :
    (as.insertionSort (fun a b => key a ≤ key b)).filter (fun a => key a = k) =
      as.filter (fun a => key a = k) := by
  refine filter_insertionSort_of_pairwise (List.pairwise_of_forall_mem_list fun a ha b hb => ?_)
  have hka : key a = k := by simpa using (List.mem_filter.mp ha).2
  have hkb : key b = k := by simpa using (List.mem_filter.mp hb).2
  rw [hka, hkb]

end Streams
