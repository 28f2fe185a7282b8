import Mathlib.Data.List.Basic
import Mathlib.Data.Nat.Basic
import Mathlib.Data.Char
import Mathlib.Tactic.IntervalCases

/-!
# Digit strings

Numbers written in a base up to sixteen.  `fixedDigits b k n` is the zero-padded
form with `k` digits, `Nat.toDigits b n` (core) the form without padding, and
`parseDigits b` reads either back: `parseDigits_fixedDigits`,
`parseDigits_toDigits`.

Zero-padded strings of one width compare as the numbers do
(`fixedDigits_lt_iff`), and the order of two texts with prefixes of equal width
is decided by the prefixes first (`append_lt_append_iff`).
-/

namespace Digits

/-- The value of a digit, either case. -/
def digitVal (c : Char) : Option Nat :=
  if '0' ≤ c ∧ c ≤ '9' then some (c.toNat - 48)
  else if 'a' ≤ c ∧ c ≤ 'f' then some (c.toNat - 87)
  else if 'A' ≤ c ∧ c ≤ 'F' then some (c.toNat - 55)
  else none

/-- Read one more digit in base `b`. -/
def pushDigit (b acc : Nat) (c : Char) : Option Nat :=
  match digitVal c with
  | some d => if d < b then some (acc * b + d) else none
  | none => none

/-- The number a string of digits in base `b` writes. -/
def parseDigits (b : Nat) (cs : List Char) : Option Nat := cs.foldlM (pushDigit b) 0

/-- `n` with exactly `k` digits in base `b`, padded with zeros. -/
def fixedDigits (b : Nat) : Nat → Nat → List Char
  | 0, _ => []
  | k + 1, n => fixedDigits b k (n / b) ++ [Nat.digitChar (n % b)]

@[simp] theorem length_fixedDigits (b k n : Nat) : (fixedDigits b k n).length = k := by
  induction k generalizing n with
  | zero => rfl
  | succ k ih => simp [fixedDigits, ih]

theorem digitVal_digitChar : ∀ d < 16, digitVal (Nat.digitChar d) = some d := by decide

theorem pushDigit_digitChar {b d : Nat} (acc : Nat) (hd : d < b) (hb : b ≤ 16) :
    pushDigit b acc (Nat.digitChar d) = some (acc * b + d) := by
  rw [pushDigit, digitVal_digitChar d (by omega)]
  simp [hd]

/-- **A padded number reads back.** -/
theorem parseDigits_fixedDigits {b : Nat} (hb₀ : 0 < b) (hb : b ≤ 16) :
    ∀ {k n : Nat}, n < b ^ k → parseDigits b (fixedDigits b k n) = some n := by
  intro k
  induction k with
  | zero => intro n h; simp at h; subst h; rfl
  | succ k ih =>
    intro n h
    have hdiv : n / b < b ^ k := by
      rw [Nat.div_lt_iff_lt_mul hb₀, ← pow_succ]; exact h
    have hval := ih hdiv
    rw [parseDigits] at hval
    rw [parseDigits, fixedDigits, List.foldlM_append, hval]
    simp only [Option.bind_eq_bind, Option.bind_some, List.foldlM_cons, List.foldlM_nil]
    rw [pushDigit_digitChar _ (Nat.mod_lt _ hb₀) hb]
    simp [Nat.div_add_mod']

/-- **A number without padding reads back.** -/
theorem parseDigits_toDigits {b : Nat} (hb₁ : 1 < b) (hb : b ≤ 16) :
    ∀ n : Nat, parseDigits b (Nat.toDigits b n) = some n := by
  intro n
  induction n using Nat.strong_induction_on with
  | _ n ih =>
    by_cases h : n < b
    · rw [Nat.toDigits_of_lt_base h, parseDigits]
      simp [pushDigit_digitChar 0 h hb]
    · have hdiv : n / b < n := Nat.div_lt_self (by omega) hb₁
      have hval := ih (n / b) hdiv
      rw [parseDigits] at hval
      rw [Nat.toDigits_of_base_le hb₁ (by omega), parseDigits, List.foldlM_append, hval]
      simp only [Option.bind_eq_bind, Option.bind_some, List.foldlM_cons, List.foldlM_nil]
      rw [pushDigit_digitChar _ (Nat.mod_lt _ (by omega)) hb]
      simp [Nat.div_add_mod']

theorem mem_fixedDigits {b : Nat} (hb₀ : 0 < b) :
    ∀ {k n : Nat} {c : Char}, c ∈ fixedDigits b k n → ∃ d < b, c = Nat.digitChar d := by
  intro k
  induction k with
  | zero => intro n c h; simp [fixedDigits] at h
  | succ k ih =>
    intro n c h
    rw [fixedDigits, List.mem_append, List.mem_singleton] at h
    rcases h with h | rfl
    · exact ih h
    · exact ⟨n % b, Nat.mod_lt _ hb₀, rfl⟩

theorem mem_toDigits {b : Nat} (hb : 1 < b) : ∀ {n : Nat} {c : Char}, c ∈ Nat.toDigits b n →
    ∃ d < b, c = Nat.digitChar d := by
  intro n
  induction n using Nat.strong_induction_on with
  | _ n ih =>
    intro c hc
    by_cases h : n < b
    · rw [Nat.toDigits_of_lt_base h, List.mem_singleton] at hc
      exact ⟨n, h, hc⟩
    · rw [Nat.toDigits_of_base_le hb (by omega), List.mem_append, List.mem_singleton] at hc
      rcases hc with hc | rfl
      · exact ih _ (Nat.div_lt_self (by omega) hb) hc
      · exact ⟨n % b, Nat.mod_lt _ (by omega), rfl⟩

theorem digitChar_ne_zero : ∀ d < 16, 0 < d → Nat.digitChar d ≠ '0' := by decide

/-- A positive number without padding does not start with a zero. -/
theorem toDigits_head {b : Nat} (hb₁ : 1 < b) (hb : b ≤ 16) : ∀ {n : Nat}, 0 < n →
    ∃ c cs, Nat.toDigits b n = c :: cs ∧ c ≠ '0' := by
  intro n
  induction n using Nat.strong_induction_on with
  | _ n ih =>
    intro hn
    by_cases h : n < b
    · exact ⟨_, _, Nat.toDigits_of_lt_base h, digitChar_ne_zero n (by omega) hn⟩
    · have hdiv : 0 < n / b := Nat.div_pos (by omega) (by omega)
      obtain ⟨c, cs, hc, hne⟩ := ih _ (Nat.div_lt_self (by omega) hb₁) hdiv
      refine ⟨c, cs ++ [Nat.digitChar (n % b)], ?_, hne⟩
      rw [Nat.toDigits_of_base_le hb₁ (by omega), hc, List.cons_append]

theorem toDigits_ne_nil {b : Nat} (hb₁ : 1 < b) (n : Nat) : Nat.toDigits b n ≠ [] := by
  by_cases h : n < b
  · rw [Nat.toDigits_of_lt_base h]
    simp
  · rw [Nat.toDigits_of_base_le hb₁ (by omega)]
    simp

theorem fixedDigits_injective {b : Nat} (hb₀ : 0 < b) (hb : b ≤ 16) {k m n : Nat}
    (hm : m < b ^ k) (hn : n < b ^ k) (h : fixedDigits b k m = fixedDigits b k n) : m = n := by
  have hp := congrArg (parseDigits b) h
  rw [parseDigits_fixedDigits hb₀ hb hm, parseDigits_fixedDigits hb₀ hb hn] at hp
  exact Option.some.inj hp

/-! ### The order of texts -/

/-- **Prefixes of one width decide first.** -/
theorem append_lt_append_iff {α : Type} [LinearOrder α] :
    ∀ {x y u v : List α}, x.length = y.length →
      (x ++ u < y ++ v ↔ x < y ∨ x = y ∧ u < v) := by
  intro x
  induction x with
  | nil =>
    intro y u v h
    cases y with
    | nil => simp
    | cons b y => simp at h
  | cons a x ih =>
    intro y u v h
    cases y with
    | nil => simp at h
    | cons b y =>
      have hrest := ih (u := u) (v := v) (Nat.succ.inj h)
      simp only [List.cons_append, List.cons_lt_cons_iff, hrest, List.cons.injEq]
      tauto

theorem digitChar_lt_iff : ∀ d < 10, ∀ e < 10,
    (Nat.digitChar d < Nat.digitChar e ↔ d < e) := by decide

/-- **Padded decimals compare as numbers.** -/
theorem fixedDigits_lt_iff : ∀ {k m n : Nat}, m < 10 ^ k → n < 10 ^ k →
    (fixedDigits 10 k m < fixedDigits 10 k n ↔ m < n) := by
  intro k
  induction k with
  | zero => intro m n hm hn; simp at hm hn; subst hm hn; simp
  | succ k ih =>
    intro m n hm hn
    have hm' : m / 10 < 10 ^ k := by
      rw [Nat.div_lt_iff_lt_mul (by decide), ← pow_succ]; exact hm
    have hn' : n / 10 < 10 ^ k := by
      rw [Nat.div_lt_iff_lt_mul (by decide), ← pow_succ]; exact hn
    have heq : fixedDigits 10 k (m / 10) = fixedDigits 10 k (n / 10) ↔ m / 10 = n / 10 :=
      ⟨fixedDigits_injective (by decide) (by decide) hm' hn', fun h => by rw [h]⟩
    have hlast : [Nat.digitChar (m % 10)] < [Nat.digitChar (n % 10)] ↔ m % 10 < n % 10 := by
      rw [List.cons_lt_cons_iff]
      simp [digitChar_lt_iff _ (Nat.mod_lt m (by decide)) _ (Nat.mod_lt n (by decide))]
    rw [fixedDigits, fixedDigits, append_lt_append_iff (by simp), ih hm' hn', heq, hlast]
    omega

end Digits
