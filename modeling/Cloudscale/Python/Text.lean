import Mathlib.Data.List.Basic

/-!
# String methods

`str.replace` and `str.strip` on lists of characters, with what they do to a
text that holds nothing to replace or to strip.
-/

namespace Python

/-- `text.replace(pattern, new)`; `skip` counts what is left of a match. -/
def replaceAll (pattern new : List Char) : Nat → List Char → List Char
  | _, [] => []
  | skip + 1, _ :: cs => replaceAll pattern new skip cs
  | 0, c :: cs =>
    if pattern.isPrefixOf (c :: cs) then new ++ replaceAll pattern new (pattern.length - 1) cs
    else c :: replaceAll pattern new 0 cs

/-- `text.replace(pattern, new)`. -/
def replace (text pattern new : String) : String :=
  String.ofList (replaceAll pattern.toList new.toList 0 text.toList)

/-- `text.strip(...)`: drop the characters of a kind at both ends. -/
def strip (drop : Char → Bool) (cs : List Char) : List Char :=
  ((cs.dropWhile drop).reverse.dropWhile drop).reverse

/-- ASCII white space, as `int` and `bytes.fromhex` skip it. -/
def isBlank (c : Char) : Bool :=
  c = ' ' || c = '\t' || c = '\n' || c = '\r' || c = '\x0b' || c = '\x0c'

theorem replaceAll_of_not_mem {p : Char} {ps new : List Char} :
    ∀ {cs : List Char}, p ∉ cs → replaceAll (p :: ps) new 0 cs = cs := by
  intro cs
  induction cs with
  | nil => intro _; rfl
  | cons c cs ih =>
    intro h
    rw [List.mem_cons, not_or] at h
    rw [replaceAll, if_neg, ih h.2]
    simp [List.isPrefixOf, h.1]

theorem replaceAll_skip {p new : List Char} : ∀ {ps cs : List Char},
    replaceAll p new ps.length (ps ++ cs) = replaceAll p new 0 cs := by
  intro ps
  induction ps with
  | nil => intro cs; rfl
  | cons c ps ih => intro cs; rw [List.length_cons, List.cons_append, replaceAll, ih]

/-- A text that ends in the only occurrence of the pattern. -/
theorem replaceAll_suffix {p : Char} {ps new : List Char} : ∀ {cs : List Char}, p ∉ cs →
    replaceAll (p :: ps) new 0 (cs ++ p :: ps) = cs ++ new := by
  intro cs
  induction cs with
  | nil =>
    intro _
    have hskip : replaceAll (p :: ps) new ps.length (ps ++ []) = replaceAll (p :: ps) new 0 [] :=
      replaceAll_skip
    rw [List.append_nil] at hskip
    rw [List.nil_append, replaceAll, if_pos (by simp [List.isPrefixOf]), List.length_cons,
      Nat.add_sub_cancel, hskip]
    simp [replaceAll]
  | cons c cs ih =>
    intro h
    rw [List.mem_cons, not_or] at h
    rw [List.cons_append, replaceAll, if_neg, ih h.2, List.cons_append]
    simp [List.isPrefixOf, h.1]

theorem dropWhile_of_forall {p : Char → Bool} {cs : List Char} (h : ∀ c ∈ cs, p c = false) :
    cs.dropWhile p = cs := by
  cases cs with
  | nil => rfl
  | cons c cs => rw [List.dropWhile_cons, if_neg (by simp [h c List.mem_cons_self])]

theorem strip_of_forall {p : Char → Bool} {cs : List Char} (h : ∀ c ∈ cs, p c = false) :
    strip p cs = cs := by
  rw [strip, dropWhile_of_forall h, dropWhile_of_forall (by simpa using h), List.reverse_reverse]

end Python
