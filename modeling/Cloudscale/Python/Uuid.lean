import Cloudscale.Lib.Digits
import Cloudscale.Python.Hashlib
import Cloudscale.Python.Text

/-!
# `uuid.UUID`

A UUID is its 128-bit integer.  `UUID.str` is the canonical text, 32 lower-case
hexadecimal digits in groups of 8-4-4-4-12, and `UUID.ofText` the constructor
`UUID(text)`: it drops `urn:` and `uuid:`, braces at the ends and every hyphen,
and hands the 32 characters that must be left to `int(_, 16)`.  That call also
takes blanks around the digits, a plus sign, a `0x` and single underscores
between digits, which `intBase16` follows for ASCII text.

`UUID.ofText_str` is the round trip, and `UUID.str_injective` follows.
-/

namespace Python

open Digits

/-- `uuid.UUID`. -/
structure UUID where
  int : Fin (2 ^ 128)
  deriving DecidableEq

namespace UUID

instance neZero : NeZero (2 ^ 128) := ⟨by decide⟩

def hex (u : UUID) : List Char := fixedDigits 16 32 u.int.val

/-- Hyphens after the digits 8, 12, 16 and 20. -/
def hyphenated (h : List Char) : List Char :=
  h.take 8 ++ '-' :: (h.drop 8).take 4 ++ '-' :: (h.drop 12).take 4
    ++ '-' :: (h.drop 16).take 4 ++ '-' :: h.drop 20

/-- `str(uuid)`. -/
def str (u : UUID) : String := String.ofList (hyphenated u.hex)

/-- Hexadecimal digits with single underscores between them. -/
def underscored : Bool → Nat → List Char → Option Nat
  | afterDigit, acc, [] => if afterDigit then some acc else none
  | afterDigit, acc, c :: cs =>
    if c = '_' then (if afterDigit then underscored false acc cs else none)
    else match pushDigit 16 acc c with
      | some acc => underscored true acc cs
      | none => none

def dropPlus : List Char → List Char
  | '+' :: rest => rest
  | cs => cs

def isHexMark (c : Char) : Bool := c = 'x' || c = 'X'

/-- Drop a `0x` and the underscore that may follow it. -/
def dropHexPrefix : List Char → List Char
  | '0' :: x :: rest =>
    if isHexMark x then (if rest.head? = some '_' then rest.tail else rest) else '0' :: x :: rest
  | cs => cs

/-- `int(text, 16)` where the text holds no minus sign. -/
def intBase16 (cs : List Char) : Option Nat :=
  underscored false 0 (dropHexPrefix (dropPlus (strip isBlank cs)))

/-- `UUID(text)`; `none` is the `ValueError`. -/
def ofText (text : String) : Option UUID :=
  let hex := replaceAll "uuid:".toList [] 0 (replaceAll "urn:".toList [] 0 text.toList)
  let hex := (strip (fun c => c = '{' || c = '}') hex).filter (· ≠ '-')
  if hex.length = 32 then
    match intBase16 hex with
    | some n => if h : n < 2 ^ 128 then some ⟨⟨n, h⟩⟩ else none
    | none => none
  else none

/-! ### The canonical text reads back -/

/-- A lower-case hexadecimal digit is none of the characters `UUID(text)` treats
specially. -/
def IsHexDigit (c : Char) : Prop := ∃ d < 16, c = Nat.digitChar d

theorem digitChar_plain : ∀ d < 16, Nat.digitChar d ≠ '-' ∧ Nat.digitChar d ≠ 'u' ∧
    Nat.digitChar d ≠ '{' ∧ Nat.digitChar d ≠ '}' ∧ isBlank (Nat.digitChar d) = false ∧
    Nat.digitChar d ≠ '+' ∧ isHexMark (Nat.digitChar d) = false ∧
    Nat.digitChar d ≠ '_' := by decide

theorem underscored_eq_parseDigits : ∀ {cs : List Char} {b : Bool} {acc : Nat},
    (∀ c ∈ cs, IsHexDigit c) → (b = true ∨ cs ≠ []) →
      underscored b acc cs = cs.foldlM (pushDigit 16) acc := by
  intro cs
  induction cs with
  | nil => intro b acc _ hb; simp at hb; simp [underscored, hb]
  | cons c cs ih =>
    intro b acc h _
    obtain ⟨d, hd, rfl⟩ := h c List.mem_cons_self
    rw [underscored, if_neg (digitChar_plain d hd).2.2.2.2.2.2.2,
      pushDigit_digitChar acc hd le_rfl, List.foldlM_cons,
      pushDigit_digitChar acc hd le_rfl]
    exact ih (fun x hx => h x (List.mem_cons_of_mem _ hx)) (Or.inl rfl)

theorem dropPlus_of_not_mem {cs : List Char} (h : '+' ∉ cs) : dropPlus cs = cs := by
  unfold dropPlus
  split
  · simp at h
  · rfl

theorem dropHexPrefix_of_forall {cs : List Char} (h : ∀ c ∈ cs, isHexMark c = false) :
    dropHexPrefix cs = cs := by
  unfold dropHexPrefix
  split
  · rw [if_neg]
    rw [h _ (List.mem_cons_of_mem _ List.mem_cons_self)]
    decide
  · rfl

theorem intBase16_eq_parseDigits {cs : List Char} (h : ∀ c ∈ cs, IsHexDigit c) (hne : cs ≠ []) :
    intBase16 cs = parseDigits 16 cs := by
  have hblank : strip isBlank cs = cs := by
    refine strip_of_forall (fun c hc => ?_)
    obtain ⟨d, hd, rfl⟩ := h c hc
    exact (digitChar_plain d hd).2.2.2.2.1
  have hplus : '+' ∉ cs := by
    intro hc
    obtain ⟨d, hd, he⟩ := h '+' hc
    exact (digitChar_plain d hd).2.2.2.2.2.1 he.symm
  have hmark : ∀ c ∈ cs, isHexMark c = false := by
    intro c hc
    obtain ⟨d, hd, rfl⟩ := h c hc
    exact (digitChar_plain d hd).2.2.2.2.2.2.1
  rw [intBase16, hblank, dropPlus_of_not_mem hplus, dropHexPrefix_of_forall hmark]
  exact underscored_eq_parseDigits h (Or.inr hne)

theorem mem_hyphenated {h : List Char} {c : Char} (hc : c ∈ hyphenated h) : c ∈ h ∨ c = '-' := by
  simp only [hyphenated, List.mem_append, List.mem_cons] at hc
  rcases hc with (((hc | hc | hc) | hc | hc) | hc | hc) | hc | hc
  all_goals first
    | exact Or.inr hc
    | exact Or.inl (List.mem_of_mem_take hc)
    | exact Or.inl (List.mem_of_mem_drop hc)
    | exact Or.inl (List.mem_of_mem_drop (List.mem_of_mem_take hc))

theorem filter_hyphenated {h : List Char} (hh : ∀ c ∈ h, c ≠ '-') :
    (hyphenated h).filter (· ≠ '-') = h := by
  have hkeep : ∀ l : List Char, (∀ c ∈ l, c ∈ h) → l.filter (· ≠ '-') = l := by
    intro l hl
    rw [List.filter_eq_self]
    intro c hc
    simpa using hh c (hl c hc)
  have e₁ : h.take 8 ++ h.drop 8 = h := List.take_append_drop 8 h
  have e₂ : (h.drop 8).take 4 ++ h.drop 12 = h.drop 8 := by
    rw [show h.drop 12 = (h.drop 8).drop 4 by rw [List.drop_drop]]; exact List.take_append_drop 4 _
  have e₃ : (h.drop 12).take 4 ++ h.drop 16 = h.drop 12 := by
    rw [show h.drop 16 = (h.drop 12).drop 4 by rw [List.drop_drop]]; exact List.take_append_drop 4 _
  have e₄ : (h.drop 16).take 4 ++ h.drop 20 = h.drop 16 := by
    rw [show h.drop 20 = (h.drop 16).drop 4 by rw [List.drop_drop]]; exact List.take_append_drop 4 _
  have hyphen : ∀ l : List Char, ('-' :: l).filter (· ≠ '-') = l.filter (· ≠ '-') := by
    intro l; rw [List.filter_cons_of_neg (by simp)]
  simp only [hyphenated, List.filter_append, hyphen]
  rw [hkeep _ (fun c => List.mem_of_mem_take),
    hkeep _ (fun c hc => List.mem_of_mem_drop (List.mem_of_mem_take hc)),
    hkeep _ (fun c hc => List.mem_of_mem_drop (List.mem_of_mem_take hc)),
    hkeep _ (fun c hc => List.mem_of_mem_drop (List.mem_of_mem_take hc)),
    hkeep _ (fun c => List.mem_of_mem_drop)]
  simp only [List.append_assoc]
  rw [e₄, e₃, e₂, e₁]

theorem hex_isHexDigit (u : UUID) : ∀ c ∈ u.hex, IsHexDigit c :=
  fun _ hc => mem_fixedDigits (by decide) hc

/-- **`UUID(str(u))` is `u`.** -/
@[simp] theorem ofText_str (u : UUID) : ofText u.str = some u := by
  have hplain : ∀ {p : Char}, p ≠ '-' → (∀ d < 16, Nat.digitChar d ≠ p) →
      p ∉ hyphenated u.hex := by
    intro p hp hd hmem
    rcases mem_hyphenated hmem with h | h
    · obtain ⟨d, hlt, rfl⟩ := hex_isHexDigit u p h
      exact hd d hlt rfl
    · exact hp h
  have hu : 'u' ∉ hyphenated u.hex :=
    hplain (by decide) (fun d hd => (digitChar_plain d hd).2.1)
  have hbrace : ∀ c ∈ hyphenated u.hex, (decide (c = '{') || decide (c = '}')) = false := by
    intro c hc
    have h₁ : c ≠ '{' := by
      rintro rfl
      exact hplain (by decide) (fun d hd => (digitChar_plain d hd).2.2.1) hc
    have h₂ : c ≠ '}' := by
      rintro rfl
      exact hplain (by decide) (fun d hd => (digitChar_plain d hd).2.2.2.1) hc
    simp [h₁, h₂]
  have hdash : ∀ c ∈ u.hex, c ≠ '-' := by
    intro c hc
    obtain ⟨d, hd, rfl⟩ := hex_isHexDigit u c hc
    exact (digitChar_plain d hd).1
  have hlen : u.hex.length = 32 := length_fixedDigits 16 32 _
  have hint : intBase16 u.hex = some u.int.val := by
    rw [intBase16_eq_parseDigits (hex_isHexDigit u) (by rintro h; rw [h] at hlen; cases hlen)]
    exact parseDigits_fixedDigits (by decide) le_rfl (by have := u.int.isLt; norm_num at this ⊢; omega)
  have hpat₁ : "urn:".toList = 'u' :: ['r', 'n', ':'] := by decide
  have hpat₂ : "uuid:".toList = 'u' :: ['u', 'i', 'd', ':'] := by decide
  simp only [ofText, str, hpat₁, hpat₂, String.toList_ofList, replaceAll_of_not_mem hu,
    strip_of_forall hbrace, filter_hyphenated hdash, hlen, if_true, hint, u.int.isLt,
    dif_pos]

theorem str_injective : Function.Injective str := by
  intro u v h
  have := congrArg ofText h
  rwa [ofText_str, ofText_str, Option.some.injEq] at this

theorem str_ne_empty (u : UUID) : u.str ≠ "" := by
  intro h
  have hempty : ofText "" = none := by decide
  have hself := ofText_str u
  rw [h, hempty] at hself
  cases hself

/-! ### Names -/

/-- `uuid.UUID(bytes=bytes, version=version)`: the variant and the version are set. -/
def ofBytes (bytes : List Nat) (version : Nat) : UUID :=
  let int := Hash.ofBytes bytes
  let int := (int &&& (2 ^ 128 - 1 - 0xc000 <<< 48)) ||| 0x8000 <<< 48
  let int := (int &&& (2 ^ 128 - 1 - 0xf000 <<< 64)) ||| version <<< 76
  ⟨Fin.ofNat _ int⟩

/-- `uuid.uuid5`. -/
def uuid5 (nameSpace : UUID) (name : String) : UUID :=
  ofBytes ((sha1 (Hash.bigEndian 16 nameSpace.int.val ++ utf8 name)).take 16) 5

example : (uuid5 ⟨0x6ba7b8109dad11d180b400c04fd430c8⟩ "python.org").str =
    "886313e1-3b8a-5372-9b90-0c9aee199e5d" := by decide +kernel

end UUID

end Python
