import Cloudscale.Lib.JsonRoundtrip

/-!
# JSON texts in ASCII

`asciiEscape` writes a character as ASCII: what is not printable is written as one code
unit, and what has none as the two of a surrogate pair.  `flatChars` is the text of an
object whose values are no arrays and no objects.

The reader gives a character back from either writer (`stringChar_asciiEscape`), and so an
object of distinct keys from its text (`loadsWithin_flatChars`).
-/

namespace Json

open Digits

/-! ### Writing -/

/-- The character as it stands in a string of ASCII. -/
def asciiEscape (c : Char) : List Char :=
  match shortEscapes.lookup c with
  | some e => ['\\', e]
  | none =>
    if 32 ≤ c.toNat ∧ c.toNat ≤ 126 then [c]
    else if c.toNat < 0x10000 then unitEscape c.toNat
    else unitEscape (0xD800 + (c.toNat - 0x10000) / 0x400) ++
      unitEscape (0xDC00 + (c.toNat - 0x10000) % 0x400)

def asciiString (s : String) : List Char := '"' :: (s.toList.flatMap asciiEscape ++ ['"'])

/-- The text of a value that is no array and no object. -/
def scalarChars : Json → List Char
  | .str s => asciiString s
  | v => chars v

def flatMember (m : String × Json) : List Char := asciiString m.1 ++ ':' :: scalarChars m.2

/-- The text of an object of such values, without blank space. -/
def flatChars (members : List (String × Json)) : List Char :=
  '{' :: (commas (members.map flatMember) ++ ['}'])

/-! ### Characters -/

theorem unicodeEscape_unit {n : Nat} (h : n < 0x10000) (hunit : ¬ (0xD800 ≤ n ∧ n ≤ 0xDBFF))
    (rest : List Char) : unicodeEscape (fixedDigits 16 4 n ++ rest) = some (n, rest) := by
  have hhex := hex4_fixedDigits (n := n) h rest
  simp only [unicodeEscape, hhex, Option.bind_eq_bind, Option.bind_some, if_neg hunit]

theorem unicodeEscape_pair {high low : Nat} (hhigh : 0xD800 ≤ high ∧ high ≤ 0xDBFF)
    (hlow : 0xDC00 ≤ low ∧ low ≤ 0xDFFF) (rest : List Char) :
    unicodeEscape (fixedDigits 16 4 high ++ (unitEscape low ++ rest)) =
      some (0x10000 + (high - 0xD800) * 0x400 + (low - 0xDC00), rest) := by
  have hfirst := hex4_fixedDigits (n := high) (by omega) (unitEscape low ++ rest)
  have hsecond := hex4_fixedDigits (n := low) (by omega) rest
  rw [unitEscape, List.cons_append, List.cons_append] at hfirst ⊢
  simp only [unicodeEscape, hfirst, hsecond, Option.bind_eq_bind, Option.bind_some, if_pos hhigh,
    if_pos hlow]

/-- A character is no surrogate and below the last code point. -/
theorem toNat_range (c : Char) : c.toNat < 0x110000 ∧ ¬ (0xD800 ≤ c.toNat ∧ c.toNat ≤ 0xDFFF) := by
  have hvalid : c.toNat < 0xd800 ∨ 0xdfff < c.toNat ∧ c.toNat < 0x110000 := c.valid
  omega

/-- **A character reads back from its ASCII escape.** -/
theorem stringChar_asciiEscape (c : Char) (rest : List Char) :
    stringChar (asciiEscape c ++ rest) = some (c.toNat, rest) := by
  cases hshort : shortEscapes.lookup c with
  | some e =>
    obtain ⟨hu, he⟩ := shortEscape_of_mem _ (mem_of_lookup hshort)
    simp only [asciiEscape, hshort, List.cons_append, List.nil_append, stringChar, if_true,
      if_neg hu, he, Option.map_some]
  | none =>
    obtain ⟨hlast, hsurrogate⟩ := toNat_range c
    by_cases hprint : 32 ≤ c.toNat ∧ c.toNat ≤ 126
    · have hcontrol : ¬ c.toNat < 32 := by omega
      simp only [asciiEscape, hshort, if_pos hprint, List.cons_append, List.nil_append, stringChar,
        if_neg (ne_of_lookup hshort).2, if_neg hcontrol]
    · by_cases hunit : c.toNat < 0x10000
      · have hread := unicodeEscape_unit hunit (fun h => hsurrogate ⟨h.1, by omega⟩) rest
        simp only [asciiEscape, hshort, if_neg hprint, if_pos hunit, unitEscape, List.cons_append,
          stringChar, if_true, hread]
      · have hread : unicodeEscape (fixedDigits 16 4 (0xD800 + (c.toNat - 0x10000) / 0x400) ++
            (unitEscape (0xDC00 + (c.toNat - 0x10000) % 0x400) ++ rest)) = _ :=
          unicodeEscape_pair (by omega) (by omega) rest
        have hnat : 0x10000 + (0xD800 + (c.toNat - 0x10000) / 0x400 - 0xD800) * 0x400 +
            (0xDC00 + (c.toNat - 0x10000) % 0x400 - 0xDC00) = c.toNat := by omega
        rw [hnat] at hread
        rw [asciiEscape, hshort]
        simp only [if_neg hprint, if_neg hunit]
        rw [List.append_assoc, unitEscape, List.cons_append, List.cons_append, stringChar,
          if_pos rfl]
        exact hread

theorem asciiEscape_head (c : Char) : ∃ a as, asciiEscape c = a :: as ∧ a ≠ '"' := by
  cases hshort : shortEscapes.lookup c with
  | some e => exact ⟨'\\', [e], by simp only [asciiEscape, hshort], by decide⟩
  | none =>
    simp only [asciiEscape, hshort]
    split_ifs
    · exact ⟨c, [], rfl, (ne_of_lookup hshort).1⟩
    · exact ⟨'\\', _, rfl, by decide⟩
    · exact ⟨'\\', _, rfl, by decide⟩

theorem string_ascii (s : String) (rest : List Char) :
    string (s.toList.flatMap asciiEscape ++ '"' :: rest) = some (s.toList.map Char.toNat, rest) :=
  string_flatMap stringChar_asciiEscape asciiEscape_head s rest

/-! ### Objects -/

section Objects

variable {limit : DigitLimit}

/-- No array, no object and no fractional number; an integer of no more digits than the bound. -/
inductive Scalar (limit : DigitLimit) : Json → Prop
  | null : Scalar limit .null
  | bool (b : Bool) : Scalar limit (.bool b)
  | int {n : Int} (fits : Fits limit n) : Scalar limit (.int n)
  | str (s : String) : Scalar limit (.str s)

theorem Scalar.opens {v : Json} (h : Scalar limit v) : Opens (scalarChars v) := by
  cases h with
  | null => exact (Plain.null : Plain none _).opens
  | bool b => exact (Plain.bool b : Plain none _).opens
  | int fits => exact (Plain.int fits).opens
  | str s => exact ⟨_, _, rfl, by decide, by decide, by decide⟩

theorem value_scalarChars {v : Json} (h : Scalar limit v) {depth : Nat} {rest : List Char}
    (hdepth : (scalarChars v).length ≤ depth) (hrest : EndsNumber rest) :
    value limit depth (scalarChars v ++ rest) = some (v, rest) := by
  cases h with
  | null => exact value_chars .null hdepth hrest
  | bool b => exact value_chars (.bool b) hdepth hrest
  | int fits => exact value_chars (.int fits) hdepth hrest
  | str s =>
    cases depth with
    | zero => simp [scalarChars, asciiString] at hdepth
    | succ depth =>
      have hstr := string_ascii s rest
      simp only [scalarChars, asciiString, List.cons_append, List.append_assoc, List.nil_append,
        value, if_true, hstr, Option.map_some, ofPoints_toNat]

theorem member_flatMember {parse : List Char → Option (Json × List Char)} {m : String × Json}
    {rest : List Char} (hopen : Opens (scalarChars m.2))
    (hparse : parse (scalarChars m.2 ++ rest) = some (m.2, rest)) :
    member parse (flatMember m ++ rest) = some (pointed m, rest) := by
  have hkey := string_ascii m.1 (':' :: (scalarChars m.2 ++ rest))
  have hskip := hopen.skipBlank rest
  simp only [flatMember, asciiString, List.cons_append, List.append_assoc, List.nil_append, member,
    if_true, hkey, Option.bind_eq_bind, Option.bind_some, skipBlank_cons (c := ':') (by decide),
    hskip, hparse, pointed]

/-- **The text of a flat object reads back.** -/
theorem loadsWithin_flatChars {members : List (String × Json)}
    (hkeys : (members.map Prod.fst).Nodup) (hscalar : ∀ m ∈ members, Scalar limit m.2) :
    loadsWithin limit (String.ofList (flatChars members)) = some (.obj members) := by
  have hseq : bracketed (member (value limit (flatChars members).length)) '}'
      (commas (members.map flatMember) ++ ['}']) = some (members.map pointed, []) := by
    refine bracketed_commas (Or.inr rfl)
      (fun m _ => ⟨'"', _, rfl, by decide, by decide, by decide⟩) ?_
    intro m hm c hc more
    have hlen := length_mem_commas flatMember hm
    refine member_flatMember (hscalar m hm).opens (value_scalarChars (hscalar m hm) ?_ ?_)
    · rw [flatMember, List.length_append, List.length_cons] at hlen
      rw [flatChars, List.length_cons, List.length_append]
      omega
    · simp only [List.mem_cons, List.not_mem_nil, or_false] at hc
      rcases hc with rfl | rfl <;> exact endsNumber_cons (by decide)
  have hskip : skipBlank (flatChars members) = flatChars members := skipBlank_cons (by decide) _
  have hvalue : value limit ((flatChars members).length + 1) (flatChars members) =
      some (.obj members, []) := by
    generalize hdepth : (flatChars members).length = depth at hseq ⊢
    rw [flatChars, value, if_neg (by decide), if_pos rfl, hseq]
    exact congrArg (fun v => some (v, [])) (ofPairs_pointed hkeys)
  simp only [loadsWithin, String.toList_ofList, hskip, hvalue, Option.bind_eq_bind, Option.bind_some]
  simp [skipBlank]

end Objects

end Json
