import Cloudscale.Lib.Json

/-!
# What is written reads back

A document is `Plain` when it holds no fractional number and no text with a lone
surrogate, the keys of every object are distinct, and no integer has more digits than the
reader takes.  `value_chars` says that the reader, on the text of a plain
document with anything harmless after it, returns the document and what is
after it; `loadsWithin_chars` is the whole text and `loadsWithin_canonical` the text with
sorted keys.  A reader without a bound shows that the writer separates documents
(`chars_injective`, `canonical_injective`).

The bound of the nesting is the length of the text, which is why no measure of
a document is needed: an item's text is shorter than the array's.
-/

namespace Json

open Digits

/-! ### Strings -/

theorem hex4_fixedDigits {n : Nat} (h : n < 16 ^ 4) (rest : List Char) :
    hex4 (fixedDigits 16 4 n ++ rest) = some (n, rest) := by
  have htake : (fixedDigits 16 4 n ++ rest).take 4 = fixedDigits 16 4 n :=
    List.take_left' (length_fixedDigits 16 4 n)
  have hdrop : (fixedDigits 16 4 n ++ rest).drop 4 = rest :=
    List.drop_left' (length_fixedDigits 16 4 n)
  rw [hex4, htake, hdrop, if_pos (length_fixedDigits 16 4 n),
    parseDigits_fixedDigits (by decide) (by decide) h]
  rfl

theorem shortEscape_of_mem : ∀ p ∈ shortEscapes, p.2 ≠ 'u' ∧ shortEscape p.2 = some p.1 := by
  decide

theorem mem_of_lookup {c e : Char} (h : shortEscapes.lookup c = some e) :
    (c, e) ∈ shortEscapes := by
  obtain ⟨l₁, l₂, he, -⟩ := List.lookup_eq_some_iff.mp h
  rw [he]
  simp

theorem ne_of_lookup {c : Char} (h : shortEscapes.lookup c = none) : c ≠ '"' ∧ c ≠ '\\' := by
  rw [List.lookup_eq_none_iff] at h
  exact ⟨by simpa using h ('"', '"') (by decide), by simpa using h ('\\', '\\') (by decide)⟩

theorem stringChar_escape (c : Char) (rest : List Char) :
    stringChar (escape c ++ rest) = some (c.toNat, rest) := by
  cases hshort : shortEscapes.lookup c with
  | some e =>
    obtain ⟨hu, he⟩ := shortEscape_of_mem _ (mem_of_lookup hshort)
    simp only [escape, hshort, List.cons_append, List.nil_append, stringChar, if_true, if_neg hu, he,
      Option.map_some]
  | none =>
    by_cases h : c.toNat < 32
    · have hhex := hex4_fixedDigits (n := c.toNat) (by omega) rest
      have hhigh : ¬ (0xD800 ≤ c.toNat ∧ c.toNat ≤ 0xDBFF) := by omega
      simp only [escape, hshort, if_pos h, List.cons_append, stringChar, if_true, unicodeEscape,
        hhex, Option.bind_eq_bind, Option.bind_some, if_neg hhigh]
    · simp only [escape, hshort, if_neg h, List.cons_append, List.nil_append, stringChar,
        if_neg (ne_of_lookup hshort).2]

/-- An escaped character is not empty and does not end the string. -/
theorem escape_head (c : Char) : ∃ a as, escape c = a :: as ∧ a ≠ '"' := by
  cases hshort : shortEscapes.lookup c with
  | some e => exact ⟨'\\', [e], by simp only [escape, hshort], by decide⟩
  | none =>
    by_cases h : c.toNat < 32
    · exact ⟨'\\', _, by simp only [escape, hshort, if_pos h]; rfl, by decide⟩
    · exact ⟨c, [], by simp only [escape, hshort, if_neg h], (ne_of_lookup hshort).1⟩

section Escapes

variable {esc : Char → List Char}
  (hread : ∀ c rest, stringChar (esc c ++ rest) = some (c.toNat, rest))
  (hhead : ∀ c, ∃ a as, esc c = a :: as ∧ a ≠ '"')

include hread hhead

theorem stringTail_flatMap : ∀ {s : List Char} {fuel : Nat} (rest : List Char),
    s.length < fuel →
      stringTail fuel (s.flatMap esc ++ '"' :: rest) = some (s.map Char.toNat, rest) := by
  intro s
  induction s with
  | nil =>
    intro fuel rest h
    cases fuel with
    | zero => omega
    | succ fuel => rfl
  | cons c s ih =>
    intro fuel rest h
    cases fuel with
    | zero => omega
    | succ fuel =>
      obtain ⟨a, as, ha, hquote⟩ := hhead c
      have hchar := hread c (s.flatMap esc ++ '"' :: rest)
      have htail := @ih fuel rest (by simpa using h)
      rw [ha, List.cons_append] at hchar
      rw [List.flatMap_cons, List.append_assoc, ha, List.cons_append, stringTail, if_neg hquote,
        hchar]
      simp only [Option.bind_eq_bind, Option.bind_some, htail, List.map_cons]

omit hread in
theorem length_le_flatMap (s : List Char) : s.length ≤ (s.flatMap esc).length := by
  induction s with
  | nil => simp
  | cons c s ih =>
    obtain ⟨a, as, ha, -⟩ := hhead c
    rw [List.flatMap_cons, List.length_append, List.length_cons, ha, List.length_cons]
    omega

/-- A string reads back from any escapes whose characters read back. -/
theorem string_flatMap (s : String) (rest : List Char) :
    string (s.toList.flatMap esc ++ '"' :: rest) = some (s.toList.map Char.toNat, rest) := by
  have hlen := length_le_flatMap hhead s.toList
  rw [string, stringTail_flatMap hread hhead rest (by rw [List.length_append]; omega)]

end Escapes

theorem string_escaped (s : String) (rest : List Char) :
    string (s.toList.flatMap escape ++ '"' :: rest) = some (s.toList.map Char.toNat, rest) :=
  string_flatMap stringChar_escape escape_head s rest

theorem text?_toNat (s : String) : text? (s.toList.map Char.toNat) = some s := by
  have hvalid : ∀ point ∈ s.toList.map Char.toNat, point.isValidChar := by
    intro point hpoint
    obtain ⟨c, -, rfl⟩ := List.mem_map.mp hpoint
    exact c.valid
  have hchars : (s.toList.map Char.toNat).map Char.ofNat = s.toList := by
    have hid : Char.ofNat ∘ Char.toNat = id := funext Char.ofNat_toNat
    rw [List.map_map, hid, List.map_id]
  rw [text?, if_pos hvalid, hchars, String.ofList_toList]

theorem ofPoints_toNat (s : String) : ofPoints (s.toList.map Char.toNat) = .str s := by
  simp only [ofPoints, text?_toNat]

/-! ### Integers -/

/-- What may follow an integer: nothing that would continue it. -/
def EndsNumber (rest : List Char) : Prop :=
  ∀ c ∈ rest.head?, isDigit c = false ∧ c ≠ '.' ∧ c ≠ 'e' ∧ c ≠ 'E'

theorem endsNumber_nil : EndsNumber [] := by
  intro c hc
  cases hc

theorem endsNumber_cons {c : Char} {rest : List Char}
    (h : isDigit c = false ∧ c ≠ '.' ∧ c ≠ 'e' ∧ c ≠ 'E') : EndsNumber (c :: rest) := by
  intro d hd
  rw [List.head?_cons, Option.mem_some_iff] at hd
  exact hd ▸ h

theorem takeWhile_digits {ds rest : List Char} (hds : ∀ c ∈ ds, isDigit c = true)
    (hrest : EndsNumber rest) : (ds ++ rest).takeWhile isDigit = ds := by
  rw [List.takeWhile_append_of_pos hds]
  cases rest with
  | nil => simp
  | cons c rest => rw [List.takeWhile_cons, (hrest c rfl).1]; simp

theorem isDigit_toDigits (n : Nat) : ∀ c ∈ Nat.toDigits 10 n, isDigit c = true := by
  intro c hc
  obtain ⟨d, hd, rfl⟩ := mem_toDigits (by decide) hc
  have : ∀ d < 10, isDigit (Nat.digitChar d) = true := by decide
  exact this d hd

theorem integer_toDigits {n : Nat} {rest : List Char} (hrest : EndsNumber rest) :
    integer (Nat.toDigits 10 n ++ rest) = Nat.toDigits 10 n := by
  rcases Nat.eq_zero_or_pos n with rfl | hn
  · rfl
  · obtain ⟨c, cs, hc, hne⟩ := toDigits_head (by decide : 1 < 10) (by decide) hn
    have hall := takeWhile_digits (isDigit_toDigits n) hrest
    rw [hc] at hall
    rw [integer, if_neg, hc, hall]
    rw [hc]
    simpa using hne

theorem fraction_of_endsNumber {rest : List Char} (h : EndsNumber rest) : fraction rest = [] := by
  cases rest with
  | nil => rfl
  | cons c rest =>
    rw [fraction]
    intro cs hcs
    exact (h c rfl).2.1 (List.cons.inj hcs).1

theorem exponent_of_endsNumber {rest : List Char} (h : EndsNumber rest) : exponent rest = [] := by
  cases rest with
  | nil => rfl
  | cons c rest =>
    have hc := h c rfl
    simp only [exponent]
    rw [if_neg]
    rintro ⟨h | h, -⟩
    · exact hc.2.2.1 h
    · exact hc.2.2.2 h

/-- The digits of the integer are not too many. -/
def Fits (limit : DigitLimit) (n : Int) : Prop :=
  ∀ most ∈ limit, (Nat.toDigits 10 n.natAbs).length ≤ most

theorem fits_none (n : Int) : Fits none n := by
  intro most h
  cases h

theorem fits_of_natAbs_lt {n : Int} {k most : Nat} (hk : 0 < k) (hmost : k ≤ most)
    (h : n.natAbs < 10 ^ k) : Fits (some most) n := by
  rintro _ ⟨⟩
  exact ((Nat.length_toDigits_le_iff (by decide) hk).mpr h).trans hmost

section Numbers

variable {limit : DigitLimit}

theorem unsigned_toDigits (negative : Bool) (m : Nat) {rest : List Char} (hrest : EndsNumber rest)
    (hfits : Fits limit m) :
    unsigned limit negative (Nat.toDigits 10 m ++ rest) =
      some (.int (if negative then -m else m), rest) := by
  have hdrop : (Nat.toDigits 10 m ++ rest).drop (Nat.toDigits 10 m).length = rest :=
    List.drop_left' rfl
  have hparse := parseDigits_toDigits (b := 10) (by decide) (by decide) m
  have hlen : ∀ most ∈ limit, (Nat.toDigits 10 m).length ≤ most := hfits
  simp only [unsigned, integer_toDigits hrest, if_neg (toDigits_ne_nil (b := 10) (by decide) m),
    hdrop, fraction_of_endsNumber hrest, List.length_nil, List.drop_zero,
    exponent_of_endsNumber hrest, List.append_nil, if_true, if_pos hlen, hparse, Option.map_some]

theorem number_intChars {n : Int} (hfits : Fits limit n) {rest : List Char}
    (hrest : EndsNumber rest) : number limit (intChars n ++ rest) = some (.int n, rest) := by
  cases n with
  | ofNat m =>
    have hnum := unsigned_toDigits false m hrest hfits
    obtain ⟨c, cs, hc⟩ := List.exists_cons_of_ne_nil (toDigits_ne_nil (b := 10) (by decide) m)
    have hdigit := isDigit_toDigits m c (hc ▸ List.mem_cons_self)
    have hminus : c ≠ '-' := by rintro rfl; revert hdigit; decide
    rw [hc, List.cons_append] at hnum
    rw [intChars, hc, List.cons_append, number, if_neg hminus, hnum]
    rfl
  | negSucc m =>
    rw [intChars, List.cons_append, number, if_pos rfl,
      unsigned_toDigits true (m + 1) hrest hfits]
    rfl

end Numbers

/-! ### Sequences -/

/-- A text that starts with no blank and not with a closing bracket. -/
def Opens (cs : List Char) : Prop :=
  ∃ c rest, cs = c :: rest ∧ isBlank c = false ∧ c ≠ ']' ∧ c ≠ '}'

theorem skipBlank_cons {c : Char} (h : isBlank c = false) (cs : List Char) :
    skipBlank (c :: cs) = c :: cs := by
  rw [skipBlank, List.dropWhile_cons, h]
  simp

theorem Opens.skipBlank {cs : List Char} (h : Opens cs) (rest : List Char) :
    skipBlank (cs ++ rest) = cs ++ rest := by
  obtain ⟨c, cs, rfl, hc, -⟩ := h
  exact skipBlank_cons hc _

theorem Opens.length_pos {cs : List Char} (h : Opens cs) : 0 < cs.length := by
  obtain ⟨c, cs, rfl, -⟩ := h
  simp

section Sequences

variable {α β : Type} {parse : List Char → Option (β × List Char)} {read : α → β} {close : Char}
  {text : α → List Char}

theorem opens_commas {a : α} (as : List α) (h : Opens (text a)) :
    Opens (commas ((a :: as).map text)) := by
  obtain ⟨c, cs, hc, hopen⟩ := h
  cases as with
  | nil => exact ⟨c, cs, hc, hopen⟩
  | cons b as =>
    refine ⟨c, cs ++ ',' :: commas ((b :: as).map text), ?_, hopen⟩
    rw [List.map_cons, List.map_cons, commas, hc]
    rfl

theorem length_le_commas {as : List α} (h : ∀ a ∈ as, Opens (text a)) :
    as.length ≤ (commas (as.map text)).length := by
  induction as with
  | nil => simp
  | cons a as ih =>
    have ha := (h a List.mem_cons_self).length_pos
    have hrest := ih (fun x hx => h x (List.mem_cons_of_mem a hx))
    cases as with
    | nil => exact ha
    | cons b as =>
      simp only [List.map_cons, commas, List.length_append, List.length_cons] at hrest ⊢
      omega

theorem length_mem_commas (text : α → List Char) {a : α} {as : List α} (h : a ∈ as) :
    (text a).length ≤ (commas (as.map text)).length := by
  induction as with
  | nil => simp at h
  | cons b as ih =>
    cases as with
    | nil =>
      rw [List.mem_singleton.mp h]
      exact le_rfl
    | cons c as =>
      simp only [List.map_cons, commas, List.length_append, List.length_cons]
      rcases List.mem_cons.mp h with rfl | h
      · omega
      · have := ih h
        simp only [List.map_cons] at this
        omega

theorem elements_commas (hclose : close ≠ ',') (hblank : isBlank close = false)
    {rest : List Char} : ∀ {as : List α} {fuel : Nat}, as ≠ [] → as.length ≤ fuel →
    (∀ a ∈ as, Opens (text a)) →
    (∀ a ∈ as, ∀ c ∈ [close, ','], ∀ more,
      parse (text a ++ c :: more) = some (read a, c :: more)) →
    elements parse close fuel (commas (as.map text) ++ close :: rest) =
      some (as.map read, rest) := by
  intro as
  induction as with
  | nil => intro fuel h; exact absurd rfl h
  | cons a as ih =>
    intro fuel _ hf hopen hparse
    cases fuel with
    | zero => simp at hf
    | succ fuel =>
      cases as with
      | nil =>
        have ha := hparse a List.mem_cons_self close (by simp) rest
        simp only [List.map_cons, List.map_nil, commas, elements, ha, Option.bind_eq_bind,
          Option.bind_some, skipBlank_cons hblank, if_true]
      | cons b as =>
        have hopen' : ∀ x ∈ b :: as, Opens (text x) :=
          fun x hx => hopen x (List.mem_cons_of_mem a hx)
        have hrest := @ih fuel (by simp) (by simpa using hf) hopen'
          (fun x hx => hparse x (List.mem_cons_of_mem a hx))
        have ha := hparse a List.mem_cons_self ',' (by simp)
          (commas ((b :: as).map text) ++ close :: rest)
        have hskip := (opens_commas as (hopen' b List.mem_cons_self)).skipBlank (close :: rest)
        rw [List.map_cons, List.map_cons, commas, List.append_assoc, List.cons_append,
          ← List.map_cons, elements, ha]
        simp only [Option.bind_eq_bind, Option.bind_some, skipBlank_cons (c := ',') (by decide),
          if_neg hclose.symm, if_true, hskip, hrest]
        rfl

theorem bracketed_commas (hclose : close = ']' ∨ close = '}') {as : List α} {rest : List Char}
    (hopen : ∀ a ∈ as, Opens (text a))
    (hparse : ∀ a ∈ as, ∀ c ∈ [close, ','], ∀ more,
      parse (text a ++ c :: more) = some (read a, c :: more)) :
    bracketed parse close (commas (as.map text) ++ close :: rest) = some (as.map read, rest) := by
  have hcomma : close ≠ ',' := by rcases hclose with rfl | rfl <;> decide
  have hblank : isBlank close = false := by rcases hclose with rfl | rfl <;> decide
  cases as with
  | nil =>
    rw [List.map_nil, commas, List.nil_append, bracketed, skipBlank_cons hblank]
    simp
  | cons a as =>
    have hopens := opens_commas as (hopen a List.mem_cons_self)
    have hhead : (commas ((a :: as).map text) ++ close :: rest).head? ≠ some close := by
      obtain ⟨c, cs, hc, -, h₁, h₂⟩ := hopens
      rw [hc, List.cons_append, List.head?_cons, ne_eq, Option.some.injEq]
      rcases hclose with rfl | rfl
      · exact h₁
      · exact h₂
    have hlen := length_le_commas hopen
    rw [bracketed, hopens.skipBlank, if_neg hhead]
    exact elements_commas hcomma hblank (by simp) (by rw [List.length_append]; omega) hopen hparse

end Sequences

/-! ### Objects -/

theorem setKey_of_not_mem {k : String} {v : Json} : ∀ {ms : List (String × Json)},
    k ∉ ms.map Prod.fst → setKey k v ms = ms ++ [(k, v)] := by
  intro ms
  induction ms with
  | nil => intro _; rfl
  | cons m ms ih =>
    intro h
    rw [List.map_cons, List.mem_cons, not_or] at h
    rw [setKey, if_neg (fun he => h.1 he.symm), ih h.2, List.cons_append]

theorem dict_of_nodup {ms : List (String × Json)} (h : (ms.map Prod.fst).Nodup) :
    dict ms = ms := by
  have hfold : ∀ (ms acc : List (String × Json)), ((acc ++ ms).map Prod.fst).Nodup →
      ms.foldl (fun ms m => setKey m.1 m.2 ms) acc = acc ++ ms := by
    intro ms
    induction ms with
    | nil => intro acc _; simp
    | cons m ms ih =>
      intro acc hnodup
      have hm : m.1 ∉ acc.map Prod.fst := by
        rw [List.map_append, List.map_cons] at hnodup
        intro hmem
        exact (List.disjoint_of_nodup_append hnodup) hmem List.mem_cons_self
      rw [List.foldl_cons, setKey_of_not_mem hm, ih _ (by simpa using hnodup)]
      simp
  exact hfold ms [] h

/-- A member with the code points of its key, as the reader has it. -/
def pointed (m : String × Json) : List Nat × Json := (m.1.toList.map Char.toNat, m.2)

/-- The members that were written are read as an object of them. -/
theorem ofPairs_pointed {ms : List (String × Json)} (h : (ms.map Prod.fst).Nodup) :
    ofPairs (ms.map pointed) = .obj ms := by
  have htext : ∀ m ∈ ms, (text? (pointed m).1).map (·, (pointed m).2) = some m := by
    intro m _
    rw [pointed, text?_toNat, Option.map_some]
  have hmembers : (ms.map pointed).filterMap (fun m => (text? m.1).map (·, m.2)) = ms := by
    rw [List.filterMap_map]
    exact (List.filterMap_congr htext).trans List.filterMap_some
  have hall : ∀ m ∈ ms.map pointed, (text? m.1).isSome := by
    intro m hm
    obtain ⟨m', -, rfl⟩ := List.mem_map.mp hm
    rw [pointed, text?_toNat]
    rfl
  rw [ofPairs, hmembers, dict_of_nodup h, if_pos hall]

/-! ### Documents -/

section Documents

variable {limit : DigitLimit}

/-- No fractional number and no text with a lone surrogate, distinct keys in every object,
and integers of no more digits than the bound. -/
inductive Plain (limit : DigitLimit) : Json → Prop
  | null : Plain limit .null
  | bool (b : Bool) : Plain limit (.bool b)
  | int {n : Int} (fits : Fits limit n) : Plain limit (.int n)
  | str (s : String) : Plain limit (.str s)
  | arr {items : List Json} (each : ∀ v ∈ items, Plain limit v) : Plain limit (.arr items)
  | obj {members : List (String × Json)} (keys : (members.map Prod.fst).Nodup)
      (each : ∀ m ∈ members, Plain limit m.2) : Plain limit (.obj members)

theorem itemsHaveConstant_eq (items : List Json) :
    itemsHaveConstant items = items.any hasConstant := by
  induction items with
  | nil => rfl
  | cons v vs ih => rw [itemsHaveConstant, ih, List.any_cons]

theorem membersHaveConstant_eq (members : List (String × Json)) :
    membersHaveConstant members = members.any (fun m => hasConstant m.2) := by
  induction members with
  | nil => rfl
  | cons m ms ih => rw [membersHaveConstant, ih, List.any_cons]

theorem Plain.hasConstant {v : Json} (h : Plain limit v) : v.hasConstant = false := by
  induction h with
  | null | bool b | int fits | str s => rfl
  | arr each ih =>
    rw [Json.hasConstant, itemsHaveConstant_eq, List.any_eq_false]
    exact fun v hv => by rw [ih v hv]; decide
  | obj keys each ih =>
    rw [Json.hasConstant, membersHaveConstant_eq, List.any_eq_false]
    exact fun m hm => by rw [ih m hm]; decide

theorem intChars_head (n : Int) : ∃ c cs, intChars n = c :: cs ∧
    (isDigit c = true ∨ c = '-' ∧ ∃ d ds, cs = d :: ds ∧ isDigit d = true) := by
  have hnat : ∀ m, ∃ c cs, Nat.toDigits 10 m = c :: cs ∧ isDigit c = true := by
    intro m
    obtain ⟨c, cs, hc⟩ := List.exists_cons_of_ne_nil (toDigits_ne_nil (b := 10) (by decide) m)
    exact ⟨c, cs, hc, isDigit_toDigits m c (hc ▸ List.mem_cons_self)⟩
  cases n with
  | ofNat m =>
    obtain ⟨c, cs, hc, hdigit⟩ := hnat m
    exact ⟨c, cs, hc, Or.inl hdigit⟩
  | negSucc m => exact ⟨'-', _, rfl, Or.inr ⟨rfl, hnat (m + 1)⟩⟩

theorem isDigit_ne {c d : Char} (hc : isDigit c = true) (hd : isDigit d = false) : c ≠ d := by
  rintro rfl
  rw [hc] at hd
  cases hd

theorem opens_intChars (n : Int) : Opens (intChars n) := by
  obtain ⟨c, cs, hc, hfirst⟩ := intChars_head n
  refine ⟨c, cs, hc, ?_⟩
  rcases hfirst with hdigit | ⟨rfl, -⟩
  · refine ⟨?_, isDigit_ne hdigit (by decide), isDigit_ne hdigit (by decide)⟩
    simp [isBlank, isDigit_ne hdigit (d := ' ') (by decide),
      isDigit_ne hdigit (d := '\t') (by decide), isDigit_ne hdigit (d := '\n') (by decide),
      isDigit_ne hdigit (d := '\r') (by decide)]
  · exact ⟨by decide, by decide, by decide⟩

theorem Plain.opens {v : Json} (h : Plain limit v) : Opens (chars v) := by
  cases h with
  | null => exact ⟨_, _, rfl, by decide, by decide, by decide⟩
  | bool b => cases b <;> exact ⟨_, _, rfl, by decide, by decide, by decide⟩
  | int _ => exact opens_intChars _
  | str s => exact ⟨_, _, rfl, by decide, by decide, by decide⟩
  | arr _ => exact ⟨_, _, rfl, by decide, by decide, by decide⟩
  | obj _ _ => exact ⟨_, _, rfl, by decide, by decide, by decide⟩

theorem member_memberChars {parse : List Char → Option (Json × List Char)} {m : String × Json}
    {rest : List Char} (hopen : Opens (chars m.2))
    (hparse : parse (chars m.2 ++ rest) = some (m.2, rest)) :
    member parse (memberChars m ++ rest) = some (pointed m, rest) := by
  have hkey := string_escaped m.1 (':' :: (chars m.2 ++ rest))
  have hskip := hopen.skipBlank rest
  simp only [memberChars, stringChars, List.cons_append, List.append_assoc, List.nil_append, member,
    if_true, hkey, Option.bind_eq_bind, Option.bind_some, skipBlank_cons (c := ':') (by decide),
    hskip, hparse, pointed]

theorem word_eq_none {c : Char} {cs : List Char} (hc : c ∉ ['n', 't', 'f', 'N', 'I'])
    (hminus : c = '-' → cs.head? ≠ some 'I') : word (c :: cs) = none := by
  simp only [List.mem_cons, List.not_mem_nil, or_false, not_or] at hc
  obtain ⟨hn, ht, hf, hN, hI⟩ := hc
  have hlast : '-' = c → ¬ ['I', 'n', 'f', 'i', 'n', 'i', 't', 'y'] <+: cs := by
    rintro rfl ⟨t, ht⟩
    exact hminus rfl (by rw [← ht]; rfl)
  simpa [word, words, Ne.symm hn, Ne.symm ht, Ne.symm hf, Ne.symm hN, Ne.symm hI] using hlast

/-- **A written document reads back**, whatever stands after it. -/
theorem value_chars {v : Json} (h : Plain limit v) : ∀ {depth : Nat} {rest : List Char},
    (chars v).length ≤ depth → EndsNumber rest →
      value limit depth (chars v ++ rest) = some (v, rest) := by
  induction h with
  | null =>
    intro depth rest hd _
    cases depth with
    | zero => simp [chars] at hd
    | succ depth => simp [chars, value, word, words]
  | bool b =>
    intro depth rest hd _
    cases depth with
    | zero => cases b <;> simp [chars] at hd
    | succ depth => cases b <;> simp [chars, value, word, words]
  | int fits =>
    rename_i n
    intro depth rest hd hrest
    obtain ⟨c, cs, hc, hfirst⟩ := intChars_head n
    have hnum := number_intChars fits hrest
    rw [chars, hc] at hd
    rw [chars, hc, List.cons_append] at *
    cases depth with
    | zero => simp at hd
    | succ depth =>
      have hplain : c ≠ '"' ∧ c ≠ '{' ∧ c ≠ '[' ∧ c ∉ ['n', 't', 'f', 'N', 'I'] := by
        rcases hfirst with hdigit | ⟨rfl, -⟩
        · refine ⟨isDigit_ne hdigit (by decide), isDigit_ne hdigit (by decide),
            isDigit_ne hdigit (by decide), ?_⟩
          simp [isDigit_ne hdigit (d := 'n') (by decide), isDigit_ne hdigit (d := 't') (by decide),
            isDigit_ne hdigit (d := 'f') (by decide), isDigit_ne hdigit (d := 'N') (by decide),
            isDigit_ne hdigit (d := 'I') (by decide)]
        · decide
      have hminus : c = '-' → (cs ++ rest).head? ≠ some 'I' := by
        rintro rfl
        rcases hfirst with hdigit | ⟨-, d, ds, rfl, hdigit⟩
        · exact absurd hdigit (by decide)
        · simpa using isDigit_ne hdigit (by decide)
      rw [value, if_neg hplain.1, if_neg hplain.2.1, if_neg hplain.2.2.1,
        word_eq_none hplain.2.2.2 hminus, Option.none_or, hnum]
  | str s =>
    intro depth rest hd _
    cases depth with
    | zero => simp [chars, stringChars] at hd
    | succ depth =>
      have hstr := string_escaped s rest
      simp only [chars, stringChars, List.cons_append, List.append_assoc, List.nil_append, value,
        if_true, hstr, Option.map_some, ofPoints_toNat]
  | arr each ih =>
    rename_i items
    intro depth rest hd _
    cases depth with
    | zero => simp [chars] at hd
    | succ depth =>
      have hseq : bracketed (value limit depth) ']' (commas (items.map chars) ++ ']' :: rest) =
          some (items.map id, rest) := by
        refine bracketed_commas (Or.inl rfl) (fun v hv => (each v hv).opens) ?_
        intro v hv c hc more
        have hlen := length_mem_commas chars hv
        rw [chars, itemTexts_eq, List.length_cons, List.length_append] at hd
        refine ih v hv (by omega) ?_
        simp only [List.mem_cons, List.not_mem_nil, or_false] at hc
        rcases hc with rfl | rfl <;> exact endsNumber_cons (by decide)
      rw [chars, itemTexts_eq, List.cons_append, List.append_assoc, List.singleton_append, value,
        if_neg (by decide), if_neg (by decide), if_pos rfl, hseq, List.map_id]
      rfl
  | obj keys each ih =>
    rename_i members
    intro depth rest hd _
    cases depth with
    | zero => simp [chars] at hd
    | succ depth =>
      have hseq : bracketed (member (value limit depth)) '}'
          (commas (members.map memberChars) ++ '}' :: rest) =
            some (members.map pointed, rest) := by
        refine bracketed_commas (Or.inr rfl)
          (fun m _ => ⟨'"', _, rfl, by decide, by decide, by decide⟩) ?_
        intro m hm c hc more
        have hlen := length_mem_commas memberChars hm
        rw [chars, memberTexts_eq, List.length_cons, List.length_append] at hd
        refine member_memberChars (each m hm).opens (ih m hm ?_ ?_)
        · rw [memberChars, List.length_append, List.length_cons] at hlen
          omega
        · simp only [List.mem_cons, List.not_mem_nil, or_false] at hc
          rcases hc with rfl | rfl <;> exact endsNumber_cons (by decide)
      rw [chars, memberTexts_eq, List.cons_append, List.append_assoc, List.singleton_append,
        value, if_neg (by decide), if_pos rfl, hseq]
      exact congrArg (fun v => some (v, rest)) (ofPairs_pointed keys)

/-- **A whole text reads back.** -/
theorem loadsWithin_chars {v : Json} (h : Plain limit v) :
    loadsWithin limit (String.ofList (chars v)) = some v := by
  have hskip := h.opens.skipBlank []
  have hval : value limit ((chars v).length + 1) (chars v ++ []) = some (v, []) :=
    value_chars h (by omega) endsNumber_nil
  rw [List.append_nil] at hskip hval
  simp only [loadsWithin, String.toList_ofList, hskip, hval, Option.bind_eq_bind, Option.bind_some]
  simp [skipBlank]

/-- **The writer separates documents.** -/
theorem chars_injective {v w : Json} (hv : Plain none v) (hw : Plain none w)
    (h : chars v = chars w) : v = w := by
  have hread := loadsWithin_chars hv
  rw [h, loadsWithin_chars hw] at hread
  exact (Option.some.inj hread).symm

/-! ### Sorted keys -/

theorem sortItems_eq (items : List Json) : sortItems items = items.map sortKeys := by
  induction items with
  | nil => rfl
  | cons v vs ih => rw [sortItems, ih, List.map_cons]

theorem sortEach_eq (members : List (String × Json)) :
    sortEach members = members.map (fun m => (m.1, sortKeys m.2)) := by
  induction members with
  | nil => rfl
  | cons m ms ih => rw [sortEach, ih, List.map_cons]

theorem sortMembers_perm (members : List (String × Json)) :
    (sortMembers members).Perm members := List.perm_insertionSort _ members

theorem Plain.sortKeys {v : Json} (h : Plain limit v) : Plain limit v.sortKeys := by
  induction h with
  | null => exact .null
  | bool b => exact .bool b
  | int fits => exact .int fits
  | str s => exact .str s
  | arr each ih =>
    rw [Json.sortKeys, sortItems_eq]
    refine .arr (fun v hv => ?_)
    obtain ⟨w, hw, rfl⟩ := List.mem_map.mp hv
    exact ih w hw
  | obj keys each ih =>
    rw [Json.sortKeys, sortEach_eq]
    refine .obj ?_ (fun m hm => ?_)
    · rw [((sortMembers_perm _).map Prod.fst).nodup_iff, List.map_map]
      exact keys
    · obtain ⟨m', hm', rfl⟩ := List.mem_map.mp ((sortMembers_perm _).mem_iff.mp hm)
      exact ih m' hm'

/-- **The canonical text reads back** as the document with sorted keys. -/
theorem loadsWithin_canonical {v : Json} (h : Plain limit v) :
    loadsWithin limit (canonical v) = some v.sortKeys :=
  loadsWithin_chars h.sortKeys

theorem loads_canonical {v : Json} (h : Plain defaultLimit v) :
    loads (canonical v) = some v.sortKeys :=
  loadsWithin_canonical h

theorem lookup_perm {α : Type} {ms ms' : List (String × α)} (h : ms.Perm ms')
    (hkeys : (ms.map Prod.fst).Nodup) (k : String) : ms.lookup k = ms'.lookup k := by
  induction h with
  | nil => rfl
  | cons m _ ih =>
    obtain ⟨key, v⟩ := m
    rw [List.map_cons, List.nodup_cons] at hkeys
    rw [List.lookup_cons, List.lookup_cons, ih hkeys.2]
  | swap m m' _ =>
    obtain ⟨key, v⟩ := m
    obtain ⟨key', v'⟩ := m'
    simp only [List.map_cons, List.nodup_cons, List.mem_cons, not_or] at hkeys
    rw [List.lookup_cons, List.lookup_cons, List.lookup_cons, List.lookup_cons]
    by_cases hk : k = key'
    · have hne : (k == key) = false := by
        rw [beq_eq_false_iff_ne, hk]
        exact hkeys.1.1
      rw [hne]
    · rw [beq_eq_false_iff_ne.mpr hk]
  | trans h₁ _ ih₁ ih₂ =>
    rw [ih₁ hkeys, ih₂ ((h₁.map Prod.fst).nodup_iff.mp hkeys)]

theorem lookup_of_mem {k : String} {v : Json} : ∀ {ms : List (String × Json)},
    (ms.map Prod.fst).Nodup → (k, v) ∈ ms → ms.lookup k = some v := by
  intro ms
  induction ms with
  | nil => intro _ hm; cases hm
  | cons m ms ih =>
    intro hkeys hm
    obtain ⟨key, w⟩ := m
    rw [List.map_cons, List.nodup_cons] at hkeys
    rcases List.mem_cons.mp hm with heq | hmem
    · cases heq
      exact List.lookup_cons_self
    · have hne : k ≠ key := fun hk => hkeys.1 (List.mem_map.mpr ⟨_, hmem, hk⟩)
      rw [List.lookup_cons, beq_eq_false_iff_ne.mpr hne]
      exact ih hkeys.2 hmem

theorem lookup_sortEach (k : String) : ∀ ms : List (String × Json),
    (sortEach ms).lookup k = (ms.lookup k).map Json.sortKeys := by
  intro ms
  induction ms with
  | nil => rfl
  | cons m ms ih =>
    obtain ⟨key, v⟩ := m
    rw [sortEach, List.lookup_cons, List.lookup_cons, ih]
    cases k == key <;> rfl

theorem lookup_of_sortKeys_eq {ms ms' : List (String × Json)} (hms : Plain limit (.obj ms))
    (hms' : Plain limit (.obj ms')) (h : (Json.obj ms).sortKeys = (Json.obj ms').sortKeys) (k : String) :
    (ms.lookup k).map Json.sortKeys = (ms'.lookup k).map Json.sortKeys := by
  rw [Json.sortKeys, Json.sortKeys, Json.obj.injEq] at h
  have hkeys : ∀ {ms : List (String × Json)}, Plain limit (.obj ms) →
      ((sortEach ms).map Prod.fst).Nodup := by
    intro ms hms
    cases hms with
    | obj keys _ =>
      rw [sortEach_eq, List.map_map]
      exact keys
  rw [← lookup_sortEach, ← lookup_sortEach, lookup_perm (sortMembers_perm _).symm (hkeys hms), h,
    lookup_perm (sortMembers_perm _).symm (hkeys hms')]

theorem canonical_injective {v w : Json} (hv : Plain none v) (hw : Plain none w)
    (h : canonical v = canonical w) : v.sortKeys = w.sortKeys :=
  chars_injective hv.sortKeys hw.sortKeys (String.ofList_injective h)

end Documents

end Json
