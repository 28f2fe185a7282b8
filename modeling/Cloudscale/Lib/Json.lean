import Cloudscale.Lib.Digits
import Mathlib.Data.List.Sort
import Mathlib.Data.String.Basic

/-!
# JSON texts

`Json` is a JSON document; an object is the list of its members.  `chars` writes
a document without spaces, `sortKeys` puts the members of every object in the
order of their keys, and `canonical` does both.  `loads` reads a text back: blank
space between tokens, every escape, numbers with a fraction or an exponent (kept
as their literal), and of two members with one key the last.

An escape can stand for a surrogate that has no other half.  A text with one is no
`String`, so the reader keeps it as the list of its code points (`surrogates`), and of an
object with such a key the members under the others (`oddObj`).  An integer of too many
digits is refused.

The reader recurses on a bound of the nesting, and its loops on the length of
the text, so it computes; how deep an interpreter can recurse is left out.
-/

inductive Json where
  | null
  | bool (b : Bool)
  | int (n : Int)
  | float (literal : String)
  | str (s : String)
  | surrogates (points : List Nat)
  | arr (items : List Json)
  | obj (members : List (String × Json))
  | oddObj (members : List (String × Json))

namespace Json

open Digits

/-! ### Writing -/

/-- The characters with an escape of two characters. -/
def shortEscapes : List (Char × Char) :=
  [('"', '"'), ('\\', '\\'), ('\n', 'n'), ('\r', 'r'), ('\t', 't'), ('\x0c', 'f'), ('\x08', 'b')]

/-- The character as it stands in a string. -/
def escape (c : Char) : List Char :=
  match shortEscapes.lookup c with
  | some e => ['\\', e]
  | none => if c.toNat < 32 then '\\' :: 'u' :: fixedDigits 16 4 c.toNat else [c]

def stringChars (s : String) : List Char := '"' :: (s.toList.flatMap escape ++ ['"'])

def unitEscape (unit : Nat) : List Char := '\\' :: 'u' :: fixedDigits 16 4 unit

/-- A code point as it stands in a string; a surrogate as its code unit. -/
def escapePoint (point : Nat) : List Char :=
  if point.isValidChar then escape (Char.ofNat point) else unitEscape point

def intChars : Int → List Char
  | .ofNat n => Nat.toDigits 10 n
  | .negSucc n => '-' :: Nat.toDigits 10 (n + 1)

def commas : List (List Char) → List Char
  | [] => []
  | [t] => t
  | t :: u :: us => t ++ ',' :: commas (u :: us)

mutual

def chars : Json → List Char
  | .null => ['n', 'u', 'l', 'l']
  | .bool true => ['t', 'r', 'u', 'e']
  | .bool false => ['f', 'a', 'l', 's', 'e']
  | .int n => intChars n
  | .float literal => literal.toList
  | .str s => stringChars s
  | .surrogates points => '"' :: (points.flatMap escapePoint ++ ['"'])
  | .arr items => '[' :: (commas (itemTexts items) ++ [']'])
  | .obj members | .oddObj members => '{' :: (commas (memberTexts members) ++ ['}'])

def itemTexts : List Json → List (List Char)
  | [] => []
  | v :: vs => chars v :: itemTexts vs

def memberTexts : List (String × Json) → List (List Char)
  | [] => []
  | (k, v) :: ms => (stringChars k ++ ':' :: chars v) :: memberTexts ms

end

def memberChars (m : String × Json) : List Char := stringChars m.1 ++ ':' :: chars m.2

theorem itemTexts_eq (items : List Json) : itemTexts items = items.map chars := by
  induction items with
  | nil => rfl
  | cons v vs ih => rw [itemTexts, ih, List.map_cons]

theorem memberTexts_eq (members : List (String × Json)) :
    memberTexts members = members.map memberChars := by
  induction members with
  | nil => rfl
  | cons m ms ih => rw [memberTexts, ih, List.map_cons, memberChars]

/-- Members in the order of their keys. -/
def sortMembers (members : List (String × Json)) : List (String × Json) :=
  members.insertionSort (fun m m' => m.1 ≤ m'.1)

mutual

/-- Every object with its members in the order of their keys. -/
def sortKeys : Json → Json
  | .arr items => .arr (sortItems items)
  | .obj members => .obj (sortMembers (sortEach members))
  | .oddObj members => .oddObj (sortMembers (sortEach members))
  | .null => .null
  | .bool b => .bool b
  | .int n => .int n
  | .float literal => .float literal
  | .str s => .str s
  | .surrogates points => .surrogates points

def sortItems : List Json → List Json
  | [] => []
  | v :: vs => sortKeys v :: sortItems vs

def sortEach : List (String × Json) → List (String × Json)
  | [] => []
  | (k, v) :: ms => (k, sortKeys v) :: sortEach ms

end

/-- The canonical text: keys sorted, no blank space. -/
def canonical (v : Json) : String := String.ofList (chars (sortKeys v))

/-! ### Reading -/

def isBlank (c : Char) : Bool := c = ' ' || c = '\t' || c = '\n' || c = '\r'

def skipBlank (cs : List Char) : List Char := cs.dropWhile isBlank

def isDigit (c : Char) : Bool := '0' ≤ c && c ≤ '9'

def hex4 (cs : List Char) : Option (Nat × List Char) :=
  if (cs.take 4).length = 4 then (parseDigits 16 (cs.take 4)).map (·, cs.drop 4) else none

/-- What follows `\u`: one code unit, or the two of a surrogate pair. -/
def unicodeEscape (cs : List Char) : Option (Nat × List Char) := do
  let (unit, rest) ← hex4 cs
  if 0xD800 ≤ unit ∧ unit ≤ 0xDBFF then
    match rest with
    | '\\' :: 'u' :: second => do
      let (low, after) ← hex4 second
      if 0xDC00 ≤ low ∧ low ≤ 0xDFFF then
        some (0x10000 + (unit - 0xD800) * 0x400 + (low - 0xDC00), after)
      else some (unit, rest)
    | _ => some (unit, rest)
  else some (unit, rest)

/-- What a backslash and one character stand for; `\/` is only read. -/
def shortEscape (e : Char) : Option Char :=
  if e = '/' then some '/' else (shortEscapes.find? (fun p => p.2 = e)).map Prod.fst

/-- The code point of one character of a string; a control character must be escaped. -/
def stringChar : List Char → Option (Nat × List Char)
  | [] => none
  | c :: rest =>
    if c = '\\' then
      match rest with
      | [] => none
      | e :: rest =>
        if e = 'u' then unicodeEscape rest else (shortEscape e).map fun c => (c.toNat, rest)
    else if c.toNat < 32 then none
    else some (c.toNat, rest)

/-- The rest of a string after the opening quote. -/
def stringTail : Nat → List Char → Option (List Nat × List Char)
  | 0, _ => none
  | _ + 1, [] => none
  | fuel + 1, c :: cs =>
    if c = '"' then some ([], cs)
    else do
      let (a, rest) ← stringChar (c :: cs)
      let (as, rest) ← stringTail fuel rest
      some (a :: as, rest)

/-- A string after its opening quote, by its code points. -/
def string (cs : List Char) : Option (List Nat × List Char) := stringTail (cs.length + 1) cs

/-- The text of the code points, if no surrogate is among them. -/
def text? (points : List Nat) : Option String :=
  if ∀ point ∈ points, point.isValidChar then some (String.ofList (points.map Char.ofNat))
  else none

def ofPoints (points : List Nat) : Json :=
  match text? points with
  | some s => .str s
  | none => .surrogates points

/-- The fraction of a number: a point with digits after it. -/
def fraction : List Char → List Char
  | '.' :: cs => if cs.takeWhile isDigit = [] then [] else '.' :: cs.takeWhile isDigit
  | _ => []

def exponent : List Char → List Char
  | e :: cs =>
    let sign := cs.take (if cs.head? = some '+' ∨ cs.head? = some '-' then 1 else 0)
    let digits := (cs.drop sign.length).takeWhile isDigit
    if (e = 'e' ∨ e = 'E') ∧ digits ≠ [] then e :: (sign ++ digits) else []
  | [] => []

/-- The digits before the point: `0` stands alone. -/
def integer (cs : List Char) : List Char :=
  if cs.head? = some '0' then ['0'] else cs.takeWhile isDigit

/-- How many digits an integer may have, if there is a bound. -/
abbrev DigitLimit : Type := Option Nat

def unsigned (limit : DigitLimit) (negative : Bool) (cs : List Char) : Option (Json × List Char) :=
  let digits := integer cs
  if digits = [] then none
  else
    let rest := cs.drop digits.length
    let suffix := fraction rest ++ exponent (rest.drop (fraction rest).length)
    if suffix = [] then
      if ∀ most ∈ limit, digits.length ≤ most then
        (parseDigits 10 digits).map fun (n : Nat) => (.int (if negative then -n else n), rest)
      else none
    else
      let sign := if negative then ['-'] else []
      some (.float (String.ofList (sign ++ digits ++ suffix)), rest.drop suffix.length)

def number (limit : DigitLimit) : List Char → Option (Json × List Char)
  | [] => none
  | c :: cs => if c = '-' then unsigned limit true cs else unsigned limit false (c :: cs)

/-- The words that are documents, `NaN` and the infinities among them. -/
def words : List (List Char × Json) :=
  [(['n', 'u', 'l', 'l'], .null), (['t', 'r', 'u', 'e'], .bool true),
    (['f', 'a', 'l', 's', 'e'], .bool false), (['N', 'a', 'N'], .float "NaN"),
    (['I', 'n', 'f', 'i', 'n', 'i', 't', 'y'], .float "Infinity"),
    (['-', 'I', 'n', 'f', 'i', 'n', 'i', 't', 'y'], .float "-Infinity")]

def word (cs : List Char) : Option (Json × List Char) :=
  words.findSome? fun w => if w.1.isPrefixOf cs then some (w.2, cs.drop w.1.length) else none

section Sequences

variable {α : Type} (parse : List Char → Option (α × List Char)) (close : Char)

/-- One or more elements with commas between them, up to the closing bracket. -/
def elements : Nat → List Char → Option (List α × List Char)
  | 0, _ => none
  | fuel + 1, cs => do
    let (a, rest) ← parse cs
    match skipBlank rest with
    | [] => none
    | c :: rest =>
      if c = close then some ([a], rest)
      else if c = ',' then do
        let (as, rest) ← elements fuel (skipBlank rest)
        some (a :: as, rest)
      else none

/-- What stands between two brackets, after the opening one. -/
def bracketed (cs : List Char) : Option (List α × List Char) :=
  if (skipBlank cs).head? = some close then some ([], (skipBlank cs).drop 1)
  else elements parse close cs.length (skipBlank cs)

end Sequences

/-- A key, a colon and a value. -/
def member (parse : List Char → Option (Json × List Char)) :
    List Char → Option ((List Nat × Json) × List Char)
  | [] => none
  | c :: cs =>
    if c = '"' then do
      let (key, rest) ← string cs
      match skipBlank rest with
      | [] => none
      | c :: rest =>
        if c = ':' then do
          let (v, rest) ← parse (skipBlank rest)
          some ((key, v), rest)
        else none
    else none

/-- Set a key of a dictionary that keeps the order of first insertion. -/
def setKey (k : String) (v : Json) : List (String × Json) → List (String × Json)
  | [] => [(k, v)]
  | m :: ms => if m.1 = k then (k, v) :: ms else m :: setKey k v ms

def dict (pairs : List (String × Json)) : List (String × Json) :=
  pairs.foldl (fun ms m => setKey m.1 m.2 ms) []

/-- The object of the pairs that were read. -/
def ofPairs (pairs : List (List Nat × Json)) : Json :=
  let members := dict (pairs.filterMap fun m => (text? m.1).map (·, m.2))
  if ∀ m ∈ pairs, (text? m.1).isSome then .obj members else .oddObj members

/-- A document at the front of a text, nested at most as deep as the bound. -/
def value (limit : DigitLimit) : Nat → List Char → Option (Json × List Char)
  | 0, _ => none
  | _ + 1, [] => none
  | depth + 1, c :: cs =>
    if c = '"' then (string cs).map (fun (points, rest) => (ofPoints points, rest))
    else if c = '{' then
      (bracketed (member (value limit depth)) '}' cs).map (fun (ms, rest) => (ofPairs ms, rest))
    else if c = '[' then
      (bracketed (value limit depth) ']' cs).map (fun (vs, rest) => (.arr vs, rest))
    else (word (c :: cs)).or (number limit (c :: cs))

def loadsWithin (limit : DigitLimit) (text : String) : Option Json := do
  let (v, rest) ← value limit (text.toList.length + 1) (skipBlank text.toList)
  if skipBlank rest = [] then some v else none

/-- The digits of an integer that an interpreter converts, unless it is told otherwise. -/
def defaultMaxStrDigits : Nat := 4300

abbrev defaultLimit : DigitLimit := some defaultMaxStrDigits

/-- A whole text; where there is none, a `ValueError` is raised. -/
def loads (text : String) : Option Json := loadsWithin defaultLimit text

mutual

/-- Whether `NaN` or an infinity stands in the document. -/
def hasConstant : Json → Bool
  | .float literal => literal ∈ ["NaN", "Infinity", "-Infinity"]
  | .arr items => itemsHaveConstant items
  | .obj members | .oddObj members => membersHaveConstant members
  | .null | .bool _ | .int _ | .str _ | .surrogates _ => false

def itemsHaveConstant : List Json → Bool
  | [] => false
  | v :: vs => hasConstant v || itemsHaveConstant vs

def membersHaveConstant : List (String × Json) → Bool
  | [] => false
  | (_, v) :: ms => hasConstant v || membersHaveConstant ms

end

end Json
