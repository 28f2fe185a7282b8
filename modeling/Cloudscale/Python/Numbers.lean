import Cloudscale.Lib.Json
import Cloudscale.Python.Text

/-!
# `int(value)`

`intOfText` is `int(text)`: blanks around the digits, a sign, and single underscores between
digits.  A blank or a digit may be one of any script, and more digits than an interpreter
converts are refused.  `intOfLiteral` is the whole part of the float that a JSON
literal writes: the literal is rounded to the nearest double, ties to even
(`truncDouble`), and cut towards zero.
-/

namespace Python

open Digits

def splitSign : List Char → Bool × List Char
  | c :: cs => if c = '-' then (true, cs) else if c = '+' then (false, cs) else (false, c :: cs)
  | [] => (false, [])

def signed (negative : Bool) (n : ℕ) : Int := if negative then -n else n

def otherBlanks : List ℕ :=
  [0x85, 0xa0, 0x1680, 0x2000, 0x2001, 0x2002, 0x2003, 0x2004, 0x2005, 0x2006, 0x2007, 0x2008,
    0x2009, 0x200a, 0x2028, 0x2029, 0x202f, 0x205f, 0x3000]

/-- What `int` skips around its digits. -/
def isIntBlank (c : Char) : Bool := isBlank c || c.toNat ∈ otherBlanks

/-- The zeros of the scripts; the other decimal digits follow each. -/
def decimalZeros : List ℕ :=
  [0x30, 0x660, 0x6f0, 0x7c0, 0x966, 0x9e6, 0xa66, 0xae6, 0xb66, 0xbe6, 0xc66, 0xce6, 0xd66, 0xde6,
    0xe50, 0xed0, 0xf20, 0x1040, 0x1090, 0x17e0, 0x1810, 0x1946, 0x19d0, 0x1a80, 0x1a90, 0x1b50,
    0x1bb0, 0x1c40, 0x1c50, 0xa620, 0xa8d0, 0xa900, 0xa9d0, 0xa9f0, 0xaa50, 0xabf0, 0xff10, 0x104a0,
    0x10d30, 0x11066, 0x110f0, 0x11136, 0x111d0, 0x112f0, 0x11450, 0x114d0, 0x11650, 0x116c0,
    0x11730, 0x118e0, 0x11950, 0x11c50, 0x11d50, 0x11da0, 0x11f50, 0x16a60, 0x16ac0, 0x16b50,
    0x1d7ce, 0x1d7d8, 0x1d7e2, 0x1d7ec, 0x1d7f6, 0x1e140, 0x1e2f0, 0x1e4f0, 0x1e950, 0x1fbf0]

def decimalValue (c : Char) : Option ℕ :=
  (decimalZeros.find? (fun first => first ≤ c.toNat ∧ c.toNat < first + 10)).map (c.toNat - ·)

/-- `int(text)`. -/
def intOfText (text : String) : Option Int :=
  let (negative, digits) := splitSign (strip isIntBlank text.toList)
  let values := digits.filterMap decimalValue
  if (digits.splitOn '_').all (fun part => part ≠ [] ∧ part.all (decimalValue · |>.isSome)) ∧
      values.length ≤ Json.defaultMaxStrDigits then
    some (signed negative (values.foldl (fun n d => n * 10 + d) 0))
  else none

/-- The whole number nearest to `a / b`, ties to even. -/
def roundHalfEven (a b : ℕ) : ℕ :=
  let quotient := a / b
  let rest := a % b
  if b < 2 * rest ∨ (2 * rest = b ∧ quotient % 2 = 1) then quotient + 1 else quotient

/-- The whole part of the double nearest to `a / b`; none for an infinity. -/
def truncDouble (a b : ℕ) : Option ℕ :=
  let whole := a / b
  if whole < 2 ^ 53 then
    let scale := 2 ^ (if whole = 0 then 53 else 52 - whole.log2)
    some (roundHalfEven (a * scale) b / scale)
  else
    let unit := 2 ^ (whole.log2 - 52)
    let rounded := roundHalfEven a (b * unit) * unit
    if 2 ^ 1024 ≤ rounded then none else some rounded

/-- The exponent of ten after the digits of a literal. -/
def exponentOf : List Char → Int
  | _ :: cs =>
    let (negative, digits) := splitSign cs
    signed negative ((parseDigits 10 digits).getD 0)
  | [] => 0

/-- `int(float(literal))`; none where the float is infinite. -/
def intOfLiteral (literal : String) : Option Int :=
  let (negative, cs) := splitSign literal.toList
  let digits := cs.takeWhile Json.isDigit
  let rest := cs.dropWhile Json.isDigit
  let fraction := if rest.head? = some '.' then rest.tail.takeWhile Json.isDigit else []
  let rest := if rest.head? = some '.' then rest.tail.dropWhile Json.isDigit else rest
  let n := (parseDigits 10 (digits ++ fraction)).getD 0
  let exponent := exponentOf rest - fraction.length
  (truncDouble (n * 10 ^ exponent.toNat) (10 ^ (-exponent).toNat)).map (signed negative)

example : intOfText " -1_000\u00a0" = some (-1000) := by decide +kernel

example : intOfText "\u0661\u0662" = some 12 := by decide +kernel

example : intOfLiteral "1.9999999999999999999" = some 2 := by decide +kernel

end Python
