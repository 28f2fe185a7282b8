import Mathlib.Algebra.Group.Nat.Defs
import Mathlib.Algebra.Ring.Int.Defs
import Mathlib.Data.Nat.Log

/-!
# Numbers of an INTEGER column of SQLite

A column of INTEGER affinity holds integers of 64 bits.  A sum that leaves them is
computed in floating point, and the column keeps the real it gives unless that
real is an integer strictly inside the range.  Sums of integers are whole
numbers, so a real is kept as the integer it is; `roundDouble` rounds to the 53
significant bits of a double, ties to even.

As long as every sum stays in the range the column adds integers (`add_integer`).
-/

namespace SqliteInteger

def InRange (n : Int) : Prop := -2 ^ 63 ≤ n ∧ n ≤ 2 ^ 63 - 1

instance (n : Int) : Decidable (InRange n) := inferInstanceAs (Decidable (_ ∧ _))

/-- The nearest whole number with 53 significant bits, ties to even. -/
def roundDouble (n : Int) : Int :=
  let unit := 2 ^ (n.natAbs.log2 - 52)
  let quotient := n.natAbs / unit
  let rest := n.natAbs % unit
  let rounded :=
    if unit < 2 * rest ∨ (2 * rest = unit ∧ quotient % 2 = 1) then quotient + 1 else quotient
  n.sign * (rounded * unit : Nat)

inductive SqliteNumber
  | integer (n : Int)
  | real (n : Int)
  deriving DecidableEq

namespace SqliteNumber

/-- `int(value)`. -/
def toInt : SqliteNumber → Int
  | integer n => n
  | real n => n

/-- INTEGER affinity: a real strictly between the smallest and the largest integer
is stored as an integer. -/
def ofReal (n : Int) : SqliteNumber :=
  if -2 ^ 63 < n ∧ n < 2 ^ 63 - 1 then integer n else real n

/-- `value + ?`, stored in the column. -/
def add : SqliteNumber → Int → SqliteNumber
  | integer n, d =>
    if InRange (n + d) then integer (n + d) else ofReal (roundDouble (roundDouble n + roundDouble d))
  | real n, d => ofReal (roundDouble (n + roundDouble d))

theorem add_integer {n d : Int} (h : InRange (n + d)) : (integer n).add d = integer (n + d) :=
  if_pos h

end SqliteNumber

end SqliteInteger
