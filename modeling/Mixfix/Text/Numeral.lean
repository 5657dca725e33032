import Mixfix.Binary64.Rounding
import Mixfix.Unicode.Classes

/-!
# Numerals

The values of digit sequences, in base ten and sixteen, and of decimal numbers made of them.
-/

set_option autoImplicit false

namespace Mixfix.Numeral

/-- The value of a digit in base sixteen; digits of base ten are among them. -/
def digitValue (c : Char) : Nat :=
  if Unicode.isAsciiDigit c then c.toNat - '0'.toNat
  else if 'a' ≤ c && c ≤ 'f' then c.toNat - 'a'.toNat + 10
  else if 'A' ≤ c && c ≤ 'F' then c.toNat - 'A'.toNat + 10
  else 0

/-- The number a digit sequence stands for in a base. -/
def valueIn (base : Nat) (digits : List Char) : Nat :=
  digits.foldl (fun value c => value * base + digitValue c) 0

/-- The number a decimal digit sequence stands for. -/
def value (digits : List Char) : Nat := valueIn 10 digits

/-- Whether an integer is in the range of 64-bit integers. -/
def inRange (n : Int) : Bool :=
  -Int.pow 2 63 ≤ n && n < Int.pow 2 63

/-- The 64-bit integer equal to an integer, if there is one. -/
def toInt64? (n : Int) : Option Int64 :=
  if inRange n then some (Int64.ofInt n) else none

/-- The number nearest to a decimal with a whole part, a fraction and a power of ten. -/
def nearest (negative : Bool) (whole fraction : List Char) (power : Int) : Binary64 :=
  Binary64.ofDecimal negative (value (whole ++ fraction)) (power - fraction.length)

end Mixfix.Numeral
