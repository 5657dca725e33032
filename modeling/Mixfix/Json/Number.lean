import Mixfix.Binary64.Arithmetic
import Mixfix.Json.Basic
import Mixfix.Text.Numeral

/-!
# Numbers in JSON text

A number keeps a significand of 64 bits. Digits of the whole part that do not fit any more only
raise the power of ten, and digits of the fraction that do not fit are dropped. Without fraction and
exponent, and with all digits kept, the number is an integer; otherwise the significand is scaled by
its power of ten in floating point, in steps within the range of the format. A number that leaves
the range is an error; one that is too small is zero.
-/

set_option autoImplicit false

namespace Mixfix.Json

/-- The largest significand. -/
def maxSignificand : Nat := Nat.pow 2 64 - 1

/-- The largest power of ten that an exponent can spell. -/
def maxExponent : Nat := Nat.pow 2 31 - 1

/-- Takes in digits as long as the number they extend stays within a maximum; what is left starts
with the digit that did not fit, or with something else. -/
def absorb (maximum : Nat) : Nat → List Char → Nat × List Char
  | value, [] => (value, [])
  | value, c :: rest =>
    if Unicode.isAsciiDigit c then
      let extended := value * 10 + Numeral.digitValue c
      if extended ≤ maximum then absorb maximum extended rest else (value, c :: rest)
    else (value, c :: rest)

/-- Whether a text starts with a digit. -/
def startsWithDigit (text : List Char) : Bool := text.head?.any Unicode.isAsciiDigit

/-- The text behind its leading digits. -/
def skipDigits (text : List Char) : List Char := text.dropWhile Unicode.isAsciiDigit

/-- Scales a number by a power of ten within the range of the format. The steps allow for dividing
by `10 ^ 308`, which brings every significand to zero in three steps. -/
def scale : Nat → Binary64 → Int → Option Binary64
  | 0, x, _ => some x
  | steps + 1, x, exponent =>
    if exponent.natAbs ≤ 308 then
      let power := Binary64.ofNat (Nat.pow 10 exponent.natAbs)
      if 0 ≤ exponent then
        let scaled := x.mul power
        if scaled.isFinite then some scaled else none
      else some (x.div power)
    else if x.isZero then some x
    else if 0 ≤ exponent then none
    else scale steps (x.div (Binary64.ofNat (Nat.pow 10 308))) (exponent + 308)

/-- The floating-point number of a sign, a significand and a power of ten. -/
def ofParts (negative : Bool) (significand : Nat) (exponent : Int) : Option Json :=
  match scale 4 (Binary64.ofNat significand) exponent with
  | some x => some (.float (if negative then x.neg else x))
  | none => none

/-- Reads the digits of an exponent. -/
def readExponentDigits (negative : Bool) (significand : Nat) (exponent : Int)
    (negativeExponent : Bool) (text : List Char) : Option (Json × List Char) :=
  if startsWithDigit text then
    let (power, behind) := absorb maxExponent 0 text
    if startsWithDigit behind then
      if significand ≠ 0 && !negativeExponent then none
      else some (.float (Binary64.zero negative), skipDigits behind)
    else
      (ofParts negative significand (exponent + withSign negativeExponent power)).map (·, behind)
  else none

/-- Reads what follows the digits: an exponent, or nothing. -/
def readExponent (negative : Bool) (significand : Nat) (exponent : Int) :
    List Char → Option (Json × List Char)
  | [] => (ofParts negative significand exponent).map (·, [])
  | c :: rest =>
    if c = 'e' || c = 'E' then
      match rest with
      | '+' :: digits => readExponentDigits negative significand exponent false digits
      | '-' :: digits => readExponentDigits negative significand exponent true digits
      | digits => readExponentDigits negative significand exponent false digits
    else (ofParts negative significand exponent).map (·, c :: rest)

/-- Reads a fraction behind its point; `exponent` counts the digits that did not fit before it. -/
def readFraction (negative : Bool) (significand : Nat) (exponent : Int) (text : List Char) :
    Option (Json × List Char) :=
  let (extended, behind) := absorb maxSignificand significand text
  let taken := text.length - behind.length
  if startsWithDigit behind then
    readExponent negative extended (exponent - taken) (skipDigits behind)
  else if taken = 0 then none
  else readExponent negative extended (exponent - taken) behind

/-- The integer of a sign and a significand; a negative zero and negative numbers beyond 64 bits are
floating-point numbers. -/
def ofWhole (negative : Bool) (significand : Nat) : Json :=
  if negative then
    if significand = 0 || Nat.pow 2 63 < significand then .float (Binary64.ofNat significand).neg
    else .integer (-(significand : Int))
  else .integer significand

/-- Reads a number behind its sign. -/
def readUnsigned (negative : Bool) (text : List Char) : Option (Json × List Char) :=
  if !startsWithDigit text then none
  else if text.head? = some '0' && startsWithDigit (text.drop 1) then none
  else
    let (significand, behind) := absorb maxSignificand 0 text
    if startsWithDigit behind then
      let rest := skipDigits behind
      let exponent : Nat := behind.length - rest.length
      match rest with
      | '.' :: fraction => readFraction negative significand exponent fraction
      | rest => readExponent negative significand exponent rest
    else
      match behind with
      | '.' :: fraction => readFraction negative significand 0 fraction
      | c :: _ =>
        if c = 'e' || c = 'E' then readExponent negative significand 0 behind
        else some (ofWhole negative significand, behind)
      | [] => some (ofWhole negative significand, [])

/-- Reads a number. -/
def readNumber : List Char → Option (Json × List Char)
  | '-' :: text => readUnsigned true text
  | text => readUnsigned false text

end Mixfix.Json
