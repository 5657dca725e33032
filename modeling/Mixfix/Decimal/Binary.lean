import Mixfix.Binary64.Arithmetic
import Mixfix.Decimal.Basic

/-!
# Decimals and binary numbers

A binary number becomes a decimal by trading its powers of two for powers of ten one at a time: each
power of five that is missing is multiplied in while the coefficient has room, and paid for with a
halving otherwise. The coefficient is then cut to 28 digits after the point and to the precision of
the binary format, and freed of zeros at its end. Infinities, NaN and numbers too large for the
coefficient have no decimal.

The way back is exact for integers. A fraction is the sum of its whole part and its digits after the
point, rounded at the last of them.
-/

set_option autoImplicit false

namespace Mixfix.Decimal

/-! ## From binary -/

/-- A coefficient with the power of ten it is multiplied by. -/
structure Approximation where
  coefficient : Nat
  exponent : Int

/-- Trades the given count of halvings for powers of ten. -/
def spendHalves : Nat → Approximation → Approximation
  | 0, state => state
  | halves + 1, state =>
    if state.coefficient % 2 = 0 then
      spendHalves halves ⟨state.coefficient / 2, state.exponent + 1⟩
    else if 5 * state.coefficient < limit then
      spendHalves halves ⟨5 * state.coefficient, state.exponent⟩
    else spendHalves halves ⟨state.coefficient / 2, state.exponent + 1⟩

/-- Trades the given count of doublings for powers of ten. -/
def spendDoubles : Nat → Approximation → Option Approximation
  | 0, state => some state
  | doubles + 1, state =>
    if state.coefficient < limit / 2 then
      spendDoubles doubles ⟨2 * state.coefficient, state.exponent - 1⟩
    else if (doubles + 1 : Nat) < 2 * state.exponent then none
    else spendDoubles doubles ⟨state.coefficient / 5, state.exponent⟩

/-- Multiplies powers of ten into the coefficient. -/
def raise : Nat → Nat → Option Nat
  | 0, coefficient => some coefficient
  | powers + 1, coefficient =>
    if 10 * coefficient < limit then raise powers (10 * coefficient) else none

/-- Drops the last digit of a coefficient, rounding a half up. -/
def dropDigit (coefficient : Nat) : Nat :=
  if 5 ≤ coefficient % 10 then coefficient / 10 + 1 else coefficient / 10

/-- Cuts the given count of digits after the point off; a coefficient without whole digits left is
zero with no digits after the point. -/
def cutDigits (scale : Nat) : Nat → Nat → Nat × Nat
  | 0, coefficient => (coefficient, scale)
  | digits + 1, coefficient =>
    if coefficient < 10 then (0, 0) else cutDigits scale digits (dropDigit coefficient)

/-- Drops digits after the point while the coefficient exceeds the binary precision. -/
def cutPrecision : Nat → Nat → Nat × Nat
  | 0, coefficient => (coefficient, 0)
  | scale + 1, coefficient =>
    if Binary64.binade ≤ coefficient then cutPrecision scale (dropDigit coefficient)
    else (coefficient, scale + 1)

/-- Drops zeros after the point. -/
def cutZeros : Nat → Nat → Nat × Nat
  | 0, coefficient => (coefficient, 0)
  | scale + 1, coefficient =>
    if coefficient % 10 = 0 then cutZeros scale (coefficient / 10) else (coefficient, scale + 1)

/-- The decimal of a finite magnitude. -/
def ofMagnitude? (negative : Bool) (rank : Nat) : Option Decimal := do
  let exponent := Binary64.exponentOf rank
  let start : Approximation := ⟨Binary64.significandOf rank, exponent⟩
  let traded ← spendDoubles exponent.toNat (spendHalves (-exponent).toNat start)
  let coefficient ← raise traded.exponent.toNat traded.coefficient
  let scale := (-traded.exponent).toNat
  let (coefficient, scale) := cutDigits (min scale maxScale) (scale - maxScale) coefficient
  let (coefficient, scale) := cutPrecision scale coefficient
  let (coefficient, scale) := cutZeros scale coefficient
  pure ⟨negative, coefficient, scale⟩

/-- The decimal of a binary number, if it has one. -/
def ofBinary? : Binary64 → Option Decimal
  | .nan => none
  | .signed negative rank _ =>
    if rank = Binary64.infinityRank then none
    else if rank = 0 then some ⟨negative, 0, 0⟩
    else ofMagnitude? negative rank

/-! ## To integers and to binary -/

/-- The integer a decimal is, if it is one. -/
def toInt? (x : Decimal) : Option Int :=
  let unit := Nat.pow 10 x.scale
  if x.coefficient % unit = 0 then some (withSign x.negative (x.coefficient / unit)) else none

/-- The binary number of a decimal. -/
def toBinary (x : Decimal) : Binary64 :=
  let unit := Nat.pow 10 x.scale
  let whole := Binary64.ofNat (x.coefficient / unit)
  let fraction := (Binary64.ofNat (x.coefficient % unit)).div (Binary64.ofNat unit)
  let size :=
    if x.scale = 0 then Binary64.ofNat x.coefficient
    else if fraction.isZero then whole
    else ((whole.add fraction).mul (Binary64.ofNat unit)).round.div (Binary64.ofNat unit)
  if x.negative then size.neg else size

end Mixfix.Decimal
