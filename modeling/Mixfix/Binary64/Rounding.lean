import Mixfix.Binary64.Basic

/-!
# Rounding to the nearest number

Every operation on `Binary64` that is not exact computes an exact quotient of natural numbers and
rounds it once: to the nearest magnitude, and halfway between two of them to the one with the even
significand. The exponent is chosen so that the quotient, measured in units of the last place, lies
in the binade of significands; counting the units then gives the rank directly, also when rounding
carries into the next binade and for magnitudes too small for a full significand.
-/

set_option autoImplicit false

namespace Mixfix

/-- An integer with the given sign and size. -/
def withSign (negative : Bool) (size : Nat) : Int :=
  if negative then -(size : Int) else size

/-- The natural number nearest to a quotient; halfway the even one. -/
def roundHalfEven (numerator denominator : Nat) : Nat :=
  let floor := numerator / denominator
  let twice := 2 * (numerator % denominator)
  if twice < denominator || (twice == denominator && floor % 2 == 0) then floor else floor + 1

namespace Binary64

/-- A quotient measured in units of a power of two, again as a quotient. -/
def inUnits (numerator denominator : Nat) (exponent : Int) : Nat × Nat :=
  (numerator * Nat.pow 2 (-exponent).toNat, denominator * Nat.pow 2 exponent.toNat)

/-- The exponent of the unit in the last place for a positive quotient. -/
def unitExponent (numerator denominator : Nat) : Int :=
  let rough := max ((numerator.log2 : Int) - denominator.log2 - 53) leastExponent
  let (top, bottom) := inUnits numerator denominator rough
  if top < 2 * binade * bottom then rough else rough + 1

/-- The rank of the magnitude nearest to a quotient, possibly beyond infinity. -/
def rankOfQuotient (numerator denominator : Nat) : Nat :=
  if numerator = 0 then 0
  else
    let exponent := unitExponent numerator denominator
    let (top, bottom) := inUnits numerator denominator exponent
    roundHalfEven top bottom + (exponent - leastExponent).toNat * binade

/-- The number nearest to a signed quotient. -/
def ofQuotient (negative : Bool) (numerator denominator : Nat) : Binary64 :=
  ofRank negative (rankOfQuotient numerator denominator)

/-- The number nearest to a signed multiple of a power of two. -/
def ofScaled (negative : Bool) (count : Nat) (exponent : Int) : Binary64 :=
  ofQuotient negative (count * Nat.pow 2 exponent.toNat) (Nat.pow 2 (-exponent).toNat)

/-- The number nearest to a natural number. -/
def ofNat (n : Nat) : Binary64 := ofQuotient false n 1

/-- The number nearest to an integer. -/
def ofInt (n : Int) : Binary64 := ofQuotient (n < 0) n.natAbs 1

/-- The number nearest to a signed multiple of a power of ten. Powers far outside the range of the
format are decided without computing them: from `10 ^ 310` on every magnitude is infinite, and a
count of `b` bits times `10 ^ -(330 + b)` is below half the least magnitude. -/
def ofDecimal (negative : Bool) (count : Nat) (exponent : Int) : Binary64 :=
  if count = 0 then zero negative
  else if 310 < exponent then infinity negative
  else if exponent < -(331 + count.log2 : Int) then zero negative
  else ofQuotient negative (count * Nat.pow 10 exponent.toNat) (Nat.pow 10 (-exponent).toNat)

end Binary64

end Mixfix
