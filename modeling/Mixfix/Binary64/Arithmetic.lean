import Mixfix.Binary64.Rounding

/-!
# Arithmetic

Sum, difference, product, quotient and remainder. Two finite numbers give the exact result, rounded
once; the remainder is always exact. The cases with an infinity or a zero follow the format's rules:
a sum of opposite infinities, a product of zero and infinity, and a quotient of two zeros or two
infinities have no result.
-/

set_option autoImplicit false

namespace Mixfix.Binary64

/-! ## Finite operands -/

/-- A finite magnitude in units of a power of two that divides it. -/
def unitsOf (rank : Nat) (exponent : Int) : Nat :=
  significandOf rank * Nat.pow 2 (exponentOf rank - exponent).toNat

/-- The sum of two finite numbers. A sum of zero is negative only when both numbers are. -/
def addFinite (negative : Bool) (rank : Nat) (negative' : Bool) (rank' : Nat) : Binary64 :=
  let exponent := min (exponentOf rank) (exponentOf rank')
  let sum := withSign negative (unitsOf rank exponent) + withSign negative' (unitsOf rank' exponent)
  if sum = 0 then zero (negative && negative') else ofScaled (sum < 0) sum.natAbs exponent

/-! ## Operations -/

/-- The sum. -/
def add : Binary64 → Binary64 → Binary64
  | .signed negative rank _, .signed negative' rank' _ =>
    if rank = infinityRank then
      if rank' = infinityRank && negative != negative' then .nan else infinity negative
    else if rank' = infinityRank then infinity negative'
    else addFinite negative rank negative' rank'
  | _, _ => .nan

/-- The difference. -/
def sub (x y : Binary64) : Binary64 := add x (neg y)

/-- The product. -/
def mul : Binary64 → Binary64 → Binary64
  | .signed negative rank _, .signed negative' rank' _ =>
    let sign := negative != negative'
    if rank = infinityRank || rank' = infinityRank then
      if rank = 0 || rank' = 0 then .nan else infinity sign
    else
      ofScaled sign (significandOf rank * significandOf rank') (exponentOf rank + exponentOf rank')
  | _, _ => .nan

/-- The quotient. -/
def div : Binary64 → Binary64 → Binary64
  | .signed negative rank _, .signed negative' rank' _ =>
    let sign := negative != negative'
    if rank = infinityRank then
      if rank' = infinityRank then .nan else infinity sign
    else if rank' = infinityRank then zero sign
    else if rank' = 0 then
      if rank = 0 then .nan else infinity sign
    else
      let exponent := exponentOf rank - exponentOf rank'
      ofQuotient sign (significandOf rank * Nat.pow 2 exponent.toNat)
        (significandOf rank' * Nat.pow 2 (-exponent).toNat)
  | _, _ => .nan

/-- The remainder of the division toward zero; it has the sign of the dividend. -/
def rem : Binary64 → Binary64 → Binary64
  | .signed negative rank bounded, .signed _ rank' _ =>
    if rank = infinityRank || rank' = 0 then .nan
    else if rank' = infinityRank then .signed negative rank bounded
    else
      let exponent := min (exponentOf rank) (exponentOf rank')
      ofScaled negative (unitsOf rank exponent % unitsOf rank' exponent) exponent
  | _, _ => .nan

/-- The power, as the platform computes it from the bit patterns. -/
def pow (x y : Binary64) : Binary64 :=
  ofBits (Float.pow (toFloat x) (toFloat y)).toBits
where
  /-- The bit pattern of a number. -/
  toFloat : Binary64 → Float
    | .nan => Float.ofBits 0x7FF8000000000000
    | .signed negative rank _ =>
      Float.ofBits (if negative then 0x8000000000000000 + rank.toUInt64 else rank.toUInt64)
  /-- The number of a bit pattern. -/
  ofBits (bits : UInt64) : Binary64 :=
    let rank := bits.toNat % 0x8000000000000000
    if infinityRank < rank then .nan else ofRank (0x8000000000000000 ≤ bits.toNat) rank

/-! ## Whole numbers -/

/-- The integer a number is, if it is one. -/
def toInt? : Binary64 → Option Int
  | .nan => none
  | .signed negative rank _ =>
    if rank = infinityRank then none
    else
      let exponent := exponentOf rank
      let count := significandOf rank * Nat.pow 2 exponent.toNat
      let unit := Nat.pow 2 (-exponent).toNat
      if count % unit = 0 then some (withSign negative (count / unit)) else none

/-- Whether a number is whole. -/
def isWhole (x : Binary64) : Bool := x.toInt?.isSome

/-- The nearest whole number; halfway the one farther from zero. -/
def round : Binary64 → Binary64
  | .nan => .nan
  | .signed negative rank bounded =>
    if rank = infinityRank || 0 ≤ exponentOf rank then .signed negative rank bounded
    else
      let unit := Nat.pow 2 (-exponentOf rank).toNat
      ofQuotient negative ((2 * significandOf rank + unit) / (2 * unit)) 1

/-- Whether a magnitude is below a natural number. -/
def magnitudeBelow (x : Binary64) (bound : Nat) : Bool :=
  match x with
  | .nan => false
  | .signed _ rank _ => rank < rankOfQuotient bound 1

end Mixfix.Binary64
