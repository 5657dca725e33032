import Mixfix.Binary64.Rounding

/-!
# The fewest digits that read back

A finite magnitude is written with the fewest decimal digits that are nearer to it than to any other
magnitude. The decimals that round to it fill an interval around it, closed exactly when its
significand is even. For a given count of digits only the two decimals next to the magnitude need to
be tried; the first count with one of them in the interval is taken, the nearer of two, and an exact
tie goes the way the caller asks for.
-/

set_option autoImplicit false

namespace Mixfix

/-- A count of units of a power of ten. -/
structure Decimals where
  count : Nat
  exponent : Int
deriving DecidableEq

/-- Which of two equally near decimals is taken. -/
inductive Tie where
  /-- The larger one. -/
  | up
  /-- The one with the even last digit. -/
  | even
deriving DecidableEq

namespace Binary64

/-! ## The interval of a magnitude -/

/-- How a decimal compares with a multiple of a power of two. -/
def compareScaled (decimals : Decimals) (count : Nat) (exponent : Int) : Ordering :=
  compare (decimals.count * Nat.pow 10 decimals.exponent.toNat * Nat.pow 2 (-exponent).toNat)
    (count * Nat.pow 2 exponent.toNat * Nat.pow 10 (-decimals.exponent).toNat)

/-- Whether a decimal rounds to the magnitude. The bounds are halfway to the neighbours, in quarters
of the last place; the neighbour below the first of a binade is half as far away. -/
def roundsTo (rank : Nat) (decimals : Decimals) : Bool :=
  let significand := significandOf rank
  let exponent := exponentOf rank
  let below := if significand = binade && leastExponent < exponent then 1 else 2
  let closed := significand % 2 == 0
  let inside : Ordering → Ordering → Bool := fun order side =>
    order == side || (closed && order == .eq)
  inside (compareScaled decimals (4 * significand - below) (exponent - 2)) .gt &&
    inside (compareScaled decimals (4 * significand + 2) (exponent - 2)) .lt

/-! ## The search -/

/-- The exponent of the leading decimal digit of a magnitude other than zero. The estimate from the
binary exponent is at most one off. -/
def leadingExponent (rank : Nat) : Int :=
  let significand := significandOf rank
  let exponent := exponentOf rank
  let estimate := ((significand.log2 : Int) + exponent) * 30103 / 100000
  ([estimate + 1, estimate].find? fun guess =>
    compareScaled ⟨1, guess⟩ significand exponent != .gt).getD (estimate - 1)

/-- The nearest decimal with units of the given exponent that rounds to the magnitude. -/
def nearestDecimals? (tie : Tie) (rank : Nat) (unit : Int) : Option Decimals :=
  let significand := significandOf rank
  let exponent := exponentOf rank
  let floor := significand * Nat.pow 2 exponent.toNat * Nat.pow 10 (-unit).toNat /
    (Nat.pow 2 (-exponent).toNat * Nat.pow 10 unit.toNat)
  let lower : Decimals := ⟨floor, unit⟩
  let upper : Decimals := ⟨floor + 1, unit⟩
  let middle := compareScaled ⟨2 * floor + 1, unit⟩ (2 * significand) exponent
  let takesUpper := middle == .lt || (middle == .eq && (tie == .up || floor % 2 == 1))
  match roundsTo rank lower, roundsTo rank upper with
  | true, true => some (if takesUpper then upper else lower)
  | true, false => some lower
  | false, true => some upper
  | false, false => none

/-- Drops zeros at the end of a count, as many as the given steps allow. -/
def dropZeros : Nat → Decimals → Decimals
  | 0, decimals => decimals
  | steps + 1, decimals =>
    if decimals.count % 10 = 0 then dropZeros steps ⟨decimals.count / 10, decimals.exponent + 1⟩
    else decimals

/-- The shortest decimal that rounds to a magnitude other than zero and infinity. -/
def shortest (tie : Tie) (rank : Nat) : Decimals :=
  let leading := leadingExponent rank
  let found := (List.range 17).findSome? fun (digits : Nat) =>
    nearestDecimals? tie rank (leading - digits)
  dropZeros 17 (found.getD ⟨0, 0⟩)

end Binary64

end Mixfix
