/-!
# Binary64 numbers

The numbers of the 64-bit binary format: a NaN, and the signed magnitudes up to infinity. A
magnitude is given by its rank, its place in the ascending list of all magnitudes, which begins with
zero and ends with infinity. The rank of a magnitude is also its bit pattern, so consecutive ranks
share an exponent for `2 ^ 52` steps and then move on to the next one.

Order and numeric equality need no more than the ranks: a number's place on the line (`place?`) is
its rank with its sign, zero of either sign is at `0`, and a NaN has no place.
-/

set_option autoImplicit false

namespace Mixfix

/-- A number of the 64-bit binary format. -/
inductive Binary64 where
  /-- The result of an operation that has none. -/
  | nan
  /-- The magnitude of the given rank, with its sign. -/
  | signed (negative : Bool) (rank : Nat) (bounded : rank ≤ 0x7FF0000000000000)
deriving DecidableEq

namespace Binary64

/-! ## Ranks -/

/-- The rank of infinity, the last of the magnitudes. -/
def infinityRank : Nat := 0x7FF0000000000000

/-- The count of significands that share an exponent. -/
def binade : Nat := 0x10000000000000

/-- The exponent of the least magnitudes. -/
def leastExponent : Int := -1074

/-- The integer significand of a finite magnitude: below `binade` for the least magnitudes, and from
there to twice that for all others. -/
def significandOf (rank : Nat) : Nat :=
  if rank < binade then rank else rank % binade + binade

/-- The power of two that the significand of a finite magnitude is multiplied by. -/
def exponentOf (rank : Nat) : Int :=
  if rank < binade then leastExponent else leastExponent + (rank / binade - 1 : Nat)

/-! ## Particular numbers -/

/-- The number of a sign and a rank, where ranks beyond infinity count as infinity. -/
def ofRank (negative : Bool) (rank : Nat) : Binary64 :=
  .signed negative (min rank infinityRank) (Nat.min_le_right _ _)

/-- Zero with the given sign. -/
def zero (negative : Bool) : Binary64 := ofRank negative 0

/-- Infinity with the given sign. -/
def infinity (negative : Bool) : Binary64 := ofRank negative infinityRank

/-- Whether a number is neither infinite nor a NaN. -/
def isFinite : Binary64 → Bool
  | .nan => false
  | .signed _ rank _ => rank < infinityRank

/-- Whether a number is zero of either sign. -/
def isZero : Binary64 → Bool
  | .nan => false
  | .signed _ rank _ => rank == 0

/-- The same magnitude with the other sign. -/
def neg : Binary64 → Binary64
  | .nan => .nan
  | .signed negative rank bounded => .signed (!negative) rank bounded

/-! ## Order and numeric equality -/

/-- The place of a number on the line of ranks; a NaN has none. -/
def place? : Binary64 → Option Int
  | .nan => none
  | .signed negative rank _ => some (if negative then -(rank : Int) else rank)

/-- How two numbers compare; a NaN compares with nothing. -/
def compare? (x y : Binary64) : Option Ordering :=
  match x.place?, y.place? with
  | some a, some b => some (compare a b)
  | _, _ => none

/-- Numeric equality: zeros of either sign are equal and a NaN equals nothing. -/
def eq (x y : Binary64) : Bool :=
  match x.place?, y.place? with
  | some a, some b => a == b
  | _, _ => false

/-- Numeric order. -/
def lt (x y : Binary64) : Bool :=
  match x.place?, y.place? with
  | some a, some b => a < b
  | _, _ => false

/-- Numeric order, or numeric equality. -/
def le (x y : Binary64) : Bool :=
  match x.place?, y.place? with
  | some a, some b => a ≤ b
  | _, _ => false

end Binary64

end Mixfix
