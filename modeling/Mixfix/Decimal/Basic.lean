import Mixfix.Binary64.Rounding

/-!
# Scaled decimals

A decimal is a signed natural number of at most 96 bits, its coefficient, divided by a power of ten
with at most 28 digits after the point. Sums and products are computed exactly and then brought back
into range by dropping digits after the point, rounding once; when even a whole coefficient is too
large there is no result. Remainders are exact. A quotient is developed nine digits at a time until
it is exact or the coefficient is full.
-/

set_option autoImplicit false

namespace Mixfix

/-- A signed coefficient with its count of digits after the point. -/
structure Decimal where
  negative : Bool
  coefficient : Nat
  scale : Nat
deriving DecidableEq

namespace Decimal

/-- Coefficients stay below this limit. -/
def limit : Nat := Nat.pow 2 96

/-- The most digits after the point. -/
def maxScale : Nat := 28

/-- Zero without a sign. -/
def zero : Decimal := ⟨false, 0, 0⟩

/-- The decimal of an integer. -/
def ofInt (n : Int) : Decimal := ⟨n < 0, n.natAbs, 0⟩

/-- The opposite decimal; zero stays as it is. -/
def neg (x : Decimal) : Decimal :=
  if x.coefficient = 0 then x else { x with negative := !x.negative }

/-- The coefficient of the same decimal with more digits after the point. -/
def coefficientAt (x : Decimal) (scale : Nat) : Nat :=
  x.coefficient * Nat.pow 10 (scale - x.scale)

/-! ## Sums and products -/

/-- Brings a coefficient and a scale into range by dropping the fewest digits after the point. At
most as many digits as there are after the point can be dropped. -/
def fit (negative : Bool) (coefficient scale : Nat) : Option Decimal :=
  let least := scale - maxScale
  (List.range (scale + 1 - least)).findSome? fun extra =>
    let dropped := least + extra
    let rounded := roundHalfEven coefficient (Nat.pow 10 dropped)
    if rounded < limit then some ⟨negative, rounded, scale - dropped⟩ else none

/-- The sum. A zero gives the other operand as it is. -/
def add (x y : Decimal) : Option Decimal :=
  if x.coefficient = 0 then some y
  else if y.coefficient = 0 then some x
  else
    let scale := max x.scale y.scale
    let left := x.coefficientAt scale
    let right := y.coefficientAt scale
    if x.negative = y.negative then fit x.negative (left + right) scale
    else if right ≤ left then fit x.negative (left - right) scale
    else fit y.negative (right - left) scale

/-- The difference. -/
def sub (x y : Decimal) : Option Decimal := add x (neg y)

/-- The product. Two small coefficients far behind the point vanish. -/
def mul (x y : Decimal) : Option Decimal :=
  let scale := x.scale + y.scale
  if x.coefficient = 0 || y.coefficient = 0 then some zero
  else if x.coefficient < Nat.pow 2 32 && y.coefficient < Nat.pow 2 32 && 47 < scale then some zero
  else fit (x.negative != y.negative) (x.coefficient * y.coefficient) scale

/-! ## Remainders -/

/-- The remainder of the division toward zero; it has the sign of the dividend. -/
def rem (x y : Decimal) : Option Decimal :=
  if y.coefficient = 0 then none
  else if x.coefficient = 0 then some zero
  else
    let scale := max x.scale y.scale
    let left := x.coefficientAt scale
    let right := y.coefficientAt scale
    if left = right then some zero
    else if left < right then some x
    else some ⟨x.negative, left % right, scale⟩

/-! ## Quotients -/

/-- A quotient in the making: the digits so far, what remains to be divided, the digits after the
point (fewer than none while the divisor has more of them), and whether digits were developed beyond
what the operands' points ask for. -/
structure Development where
  digits : Nat
  remainder : Nat
  scale : Int
  developed : Bool

/-- How a development goes on. -/
inductive Progress where
  | continue (next : Development)
  | finished (last : Development)
  | overflow

/-- The most digits, up to nine, by which a coefficient and its scale can still grow. -/
def room (digits : Nat) (scale : Int) : Nat :=
  ((List.range 10).reverse.find? fun power =>
    power ≤ (maxScale - scale).toNat && digits * Nat.pow 10 power < limit).getD 0

/-- Appends digits to a development. A coefficient that runs over drops its last digit again,
rounded with regard to what remains. -/
def append (divisor : Nat) (power : Nat) (state : Development) : Progress :=
  let shifted := state.digits * Nat.pow 10 power
  if limit ≤ shifted then .overflow
  else
    let scale := state.scale + power
    let remaining := state.remainder * Nat.pow 10 power
    let digits := shifted + remaining / divisor
    let remainder := remaining % divisor
    if digits < limit then .continue ⟨digits, remainder, scale, state.developed⟩
    else if scale ≤ 0 then .overflow
    else .finished ⟨roundHalfEven (digits * divisor + remainder) (10 * divisor), 0, scale - 1,
      state.developed⟩

/-- One step of a development: it ends when the quotient is exact or its coefficient is full. -/
def develop (divisor : Nat) (state : Development) : Progress :=
  if state.remainder = 0 then
    if 0 ≤ state.scale then .finished state
    else append divisor (min 9 (-state.scale).toNat) state
  else
    let power := room state.digits state.scale
    if power < 9 && state.scale + power < 0 then .overflow
    else if power = 0 then
      let digits := roundHalfEven (state.digits * divisor + state.remainder) divisor
      if digits < limit then .finished ⟨digits, 0, state.scale, true⟩
      else .finished ⟨roundHalfEven digits 10, 0, state.scale - 1, true⟩
    else append divisor power { state with developed := true }

/-- Runs a development. Each step adds digits after the point, so the steps allowed for are never
used up. -/
def developAll (divisor : Nat) : Nat → Development → Option Development
  | 0, _ => none
  | steps + 1, state =>
    match develop divisor state with
    | .continue next => developAll divisor steps next
    | .finished last => some last
    | .overflow => none

/-- Drops a power of ten from a coefficient with zeros at its end, if the point allows it. -/
def dropPower (power : Nat) (digits scale : Nat) : Nat × Nat :=
  if power ≤ scale && digits % Nat.pow 10 power = 0 then (digits / Nat.pow 10 power, scale - power)
  else (digits, scale)

/-- Drops zeros at the end of a developed quotient: blocks of eight while there are any, and then
four, two and one of them. -/
def dropZeros (digits scale : Nat) : Nat × Nat :=
  let blocks := (List.range 3).foldl (fun state _ =>
    if state.1 % Nat.pow 2 32 = 0 then dropPower 8 state.1 state.2 else state) (digits, scale)
  [(16, 4), (4, 2), (2, 1)].foldl (fun state step =>
    if state.1 % step.1 = 0 then dropPower step.2 state.1 state.2 else state) blocks

/-- The quotient. -/
def div (x y : Decimal) : Option Decimal :=
  if y.coefficient = 0 then none
  else if x.coefficient = 0 then some zero
  else do
    let start : Development := ⟨x.coefficient / y.coefficient, x.coefficient % y.coefficient,
      (x.scale : Int) - y.scale, false⟩
    let last ← developAll y.coefficient 64 start
    let (coefficient, scale) :=
      if last.developed then dropZeros last.digits last.scale.toNat
      else (last.digits, last.scale.toNat)
    pure ⟨x.negative != y.negative, coefficient, scale⟩

end Decimal

end Mixfix
