import Mathlib
import Mixfix.Decimal.Binary
import Mixfix.Proofs.Binary64.Rounding
import Mixfix.Proofs.Text.Numerals

/-!
# Decimals of integers

The decimal of an integer has no digits after the point, so nothing of a sum, a difference or a product
of two of them is rounded: each is exact, or its coefficient has no room (`Yields`). A remainder is
always exact. A quotient that is an integer is complete before any digit behind the point is developed.
-/

set_option autoImplicit false

namespace Mixfix.Decimal

/-- An operation gives a decimal of an integer, or the integer has no room in a coefficient. -/
def Yields (result : Option Decimal) (n : Int) : Prop :=
  match result with
  | some x => x.toInt? = some n
  | none => limit ≤ n.natAbs

/-- Without digits after the point a decimal is its coefficient with its sign. -/
theorem toInt?_whole (negative : Bool) (coefficient : Nat) :
    toInt? ⟨negative, coefficient, 0⟩ = some (withSign negative coefficient) := by
  simp [toInt?, Nat.mod_one]

theorem toInt?_ofInt (n : Int) : (ofInt n).toInt? = some n := by
  rw [ofInt, toInt?_whole, Numeral.withSign_natAbs]

/-- A decimal is an integer exactly if its digits after the point are all zero. -/
theorem toInt?_eq_none_iff {x : Decimal} : x.toInt? = none ↔ ¬ 10 ^ x.scale ∣ x.coefficient := by
  rw [toInt?, Nat.dvd_iff_mod_eq_zero]
  split
  · next whole => exact iff_of_false nofun (not_not.mpr whole)
  · next fraction => exact iff_of_true rfl fraction

theorem natAbs_withSign (negative : Bool) (size : Nat) : (withSign negative size).natAbs = size := by
  cases negative
  · exact Int.natAbs_natCast size
  · exact (Int.natAbs_neg _).trans (Int.natAbs_natCast size)

/-- A size with a sign is an integer if it has the size and the sign of the integer. -/
theorem withSign_eq {negative : Bool} {size : Nat} {n : Int} (sizes : size = n.natAbs)
    (signs : n ≠ 0 → negative = decide (n < 0)) : withSign negative size = n := by
  by_cases zero : n = 0
  · subst zero
    cases negative <;> simp [withSign, sizes]
  · rw [signs zero, sizes, Numeral.withSign_natAbs]

/-! ## Sums, differences and products -/

/-- Without digits after the point there is nothing to drop. -/
theorem yields_fit (negative : Bool) (coefficient : Nat) :
    Yields (fit negative coefficient 0) (withSign negative coefficient) := by
  have only : fit negative coefficient 0 =
      if coefficient < limit then some ⟨negative, coefficient, 0⟩ else none := by
    simp only [fit, maxScale, Nat.zero_sub, Nat.sub_zero, Nat.zero_add, List.range_one,
      List.findSome?_cons, List.findSome?_nil, Nat.pow_eq, Nat.pow_zero, roundHalfEven_one]
    split <;> simp_all
  rw [only]
  split
  · exact toInt?_whole negative coefficient
  · next full =>
      rw [Yields, natAbs_withSign]
      exact Nat.le_of_not_lt full

theorem yields_fit_of_eq {negative : Bool} {coefficient : Nat} {n : Int}
    (sizes : coefficient = n.natAbs) (signs : n ≠ 0 → negative = decide (n < 0)) :
    Yields (fit negative coefficient 0) n := by
  have yields := yields_fit negative coefficient
  rwa [withSign_eq sizes signs] at yields

theorem yields_add (a b : Int) : Yields (add (ofInt a) (ofInt b)) (a + b) := by
  by_cases zero : a = 0
  · subst zero
    rw [Int.zero_add]
    exact toInt?_ofInt b
  by_cases zero' : b = 0
  · subst zero'
    have first : add (ofInt a) (ofInt 0) = some (ofInt a) := by
      simp [add, ofInt, zero]
    rw [first, Int.add_zero]
    exact toInt?_ofInt a
  have summed : add (ofInt a) (ofInt b) =
      if decide (a < 0) = decide (b < 0) then fit (a < 0) (a.natAbs + b.natAbs) 0
      else if b.natAbs ≤ a.natAbs then fit (a < 0) (a.natAbs - b.natAbs) 0
      else fit (b < 0) (b.natAbs - a.natAbs) 0 := by
    simp [add, ofInt, coefficientAt, zero, zero']
  rw [summed]
  simp only [decide_eq_decide]
  split
  · refine yields_fit_of_eq (by omega) fun _ => decide_eq_decide.mpr (by omega)
  · split
    · refine yields_fit_of_eq (by omega) fun _ => decide_eq_decide.mpr (by omega)
    · refine yields_fit_of_eq (by omega) fun _ => decide_eq_decide.mpr (by omega)

theorem neg_ofInt (n : Int) : neg (ofInt n) = ofInt (-n) := by
  by_cases zero : n = 0
  · subst zero
    rfl
  · have signs : (!decide (n < 0)) = decide (-n < 0) := by
      rw [← decide_not, decide_eq_decide]
      omega
    simp [neg, ofInt, zero, signs]

theorem yields_sub (a b : Int) : Yields (sub (ofInt a) (ofInt b)) (a - b) := by
  rw [sub, neg_ofInt, Int.sub_eq_add_neg]
  exact yields_add a (-b)

/-- The sign of a product of integers that are not zero. -/
theorem negative_mul {a b : Int} (zero : a ≠ 0) (zero' : b ≠ 0) :
    (decide (a < 0) != decide (b < 0)) = decide (a * b < 0) := by
  rw [Bool.eq_iff_iff, bne_iff_ne, decide_eq_true_eq, mul_neg_iff, ne_eq, decide_eq_decide]
  omega

theorem yields_mul (a b : Int) : Yields (mul (ofInt a) (ofInt b)) (a * b) := by
  by_cases zero : a = 0 ∨ b = 0
  · have product : mul (ofInt a) (ofInt b) = some Decimal.zero := by
      simp [mul, ofInt, zero]
    rw [product, mul_eq_zero.mpr zero]
    rfl
  · have product : mul (ofInt a) (ofInt b) =
        fit (decide (a < 0) != decide (b < 0)) (a.natAbs * b.natAbs) 0 := by
      simp [mul, ofInt, zero]
    rw [product]
    rw [not_or] at zero
    exact yields_fit_of_eq (Int.natAbs_mul a b).symm fun _ => negative_mul zero.1 zero.2

/-! ## Remainders -/

/-- The truncated remainder has the size of the remainder of the sizes and the sign of the dividend. -/
theorem withSign_mod (a b : Int) :
    withSign (decide (a < 0)) (a.natAbs % b.natAbs) = a.tmod b := by
  refine withSign_eq (Int.natAbs_tmod a b).symm fun nonzero => decide_eq_decide.mpr ?_
  constructor
  · intro negative
    have opposite := Int.tmod_nonneg b (Int.neg_nonneg_of_nonpos negative.le)
    rw [Int.neg_tmod] at opposite
    omega
  · intro negative
    by_contra positive
    have := Int.tmod_nonneg b (Int.not_lt.mp positive)
    omega

theorem yields_rem (a : Int) {b : Int} (nonzero : b ≠ 0) :
    Yields (rem (ofInt a) (ofInt b)) (a.tmod b) := by
  by_cases zero : a = 0
  · subst zero
    have vanishes : rem (ofInt 0) (ofInt b) = some Decimal.zero := by
      simp [rem, ofInt, nonzero]
    rw [vanishes, Int.zero_tmod]
    rfl
  have divided : rem (ofInt a) (ofInt b) =
      if a.natAbs = b.natAbs then some Decimal.zero
      else if a.natAbs < b.natAbs then some (ofInt a)
      else some ⟨a < 0, a.natAbs % b.natAbs, 0⟩ := by
    simp [rem, ofInt, coefficientAt, zero, nonzero]
  rw [divided, ← withSign_mod]
  split
  · next same =>
      rw [same, Nat.mod_self]
      cases decide (a < 0) <;> rfl
  split
  · next less =>
      rw [Nat.mod_eq_of_lt less]
      exact toInt?_whole _ _
  · exact toInt?_whole _ _

/-! ## Exact quotients -/

/-- A quotient that is an integer is complete before any digit behind the point. -/
theorem yields_div {a b : Int} (nonzero : b ≠ 0) (divides : b ∣ a) :
    Yields (div (ofInt a) (ofInt b)) (a / b) := by
  by_cases zero : a = 0
  · subst zero
    have vanishes : div (ofInt 0) (ofInt b) = some Decimal.zero := by
      simp [div, ofInt, nonzero]
    rw [vanishes, Int.zero_ediv]
    rfl
  obtain ⟨quotient, rfl⟩ := divides
  rw [Int.mul_ediv_cancel_left quotient nonzero]
  have complete : (b * quotient).natAbs / b.natAbs = quotient.natAbs := by
    rw [Int.natAbs_mul, Nat.mul_div_cancel_left _ (Int.natAbs_pos.mpr nonzero)]
  have exact : (b * quotient).natAbs % b.natAbs = 0 := by
    rw [Int.natAbs_mul, Nat.mul_mod_right]
  have divided : div (ofInt (b * quotient)) (ofInt b) =
      some ⟨decide (b * quotient < 0) != decide (b < 0), quotient.natAbs, 0⟩ := by
    simp [div, ofInt, developAll, develop, zero, nonzero, complete, exact]
  rw [divided, Yields, toInt?_whole, withSign_eq rfl fun other => ?_]
  rw [← negative_mul nonzero other]
  cases decide (b < 0) <;> cases decide (quotient < 0) <;> rfl

end Mixfix.Decimal
