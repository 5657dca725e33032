import Mixfix.Binary64.Arithmetic
import Mixfix.Proofs.Binary64.ReadBack

/-!
# Powers of two below results

Rounding does not take a number below a magnitude, and the powers of two in the normal range are
magnitudes. So a power of two that is below an exact result is below the rounded one as well, and lower
bounds can be followed through sums, products, quotients and roundings to whole numbers (`AtLeast`). In
particular these results are neither zero nor a NaN.
-/

set_option autoImplicit false

namespace Mixfix.Binary64

/-- A number beyond a magnitude is nearest to that magnitude or to one behind it. -/
theorem IsNearest.ge_of_ge {rank bound : Nat} {number : ℚ} (nearest : IsNearest rank number)
    (least : magnitude bound ≤ number) : bound ≤ rank := by
  apply Nat.le_of_not_lt
  intro below
  have order := magnitude_strictMono.monotone (Nat.succ_le_of_lt below)
  have most := nearest.le_halfway
  have positive := unit_pos rank
  rw [halfway] at most
  rw [magnitude_succ] at order
  linarith

theorem magnitude_one : magnitude 1 = 2 ^ leastExponent := by
  have count : significandOf 1 = 1 := rfl
  have exponent : exponentOf 1 = leastExponent := rfl
  rw [magnitude, unit, count, exponent, Nat.cast_one, one_mul]

theorem least_le_magnitude {rank : Nat} (positive : 0 < rank) : 2 ^ leastExponent ≤ magnitude rank := by
  rw [← magnitude_one]
  exact magnitude_strictMono.monotone positive

theorem magnitude_nonneg (rank : Nat) : 0 ≤ magnitude rank := by
  rw [← magnitude_zero]
  exact magnitude_strictMono.monotone (Nat.zero_le rank)

/-- A number is neither zero nor a NaN. -/
def IsNonzero (x : Binary64) : Prop := x ≠ .nan ∧ x.isZero = false

theorem isNonzero_signed {negative : Bool} {rank : Nat} (bounded : rank ≤ 0x7FF0000000000000)
    (positive : 0 < rank) : (signed negative rank bounded).IsNonzero :=
  ⟨nofun, beq_eq_false_iff_ne.mpr positive.ne'⟩

/-- A quotient that is not below the least magnitude is not rounded to zero. -/
theorem isNonzero_ofQuotient {numerator denominator : Nat} (negative : Bool)
    (positive : 0 < denominator) (least : 2 ^ leastExponent ≤ (numerator : ℚ) / denominator) :
    (ofQuotient negative numerator denominator).IsNonzero := by
  rw [← magnitude_one] at least
  have rank := (isNearest_rankOfQuotient numerator positive).ge_of_ge least
  exact isNonzero_signed _ (Nat.lt_min.mpr ⟨rank, by decide⟩)

/-- A multiple of a power of two as a quotient. -/
theorem scaled_eq (count : Nat) (exponent : Int) :
    ((count * Nat.pow 2 exponent.toNat : Nat) : ℚ) / (Nat.pow 2 (-exponent).toNat : Nat) =
      count * 2 ^ exponent := by
  have positive : 0 < Nat.pow 2 (-exponent).toNat := Nat.pow_pos (by decide)
  have twos := zpow_toNat 2 two_ne_zero exponent
  rw [div_eq_iff (by exact_mod_cast positive.ne')]
  simp only [Nat.pow_eq]
  push_cast
  rw [mul_assoc, twos]

theorem isNonzero_ofScaled {count : Nat} {exponent : Int} (negative : Bool)
    (least : (2 : ℚ) ^ leastExponent ≤ count * 2 ^ exponent) :
    (ofScaled negative count exponent).IsNonzero := by
  rw [← scaled_eq] at least
  exact isNonzero_ofQuotient negative (Nat.pow_pos (by decide)) least

/-- Zero divided by a finite number other than zero is zero. -/
theorem isZero_zero_div {rank : Nat} (bounded : rank ≤ 0x7FF0000000000000) (positive : 0 < rank)
    (finite : rank < infinityRank) :
    (div (ofNat 0) (.signed false rank bounded)).isZero = true := by
  have zero : ofNat 0 = .signed false 0 (Nat.zero_le _) := rfl
  have empty : significandOf 0 = 0 := rfl
  have vanishes (denominator : Nat) : ofQuotient false 0 denominator = .zero false := rfl
  rw [zero]
  simp only [div, if_neg finite.ne, if_neg positive.ne', empty, Nat.zero_mul, bne_self_eq_false,
    vanishes]
  rfl

theorem IsNonzero.neg {x : Binary64} (nonzero : x.IsNonzero) : x.neg.IsNonzero := by
  cases x with
  | nan => exact nonzero
  | signed negative rank bounded => exact ⟨nofun, nonzero.2⟩

/-! ## Lower bounds -/

/-- A number is positive and not below a power of two. -/
def AtLeast (power : Int) (x : Binary64) : Prop :=
  ∃ rank bounded, x = .signed false rank bounded ∧ 2 ^ power ≤ magnitude rank

theorem rank_pos_of_le {power : Int} {rank : Nat} (least : 2 ^ power ≤ magnitude rank) : 0 < rank := by
  apply Nat.pos_of_ne_zero
  rintro rfl
  rw [magnitude_zero] at least
  have : (0 : ℚ) < 2 ^ power := by positivity
  linarith

theorem AtLeast.isNonzero {power : Int} {x : Binary64} (atLeast : AtLeast power x) : x.IsNonzero := by
  obtain ⟨rank, bounded, rfl, least⟩ := atLeast
  exact isNonzero_signed bounded (rank_pos_of_le least)

/-- Powers of two in the normal range are magnitudes. -/
theorem exists_magnitude_eq {power : Int} (least : -1022 ≤ power) (most : power ≤ 1024) :
    ∃ rank ≤ infinityRank, magnitude rank = 2 ^ power := by
  obtain ⟨steps, rfl⟩ : ∃ steps : Nat, power = steps - 1022 := ⟨(power + 1022).toNat, by omega⟩
  refine ⟨binade + steps * binade, ?_, ?_⟩
  · calc binade + steps * binade ≤ binade + 2046 * binade := by
          gcongr
          omega
      _ = infinityRank := by decide
  · rw [magnitude_of_count (.inr le_rfl) (by decide), leastExponent,
      show (binade : ℚ) = 2 ^ (52 : Int) by norm_num [binade], ← zpow_add₀ two_ne_zero]
    congr 1
    ring

section Results

variable {power : Int} {numerator denominator : Nat}

theorem atLeast_ofQuotient (least : -1022 ≤ power) (most : power ≤ 1024) (positive : 0 < denominator)
    (below : 2 ^ power ≤ (numerator : ℚ) / denominator) :
    AtLeast power (ofQuotient false numerator denominator) := by
  obtain ⟨low, inside, same⟩ := exists_magnitude_eq least most
  refine ⟨_, _, rfl, ?_⟩
  rw [← same] at below ⊢
  exact magnitude_strictMono.monotone
    (Nat.le_min.mpr ⟨(isNearest_rankOfQuotient numerator positive).ge_of_ge below, inside⟩)

theorem magnitude_infinityRank : magnitude infinityRank = 2 ^ (1024 : Int) := by
  have parts : infinityRank = binade + 2046 * binade := by decide
  rw [parts, magnitude_of_count (.inr le_rfl) (by decide), leastExponent,
    show (binade : ℚ) = 2 ^ (52 : Int) by norm_num [binade], ← zpow_add₀ two_ne_zero]
  rfl

theorem atLeast_infinity (most : power ≤ 1024) : AtLeast power (infinity false) := by
  refine ⟨infinityRank, le_rfl, rfl, ?_⟩
  rw [magnitude_infinityRank]
  exact zpow_le_zpow_right₀ one_le_two most

theorem atLeast_ofScaled {count : Nat} {exponent : Int} (least : -1022 ≤ power)
    (most : power ≤ 1024) (below : (2 : ℚ) ^ power ≤ count * 2 ^ exponent) :
    AtLeast power (ofScaled false count exponent) := by
  rw [← scaled_eq] at below
  exact atLeast_ofQuotient least most (Nat.pow_pos (by decide)) below

theorem atLeast_ofNat {n : Nat} (least : 0 ≤ power) (most : power ≤ 1024)
    (below : (2 : ℚ) ^ power ≤ n) : AtLeast power (ofNat n) :=
  atLeast_ofQuotient (by omega) most Nat.one_pos (by rwa [Nat.cast_one, div_one])

/-- A natural number between two powers of two is rounded to a finite number between them. -/
theorem exists_ofNat {n power : Nat} (small : power ≤ 1022) (below : 2 ^ power ≤ n)
    (above : n ≤ 2 ^ (power + 1)) :
    ∃ rank bounded, ofNat n = .signed false rank bounded ∧ rank < infinityRank ∧
      2 ^ (power : Int) ≤ magnitude rank ∧ magnitude rank ≤ 2 ^ (power + 1 : Int) := by
  obtain ⟨rank, bounded, same, least⟩ : AtLeast power (ofNat n) :=
    atLeast_ofNat (Int.natCast_nonneg _) (by omega) (by exact_mod_cast below)
  obtain ⟨high, _, highIs⟩ : ∃ rank ≤ infinityRank, magnitude rank = 2 ^ (power + 1 : Int) :=
    exists_magnitude_eq (by omega) (by omega)
  have nearest := isNearest_rankOfQuotient n Nat.one_pos
  rw [Nat.cast_one, div_one] at nearest
  have most : rankOfQuotient n 1 ≤ high := by
    refine nearest.le_of_le ?_
    rw [highIs]
    exact_mod_cast above
  have rankIs : min (rankOfQuotient n 1) infinityRank = rank := (Binary64.signed.inj same).2
  have within : rank ≤ high := rankIs ▸ (min_le_left _ _).trans most
  refine ⟨rank, bounded, same, ?_, least, highIs ▸ magnitude_strictMono.monotone within⟩
  by_contra infinite
  have order : magnitude infinityRank ≤ magnitude high :=
    magnitude_strictMono.monotone ((not_lt.mp infinite).trans within)
  rw [magnitude_infinityRank, highIs] at order
  exact absurd order (not_le.mpr (zpow_lt_zpow_right₀ one_lt_two (by omega)))

/-- A magnitude in smaller units. -/
theorem unitsOf_mul {rank : Nat} {exponent : Int} (smaller : exponent ≤ exponentOf rank) :
    (unitsOf rank exponent : ℚ) * 2 ^ exponent = magnitude rank := by
  obtain ⟨more, same⟩ := Int.le.dest smaller
  have difference : (exponentOf rank - exponent).toNat = more := by omega
  rw [unitsOf, difference, magnitude, unit, ← same, zpow_add₀ two_ne_zero, zpow_natCast]
  simp only [Nat.pow_eq]
  push_cast
  ring

/-- The product of two magnitudes in units. -/
theorem product_eq (rank rank' : Nat) :
    ((significandOf rank * significandOf rank' : Nat) : ℚ) * 2 ^ (exponentOf rank + exponentOf rank') =
      magnitude rank * magnitude rank' := by
  rw [magnitude, magnitude, unit, unit, zpow_add₀ two_ne_zero]
  push_cast
  ring

/-- The quotient of two magnitudes, with the powers of two on the side where they are natural. -/
theorem quotient_eq (rank' : Nat) {rank : Nat} (positive : 0 < rank) :
    ((significandOf rank' * Nat.pow 2 (exponentOf rank' - exponentOf rank).toNat : Nat) : ℚ) /
        (significandOf rank * Nat.pow 2 (-(exponentOf rank' - exponentOf rank)).toNat : Nat) =
      magnitude rank' / magnitude rank := by
  have twos := zpow_toNat 2 two_ne_zero (exponentOf rank' - exponentOf rank)
  have nonzero : (significandOf rank : ℚ) ≠ 0 := by exact_mod_cast (significandOf_pos positive).ne'
  simp only [Nat.pow_eq, Nat.cast_mul, Nat.cast_pow, Nat.cast_ofNat]
  rw [← twos, zpow_sub₀ two_ne_zero, magnitude, magnitude, unit, unit]
  field_simp

/-! ## Operations -/

variable {x y : Binary64} {other : Int}

/-- A sum with a number that is not negative. -/
theorem AtLeast.add_left {rank : Nat} {bounded : rank ≤ 0x7FF0000000000000} (least : -1022 ≤ power)
    (most : power ≤ 1024) (atLeast : AtLeast power y) :
    AtLeast power (add (.signed false rank bounded) y) := by
  obtain ⟨rank', bounded', rfl, below⟩ := atLeast
  simp only [add, bne_self_eq_false, Bool.and_false, Bool.false_eq_true, if_false]
  split
  · exact atLeast_infinity most
  split
  · exact atLeast_infinity most
  have first : min (exponentOf rank) (exponentOf rank') ≤ exponentOf rank := min_le_left _ _
  have second : min (exponentOf rank) (exponentOf rank') ≤ exponentOf rank' := min_le_right _ _
  rw [addFinite]
  generalize min (exponentOf rank) (exponentOf rank') = exponent at first second
  have parts : magnitude rank' ≤
      ((unitsOf rank exponent + unitsOf rank' exponent : Nat) : ℚ) * 2 ^ exponent := by
    have nonneg : (0 : ℚ) ≤ unitsOf rank exponent * 2 ^ exponent := by positivity
    push_cast
    rw [add_mul, unitsOf_mul second]
    linarith
  have sum : withSign false (unitsOf rank exponent) + withSign false (unitsOf rank' exponent) =
      ((unitsOf rank exponent + unitsOf rank' exponent : Nat) : Int) := (Nat.cast_add _ _).symm
  simp only [sum]
  generalize unitsOf rank exponent + unitsOf rank' exponent = count at parts
  have positive : 0 < count := by
    apply Nat.pos_of_ne_zero
    rintro rfl
    rw [Nat.cast_zero, zero_mul] at parts
    have := magnitude_pos (rank_pos_of_le below)
    linarith
  have sign : decide ((count : Int) < 0) = false := decide_eq_false (by omega)
  rw [if_neg (by omega), sign, Int.natAbs_natCast]
  exact atLeast_ofScaled least most (below.trans parts)

theorem AtLeast.mul (least : -1022 ≤ power + other) (most : power + other ≤ 1024)
    (atLeast : AtLeast power x) (atLeast' : AtLeast other y) : AtLeast (power + other) (mul x y) := by
  obtain ⟨rank, bounded, rfl, below⟩ := atLeast
  obtain ⟨rank', bounded', rfl, below'⟩ := atLeast'
  have positive := (rank_pos_of_le below).ne'
  have positive' := (rank_pos_of_le below').ne'
  simp only [Binary64.mul, bne_self_eq_false, positive, positive', decide_false, Bool.or_self,
    Bool.false_eq_true, if_false]
  split
  · exact atLeast_infinity most
  · refine atLeast_ofScaled least most ?_
    rw [product_eq, zpow_add₀ two_ne_zero]
    exact mul_le_mul below below' (by positivity) (magnitude_nonneg rank)

/-- A quotient by a finite number. -/
theorem AtLeast.div {rank : Nat} {bounded : rank ≤ 0x7FF0000000000000} (least : -1022 ≤ power - other)
    (most : power - other ≤ 1024) (atLeast : AtLeast power x) (positive : 0 < rank)
    (finite : rank < infinityRank) (above : magnitude rank ≤ 2 ^ other) :
    AtLeast (power - other) (div x (.signed false rank bounded)) := by
  obtain ⟨rank', bounded', rfl, below⟩ := atLeast
  simp only [Binary64.div, bne_self_eq_false, if_neg finite.ne, if_neg positive.ne']
  split
  · exact atLeast_infinity most
  · have divisor : 0 < significandOf rank * Nat.pow 2 (-(exponentOf rank' - exponentOf rank)).toNat :=
      Nat.mul_pos (significandOf_pos positive) (Nat.pow_pos (by decide))
    refine atLeast_ofQuotient least most divisor ?_
    rw [quotient_eq rank' positive, zpow_sub₀ two_ne_zero]
    exact div_le_div₀ (magnitude_nonneg rank') below (magnitude_pos positive) above

/-- A number of at least a half is rounded to a positive whole number. -/
theorem AtLeast.round (atLeast : AtLeast (-1) x) : AtLeast 0 (round x) := by
  obtain ⟨rank, bounded, rfl, below⟩ := atLeast
  simp only [Binary64.round]
  split
  · next whole =>
      refine ⟨rank, bounded, rfl, ?_⟩
      rw [zpow_zero]
      rw [Bool.or_eq_true, decide_eq_true_eq, decide_eq_true_eq] at whole
      have units : 0 ≤ exponentOf rank := by
        rcases whole with rfl | units
        · decide
        · exact units
      have count : (1 : ℚ) ≤ significandOf rank := by
        exact_mod_cast significandOf_pos (rank_pos_of_le below)
      exact one_le_mul_of_one_le_of_one_le count (one_le_zpow₀ one_le_two units)
  · next fraction =>
      refine atLeast_ofNat le_rfl (by decide) ?_
      simp only [Bool.or_eq_true, decide_eq_true_eq, not_or, not_le] at fraction
      have scale : (2 : ℚ) ^ exponentOf rank * 2 ^ (-exponentOf rank).toNat = 1 := by
        rw [zpow_toNat 2 two_ne_zero, Int.toNat_of_nonpos fraction.2.le, pow_zero]
      have positive : 0 < 2 ^ (-exponentOf rank).toNat := by positivity
      have half : 2 ^ (-exponentOf rank).toNat ≤ 2 * significandOf rank := by
        have : (2 : ℚ) ^ (-exponentOf rank).toNat ≤ 2 * significandOf rank := by
          have factor : (0 : ℚ) < 2 ^ (-exponentOf rank).toNat := by positivity
          have moved := mul_le_mul_of_nonneg_right below factor.le
          rw [magnitude, unit, mul_assoc, scale, zpow_neg, zpow_one] at moved
          linarith
        exact_mod_cast this
      rw [zpow_zero, Nat.one_le_cast]
      exact (Nat.one_le_div_iff (by positivity)).mpr (by simp only [Nat.pow_eq]; omega)

end Results

end Mixfix.Binary64
