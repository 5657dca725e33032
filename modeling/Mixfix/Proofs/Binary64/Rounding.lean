import Mathlib
import Mixfix.Binary64.Rounding
import Mixfix.Proofs.Binary64.Magnitudes

/-!
# Rounding gives the nearest magnitude

The rank that a quotient is rounded to is that of the nearest magnitude
(`isNearest_rankOfQuotient`). The exponent is found from the counts of bits, which leaves two of
them to choose from; in units of the chosen one the quotient is in the binade of significands, or
below it when no smaller unit is left (`unitExponent_spec`).
-/

set_option autoImplicit false

namespace Mixfix

theorem roundHalfEven_eq (numerator denominator : Nat) :
    roundHalfEven numerator denominator =
      if 2 * (numerator % denominator) < denominator ∨
          2 * (numerator % denominator) = denominator ∧ numerator / denominator % 2 = 0 then
        numerator / denominator
      else numerator / denominator + 1 := by
  simp only [roundHalfEven, Bool.or_eq_true, decide_eq_true_eq, Bool.and_eq_true, beq_iff_eq]

/-- Rounding a quotient is off by half at most, and by half only for an even result. -/
theorem roundHalfEven_spec (numerator : Nat) {denominator : Nat} (positive : 0 < denominator) :
    ((numerator : ℚ) / denominator < roundHalfEven numerator denominator + 1 / 2 ∨
      (numerator : ℚ) / denominator = roundHalfEven numerator denominator + 1 / 2 ∧
        roundHalfEven numerator denominator % 2 = 0) ∧
    (roundHalfEven numerator denominator - 1 / 2 < (numerator : ℚ) / denominator ∨
      roundHalfEven numerator denominator - 1 / 2 = (numerator : ℚ) / denominator ∧
        roundHalfEven numerator denominator % 2 = 0) := by
  have parts : (numerator : ℚ) =
      denominator * (numerator / denominator : Nat) + (numerator % denominator : Nat) := by
    exact_mod_cast (Nat.div_add_mod numerator denominator).symm
  have less : ((numerator % denominator : Nat) : ℚ) < denominator := by
    exact_mod_cast Nat.mod_lt numerator positive
  have natural : (0 : ℚ) ≤ (numerator % denominator : Nat) := Nat.cast_nonneg _
  have denominatorPos : (0 : ℚ) < denominator := by exact_mod_cast positive
  rw [roundHalfEven_eq]
  generalize numerator / denominator = floor at parts ⊢
  generalize numerator % denominator = rest at parts less natural ⊢
  have quotient : (numerator : ℚ) / denominator = floor + rest / denominator := by
    rw [parts]
    field_simp
  have small : (rest : ℚ) / denominator < 1 := (div_lt_one denominatorPos).mpr less
  have nonneg : (0 : ℚ) ≤ rest / denominator := by positivity
  have half : (2 : ℚ) * (rest / denominator) * denominator = 2 * rest := by field_simp
  rw [quotient]
  split
  · next down =>
      refine ⟨?_, .inl (by linarith)⟩
      rcases down with below | ⟨middle, even⟩
      · left
        have below : (2 : ℚ) * rest < denominator := by exact_mod_cast below
        have : (2 : ℚ) * (rest / denominator) < 1 := by nlinarith
        linarith
      · right
        have middle : (2 : ℚ) * rest = denominator := by exact_mod_cast middle
        have : (2 : ℚ) * (rest / denominator) = 1 := by
          field_simp
          exact middle
        exact ⟨by linarith, even⟩
  · next up =>
      rw [not_or, not_and] at up
      push_cast
      refine ⟨.inl (by linarith), ?_⟩
      rcases Nat.lt_or_eq_of_le (Nat.le_of_not_lt up.1) with above | middle
      · left
        have above : (denominator : ℚ) < 2 * rest := by exact_mod_cast above
        have : (1 : ℚ) < 2 * (rest / denominator) := by nlinarith
        linarith
      · right
        have odd := up.2 middle.symm
        have middle : (denominator : ℚ) = 2 * rest := by exact_mod_cast middle
        have : (2 : ℚ) * (rest / denominator) = 1 := by
          field_simp
          exact middle.symm
        exact ⟨by linarith, by omega⟩

theorem roundHalfEven_le {numerator denominator bound : Nat}
    (less : numerator < bound * denominator) : roundHalfEven numerator denominator ≤ bound := by
  have floor : numerator / denominator < bound := Nat.div_lt_of_lt_mul (by rwa [Nat.mul_comm])
  rw [roundHalfEven_eq]
  split
  · exact floor.le
  · exact floor

theorem le_roundHalfEven {numerator denominator bound : Nat} (positive : 0 < denominator)
    (least : bound * denominator ≤ numerator) : bound ≤ roundHalfEven numerator denominator := by
  have floor : bound ≤ numerator / denominator := (Nat.le_div_iff_mul_le positive).mpr least
  rw [roundHalfEven_eq]
  split
  · exact floor
  · exact Nat.le_succ_of_le floor

/-- `roundHalfEven_spec` without division. -/
theorem roundHalfEven_near (numerator : Nat) {denominator : Nat} (positive : 0 < denominator) :
    2 * (roundHalfEven numerator denominator * denominator) ≤ 2 * numerator + denominator ∧
    2 * numerator ≤ 2 * (roundHalfEven numerator denominator * denominator) + denominator := by
  have parts := Nat.div_add_mod' numerator denominator
  have less := Nat.mod_lt numerator positive
  rw [roundHalfEven_eq]
  split
  · omega
  · rw [Nat.add_one_mul (numerator / denominator)]
    omega

theorem roundHalfEven_one (n : Nat) : roundHalfEven n 1 = n := by
  simp [roundHalfEven, Nat.mod_one]

namespace Binary64

/-! ## Units -/

theorem zpow_toNat (base : ℚ) (nonzero : base ≠ 0) (exponent : Int) :
    base ^ exponent * base ^ (-exponent).toNat = base ^ exponent.toNat := by
  rw [← zpow_natCast, ← zpow_natCast, ← zpow_add₀ nonzero]
  congr 1
  omega

/-- A quotient in units of a power of two is the quotient divided by the power. -/
theorem inUnits_eq (numerator denominator : Nat) (exponent : Int) :
    ((inUnits numerator denominator exponent).1 : ℚ) /
        (inUnits numerator denominator exponent).2 =
      (numerator : ℚ) / denominator / 2 ^ exponent := by
  have scale := zpow_toNat 2 two_ne_zero exponent
  simp only [inUnits, Nat.pow_eq]
  push_cast
  rw [← scale]
  have : (2 : ℚ) ^ (-exponent).toNat ≠ 0 := by positivity
  have : (2 : ℚ) ^ exponent ≠ 0 := by positivity
  by_cases zero : (denominator : ℚ) = 0
  · simp [zero]
  · field_simp

theorem inUnits_pos (numerator : Nat) {denominator : Nat} (positive : 0 < denominator)
    (exponent : Int) : 0 < (inUnits numerator denominator exponent).2 :=
  Nat.mul_pos positive (Nat.pow_pos (by decide))

/-- The counts of bits tell a quotient up to a factor of two on either side. -/
theorem quotient_bounds {numerator denominator : Nat} (nonzero : numerator ≠ 0)
    (positive : 0 < denominator) :
    (2 : ℚ) ^ ((numerator.log2 : Int) - denominator.log2 - 1) < (numerator : ℚ) / denominator ∧
      (numerator : ℚ) / denominator < 2 ^ ((numerator.log2 : Int) - denominator.log2 + 1) := by
  have lower : (2 : ℚ) ^ (numerator.log2 : Int) ≤ numerator := by
    exact_mod_cast Nat.log2_self_le nonzero
  have upper : (numerator : ℚ) < 2 ^ ((numerator.log2 : Int) + 1) := by
    exact_mod_cast Nat.lt_log2_self
  have lower' : (2 : ℚ) ^ (denominator.log2 : Int) ≤ denominator := by
    exact_mod_cast Nat.log2_self_le positive.ne'
  have upper' : (denominator : ℚ) < 2 ^ ((denominator.log2 : Int) + 1) := by
    exact_mod_cast Nat.lt_log2_self
  have denominatorPos : (0 : ℚ) < denominator := by exact_mod_cast positive
  rw [lt_div_iff₀ denominatorPos, div_lt_iff₀ denominatorPos]
  constructor
  · calc (2 : ℚ) ^ ((numerator.log2 : Int) - denominator.log2 - 1) * denominator
        < 2 ^ ((numerator.log2 : Int) - denominator.log2 - 1) *
            2 ^ ((denominator.log2 : Int) + 1) := by
          exact mul_lt_mul_of_pos_left upper' (by positivity)
      _ = 2 ^ (numerator.log2 : Int) := by
          rw [← zpow_add₀ two_ne_zero]
          congr 1
          ring
      _ ≤ numerator := lower
  · calc (numerator : ℚ) < 2 ^ ((numerator.log2 : Int) + 1) := upper
      _ = 2 ^ ((numerator.log2 : Int) - denominator.log2 + 1) * 2 ^ (denominator.log2 : Int) := by
          rw [← zpow_add₀ two_ne_zero]
          congr 1
          ring
      _ ≤ 2 ^ ((numerator.log2 : Int) - denominator.log2 + 1) * denominator := by
          exact mul_le_mul_of_nonneg_left lower' (by positivity)

theorem unitExponent_eq {numerator denominator : Nat} (positive : 0 < denominator) :
    unitExponent numerator denominator =
      if (numerator : ℚ) / denominator <
          2 * binade * 2 ^ max ((numerator.log2 : Int) - denominator.log2 - 53) leastExponent then
        max ((numerator.log2 : Int) - denominator.log2 - 53) leastExponent
      else max ((numerator.log2 : Int) - denominator.log2 - 53) leastExponent + 1 := by
  simp only [unitExponent]
  generalize max ((numerator.log2 : Int) - denominator.log2 - 53) leastExponent = rough
  have bottom : (0 : ℚ) < (inUnits numerator denominator rough).2 := by
    exact_mod_cast inUnits_pos numerator positive rough
  have power : (0 : ℚ) < 2 ^ rough := by positivity
  refine if_congr ?_ rfl rfl
  rw [← div_lt_iff₀ power, ← inUnits_eq, div_lt_iff₀ bottom]
  norm_cast

/-- In units of its exponent a quotient is below the end of the binade of significands, and not
below its start unless the exponent is the least one. -/
theorem unitExponent_spec {numerator denominator : Nat} (nonzero : numerator ≠ 0)
    (positive : 0 < denominator) :
    leastExponent ≤ unitExponent numerator denominator ∧
      (numerator : ℚ) / denominator < 2 * binade * 2 ^ unitExponent numerator denominator ∧
      (unitExponent numerator denominator = leastExponent ∨
        binade * 2 ^ unitExponent numerator denominator ≤ (numerator : ℚ) / denominator) := by
  obtain ⟨lower, upper⟩ := quotient_bounds nonzero positive
  rw [unitExponent_eq positive]
  generalize difference : (numerator.log2 : Int) - denominator.log2 = bits at lower upper ⊢
  have size : (binade : ℚ) = 2 ^ (52 : Int) := by norm_num [binade]
  split
  · next less =>
      refine ⟨le_max_right _ _, less, ?_⟩
      rcases le_total (bits - 53) leastExponent with least | above
      · exact .inl (max_eq_right least)
      · right
        rw [max_eq_left above, size, ← zpow_add₀ two_ne_zero]
        have same : (52 : Int) + (bits - 53) = bits - 1 := by ring
        rw [same]
        exact lower.le
  · next least =>
      rw [not_lt] at least
      refine ⟨(le_max_right _ _).trans (Int.le_add_one le_rfl), ?_, .inr ?_⟩
      · have order : bits + 1 ≤ 52 + 1 + (max (bits - 53) leastExponent + 1) := by
          have := le_max_left (bits - 53) leastExponent
          omega
        calc (numerator : ℚ) / denominator < 2 ^ (bits + 1) := upper
          _ ≤ 2 ^ (52 + 1 + (max (bits - 53) leastExponent + 1)) :=
              zpow_le_zpow_right₀ one_le_two order
          _ = 2 * binade * 2 ^ (max (bits - 53) leastExponent + 1) := by
              rw [size, zpow_add₀ two_ne_zero, zpow_add_one₀ two_ne_zero]
              ring
      · rw [zpow_add_one₀ two_ne_zero]
        linarith

/-! ## Ranks -/

/-- A quotient is rounded to the nearest magnitude. -/
theorem isNearest_rankOfQuotient (numerator : Nat) {denominator : Nat}
    (positive : 0 < denominator) :
    IsNearest (rankOfQuotient numerator denominator) ((numerator : ℚ) / denominator) := by
  by_cases nonzero : numerator = 0
  · subst nonzero
    have zero := isNearest_magnitude 0
    rw [magnitude_zero] at zero
    simpa [rankOfQuotient] using zero
  obtain ⟨least, less, full⟩ := unitExponent_spec nonzero positive
  simp only [rankOfQuotient, if_neg nonzero]
  generalize unitExponent numerator denominator = exponent at least less full ⊢
  have power : (0 : ℚ) < 2 ^ exponent := by positivity
  obtain ⟨steps, rfl⟩ : ∃ steps : Nat, exponent = leastExponent + steps :=
    ⟨(exponent - leastExponent).toNat, by omega⟩
  have steps_eq : (leastExponent + steps - leastExponent).toNat = steps := by omega
  rw [steps_eq]
  have scaled := inUnits_eq numerator denominator (leastExponent + steps)
  have bottom := inUnits_pos numerator positive (leastExponent + steps)
  generalize inUnits numerator denominator (leastExponent + steps) = units at scaled bottom ⊢
  have bottomPos : (0 : ℚ) < units.2 := by exact_mod_cast bottom
  have value : (numerator : ℚ) / denominator =
      (units.1 : ℚ) / units.2 * 2 ^ (leastExponent + steps) := by
    rw [scaled, div_mul_cancel₀ _ power.ne']
  rw [value] at less full ⊢
  have first : steps = 0 ∨ (binade : ℚ) ≤ (units.1 : ℚ) / units.2 := by
    refine full.imp (fun same => by omega) fun full => ?_
    exact le_of_mul_le_mul_right full power
  have inside : (units.1 : ℚ) / units.2 < 2 * binade := lt_of_mul_lt_mul_right less power.le
  obtain ⟨below, above⟩ := roundHalfEven_spec units.1 bottom
  apply isNearest_of_count
  · refine first.imp_right fun first => ?_
    apply le_roundHalfEven bottom
    exact_mod_cast (le_div_iff₀ bottomPos).mp first
  · apply roundHalfEven_le
    exact_mod_cast (div_lt_iff₀ bottomPos).mp inside
  · exact first.imp_right fun first => mul_le_mul_of_nonneg_right first power.le
  · exact less
  · refine above.imp (fun above => ?_) fun ⟨middle, even⟩ => ⟨?_, even⟩
    · exact mul_lt_mul_of_pos_right above power
    · rw [middle]
  · refine below.imp (fun below => ?_) fun ⟨middle, even⟩ => ⟨?_, even⟩
    · exact mul_lt_mul_of_pos_right below power
    · rw [middle]

end Binary64

end Mixfix
