import Mathlib
import Mixfix.Binary64.Shortest
import Mixfix.Proofs.Binary64.Rounding

/-!
# The shortest decimal reads back

The shortest decimal of a magnitude is nearest to it (`isNearest_shortest`). The search cannot fail:
with seventeen digits a step between decimals is small enough that one of the two next to the
magnitude is inside of its interval (`exists_nearestDecimals?`), where the exponent of the leading
digit is estimated from the binary exponent and checked (`pow_leadingExponent_le`).
-/

set_option autoImplicit false

namespace Mixfix

/-- The value of a decimal. -/
def Decimals.value (decimals : Decimals) : ℚ := decimals.count * 10 ^ decimals.exponent

namespace Binary64

/-! ## Comparisons -/

section Compare

variable {decimals : Decimals} {count : Nat} {exponent : Int}

/-- Both sides of a comparison are scaled by one factor. -/
theorem exists_scale (decimals : Decimals) (count : Nat) (exponent : Int) :
    ∃ scale : ℚ, 0 < scale ∧
      ((decimals.count * Nat.pow 10 decimals.exponent.toNat * Nat.pow 2 (-exponent).toNat : Nat) : ℚ) =
        decimals.value * scale ∧
      ((count * Nat.pow 2 exponent.toNat * Nat.pow 10 (-decimals.exponent).toNat : Nat) : ℚ) =
        count * 2 ^ exponent * scale := by
  refine ⟨10 ^ (-decimals.exponent).toNat * 2 ^ (-exponent).toNat, by positivity, ?_, ?_⟩
  · have tens := zpow_toNat 10 (by norm_num) decimals.exponent
    simp only [Nat.pow_eq, Decimals.value]
    push_cast
    rw [← tens]
    ring
  · have twos := zpow_toNat 2 two_ne_zero exponent
    simp only [Nat.pow_eq]
    push_cast
    rw [← twos]
    ring

theorem compareScaled_lt :
    compareScaled decimals count exponent = .lt ↔ decimals.value < count * 2 ^ exponent := by
  obtain ⟨scale, positive, left, right⟩ := exists_scale decimals count exponent
  rw [compareScaled, Nat.compare_eq_lt, ← @Nat.cast_lt ℚ, left, right,
    mul_lt_mul_iff_of_pos_right positive]

theorem compareScaled_gt :
    compareScaled decimals count exponent = .gt ↔ count * 2 ^ exponent < decimals.value := by
  obtain ⟨scale, positive, left, right⟩ := exists_scale decimals count exponent
  rw [compareScaled, Nat.compare_eq_gt, ← @Nat.cast_lt ℚ, left, right,
    mul_lt_mul_iff_of_pos_right positive]

theorem compareScaled_eq :
    compareScaled decimals count exponent = .eq ↔ decimals.value = count * 2 ^ exponent := by
  obtain ⟨scale, positive, left, right⟩ := exists_scale decimals count exponent
  rw [compareScaled, Nat.compare_eq_eq, ← @Nat.cast_inj ℚ, left, right,
    mul_left_inj' positive.ne']

end Compare

/-- The decimals that round to a magnitude are those that are nearest to it. -/
theorem roundsTo_iff {rank : Nat} (positive : 0 < rank) {decimals : Decimals} :
    roundsTo rank decimals = true ↔ IsNearest rank decimals.value := by
  obtain ⟨before, rfl⟩ := Nat.exists_eq_succ_of_ne_zero positive.ne'
  have quarter : (2 : ℚ) ^ (exponentOf (before + 1) - 2) = unit (before + 1) / 4 := by
    rw [zpow_sub₀ two_ne_zero, unit]
    norm_num
  have significand : 0 < significandOf (before + 1) := significandOf_pos positive
  have upper : ((4 * significandOf (before + 1) + 2 : Nat) : ℚ) *
      2 ^ (exponentOf (before + 1) - 2) = halfway (before + 1) := by
    rw [quarter, halfway, magnitude]
    push_cast
    ring
  have lower : ((4 * significandOf (before + 1) -
      (if significandOf (before + 1) = binade ∧ leastExponent < exponentOf (before + 1) then 1
        else 2) : Nat) : ℚ) * 2 ^ (exponentOf (before + 1) - 2) = halfway before := by
    have here : magnitude (before + 1) = significandOf (before + 1) * unit (before + 1) := rfl
    have steps : leastExponent < exponentOf (before + 1) ↔ step (before + 1) ≠ 0 := by
      rw [exponentOf_eq]
      omega
    rw [quarter, halfway_eq_sub, unit_before before, here]
    simp only [steps]
    split
    · rw [Nat.cast_sub (by omega)]
      push_cast
      ring
    · rw [Nat.cast_sub (by omega)]
      push_cast
      ring
  simp only [roundsTo, Bool.and_eq_true, Bool.or_eq_true, beq_iff_eq, decide_eq_true_eq,
    compareScaled_lt, compareScaled_gt, compareScaled_eq, significandOf_mod_two]
  simp only [Nat.succ_eq_add_one]
  rw [upper, lower]
  constructor
  · rintro ⟨above, below⟩
    constructor
    · intro other next
      obtain rfl : before = other := Nat.succ.inj next
      rcases above with above | ⟨even, same⟩
      · exact .inl above
      · exact .inr ⟨same.symm, even⟩
    · exact below.imp_right And.symm
  · intro nearest
    constructor
    · rcases nearest.above before rfl with above | ⟨same, even⟩
      · exact .inl above
      · exact .inr ⟨even, same.symm⟩
    · exact nearest.below.imp_right And.symm

/-! ## The leading digit -/

theorem Decimals.value_one (exponent : Int) :
    (Decimals.mk 1 exponent).value = (10 : ℚ) ^ exponent := by
  rw [Decimals.value, Nat.cast_one, one_mul]

theorem step_lt_of_finite {rank : Nat} (finite : rank < infinityRank) : step rank ≤ 2045 := by
  unfold step
  split
  · exact Nat.zero_le _
  · have few : rank / binade < 2047 := Nat.div_lt_of_lt_mul finite
    omega

/-- One less than the estimate is low enough for every power of two of the format. -/
theorem pow_estimate_le {bits : Int} (least : -1074 ≤ bits) (most : bits ≤ 1023) :
    (10 : ℚ) ^ (bits * 30103 / 100000 - 1) ≤ 2 ^ bits := by
  have all : (List.range 2098).all (fun offset =>
      compareScaled ⟨1, ((offset : Int) - 1074) * 30103 / 100000 - 1⟩ 1 (offset - 1074) != .gt) =
        true := by
    decide +kernel
  have here := List.all_eq_true.mp all (bits + 1074).toNat (List.mem_range.mpr (by omega))
  have same : ((bits + 1074).toNat : Int) - 1074 = bits := by omega
  rw [same, bne_iff_ne, Ne, compareScaled_gt, not_lt, Decimals.value_one, Nat.cast_one, one_mul]
    at here
  exact here

/-- The power of ten of the leading digit is not above the magnitude. -/
theorem pow_leadingExponent_le {rank : Nat} (positive : 0 < rank) (finite : rank < infinityRank) :
    (10 : ℚ) ^ leadingExponent rank ≤ magnitude rank := by
  have checked : ∀ guess, (compareScaled ⟨1, guess⟩ (significandOf rank) (exponentOf rank) != .gt) =
      true → (10 : ℚ) ^ guess ≤ magnitude rank := by
    intro guess fits
    rw [bne_iff_ne, Ne, compareScaled_gt, not_lt, Decimals.value_one] at fits
    exact fits
  simp only [leadingExponent]
  generalize found : List.find? _ _ = guess?
  cases guess? with
  | some guess =>
      have fits := List.find?_some found
      exact checked guess fits
  | none =>
      have nonzero : significandOf rank ≠ 0 := (significandOf_pos positive).ne'
      have bits : (significandOf rank).log2 < 53 :=
        (Nat.log2_lt nonzero).mpr (significandOf_lt rank)
      have steps := step_lt_of_finite finite
      have exponent := exponentOf_eq rank
      rw [leastExponent] at exponent
      have below : (2 : ℚ) ^ (((significandOf rank).log2 : Int) + exponentOf rank) ≤
          magnitude rank := by
        rw [zpow_add₀ two_ne_zero, zpow_natCast, magnitude, unit]
        have size : ((2 ^ (significandOf rank).log2 : Nat) : ℚ) ≤ significandOf rank :=
          Nat.cast_le.mpr (Nat.log2_self_le nonzero)
        push_cast at size
        exact mul_le_mul_of_nonneg_right size (by positivity)
      exact (pow_estimate_le (by omega) (by omega)).trans below

/-! ## The search -/

theorem nearestDecimals?_spec {tie : Tie} {rank : Nat} {unit : Int} {decimals : Decimals}
    (found : nearestDecimals? tie rank unit = some decimals) : roundsTo rank decimals = true := by
  simp only [nearestDecimals?] at found
  split at found
  · next lower upper =>
      rw [Option.some.injEq] at found
      subst found
      split
      · exact upper
      · exact lower
  · next lower upper => exact Option.some.inj found ▸ lower
  · next lower upper => exact Option.some.inj found ▸ upper
  · cases found

/-- The gap above a magnitude is wider than half a step of seventeen digits. -/
theorem gap_above (rank : Nat) : magnitude rank / 18014398509481984 < unit rank / 2 := by
  have less : significandOf rank < 9007199254740992 := significandOf_lt rank
  have size : (significandOf rank : ℚ) < 9007199254740992 := by exact_mod_cast less
  have positive := unit_pos rank
  rw [magnitude]
  nlinarith

/-- The gap below a magnitude is no narrower, also below the first of a power of two. -/
theorem gap_below (before : Nat) :
    magnitude (before + 1) / 18014398509481984 ≤ unit before / 2 := by
  rw [unit_before before]
  split
  · next first =>
      have same : magnitude (before + 1) = 4503599627370496 * unit (before + 1) := by
        rw [magnitude, first.1]
        norm_num [binade]
      rw [same]
      linarith
  · exact (gap_above (before + 1)).le

/-- The decimals that are tried are those next to the magnitude. -/
theorem floor_spec (rank : Nat) (place : Int) {floor : Nat}
    (divided : significandOf rank * Nat.pow 2 (exponentOf rank).toNat * Nat.pow 10 (-place).toNat /
      (Nat.pow 2 (-exponentOf rank).toNat * Nat.pow 10 place.toNat) = floor) :
    (Decimals.mk floor place).value ≤ magnitude rank ∧
      magnitude rank < (Decimals.mk floor place).value + 10 ^ place := by
  have scale : (0 : ℚ) < 2 ^ (-exponentOf rank).toNat * 10 ^ (-place).toNat := by positivity
  have numerator : ((significandOf rank * Nat.pow 2 (exponentOf rank).toNat *
      Nat.pow 10 (-place).toNat : Nat) : ℚ) =
        magnitude rank * (2 ^ (-exponentOf rank).toNat * 10 ^ (-place).toNat) := by
    have twos := zpow_toNat 2 two_ne_zero (exponentOf rank)
    simp only [Nat.pow_eq, magnitude, unit]
    push_cast
    rw [← twos]
    ring
  have denominator : ((Nat.pow 2 (-exponentOf rank).toNat * Nat.pow 10 place.toNat : Nat) : ℚ) =
      10 ^ place * (2 ^ (-exponentOf rank).toNat * 10 ^ (-place).toNat) := by
    have tens := zpow_toNat 10 (by norm_num) place
    simp only [Nat.pow_eq]
    push_cast
    rw [← tens]
    ring
  have positive : 0 < Nat.pow 2 (-exponentOf rank).toNat * Nat.pow 10 place.toNat :=
    Nat.mul_pos (Nat.pow_pos (by decide)) (Nat.pow_pos (by decide))
  generalize significandOf rank * Nat.pow 2 (exponentOf rank).toNat * Nat.pow 10 (-place).toNat =
    top at divided numerator
  generalize Nat.pow 2 (-exponentOf rank).toNat * Nat.pow 10 place.toNat = bottom
    at divided denominator positive
  have lower : ((floor * bottom : Nat) : ℚ) ≤ top :=
    Nat.cast_le.mpr (divided ▸ Nat.div_mul_le_self top bottom)
  have upper : (top : ℚ) < (bottom * (floor + 1) : Nat) :=
    Nat.cast_lt.mpr (divided ▸ Nat.lt_mul_div_succ top positive)
  push_cast at lower upper
  rw [numerator, denominator] at lower upper
  rw [Decimals.value]
  constructor
  · exact le_of_mul_le_mul_right (by linarith) scale
  · exact lt_of_mul_lt_mul_right (by linarith) scale.le

/-- With seventeen digits one of the two decimals next to a magnitude is nearest to it. -/
theorem exists_nearestDecimals? (tie : Tie) {rank : Nat} (positive : 0 < rank) {place : Int}
    (small : (10 : ℚ) ^ place ≤ magnitude rank / 10000000000000000) :
    (nearestDecimals? tie rank place).isSome = true := by
  obtain ⟨before, rfl⟩ := Nat.exists_eq_succ_of_ne_zero positive.ne'
  simp only [nearestDecimals?]
  generalize divided : significandOf before.succ * Nat.pow 2 (exponentOf before.succ).toNat *
    Nat.pow 10 (-place).toNat / (Nat.pow 2 (-exponentOf before.succ).toNat *
      Nat.pow 10 place.toNat) = floor
  obtain ⟨least, most⟩ := floor_spec _ _ divided
  have above := gap_above before.succ
  have below := gap_below before
  have size := magnitude_pos positive
  have here : halfway before.succ = magnitude before.succ + unit before.succ / 2 := rfl
  have there := halfway_eq_sub before
  have either : roundsTo before.succ ⟨floor, place⟩ = true ∨
      roundsTo before.succ ⟨floor + 1, place⟩ = true := by
    rw [roundsTo_iff positive, roundsTo_iff positive]
    have next : (Decimals.mk (floor + 1) place).value = (Decimals.mk floor place).value + 10 ^ place := by
      rw [Decimals.value, Decimals.value]
      push_cast
      ring
    rw [next]
    generalize (Decimals.mk floor place).value = lower at least most ⊢
    simp only [Nat.succ_eq_add_one] at *
    by_cases near : magnitude (before + 1) - lower ≤ 10 ^ place / 2
    · left
      constructor
      · intro other same
        obtain rfl : before = other := Nat.succ.inj same
        exact .inl (by linarith)
      · exact .inl (by linarith)
    · right
      constructor
      · intro other same
        obtain rfl : before = other := Nat.succ.inj same
        exact .inl (by linarith)
      · exact .inl (by linarith)
  rcases either with lower | upper
  · rw [lower]
    split <;> simp_all
  · rw [upper]
    split <;> simp_all

theorem value_dropZeros (steps : Nat) (decimals : Decimals) :
    (dropZeros steps decimals).value = decimals.value := by
  induction steps generalizing decimals with
  | zero => rfl
  | succ steps ih =>
      rw [dropZeros]
      split
      · next zero =>
          rw [ih, Decimals.value, Decimals.value, zpow_add_one₀ (by norm_num)]
          have tens : (decimals.count : ℚ) = (decimals.count / 10 : Nat) * 10 := by
            exact_mod_cast (Nat.div_mul_cancel (Nat.dvd_of_mod_eq_zero zero)).symm
          rw [tens]
          push_cast
          ring
      · rfl

/-- The shortest decimal of a magnitude is nearest to it. -/
theorem isNearest_shortest (tie : Tie) {rank : Nat} (positive : 0 < rank)
    (finite : rank < infinityRank) : IsNearest rank (shortest tie rank).value := by
  have leading := pow_leadingExponent_le positive finite
  simp only [shortest, value_dropZeros]
  generalize found : List.findSome? _ _ = decimals?
  cases decimals? with
  | some decimals =>
      obtain ⟨digits, -, here⟩ := List.exists_of_findSome?_eq_some found
      exact (roundsTo_iff positive).mp (nearestDecimals?_spec here)
  | none =>
      have nothing := List.findSome?_eq_none_iff.mp found 16 (by decide)
      have small : (10 : ℚ) ^ (leadingExponent rank - (16 : Nat)) ≤
          magnitude rank / 10000000000000000 := by
        rw [zpow_sub₀ (by norm_num)]
        norm_num
        linarith
      have some := exists_nearestDecimals? tie positive small
      rw [nothing] at some
      cases some

end Binary64

end Mixfix
