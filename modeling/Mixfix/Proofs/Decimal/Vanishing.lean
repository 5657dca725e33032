import Mixfix.Proofs.Binary64.LowerBounds
import Mixfix.Proofs.Decimal.Integers

/-!
# Numbers whose decimals vanish

A number with more than 28 digits behind the point is not refused a decimal. Its digits are dropped one
after the other, each time with a half rounded up, and nothing is left as soon as a single digit stands
before another one to be dropped. So what decides is not half a unit of the last place: coefficients up
to `9`, `94`, `944` and so on vanish with one, two, three digits to be dropped
(`cutDigits_eq_zero_iff`). In all cases this is to be below `0.9444…` units of the last place, with the
digits going on forever (`least`).

Before that, the powers of two of the number are traded for powers of ten, where now and then a half is
cut off. The coefficients are large by then, so the number loses less than it differs from its
neighbours (`Spends`), and a number has a decimal of zero exactly if it is below the limit itself
(`coefficient_eq_zero_iff`).
-/

set_option autoImplicit false

namespace Mixfix.Decimal

open Binary64 (binade exponentOf exponentOf_eq leastExponent magnitude magnitude_of_count
  magnitude_strictMono significandOf significandOf_lt significandOf_pos step unit)

/-! ## Trading halvings for powers of ten -/

/-- The number that an approximation stands for. -/
def Approximation.value (state : Approximation) : ℚ := state.coefficient * 10 ^ state.exponent

/-- Bounds the part of a number that is lost with one halving. -/
def slack : ℚ := 1 / 2 ^ 92

theorem slack_nonneg : 0 ≤ slack := by
  rw [slack]
  positivity

/-- An approximation trades halvings: of the number it may lose a small part with each of them. -/
structure Spends (halves : Nat) (state next : Approximation) : Prop where
  positive : 0 < state.coefficient → 0 < next.coefficient
  inside : state.coefficient < limit → next.coefficient < limit
  exponents : state.exponent ≤ next.exponent ∧ next.exponent ≤ state.exponent + halves
  below : next.value ≤ state.value * 5 ^ halves
  above : state.value * 5 ^ halves ≤ next.value * (1 + slack) ^ halves

theorem Spends.refl (state : Approximation) : Spends 0 state state :=
  ⟨id, id, by simp, by simp, by simp⟩

theorem Spends.trans {halves more : Nat} {state middle last : Approximation}
    (first : Spends halves state middle) (second : Spends more middle last) :
    Spends (halves + more) state last where
  positive := second.positive ∘ first.positive
  inside := second.inside ∘ first.inside
  exponents := by
    have := first.exponents
    have := second.exponents
    omega
  below := by
    calc last.value ≤ middle.value * 5 ^ more := second.below
      _ ≤ state.value * 5 ^ halves * 5 ^ more :=
          mul_le_mul_of_nonneg_right first.below (by positivity)
      _ = state.value * 5 ^ (halves + more) := by rw [pow_add, mul_assoc]
  above := by
    have factor : 0 ≤ (1 + slack) ^ halves := pow_nonneg (by linarith [slack_nonneg]) _
    calc state.value * 5 ^ (halves + more) = state.value * 5 ^ halves * 5 ^ more := by
          rw [pow_add, mul_assoc]
      _ ≤ middle.value * (1 + slack) ^ halves * 5 ^ more :=
          mul_le_mul_of_nonneg_right first.above (by positivity)
      _ = middle.value * 5 ^ more * (1 + slack) ^ halves := by ring
      _ ≤ last.value * (1 + slack) ^ more * (1 + slack) ^ halves :=
          mul_le_mul_of_nonneg_right second.above factor
      _ = last.value * (1 + slack) ^ (halves + more) := by ring

/-- The halving is taken from an approximation that has less room than a factor of five. -/
theorem spends_half {state : Approximation}
    (full : state.coefficient % 2 = 0 ∨ limit ≤ 5 * state.coefficient) :
    Spends 1 state ⟨state.coefficient / 2, state.exponent + 1⟩ := by
  have power : (0 : ℚ) < 10 ^ state.exponent := by positivity
  have value : (⟨state.coefficient / 2, state.exponent + 1⟩ : Approximation).value =
      (state.coefficient / 2 : Nat) * 2 * 10 ^ state.exponent * 5 := by
    rw [Approximation.value, zpow_add_one₀ (by norm_num)]
    ring
  have least : limit = 79228162514264337593543950336 := by decide
  refine ⟨fun positive => ?_, fun inside => ?_, ⟨Int.le_add_one le_rfl, le_rfl⟩, ?_, ?_⟩
  · dsimp only
    omega
  · dsimp only
    omega
  · rw [value, Approximation.value, pow_one]
    have : ((state.coefficient / 2 : Nat) : ℚ) * 2 ≤ state.coefficient := by
      exact_mod_cast Nat.div_mul_le_self _ 2
    gcongr
  · rw [value, Approximation.value, pow_one, pow_one]
    have lost : (state.coefficient : ℚ) ≤ (state.coefficient / 2 : Nat) * 2 * (1 + slack) := by
      rcases full with even | large
      · have same : ((state.coefficient / 2 : Nat) : ℚ) * 2 = state.coefficient := by
          exact_mod_cast Nat.div_mul_cancel (Nat.dvd_of_mod_eq_zero even)
        rw [same]
        exact le_mul_of_one_le_right (Nat.cast_nonneg _) (by linarith [slack_nonneg])
      · -- The half that is cut off is no more than the slack of what remains.
        have rest : (state.coefficient : ℚ) ≤ (state.coefficient / 2 : Nat) * 2 + 1 := by
          exact_mod_cast (by omega : state.coefficient ≤ state.coefficient / 2 * 2 + 1)
        have large : (2 : ℚ) ^ 92 ≤ (state.coefficient / 2 : Nat) * 2 := by
          exact_mod_cast (by omega : 2 ^ 92 ≤ state.coefficient / 2 * 2)
        rw [slack]
        linarith
    calc (state.coefficient : ℚ) * 10 ^ state.exponent * 5
        ≤ (state.coefficient / 2 : Nat) * 2 * (1 + slack) * 10 ^ state.exponent * 5 := by gcongr
      _ = (state.coefficient / 2 : Nat) * 2 * 10 ^ state.exponent * 5 * (1 + slack) := by ring

theorem spends_five {state : Approximation} (room : 5 * state.coefficient < limit) :
    Spends 1 state ⟨5 * state.coefficient, state.exponent⟩ := by
  have value : (⟨5 * state.coefficient, state.exponent⟩ : Approximation).value =
      state.value * 5 := by
    rw [Approximation.value, Approximation.value]
    push_cast
    ring
  refine ⟨fun positive => Nat.mul_pos (by decide) positive, fun _ => room,
    ⟨le_rfl, Int.le_add_one le_rfl⟩, ?_, ?_⟩
  · rw [value, pow_one]
  · rw [value, pow_one, pow_one]
    have nonneg : 0 ≤ state.value := by
      rw [Approximation.value]
      positivity
    exact le_mul_of_one_le_right (by positivity) (by linarith [slack_nonneg])

theorem spends_spendHalves (halves : Nat) (state : Approximation) :
    Spends halves state (spendHalves halves state) := by
  induction halves generalizing state with
  | zero => exact .refl state
  | succ halves ih =>
      rw [spendHalves, Nat.add_comm]
      split
      · next even => exact (spends_half (.inl even)).trans (ih _)
      · split
        · next room => exact (spends_five room).trans (ih _)
        · next full => exact (spends_half (.inr (Nat.le_of_not_lt full))).trans (ih _)

/-! ## Trading doublings for powers of ten -/

/-- Doublings are traded without leaving the range of coefficients. -/
theorem inside_spendDoubles {doubles : Nat} {state last : Approximation}
    (positive : 0 < state.coefficient) (inside : state.coefficient < limit)
    (traded : spendDoubles doubles state = some last) :
    0 < last.coefficient ∧ last.coefficient < limit ∧ state.exponent ≤ last.exponent + doubles := by
  have least : limit = 79228162514264337593543950336 := by decide
  induction doubles generalizing state with
  | zero =>
      cases traded
      exact ⟨positive, inside, by simp⟩
  | succ doubles ih =>
      rw [spendDoubles] at traded
      split at traded
      · next room =>
          obtain ⟨positive', inside', exponent⟩ := ih (by dsimp only; omega) (by dsimp only; omega) traded
          exact ⟨positive', inside', by push_cast; linarith⟩
      · split at traded
        · cases traded
        · obtain ⟨positive', inside', exponent⟩ :=
            ih (by dsimp only; omega) (by dsimp only; omega) traded
          exact ⟨positive', inside', by push_cast; linarith⟩

theorem inside_raise {powers coefficient raised : Nat} (positive : 0 < coefficient)
    (inside : coefficient < limit) (found : raise powers coefficient = some raised) :
    0 < raised ∧ raised < limit := by
  induction powers generalizing coefficient with
  | zero =>
      cases found
      exact ⟨positive, inside⟩
  | succ powers ih =>
      rw [raise] at found
      split at found
      · next room => exact ih (Nat.mul_pos (by decide) positive) room found
      · cases found

/-! ## Cutting digits -/

/-- `0.9444…` units of the last place behind the point. -/
def least : ℚ := 85 / (9 * 10 ^ 29)

/-- With digits to be dropped a coefficient vanishes if it is below `0.9444…` units of the place behind
which they stand. -/
theorem cutDigits_eq_zero_iff {scale : Nat} (digits coefficient : Nat) :
    (cutDigits scale (digits + 1) coefficient).1 = 0 ↔ 9 * coefficient < 85 * 10 ^ digits := by
  induction digits generalizing coefficient with
  | zero =>
      rw [cutDigits]
      split
      · next single => exact iff_of_true rfl (by omega)
      · next several =>
          rw [cutDigits, dropDigit]
          split <;> constructor <;> intro <;> omega
  | succ digits ih =>
      -- The bound has the remainder 4, so no coefficient comes closer to it than four parts of nine.
      have remainder : 85 * 10 ^ digits % 9 = 4 := by
        rw [Nat.mul_mod, Nat.pow_mod]
        simp
      have more : 85 * 10 ^ (digits + 1) = 10 * (85 * 10 ^ digits) := by ring
      have large : 85 ≤ 85 * 10 ^ digits := Nat.le_mul_of_pos_right _ (by positivity)
      rw [cutDigits, more]
      split
      · next single => exact iff_of_true rfl (by omega)
      · next several =>
          rw [ih, dropDigit]
          split <;> omega

/-- A shorter coefficient with no more digits behind the point, which is zero only if it was. -/
def Shortens (coefficient scale : Nat) (shorter : Nat × Nat) : Prop :=
  shorter.1 ≤ coefficient ∧ shorter.2 ≤ scale ∧ (shorter.1 = 0 ↔ coefficient = 0)

theorem Shortens.trans {coefficient scale : Nat} {shorter last : Nat × Nat}
    (first : Shortens coefficient scale shorter) (second : Shortens shorter.1 shorter.2 last) :
    Shortens coefficient scale last :=
  ⟨second.1.trans first.1, second.2.1.trans first.2.1, second.2.2.trans first.2.2⟩

theorem shortens_cutPrecision (scale coefficient : Nat) :
    Shortens coefficient scale (cutPrecision scale coefficient) := by
  induction scale generalizing coefficient with
  | zero => exact ⟨le_rfl, le_rfl, Iff.rfl⟩
  | succ scale ih =>
      rw [cutPrecision]
      split
      · next large =>
          have size : binade = 0x10000000000000 := rfl
          have dropped : Shortens coefficient (scale + 1) (dropDigit coefficient, scale) := by
            simp only [Shortens, dropDigit]
            split <;> omega
          exact dropped.trans (ih _)
      · exact ⟨le_rfl, le_rfl, Iff.rfl⟩

theorem shortens_cutZeros (scale coefficient : Nat) :
    Shortens coefficient scale (cutZeros scale coefficient) := by
  induction scale generalizing coefficient with
  | zero => exact ⟨le_rfl, le_rfl, Iff.rfl⟩
  | succ scale ih =>
      rw [cutZeros]
      split
      · have dropped : Shortens coefficient (scale + 1) (coefficient / 10, scale) := by
          simp only [Shortens]
          omega
        exact dropped.trans (ih _)
      · exact ⟨le_rfl, le_rfl, Iff.rfl⟩

theorem cutDigits_le (scale digits coefficient : Nat) :
    (cutDigits scale digits coefficient).1 ≤ coefficient ∧
      (cutDigits scale digits coefficient).2 ≤ scale := by
  induction digits generalizing coefficient with
  | zero => exact ⟨le_rfl, le_rfl⟩
  | succ digits ih =>
      rw [cutDigits]
      split
      · exact ⟨Nat.zero_le _, Nat.zero_le _⟩
      · next several =>
          refine ⟨(ih _).1.trans ?_, (ih _).2⟩
          rw [dropDigit]
          split <;> omega

/-- The decimal of a coefficient with digits behind the point, as many as are needed and possible. -/
def shortened (negative : Bool) (coefficient scale : Nat) : Decimal :=
  let (coefficient, scale) := cutDigits (min scale maxScale) (scale - maxScale) coefficient
  let (coefficient, scale) := cutPrecision scale coefficient
  let (coefficient, scale) := cutZeros scale coefficient
  ⟨negative, coefficient, scale⟩

theorem shortens_shortened (negative : Bool) (coefficient scale : Nat) :
    Shortens (cutDigits (min scale maxScale) (scale - maxScale) coefficient).1
      (cutDigits (min scale maxScale) (scale - maxScale) coefficient).2
      ((shortened negative coefficient scale).coefficient,
        (shortened negative coefficient scale).scale) :=
  (shortens_cutPrecision _ _).trans (shortens_cutZeros _ _)

/-- A coefficient that is not zero vanishes exactly if what it stands for is below the limit. -/
theorem shortened_eq_zero_iff {negative : Bool} {coefficient : Nat} (positive : 0 < coefficient)
    (scale : Nat) :
    (shortened negative coefficient scale).coefficient = 0 ↔
      (coefficient : ℚ) / 10 ^ scale < least := by
  refine (shortens_shortened negative coefficient scale).2.2.trans ?_
  have power : (0 : ℚ) < 10 ^ scale := by positivity
  rw [least, div_lt_div_iff₀ power (by norm_num)]
  rcases Nat.lt_or_ge maxScale scale with more | enough
  · obtain ⟨digits, rfl⟩ : ∃ digits, scale = digits + 29 := ⟨scale - 29, by
      have : maxScale = 28 := rfl
      omega⟩
    have dropped : digits + 29 - maxScale = digits + 1 := rfl
    rw [dropped, cutDigits_eq_zero_iff, pow_add, ← mul_assoc, ← mul_assoc, mul_comm (coefficient : ℚ) 9,
      mul_lt_mul_iff_left₀ (by norm_num)]
    exact_mod_cast Iff.rfl
  · rw [Nat.sub_eq_zero_of_le enough, cutDigits]
    refine iff_of_false positive.ne' (not_lt.mpr ?_)
    have one : (1 : ℚ) ≤ coefficient := by exact_mod_cast positive
    calc (85 : ℚ) * 10 ^ scale ≤ 85 * 10 ^ 28 := by
          gcongr
          · norm_num
          · exact enough
      _ ≤ 1 * (9 * 10 ^ 29) := by norm_num
      _ ≤ coefficient * (9 * 10 ^ 29) := by gcongr

/-! ## Decimals of magnitudes -/

section Magnitudes

variable {negative : Bool} {rank : Nat} {x : Decimal}

/-- A magnitude with units of one at most has a decimal, which loses no more than the slack before digits
are cut. -/
theorem exists_shortened (positive : 0 < rank) (fine : exponentOf rank ≤ 0) (negative : Bool) :
    ∃ coefficient scale, ofMagnitude? negative rank = some (shortened negative coefficient scale) ∧
      0 < coefficient ∧ coefficient < limit ∧
      (coefficient : ℚ) / 10 ^ scale ≤ magnitude rank ∧
      magnitude rank ≤ coefficient / 10 ^ scale * (1 + slack) ^ (-exponentOf rank).toNat := by
  generalize startIs : (⟨significandOf rank, exponentOf rank⟩ : Approximation) = start
  have spends := spends_spendHalves (-exponentOf rank).toNat start
  generalize tradedIs : spendHalves (-exponentOf rank).toNat start = traded at spends
  subst startIs
  have before : traded.exponent ≤ 0 := by
    have := spends.exponents.2
    dsimp only at this
    omega
  have traded_eq : traded.value = (traded.coefficient : ℚ) / 10 ^ (-traded.exponent).toNat := by
    have scale : traded.exponent = -((-traded.exponent).toNat : Int) := by omega
    rw [Approximation.value, div_eq_mul_inv, ← zpow_natCast, ← zpow_neg, ← scale]
  have start_eq : (⟨significandOf rank, exponentOf rank⟩ : Approximation).value *
      5 ^ (-exponentOf rank).toNat = magnitude rank := by
    have halves : exponentOf rank = -((-exponentOf rank).toNat : Int) := by omega
    rw [Approximation.value, magnitude, unit, mul_assoc]
    generalize (-exponentOf rank).toNat = count at halves
    rw [halves, zpow_neg, zpow_neg, zpow_natCast, zpow_natCast, show (10 : ℚ) = 2 * 5 by norm_num,
      mul_pow]
    field_simp
  have small : significandOf rank < limit := (significandOf_lt rank).trans (by decide)
  refine ⟨traded.coefficient, (-traded.exponent).toNat, ?_,
    spends.positive (significandOf_pos positive), spends.inside small, ?_, ?_⟩
  · simp only [ofMagnitude?, Int.toNat_of_nonpos fine, spendDoubles, tradedIs,
      Int.toNat_of_nonpos before, raise, Option.bind_eq_bind, Option.bind_some]
    rfl
  · rw [← traded_eq, ← start_eq]
    exact spends.below
  · rw [← traded_eq, ← start_eq]
    exact spends.above

/-- A magnitude of whole units has a decimal without digits behind the point, if it has one. -/
theorem whole_of_ofMagnitude? (positive : 0 < rank) (whole : 0 ≤ exponentOf rank)
    (found : ofMagnitude? negative rank = some x) :
    ∃ coefficient, x = shortened negative coefficient 0 ∧ 0 < coefficient ∧ coefficient < limit := by
  have noHalves : (-exponentOf rank).toNat = 0 := Int.toNat_of_nonpos (by omega)
  simp only [ofMagnitude?, noHalves, spendHalves, Option.bind_eq_bind, Option.bind_eq_some_iff] at found
  obtain ⟨traded, doubled, raised, found, same⟩ := found
  have small : significandOf rank < limit := (significandOf_lt rank).trans (by decide)
  obtain ⟨positive, inside, exponent⟩ := inside_spendDoubles (significandOf_pos positive) small doubled
  obtain ⟨positive, inside⟩ := inside_raise positive inside found
  have noScale : (-traded.exponent).toNat = 0 := Int.toNat_of_nonpos (by
    dsimp only at exponent
    omega)
  rw [noScale] at same
  cases same
  exact ⟨raised, rfl, positive, inside⟩

/-! ### The least magnitude that does not vanish -/

/-- The rank of the least magnitude from which on decimals do not vanish. -/
def leastRank : Nat := 0x3A1DEE3E5E685AC3

theorem magnitude_before_leastRank : magnitude (leastRank - 1) < least := by
  have parts : leastRank - 1 = 0x1DEE3E5E685AC2 + 928 * binade := by decide
  rw [parts, magnitude_of_count (.inr (by decide)) (by decide), leastExponent, least]
  norm_num

/-- The least magnitude exceeds the limit by more than can be lost. -/
theorem least_slack_le : least * (1 + slack) ^ 146 ≤ magnitude leastRank := by
  have parts : leastRank = 0x1DEE3E5E685AC3 + 928 * binade := by decide
  rw [parts, magnitude_of_count (.inr (by decide)) (by decide), leastExponent, least, slack]
  norm_num

theorem leastRank_le_of_least_le (lasts : least ≤ magnitude rank) : leastRank ≤ rank := by
  by_contra less
  have before : rank ≤ leastRank - 1 := by omega
  have small := magnitude_strictMono.monotone before
  linarith [magnitude_before_leastRank]

theorem exponentOf_ge_of_leastRank_le (lasts : leastRank ≤ rank) : -146 ≤ exponentOf rank := by
  have size : binade = 0x10000000000000 := rfl
  have large : leastRank = 0x3A1DEE3E5E685AC3 := rfl
  have steps : 928 ≤ step rank := by
    rw [step, if_neg (by omega)]
    have : leastRank / binade ≤ rank / binade := Nat.div_le_div_right lasts
    have : leastRank / binade = 929 := by decide
    omega
  have start : leastExponent = -1074 := rfl
  rw [exponentOf_eq]
  omega

/-- What is lost in the conversion does not take a magnitude below the limit. -/
theorem least_le_of_le {number : ℚ} (lasts : least ≤ magnitude rank)
    (above : magnitude rank ≤ number * (1 + slack) ^ (-exponentOf rank).toNat) : least ≤ number := by
  have high := leastRank_le_of_least_le lasts
  have halves : (-exponentOf rank).toNat ≤ 146 := by
    have := exponentOf_ge_of_leastRank_le high
    omega
  have factor : 1 ≤ 1 + slack := by linarith [slack_nonneg]
  have nonneg : 0 ≤ number := by
    have positive : 0 < least := by
      rw [least]
      norm_num
    exact (pos_of_mul_pos_left (positive.trans_le (lasts.trans above)) (by positivity)).le
  refine le_of_mul_le_mul_right ?_ (by positivity : 0 < (1 + slack) ^ 146)
  calc least * (1 + slack) ^ 146 ≤ magnitude leastRank := least_slack_le
    _ ≤ magnitude rank := magnitude_strictMono.monotone high
    _ ≤ number * (1 + slack) ^ (-exponentOf rank).toNat := above
    _ ≤ number * (1 + slack) ^ 146 := by gcongr

theorem least_lt_one : least < 1 := by
  rw [least]
  norm_num

theorem least_lt_of_whole (positive : 0 < rank) (whole : 0 ≤ exponentOf rank) :
    least < magnitude rank := by
  have count : (1 : ℚ) ≤ significandOf rank := by exact_mod_cast significandOf_pos positive
  have units : (1 : ℚ) ≤ unit rank := one_le_zpow₀ (by norm_num) whole
  exact least_lt_one.trans_le (one_le_mul_of_one_le_of_one_le count units)

/-- A magnitude below the limit has a decimal. -/
theorem exists_ofMagnitude? (positive : 0 < rank) (small : magnitude rank < least) (negative : Bool) :
    ∃ x, ofMagnitude? negative rank = some x := by
  rcases le_total (exponentOf rank) 0 with fine | whole
  · obtain ⟨coefficient, scale, found, _⟩ := exists_shortened positive fine negative
    exact ⟨_, found⟩
  · exact absurd (least_lt_of_whole positive whole) small.le.not_gt

/-- The decimal of a magnitude is made of a coefficient that is below the limit only if the magnitude
is. -/
theorem exists_coefficient (positive : 0 < rank) (found : ofMagnitude? negative rank = some x) :
    ∃ coefficient scale, x = shortened negative coefficient scale ∧ 0 < coefficient ∧
      coefficient < limit ∧ ((coefficient : ℚ) / 10 ^ scale < least ↔ magnitude rank < least) := by
  rcases le_total (exponentOf rank) 0 with fine | whole
  · obtain ⟨coefficient, scale, same, left, inside, below, above⟩ :=
      exists_shortened positive fine negative
    rw [same] at found
    cases found
    refine ⟨coefficient, scale, rfl, left, inside, fun small => ?_, fun small => below.trans_lt small⟩
    by_contra lasts
    exact absurd (least_le_of_le (not_lt.mp lasts) above) (not_le.mpr small)
  · obtain ⟨coefficient, same, left, inside⟩ := whole_of_ofMagnitude? positive whole found
    refine ⟨coefficient, 0, same, left, inside, ?_⟩
    have large : least < coefficient / 10 ^ 0 := by
      rw [pow_zero, div_one]
      exact least_lt_one.trans_le (by exact_mod_cast left)
    exact iff_of_false large.le.not_gt (least_lt_of_whole positive whole).le.not_gt

/-- The decimal of a magnitude is zero exactly if the magnitude is below the limit. -/
theorem coefficient_eq_zero_iff (positive : 0 < rank) (found : ofMagnitude? negative rank = some x) :
    x.coefficient = 0 ↔ magnitude rank < least := by
  obtain ⟨coefficient, scale, rfl, left, _, same⟩ := exists_coefficient positive found
  rw [shortened_eq_zero_iff left, same]

/-- The decimal of a magnitude is in range. -/
theorem inside_of_ofMagnitude? (positive : 0 < rank) (found : ofMagnitude? negative rank = some x) :
    x.coefficient < limit ∧ x.scale ≤ maxScale := by
  obtain ⟨coefficient, scale, rfl, _, inside, _⟩ := exists_coefficient positive found
  have shorter := shortens_shortened negative coefficient scale
  have cut := cutDigits_le (min scale maxScale) (scale - maxScale) coefficient
  exact ⟨(shorter.1.trans cut.1).trans_lt inside,
    (shorter.2.1.trans cut.2).trans (min_le_right _ _)⟩

end Magnitudes

/-! ## The way back -/

section WayBack

open Binary64 (AtLeast IsNonzero ofNat)

/-- The binary number of a decimal without its sign. -/
def sizeOf (coefficient scale : Nat) : Binary64 :=
  let unit := Nat.pow 10 scale
  let whole := ofNat (coefficient / unit)
  let fraction := (ofNat (coefficient % unit)).div (ofNat unit)
  if scale = 0 then ofNat coefficient
  else if fraction.isZero then whole
  else ((whole.add fraction).mul (ofNat unit)).round.div (ofNat unit)

theorem toBinary_eq (x : Decimal) :
    x.toBinary =
      if x.negative then (sizeOf x.coefficient x.scale).neg else sizeOf x.coefficient x.scale :=
  rfl

theorem isNonzero_ofNat {n : Nat} (positive : 0 < n) : (ofNat n).IsNonzero :=
  (Binary64.atLeast_ofNat le_rfl (by decide) (by exact_mod_cast positive)).isNonzero

/-- The units of the last place lie between two powers of two. -/
theorem exists_power {scale : Nat} (places : scale ≤ maxScale) :
    ∃ power ≤ 93, 2 ^ power ≤ 10 ^ scale ∧ 10 ^ scale ≤ 2 ^ (power + 1) := by
  have nonzero : 10 ^ scale ≠ 0 := by positivity
  refine ⟨(10 ^ scale).log2, ?_, Nat.log2_self_le nonzero, Nat.lt_log2_self.le⟩
  have most : 10 ^ scale < 2 ^ 94 :=
    (Nat.pow_le_pow_right (by decide) places).trans_lt (by decide)
  exact Nat.le_of_lt_succ ((Nat.log2_lt nonzero).mpr most)

/-- The binary number of a decimal other than zero is neither zero nor a NaN. -/
theorem isNonzero_sizeOf {coefficient scale : Nat} (positive : 0 < coefficient)
    (places : scale ≤ maxScale) : (sizeOf coefficient scale).IsNonzero := by
  obtain ⟨power, few, low, high⟩ := exists_power places
  obtain ⟨rank, bounded, unitIs, finite, below, above⟩ :=
    Binary64.exists_ofNat (by omega : power ≤ 1022) low high
  have unitPos : 0 < rank := Binary64.rank_pos_of_le below
  have unitLeast : AtLeast power (ofNat (10 ^ scale)) := ⟨rank, bounded, unitIs, below⟩
  simp only [sizeOf, Nat.pow_eq]
  split
  · exact isNonzero_ofNat positive
  generalize fractionIs : (ofNat (coefficient % 10 ^ scale)).div (ofNat (10 ^ scale)) = fraction
  rcases Nat.eq_zero_or_pos (coefficient % 10 ^ scale) with none | some
  · -- Without a fraction the whole part is all there is.
    have zero : fraction.isZero = true := by
      rw [← fractionIs, none, unitIs]
      exact Binary64.isZero_zero_div bounded unitPos finite
    rw [if_pos zero]
    refine isNonzero_ofNat (Nat.div_pos ?_ (by positivity))
    exact Nat.le_of_dvd positive (Nat.dvd_of_mod_eq_zero none)
  · -- A fraction is at least one unit of the last place, up to a factor of two.
    have fractionLeast : AtLeast (0 - (power + 1)) fraction := by
      rw [← fractionIs, unitIs]
      refine AtLeast.div (by omega) (by omega) ?_ unitPos finite above
      exact Binary64.atLeast_ofNat le_rfl (by decide) (by exact_mod_cast some)
    rw [if_neg (by simp [fractionLeast.isNonzero.2])]
    have summed : AtLeast (0 - (power + 1)) ((ofNat (coefficient / 10 ^ scale)).add fraction) :=
      AtLeast.add_left (by omega) (by omega) fractionLeast
    have scaled := AtLeast.mul (by omega) (by omega) summed unitLeast
    rw [show 0 - ((power : Int) + 1) + power = -1 by ring] at scaled
    have rounded := scaled.round
    rw [unitIs] at rounded ⊢
    exact (AtLeast.div (by omega) (by omega) rounded unitPos finite above).isNonzero

theorem isNonzero_toBinary {x : Decimal} (nonzero : x.coefficient ≠ 0) (places : x.scale ≤ maxScale) :
    x.toBinary.IsNonzero := by
  have size := isNonzero_sizeOf (Nat.pos_of_ne_zero nonzero) places
  rw [toBinary_eq]
  split
  · exact size.neg
  · exact size

end WayBack

end Mixfix.Decimal
