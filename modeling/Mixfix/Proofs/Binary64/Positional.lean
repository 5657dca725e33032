import Mathlib
import Mixfix.Proofs.Binary64.ReadBack

/-!
# Numbers that are written positionally

A finite number is written in a descriptor as a minus, if it is below zero, and as the digits of a
natural number or as digits with a point between them (`positional_limitText`); so no zero stands in
front that the digits of the number would not have. A decimal that is nearest to a magnitude is read
as this magnitude (`ofDecimal_eq`), also where the power of ten is so small that it is decided
without computing.
-/

set_option autoImplicit false

namespace Mixfix

open Unicode (isAsciiDigit)

/-! ## Digits -/

/-- The digits of a natural number, or digits with a point between them. -/
inductive IsPositional : List Char → Prop
  | whole (n : Nat) : IsPositional (Nat.toDigits 10 n)
  | point {whole fraction : List Char} (nonempty : whole ≠ [])
      (isDigits : ∀ c ∈ whole ++ fraction, isAsciiDigit c = true) :
      IsPositional (whole ++ '.' :: fraction)

/-- A positional text starts with a digit. -/
theorem IsPositional.exists_digit {text : List Char} (positional : IsPositional text) :
    ∃ c rest, text = c :: rest ∧ isAsciiDigit c = true := by
  cases positional with
  | whole n => exact Numeral.exists_toDigits n
  | @point whole fraction nonempty isDigits =>
      obtain ⟨c, rest, rfl⟩ := List.exists_cons_of_ne_nil nonempty
      exact ⟨c, rest ++ '.' :: fraction, rfl, isDigits c (by simp)⟩

/-- Zeros behind the digits of a number are digits of a number. -/
theorem toDigits_append_zeros {n : Nat} (positive : 0 < n) (count : Nat) :
    Nat.toDigits 10 n ++ List.replicate count '0' = Nat.toDigits 10 (n * 10 ^ count) := by
  induction count with
  | zero => rw [List.replicate_zero, List.append_nil, pow_zero, Nat.mul_one]
  | succ count ih =>
      have scaled : 0 < n * 10 ^ count := Nat.mul_pos positive (Nat.pow_pos (by decide))
      have zero : ['0'] = Nat.toDigits 10 0 := by decide
      rw [List.replicate_succ', ← List.append_assoc, ih, zero,
        Nat.toDigits_append_toDigits (by decide) scaled (by decide)]
      congr 1
      ring

/-- A positive decimal is written positionally. -/
theorem positional_decimals {decimals : Decimals} (positive : 0 < decimals.count) :
    IsPositional (Layout.plain.decimals decimals).toList := by
  have isDigits := Numeral.digits_toDigits decimals.count
  simp only [Layout.decimals, Layout.plain, if_true, String.append_empty]
  split
  · rw [String.toList_ofList, toDigits_append_zeros positive]
    exact .whole _
  · split
    · next leading =>
        rw [String.toList_ofList]
        refine .point ?_ fun c mem => ?_
        · have nonempty := Numeral.toDigits_ne_nil decimals.count
          rw [Ne, List.take_eq_nil_iff, not_or]
          exact ⟨by omega, nonempty⟩
        · rw [List.take_append_drop] at mem
          exact isDigits c mem
    · rw [String.toList_ofList]
      show IsPositional (['0'] ++ '.' :: (List.replicate _ '0' ++ Nat.toDigits 10 decimals.count))
      refine .point (List.cons_ne_nil _ _) fun c mem => ?_
      rw [List.mem_append, List.mem_append, List.mem_singleton] at mem
      rcases mem with rfl | zeros | digits
      · decide
      · rw [(List.mem_replicate.mp zeros).2]
        decide
      · exact isDigits c digits

namespace Binary64

/-! ## Limits -/

/-- A finite number is written as a minus, if it is below zero, and a positional decimal that is
nearest to its magnitude. -/
theorem positional_limitText {negative : Bool} {rank : Nat} (bounded : rank ≤ 0x7FF0000000000000)
    (finite : rank ≠ infinityRank) :
    ∃ size, (signed negative rank bounded).limitText.toList =
        (if negative && rank != 0 then '-' :: size else size) ∧
      IsPositional size ∧ IsNearest rank (Numeral.spelled size) := by
  obtain ⟨size, text, spells⟩ : Spells _ (signed negative rank bounded) :=
    spells_limitText (by simp)
  rw [SpellsSize, if_neg finite] at spells
  refine ⟨size, by simpa using text, ?_, spells.2⟩
  -- the magnitude is written in the same way whatever sign precedes it
  have same : ∀ {size' : List Char}, (signed negative rank bounded).limitText.toList =
      (if negative = true ∧ rank ≠ 0 then '-' :: size' else size') → size = size' := by
    intro size' text'
    rw [text] at text'
    split at text'
    · exact List.tail_eq_of_cons_eq text'
    · exact text'
  by_cases zero : rank = 0
  · subst zero
    have digit : size = ['0'] := same (by simp [limitText_zero])
    rw [digit]
    exact .whole 0
  have shown : ((signed negative rank bounded).text .plain).toList =
      if negative = true ∧ rank ≠ 0 then
        '-' :: (Layout.plain.decimals (shortest Layout.plain.tie rank)).toList
      else (Layout.plain.decimals (shortest Layout.plain.tie rank)).toList := by
    cases negative <;> simp [Binary64.text, finite, zero]
  have plain : IsPositional (Layout.plain.decimals (shortest Layout.plain.tie rank)).toList := by
    have positive := Nat.pos_of_ne_zero zero
    have nearest := isNearest_shortest Layout.plain.tie positive
      (Nat.lt_of_le_of_ne bounded finite)
    apply positional_decimals
    apply Nat.pos_of_ne_zero
    intro none
    obtain ⟨before, rfl⟩ := Nat.exists_eq_succ_of_ne_zero zero
    have above := nearest.pos
    rw [Decimals.value, none] at above
    simp at above
  unfold limitText at same
  split at same
  · next n whole =>
      obtain ⟨-, -, sign⟩ := magnitude_of_toInt? bounded whole
      split at same
      · have digits : size = Nat.toDigits 10 n.natAbs := by
          apply same
          rw [Numeral.toList_toString]
          by_cases below : n < 0
          · rw [if_pos below, if_pos ⟨(sign zero).mpr below, zero⟩]
            rfl
          · rw [if_neg below, if_neg fun negative => below ((sign zero).mp negative.1)]
            rfl
        rw [digits]
        exact .whole _
      · rw [same shown]
        exact plain
  · rw [same shown]
    exact plain

/-! ## Reading decimals -/

/-- What is far below half the least magnitude is nearest to zero only. -/
theorem eq_zero_of_isNearest_of_lt {rank : Nat} {number : ℚ} (nearest : IsNearest rank number)
    (small : number < 10 ^ (-331 : Int)) : rank = 0 := by
  by_contra nonzero
  obtain ⟨before, rfl⟩ := Nat.exists_eq_succ_of_ne_zero nonzero
  have least := nearest.halfway_le
  have first : halfway 0 ≤ halfway before := halfway_strictMono.monotone (Nat.zero_le before)
  have half : (10 : ℚ) ^ (-331 : Int) ≤ halfway 0 := by
    have exponent : exponentOf 0 = -1074 := by decide
    have powers : (2 : ℚ) ^ 1074 * 2 ≤ 10 ^ 331 := by
      exact_mod_cast (by decide +kernel : 2 ^ 1074 * 2 ≤ 10 ^ 331)
    rw [halfway, magnitude_zero, unit, exponent, zero_add, zpow_neg, zpow_neg, le_div_iff₀ two_pos,
      inv_mul_le_iff₀ (by positivity), ← div_eq_mul_inv, le_div_iff₀ (by positivity), mul_comm]
    exact_mod_cast powers
  linarith

/-- A decimal is read as the magnitude that it is nearest to. -/
theorem ofDecimal_eq {count : Nat} {exponent : Int} {rank : Nat}
    (bounded : rank ≤ 0x7FF0000000000000) (nearest : IsNearest rank (count * 10 ^ exponent))
    (small : exponent ≤ 310) (negative : Bool) :
    ofDecimal negative count exponent = .signed negative rank bounded := by
  have ofZero : rank = 0 → zero negative = .signed negative rank bounded := by
    rintro rfl
    rfl
  unfold ofDecimal
  split
  · next none =>
      rw [none, Nat.cast_zero, zero_mul] at nearest
      exact ofZero (eq_zero_of_isNearest_of_lt nearest (by positivity))
  · split
    · omega
    · split
      · next tiny =>
          apply ofZero
          apply eq_zero_of_isNearest_of_lt nearest
          have bits : (count : ℚ) < 10 ^ ((count.log2 : Int) + 1) := by
            have less : count < 10 ^ (count.log2 + 1) :=
              Nat.lt_of_lt_of_le Nat.lt_log2_self (Nat.pow_le_pow_left (by decide) _)
            exact_mod_cast less
          have scale : (10 : ℚ) ^ exponent ≤ 10 ^ (-(332 + count.log2 : Int)) :=
            zpow_le_zpow_right₀ (by norm_num) (by omega)
          calc (count : ℚ) * 10 ^ exponent
              < 10 ^ ((count.log2 : Int) + 1) * 10 ^ exponent :=
                mul_lt_mul_of_pos_right bits (by positivity)
            _ ≤ 10 ^ ((count.log2 : Int) + 1) * 10 ^ (-(332 + count.log2 : Int)) :=
                mul_le_mul_of_nonneg_left scale (by positivity)
            _ = 10 ^ (-331 : Int) := by
                rw [← zpow_add₀ (by norm_num)]
                congr 1
                ring
      · have positive : 0 < Nat.pow 10 (-exponent).toNat := Nat.pow_pos (by decide)
        have rounded := isNearest_rankOfQuotient (count * Nat.pow 10 exponent.toNat) positive
        have tens := zpow_toNat 10 (by norm_num) exponent
        have value : ((count * Nat.pow 10 exponent.toNat : Nat) : ℚ) /
            (Nat.pow 10 (-exponent).toNat : Nat) = count * 10 ^ exponent := by
          simp only [Nat.pow_eq] at positive ⊢
          rw [div_eq_iff (by positivity)]
          push_cast
          rw [mul_assoc, tens]
        rw [value] at rounded
        have same := rounded.unique nearest
        subst same
        have finite : rankOfQuotient _ _ ≤ infinityRank := bounded
        simp only [ofQuotient, ofRank, Nat.min_eq_left finite]

end Binary64

end Mixfix
