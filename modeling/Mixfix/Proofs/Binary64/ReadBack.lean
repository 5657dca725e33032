import Mathlib
import Mixfix.Binary64.Text
import Mixfix.Proofs.Binary64.Characters
import Mixfix.Proofs.Binary64.Shortest

/-!
# Reading numbers back

The text of a number in a descriptor is a sign and a decimal that is nearest to the magnitude of the
number, whether it is written as an integer or with the fewest digits (`spells_limitText`). So two
numbers of one text are equal (`eq_of_spells`), and so are an integer and a number of one text.

Below `2 ^ 53` the units of the magnitudes are no larger than one, so no two integers are nearest to
one magnitude (`eq_of_isNearest_of_small`).
-/

set_option autoImplicit false

namespace Mixfix

open Unicode (isAsciiDigit)

/-! ## Decimals -/

namespace Numeral

theorem value_append_zeros (digits : List Char) (count : Nat) :
    value (digits ++ List.replicate count '0') = value digits * 10 ^ count := by
  induction count with
  | zero => rw [List.replicate_zero, List.append_nil, pow_zero, Nat.mul_one]
  | succ count ih =>
      rw [List.replicate_succ', ← List.append_assoc, value, valueIn, List.foldl_append]
      show value (digits ++ List.replicate count '0') * 10 + 0 = _
      rw [ih, pow_succ]
      ring

/-- The number that digits spell, with a point among them or without one. -/
def spelled (text : List Char) : ℚ :=
  let fraction := (text.dropWhile (· != '.')).drop 1
  value (text.takeWhile (· != '.') ++ fraction) * 10 ^ (-(fraction.length : Int))

theorem ne_point_of_digit {c : Char} (digit : isAsciiDigit c = true) : (c != '.') = true := by
  rw [bne_iff_ne]
  rintro rfl
  exact absurd digit (by decide)

theorem spelled_digits {digits : List Char} (isDigits : ∀ c ∈ digits, isAsciiDigit c = true) :
    spelled digits = value digits := by
  have plain : ∀ c ∈ digits, (c != '.') = true := fun c mem => ne_point_of_digit (isDigits c mem)
  simp [spelled, List.takeWhile_eq_self_iff.mpr plain, List.dropWhile_eq_nil_iff.mpr plain]

theorem spelled_point {whole : List Char} (fraction : List Char)
    (isDigits : ∀ c ∈ whole, isAsciiDigit c = true) :
    spelled (whole ++ '.' :: fraction) =
      value (whole ++ fraction) * 10 ^ (-(fraction.length : Int)) := by
  have plain : ∀ c ∈ whole, (c != '.') = true := fun c mem => ne_point_of_digit (isDigits c mem)
  simp [spelled, List.takeWhile_append_of_pos plain, List.dropWhile_append_of_pos plain]

theorem spelled_toDigits (n : Nat) : spelled (Nat.toDigits 10 n) = n := by
  rw [spelled_digits (digits_toDigits n), value_toDigits]

end Numeral

/-- Positionally, a decimal is written as the digits that spell it. -/
theorem spelled_decimals (decimals : Decimals) :
    (∃ c rest, (Layout.plain.decimals decimals).toList = c :: rest ∧ isAsciiDigit c = true) ∧
      Numeral.spelled (Layout.plain.decimals decimals).toList = decimals.value := by
  have isDigits := Numeral.digits_toDigits decimals.count
  have value := Numeral.value_toDigits decimals.count
  obtain ⟨c, rest, first, digit⟩ := Numeral.exists_toDigits decimals.count
  have positive : 0 < (Nat.toDigits 10 decimals.count).length := by simp [first]
  simp only [Layout.decimals, Layout.plain, if_true, String.append_empty]
  generalize Nat.toDigits 10 decimals.count = digits at isDigits value first positive ⊢
  split
  · next whole =>
      rw [String.toList_ofList]
      refine ⟨⟨c, rest ++ List.replicate decimals.exponent.toNat '0', by simp [first], digit⟩, ?_⟩
      rw [Numeral.spelled_digits, Numeral.value_append_zeros, value, Decimals.value]
      · obtain ⟨count, same⟩ := Int.eq_ofNat_of_zero_le whole
        rw [same]
        push_cast
        rfl
      · intro d mem
        rcases List.mem_append.mp mem with inside | zeros
        · exact isDigits d inside
        · rw [(List.mem_replicate.mp zeros).2]
          decide
  · next fraction =>
      split
      · next leading =>
          rw [String.toList_ofList]
          obtain ⟨point, same⟩ : ∃ point : Nat,
              decimals.exponent + digits.length - 1 + 1 = ((point + 1 : Nat) : Int) :=
            ⟨(decimals.exponent + digits.length - 1).toNat, by omega⟩
          rw [same, Int.toNat_natCast]
          refine ⟨⟨c, rest.take point ++ '.' :: digits.drop (point + 1), ?_, digit⟩, ?_⟩
          · rw [first]
            rfl
          · rw [Numeral.spelled_point _ fun d mem => isDigits d (List.mem_of_mem_take mem),
              List.take_append_drop, value, Decimals.value, List.length_drop]
            congr 2
            omega
      · next small =>
          rw [String.toList_ofList]
          refine ⟨⟨'0', _, rfl, by decide⟩, ?_⟩
          have zero : ∀ d ∈ ['0'], isAsciiDigit d = true := List.all_eq_true.mp (by decide)
          have parts := Numeral.spelled_point (List.replicate
            (-(decimals.exponent + digits.length - 1) - 1).toNat '0' ++ digits) zero
          have zeros : ['0'] ++ (List.replicate
              (-(decimals.exponent + digits.length - 1) - 1).toNat '0' ++ digits) =
              List.replicate ((-(decimals.exponent + digits.length - 1) - 1).toNat + 1) '0' ++
                digits := rfl
          rw [zeros, Numeral.value_zeros_append, value, List.length_append,
            List.length_replicate] at parts
          refine parts.trans ?_
          rw [Decimals.value]
          congr 2
          omega

namespace Binary64

/-! ## Integers -/

theorem unit_le_one {rank : Nat} (small : exponentOf rank ≤ 0) : unit rank ≤ 1 :=
  zpow_le_one_of_nonpos₀ one_le_two small

theorem unit_before_le (before : Nat) : unit before ≤ unit (before + 1) := by
  have positive := unit_pos (before + 1)
  rw [unit_before before]
  split
  · linarith
  · exact le_rfl

/-- No natural number but zero is nearest to zero. -/
theorem eq_zero_of_isNearest {n : Nat} (nearest : IsNearest 0 n) : n = 0 := by
  have below := nearest.le_halfway
  have one : unit 0 ≤ 1 := unit_le_one (by decide)
  rw [halfway, magnitude_zero] at below
  have less : (n : ℚ) < 1 := by linarith
  exact Nat.lt_one_iff.mp (by exact_mod_cast less)

theorem not_lt_of_isNearest {rank n m : Nat} (small : exponentOf rank ≤ 0)
    (nearest : IsNearest rank n) (nearest' : IsNearest rank m) : ¬ n < m := by
  intro less
  have step : (n : ℚ) + 1 ≤ m := by exact_mod_cast less
  have most := nearest'.le_halfway
  have one := unit_le_one small
  cases rank with
  | zero =>
      have zero := eq_zero_of_isNearest nearest'
      omega
  | succ before =>
      have least := nearest.halfway_le
      have width := unit_before_le before
      rw [halfway_eq_sub] at least
      rw [halfway] at most
      -- the interval is one unit wide, so both integers are at its ends and the unit is one
      have whole : unit (before + 1) = 1 := by linarith
      have middle : (m : ℚ) = significandOf (before + 1) + 1 / 2 := by
        have here : magnitude (before + 1) = significandOf (before + 1) := by
          rw [magnitude, whole, mul_one]
        rw [here] at least most
        linarith
      have twice : 2 * m = 2 * significandOf (before + 1) + 1 := by
        have : (2 : ℚ) * m = 2 * significandOf (before + 1) + 1 := by linarith
        exact_mod_cast this
      omega

/-- Where units are no larger than one, no two natural numbers are nearest to one magnitude. -/
theorem eq_of_isNearest_of_small {rank n m : Nat} (small : exponentOf rank ≤ 0)
    (nearest : IsNearest rank n) (nearest' : IsNearest rank m) : n = m :=
  Nat.le_antisymm (Nat.le_of_not_lt (not_lt_of_isNearest small nearest' nearest))
    (Nat.le_of_not_lt (not_lt_of_isNearest small nearest nearest'))

/-! ## Spellings -/

/-- A text spells the magnitude of a rank: a decimal nearest to it, or the word for infinity. -/
def SpellsSize (rank : Nat) (text : List Char) : Prop :=
  if rank = infinityRank then text = ['i', 'n', 'f']
  else (∃ c rest, text = c :: rest ∧ isAsciiDigit c = true) ∧ IsNearest rank (Numeral.spelled text)

theorem SpellsSize.head?_ne {rank : Nat} {text : List Char} (spells : SpellsSize rank text) :
    text.head? ≠ some '-' := by
  unfold SpellsSize at spells
  split at spells
  · subst spells
    decide
  · obtain ⟨⟨c, rest, rfl, digit⟩, -⟩ := spells
    rintro ⟨⟩
    exact absurd digit (by decide)

/-- A text spells one magnitude at most. -/
theorem SpellsSize.unique {rank rank' : Nat} {text : List Char} (spells : SpellsSize rank text)
    (spells' : SpellsSize rank' text) : rank = rank' := by
  have word : ¬ ∃ c rest, ['i', 'n', 'f'] = c :: rest ∧ isAsciiDigit c = true := by
    rintro ⟨c, rest, same, digit⟩
    cases same
    exact absurd digit (by decide)
  unfold SpellsSize at spells spells'
  split at spells <;> split at spells'
  · next first second => rw [first, second]
  · subst spells
    exact absurd spells'.1 word
  · subst spells'
    exact absurd spells.1 word
  · exact spells.2.unique spells'.2

/-- A text spells a number: a minus, if the number is below zero, and its magnitude. -/
def Spells (text : List Char) : Binary64 → Prop
  | .nan => False
  | .signed negative rank _ =>
    ∃ size, text = (if negative = true ∧ rank ≠ 0 then '-' :: size else size) ∧ SpellsSize rank size

/-- Numbers that one text spells are equal. -/
theorem eq_of_spells {text : List Char} {x y : Binary64} (spells : Spells text x)
    (spells' : Spells text y) : x.eq y = true := by
  cases x with
  | nan => cases spells
  | signed negative rank bounded =>
      cases y with
      | nan => cases spells'
      | signed negative' rank' bounded' =>
          obtain ⟨size, rfl, shape⟩ := spells
          obtain ⟨size', same, shape'⟩ := spells'
          have parts : size = size' ∧
              ((negative = true ∧ rank ≠ 0) ↔ (negative' = true ∧ rank' ≠ 0)) := by
            split at same <;> split at same
            · next signed signed' => exact ⟨List.tail_eq_of_cons_eq same, iff_of_true signed signed'⟩
            · exact absurd (same ▸ rfl) shape'.head?_ne
            · exact absurd (same ▸ rfl) shape.head?_ne
            · next plain plain' => exact ⟨same, iff_of_false plain plain'⟩
          obtain ⟨rfl, signs⟩ := parts
          obtain rfl := shape.unique shape'
          refine eq_signed_iff.mpr ⟨rfl, ?_⟩
          by_cases zero : rank = 0
          · exact .inl zero
          · simp only [ne_eq, zero, not_false_eq_true, and_true] at signs
            exact .inr (Bool.eq_iff_iff.mpr signs)

theorem spells_plain {negative : Bool} {rank : Nat} (bounded : rank ≤ 0x7FF0000000000000)
    (nonzero : rank ≠ 0) :
    Spells ((signed negative rank bounded).text .plain).toList (signed negative rank bounded) := by
  have sign : ∀ size : String, (if negative then "-" ++ size else size).toList =
      if negative = true ∧ rank ≠ 0 then '-' :: size.toList else size.toList := by
    intro size
    cases negative <;> simp [nonzero]
  simp only [text, sign]
  refine ⟨_, rfl, ?_⟩
  unfold SpellsSize
  by_cases infinite : rank = infinityRank
  · rw [if_pos infinite, if_pos infinite]
    rfl
  · rw [if_neg infinite, if_neg infinite, if_neg nonzero]
    obtain ⟨digits, spelled⟩ := spelled_decimals (shortest Layout.plain.tie rank)
    refine ⟨digits, ?_⟩
    rw [spelled]
    exact isNearest_shortest _ (Nat.pos_of_ne_zero nonzero) (Nat.lt_of_le_of_ne bounded infinite)

/-- An integer of the sign of a number that is nearest to its magnitude spells the number. -/
theorem spells_integer {n : Int} {rank : Nat} (bounded : rank ≤ 0x7FF0000000000000)
    (finite : rank ≠ infinityRank) (nearest : IsNearest rank n.natAbs) {negative : Bool}
    (sign : rank ≠ 0 → (negative = true ↔ n < 0)) :
    Spells (toString n).toList (signed negative rank bounded) := by
  refine ⟨Nat.toDigits 10 n.natAbs, ?_, ?_⟩
  · rw [Numeral.toList_toString]
    by_cases zero : rank = 0
    · subst zero
      have same := eq_zero_of_isNearest nearest
      rw [if_neg (by omega), if_neg (by simp)]
      rfl
    · by_cases below : n < 0
      · rw [if_pos below, if_pos ⟨(sign zero).mpr below, zero⟩]
        rfl
      · rw [if_neg below, if_neg fun negative => below ((sign zero).mp negative.1)]
        rfl
  · rw [SpellsSize, if_neg finite]
    refine ⟨Numeral.exists_toDigits n.natAbs, ?_⟩
    rw [Numeral.spelled_toDigits]
    exact nearest

/-- A whole number is the magnitude it is said to be, with its sign. -/
theorem magnitude_of_toInt? {negative : Bool} {rank : Nat} (bounded : rank ≤ 0x7FF0000000000000)
    {n : Int} (whole : (signed negative rank bounded).toInt? = some n) :
    rank ≠ infinityRank ∧ magnitude rank = n.natAbs ∧ (rank ≠ 0 → (negative = true ↔ n < 0)) := by
  simp only [toInt?] at whole
  split at whole
  · cases whole
  · next finite =>
      split at whole
      · next divides =>
          refine ⟨finite, ?_⟩
          rw [Option.some.injEq] at whole
          generalize counted : significandOf rank * Nat.pow 2 (exponentOf rank).toNat /
            Nat.pow 2 (-exponentOf rank).toNat = count at whole
          have size : magnitude rank = count := by
            have twos := zpow_toNat 2 two_ne_zero (exponentOf rank)
            have exact : count * Nat.pow 2 (-exponentOf rank).toNat =
                significandOf rank * Nat.pow 2 (exponentOf rank).toNat :=
              counted ▸ Nat.div_mul_cancel (Nat.dvd_of_mod_eq_zero divides)
            have scale : (2 : ℚ) ^ (-exponentOf rank).toNat ≠ 0 := by positivity
            apply mul_right_cancel₀ scale
            rw [magnitude, unit, mul_assoc, twos]
            simp only [Nat.pow_eq] at exact
            exact_mod_cast exact.symm
          rw [← whole, withSign]
          constructor
          · rw [size]
            split <;> simp
          · intro nonzero
            have positive := magnitude_pos (Nat.pos_of_ne_zero nonzero)
            rw [size] at positive
            have positive : 0 < count := by exact_mod_cast positive
            cases negative
            · simp
            · simp [positive]
      · cases whole

/-- The text of a number in a descriptor spells it. -/
theorem spells_limitText {x : Binary64} (placed : x ≠ .nan) : Spells x.limitText.toList x := by
  cases x with
  | nan => exact absurd rfl placed
  | signed negative rank bounded =>
      by_cases zero : rank = 0
      · subst zero
        rw [limitText_zero]
        have nearest := isNearest_magnitude 0
        rw [magnitude_zero] at nearest
        have shown : ("0" : String) = toString (0 : Int) := rfl
        rw [shown]
        exact spells_integer (n := 0) bounded (by decide) (by simpa using nearest)
          fun nonzero => absurd rfl nonzero
      · have plain := @spells_plain negative rank bounded zero
        unfold limitText
        split
        · next n whole =>
            obtain ⟨finite, size, sign⟩ := magnitude_of_toInt? bounded whole
            split
            · exact spells_integer bounded finite (size ▸ isNearest_magnitude rank) sign
            · exact plain
        · exact plain

/-- Equal numbers have one place on the line. -/
theorem place?_eq_of_eq {x y : Binary64} (same : x.eq y = true) : x.place? = y.place? := by
  simp only [eq] at same
  split at same
  · next a b first second => rw [first, second, eq_of_beq same]
  · cases same

/-- Numbers of one text have one place on the line. -/
theorem place?_eq_of_limitText {x y : Binary64} (placed : x ≠ .nan) (placed' : y ≠ .nan)
    (same : x.limitText = y.limitText) : x.place? = y.place? := by
  apply place?_eq_of_eq
  apply eq_of_spells (spells_limitText placed)
  rw [same]
  exact spells_limitText placed'

/-! ## Integers of 64 bits -/

/-- A number up to a magnitude is nearest to that magnitude or to one before it. -/
theorem IsNearest.le_of_le {rank bound : Nat} {number : ℚ} (nearest : IsNearest rank number)
    (less : number ≤ magnitude bound) : rank ≤ bound := by
  apply Nat.le_of_not_lt
  intro above
  obtain ⟨before, rfl⟩ := Nat.exists_eq_succ_of_ne_zero (Nat.ne_zero_of_lt above)
  have order := magnitude_strictMono.monotone (Nat.le_of_lt_succ above)
  have least := nearest.halfway_le
  have positive := unit_pos before
  rw [halfway] at least
  linarith

theorem rankOfQuotient_integer (n : Int64) :
    rankOfQuotient n.toInt.natAbs 1 < 0x7FF0000000000000 := by
  have nearest := isNearest_rankOfQuotient n.toInt.natAbs Nat.one_pos
  rw [Nat.cast_one, div_one] at nearest
  have size : n.toInt.natAbs < 2 ^ 64 := by
    have least := n.le_toInt
    have most := n.toInt_lt
    omega
  have bound : magnitude (binade + 1086 * binade) = 2 ^ 64 := by
    rw [magnitude_of_count (.inr (Nat.le_refl _)) (by decide)]
    norm_num [binade, leastExponent]
  have less : (n.toInt.natAbs : ℚ) < magnitude (binade + 1086 * binade) := by
    rw [bound]
    exact_mod_cast size
  exact Nat.lt_of_le_of_lt (nearest.le_of_le less.le) (by decide)

theorem isNearest_integer (n : Int64) :
    IsNearest (rankOfQuotient n.toInt.natAbs 1) n.toInt.natAbs := by
  have nearest := isNearest_rankOfQuotient n.toInt.natAbs Nat.one_pos
  rwa [Nat.cast_one, div_one] at nearest

theorem ofInt_eq (n : Int64) : ofInt n.toInt =
    .signed (n.toInt < 0) (rankOfQuotient n.toInt.natAbs 1)
      (Nat.le_of_lt (rankOfQuotient_integer n)) := by
  have finite : rankOfQuotient n.toInt.natAbs 1 ≤ infinityRank :=
    Nat.le_of_lt (rankOfQuotient_integer n)
  simp only [ofInt, ofQuotient, ofRank, Nat.min_eq_left finite]

/-- The text of an integer spells the number that is nearest to it. -/
theorem spells_toString (n : Int64) : Spells (toString n.toInt).toList (ofInt n.toInt) := by
  rw [ofInt_eq]
  exact spells_integer _ (Nat.ne_of_lt (rankOfQuotient_integer n)) (isNearest_integer n) fun _ => by simp

theorem exponentOf_nonpos {negative : Bool} {rank : Nat} {bounded : rank ≤ 0x7FF0000000000000}
    (small : (signed negative rank bounded).magnitudeBelow (2 ^ 53) = true) :
    exponentOf rank ≤ 0 := by
  have bound : rankOfQuotient (2 ^ 53) 1 = 1076 * binade := by decide +kernel
  rw [magnitudeBelow, bound, decide_eq_true_eq, Nat.mul_comm] at small
  have few : rank / binade < 1076 := Nat.div_lt_of_lt_mul small
  have steps : step rank ≤ 1074 := by
    unfold step
    split <;> omega
  rw [exponentOf_eq, leastExponent]
  omega

/-- Numbers below `2 ^ 53` tell integers apart. -/
theorem integer_eq_of_eq {x : Binary64} (small : x.magnitudeBelow (2 ^ 53) = true) {n m : Int64}
    (same : x.eq (ofInt n.toInt) = true) (same' : x.eq (ofInt m.toInt) = true) : n = m := by
  cases x with
  | nan => cases same
  | signed negative rank bounded =>
      have exponent := exponentOf_nonpos small
      rw [ofInt_eq, eq_signed_iff] at same same'
      have sizes : n.toInt.natAbs = m.toInt.natAbs :=
        eq_of_isNearest_of_small exponent (same.1 ▸ isNearest_integer n)
          (same'.1 ▸ isNearest_integer m)
      apply Int64.toInt_inj.mp
      by_cases zero : rank = 0
      · have none : n.toInt.natAbs = 0 := by
          apply eq_zero_of_isNearest
          rw [← zero, same.1]
          exact isNearest_integer n
        omega
      · have signs : (decide (n.toInt < 0)) = decide (m.toInt < 0) :=
          (same.2.resolve_left zero).symm.trans (same'.2.resolve_left zero)
        have signs := decide_eq_decide.mp signs
        omega

end Binary64

end Mixfix
