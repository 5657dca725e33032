import Mathlib
import Mixfix.Proofs.Binary64.ReadBack

/-!
# Equal numbers

Numbers are equal if they have one place on the line, so nothing that depends on places can tell them
from each other; neither can wholeness (`isWhole_eq_of_eq`). A number that is equal to an integer of
64 bits is whole (`isWhole_of_eq_integer`), although the integer may have been rounded: from `2 ^ 53` on,
and not before (`RoundsTogether.le_natAbs`), different integers can have the same nearest number. As
rounding keeps the order, whether an integer is one of them shows in the two integers next to it
(`exists_roundsTogether_iff`).
-/

set_option autoImplicit false

namespace Mixfix.Binary64

/-! ## Places -/

theorem eq_iff_place? {x y : Binary64} :
    x.eq y = true ↔ ∃ a, x.place? = some a ∧ y.place? = some a := by
  unfold eq
  split
  · next a b first second =>
      simp only [first, second, beq_iff_eq, Option.some.injEq, exists_eq_left']
      exact eq_comm
  · next none =>
      refine iff_of_false (by simp) ?_
      rintro ⟨a, first, second⟩
      exact none a a first second

theorem lt_iff_place? {x y : Binary64} :
    x.lt y = true ↔ ∃ a b, x.place? = some a ∧ y.place? = some b ∧ a < b := by
  unfold lt
  split
  · next a b first second => simp [first, second]
  · next none =>
      refine iff_of_false (by simp) ?_
      rintro ⟨a, b, first, second, -⟩
      exact none a b first second

theorem eq_symm {x y : Binary64} (same : x.eq y = true) : y.eq x = true := by
  obtain ⟨place, first, second⟩ := eq_iff_place?.mp same
  exact eq_iff_place?.mpr ⟨place, second, first⟩

theorem eq_swap (x y : Binary64) : x.eq y = y.eq x :=
  Bool.eq_iff_iff.mpr ⟨eq_symm, eq_symm⟩

theorem eq_trans {x y z : Binary64} (first : x.eq y = true) (second : y.eq z = true) :
    x.eq z = true := by
  obtain ⟨place, here, there⟩ := eq_iff_place?.mp first
  obtain ⟨place', here', there'⟩ := eq_iff_place?.mp second
  cases there.symm.trans here'
  exact eq_iff_place?.mpr ⟨place, here, there'⟩

/-- Numbers that have places on the line compare, and are equal if they compare so. -/
theorem exists_compare? {x y : Binary64} (placed : x ≠ .nan) (placed' : y ≠ .nan) :
    ∃ order, x.compare? y = some order ∧ x.eq y = (order == .eq) := by
  cases x with
  | nan => exact absurd rfl placed
  | signed negative rank bounded =>
      cases y with
      | nan => exact absurd rfl placed'
      | signed negative' rank' bounded' =>
          refine ⟨_, rfl, ?_⟩
          rw [Bool.eq_iff_iff, eq_iff_place?, beq_iff_eq, compare_eq_iff_eq]
          simp [place?, eq_comm]

/-! ## Whole numbers -/

/-- A natural number that is nearest to a magnitude is that magnitude, where units divide one. -/
theorem significandOf_of_isNearest {rank n : Nat} (small : exponentOf rank ≤ 0)
    (nearest : IsNearest rank n) : significandOf rank = n * 2 ^ (-exponentOf rank).toNat := by
  have positive := unit_pos rank
  have scale : unit rank * 2 ^ (-exponentOf rank).toNat = 1 := by
    rw [unit, zpow_toNat 2 two_ne_zero, Int.toNat_of_nonpos small, pow_zero]
  have counted : (n : ℚ) = (n * 2 ^ (-exponentOf rank).toNat : Nat) * unit rank := by
    push_cast
    rw [mul_assoc, mul_comm _ (unit rank), scale, mul_one]
  generalize n * 2 ^ (-exponentOf rank).toNat = count at counted ⊢
  have upper := nearest.le_halfway
  rw [halfway, magnitude, counted] at upper
  have most : (count : ℚ) ≤ significandOf rank + 1 / 2 :=
    le_of_mul_le_mul_right (by linarith) positive
  have least : (significandOf rank : ℚ) ≤ count + 1 / 2 := by
    cases rank with
    | zero =>
        have zero : significandOf 0 = 0 := rfl
        rw [zero]
        positivity
    | succ before =>
        have lower := nearest.halfway_le
        have width := unit_before_le before
        rw [halfway_eq_sub, magnitude, counted] at lower
        exact le_of_mul_le_mul_right (by linarith) positive
  have upper : 2 * count ≤ 2 * significandOf rank + 1 := by
    have : (2 : ℚ) * count ≤ 2 * significandOf rank + 1 := by linarith
    exact_mod_cast this
  have lower : 2 * significandOf rank ≤ 2 * count + 1 := by
    have : (2 : ℚ) * significandOf rank ≤ 2 * count + 1 := by linarith
    exact_mod_cast this
  omega

theorem isWhole_signed {negative : Bool} {rank : Nat} (bounded : rank ≤ 0x7FF0000000000000)
    (finite : rank ≠ infinityRank) {n : Nat} (nearest : IsNearest rank n) :
    (signed negative rank bounded).isWhole = true := by
  have divides : significandOf rank * Nat.pow 2 (exponentOf rank).toNat %
      Nat.pow 2 (-exponentOf rank).toNat = 0 := by
    rcases le_total (exponentOf rank) 0 with small | large
    · rw [significandOf_of_isNearest small nearest, mul_right_comm]
      exact Nat.mul_mod_left _ _
    · rw [Int.toNat_of_nonpos (by omega : -exponentOf rank ≤ 0)]
      exact Nat.mod_one _
  simp only [isWhole, toInt?, if_neg finite, divides, if_true, Option.isSome_some]

/-- A number that is equal to an integer of 64 bits is whole. -/
theorem isWhole_of_eq_integer {x : Binary64} {n : Int64} (same : x.eq (ofInt n.toInt) = true) :
    x.isWhole = true := by
  cases x with
  | nan => cases same
  | signed negative rank bounded =>
      rw [ofInt_eq, eq_signed_iff] at same
      obtain ⟨rfl, -⟩ := same
      exact isWhole_signed bounded (Nat.ne_of_lt (rankOfQuotient_integer n)) (isNearest_integer n)

/-- Of two equal numbers both are whole or none is. -/
theorem isWhole_eq_of_eq {x y : Binary64} (same : x.eq y = true) : x.isWhole = y.isWhole := by
  cases x with
  | nan => cases same
  | signed negative rank bounded =>
      cases y with
      | nan => cases same
      | signed negative' rank' bounded' =>
          obtain ⟨rfl, -⟩ := eq_signed_iff.mp same
          simp only [isWhole, toInt?]
          split
          · rfl
          · split <;> rfl

/-! ## Numbers of integers -/

/-- A number is equal to itself unless it is a NaN. -/
theorem eq_self_iff {x : Binary64} : x.eq x = true ↔ x ≠ .nan := by
  cases x <;> simp [eq, place?]

theorem ofInt_ne_nan (n : Int64) : ofInt n.toInt ≠ .nan := by
  rw [ofInt_eq]
  exact nofun

/-- A number that has the text of an integer is equal to it. -/
theorem eq_ofInt_of_limitText {x : Binary64} {n : Int64} (placed : x ≠ .nan)
    (shown : toString n.toInt = x.limitText) : x.eq (ofInt n.toInt) = true := by
  have spells := spells_limitText placed
  rw [← shown] at spells
  exact eq_of_spells spells (spells_toString n)

/-- Only zero has zero for its nearest number. -/
theorem isZero_ofInt_iff (n : Int64) : (ofInt n.toInt).isZero = true ↔ n = 0 := by
  rw [ofInt_eq, isZero, beq_iff_eq]
  constructor
  · intro zero
    have nearest := isNearest_integer n
    rw [zero] at nearest
    exact Int64.toInt_inj.mp (Int.natAbs_eq_zero.mp (eq_zero_of_isNearest nearest))
  · rintro rfl
    rfl

/-- Different integers have the same nearest number. -/
def RoundsTogether (n m : Int64) : Prop :=
  n ≠ m ∧ (ofInt n.toInt).eq (ofInt m.toInt) = true

/-- The number of an integer below `2 ^ 53` in size is below it too. -/
theorem magnitudeBelow_of_natAbs_lt {n : Int64} (small : n.toInt.natAbs < 2 ^ 53) :
    (ofInt n.toInt).magnitudeBelow (2 ^ 53) = true := by
  have bound : rankOfQuotient (2 ^ 53) 1 = 1076 * binade := by decide +kernel
  have last : magnitude (2 * binade - 1 + 1074 * binade) = 2 ^ 53 - 1 := by
    rw [magnitude_of_count (.inr (by decide)) (by decide)]
    norm_num [binade, leastExponent]
  have most : (n.toInt.natAbs : ℚ) ≤ magnitude (2 * binade - 1 + 1074 * binade) := by
    rw [last, le_sub_iff_add_le]
    exact_mod_cast small
  rw [ofInt_eq, magnitudeBelow, bound, decide_eq_true_eq]
  exact Nat.lt_of_le_of_lt ((isNearest_integer n).le_of_le most) (by decide)

/-- Only integers from `2 ^ 53` on in size are rounded to one number with another integer. -/
theorem RoundsTogether.le_natAbs {n m : Int64} (together : RoundsTogether n m) :
    2 ^ 53 ≤ n.toInt.natAbs := by
  by_contra small
  have below := magnitudeBelow_of_natAbs_lt (Nat.lt_of_not_le small)
  exact together.1 (integer_eq_of_eq below (eq_self_iff.mpr (ofInt_ne_nan n)) together.2)

/-! ## Neighbours -/

/-- Rounding keeps the order. -/
theorem IsNearest.rank_le {rank other : Nat} {number number' : ℚ}
    (nearest : IsNearest rank number) (nearest' : IsNearest other number')
    (le : number ≤ number') : rank ≤ other := by
  rcases le.eq_or_lt with rfl | less
  · exact (nearest.unique nearest').le
  · apply Nat.le_of_not_lt
    intro above
    obtain ⟨before, rfl⟩ := Nat.exists_eq_succ_of_ne_zero (Nat.ne_zero_of_lt above)
    have order := halfway_strictMono.monotone (Nat.le_of_lt_succ above)
    have lower := nearest.halfway_le
    have upper := nearest'.le_halfway
    linarith

theorem rankOfQuotient_le {n m : Int64} (le : n.toInt.natAbs ≤ m.toInt.natAbs) :
    rankOfQuotient n.toInt.natAbs 1 ≤ rankOfQuotient m.toInt.natAbs 1 :=
  (isNearest_integer n).rank_le (isNearest_integer m) (by exact_mod_cast le)

/-- An integer between two others that have the same nearest number has it too. -/
theorem eq_ofInt_of_between {n m k : Int64} (same : (ofInt n.toInt).eq (ofInt m.toInt) = true)
    (least : min n.toInt m.toInt ≤ k.toInt) (most : k.toInt ≤ max n.toInt m.toInt) :
    (ofInt n.toInt).eq (ofInt k.toInt) = true := by
  rw [ofInt_eq, ofInt_eq, eq_signed_iff] at same ⊢
  obtain ⟨ranks, zero | signs⟩ := same
  · have none : n.toInt.natAbs = 0 := eq_zero_of_isNearest (zero ▸ isNearest_integer n)
    have none' : m.toInt.natAbs = 0 :=
      eq_zero_of_isNearest (ranks.symm.trans zero ▸ isNearest_integer m)
    have same : n.toInt.natAbs = k.toInt.natAbs := by omega
    exact ⟨congrArg (rankOfQuotient · 1) same, .inl zero⟩
  · have signs := decide_eq_decide.mp signs
    refine ⟨?_, .inr (decide_eq_decide.mpr (by omega))⟩
    rcases Nat.le_total n.toInt.natAbs m.toInt.natAbs with le | le
    · exact Nat.le_antisymm (rankOfQuotient_le (by omega)) (ranks ▸ rankOfQuotient_le (by omega))
    · exact Nat.le_antisymm (ranks ▸ rankOfQuotient_le (by omega)) (rankOfQuotient_le (by omega))

instance (n m : Int64) : Decidable (RoundsTogether n m) :=
  inferInstanceAs (Decidable (_ ∧ _))

/-- An integer is rounded to one number with another integer exactly if it is so with the one before
it or the one behind it. -/
theorem exists_roundsTogether_iff {n : Int64} :
    (∃ m, RoundsTogether n m) ↔ RoundsTogether n (n - 1) ∨ RoundsTogether n (n + 1) := by
  constructor
  · rintro ⟨m, differs, same⟩
    have least := n.le_toInt
    have most := n.toInt_lt
    have least' := m.le_toInt
    have most' := m.toInt_lt
    rcases lt_or_gt_of_ne (fun same => differs (Int64.toInt_inj.mp same)) with below | above
    · have next : (n + 1).toInt = n.toInt + 1 := by
        rw [Int64.toInt_add]
        exact Int.bmod_eq_of_le (by simp; omega) (by simp; omega)
      refine .inr ⟨?_, eq_ofInt_of_between same (by omega) (by omega)⟩
      rintro same
      rw [← same] at next
      omega
    · have next : (n - 1).toInt = n.toInt - 1 := by
        rw [Int64.toInt_sub]
        exact Int.bmod_eq_of_le (by simp; omega) (by simp; omega)
      refine .inl ⟨?_, eq_ofInt_of_between same (by omega) (by omega)⟩
      rintro same
      rw [← same] at next
      omega
  · rintro (together | together)
    · exact ⟨_, together⟩
    · exact ⟨_, together⟩

end Mixfix.Binary64
