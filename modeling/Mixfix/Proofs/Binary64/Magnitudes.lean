import Mathlib
import Mixfix.Binary64.Basic

/-!
# Magnitudes on the line

The finite magnitudes as rational numbers. A rank is a count of units of a power of two, with the
counts of each power of two following those of the power before (`rank_eq`), so each magnitude is
one unit above the one before it (`magnitude_succ`) and the magnitudes ascend with their ranks.

A number is nearest to a magnitude if it lies between the points halfway to the neighbours, where
the points themselves belong to the magnitudes of even rank (`IsNearest`). So every number is nearest
to one magnitude at most (`IsNearest.unique`).
-/

set_option autoImplicit false

namespace Mixfix.Binary64

/-! ## Ranks as counts -/

theorem binade_pos : 0 < binade := by decide

/-- The power of two of a rank, counted from the least one. -/
def step (rank : Nat) : Nat := if rank < binade then 0 else rank / binade - 1

theorem exponentOf_eq (rank : Nat) : exponentOf rank = leastExponent + step rank := by
  unfold exponentOf step
  split
  · rfl
  · rfl

/-- A rank counts the units of its own power of two above those of the powers before it. -/
theorem rank_eq (rank : Nat) : rank = significandOf rank + step rank * binade := by
  unfold significandOf step
  split
  · omega
  · next large =>
      have positive : 1 ≤ rank / binade :=
        (Nat.one_le_div_iff binade_pos).mpr (Nat.le_of_not_lt large)
      have parts := Nat.mod_add_div rank binade
      obtain ⟨count, same⟩ := Nat.exists_eq_add_of_le positive
      rw [same] at parts ⊢
      rw [Nat.add_sub_cancel_left]
      linarith

theorem significandOf_lt (rank : Nat) : significandOf rank < 2 * binade := by
  unfold significandOf
  split
  · next small => omega
  · have := Nat.mod_lt rank binade_pos
    omega

theorem step_eq_zero_or (rank : Nat) : step rank = 0 ∨ binade ≤ significandOf rank := by
  unfold step significandOf
  split
  · exact .inl rfl
  · exact .inr (Nat.le_add_left _ _)

section Counts

variable {count power : Nat}

theorem step_of_count (full : power = 0 ∨ binade ≤ count) (less : count < 2 * binade) :
    step (count + power * binade) = power := by
  unfold step
  by_cases small : count < binade
  · have first : power = 0 := by omega
    rw [first, Nat.zero_mul, Nat.add_zero, if_pos small]
  · rw [if_neg (by omega), Nat.add_mul_div_right _ _ binade_pos,
      Nat.div_eq_of_lt_le (by omega) (by omega : count < (1 + 1) * binade)]
    omega

theorem significandOf_of_count (full : power = 0 ∨ binade ≤ count) (less : count < 2 * binade) :
    significandOf (count + power * binade) = count := by
  have same := rank_eq (count + power * binade)
  rw [step_of_count full less] at same
  omega

end Counts

theorem significandOf_pos {rank : Nat} (positive : 0 < rank) : 0 < significandOf rank := by
  unfold significandOf
  split
  · exact positive
  · exact Nat.add_pos_right _ binade_pos

/-- A rank is even exactly if its significand is. -/
theorem significandOf_mod_two (rank : Nat) : significandOf rank % 2 = rank % 2 := by
  have same := rank_eq rank
  have even : binade = 2 * 0x8000000000000 := rfl
  rw [even] at same
  omega

/-! ## Magnitudes -/

/-- The unit in the last place of a magnitude. -/
def unit (rank : Nat) : ℚ := 2 ^ exponentOf rank

/-- The value of a finite magnitude. -/
def magnitude (rank : Nat) : ℚ := significandOf rank * unit rank

theorem unit_pos (rank : Nat) : 0 < unit rank := by
  unfold unit
  positivity

theorem unit_of_count {count power : Nat} (full : power = 0 ∨ binade ≤ count)
    (less : count < 2 * binade) :
    unit (count + power * binade) = 2 ^ (leastExponent + power) := by
  rw [unit, exponentOf_eq, step_of_count full less]

/-- A count of units is the magnitude of its rank, also where it carries into the next power. -/
theorem magnitude_of_count {count power : Nat} (full : power = 0 ∨ binade ≤ count)
    (less : count ≤ 2 * binade) :
    magnitude (count + power * binade) = count * 2 ^ (leastExponent + power) := by
  rcases Nat.lt_or_eq_of_le less with inside | carried
  · rw [magnitude, unit_of_count full inside, significandOf_of_count full inside]
  · have next : count + power * binade = binade + (power + 1) * binade := by
      rw [carried]
      ring
    have least : binade < 2 * binade := by decide
    rw [next, magnitude, unit_of_count (.inr (Nat.le_refl _)) least,
      significandOf_of_count (.inr (Nat.le_refl _)) least, carried]
    push_cast
    rw [← add_assoc, zpow_add_one₀ (by norm_num)]
    ring

/-- A magnitude is one unit above the one before it. -/
theorem magnitude_succ (rank : Nat) : magnitude (rank + 1) = magnitude rank + unit rank := by
  have same := rank_eq rank
  have next : rank + 1 = (significandOf rank + 1) + step rank * binade := by omega
  have full : step rank = 0 ∨ binade ≤ significandOf rank + 1 := by
    rcases step_eq_zero_or rank with first | full
    · exact .inl first
    · exact .inr (Nat.le_succ_of_le full)
  rw [next, magnitude_of_count full (significandOf_lt rank), ← exponentOf_eq, magnitude, unit]
  push_cast
  ring

theorem magnitude_strictMono : StrictMono magnitude := by
  apply strictMono_nat_of_lt_succ
  intro rank
  rw [magnitude_succ]
  exact lt_add_of_pos_right _ (unit_pos rank)

theorem magnitude_zero : magnitude 0 = 0 := by
  rw [magnitude, show significandOf 0 = 0 from rfl, Nat.cast_zero, zero_mul]

theorem magnitude_pos {rank : Nat} (positive : 0 < rank) : 0 < magnitude rank := by
  rw [← magnitude_zero]
  exact magnitude_strictMono positive

/-- The unit below a magnitude is its own one, or half of it below the first of a power of two. -/
theorem unit_before (before : Nat) :
    unit before =
      if significandOf (before + 1) = binade ∧ step (before + 1) ≠ 0 then unit (before + 1) / 2
      else unit (before + 1) := by
  have same := rank_eq (before + 1)
  have less := significandOf_lt (before + 1)
  have positive : 0 < significandOf (before + 1) := significandOf_pos (Nat.succ_pos before)
  have steps : step before =
      if significandOf (before + 1) = binade ∧ step (before + 1) ≠ 0 then step (before + 1) - 1
      else step (before + 1) := by
    split
    · next first =>
        obtain ⟨power, positive⟩ := Nat.exists_eq_succ_of_ne_zero first.2
        rw [first.1, positive, Nat.succ_eq_add_one] at same
        have here : before = (2 * binade - 1) + power * binade := by
          rw [Nat.add_mul] at same
          have := binade_pos
          omega
        rw [here, step_of_count (.inr (by decide)) (by decide), ← here, positive]
        rfl
    · next inside =>
        have here : before = (significandOf (before + 1) - 1) + step (before + 1) * binade := by
          omega
        have full : step (before + 1) = 0 ∨ binade ≤ significandOf (before + 1) - 1 := by
          rcases step_eq_zero_or (before + 1) with first | full
          · exact .inl first
          · by_cases zero : step (before + 1) = 0
            · exact .inl zero
            · have other : significandOf (before + 1) ≠ binade := fun same => inside ⟨same, zero⟩
              omega
        conv_lhs => rw [here]
        exact step_of_count full (by omega)
  rw [unit, unit, exponentOf_eq, exponentOf_eq, steps]
  split
  · next first =>
      obtain ⟨power, positive⟩ := Nat.exists_eq_succ_of_ne_zero first.2
      rw [positive, Nat.succ_sub_one]
      push_cast
      rw [← add_assoc, zpow_add_one₀ (by norm_num)]
      ring
  · rfl

/-! ## Nearest magnitudes -/

/-- The point halfway between a magnitude and the next one. -/
def halfway (rank : Nat) : ℚ := magnitude rank + unit rank / 2

theorem halfway_eq_sub (rank : Nat) : halfway rank = magnitude (rank + 1) - unit rank / 2 := by
  rw [magnitude_succ, halfway]
  ring

theorem halfway_strictMono : StrictMono halfway := by
  apply strictMono_nat_of_lt_succ
  intro rank
  rw [halfway_eq_sub, halfway]
  have := unit_pos rank
  have := unit_pos (rank + 1)
  linarith

/-- A number is nearest to the magnitude of a rank; halfway between two magnitudes it belongs to the
even one. -/
structure IsNearest (rank : Nat) (number : ℚ) : Prop where
  above : ∀ before, rank = before + 1 →
    halfway before < number ∨ (halfway before = number ∧ rank % 2 = 0)
  below : number < halfway rank ∨ (number = halfway rank ∧ rank % 2 = 0)

/-- Every magnitude is nearest to itself. -/
theorem isNearest_magnitude (rank : Nat) : IsNearest rank (magnitude rank) := by
  constructor
  · rintro before rfl
    rw [halfway_eq_sub]
    have := unit_pos before
    exact .inl (by linarith)
  · have := unit_pos rank
    exact .inl (by rw [halfway]; linarith)

/-- A number that is rounded to a count of units is nearest to the rank of the count. -/
theorem isNearest_of_count {count power : Nat} {number : ℚ}
    (full : power = 0 ∨ binade ≤ count) (less : count ≤ 2 * binade)
    (least : power = 0 ∨ binade * 2 ^ (leastExponent + power) ≤ number)
    (high : number < 2 * binade * 2 ^ (leastExponent + power))
    (above : (count - 1 / 2) * 2 ^ (leastExponent + power) < number ∨
      (count - 1 / 2) * 2 ^ (leastExponent + power) = number ∧ count % 2 = 0)
    (below : number < (count + 1 / 2) * 2 ^ (leastExponent + power) ∨
      number = (count + 1 / 2) * 2 ^ (leastExponent + power) ∧ count % 2 = 0) :
    IsNearest (count + power * binade) number := by
  have parity : (count + power * binade) % 2 = count % 2 := by
    have even : binade = 2 * 0x8000000000000 := rfl
    rw [even]
    omega
  have here := magnitude_of_count full less
  constructor
  · intro before next
    rw [halfway_eq_sub, ← next, here, parity]
    have positive := unit_pos before
    by_cases first : power ≠ 0 ∧ count = binade
    · have least := least.resolve_left first.1
      rw [first.2]
      exact .inl (by linarith)
    · obtain ⟨less', rfl⟩ : ∃ less', count = less' + 1 := by
        apply Nat.exists_eq_succ_of_ne_zero
        rintro rfl
        have := binade_pos
        rcases full with rfl | full <;> omega
      have full' : power = 0 ∨ binade ≤ less' := by
        by_cases zero : power = 0
        · exact .inl zero
        · have := full.resolve_left zero
          have : less' + 1 ≠ binade := fun same => first ⟨zero, same⟩
          exact .inr (by omega)
      have same : before = less' + power * binade := by omega
      rw [same, unit_of_count full' (by omega)]
      refine above.imp (fun above => ?_) fun ⟨middle, even⟩ => ⟨?_, even⟩
      · linarith
      · linarith
  · rw [parity]
    rcases Nat.lt_or_eq_of_le less with inside | carried
    · rw [halfway, here, unit_of_count full inside]
      refine below.imp (fun below => ?_) fun ⟨middle, even⟩ => ⟨?_, even⟩
      · linarith
      · linarith
    · have positive := unit_pos (count + power * binade)
      left
      rw [halfway, here, carried]
      push_cast
      rw [carried] at positive
      linarith

section Nearest

variable {rank other : Nat} {number : ℚ}

theorem IsNearest.le_halfway (nearest : IsNearest rank number) : number ≤ halfway rank := by
  rcases nearest.below with below | ⟨same, -⟩
  · exact below.le
  · exact same.le

theorem IsNearest.halfway_le {before : Nat} (nearest : IsNearest (before + 1) number) :
    halfway before ≤ number := by
  rcases nearest.above before rfl with above | ⟨same, -⟩
  · exact above.le
  · exact same.le

theorem IsNearest.not_lt (nearest : IsNearest rank number) (nearest' : IsNearest other number) :
    ¬ rank < other := by
  intro less
  obtain ⟨before, rfl⟩ := Nat.exists_eq_succ_of_ne_zero (Nat.ne_zero_of_lt less)
  have order := halfway_strictMono.monotone (Nat.le_of_lt_succ less)
  have lower := nearest.le_halfway
  have upper := nearest'.halfway_le
  have adjacent : rank = before :=
    halfway_strictMono.injective (le_antisymm order (upper.trans lower))
  subst adjacent
  -- both share the point halfway between them, and only one of them is even
  rcases nearest.below with below | ⟨-, even⟩
  · exact absurd below (not_lt.mpr upper)
  · rcases nearest'.above rank rfl with above | ⟨-, even'⟩
    · exact absurd above (not_lt.mpr lower)
    · omega

/-- A number is nearest to one magnitude at most. -/
theorem IsNearest.unique (nearest : IsNearest rank number) (nearest' : IsNearest other number) :
    rank = other :=
  Nat.le_antisymm (Nat.le_of_not_lt (nearest'.not_lt nearest))
    (Nat.le_of_not_lt (nearest.not_lt nearest'))

/-- A number nearest to a magnitude other than zero is positive. -/
theorem IsNearest.pos {before : Nat} (nearest : IsNearest (before + 1) number) : 0 < number := by
  have below : 0 ≤ magnitude before := by
    rw [← magnitude_zero]
    exact magnitude_strictMono.monotone (Nat.zero_le before)
  have := unit_pos before
  have := nearest.halfway_le
  rw [halfway] at this
  linarith

end Nearest

end Mixfix.Binary64
