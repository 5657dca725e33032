import Mixfix.Proofs.Decimal.Integers

/-!
# Quotients that are no integers

The digits of a quotient and what remains to be divided make up the dividend together (`Divides`), and
every step that goes on keeps this. A step that ends the development leaves the exact quotient, or
digits that are off by one unit at most, where a unit is smaller than one part of the divisor
(`Develops`). The reason is that a development ends early only if no place is left behind the point, or
if the coefficient is full; and the quotient of integers of 64 bits has far fewer digits before the
point (`fine_of_full`).

Such digits stand for an integer only if the quotient is one (`Develops.dvd`): every other quotient
differs from all integers by one part of the divisor at least, which is more than the digits are off.
-/

set_option autoImplicit false

namespace Mixfix.Decimal

/-- Bounds the sizes of integers of 64 bits. -/
def widest : Nat := 2 ^ 63

/-- The digits of a development and what remains make up the dividend, moved by as many places as
there are digits behind the point. -/
structure Divides (dividend divisor : Nat) (state : Development) : Prop where
  placed : 0 ≤ state.scale
  parts : state.digits * divisor + state.remainder = dividend * 10 ^ state.scale.toNat
  less : state.remainder < divisor
  inside : state.digits < limit

/-- Digits with a point are a quotient, or are off by one unit at most, where the unit is smaller than
one part of the divisor. -/
def Develops (dividend divisor digits scale : Nat) : Prop :=
  digits * divisor = dividend * 10 ^ scale ∨
    digits * divisor ≤ dividend * 10 ^ scale + divisor ∧
    dividend * 10 ^ scale ≤ digits * divisor + divisor ∧ divisor < 10 ^ scale

/-- Digits stand for an integer only if the quotient is one. -/
theorem Develops.dvd {dividend divisor digits scale : Nat}
    (develops : Develops dividend divisor digits scale) (whole : 10 ^ scale ∣ digits) :
    divisor ∣ dividend := by
  obtain ⟨quotient, rfl⟩ := whole
  have power : 0 < 10 ^ scale := by positivity
  rw [Develops, Nat.mul_assoc, Nat.mul_comm dividend] at develops
  refine ⟨quotient, ?_⟩
  rw [Nat.mul_comm divisor]
  rcases develops with exact | ⟨below, above, fine⟩
  · exact (Nat.eq_of_mul_eq_mul_left power exact).symm
  · -- If they differed, they would by the power at least, which is more than the divisor.
    have gap {least most : Nat} (less : least < most) :
        10 ^ scale * least + 10 ^ scale ≤ 10 ^ scale * most := by
      rw [← Nat.mul_succ]
      exact Nat.mul_le_mul_left _ less
    refine Nat.le_antisymm (Nat.le_of_not_lt fun less => ?_) (Nat.le_of_not_lt fun less => ?_)
    · have := gap less
      omega
    · have := gap less
      omega

/-! ## Steps -/

section Steps

variable {dividend divisor : Nat}

/-- If digits of a quotient fill a coefficient, many of them are behind the point. -/
theorem fine_of_full {digits scale : Nat} (positive : 0 < divisor) (small : dividend ≤ widest)
    (below : digits * divisor ≤ dividend * 10 ^ scale) (full : limit ≤ 10 * (digits + 1)) :
    100 * divisor < 10 ^ scale := by
  -- The digits exceed `2 ^ 92`, while the quotient itself is at most `2 ^ 63`.
  have most : dividend * 10 ^ scale ≤ 2 ^ 63 * 10 ^ scale := Nat.mul_le_mul_right _ small
  have least : 2 ^ 92 * divisor ≤ digits * divisor :=
    Nat.mul_le_mul_right _ (by simp only [limit, Nat.pow_eq] at full; omega)
  omega

/-- Digits behind which another one was dropped are off by one unit at most. -/
theorem develops_of_dropped {digits scale : Nat}
    (below : 10 * (digits * divisor) ≤ dividend * 10 ^ (scale + 1) + 10 * divisor)
    (above : dividend * 10 ^ (scale + 1) ≤ 10 * (digits * divisor) + 10 * divisor)
    (fine : 100 * divisor < 10 ^ (scale + 1)) : Develops dividend divisor digits scale := by
  have moved : dividend * 10 ^ (scale + 1) = 10 * (dividend * 10 ^ scale) := by ring
  rw [moved] at below above
  rw [Nat.pow_succ] at fine
  exact .inr ⟨by omega, by omega, by omega⟩

/-- A rounded quotient, for which the coefficient has room. -/
theorem develops_rounded {scale : Nat} (positive : 0 < divisor) (fine : divisor < 10 ^ scale) :
    Develops dividend divisor (roundHalfEven (dividend * 10 ^ scale) divisor) scale := by
  have near := roundHalfEven_near (dividend * 10 ^ scale) positive
  exact .inr ⟨by omega, by omega, fine⟩

/-- A quotient that is rounded with one digit less, because the coefficient has no room. -/
theorem develops_dropped {scale : Nat} (positive : 0 < divisor)
    (fine : 100 * divisor < 10 ^ (scale + 1)) :
    Develops dividend divisor (roundHalfEven (dividend * 10 ^ (scale + 1)) (10 * divisor)) scale := by
  have near := roundHalfEven_near (dividend * 10 ^ (scale + 1)) (by omega : 0 < 10 * divisor)
  rw [Nat.mul_left_comm _ 10] at near
  exact develops_of_dropped (by omega) (by omega) fine

/-- A quotient that is rounded twice, because the coefficient has no room after the first time. -/
theorem develops_rounded_dropped {scale : Nat} (positive : 0 < divisor)
    (fine : 100 * divisor < 10 ^ (scale + 1)) :
    Develops dividend divisor
      (roundHalfEven (roundHalfEven (dividend * 10 ^ (scale + 1)) divisor) 10) scale := by
  have near := roundHalfEven_near (dividend * 10 ^ (scale + 1)) positive
  generalize roundHalfEven (dividend * 10 ^ (scale + 1)) divisor = rounded at near ⊢
  obtain ⟨below, above⟩ := roundHalfEven_near rounded (by omega : 0 < 10)
  generalize roundHalfEven rounded 10 = digits at below above ⊢
  have below := Nat.mul_le_mul_right divisor below
  have above := Nat.mul_le_mul_right divisor above
  refine develops_of_dropped ?_ ?_ fine
  · linarith
  · linarith

/-- What a step leaves: a development that goes on, or digits of the quotient. -/
def Progress.Fits (dividend divisor : Nat) : Progress → Prop
  | .continue next => Divides dividend divisor next
  | .finished last => Develops dividend divisor last.digits last.scale.toNat
  | .overflow => True

variable {state : Development}

theorem Divides.below (divides : Divides dividend divisor state) :
    state.digits * divisor ≤ dividend * 10 ^ state.scale.toNat :=
  divides.parts ▸ Nat.le_add_right _ _

theorem exists_place {scale : Int} (behind : 0 < scale) :
    ∃ before : Nat, (scale - 1).toNat = before ∧ scale.toNat = before + 1 :=
  ⟨(scale - 1).toNat, rfl, by omega⟩

theorem Divides.append {power : Nat} (positive : 0 < divisor) (small : dividend ≤ widest)
    (divides : Divides dividend divisor state) :
    (append divisor power state).Fits dividend divisor := by
  have placed : 0 ≤ state.scale + power := Int.add_nonneg divides.placed (Int.natCast_nonneg _)
  have moved : (state.scale + power).toNat = state.scale.toNat + power := by
    have := divides.placed
    omega
  have parts : (state.digits * 10 ^ power + state.remainder * 10 ^ power / divisor) * divisor +
      state.remainder * 10 ^ power % divisor = dividend * 10 ^ (state.scale + power).toNat := by
    rw [Nat.add_mul, Nat.add_assoc, Nat.div_add_mod', moved, Nat.pow_add, ← Nat.mul_assoc,
      ← divides.parts]
    ring
  have less : state.remainder * 10 ^ power % divisor < divisor := Nat.mod_lt _ positive
  simp only [Decimal.append, Nat.pow_eq]
  generalize state.digits * 10 ^ power + state.remainder * 10 ^ power / divisor = digits at *
  generalize state.remainder * 10 ^ power % divisor = remainder at *
  split
  · trivial
  split
  · next room => exact ⟨placed, parts, less, room⟩
  split
  · trivial
  · next full before =>
      obtain ⟨scale, place, place'⟩ := exists_place (Int.not_le.mp before)
      rw [place'] at parts
      have fine : 100 * divisor < 10 ^ (scale + 1) :=
        fine_of_full positive small (parts ▸ Nat.le_add_right _ _) (by omega)
      rw [Progress.Fits, place, parts]
      exact develops_dropped positive fine

/-- The room is the largest power that is possible. -/
theorem le_room {digits power : Nat} {scale : Int} (single : power < 10)
    (place : power ≤ (maxScale - scale).toNat) (inside : digits * 10 ^ power < limit) :
    power ≤ room digits scale := by
  have possible : (power ≤ (maxScale - scale).toNat && digits * Nat.pow 10 power < limit) = true := by
    rw [Bool.and_eq_true, decide_eq_true_eq, decide_eq_true_eq]
    exact ⟨place, inside⟩
  have mem : power ∈ (List.range 10).reverse := List.mem_reverse.mpr (List.mem_range.mpr single)
  rw [room]
  cases found : (List.range 10).reverse.find? fun power =>
      power ≤ (maxScale - scale).toNat && digits * Nat.pow 10 power < limit with
  | none => exact absurd possible (List.find?_eq_none.mp found power mem)
  | some largest =>
      -- The search goes from the largest power down, so what it passes over is not possible.
      obtain ⟨_, before, after, parts, larger⟩ := List.find?_eq_some_iff_append.mp found
      have descending : (before ++ largest :: after).Pairwise (· > ·) := by
        rw [← parts, List.pairwise_reverse]
        exact List.pairwise_lt_range
      rw [parts, List.mem_append, List.mem_cons] at mem
      rcases mem with ahead | here | behind
      · have := larger power ahead
        rw [possible] at this
        cases this
      · exact here.le
      · rw [List.pairwise_append, List.pairwise_cons] at descending
        exact (descending.2.1.1 power behind).le

/-- Without room there is no place for a digit behind the point, or the coefficient is full. -/
theorem full_of_room_eq_zero {digits : Nat} {scale : Int} (none : room digits scale = 0) :
    (maxScale : Int) ≤ scale ∨ limit ≤ 10 * digits := by
  by_contra possible
  rw [not_or] at possible
  have room : 1 ≤ room digits scale := by
    refine le_room (by decide) (by omega) ?_
    rw [Nat.pow_one, Nat.mul_comm]
    exact Nat.lt_of_not_le possible.2
  omega

/-- A development that ends for lack of room has digits enough. -/
theorem Divides.fine (positive : 0 < divisor) (small : dividend ≤ widest)
    (small' : divisor ≤ widest) (divides : Divides dividend divisor state)
    (none : room state.digits state.scale = 0) :
    divisor < 10 ^ state.scale.toNat := by
  rcases full_of_room_eq_zero none with last | full
  · have placed : maxScale ≤ state.scale.toNat := by omega
    calc divisor ≤ widest := small'
      _ < 10 ^ maxScale := by decide
      _ ≤ 10 ^ state.scale.toNat := Nat.pow_le_pow_right (by decide) placed
  · have := fine_of_full positive small divides.below (by omega)
    omega

theorem Divides.develop (positive : 0 < divisor) (small : dividend ≤ widest)
    (small' : divisor ≤ widest) (divides : Divides dividend divisor state) :
    (develop divisor state).Fits dividend divisor := by
  unfold Decimal.develop
  split
  · next exact =>
      have parts := divides.parts
      rw [exact, Nat.add_zero] at parts
      rw [if_pos divides.placed]
      exact .inl parts
  simp only
  split
  · trivial
  split
  · next none =>
      have fine := divides.fine positive small small' none
      rw [divides.parts]
      split
      · exact develops_rounded positive fine
      · next full =>
          -- Rounding up has filled the coefficient, so it was full but for one unit.
          have most :
              roundHalfEven (dividend * 10 ^ state.scale.toNat) divisor ≤ state.digits + 1 := by
            refine roundHalfEven_le ?_
            rw [← divides.parts, Nat.add_one_mul]
            exact Nat.add_lt_add_left divides.less _
          have fine := fine_of_full positive small divides.below (by omega)
          have behind : 0 < state.scale := by
            by_contra before
            rw [Int.toNat_of_nonpos (Int.not_lt.mp before), Nat.pow_zero] at fine
            omega
          obtain ⟨scale, place, place'⟩ := exists_place behind
          rw [place'] at fine ⊢
          rw [Progress.Fits, place]
          exact develops_rounded_dropped positive fine
  · have marked : Divides dividend divisor { state with developed := true } :=
      ⟨divides.placed, divides.parts, divides.less, divides.inside⟩
    exact marked.append positive small

theorem developAll_develops (positive : 0 < divisor) (small : dividend ≤ widest)
    (small' : divisor ≤ widest) {steps : Nat} {last : Development}
    (divides : Divides dividend divisor state)
    (finished : developAll divisor steps state = some last) :
    Develops dividend divisor last.digits last.scale.toNat := by
  induction steps generalizing state with
  | zero => cases finished
  | succ steps ih =>
      rw [developAll] at finished
      have fits := divides.develop positive small small'
      revert finished
      cases step : Decimal.develop divisor state with
      | «continue» next =>
          intro finished
          rw [step] at fits
          exact ih fits finished
      | finished final =>
          rintro ⟨⟩
          rw [step] at fits
          exact fits
      | overflow => rintro ⟨⟩

end Steps

/-! ## Zeros behind the point -/

/-- Whether digits with a point stand for an integer. -/
def IsWhole (state : Nat × Nat) : Prop := 10 ^ state.2 ∣ state.1

theorem isWhole_dropPower (power : Nat) (state : Nat × Nat) :
    IsWhole (dropPower power state.1 state.2) ↔ IsWhole state := by
  obtain ⟨digits, scale⟩ := state
  simp only [dropPower, Nat.pow_eq]
  split
  · next zeros =>
      rw [Bool.and_eq_true, decide_eq_true_eq, decide_eq_true_eq] at zeros
      obtain ⟨place, zeros⟩ := zeros
      obtain ⟨kept, rfl⟩ := Nat.dvd_of_mod_eq_zero zeros
      have positive : 0 < 10 ^ power := by positivity
      rw [IsWhole, IsWhole, Nat.mul_div_cancel_left _ positive,
        ← Nat.mul_dvd_mul_iff_left positive, ← Nat.pow_add, Nat.add_sub_cancel' place]
  · rfl

/-- Dropping zeros changes the form of the digits only. -/
theorem isWhole_dropZeros (digits scale : Nat) :
    IsWhole (dropZeros digits scale) ↔ IsWhole (digits, scale) := by
  have step (test : Prop) [Decidable test] (power : Nat) (state : Nat × Nat)
      (kept : IsWhole state ↔ IsWhole (digits, scale)) :
      IsWhole (if test then dropPower power state.1 state.2 else state) ↔
        IsWhole (digits, scale) := by
    split
    · rwa [isWhole_dropPower]
    · exact kept
  have blocks : IsWhole ((List.range 3).foldl (fun state _ =>
      if state.1 % Nat.pow 2 32 = 0 then dropPower 8 state.1 state.2 else state) (digits, scale)) ↔
      IsWhole (digits, scale) := by
    refine List.foldlRecOn (motive := fun state => IsWhole state ↔ IsWhole (digits, scale)) _ _
      Iff.rfl ?_
    exact fun state kept _ _ => step _ 8 state kept
  refine List.foldlRecOn (motive := fun state => IsWhole state ↔ IsWhole (digits, scale)) _ _
    blocks ?_
  exact fun state kept drop _ => step _ drop.2 state kept

/-! ## Quotients of integers -/

/-- A quotient that is no integer is not rounded to one. -/
theorem toInt?_eq_none_of_div {a b : Int} (small : a.natAbs ≤ widest) (small' : b.natAbs ≤ widest)
    (fraction : ¬ b ∣ a) {x : Decimal} (quotient : div (ofInt a) (ofInt b) = some x) :
    x.toInt? = none := by
  have zero : a ≠ 0 := by
    rintro rfl
    exact fraction (Int.dvd_zero b)
  by_cases zero' : b = 0
  · subst zero'
    cases quotient
  have positive : 0 < b.natAbs := Int.natAbs_pos.mpr zero'
  have start : Divides a.natAbs b.natAbs ⟨a.natAbs / b.natAbs, a.natAbs % b.natAbs, 0, false⟩ := by
    refine ⟨Int.le_refl 0, ?_, Nat.mod_lt _ positive, ?_⟩
    · rw [Nat.div_add_mod']
      exact (Nat.mul_one _).symm
    · calc a.natAbs / b.natAbs ≤ a.natAbs := Nat.div_le_self _ _
        _ ≤ widest := small
        _ < limit := by decide
  simp only [div, ofInt, Int.natAbs_eq_zero, zero, zero', if_false, Int.natCast_zero, Int.sub_self,
    Option.bind_eq_bind, Option.bind_eq_some_iff] at quotient
  obtain ⟨last, found, finished⟩ := quotient
  have develops := developAll_develops positive small small' start found
  rw [toInt?_eq_none_iff]
  intro whole
  refine fraction (Int.natAbs_dvd_natAbs.mp (develops.dvd ?_))
  cases developed : last.developed with
  | true =>
      rw [developed] at finished
      cases finished
      exact (isWhole_dropZeros _ _).mp whole
  | false =>
      rw [developed] at finished
      cases finished
      exact whole

end Mixfix.Decimal
