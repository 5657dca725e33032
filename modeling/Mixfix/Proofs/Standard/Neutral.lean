import Mixfix.Proofs.Decimal.Vanishing
import Mixfix.Proofs.Standard.Results

/-!
# Operations with their neutral operands

A sum with zero, a difference to zero, a product with one and a quotient by one should give the other
operand back. The decimals do (`Neutral`), and so does floating point where there is no decimal. But a
number other than zero can have a decimal of zero, and then the result is the integer zero instead of
falling back to floating point. This happens exactly below the limit of decimals that vanish
(`neutralResults_spec`).
-/

set_option autoImplicit false

namespace Mixfix.Standard

open Binary64 (binade exponentOf exponentOf_eq infinityRank isNonzero_ofQuotient isNonzero_ofScaled
  leastExponent least_le_magnitude magnitude magnitude_of_count product_eq quotient_eq
  significandOf_pos)
open Decimal (limit maxScale)
open Evaluation (applyRule)

/-- A result is a number other than zero. -/
inductive IsNonzeroNumber : Except EvalCause Value → Prop
  | integer {n : Int64} (nonzero : n ≠ 0) : IsNonzeroNumber (.ok (.integer n))
  | float {x : Binary64} (nonzero : x.IsNonzero) : IsNonzeroNumber (.ok (.float x))

/-- What four arithmetic nodes give for a number and the integer that is neutral for them. -/
def neutralResults (x : Binary64) : List (Except EvalCause Value) :=
  [infixResult "add" (.float x) (.integer 0), infixResult "sub" (.float x) (.integer 0),
   infixResult "mul" (.float x) (.integer 1), infixResult "div" (.float x) (.integer 1)]

/-- A number is too small for a decimal. -/
def Vanishes : Binary64 → Prop
  | .nan => False
  | .signed _ rank _ => magnitude rank < Decimal.least

/-! ## Numbers of decimals -/

theorem ofDecimal_zero {x : Decimal} (zero : x.toInt? = some 0) : ofDecimal x = .integer 0 := by
  rw [ofDecimal, zero]
  rfl

/-- The number of a decimal other than zero is not zero, whether it is an integer or not. -/
theorem isNonzeroNumber_ofDecimal {x : Decimal} (nonzero : x.coefficient ≠ 0)
    (places : x.scale ≤ maxScale) : IsNonzeroNumber (.ok (ofDecimal x)) := by
  rw [ofDecimal]
  split
  · next n found =>
      obtain ⟨whole, integer, fits⟩ := Option.bind_eq_some_iff.mp found
      refine .integer ?_
      rintro rfl
      have zero := Numeral.toInt_of_toInt64? fits
      simp only [Decimal.toInt?, Nat.pow_eq] at integer
      split at integer
      · next divides =>
          cases integer
          have size := Decimal.natAbs_withSign x.negative (x.coefficient / 10 ^ x.scale)
          rw [← zero] at size
          have none : x.coefficient / 10 ^ x.scale = 0 := size.symm
          have parts := Nat.div_add_mod x.coefficient (10 ^ x.scale)
          rw [none, divides] at parts
          exact nonzero parts.symm
      · cases integer
  · exact .float (Decimal.isNonzero_toBinary nonzero places)

/-! ## Neutral operands -/

/-- An integer is neutral for an operation on decimals, up to the form of zero, and with it the operation
on binary numbers does not give zero for any other number. -/
structure Neutral (exact : Decimal → Decimal → Option Decimal)
    (approximate : Binary64 → Binary64 → Binary64) (n : Int64) : Prop where
  kept : ∀ x : Decimal, x.coefficient ≠ 0 → x.coefficient < limit → x.scale ≤ maxScale →
    exact x (.ofInt n.toInt) = some x
  zero : ∀ x : Decimal, x.coefficient = 0 →
    ∃ result, exact x (.ofInt n.toInt) = some result ∧ result.toInt? = some 0
  nonzero : ∀ negative {rank} bounded, 0 < rank → rank < infinityRank →
    (approximate (.signed negative rank bounded) (.ofInt n.toInt)).IsNonzero

theorem one_eq : Binary64.ofInt (1 : Int64).toInt = .signed false 0x3FF0000000000000 (by decide) := by
  decide +kernel

theorem magnitude_of_one : magnitude 0x3FF0000000000000 = 1 := by
  have parts : 0x3FF0000000000000 = binade + 1022 * binade := by decide
  rw [parts, magnitude_of_count (.inr le_rfl) (by decide), leastExponent]
  norm_num [binade]

section Approximate

variable {rank : Nat} (negative : Bool) (bounded : rank ≤ 0x7FF0000000000000) (positive : 0 < rank)
  (finite : rank < infinityRank)
include positive finite

/-- The sum with zero of either sign is not zero. -/
theorem isNonzero_add_zero (sign : Bool) :
    (Binary64.add (.signed negative rank bounded) (.zero sign)).IsNonzero := by
  have zero : Binary64.zero sign = .signed sign 0 (Nat.zero_le _) := rfl
  have smaller : min (exponentOf rank) (exponentOf 0) = leastExponent := by
    rw [exponentOf_eq, exponentOf_eq]
    exact min_eq_right (Int.le_add_of_nonneg_right (Int.natCast_nonneg _))
  have nothing : withSign sign (Binary64.unitsOf 0 leastExponent) = 0 := by
    cases sign <;> rfl
  have units : 0 < Binary64.unitsOf rank leastExponent :=
    Nat.mul_pos (significandOf_pos positive) (Nat.pow_pos (by decide))
  have size := Decimal.natAbs_withSign negative (Binary64.unitsOf rank leastExponent)
  rw [zero]
  simp only [Binary64.add, if_neg finite.ne, if_neg (by decide : 0 ≠ infinityRank),
    Binary64.addFinite, smaller, nothing, Int.add_zero]
  rw [if_neg (fun none => by rw [none] at size; omega), size]
  refine isNonzero_ofScaled _ (le_mul_of_one_le_left (by positivity) ?_)
  exact_mod_cast units

theorem isNonzero_mul_one :
    (Binary64.mul (.signed negative rank bounded) (.ofInt (1 : Int64).toInt)).IsNonzero := by
  rw [one_eq]
  simp only [Binary64.mul, finite.ne, positive.ne', decide_false, Bool.false_or]
  rw [if_neg (by decide)]
  refine isNonzero_ofScaled _ ?_
  rw [product_eq, magnitude_of_one, mul_one]
  exact least_le_magnitude positive

theorem isNonzero_div_one :
    (Binary64.div (.signed negative rank bounded) (.ofInt (1 : Int64).toInt)).IsNonzero := by
  rw [one_eq]
  simp only [Binary64.div, if_neg finite.ne]
  rw [if_neg (by decide), if_neg (by decide)]
  refine isNonzero_ofQuotient _ (Nat.mul_pos (by decide) (Nat.pow_pos (by decide))) ?_
  rw [quotient_eq rank (by decide), magnitude_of_one, div_one]
  exact least_le_magnitude positive

end Approximate

theorem add_zero_decimal (x : Decimal) :
    Decimal.add x (.ofInt 0) = some (if x.coefficient = 0 then .ofInt 0 else x) := by
  rw [Decimal.add]
  split
  · rfl
  · rfl

theorem neutral_add : Neutral Decimal.add Binary64.add 0 where
  kept x nonzero _ _ := (add_zero_decimal x).trans (by rw [if_neg nonzero])
  zero x zero := ⟨_, (add_zero_decimal x).trans (by rw [if_pos zero]), rfl⟩
  nonzero negative _ bounded positive finite :=
    isNonzero_add_zero negative bounded positive finite false

theorem neutral_sub : Neutral Decimal.sub Binary64.sub 0 where
  kept := neutral_add.kept
  zero := neutral_add.zero
  nonzero negative _ bounded positive finite :=
    isNonzero_add_zero negative bounded positive finite true

/-- A coefficient in range is not rounded. -/
theorem fit_of_inside {negative : Bool} {coefficient scale : Nat} (inside : coefficient < limit)
    (places : scale ≤ maxScale) :
    Decimal.fit negative coefficient scale = some ⟨negative, coefficient, scale⟩ := by
  simp only [Decimal.fit, Nat.sub_eq_zero_of_le places, Nat.sub_zero, List.range_succ_eq_map,
    List.findSome?_cons, Nat.zero_add, Nat.pow_eq, Nat.pow_zero, roundHalfEven_one, if_pos inside]

theorem neutral_mul : Neutral Decimal.mul Binary64.mul 1 where
  kept x nonzero inside places := by
    have near : ¬ 47 < x.scale := not_lt.mpr (places.trans (by decide))
    have one : Decimal.ofInt (1 : Int64).toInt = ⟨false, 1, 0⟩ := rfl
    rw [one]
    simp [Decimal.mul, nonzero, near, fit_of_inside inside places]
  zero x zero := ⟨Decimal.zero, by simp [Decimal.mul, zero], rfl⟩
  nonzero negative _ bounded := isNonzero_mul_one negative bounded

/-- The quotient is complete before any digit is developed. -/
theorem neutral_div : Neutral Decimal.div Binary64.div 1 where
  kept x nonzero inside places := by
    have one : Decimal.ofInt (1 : Int64).toInt = ⟨false, 1, 0⟩ := rfl
    rw [one]
    simp [Decimal.div, Decimal.developAll, Decimal.develop, nonzero, Nat.mod_one]
  zero x zero := ⟨Decimal.zero, by simp [Decimal.div, zero, Decimal.ofInt], rfl⟩
  nonzero negative _ bounded := isNonzero_div_one negative bounded

/-! ## Rules on neutral operands -/

section Rules

variable {exact : Decimal → Decimal → Option Decimal} {approximate : Binary64 → Binary64 → Binary64}
  {n : Int64} {x : Binary64}

/-- A number and an integer as operands. -/
def operands (x : Binary64) (n : Int64) : Args := [("left", .float x), ("right", .integer n)]

theorem applyRule_operands (exact : Decimal → Decimal → Option Decimal)
    (approximate : Binary64 → Binary64 → Binary64) (name : String) (x : Binary64) (n : Int64) :
    applyRule (arithmetic exact approximate) name (operands x n) =
      .ok (((Decimal.ofBinary? x).bind (exact · (.ofInt n.toInt))).elim
        (.float (approximate x (.ofInt n.toInt))) ofDecimal) := by
  have decimals : exactly? exact (.float x) (.integer n) =
      ((Decimal.ofBinary? x).bind (exact · (.ofInt n.toInt))).map ofDecimal := by
    have right : toDecimal? (.integer n) = some (.ofInt n.toInt) := rfl
    have left : toDecimal? (.float x) = Decimal.ofBinary? x := rfl
    rw [exactly?, left, right]
    cases Decimal.ofBinary? x <;> rfl
  have left : (operands x n).value "left" = .ok (.float x) := rfl
  have right : (operands x n).value "right" = .ok (.integer n) := rfl
  have first : (operands x n).number "left" = .ok x := rfl
  have second : (operands x n).number "right" = .ok (.ofInt n.toInt) := rfl
  unfold applyRule arithmetic
  rw [left, right, first, second]
  simp only [bind, Except.bind, decimals]
  cases (Decimal.ofBinary? x).bind (exact · (.ofInt n.toInt)) <;> rfl

/-- A division by one is not by zero. -/
theorem applyRule_divided_one (error : RuleError) (name : String) (x : Binary64) :
    applyRule (divided error exact approximate) name (operands x 1) =
      applyRule (arithmetic exact approximate) name (operands x 1) := by
  have computed : divided error exact approximate (operands x 1) =
      if (Binary64.ofInt (1 : Int64).toInt).isZero then .error error
      else arithmetic exact approximate (operands x 1) := rfl
  have one : (Binary64.ofInt (1 : Int64).toInt).isZero = false := by decide +kernel
  rw [applyRule, applyRule, computed, one]
  rfl

theorem exists_rank (finite : x.isFinite = true) (nonzero : x.isZero = false) :
    ∃ negative rank bounded, x = .signed negative rank bounded ∧ 0 < rank ∧ rank < infinityRank := by
  cases x with
  | nan => cases finite
  | signed negative rank bounded =>
      exact ⟨negative, rank, bounded, rfl, Nat.pos_of_ne_zero (beq_eq_false_iff_ne.mp nonzero),
        of_decide_eq_true finite⟩

theorem ofBinary?_signed {negative : Bool} {rank : Nat} (bounded : rank ≤ 0x7FF0000000000000)
    (positive : 0 < rank) (finite : rank < infinityRank) :
    Decimal.ofBinary? (.signed negative rank bounded) = Decimal.ofMagnitude? negative rank := by
  rw [Decimal.ofBinary?, if_neg finite.ne, if_neg positive.ne']

/-- A number that does not vanish is kept from zero. -/
theorem Neutral.isNonzeroNumber (neutral : Neutral exact approximate n) (finite : x.isFinite = true)
    (nonzero : x.isZero = false) (lasts : ¬ Vanishes x) (name : String) :
    IsNonzeroNumber (applyRule (arithmetic exact approximate) name (operands x n)) := by
  obtain ⟨negative, rank, bounded, rfl, positive, finite⟩ := exists_rank finite nonzero
  rw [applyRule_operands, ofBinary?_signed bounded positive finite]
  cases found : Decimal.ofMagnitude? negative rank with
  | none => exact .float (neutral.nonzero negative bounded positive finite)
  | some decimal =>
      have left : decimal.coefficient ≠ 0 :=
        fun zero => lasts ((Decimal.coefficient_eq_zero_iff positive found).mp zero)
      obtain ⟨inside, places⟩ := Decimal.inside_of_ofMagnitude? positive found
      rw [Option.bind_some, neutral.kept decimal left inside places]
      exact isNonzeroNumber_ofDecimal left places

/-- A number that vanishes gives the integer zero. -/
theorem Neutral.eq_zero (neutral : Neutral exact approximate n) (finite : x.isFinite = true)
    (nonzero : x.isZero = false) (small : Vanishes x) (name : String) :
    applyRule (arithmetic exact approximate) name (operands x n) = .ok (.integer 0) := by
  obtain ⟨negative, rank, bounded, rfl, positive, finite⟩ := exists_rank finite nonzero
  obtain ⟨decimal, found⟩ := Decimal.exists_ofMagnitude? positive small negative
  obtain ⟨result, exactly, zero⟩ :=
    neutral.zero decimal ((Decimal.coefficient_eq_zero_iff positive found).mpr small)
  rw [applyRule_operands, ofBinary?_signed bounded positive finite, found, Option.bind_some, exactly]
  exact congrArg _ (ofDecimal_zero zero)

/-- What holds of the rule of every operation with its neutral operand holds of the four results. -/
theorem forall_neutralResults {holds : Except EvalCause Value → Prop}
    (each : ∀ {exact approximate n}, Neutral exact approximate n → ∀ name,
      holds (applyRule (arithmetic exact approximate) name (operands x n))) :
    ∀ result ∈ neutralResults x, holds result := by
  have quotient : infixResult "div" (.float x) (.integer 1) =
      applyRule (divided .divisionByZero Decimal.div Binary64.div) "div" (operands x 1) := rfl
  intro result mem
  simp only [neutralResults, List.mem_cons, List.not_mem_nil, or_false] at mem
  rcases mem with rfl | rfl | rfl | rfl
  · exact each neutral_add "add"
  · exact each neutral_sub "sub"
  · exact each neutral_mul "mul"
  · rw [quotient, applyRule_divided_one]
    exact each neutral_div "div"

end Rules

/-- With a neutral operand a finite number other than zero gives a number other than zero, unless it is
below the limit of decimals that vanish. Then it gives zero. -/
theorem neutralResults_spec {x : Binary64} (finite : x.isFinite = true) (nonzero : x.isZero = false) :
    (¬ Vanishes x → ∀ result ∈ neutralResults x, IsNonzeroNumber result) ∧
    (Vanishes x → ∀ result ∈ neutralResults x, result = .ok (.integer 0)) :=
  ⟨fun lasts => forall_neutralResults fun neutral => neutral.isNonzeroNumber finite nonzero lasts,
    fun small => forall_neutralResults fun neutral => neutral.eq_zero finite nonzero small⟩

/-- `1e-40`. -/
def tiny : Binary64 := .signed false 0x37A16C262777579C (by decide)

theorem vanishes_tiny : Vanishes tiny := by
  have parts : 0x37A16C262777579C = 0x116C262777579C + 889 * binade := by decide
  rw [tiny, Vanishes, parts, magnitude_of_count (.inr (by decide)) (by decide), leastExponent,
    Decimal.least]
  norm_num

theorem neutralResults_spec_tiny :
    (∀ result ∈ neutralResults tiny, result = .ok (.integer 0)) ∧
    ∀ result ∈ neutralResults (.ofInt (1 : Int64).toInt), IsNonzeroNumber result := by
  have lasts : ¬ Vanishes (.ofInt (1 : Int64).toInt) := by
    rw [one_eq, Vanishes, magnitude_of_one]
    exact Decimal.least_lt_one.le.not_gt
  exact ⟨(neutralResults_spec (by decide) (by decide)).2 vanishes_tiny,
    (neutralResults_spec (by decide +kernel) (by decide +kernel)).1 lasts⟩

/-- Not every finite number other than zero gives a number other than zero. -/
theorem not_isNonzeroNumber_of_neutral :
    ¬ ∀ x : Binary64, x.isFinite = true → x.isZero = false →
      ∀ result ∈ neutralResults x, IsNonzeroNumber result := by
  intro nonzero
  have finite : tiny.isFinite = true := by decide
  have notZero : tiny.isZero = false := by decide
  have kept := nonzero tiny finite notZero _ List.mem_cons_self
  have lost : ∀ result ∈ neutralResults tiny, result = .ok (.integer 0) :=
    forall_neutralResults fun neutral => neutral.eq_zero finite notZero vanishes_tiny
  rw [lost _ List.mem_cons_self] at kept
  cases kept with
  | integer nonzero => exact nonzero rfl

end Mixfix.Standard
