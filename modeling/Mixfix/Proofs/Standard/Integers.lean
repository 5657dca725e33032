import Mixfix.Proofs.Binary64.Equality
import Mixfix.Proofs.Decimal.Quotients
import Mixfix.Proofs.Standard.Results

/-!
# Arithmetic of integers

What the arithmetic nodes give for integers of 64 bits is exact: the integer that is the result, if it
is one of 64 bits, and a floating-point number otherwise, but never another integer (`IsExactly`).

The way through decimals loses nothing. Sums, differences, products, remainders and quotients that are
integers are found exactly wherever a coefficient has room for them, and it has room for all integers
of 64 bits. A quotient that is no integer has a fraction in its decimal too, although its digits are
rounded.
-/

set_option autoImplicit false

namespace Mixfix.Standard

open Binary64 (isZero_ofInt_iff)
open Decimal (Yields widest)
open Evaluation (applyRule)
open Numeral (toInt64?)

/-! ## Integers of 64 bits -/

/-- A result is the integer of a number, if the number is one of 64 bits, and else a floating-point
number. -/
def IsExactly (result : Except EvalCause Value) (n : Int) : Prop :=
  (∀ m : Int64, result = .ok (.integer m) ↔ m.toInt = n) ∧
  ((∀ m : Int64, m.toInt ≠ n) → ∃ x, result = .ok (.float x))

/-- What is exactly an integer of 64 bits is this integer. -/
theorem IsExactly.eq_ok {result : Except EvalCause Value} {m : Int64}
    (exact : IsExactly result m.toInt) : result = .ok (.integer m) :=
  (exact.1 m).mpr rfl

theorem isExactly_integer (m : Int64) : IsExactly (.ok (.integer m)) m.toInt := by
  refine ⟨fun other => ?_, fun none => absurd rfl (none m)⟩
  rw [Except.ok.injEq, Value.integer.injEq, eq_comm, Int64.toInt_inj]

theorem isExactly_float {n : Int} (wide : toInt64? n = none) (x : Binary64) :
    IsExactly (.ok (.float x)) n := by
  refine ⟨fun m => iff_of_false nofun ?_, fun _ => ⟨x, rfl⟩⟩
  rintro rfl
  rw [Numeral.toInt64?_toInt] at wide
  cases wide

/-- The integer that is found for a number, or any floating-point number if none is found. -/
theorem isExactly_toInt64? {n : Int} (x : Binary64) :
    IsExactly (.ok (match toInt64? n with | some m => .integer m | none => .float x)) n := by
  cases found : toInt64? n with
  | some m =>
      rw [← Numeral.toInt_of_toInt64? found]
      exact isExactly_integer m
  | none => exact isExactly_float found x

theorem natAbs_le_widest (n : Int64) : n.toInt.natAbs ≤ widest := by
  have lower := n.le_toInt
  have upper := n.toInt_lt
  rw [widest]
  omega

theorem toInt64?_eq_none_of_limit {n : Int} (wide : Decimal.limit ≤ n.natAbs) :
    toInt64? n = none := by
  cases found : toInt64? n with
  | none => rfl
  | some m =>
      have small := natAbs_le_widest m
      rw [Numeral.toInt_of_toInt64? found] at small
      exact absurd (wide.trans small) (by decide)

/-! ## Rules on integers -/

section Rules

variable {a b : Int64} {operation : Decimal → Decimal → Option Decimal}
  {approximate : Binary64 → Binary64 → Binary64} {name : String}

/-- Two operands that are integers. -/
def integers (a b : Int64) : Args := [("left", .integer a), ("right", .integer b)]

theorem applyRule_arithmetic (operation : Decimal → Decimal → Option Decimal)
    (approximate : Binary64 → Binary64 → Binary64) (name : String) (a b : Int64) :
    applyRule (arithmetic operation approximate) name (integers a b) =
      .ok ((operation (.ofInt a.toInt) (.ofInt b.toInt)).elim
        (.float (approximate (.ofInt a.toInt) (.ofInt b.toInt))) ofDecimal) := by
  have decimals : exactly? operation (.integer a) (.integer b) =
      (operation (.ofInt a.toInt) (.ofInt b.toInt)).map ofDecimal := rfl
  have left : (integers a b).value "left" = .ok (.integer a) := rfl
  have right : (integers a b).value "right" = .ok (.integer b) := rfl
  have first : (integers a b).number "left" = .ok (.ofInt a.toInt) := rfl
  have second : (integers a b).number "right" = .ok (.ofInt b.toInt) := rfl
  unfold applyRule arithmetic
  rw [left, right, first, second]
  simp only [bind, Except.bind, decimals]
  cases operation (.ofInt a.toInt) (.ofInt b.toInt) <;> rfl

theorem isExactly_arithmetic {n : Int}
    (yields : Yields (operation (.ofInt a.toInt) (.ofInt b.toInt)) n) :
    IsExactly (applyRule (arithmetic operation approximate) name (integers a b)) n := by
  rw [applyRule_arithmetic]
  cases found : operation (.ofInt a.toInt) (.ofInt b.toInt) with
  | some x =>
      rw [found] at yields
      have whole : x.toInt? = some n := yields
      simp only [Option.elim_some, ofDecimal, whole, Option.bind_some]
      exact isExactly_toInt64? _
  | none =>
      rw [found] at yields
      exact isExactly_float (toInt64?_eq_none_of_limit yields) _

theorem float_of_arithmetic
    (fraction : ∀ x, operation (.ofInt a.toInt) (.ofInt b.toInt) = some x → x.toInt? = none) :
    ∃ x, applyRule (arithmetic operation approximate) name (integers a b) = .ok (.float x) := by
  rw [applyRule_arithmetic]
  cases found : operation (.ofInt a.toInt) (.ofInt b.toInt) with
  | some x =>
      have none : x.toInt? = none := fraction x found
      simp only [Option.elim_some, ofDecimal, none, Option.bind_none]
      exact ⟨_, rfl⟩
  | none => exact ⟨_, rfl⟩

theorem divided_integers (error : RuleError) (operation : Decimal → Decimal → Option Decimal)
    (approximate : Binary64 → Binary64 → Binary64) (a b : Int64) :
    divided error operation approximate (integers a b) =
      if b = 0 then .error error else arithmetic operation approximate (integers a b) := by
  have computed : divided error operation approximate (integers a b) =
      if (Binary64.ofInt b.toInt).isZero then .error error
      else arithmetic operation approximate (integers a b) := rfl
  simp only [computed, isZero_ofInt_iff]

theorem applyRule_divided {error : RuleError} (nonzero : b ≠ 0) :
    applyRule (divided error operation approximate) name (integers a b) =
      applyRule (arithmetic operation approximate) name (integers a b) := by
  rw [applyRule, applyRule, divided_integers, if_neg nonzero]

theorem applyRule_divided_zero {error : RuleError} :
    applyRule (divided error operation approximate) name (integers a 0) =
      .error (.ruleFailed name error) := by
  rw [applyRule, divided_integers, if_pos rfl]

theorem isExactly_opposite (a : Int64) (name : String) :
    IsExactly (applyRule opposite name [("operand", .integer a)]) (-a.toInt) := by
  have computed : opposite [("operand", .integer a)] =
      match toInt64? (-a.toInt) with
      | some n => .ok (.integer n)
      | none => .ok (.float (Binary64.ofInt a.toInt).neg) := rfl
  have exact := isExactly_toInt64? (n := -a.toInt) (Binary64.ofInt a.toInt).neg
  rw [applyRule, computed]
  cases found : toInt64? (-a.toInt) <;> rwa [found] at exact

end Rules

/-! ## The arithmetic nodes -/

section Nodes

variable {a b : Int64}

theorem infixResult_div (a b : Int64) : infixResult "div" (.integer a) (.integer b) =
    applyRule (divided .divisionByZero Decimal.div Binary64.div) "div" (integers a b) := rfl

theorem infixResult_mod (a b : Int64) : infixResult "mod" (.integer a) (.integer b) =
    applyRule (divided .moduloByZero Decimal.rem Binary64.rem) "mod" (integers a b) := rfl

theorem toInt_ne_zero (nonzero : b ≠ 0) : b.toInt ≠ 0 :=
  fun zero => nonzero (Int64.toInt_inj.mp zero)

/-- A quotient that is an integer is exact. -/
theorem isExactly_div (nonzero : b ≠ 0) (divides : b.toInt ∣ a.toInt) :
    IsExactly (infixResult "div" (.integer a) (.integer b)) (a.toInt / b.toInt) := by
  rw [infixResult_div, applyRule_divided nonzero]
  exact isExactly_arithmetic (Decimal.yields_div (toInt_ne_zero nonzero) divides)

/-- A quotient that is no integer gives a floating-point number. -/
theorem float_of_div (nonzero : b ≠ 0) (fraction : ¬ b.toInt ∣ a.toInt) :
    ∃ x, infixResult "div" (.integer a) (.integer b) = .ok (.float x) := by
  rw [infixResult_div, applyRule_divided nonzero]
  exact float_of_arithmetic fun x =>
    Decimal.toInt?_eq_none_of_div (natAbs_le_widest a) (natAbs_le_widest b) fraction

/-- A remainder is exact, and always an integer of 64 bits. -/
theorem integer_of_mod (nonzero : b ≠ 0) : ∃ r : Int64, r.toInt = a.toInt.tmod b.toInt ∧
    infixResult "mod" (.integer a) (.integer b) = .ok (.integer r) := by
  refine ⟨a % b, Int64.toInt_mod a b, IsExactly.eq_ok ?_⟩
  rw [infixResult_mod, applyRule_divided nonzero, Int64.toInt_mod]
  exact isExactly_arithmetic (Decimal.yields_rem _ (toInt_ne_zero nonzero))

theorem zero_divisor_fails (a : Int64) :
    infixResult "div" (.integer a) (.integer 0) = .error (.ruleFailed "div" .divisionByZero) ∧
    infixResult "mod" (.integer a) (.integer 0) = .error (.ruleFailed "mod" .moduloByZero) := by
  rw [infixResult_div, infixResult_mod]
  exact ⟨applyRule_divided_zero, applyRule_divided_zero⟩

end Nodes

/-- Integer arithmetic is exact and never wraps. -/
theorem integer_arithmetic_exact (a b : Int64) :
    IsExactly (infixResult "add" (.integer a) (.integer b)) (a.toInt + b.toInt) ∧
    IsExactly (infixResult "sub" (.integer a) (.integer b)) (a.toInt - b.toInt) ∧
    IsExactly (infixResult "mul" (.integer a) (.integer b)) (a.toInt * b.toInt) ∧
    (b ≠ 0 →
      (b.toInt ∣ a.toInt →
        IsExactly (infixResult "div" (.integer a) (.integer b)) (a.toInt / b.toInt)) ∧
      (¬ b.toInt ∣ a.toInt →
        ∃ x, infixResult "div" (.integer a) (.integer b) = .ok (.float x)) ∧
      ∃ r : Int64, r.toInt = a.toInt.tmod b.toInt ∧
        infixResult "mod" (.integer a) (.integer b) = .ok (.integer r)) ∧
    (b = 0 →
      infixResult "div" (.integer a) (.integer b) =
        .error (.ruleFailed "div" .divisionByZero) ∧
      infixResult "mod" (.integer a) (.integer b) =
        .error (.ruleFailed "mod" .moduloByZero)) ∧
    IsExactly (openerResult "neg" (.integer a)) (-a.toInt) := by
  refine ⟨?sum, ?difference, ?product, fun nonzero => ?divided, ?zero, isExactly_opposite a "neg"⟩
  case sum => exact isExactly_arithmetic (Decimal.yields_add _ _)
  case difference => exact isExactly_arithmetic (Decimal.yields_sub _ _)
  case product => exact isExactly_arithmetic (Decimal.yields_mul _ _)
  case divided => exact ⟨isExactly_div nonzero, float_of_div nonzero, integer_of_mod nonzero⟩
  case zero =>
    rintro rfl
    exact zero_divisor_fails a

theorem integer_arithmetic_exact_least :
    IsExactly (infixResult "div" (.integer Int64.minValue) (.integer (-1)))
      (Int64.minValue.toInt / (-1 : Int64).toInt) ∧
    (∃ x, infixResult "div" (.integer 10) (.integer 4) = .ok (.float x)) ∧
    (∃ r : Int64, r.toInt = (-7 : Int64).toInt.tmod (2 : Int64).toInt ∧
      infixResult "mod" (.integer (-7)) (.integer 2) = .ok (.integer r)) ∧
    infixResult "div" (.integer 1) (.integer 0) = .error (.ruleFailed "div" .divisionByZero) := by
  refine ⟨?_, ?_, ?_, ?_⟩
  · exact ((integer_arithmetic_exact Int64.minValue (-1)).2.2.2.1 (by decide)).1 (by decide)
  · exact ((integer_arithmetic_exact 10 4).2.2.2.1 (by decide)).2.1 (by decide)
  · exact ((integer_arithmetic_exact (-7) 2).2.2.2.1 (by decide)).2.2
  · exact ((integer_arithmetic_exact 1 0).2.2.2.2.1 rfl).1

end Mixfix.Standard
