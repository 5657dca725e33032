import Mixfix.Proofs.Standard.Results
import Mixfix.Proofs.Value.Sameness

/-!
# Comparison and equality

Six standard nodes compare two values. Four of them go by an order, of the places of numbers on the line
or of the code points of texts, and two by sameness. Where the order decides sameness, exactly one of
less, equal and greater holds and the other three nodes follow from these (`coherent_of_order`).

It does so for all texts and for all numbers but NaN, with one exception (`comparisons_cohere`):
different integers that are rounded to one number are in order equal, but they are not the same.
-/

set_option autoImplicit false

namespace Mixfix.Standard

open Binary64 (eq_self_iff exists_compare? ofInt_ne_nan)
open Value (Blurs wideInteger wideFloat)

/-! ## Values that can be compared -/

/-- A value is a number and not a NaN. -/
def IsPlaced (value : Value) : Prop :=
  value.isNumber = true ∧ value ≠ .float .nan

/-- Two numbers, neither of them a NaN, or two texts. -/
inductive Comparable : Value → Value → Prop
  | numbers {left right : Value} (first : IsPlaced left) (second : IsPlaced right) :
      Comparable left right
  | texts (left right : String) : Comparable (.string left) (.string right)

theorem IsPlaced.exists_float {value : Value} (placed : IsPlaced value) :
    ∃ x, value.toFloat? = some x ∧ x ≠ .nan := by
  obtain ⟨number, notNaN⟩ := placed
  cases value with
  | integer n => exact ⟨_, rfl, ofInt_ne_nan n⟩
  | float x => exact ⟨x, rfl, fun isNaN => notNaN (isNaN ▸ rfl)⟩
  | _ => cases number

theorem compareValues_of_floats {left right : Value} {x y : Binary64} {order : Ordering}
    (first : left.toFloat? = some x) (second : right.toFloat? = some y)
    (compares : x.compare? y = some order) : compareValues left right = .ok order := by
  have noText : left.toText? = none := by
    cases left <;> first | rfl | cases first
  rw [compareValues, noText, first, second]
  simp only [compares]

/-- Texts are equal if they compare so. -/
theorem eq_of_compareTexts (left right : String) :
    (left == right) = (compareTexts left right == .eq) := by
  unfold compareTexts
  rw [Bool.eq_iff_iff, beq_iff_eq, beq_iff_eq]
  split
  · next less =>
      refine iff_of_false ?_ nofun
      rintro rfl
      exact String.lt_irrefl left less
  · split
    · next equal => exact iff_of_true equal rfl
    · next different => exact iff_of_false different nofun

/-- Integers compare as the numbers that they are rounded to. -/
theorem decides_of_integers {n m : Int64} {order : Ordering}
    (decides : (Binary64.ofInt n.toInt).eq (Binary64.ofInt m.toInt) = (order == .eq)) :
    (Blurs (.integer n) (.integer m) → order = .eq) ∧
    (¬ Blurs (.integer n) (.integer m) →
      Value.same (.integer n) (.integer m) = (order == .eq)) := by
  constructor
  · rintro ⟨together⟩
    rwa [together.2, eq_comm, beq_iff_eq] at decides
  · intro distinct
    rw [Value.same, ← decides]
    by_cases equal : n = m
    · rw [equal, beq_self_eq_true, eq_self_iff.mpr (ofInt_ne_nan m)]
    · rw [beq_eq_false_iff_ne.mpr equal, eq_comm, ← Bool.not_eq_true]
      exact fun together => distinct (.integers ⟨equal, together⟩)

/-- Values that can be compared have an order. It decides whether they are the same, unless they are
different integers that are rounded to one number, which are in order equal. -/
theorem Comparable.exists_order {left right : Value} (comparable : Comparable left right) :
    ∃ order, compareValues left right = .ok order ∧ (Blurs left right → order = .eq) ∧
      (¬ Blurs left right → left.same right = (order == .eq)) := by
  cases comparable with
  | texts s t => exact ⟨compareTexts s t, rfl, nofun, fun _ => eq_of_compareTexts s t⟩
  | numbers first second =>
      obtain ⟨x, here, placed⟩ := first.exists_float
      obtain ⟨y, there, placed'⟩ := second.exists_float
      obtain ⟨order, compares, decides⟩ := exists_compare? placed placed'
      refine ⟨order, compareValues_of_floats here there compares, ?_⟩
      cases left <;> cases right <;> cases here <;> cases there
      · exact decides_of_integers decides
      all_goals exact ⟨nofun, fun _ => decides⟩

/-! ## The six nodes -/

/-- A node gives a truth value for two values. -/
def Gives (name : String) (left right : Value) (answer : Bool) : Prop :=
  infixResult name left right = .ok (.boolean answer)

theorem Gives.unique {name : String} {left right : Value} {answer other : Bool}
    (gives : Gives name left right answer) (gives' : Gives name left right other) : answer = other :=
  Value.boolean.inj (Except.ok.inj (gives.symm.trans gives'))

/-- Of less, equal and greater exactly one holds, and the other nodes follow from these. -/
def Coherent (left right : Value) : Prop :=
  ∃ less equal greater : Bool, [less, equal, greater].count true = 1 ∧
    Gives "lt" left right less ∧ Gives "eq" left right equal ∧ Gives "gt" left right greater ∧
    Gives "le" left right (less || equal) ∧ Gives "ge" left right (greater || equal) ∧
    Gives "ne" left right !equal

section Nodes

variable {left right : Value} {order : Ordering}

theorem gives_same (left right : Value) :
    Gives "eq" left right (left.same right) ∧ Gives "ne" left right !left.same right :=
  ⟨rfl, rfl⟩

theorem applyRule_compared (compares : compareValues left right = .ok order)
    (test : Ordering → Bool) (name : String) :
    Evaluation.applyRule (compared test) name [("left", left), ("right", right)] =
      .ok (.boolean (test order)) := by
  have computed : compared test [("left", left), ("right", right)] =
      (compareValues left right >>= fun order => .ok (.boolean (test order))) := rfl
  rw [Evaluation.applyRule, computed, compares]
  rfl

theorem gives_order (compares : compareValues left right = .ok order) :
    Gives "lt" left right (order == .lt) ∧ Gives "le" left right (order != .gt) ∧
    Gives "gt" left right (order == .gt) ∧ Gives "ge" left right (order != .lt) :=
  ⟨applyRule_compared compares _ "lt", applyRule_compared compares _ "le",
    applyRule_compared compares _ "gt", applyRule_compared compares _ "ge"⟩

/-- An order that decides sameness makes the six nodes agree. -/
theorem coherent_of_order (compares : compareValues left right = .ok order)
    (decides : left.same right = (order == .eq)) : Coherent left right := by
  obtain ⟨lt, le, gt, ge⟩ := gives_order compares
  obtain ⟨eq, ne⟩ := gives_same left right
  rw [decides] at eq ne
  refine ⟨order == .lt, order == .eq, order == .gt, by cases order <;> rfl, lt, eq, gt, ?_, ?_, ne⟩
  · convert le using 1
    cases order <;> rfl
  · convert ge using 1
    cases order <;> rfl

theorem Comparable.coherent (comparable : Comparable left right) (distinct : ¬ Blurs left right) :
    Coherent left right := by
  obtain ⟨order, compares, _, decides⟩ := comparable.exists_order
  exact coherent_of_order compares (decides distinct)

/-- The nodes agree if the left value is no integer from `2 ^ 53` on in size. -/
theorem Comparable.coherent_of_narrow (comparable : Comparable left right)
    (narrow : ∀ n, left = .integer n → n.toInt.natAbs < 2 ^ 53) : Coherent left right := by
  refine comparable.coherent fun blurs => ?_
  cases blurs with
  | integers together => exact absurd together.le_natAbs (Nat.not_le_of_lt (narrow _ rfl))
  | items => cases comparable with | numbers first => cases first.1
  | fields => cases comparable with | numbers first => cases first.1

end Nodes

/-- Two values that can be compared are less, equal or greater, unless they are different integers that
are rounded to one number. These are none of the three. -/
theorem comparisons_cohere {left right : Value} (comparable : Comparable left right) :
    (¬ Blurs left right → Coherent left right) ∧
    (Blurs left right →
      Gives "lt" left right false ∧ Gives "eq" left right false ∧ Gives "gt" left right false ∧
      Gives "le" left right true ∧ Gives "ge" left right true ∧ Gives "ne" left right true) := by
  refine ⟨comparable.coherent, fun blurs => ?_⟩
  obtain ⟨order, compares, tied, _⟩ := comparable.exists_order
  obtain ⟨eq, ne⟩ := gives_same left right
  rw [blurs.not_same] at eq ne
  rw [tied blurs] at compares
  obtain ⟨lt, le, gt, ge⟩ := gives_order compares
  exact ⟨lt, eq, gt, le, ge, ne⟩

theorem isPlaced_integer (n : Int64) : IsPlaced (.integer n) := ⟨rfl, nofun⟩

theorem comparisons_cohere_wide :
    Coherent (.integer wideInteger) (.float wideFloat) ∧
    Gives "lt" (.integer wideInteger) (.integer (wideInteger + 1)) false ∧
    Gives "eq" (.integer wideInteger) (.integer (wideInteger + 1)) false ∧
    Gives "gt" (.integer wideInteger) (.integer (wideInteger + 1)) false ∧
    Gives "le" (.integer wideInteger) (.integer (wideInteger + 1)) true ∧
    Gives "ge" (.integer wideInteger) (.integer (wideInteger + 1)) true ∧
    Gives "ne" (.integer wideInteger) (.integer (wideInteger + 1)) true := by
  have placed : IsPlaced (.float wideFloat) :=
    ⟨rfl, fun isNaN => ofInt_ne_nan wideInteger (Value.float.inj isNaN)⟩
  have together : Blurs (.integer wideInteger) (.integer (wideInteger + 1)) :=
    .integers ⟨by decide, by decide +kernel⟩
  exact ⟨(comparisons_cohere (.numbers (isPlaced_integer _) placed)).1 nofun,
    (comparisons_cohere (.numbers (isPlaced_integer _) (isPlaced_integer _))).2 together⟩

/-- Two integers can be neither less nor equal nor greater. -/
theorem not_coherent_of_comparable :
    ¬ ∀ left right : Value, Comparable left right → Coherent left right := by
  intro coherent
  obtain ⟨less, equal, greater, once, lt, eq, gt, _⟩ :=
    coherent (.integer wideInteger) (.integer (wideInteger + 1))
      (.numbers (isPlaced_integer _) (isPlaced_integer _))
  have compares : compareValues (.integer wideInteger) (.integer (wideInteger + 1)) = .ok .eq := by
    decide +kernel
  have different : Value.same (.integer wideInteger) (.integer (wideInteger + 1)) = false := by
    decide +kernel
  have tied := gives_order compares
  obtain rfl := lt.unique tied.1
  obtain rfl := gt.unique tied.2.2.1
  obtain rfl := eq.unique (gives_same _ _).1
  rw [different] at once
  cases once

end Mixfix.Standard
