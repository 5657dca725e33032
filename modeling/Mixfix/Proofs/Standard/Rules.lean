import Mixfix.Proofs.Standard.Demands
import Mixfix.Standard

/-!
# What the standard rules compute

The rule of a standard operator gives what the operator answers. It fails only because of the values
of its operands (`RuleError.IsExpected`), if the operands are of the kinds that the operator asks
for. Both halves are stated at once, as what a computation gives and how it fails (`Outcome`), so
they follow the binds of the rules (`Outcome.bind`).
-/

set_option autoImplicit false

namespace Mixfix

/-- The failures that depend on more than the kinds of the operands, and comparisons of operands of
different kinds. -/
inductive RuleError.IsExpected : RuleError → Prop
  | divisionByZero : IsExpected .divisionByZero
  | moduloByZero : IsExpected .moduloByZero
  | incomparable (left right : String) : IsExpected (.incomparable left right)
  | comparedNaN : IsExpected .comparedNaN

/-- What a computation gives, and how it fails. -/
def Outcome {ε α : Type} (result : Except ε α) (gives : α → Prop) (fails : ε → Prop) : Prop :=
  match result with
  | .ok value => gives value
  | .error error => fails error

namespace Outcome

variable {ε α β : Type} {result : Except ε α} {gives : α → Prop} {fails : ε → Prop}

theorem bind {next : α → Except ε β} {after : β → Prop} (first : Outcome result gives fails)
    (second : ∀ value, gives value → Outcome (next value) after fails) :
    Outcome (result >>= next) after fails := by
  cases result with
  | ok value => exact second value first
  | error error => exact first

theorem of_ok {value : α} (outcome : Outcome result gives fails) (ok : result = .ok value) :
    gives value := by
  subst ok
  exact outcome

theorem of_error {error : ε} (outcome : Outcome result gives fails) (failed : result = .error error) :
    fails error := by
  subst failed
  exact outcome

end Outcome

namespace Standard

/-! ## Operands -/

/-- Whether a value is of a kind that a demand names, if it names any. -/
def Demand.Meets (demand : Demand) (value : Value) : Prop :=
  demand.type?.isSome = true → value.kindName ∈ demand.kinds.map Kind.keyword

theorem Demand.Meets.toBool? {value : Value} (meets : Demand.truth.Meets value) :
    value.toBool?.isSome = true := by
  cases value with
  | boolean b => rfl
  | _ => simp [Meets, type?, kinds, Kind.keyword, Value.kindName] at meets

theorem Demand.Meets.toText? {value : Value} (meets : Demand.text.Meets value) :
    value.toText?.isSome = true := by
  cases value with
  | string s => rfl
  | _ => simp [Meets, type?, kinds, Kind.keyword, Value.kindName] at meets

theorem Demand.Meets.toFloat? {value : Value} (meets : Demand.number.Meets value) :
    value.toFloat?.isSome = true := by
  cases value with
  | integer n => rfl
  | float x => rfl
  | _ => simp [Meets, type?, kinds, Kind.keyword, Value.kindName] at meets

/-- A failure that is expected if all operands are of the kinds that a demand names. -/
def Excused (demand : Demand) (args : Args) (error : RuleError) : Prop :=
  (∀ operand ∈ args, demand.Meets operand.2) → error.IsExpected

section Operands

variable {args : Args} {name : String} {value : Value}

theorem mem_of_value (found : args.value name = .ok value) : (name, value) ∈ args := by
  unfold Args.value at found
  split at found
  · next inside there =>
      cases found
      induction args with
      | nil => cases there
      | cons head rest ih =>
          obtain ⟨key, first⟩ := head
          rw [Dict.get?_cons] at there
          split at there
          · next same =>
              cases there
              rw [same]
              exact List.mem_cons_self
          · exact List.mem_cons_of_mem _ (ih there)
  · cases found

theorem outcome_value {fails : RuleError → Prop} (found : args.value name = .ok value) :
    Outcome (args.value name) (value = ·) fails := by
  rw [found]
  exact rfl

/-- That an operand cannot be converted is excused, as it is of another kind than the demand
names. -/
theorem excused_of_none {demand : Demand} {α : Type} {converted : Option α} {error : RuleError}
    (converts : demand.Meets value → converted.isSome = true)
    (found : args.value name = .ok value) (none : converted = none) : Excused demand args error := by
  intro met
  have known := converts (met _ (mem_of_value found))
  rw [none] at known
  cases known

theorem outcome_boolean (found : args.value name = .ok value) :
    Outcome (args.boolean name) (fun _ => True) (Excused .truth args) := by
  refine (outcome_value found).bind ?_
  rintro _ rfl
  split
  · trivial
  · next none => exact excused_of_none Demand.Meets.toBool? found none

theorem outcome_string (found : args.value name = .ok value) :
    Outcome (args.string name) (fun _ => True) (Excused .text args) := by
  refine (outcome_value found).bind ?_
  rintro _ rfl
  split
  · trivial
  · next none => exact excused_of_none Demand.Meets.toText? found none

theorem outcome_number (found : args.value name = .ok value) :
    Outcome (args.number name) (fun _ => True) (Excused .number args) := by
  refine (outcome_value found).bind ?_
  rintro _ rfl
  split
  · trivial
  · next none => exact excused_of_none Demand.Meets.toFloat? found none

end Operands

/-! ## Rules -/

/-- Whether a value is what an operator answers to operands. -/
def Answer.Holds (answer : Answer) (operands : List Value) (value : Value) : Prop :=
  match answer with
  | .truth => ∃ b, value = .boolean b
  | .number => value.isNumber = true
  | .text => ∃ s, value = .string s
  | .either => value ∈ operands

/-- A rule answers operands as an operator does, and its failures are excused. -/
def Computes (demand : Demand) (answer : Answer) (rule : Rule) (args : Args) : Prop :=
  Outcome (rule args) (answer.Holds (args.map Prod.snd)) (Excused demand args)

section Rules

variable {left right operand : Value}

theorem computes_either : Computes .truth .truth either [("left", left), ("right", right)] := by
  refine (outcome_boolean rfl).bind fun first _ => ?_
  cases first with
  | true => exact ⟨true, rfl⟩
  | false => exact (outcome_boolean rfl).bind fun second _ => ⟨second, rfl⟩

theorem computes_both : Computes .truth .truth both [("left", left), ("right", right)] := by
  refine (outcome_boolean rfl).bind fun first _ => ?_
  cases first with
  | true => exact (outcome_boolean rfl).bind fun second _ => ⟨second, rfl⟩
  | false => exact ⟨false, rfl⟩

theorem computes_orElse : Computes .anything .either orElse [("left", left), ("right", right)] := by
  refine (outcome_value rfl).bind ?_
  rintro _ rfl
  by_cases nullish : left.isNullish = true
  · rw [if_pos nullish]
    exact List.mem_cons_of_mem _ List.mem_cons_self
  · rw [if_neg nullish]
    exact List.mem_cons_self

theorem computes_equal : Computes .anything .truth equal [("left", left), ("right", right)] :=
  ⟨left.same right, rfl⟩

theorem computes_different :
    Computes .anything .truth different [("left", left), ("right", right)] :=
  ⟨!left.same right, rfl⟩

theorem computes_negate : Computes .truth .truth negate [("operand", operand)] :=
  (outcome_boolean rfl).bind fun b _ => ⟨!b, rfl⟩

/-- A comparison fails only on values that cannot be compared. -/
theorem outcome_compareValues (left right : Value) :
    Outcome (compareValues left right) (fun _ => True) RuleError.IsExpected := by
  unfold compareValues
  split
  · trivial
  · split
    · split
      · trivial
      · exact .comparedNaN
    · exact .incomparable _ _

theorem computes_compared (test : Ordering → Bool) :
    Computes .comparable .truth (compared test) [("left", left), ("right", right)] := by
  have compares : Outcome (compareValues left right) (fun _ => True)
      (Excused .comparable [("left", left), ("right", right)]) := by
    have outcome := outcome_compareValues left right
    cases result : compareValues left right with
    | ok order => trivial
    | error error => exact fun _ => outcome.of_error result
  exact compares.bind fun order _ => ⟨test order, rfl⟩

theorem isNumber_of_exactly? {operation : Decimal → Decimal → Option Decimal} {result : Value}
    (exact : exactly? operation left right = some result) : result.isNumber = true := by
  simp only [exactly?, Option.bind_eq_bind, Option.bind_eq_some_iff, Option.map_eq_some_iff] at exact
  obtain ⟨_, _, _, _, decimal, _, rfl⟩ := exact
  unfold ofDecimal
  split <;> rfl

theorem computes_arithmetic (exact : Decimal → Decimal → Option Decimal)
    (approximate : Binary64 → Binary64 → Binary64) :
    Computes .number .number (arithmetic exact approximate)
      [("left", left), ("right", right)] := by
  refine (outcome_value rfl).bind ?_
  rintro _ rfl
  refine (outcome_value rfl).bind ?_
  rintro _ rfl
  split
  · next result decimal => exact isNumber_of_exactly? decimal
  · refine (outcome_number rfl).bind fun x _ => ?_
    exact (outcome_number rfl).bind fun y _ => rfl

theorem computes_divided {error : RuleError} (expected : error.IsExpected)
    (exact : Decimal → Decimal → Option Decimal)
    (approximate : Binary64 → Binary64 → Binary64) :
    Computes .number .number (divided error exact approximate)
      [("left", left), ("right", right)] := by
  refine (outcome_number rfl).bind fun divisor _ => ?_
  by_cases zero : divisor.isZero = true
  · rw [if_pos zero]
    exact fun _ => expected
  · rw [if_neg zero]
    exact computes_arithmetic exact approximate

theorem computes_opposite : Computes .number .number opposite [("operand", operand)] := by
  refine (outcome_value rfl).bind ?_
  rintro _ rfl
  split
  · split
    · exact rfl
    · exact rfl
  · exact (outcome_number rfl).bind fun x _ => rfl

theorem computes_power : Computes .number .number power [("left", left), ("right", right)] := by
  have approximate : Outcome (do
      .ok (.float ((← Args.number [("left", left), ("right", right)] "left").pow
        (← Args.number [("left", left), ("right", right)] "right"))))
      (Answer.number.Holds [left, right])
      (Excused .number [("left", left), ("right", right)]) := by
    refine (outcome_number rfl).bind fun x _ => ?_
    exact (outcome_number rfl).bind fun y _ => rfl
  refine (outcome_value rfl).bind ?_
  rintro _ rfl
  refine (outcome_value rfl).bind ?_
  rintro _ rfl
  split
  · split
    · exact rfl
    · exact approximate
  · exact approximate

theorem computes_join : Computes .text .text join [("left", left), ("right", right)] := by
  refine (outcome_string rfl).bind fun first _ => ?_
  exact (outcome_string rfl).bind fun second _ => ⟨first ++ second, rfl⟩

/-- A choice gives one of its values, if its condition is a truth value. -/
theorem outcome_choose (condition positive negative : Value) :
    Outcome (choose [("condition", condition), ("else", negative), ("then", positive)])
      (fun value => value ∈ [positive, negative])
      (fun error => Demand.truth.Meets condition → error.IsExpected) := by
  show Outcome (Args.boolean _ "condition" >>= fun b => _) _ _
  cases condition with
  | boolean b =>
      cases b with
      | true => exact List.mem_cons_self
      | false => exact List.mem_cons_of_mem _ List.mem_cons_self
  | _ =>
      intro meets
      have known := meets.toBool?
      cases known

end Rules

/-! ## Operators -/

/-- The rule of an operator computes what the operator answers. -/
theorem Infix.exists_rule {op : Infix} (known : op ∈ infixes) :
    ∃ rule, Evaluation.rule table op.production.name = .ok rule ∧
      ∀ left right, Computes op.demand op.answer rule [("left", left), ("right", right)] := by
  simp only [infixes, chained, exponentiation, List.cons_append, List.nil_append, List.mem_cons,
    List.not_mem_nil, or_false] at known
  rcases known with rfl | rfl | rfl | rfl | rfl | rfl | rfl | rfl | rfl | rfl | rfl | rfl | rfl |
    rfl | rfl | rfl
  · exact ⟨_, rfl, fun _ _ => computes_either⟩
  · exact ⟨_, rfl, fun _ _ => computes_orElse⟩
  · exact ⟨_, rfl, fun _ _ => computes_both⟩
  · exact ⟨_, rfl, fun _ _ => computes_equal⟩
  · exact ⟨_, rfl, fun _ _ => computes_different⟩
  · exact ⟨_, rfl, fun _ _ => computes_compared _⟩
  · exact ⟨_, rfl, fun _ _ => computes_compared _⟩
  · exact ⟨_, rfl, fun _ _ => computes_compared _⟩
  · exact ⟨_, rfl, fun _ _ => computes_compared _⟩
  · exact ⟨_, rfl, fun _ _ => computes_arithmetic _ _⟩
  · exact ⟨_, rfl, fun _ _ => computes_join⟩
  · exact ⟨_, rfl, fun _ _ => computes_arithmetic _ _⟩
  · exact ⟨_, rfl, fun _ _ => computes_arithmetic _ _⟩
  · exact ⟨_, rfl, fun _ _ => computes_divided .divisionByZero _ _⟩
  · exact ⟨_, rfl, fun _ _ => computes_divided .moduloByZero _ _⟩
  · exact ⟨_, rfl, fun _ _ => computes_power⟩

theorem Opener.exists_rule {op : Opener} (known : op ∈ openers) :
    ∃ rule, Evaluation.rule table op.production.name = .ok rule ∧
      ∀ operand, Computes op.demand op.answer rule [("operand", operand)] := by
  simp only [openers, List.mem_cons, List.not_mem_nil, or_false] at known
  rcases known with rfl | rfl
  · exact ⟨_, rfl, fun _ => computes_opposite⟩
  · exact ⟨_, rfl, fun _ => computes_negate⟩

theorem rule_choice : Evaluation.rule table choice.name = .ok choose := rfl

end Standard

end Mixfix
