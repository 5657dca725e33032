import Mixfix.Proofs.Schema.Fitness
import Mixfix.Proofs.Standard.Rules
import Mixfix.Proofs.Standard.Subtrees

/-!
# Values keep to their types

A relation between types and values that holds of all admitted values and passes to the sorted union
of types (`Respected`) holds between the type of every standard expression and its value
(`Written.outcome`). The induction follows what is written, with one case for each shape of a node.

The same induction shows how an evaluation fails. If the relation is strict, so that a value related
to an accepted type is of the kinds asked for, no rule is given an operand that it has to refuse.
-/

set_option autoImplicit false

namespace Mixfix

/-- The failures of an evaluation that no types can prevent. -/
inductive EvalCause.IsExpected : EvalCause → Prop
  | dataViolation (violations : List Violation) : IsExpected (.dataViolation violations)
  | missingData (path : List String) : IsExpected (.missingData path)
  | ruleFailed (name : String) {error : RuleError} (expected : error.IsExpected) :
      IsExpected (.ruleFailed name error)

namespace Standard

open Parse Lexeme Evaluation
open Descriptor (admits admitsPrimitive admitsNumber admitsString ofValue plain sortedUnion)

/-! ## Relations -/

/-- A relation between types of a sort and values that evaluation respects. -/
structure Respected (Good : Descriptor → Prop) (Describes : Descriptor → Value → Prop) : Prop where
  closed : Closed Good
  admitted {type : Descriptor} {value : Value} (good : Good type)
    (admits : type.admits value = true) : Describes type value
  union {types : List Descriptor} {type : Descriptor} {value : Value}
    (good : ∀ type ∈ types, Good type) (known : type ∈ types) (describes : Describes type value) :
    Describes (sortedUnion types) value

/-- A value related to a type that a demand accepts is of a kind that the demand names. -/
def Strict (Good : Descriptor → Prop) (Describes : Descriptor → Value → Prop) : Prop :=
  ∀ (demand : Demand) (type : Descriptor) (value : Value), Good type → Describes type value →
    (∀ wanted ∈ demand.type?, wanted.accepts type = true) → demand.Meets value

theorem admits_ofValue (value : Value) : (ofValue value).admits value = true := by
  cases value with
  | array items => simp [ofValue, admits, Bounds.admits, Bounds.none]
  | integer n =>
      simp [ofValue, Descriptor.number, plain, admits, admitsPrimitive, admitsNumber, Bounds.admits,
        Bounds.none]
  | float x =>
      simp [ofValue, Descriptor.number, plain, admits, admitsPrimitive, admitsNumber, Bounds.admits,
        Bounds.none]
  | string s =>
      simp [ofValue, Descriptor.string, plain, admits, admitsPrimitive, admitsString, Bounds.admits,
        Bounds.none]
  | _ => rfl

theorem ofValue_of_isNumber {value : Value} (number : value.isNumber = true) :
    ofValue value = .number := by
  cases value <;> first | rfl | cases number

section Respected

variable {Good : Descriptor → Prop} {Describes : Descriptor → Value → Prop}

theorem Respected.ofValue (respected : Respected Good Describes) (value : Value) :
    Describes (.ofValue value) value :=
  respected.admitted (respected.closed.ofValue value) (admits_ofValue value)

/-- What an operator answers is related to the type of the answer. -/
theorem Respected.typeOf (respected : Respected Good Describes) {answer : Answer}
    (operands : List (Descriptor × Value)) (good : ∀ operand ∈ operands, Good operand.1)
    (describes : ∀ operand ∈ operands, Describes operand.1 operand.2) {value : Value}
    (holds : answer.Holds (operands.map Prod.snd) value) :
    Describes (answer.typeOf (operands.map Prod.fst)) value := by
  cases answer with
  | truth =>
      obtain ⟨b, rfl⟩ := holds
      exact respected.ofValue (.boolean b)
  | number =>
      have described := respected.ofValue value
      rwa [ofValue_of_isNumber holds] at described
  | text =>
      obtain ⟨s, rfl⟩ := holds
      exact respected.ofValue (.string s)
  | either =>
      obtain ⟨operand, known, rfl⟩ := List.mem_map.mp holds
      refine respected.union ?_ (List.mem_map_of_mem known) (describes operand known)
      intro type mem
      obtain ⟨other, inside, rfl⟩ := List.mem_map.mp mem
      exact good other inside

end Respected

/-! ## Values of nodes -/

section Nodes

variable {data : Value}

theorem outcome_placed {result : Except EvalCause Value} {gives : Value → Prop}
    {fails : EvalCause → Prop} (place : Nat) :
    (Outcome (placed place result) gives fun failure => fails failure.cause) ↔
      Outcome result gives fails := by
  cases result <;> rfl

/-- Parentheses change neither the value of an expression nor why it has none. -/
theorem outcome_widen {tree : Tree} (span : Span) {gives : Value → Prop} (fails : EvalCause → Prop)
    (outcome : Outcome (value table data tree) gives fun failure => fails failure.cause) :
    Outcome (value table data (tree.widen span)) gives fun failure => fails failure.cause := by
  cases tree with
  | literal value extent => exact outcome
  | identifier path type extent => exact outcome
  | node name bindings type depth extent =>
      rw [value] at outcome
      rw [Tree.widen, value]
      revert outcome
      cases rule table name with
      | error cause => exact id
      | ok rule =>
          cases arguments table data bindings with
          | error failure => exact id
          | ok args =>
              intro outcome
              exact (outcome_placed _).mpr ((outcome_placed _).mp outcome)

theorem Infix.value_node {op : Infix} {rule : Rule}
    (found : Evaluation.rule table op.production.name = .ok rule) (left right : Tree)
    (next : Cursor) :
    value table data (op.node left right next) = (do
      let first ← value table data left
      let second ← value table data right
      placed left.span.start
        (applyRule rule op.production.name [("left", first), ("right", second)])) := by
  rw [Infix.node, nodeOf, Tree.ofMatch, value, found]
  simp only [arguments, placed, bind_assoc]
  rfl

theorem Opener.value_node {op : Opener} {rule : Rule}
    (found : Evaluation.rule table op.production.name = .ok rule) (operand : Tree) (start : Nat)
    (next : Cursor) :
    value table data (op.node operand start next) = (do
      let operand ← value table data operand
      placed start (applyRule rule op.production.name [("operand", operand)])) := by
  rw [Opener.node, nodeOf, Tree.ofMatch, value, found]
  simp only [arguments, placed, bind_assoc]
  rfl

theorem value_choiceNode (condition positive negative : Tree) (next : Cursor) :
    value table data (choiceNode condition positive negative next) = (do
      let first ← value table data condition
      let third ← value table data negative
      let second ← value table data positive
      placed condition.span.start
        (applyRule choose choice.name
          [("condition", first), ("else", third), ("then", second)])) := by
  rw [choiceNode, nodeOf, Tree.ofMatch, value, rule_choice]
  simp only [arguments, placed, bind_assoc]
  rfl

/-- A rule applied at a place gives what it computes, and fails as it fails. -/
theorem outcome_applyRule {rule : Rule} {args : Args} {gives : Value → Prop}
    {fails : RuleError → Prop} (outcome : Outcome (rule args) gives fails) (place : Nat)
    (name : String) :
    Outcome (placed place (applyRule rule name args)) gives
      fun failure => ∃ error, failure.cause = .ruleFailed name error ∧ fails error := by
  unfold applyRule
  cases result : rule args with
  | ok value => exact outcome.of_ok result
  | error error => exact ⟨error, rfl, outcome.of_error result⟩

end Nodes

/-! ## The induction -/

section Outcome

variable {schema : Schema} {limit depth : Nat} {floor : Precedence} {tree : Tree}
  {cursor next : Cursor} {data : Value} {Good : Descriptor → Prop}
  {Describes : Descriptor → Value → Prop}

/-- The outcome of a tree: a value related to its type, or a failure, which is expected if the
relation is strict. -/
def KeepsTo (Good : Descriptor → Prop) (Describes : Descriptor → Value → Prop) (data : Value)
    (tree : Tree) : Prop :=
  Outcome (value table data tree) (Describes tree.type) fun failure =>
    Strict Good Describes → failure.cause.IsExpected

theorem keepsTo_opener (respected : Respected Good Describes) {op : Opener} (known : op ∈ openers)
    {operand : Tree} (good : Good operand.type)
    (accepted : ∀ type ∈ op.demand.type?, type.accepts operand.type = true)
    (inside : KeepsTo Good Describes data operand) (start : Nat) (next : Cursor) :
    KeepsTo Good Describes data (op.node operand start next) := by
  obtain ⟨rule, found, computes⟩ := Opener.exists_rule known
  rw [KeepsTo, op.value_node found, op.type_node known]
  refine Outcome.bind inside fun value describes => ?_
  have outcome := outcome_applyRule (computes value) start op.production.name
  cases result : placed start (applyRule rule op.production.name [("operand", value)]) with
  | ok answer =>
      refine respected.typeOf [(operand.type, value)] ?_ ?_ (outcome.of_ok result)
      · simpa using good
      · simpa using describes
  | error failure =>
      obtain ⟨error, cause, excused⟩ := outcome.of_error result
      intro strict
      rw [cause]
      refine .ruleFailed _ (excused ?_)
      simpa using strict _ _ _ good describes accepted

theorem keepsTo_infixNode (respected : Respected Good Describes) {op : Infix} (known : op ∈ infixes)
    {left right : Tree} (good : Good left.type) (good' : Good right.type)
    (accepted : ∀ type ∈ op.demand.type?, type.accepts left.type = true)
    (accepted' : ∀ type ∈ op.demand.type?, type.accepts right.type = true)
    (before : KeepsTo Good Describes data left) (behind : KeepsTo Good Describes data right)
    (next : Cursor) : KeepsTo Good Describes data (op.node left right next) := by
  obtain ⟨rule, found, computes⟩ := Infix.exists_rule known
  rw [KeepsTo, op.value_node found, op.type_node]
  refine Outcome.bind before fun first describes => ?_
  refine Outcome.bind behind fun second describes' => ?_
  have outcome :=
    outcome_applyRule (computes first second) left.span.start op.production.name
  cases result : placed left.span.start
      (applyRule rule op.production.name [("left", first), ("right", second)]) with
  | ok answer =>
      refine respected.typeOf [(left.type, first), (right.type, second)] ?_ ?_
        (outcome.of_ok result)
      · simpa using ⟨good, good'⟩
      · simpa using ⟨describes, describes'⟩
  | error failure =>
      obtain ⟨error, cause, excused⟩ := outcome.of_error result
      intro strict
      rw [cause]
      refine .ruleFailed _ (excused ?_)
      simpa using ⟨strict _ _ _ good describes accepted, strict _ _ _ good' describes' accepted'⟩

theorem keepsTo_choice (respected : Respected Good Describes) {condition positive negative : Tree}
    (good : Good condition.type) (good' : Good positive.type) (good'' : Good negative.type)
    (accepted : ∀ type ∈ Demand.truth.type?, type.accepts condition.type = true)
    (asked : KeepsTo Good Describes data condition) (yes : KeepsTo Good Describes data positive)
    (no : KeepsTo Good Describes data negative) (next : Cursor) :
    KeepsTo Good Describes data (choiceNode condition positive negative next) := by
  rw [KeepsTo, value_choiceNode, type_choiceNode]
  refine Outcome.bind asked fun first describes => ?_
  refine Outcome.bind no fun third describes'' => ?_
  refine Outcome.bind yes fun second describes' => ?_
  have outcome :=
    outcome_applyRule (outcome_choose first second third) condition.span.start choice.name
  cases result : placed condition.span.start (applyRule choose choice.name
      [("condition", first), ("else", third), ("then", second)]) with
  | ok answer =>
      have holds : Answer.either.Holds [second, third] answer := outcome.of_ok result
      refine respected.typeOf [(positive.type, second), (negative.type, third)] ?_ ?_ holds
      · simpa using ⟨good', good''⟩
      · simpa using ⟨describes', describes''⟩
  | error failure =>
      obtain ⟨error, cause, excused⟩ := outcome.of_error result
      intro strict
      rw [cause]
      exact .ruleFailed _ (excused (strict _ _ _ good describes accepted))

/-- The value of what is written keeps to its type, over data that is fit. -/
theorem Written.keepsTo (respected : Respected Good Describes) (types : Schema.All Good schema)
    (written : Written schema limit depth floor tree cursor next) (fit : IsFit schema data tree) :
    KeepsTo Good Describes data tree := by
  induction written with
  | constant shut found => exact respected.ofValue _
  | field shut noConstant noOpener found =>
      obtain ⟨path, entry, resolved, _, _, rfl, _, _⟩ := reference?_ok found
      refine respected.admitted (types.descriptor (respected.closed.plain .object) resolved) ?_
      exact fit.admits List.mem_cons_self resolved
  | group opened written ends closed ih =>
      have inside := ih (fit.of_paths (by rw [Tree.paths_widen]; exact List.Subset.refl _))
      rw [KeepsTo, Tree.type_widen]
      exact outcome_widen _ (fun cause => Strict Good Describes → cause.IsExpected) inside
  | @opener _ _ _ _ operand op _ known shut noConstant led written ends accepted shallow ih =>
      have inside := ih (fit.of_operand List.mem_cons_self)
      exact keepsTo_opener respected known (respected.closed.type types written) accepted inside _ _
  | @between _ _ _ _ _ left right op _ known tight before chosen led written ends accepted shallow
      first second =>
      have takesLeft := op.takes_iff left |>.mp (extender?_spec chosen).2.1
      have inFront := first (fit.of_operand List.mem_cons_self)
      have behind := second (fit.of_operand (List.mem_cons_of_mem _ List.mem_cons_self))
      exact keepsTo_infixNode respected known (respected.closed.type types before)
        (respected.closed.type types written) takesLeft accepted inFront behind _
  | @chosen _ _ _ _ _ _ condition positive negative _ _ tight before extended led written ends
      divided last lastEnds shallow first second third =>
      have takesCondition := (takes_choice_iff condition).mp (extender?_spec extended).2.1
      have asked := first (fit.of_operand List.mem_cons_self)
      have yes := second
        (fit.of_operand (List.mem_cons_of_mem _ (List.mem_cons_of_mem _ List.mem_cons_self)))
      have no := third (fit.of_operand (List.mem_cons_of_mem _ List.mem_cons_self))
      exact keepsTo_choice respected (respected.closed.type types before)
        (respected.closed.type types written) (respected.closed.type types last) takesCondition
        asked yes no _

end Outcome

end Standard

end Mixfix
