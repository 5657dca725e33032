import Mixfix.Grammar.Build
import Mixfix.Report
import Mixfix.Schema.Validation
import Mixfix.Tree

/-!
# Evaluation

The value of an expression over data. Before any rule runs the data is validated against the schema,
and every field that the expression reads must be there, unless its type admits an absent value.
Then each node computes its value from the values of its named elements, which are taken in name
order; the first failure ends the evaluation.
-/

set_option autoImplicit false

namespace Mixfix

/-- Why an evaluation has no value. -/
inductive EvalCause where
  /-- The data is not what the schema says. -/
  | dataViolation (violations : List Violation)
  /-- The data lacks a field. -/
  | missingData (path : List String)
  /-- The grammar has no node of the name. -/
  | unknownNode (name : String)
  /-- A node has no rule. -/
  | noRule (name : String)
  /-- The rule of a node has no result. -/
  | ruleFailed (name : String) (error : RuleError)

namespace EvalCause

/-- The kind of a failure. -/
def kind : EvalCause → FailureKind
  | .dataViolation _ => .dataTypeViolation
  | .missingData _ => .missingData
  | .unknownNode _ => .notImplemented
  | .noRule _ => .notImplemented
  | .ruleFailed _ _ => .ruleFailed

/-- The message of a failure. -/
def message : EvalCause → String
  | .dataViolation violations =>
    "data does not match schema: " ++ "; ".intercalate (violations.map Violation.text)
  | .missingData path => "missing data for `" ++ ".".intercalate path ++ "`"
  | .unknownNode name => "no node named `" ++ name ++ "` in this grammar"
  | .noRule name => "`" ++ name ++ "` has no eval rule"
  | .ruleFailed name error => "`" ++ name ++ "`: " ++ error.message

/-- The violations that a failure carries. -/
def violations : EvalCause → List Violation
  | .dataViolation violations => violations
  | _ => []

end EvalCause

/-- A failure of an evaluation, at a byte offset of the source text. -/
structure EvalFailure where
  offset : Nat
  cause : EvalCause

/-- The report of a failure; without the source text it is located by its offset alone. -/
def EvalFailure.report (failure : EvalFailure) (source : Option String) (radius : Nat) : Report :=
  let location :=
    match source with
    | some source => Location.locate source failure.offset radius
    | none => Location.bare failure.offset
  ⟨failure.cause.kind, failure.cause.message, location⟩

namespace Evaluation

/-! ## Before the rules -/

/-- Whether a reference reads a field of a path, a field below it or a field above it. The paths are
compared as they are written. -/
def readsPath (path : List String) (field : String) : Bool :=
  let dotted := ".".intercalate path
  dotted == field || (field ++ ".").isPrefixOf dotted || (dotted ++ ".").isPrefixOf field

/-- Where violations of the data are reported: at the first reference that reads one of their
fields, or at the start of the expression. -/
def violationOffset (tree : Tree) (violations : List Violation) : Nat :=
  match tree.identifiers.find? fun reference =>
    violations.any fun violation => readsPath reference.1 violation.path with
  | some reference => reference.2.start
  | none => tree.span.start

/-- Whether the schema lets a field be absent. -/
def mayBeAbsent (schema : Schema) (path : List String) : Bool :=
  (schema.resolve path).any fun entry => entry.descriptor.admits .undefined

/-- The first reference to a field that is missing from the data. -/
def firstMissing (schema : Schema) (data : Value) (tree : Tree) : Option (List String × Span) :=
  tree.identifiers.find? fun reference =>
    (data.lookup reference.1).isNone && !mayBeAbsent schema reference.1

/-- What makes the data unfit for an expression, if anything does. -/
def unfit? (schema : Schema) (data : Value) (tree : Tree) : Option EvalFailure :=
  match schema.violations data with
  | [] => (firstMissing schema data tree).map fun reference =>
    ⟨reference.2.start, .missingData reference.1⟩
  | violations => some ⟨violationOffset tree violations, .dataViolation violations⟩

/-! ## Values -/

/-- The rule of a node. -/
def rule (grammar : Grammar) (name : String) : Except EvalCause Rule :=
  match grammar.node? name with
  | none => .error (.unknownNode name)
  | some definition =>
    match definition.rule with
    | none => .error (.noRule name)
    | some rule => .ok rule

/-- Applies the rule of a node. -/
def applyRule (rule : Rule) (name : String) (args : Args) : Except EvalCause Value :=
  match rule args with
  | .ok value => .ok value
  | .error error => .error (.ruleFailed name error)

/-- Places the cause of a failure at an offset. -/
def placed {α : Type} (offset : Nat) : Except EvalCause α → Except EvalFailure α
  | .ok result => .ok result
  | .error cause => .error ⟨offset, cause⟩

mutual
/-- The value of a tree over data that is fit for it. -/
def value (grammar : Grammar) (data : Value) : Tree → Except EvalFailure Value
  | .literal value _ => .ok value
  | .identifier path _ _ => .ok ((data.lookup path).getD .undefined)
  | .node name bindings _ _ extent => do
    let rule ← placed extent.span.start (rule grammar name)
    let args ← arguments grammar data bindings
    placed extent.span.start (applyRule rule name args)
/-- The values of bindings. -/
def arguments (grammar : Grammar) (data : Value) :
    List (String × Binding) → Except EvalFailure (List (String × Value))
  | [] => .ok []
  | (name, .tree tree) :: bindings => do
    let value ← value grammar data tree
    .ok ((name, value) :: (← arguments grammar data bindings))
  | (name, .value constant) :: bindings => do
    .ok ((name, constant) :: (← arguments grammar data bindings))
end

end Evaluation

/-- Evaluates an expression over data. -/
def evaluate (grammar : Grammar) (schema : Schema) (data : Value) (tree : Tree) :
    Except EvalFailure Value :=
  match Evaluation.unfit? schema data tree with
  | some failure => .error failure
  | none => Evaluation.value grammar data tree

end Mixfix
