import Mixfix.Descriptor.Basic
import Mixfix.Grammar.Pattern

/-!
# Definitions of nodes

A language is declared as a list of definitions. Each names a node and gives its pattern, its
precedence and how the type of its result is found, and may carry a rule that computes the result
from the values of the named elements.
-/

set_option autoImplicit false

namespace Mixfix

/-- The values of a node's named elements. -/
abbrev Args := Dict Value

/-- Why a rule has no result. -/
inductive RuleError where
  | missingBinding (name : String)
  | wrongType (name : String) (expected : Kind) (found : String)
  | divisionByZero
  | moduloByZero
  | incomparable (left right : String)
  | comparedNaN
  /-- An error in words of its own. -/
  | stated (message : String)
deriving DecidableEq

/-- The message of an error. -/
def RuleError.message : RuleError → String
  | .missingBinding name => "missing binding `" ++ name ++ "`"
  | .wrongType name expected found =>
    "binding `" ++ name ++ "` must be " ++ expected.keyword ++ ", got " ++ found
  | .divisionByZero => "division by zero"
  | .moduloByZero => "modulo by zero"
  | .incomparable left right => "cannot compare " ++ left ++ " with " ++ right
  | .comparedNaN => "cannot compare NaN"
  | .stated message => message

/-- Computes the result of a node. -/
abbrev Rule := Args → Except RuleError Value

namespace Args

/-- The value under a name. -/
def value (args : Args) (name : String) : Except RuleError Value :=
  match Dict.get? args name with
  | some value => .ok value
  | none => .error (.missingBinding name)

/-- The number under a name. -/
def number (args : Args) (name : String) : Except RuleError Binary64 := do
  let value ← value args name
  match value.toFloat? with
  | some x => .ok x
  | none => .error (.wrongType name .number value.kindName)

/-- The truth value under a name. -/
def boolean (args : Args) (name : String) : Except RuleError Bool := do
  let value ← value args name
  match value.toBool? with
  | some b => .ok b
  | none => .error (.wrongType name .boolean value.kindName)

/-- The text under a name. -/
def string (args : Args) (name : String) : Except RuleError String := do
  let value ← value args name
  match value.toText? with
  | some s => .ok s
  | none => .error (.wrongType name .string value.kindName)

end Args

/-- The declaration of a node; types are given by their texts. -/
structure Definition where
  name : String
  pattern : List (Element String)
  precedence : Precedence
  result : ResultType String
  rule : Option Rule

namespace Definition

/-- A node with a result of unknown type and without a rule. -/
def plain (name : String) (precedence : Precedence) (pattern : List (Element String)) :
    Definition :=
  ⟨name, pattern, precedence, .fixed "unknown", none⟩

/-- A node with its token between two operands, chained from left to right. -/
def binary (name : String) (level : UInt32) (token : String) (type : Option String) : Definition :=
  plain name (.level level)
    [.operand .lhs type (some "left"), .text token, .operand .lhs type (some "right")]

/-- The same node with another type of result. -/
def returns (definition : Definition) (result : ResultType String) : Definition :=
  { definition with result }

/-- The same node with a rule. -/
def computedBy (definition : Definition) (rule : Rule) : Definition :=
  { definition with rule := some rule }

end Definition

end Mixfix
