import Mixfix.Text.Location

/-!
# Reports

What went wrong while an expression was parsed or evaluated: the kind of the failure, a message, and
the place in the source text.
-/

set_option autoImplicit false

namespace Mixfix

/-- The kinds of failures. -/
inductive FailureKind where
  /-- Nothing that could stand here was found. -/
  | noMatch
  /-- An operand is not of the type that it is constrained to. -/
  | typeMismatch
  /-- A string lacks its closing quote. -/
  | unterminatedString
  /-- A string contains a malformed escape. -/
  | invalidEscape
  /-- A parenthesis lacks its counterpart. -/
  | unbalancedParen
  /-- A name is not in the schema. -/
  | unknownIdentifier
  /-- Expressions are nested deeper than allowed. -/
  | nestingTooDeep
  /-- The data lacks a field that is read. -/
  | missingData
  /-- The data is not what the schema says. -/
  | dataTypeViolation
  /-- A node has no rule. -/
  | notImplemented
  /-- A rule has no result. -/
  | ruleFailed
deriving DecidableEq

namespace FailureKind

/-- The name of a kind. -/
def name : FailureKind → String
  | .noMatch => "NoMatch"
  | .typeMismatch => "TypeMismatch"
  | .unterminatedString => "UnterminatedString"
  | .invalidEscape => "InvalidEscape"
  | .unbalancedParen => "UnbalancedParen"
  | .unknownIdentifier => "UnknownIdentifier"
  | .nestingTooDeep => "NestingTooDeep"
  | .missingData => "MissingData"
  | .dataTypeViolation => "DataTypeViolation"
  | .notImplemented => "NotImplemented"
  | .ruleFailed => "RuleFailed"

/-- Whether a failure ends a parse even where another way of reading the text could be tried. -/
def isFatal : FailureKind → Bool
  | .unterminatedString => true
  | .invalidEscape => true
  | .nestingTooDeep => true
  | _ => false

/-- How much a failure tells: finding nothing tells less than all other kinds. -/
def specificity : FailureKind → Nat
  | .noMatch => 0
  | _ => 1

end FailureKind

/-- A failure with its place in the source text. -/
structure Report where
  kind : FailureKind
  message : String
  location : Location
deriving DecidableEq

namespace Report

/-- The text of a report. -/
def text (report : Report) : String :=
  report.kind.name ++ " at line " ++ toString report.location.line ++ ", column " ++
    toString report.location.column ++ ": " ++ report.message

/-- The report with its snippet and a caret. -/
def render (report : Report) (radius : Nat) : String :=
  Location.render report.kind.name report.message report.location radius

end Report

end Mixfix
