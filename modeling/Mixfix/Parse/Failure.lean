import Mixfix.Descriptor.Text
import Mixfix.Lexeme.Quotation
import Mixfix.Report

/-!
# Failures of a parse

Why a text, or one way of reading it, is not an expression. Of several failures the one farther into
the text is the better one to report, and at the same place the one that tells more.
-/

set_option autoImplicit false

namespace Mixfix

/-- Why reading failed. -/
inductive Cause where
  /-- The text goes on after the expression. -/
  | trailing (stray : Bool) (found : String)
  /-- No expression starts here. -/
  | expectedExpression (found : String)
  /-- A node that has begun cannot go on. -/
  | expectedElement (node wanted found : String)
  /-- A parenthesis is not closed. -/
  | unclosedParen (found : String)
  /-- The expression before a node is not of the type it asks for. -/
  | leftOperand (node : String) (wanted found : Descriptor)
  /-- An operand of a node is not of the type it asks for. -/
  | operand (node : String) (wanted found : Descriptor)
  /-- A name is not in the schema. -/
  | unknownIdentifier (name : String)
  /-- A name is not in a nested schema. -/
  | unknownField (name : String) (path : List String)
  /-- A string is malformed. -/
  | quotation (fault : QuotationFault)
  /-- Expressions are nested deeper than the limit. -/
  | tooDeep (limit : Nat)

namespace Cause

/-- The kind of a failure. -/
def kind : Cause → FailureKind
  | .trailing stray _ => if stray then .unbalancedParen else .noMatch
  | .expectedExpression _ => .noMatch
  | .expectedElement _ _ _ => .noMatch
  | .unclosedParen _ => .unbalancedParen
  | .leftOperand _ _ _ => .typeMismatch
  | .operand _ _ _ => .typeMismatch
  | .unknownIdentifier _ => .unknownIdentifier
  | .unknownField _ _ => .unknownIdentifier
  | .quotation (.unterminated _) => .unterminatedString
  | .quotation _ => .invalidEscape
  | .tooDeep _ => .nestingTooDeep

/-- The message of a failure. -/
def message : Cause → String
  | .trailing _ found => "unexpected " ++ found ++ " after expression"
  | .expectedExpression found => "expected an expression, found " ++ found
  | .expectedElement node wanted found =>
    "`" ++ node ++ "` expected " ++ wanted ++ ", found " ++ found
  | .unclosedParen found => "unclosed `(`: expected `)`, found " ++ found
  | .leftOperand node wanted found =>
    "`" ++ node ++ "` expects its left operand to be " ++ wanted.text ++ ", found " ++ found.text
  | .operand node wanted found =>
    "`" ++ node ++ "` expects " ++ wanted.text ++ ", found " ++ found.text
  | .unknownIdentifier name => "unknown identifier `" ++ name ++ "`"
  | .unknownField name path => "unknown field `" ++ name ++ "` in `" ++ ".".intercalate path ++ "`"
  | .quotation fault => fault.message
  | .tooDeep limit => "expression nested deeper than " ++ toString limit ++ " levels"

end Cause

/-- A failure at a byte offset. -/
structure Failure where
  offset : Nat
  cause : Cause

namespace Failure

/-- The kind of a failure. -/
def kind (failure : Failure) : FailureKind := failure.cause.kind

/-- Whether a failure ends the parse. -/
def isFatal (failure : Failure) : Bool := failure.kind.isFatal

/-- Whether a failure is better to report than another one. -/
def outranks (failure other : Failure) : Bool :=
  other.offset < failure.offset ||
    (failure.offset == other.offset && other.kind.specificity < failure.kind.specificity)

/-- The report of a failure in a source text. -/
def report (failure : Failure) (source : String) (radius : Nat) : Report :=
  ⟨failure.kind, failure.cause.message, Location.locate source failure.offset radius⟩

end Failure

end Mixfix
