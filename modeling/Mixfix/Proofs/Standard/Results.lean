import Mixfix.Proofs.Standard.Preservation

/-!
# What standard nodes give for values

A standard node has no access to anything but the values of its operands, so what it gives is a function
of its name and of these values. `Infix.value_eq` and `Opener.value_eq` tie this function to evaluation.
-/

set_option autoImplicit false

namespace Mixfix.Standard

open Evaluation (applyRule value placed)
open Parse

/-- What the node of a name gives for the values of its operands. -/
def resultOf (name : String) (args : Args) : Except EvalCause Value := do
  applyRule (← Evaluation.rule table name) name args

/-- What a node between two operands gives for their values. -/
def infixResult (name : String) (left right : Value) : Except EvalCause Value :=
  resultOf name [("left", left), ("right", right)]

/-- What a node before an operand gives for its value. -/
def openerResult (name : String) (operand : Value) : Except EvalCause Value :=
  resultOf name [("operand", operand)]

theorem resultOf_eq {name : String} {rule : Rule} (found : Evaluation.rule table name = .ok rule)
    (args : Args) : resultOf name args = applyRule rule name args := by
  rw [resultOf, found]
  rfl

/-- The value of an infix node is what the node gives for the values of its operands. -/
theorem Infix.value_eq {op : Infix} (known : op ∈ infixes) (data : Value) (left right : Tree)
    (next : Cursor) :
    value table data (op.node left right next) = (do
      let first ← value table data left
      let second ← value table data right
      placed left.span.start (infixResult op.name first second)) := by
  obtain ⟨rule, found, _⟩ := Infix.exists_rule known
  have applied (args : Args) : resultOf op.name args = applyRule rule op.production.name args :=
    resultOf_eq found args
  simp only [op.value_node found, infixResult, applied]

/-- The value of a node before an operand is what the node gives for the value of the operand. -/
theorem Opener.value_eq {op : Opener} (known : op ∈ openers) (data : Value) (operand : Tree)
    (start : Nat) (next : Cursor) :
    value table data (op.node operand start next) = (do
      let operand ← value table data operand
      placed start (openerResult op.name operand)) := by
  obtain ⟨rule, found, _⟩ := Opener.exists_rule known
  have applied (args : Args) : resultOf op.name args = applyRule rule op.production.name args :=
    resultOf_eq found args
  simp only [op.value_node found, openerResult, applied]

end Mixfix.Standard
