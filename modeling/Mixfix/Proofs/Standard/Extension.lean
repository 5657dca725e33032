import Mixfix.Proofs.Descriptor.Reading
import Mixfix.Proofs.Schema.Extension
import Mixfix.Proofs.Standard.Reading

/-!
# Expressions of a larger schema

A text that starts with an expression does so with the same tree, and is left at the same place, when
the schema gets more fields (`atStart_of_extends`).

The parser asks the schema only where a reference stands, and there it gives up at once if a field is
missing: no other way of reading the text is tried. So what is written with the smaller schema is
written with the larger one reference by reference (`Written.of_extends`), and where expressions end
does not depend on the schema.
-/

set_option autoImplicit false

namespace Mixfix.Standard

open Parse

variable {schema larger : Schema} {limit depth : Nat} {floor : Precedence} {tree : Tree}
  {cursor next : Cursor}

/-- What is written is written with more fields. -/
theorem Written.of_extends (more : larger.Extends schema)
    (written : Written schema limit depth floor tree cursor next) :
    Written larger limit depth floor tree cursor next := by
  induction written with
  | constant shut found => exact .constant shut found
  | field shut noConstant noOpener found =>
      exact .field shut noConstant noOpener (reference?_of_extends more found)
  | group opened _ ends closed inside => exact .group opened inside ends closed
  | opener known shut noConstant led _ ends accepted shallow inside =>
      exact .opener known shut noConstant led inside ends accepted shallow
  | between known tight _ chosen led _ ends accepted shallow before inside =>
      exact .between known tight before chosen led inside ends accepted shallow
  | chosen tight _ extended led _ ends divided _ lastEnds shallow before inside last =>
      exact .chosen tight before extended led inside ends divided last lastEnds shallow

/-- A text that starts with an expression starts with the same one, in the same place, when the
schema gets more fields. -/
theorem atStart_of_extends {grammar : Grammar} (built : Standard.grammar = .ok grammar)
    (more : larger.Extends schema) {source : String} {parse : Partial}
    (ok : atStart ⟨grammar, schema, limit⟩ source = .ok parse) :
    atStart ⟨grammar, larger, limit⟩ source = .ok parse := by
  obtain rfl : table = grammar := Except.ok.inj (grammar_eq.symm.trans built)
  obtain ⟨next, written, stops, behind⟩ := atStart_ok_iff.mp ok
  exact atStart_ok_iff.mpr ⟨next, written.of_extends more, stops, behind⟩

/-- An order with its total. -/
def pricedOrder : Schema := [("order", .nested [("total", .type .number)])]

/-- An order with its total and a note, and who gave it. -/
def signedOrder : Schema :=
  [("by", .type .string), ("order", .nested [("note", .type .string), ("total", .type .number)])]

theorem extends_signedOrder : signedOrder.Extends pricedOrder := by
  simp only [pricedOrder, Schema.Extends, Entry.Extends]
  exact ⟨⟨_, rfl, _, rfl, ⟨_, rfl, rfl⟩, trivial⟩, trivial⟩

theorem atStart_of_extends_signedOrder : ∃ parse,
    atStart ⟨table, pricedOrder, 8⟩ "-order.total * (order.total + 1) .note" = .ok parse ∧
      atStart ⟨table, signedOrder, 8⟩ "-order.total * (order.total + 1) .note" = .ok parse := by
  have accepted : ((atStart ⟨table, pricedOrder, 8⟩
      "-order.total * (order.total + 1) .note").toOption.any fun _ => true) = true := by
    decide +kernel
  obtain ⟨parse, ok, _⟩ := exists_ok_of_any accepted
  exact ⟨parse, ok, atStart_of_extends grammar_eq extends_signedOrder ok⟩

end Mixfix.Standard
