import Mixfix.Descriptor.Admission
import Mixfix.Descriptor.Text
import Mixfix.Schema.Basic
import Mixfix.Text.Quoted

/-!
# Validation

Data is checked against a schema before an expression reads it. All violations are reported, in the
name order of the schema's fields. A field that is absent from the data is no violation.
-/

set_option autoImplicit false

namespace Mixfix

/-- A value in the data that is not what the schema says. -/
structure Violation where
  /-- The path of the field, or `$` for the data as a whole. -/
  path : String
  /-- The text of the descriptor that the value does not satisfy. -/
  expected : String
  /-- A short description of the value. -/
  found : String
deriving DecidableEq

namespace Violation

/-- The text of a violation. -/
def text (violation : Violation) : String :=
  violation.path ++ " must be " ++ violation.expected ++ " (was " ++ violation.found ++ ")"

end Violation

namespace Value

/-- A short description of a value: numbers, truth values and texts of up to 24 characters are
shown, and all other values are named by their kind. -/
def brief : Value → String
  | .integer n => toString n.toInt
  | .float x => x.text .plain
  | .string s => if s.toList.length ≤ 24 then Text.quoted s else "string"
  | .boolean b => if b then "true" else "false"
  | value => value.kindName

end Value

namespace Schema

mutual
/-- The violations of the value of a field at a path. -/
def entryViolations (path : String) : Entry → Value → List Violation
  | .type descriptor, value =>
    if descriptor.admits value then [] else [⟨path, descriptor.text, value.brief⟩]
  | .nested fields, value =>
    match value with
    | .object data => fieldViolations path fields data
    | value => [⟨if path.isEmpty then "$" else path, "object", value.brief⟩]
/-- The violations of the fields of an object at a path. -/
def fieldViolations (path : String) : List (String × Entry) → List (String × Value) →
    List Violation
  | [], _ => []
  | (name, entry) :: fields, data =>
    match Dict.get? data name with
    | some value =>
      entryViolations (below path name) entry value ++ fieldViolations path fields data
    | none => fieldViolations path fields data
end

/-- The violations of data as a whole. -/
def violations (schema : Schema) (data : Value) : List Violation :=
  entryViolations "" (.nested schema) data

end Schema

end Mixfix
