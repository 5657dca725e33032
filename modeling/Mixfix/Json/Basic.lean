import Mixfix.Binary64.Rounding
import Mixfix.Dict

/-!
# JSON

The values of JSON. Whole numbers without fraction and exponent stay integers as far as they fit 64
bits, with or without a sign; all other numbers are floating-point numbers. Objects list their
fields by name.
-/

set_option autoImplicit false

namespace Mixfix

/-- A JSON value. -/
inductive Json where
  | null
  | boolean (value : Bool)
  | integer (value : Int)
  | float (value : Binary64)
  | string (value : String)
  | array (items : List Json)
  | object (fields : List (String × Json))
deriving Inhabited

namespace Json

/-- The field of an object under a name. -/
def field? (json : Json) (name : String) : Option Json :=
  match json with
  | .object fields => Dict.get? fields name
  | _ => none

end Json

end Mixfix
