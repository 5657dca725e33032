import Mixfix.Json.Basic
import Mixfix.Text.Numeral
import Mixfix.Value

/-!
# Values as JSON

JSON has no word for an absent value and none for infinities and NaN; they become `null`. On the way
back an integer beyond 64 bits with sign becomes a floating-point number. All else is kept, integers
and floating-point numbers apart.
-/

set_option autoImplicit false

namespace Mixfix

namespace Value

mutual
/-- The value that a JSON value stands for. -/
def ofJson : Json → Value
  | .null => .null
  | .boolean b => .boolean b
  | .integer n =>
    match Numeral.toInt64? n with
    | some n => .integer n
    | none => .float (Binary64.ofInt n)
  | .float x => .float x
  | .string s => .string s
  | .array items => .array (ofJsonItems items)
  | .object fields => .object (ofJsonFields fields)
/-- `ofJson`, item by item. -/
def ofJsonItems : List Json → List Value
  | [] => []
  | item :: items => ofJson item :: ofJsonItems items
/-- `ofJson`, field by field. -/
def ofJsonFields : List (String × Json) → List (String × Value)
  | [] => []
  | (name, json) :: fields => (name, ofJson json) :: ofJsonFields fields
end

mutual
/-- The JSON value that a value is written as. -/
def toJson : Value → Json
  | .null => .null
  | .undefined => .null
  | .boolean b => .boolean b
  | .integer n => .integer n.toInt
  | .float x => if x.isFinite then .float x else .null
  | .string s => .string s
  | .array items => .array (toJsonItems items)
  | .object fields => .object (toJsonFields fields)
/-- `toJson`, item by item. -/
def toJsonItems : List Value → List Json
  | [] => []
  | item :: items => toJson item :: toJsonItems items
/-- `toJson`, field by field. -/
def toJsonFields : List (String × Value) → List (String × Json)
  | [] => []
  | (name, value) :: fields => (name, toJson value) :: toJsonFields fields
end

end Value

end Mixfix
