import Mixfix.Binary64.Rounding
import Mixfix.Dict

/-!
# Values

What expressions compute with. Integers and floating-point numbers are kept apart, but both are
numbers and compare by value (`Value.same`). Objects list their fields by name.
-/

set_option autoImplicit false

namespace Mixfix

/-- A value of an expression or of the data it reads. -/
inductive Value where
  | null
  /-- The value of a field that is absent. -/
  | undefined
  | boolean (value : Bool)
  | integer (value : Int64)
  | float (value : Binary64)
  | string (value : String)
  | array (items : List Value)
  | object (fields : List (String × Value))
deriving Inhabited

namespace Value

/-- The word for the kind of a value. -/
def kindName : Value → String
  | .null => "null"
  | .undefined => "undefined"
  | .boolean _ => "boolean"
  | .integer _ => "number"
  | .float _ => "number"
  | .string _ => "string"
  | .array _ => "array"
  | .object _ => "object"

/-- Whether a value is a number. -/
def isNumber : Value → Bool
  | .integer _ => true
  | .float _ => true
  | _ => false

/-- Whether a value is `null` or `undefined`. -/
def isNullish : Value → Bool
  | .null => true
  | .undefined => true
  | _ => false

/-- A number as a floating-point number. -/
def toFloat? : Value → Option Binary64
  | .integer n => some (Binary64.ofInt n.toInt)
  | .float x => some x
  | _ => none

/-- The truth value that a value is. -/
def toBool? : Value → Option Bool
  | .boolean b => some b
  | _ => none

/-- The text that a value is. -/
def toText? : Value → Option String
  | .string s => some s
  | _ => none

/-- Whether two values are equal as floating-point numbers. -/
def sameNumber (a b : Value) : Bool :=
  match a.toFloat?, b.toFloat? with
  | some x, some y => x.eq y
  | _, _ => false

mutual
/-- Equality by structure where integers and floating-point numbers compare by value. -/
def same : Value → Value → Bool
  | .null, .null => true
  | .undefined, .undefined => true
  | .boolean a, .boolean b => a == b
  | .integer a, .integer b => a == b
  | .integer a, .float y => sameNumber (.integer a) (.float y)
  | .float x, .integer b => sameNumber (.float x) (.integer b)
  | .float x, .float y => x.eq y
  | .string a, .string b => a == b
  | .array items, .array items' => sameItems items items'
  | .object fields, .object fields' => sameFields fields fields'
  | _, _ => false
/-- `same`, item by item. -/
def sameItems : List Value → List Value → Bool
  | [], [] => true
  | item :: items, item' :: items' => same item item' && sameItems items items'
  | _, _ => false
/-- `same`, field by field. -/
def sameFields : List (String × Value) → List (String × Value) → Bool
  | [], [] => true
  | (name, value) :: fields, (name', value') :: fields' =>
    name == name' && same value value' && sameFields fields fields'
  | _, _ => false
end

mutual
/-- Equality by structure where integers differ from floating-point numbers. -/
def identical : Value → Value → Bool
  | .null, .null => true
  | .undefined, .undefined => true
  | .boolean a, .boolean b => a == b
  | .integer a, .integer b => a == b
  | .float x, .float y => x.eq y
  | .string a, .string b => a == b
  | .array items, .array items' => identicalItems items items'
  | .object fields, .object fields' => identicalFields fields fields'
  | _, _ => false
/-- `identical`, item by item. -/
def identicalItems : List Value → List Value → Bool
  | [], [] => true
  | item :: items, item' :: items' => identical item item' && identicalItems items items'
  | _, _ => false
/-- `identical`, field by field. -/
def identicalFields : List (String × Value) → List (String × Value) → Bool
  | [], [] => true
  | (name, value) :: fields, (name', value') :: fields' =>
    name == name' && identical value value' && identicalFields fields fields'
  | _, _ => false
end

/-- The field of a value under a name. -/
def field? (value : Value) (name : String) : Option Value :=
  match value with
  | .object fields => Dict.get? fields name
  | _ => none

/-- Follows a path of field names. -/
def lookup (value : Value) : List String → Option Value
  | [] => some value
  | name :: path =>
    match value.field? name with
    | some inner => inner.lookup path
    | none => none

end Value

end Mixfix
