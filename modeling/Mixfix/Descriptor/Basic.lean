import Mixfix.Binary64.Text
import Mixfix.Value

/-!
# Type descriptors

What is known about a value before it is there: nothing, its kind with an optional shape and bounds,
its being equal to a given value, its being an array, or its being described by one of several
descriptors. Bounds limit a number itself, and the length of a string or of an array.

A union is never a member of a union, and has at least two members; `Descriptor.union` builds such
unions from any list of members.
-/

set_option autoImplicit false

namespace Mixfix

/-- The kinds that a descriptor can name. -/
inductive Kind where
  | number
  | string
  | boolean
  | null
  | undefined
  | object
deriving DecidableEq

namespace Kind

/-- How a kind is written. -/
def keyword : Kind → String
  | .number => "number"
  | .string => "string"
  | .boolean => "boolean"
  | .null => "null"
  | .undefined => "undefined"
  | .object => "object"

/-- Every kind. -/
def all : List Kind := [.number, .string, .boolean, .null, .undefined, .object]

/-- Whether values of a kind can be bounded. -/
def isBounded : Kind → Bool
  | .number => true
  | .string => true
  | _ => false

end Kind

/-- Refinements of numbers and strings. -/
inductive Subtype where
  | integer
  | email
  | url
  | uuid
  | date
  | alpha
  | alphanumeric
deriving DecidableEq

namespace Subtype

/-- How a subtype is written behind its kind. -/
def keyword : Subtype → String
  | .integer => "integer"
  | .email => "email"
  | .url => "url"
  | .uuid => "uuid"
  | .date => "date"
  | .alpha => "alpha"
  | .alphanumeric => "alphanumeric"

/-- The kind that a subtype refines. -/
def kind : Subtype → Kind
  | .integer => .number
  | _ => .string

/-- Every subtype. -/
def all : List Subtype := [.integer, .email, .url, .uuid, .date, .alpha, .alphanumeric]

end Subtype

/-! ## Bounds -/

/-- A limit, and whether it is allowed itself. -/
structure Bound where
  limit : Binary64
  inclusive : Bool

namespace Bound

/-- Whether two bounds allow the same on the same side. -/
def same (bound other : Bound) : Bool :=
  bound.limit.eq other.limit && bound.inclusive == other.inclusive

/-- Whether a quantity is not below a lower bound. -/
def allowsAbove (bound : Bound) (x : Binary64) : Bool :=
  bound.limit.lt x || (x.eq bound.limit && bound.inclusive)

/-- Whether a quantity is not above an upper bound. -/
def allowsBelow (bound : Bound) (x : Binary64) : Bool :=
  x.lt bound.limit || (x.eq bound.limit && bound.inclusive)

/-- Whether a lower bound is no stricter than another. -/
def isBelow (bound other : Bound) : Bool :=
  bound.limit.lt other.limit ||
    (other.limit.eq bound.limit && (bound.inclusive || !other.inclusive))

/-- Whether an upper bound is no stricter than another. -/
def isAbove (bound other : Bound) : Bool :=
  other.limit.lt bound.limit ||
    (other.limit.eq bound.limit && (bound.inclusive || !other.inclusive))

end Bound

/-- The limits of a quantity on either side. -/
structure Bounds where
  lower : Option Bound
  upper : Option Bound

namespace Bounds

/-- No limits. -/
def none : Bounds := ⟨.none, .none⟩

/-- Whether there are no limits. -/
def isEmpty (bounds : Bounds) : Bool := bounds.lower.isNone && bounds.upper.isNone

/-- Whether a quantity is within the limits. -/
def admits (bounds : Bounds) (x : Binary64) : Bool :=
  bounds.lower.all (·.allowsAbove x) && bounds.upper.all (·.allowsBelow x)

/-- Whether an optional limit is at least as loose as another one. -/
def looser (isLooser : Bound → Bound → Bool) : Option Bound → Option Bound → Bool
  | .none, _ => true
  | some _, .none => false
  | some bound, some other => isLooser bound other

/-- Whether the limits are at least as loose as other limits on both sides. -/
def impliedBy (bounds other : Bounds) : Bool :=
  looser Bound.isBelow bounds.lower other.lower && looser Bound.isAbove bounds.upper other.upper

/-- Whether two optional limits are the same. -/
def sameLimit : Option Bound → Option Bound → Bool
  | .none, .none => true
  | some bound, some other => bound.same other
  | _, _ => false

/-- Whether two pairs of limits are the same. -/
def same (bounds other : Bounds) : Bool :=
  sameLimit bounds.lower other.lower && sameLimit bounds.upper other.upper

end Bounds

/-! ## Descriptors -/

/-- A description of values. -/
inductive Descriptor where
  /-- Nothing is known. -/
  | unknown
  /-- A kind, perhaps refined and bounded. -/
  | primitive (kind : Kind) (subtype : Option Subtype) (bounds : Bounds)
  /-- Exactly the values that are the same as the given one. -/
  | unit (value : Value)
  /-- Arrays with elements of a type and with a bounded length. -/
  | array (element : Descriptor) (length : Bounds)
  /-- The values of any of the members. -/
  | union (members : List Descriptor)

namespace Descriptor

/-- A kind without refinement and bounds. -/
def plain (kind : Kind) : Descriptor := .primitive kind none .none

/-- The descriptor of numbers. -/
def number : Descriptor := plain .number

/-- The descriptor of strings. -/
def string : Descriptor := plain .string

/-- The descriptor of truth values. -/
def boolean : Descriptor := plain .boolean

/-- The descriptor of objects. -/
def object : Descriptor := plain .object

/-- Whether nothing is known. -/
def isUnknown : Descriptor → Bool
  | .unknown => true
  | _ => false

/-- The descriptor that a value gives as a literal. -/
def ofValue : Value → Descriptor
  | .null => plain .null
  | .undefined => plain .undefined
  | .boolean _ => boolean
  | .integer _ => number
  | .float _ => number
  | .string _ => string
  | .array _ => .array .unknown .none
  | .object _ => object

/-- The members of a union, or the descriptor itself. -/
def members : Descriptor → List Descriptor
  | .union members => members
  | descriptor => [descriptor]

/-- The union of descriptors: unions among them are opened, a single member stands for itself, and
without members nothing is known. -/
def unionOf (descriptors : List Descriptor) : Descriptor :=
  match descriptors.flatMap members with
  | [] => .unknown
  | [member] => member
  | members => .union members

mutual
/-- Equality by structure, where limits and values compare as such. -/
def identical : Descriptor → Descriptor → Bool
  | .unknown, .unknown => true
  | .primitive kind subtype bounds, .primitive kind' subtype' bounds' =>
    kind == kind' && subtype == subtype' && bounds.same bounds'
  | .unit value, .unit value' => value.identical value'
  | .array element length, .array element' length' =>
    identical element element' && length.same length'
  | .union members, .union members' => identicalMembers members members'
  | _, _ => false
/-- `identical`, member by member. -/
def identicalMembers : List Descriptor → List Descriptor → Bool
  | [], [] => true
  | member :: members, member' :: members' =>
    identical member member' && identicalMembers members members'
  | _, _ => false
end

end Descriptor

end Mixfix
