import Mixfix.Descriptor.Basic

/-!
# The text of a descriptor

The canonical spelling. A pair of limits is written around its base as a range, a single limit and a
pair of equal limits behind it. The element of an array stands in parentheses when it is a union or
carries limits of its own.
-/

set_option autoImplicit false

namespace Mixfix

namespace Bounds

/-- How a limit below is marked. -/
def belowMark (bound : Bound) : String := if bound.inclusive then "<=" else "<"

/-- How a limit above is marked. -/
def aboveMark (bound : Bound) : String := if bound.inclusive then ">=" else ">"

/-- The text of limits around their base. -/
def around (bounds : Bounds) (base : String) : String :=
  match bounds.lower, bounds.upper with
  | .none, .none => base
  | some lower, some upper =>
    if lower.same upper && lower.inclusive then base ++ " == " ++ lower.limit.limitText
    else
      lower.limit.limitText ++ " " ++ belowMark lower ++ " " ++ base ++ " " ++ belowMark upper ++
        " " ++ upper.limit.limitText
  | some lower, .none => base ++ " " ++ aboveMark lower ++ " " ++ lower.limit.limitText
  | .none, some upper => base ++ " " ++ belowMark upper ++ " " ++ upper.limit.limitText

end Bounds

namespace Descriptor

/-- How a character is written in a quoted value. -/
def quotedChar (c : Char) : List Char :=
  if c = '\'' || c = '\\' then ['\\', c] else [c]

/-- The text of a value that is a descriptor of its own. -/
def unitText : Value → String
  | .string s => String.ofList ('\'' :: s.toList.flatMap quotedChar ++ ['\''])
  | .integer n => toString n.toInt
  | .float x => x.limitText
  | .boolean b => if b then "true" else "false"
  | value => value.kindName

/-- The text of a kind with its refinement. -/
def kindText (kind : Kind) : Option Subtype → String
  | none => kind.keyword
  | some subtype => kind.keyword ++ "." ++ subtype.keyword

/-- Whether a descriptor stands in parentheses as the element of an array. -/
def isGrouped : Descriptor → Bool
  | .union _ => true
  | .primitive _ _ bounds => !bounds.isEmpty
  | .array _ length => !length.isEmpty
  | _ => false

/-- The texts of the members of a union, joined. -/
def joinMembers (texts : List String) : String := " | ".intercalate texts

mutual
/-- The canonical text of a descriptor. -/
def text : Descriptor → String
  | .unknown => "unknown"
  | .primitive kind subtype bounds => bounds.around (kindText kind subtype)
  | .unit value => unitText value
  | .array element length =>
    length.around (if element.isGrouped then "(" ++ text element ++ ")[]" else text element ++ "[]")
  | .union members => joinMembers (texts members)
/-- The canonical texts of descriptors. -/
def texts : List Descriptor → List String
  | [] => []
  | member :: members => text member :: texts members
end

end Descriptor

end Mixfix
