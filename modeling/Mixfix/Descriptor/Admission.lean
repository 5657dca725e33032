import Mixfix.Descriptor.Shape

/-!
# Admission and subsumption

A descriptor admits the values that it describes. It accepts another descriptor when everything that
the other one describes is described by it, as far as can be told from the two: an unknown on either
side is accepted.
-/

set_option autoImplicit false

namespace Mixfix.Descriptor

/-! ## Values -/

/-- Whether a number is within a primitive of numbers. -/
def admitsNumber (subtype : Option Subtype) (bounds : Bounds) (value : Value) : Bool :=
  match value with
  | .integer n => bounds.admits (Binary64.ofInt n.toInt)
  | .float x => (subtype != some .integer || x.isWhole) && bounds.admits x
  | _ => false

/-- Whether a text is within a primitive of strings; its length counts characters. -/
def admitsString (subtype : Option Subtype) (bounds : Bounds) (value : Value) : Bool :=
  match value with
  | .string s =>
    subtype.all (Shape.fits · s.toList) && bounds.admits (Binary64.ofNat s.toList.length)
  | _ => false

/-- Whether a value is within a primitive. -/
def admitsPrimitive (kind : Kind) (subtype : Option Subtype) (bounds : Bounds) (value : Value) :
    Bool :=
  match kind with
  | .number => admitsNumber subtype bounds value
  | .string => admitsString subtype bounds value
  | .boolean => match value with | .boolean _ => true | _ => false
  | .null => match value with | .null => true | _ => false
  | .undefined => match value with | .undefined => true | _ => false
  | .object => match value with | .object _ => true | _ => false

mutual
/-- Whether a descriptor describes a value. -/
def admits : Descriptor → Value → Bool
  | .unknown, _ => true
  | .primitive kind subtype bounds, value => admitsPrimitive kind subtype bounds value
  | .unit expected, value => expected.same value
  | .array element length, value =>
    match value with
    | .array items => length.admits (Binary64.ofNat items.length) && items.all (admits element)
    | _ => false
  | .union members, value => anyAdmits members value
/-- Whether one of several descriptors describes a value. -/
def anyAdmits : List Descriptor → Value → Bool
  | [], _ => false
  | member :: members, value => admits member value || anyAdmits members value
end

/-! ## Descriptors -/

mutual
/-- Whether a test holds for a descriptor, or for one of the members of a union. -/
def anyMember (test : Descriptor → Bool) : Descriptor → Bool
  | .union members => someMember test members
  | descriptor => test descriptor
/-- `anyMember` for one of several descriptors. -/
def someMember (test : Descriptor → Bool) : List Descriptor → Bool
  | [] => false
  | member :: members => anyMember test member || someMember test members
end

/-- Whether a descriptor other than a union accepts a primitive. -/
def acceptsPrimitive (kind : Kind) (subtype : Option Subtype) (bounds : Bounds) :
    Descriptor → Bool
  | .unknown => true
  | .primitive kind' subtype' bounds' =>
    kind' == kind && (subtype'.isNone || subtype' == subtype) && bounds'.impliedBy bounds
  | _ => false

/-- Whether a descriptor other than a union accepts a single value. -/
def acceptsUnit (value : Value) : Descriptor → Bool
  | .unknown => true
  | .primitive kind subtype bounds => admitsPrimitive kind subtype bounds value
  | .unit expected => expected.same value
  | _ => false

mutual
/-- Whether a descriptor accepts another one, by the structure of the other one. -/
def acceptedBy : Descriptor → Descriptor → Bool
  | .unknown, _ => true
  | .primitive kind subtype bounds, wanted =>
    wanted.anyMember (acceptsPrimitive kind subtype bounds)
  | .unit value, wanted => wanted.anyMember (acceptsUnit value)
  | .array element length, wanted =>
    wanted.anyMember fun
      | .unknown => true
      | .array wantedElement wantedLength =>
        acceptedBy element wantedElement && wantedLength.impliedBy length
      | _ => false
  | .union members, wanted => wanted.isUnknown || allAcceptedBy members wanted
/-- Whether a descriptor accepts each of several ones. -/
def allAcceptedBy : List Descriptor → Descriptor → Bool
  | [], _ => true
  | member :: members, wanted => acceptedBy member wanted && allAcceptedBy members wanted
end

/-- Whether every value described by the second descriptor is described by the first. -/
def accepts (wanted given : Descriptor) : Bool := given.acceptedBy wanted

end Mixfix.Descriptor
